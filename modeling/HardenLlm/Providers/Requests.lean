import HardenLlm.Cachekey.Identity
import HardenLlm.Runtime.Model.Results
import Mathlib.Data.List.TakeWhile
/-!
# The requests the router prepares

What `Prepare` of `router.go` puts into an operation, as far as it decides
where the request goes: the model is in the payload, or in the path for
Gemini, and `buildPayload` chooses the protocol. Requests with one hash go
to one target.
-/

namespace HardenLlm.Providers

open List Bindings
open HardenLlm.Runtime

variable {A : Type}

/-! ## Names without blanks -/

/-- The characters of a text that are no blanks. -/
def solid (cs : List Char) : List Char := cs.filter fun c => !Batch.isSpace c

theorem solid_append (cs ds : List Char) : solid (cs ++ ds) = solid cs ++ solid ds :=
  filter_append ..

theorem solid_dropWhile (cs : List Char) : solid (cs.dropWhile Batch.isSpace) = solid cs := by
  induction cs with
  | nil => rfl
  | cons c rest ih =>
    rw [dropWhile_cons]
    split
    · rename_i hspace
      rw [ih, solid, solid, filter_cons_of_neg (by simp [hspace])]
    · rfl

theorem solid_reverse (cs : List Char) : solid cs.reverse = (solid cs).reverse :=
  filter_reverse ..

/-- Trimming takes only blanks away. -/
theorem solid_trimSpace (s : String) : solid (Runtime.trimSpace s).toList = solid s.toList := by
  rw [Runtime.trimSpace, String.toList_ofList, solid_reverse, solid_dropWhile, solid_reverse,
    reverse_reverse, solid_dropWhile]

/-! ## The path of a Gemini request -/

def geminiProtocol : String := "google.gemini.generateContent"

/-- `strings.TrimPrefix`. -/
def withoutStart (start cs : List Char) : List Char :=
  if start.isPrefixOf cs then cs.drop start.length else cs

/-- The model's name in the path. -/
def geminiModel (model : String) : List Char :=
  withoutStart "models/".toList (model.toList.dropWhile (· = '/'))

def geminiPath (model : String) : String :=
  "/v1beta/models/" ++ String.ofList (geminiModel model) ++ ":generateContent"

theorem withoutStart_spec (start cs : List Char) :
    ∃ front, cs = front ++ withoutStart start cs ∧ (front = [] ∨ front = start) := by
  unfold withoutStart
  split
  · rename_i hstart
    obtain ⟨rest, rfl⟩ := isPrefixOf_iff_prefix.1 hstart
    exact ⟨start, by rw [drop_left], .inr rfl⟩
  · exact ⟨[], rfl, .inl rfl⟩

/-- What is cut off before the name has no blanks. -/
theorem geminiModel_spec (model : String) :
    ∃ front, model.toList = front ++ geminiModel model ∧ solid front = front := by
  obtain ⟨start, hstart, hcases⟩ :=
    withoutStart_spec "models/".toList (model.toList.dropWhile (· = '/'))
  refine ⟨model.toList.takeWhile (· = '/') ++ start, ?_, ?_⟩
  · rw [append_assoc, geminiModel, ← hstart, takeWhile_append_dropWhile]
  · have hslashes : solid (model.toList.takeWhile (· = '/')) = model.toList.takeWhile (· = '/') := by
      refine filter_eq_self.2 fun c hc => ?_
      obtain rfl : c = '/' := by simpa using mem_takeWhile_imp hc
      decide
    have hsolid : solid start = start := by
      rcases hcases with rfl | rfl
      · rfl
      · decide
    rw [solid_append, hslashes, hsolid]

theorem eq_of_surrounded {before after : String} {cs ds : List Char}
    (h : before ++ String.ofList cs ++ after = before ++ String.ofList ds ++ after) : cs = ds := by
  have hchars := congrArg String.toList h
  simp only [String.toList_append, String.toList_ofList] at hchars
  exact append_cancel_left (append_cancel_right hchars)

/-- **The path tells models apart** that are the same but for blanks. -/
theorem eq_of_geminiPath_eq {model model' : String}
    (htrim : Runtime.trimSpace model = Runtime.trimSpace model') (hpath : geminiPath model = geminiPath model') : model = model' := by
  obtain ⟨front, hfront, hsolid⟩ := geminiModel_spec model
  obtain ⟨front', hfront', hsolid'⟩ := geminiModel_spec model'
  have hname : geminiModel model = geminiModel model' := by
    unfold geminiPath at hpath
    exact eq_of_surrounded hpath
  have hsame : solid model.toList = solid model'.toList := by
    rw [← solid_trimSpace, htrim, solid_trimSpace]
  rw [hfront, hfront', solid_append, solid_append, hsolid, hsolid', hname] at hsame
  have hfronts := append_cancel_right hsame
  exact String.toList_inj.1 (by rw [hfront, hfront', hname, hfronts])

/-! ## Requests -/

def responseKind : CallType → String
  | .structured => "structured-output"
  | .text => "text"

/-- **The operation of a request.** The protocol, the endpoint and the
provider have no blanks around them; the model may, and is named in the
path for Gemini and in the payload elsewhere. -/
structure Describes (callType : CallType) (operation : Cachekey.Operation) (p : PreparedOperation) :
    Prop where
  protocol : p.operation.protocol = operation.protocol
  endpoint : p.operation.endpointIdentity = operation.endpoint.identity
  model : p.operation.model = operation.model
  provider : p.operation.responseProvider = operation.responseProjection.provider
  kind : operation.responseProjection.kind = responseKind callType
  plain : Runtime.trimSpace operation.protocol = operation.protocol
    ∧ Runtime.trimSpace operation.endpoint.identity = operation.endpoint.identity
    ∧ Runtime.trimSpace operation.responseProjection.provider = operation.responseProjection.provider
  named : if operation.protocol = geminiProtocol then
      Runtime.trimSpace operation.endpoint.path = geminiPath operation.model
    else ∃ fields, Cachekey.marshal operation.payload = .ok (.obj fields)
      ∧ value? "model" fields = some (.str operation.model)

/-- **Two requests go to one target**, and ask for one kind of answer. -/
structure SameTarget (p q : PreparedOperation) : Prop where
  protocol : p.operation.protocol = q.operation.protocol
  endpoint : p.operation.endpointIdentity = q.operation.endpointIdentity
  model : p.operation.model = q.operation.model
  provider : p.operation.responseProvider = q.operation.responseProvider

variable {callType callType' : CallType} {operation operation' : Cachekey.Operation}
  {p q : PreparedOperation}

variable (hp : Describes callType operation p) (hq : Describes callType' operation' q)
  (h : operation.Agrees operation')
include hp hq h

theorem Describes.model_eq : operation.model = operation'.model := by
  have hprotocol : operation.protocol = operation'.protocol := by
    rw [← hp.plain.1, ← hq.plain.1, h.protocol]
  have hnamed := hp.named
  have hnamed' := hq.named
  rw [← hprotocol] at hnamed'
  by_cases hgemini : operation.protocol = geminiProtocol
  · rw [if_pos hgemini] at hnamed hnamed'
    exact eq_of_geminiPath_eq h.model (by rw [← hnamed, ← hnamed', h.path])
  · rw [if_neg hgemini] at hnamed hnamed'
    obtain ⟨fields, hfields, hmodel⟩ := hnamed
    obtain ⟨fields', hfields', hmodel'⟩ := hnamed'
    obtain ⟨a, b, ha, hb, hab⟩ := h.payload
    cases ha.symm.trans hfields
    cases hb.symm.trans hfields'
    cases hab with
    | obj keys values =>
      have hvalue := values "model" _ _ hmodel hmodel'
      generalize operation.model = model, operation'.model = model' at hvalue
      cases hvalue
      rfl

/-- **Requests whose operations agree** go to one target. -/
theorem Describes.same : SameTarget p q ∧ callType = callType' := by
  refine ⟨⟨?_, ?_, ?_, ?_⟩, ?_⟩
  · rw [hp.protocol, hq.protocol, ← hp.plain.1, ← hq.plain.1, h.protocol]
  · rw [hp.endpoint, hq.endpoint, ← hp.plain.2.1, ← hq.plain.2.1, h.identity]
  · rw [hp.model, hq.model, hp.model_eq hq h]
  · rw [hp.provider, hq.provider, ← hp.plain.2.2, ← hq.plain.2.2, h.provider]
  · have hkind := h.kind
    rw [hp.kind, hq.kind] at hkind
    revert hkind
    cases callType <;> cases callType' <;> decide

end HardenLlm.Providers
