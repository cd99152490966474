import Mathlib.Data.List.Dedup
import HardenLlm.Redaction.Model.Redactor
/-!
# Redaction is sound

A configured secret is in no text the redactor returns, as long as writing
the URLs of the text anew brings none in: every other pass only replaces
parts of the text, by ones that do not overlap with a secret.
-/

namespace HardenLlm

open List

/-! ## The strings of a document -/

/-- `s` is a string of the document, as a value. -/
inductive Json.HasString (s : String) : Json → Prop
  | here : Json.HasString s (.str s)
  | item {items : List Json} {v : Json} (mem : v ∈ items) (inside : Json.HasString s v) :
      Json.HasString s (.arr items)
  | field {fields : List (String × Json)} {e : String × Json} (mem : e ∈ fields)
      (inside : Json.HasString s e.2) : Json.HasString s (.obj fields)

variable {s : String} {v : Json}

/-- Sorting keys brings no string in. -/
theorem Json.HasString.of_sorted (h : Json.HasString s v.sorted) : Json.HasString s v := by
  induction v using Json.induct with
  | null | bool b | num literal | str t => exact h
  | arr items ih =>
    rw [Json.sorted_arr] at h
    obtain _ | ⟨hmem, hin⟩ | _ := h
    obtain ⟨v, hv, rfl⟩ := mem_map.1 hmem
    exact .item hv (ih v hv hin)
  | obj fields ih =>
    rw [Json.sorted_obj] at h
    obtain _ | _ | ⟨hmem, hin⟩ := h
    obtain ⟨e, he, rfl⟩ := mem_map.1 (Bindings.mem_sortByKey.1 hmem)
    exact .field he (ih e he hin)

namespace Redaction

open Redactor

open Rewrite

variable {r : Redactor} {secrets : List String}

/-- **Secrets a redactor can be asked to keep**: trimmed and not blank,
without a character of the replacement. -/
def Keepable (s : String) : Prop :=
  Runtime.trimSpace s = s ∧ s ≠ "" ∧ ∀ c ∈ s.toList, c ∉ replacement

instance (s : String) : Decidable (Keepable s) :=
  haveI := List.decidableBAll (· ∉ replacement) s.toList
  inferInstanceAs (Decidable (_ ∧ _ ∧ _))

/-- The code of the replacement does not bring the secret in: the secret is
no part of it and does not end in `%`, `%5` or `%5B`. -/
def Codable (s : String) : Prop :=
  ¬ s.toList <:+: Url.encodedReplacement
    ∧ ∀ n ∈ [1, 2, 3], ¬ Url.encodedReplacement.take n <:+ s.toList

instance (s : String) : Decidable (Codable s) := inferInstanceAs (Decidable (_ ∧ _))

/-- No secret is in the text. -/
def Clean (secrets : List String) (t : List Char) : Prop := ∀ s ∈ secrets, ¬ s.toList <:+: t

/-- What a pass may put in. -/
def Neutral (secrets : List String) (t : List Char) : Prop := ∀ s ∈ secrets, Apart s.toList t

variable {s : String}

theorem Keepable.ne_nil (h : Keepable s) : s.toList ≠ [] := by
  intro hnil
  exact h.2.1 (String.toList_eq_nil_iff.1 hnil)

theorem Keepable.apart (h : Keepable s) : Apart s.toList replacement :=
  apart_of_disjoint h.ne_nil (by decide) h.2.2

/-- The code shares with a secret what stands before and between its
letters. -/
theorem Keepable.apart_encoded (h : Keepable s) (hc : Codable s) :
    Apart s.toList Url.encodedReplacement := by
  have hout : ∀ c ∈ replacement, c ∉ s.toList := fun c hc hin => h.2.2 c hin hc
  refine ⟨hc.1, fun hin => hout 'R' (by decide) (hin.subset (by decide)), fun x hx hpre hsuf => ?_,
    fun x hx hsuf hpre => ?_⟩
  · obtain ⟨y, hy⟩ := hpre
    -- past its first three characters the code has a letter of the replacement
    have hlong : x.length ≤ 3 := by
      by_contra hlong
      have htake : x.take 4 = "%5BR".toList := by
        have hcut : (x ++ y).take 4 = x.take 4 := take_append_of_le_length (by omega)
        rw [← hcut, hy]
        decide
      exact hout 'R' (by decide) (hsuf.subset (take_subset 4 x (by rw [htake]; decide)))
    have htake : Url.encodedReplacement.take x.length = x := by rw [← hy, take_left']; rfl
    have hpos := length_pos_of_ne_nil hx
    exact hc.2 x.length (by simp; omega) (htake.symm ▸ hsuf)
  · -- it ends in one
    have hlast : x.getLast hx = 'D' := hsuf.getLast hx
    exact hout 'D' (by decide) (hpre.subset (hlast ▸ getLast_mem hx))

/-- **A pass that only replaces parts keeps a text clean.** -/
theorem Clean.scrubs {t t' : List Char} (h : Clean secrets t) (hs : Scrubs (Neutral secrets) t t') :
    Clean secrets t' := by
  intro s hmem hin
  exact h s hmem (hs.infix_of (fun w hw => hw s hmem) hin)

/-! ## Literals and patterns -/

theorem mem_literals {parse : List Char → Option Url} (hs : s ∈ secrets)
    (hk : Keepable s) : s.toList ∈ (new parse secrets).literals := by
  have hfilter : s.toList ≠ [] ∧ s.toList ≠ replacement :=
    ⟨hk.ne_nil, fun heq => hk.apart.outside (heq ▸ infix_refl _)⟩
  simp only [new, mem_insertionSort, mem_dedup, mem_filter, mem_map, decide_eq_true_eq]
  exact ⟨⟨s, hs, by rw [hk.1]⟩, hfilter⟩

section

variable (hk : ∀ s ∈ secrets, Keepable s)
include hk

/-- One replacement of a word or a pattern. -/
theorem scrubs_replacement (len : Option Char → List Char → ℕ) (t : List Char) :
    Scrubs (Neutral secrets) t (replaceAll len (fun _ => replacement) t) :=
  scrubs_replaceAll fun m _ => .part m fun s hs => (hk s hs).apart

variable (hliterals : ∀ s ∈ secrets, s.toList ∈ r.literals) (t : List Char)
include hliterals

/-- **After the literals no secret is left**: each pass removes its own and
brings none back. -/
theorem clean_replaceLiterals : Clean secrets (r.replaceLiterals t) := by
  intro s hs hin
  have hkeep := hk s hs
  obtain ⟨before, after, hsplit⟩ := append_of_mem (hliterals s hs)
  rw [replaceLiterals, hsplit, foldl_append, foldl_cons] at hin
  -- the passes after its own only replace
  have hlater : ∀ (later : List (List Char)) (u : List Char),
      s.toList <:+: later.foldl (fun t s => replaceAll (literal s) (fun _ => replacement) t) u →
      s.toList <:+: u := by
    intro later
    induction later with
    | nil => exact fun u h => h
    | cons l later ih =>
      intro u h
      exact (scrubs_replacement hk (literal l) u).infix_of (fun w hw => hw s hs) (ih _ h)
  exact not_infix_replaceAll_literal hkeep.ne_nil hkeep.apart _ (hlater after _ hin)

theorem clean_scrub : Clean secrets (r.scrub t) := by
  have hpattern : ∀ (p : Regex) (u : List Char), Clean secrets u →
      Clean secrets (replacePattern p u) := fun p u h =>
    h.scrubs (scrubs_replacement hk p.length u)
  exact hpattern _ _ (hpattern _ _ (hpattern _ _ (clean_replaceLiterals hk hliterals t)))

end

/-! ## URLs -/

/-- A part of the URL a text is gets replaced. -/
def Replaced (r : Redactor) (t : List Char) : Prop :=
  ∃ u, r.parse t = some u ∧ u.scheme ≠ [] ∧ u.host ≠ [] ∧ u.redacted ≠ u

/-- **Writing the URLs of a text anew brings no secret in**, those within
the text and then the text itself, each as it was read; and where a part of
one is replaced, the code of the replacement does not. -/
structure Settled (r : Redactor) (secrets : List String) (value : String) : Prop where
  within : Clean secrets (r.scrub value.toList) →
    Clean secrets (replaceAll embeddedURLPattern.length (r.onURL Url.render)
      (r.scrub value.toList))
  whole : Clean secrets (r.embedded (r.scrub value.toList)) →
    Clean secrets (r.onURL Url.render (r.embedded (r.scrub value.toList)))
  coded : ∀ m ∈ r.embedded (r.scrub value.toList)
      :: allFound embeddedURLPattern.length (r.scrub value.toList),
    Replaced r m → ∀ s ∈ secrets, Codable s

theorem queryEscape_replacement : queryEscape replacement = Url.encodedReplacement := by
  decide

/-- Words joined in two parts. -/
theorem intercalate_append (sep : List Char) {a b : List (List Char)} (ha : a ≠ []) (hb : b ≠ []) :
    sep.intercalate (a ++ b) = sep.intercalate a ++ (sep ++ sep.intercalate b) := by
  induction a with
  | nil => exact absurd rfl ha
  | cons x rest ih =>
    cases rest with
    | nil =>
      obtain ⟨y, tail, rfl⟩ := exists_cons_of_ne_nil hb
      simp [List.intercalate]
    | cons y rest =>
      have hrest := ih (cons_ne_nil y rest)
      simp only [List.intercalate, cons_append, intersperse_cons_cons, flatten_cons]
        at hrest ⊢
      rw [hrest]
      simp

section

variable {neutral : List Char → Prop} (hcode : neutral Url.encodedReplacement)

include hcode in
/-- A parameter's values replaced by one. -/
theorem scrubs_pairs (p : Param) :
    Scrubs neutral (['&'].intercalate p.pairs)
      (['&'].intercalate ({ p with value := replacement, more := [] } : Param).pairs) := by
  have hkey : ∃ values, ['&'].intercalate p.pairs = (queryEscape p.key ++ ['=']) ++ values := by
    rw [Param.pairs]
    cases p.more with
    | nil => exact ⟨queryEscape p.value, by simp [List.intercalate]⟩
    | cons v more =>
      refine ⟨queryEscape p.value ++ (['&'] ++ ['&'].intercalate
        ((v :: more).map fun v => queryEscape p.key ++ '=' :: queryEscape v)), ?_⟩
      have hjoin := intercalate_append ['&']
        (a := [queryEscape p.key ++ '=' :: queryEscape p.value])
        (b := (v :: more).map fun v => queryEscape p.key ++ '=' :: queryEscape v)
        (by simp) (by simp)
      rw [map_cons]
      refine hjoin.trans ?_
      simp [List.intercalate]
  obtain ⟨values, hvalues⟩ := hkey
  have hone : ['&'].intercalate ({ p with value := replacement, more := [] } : Param).pairs
      = (queryEscape p.key ++ ['=']) ++ Url.encodedReplacement := by
    simp [Param.pairs, List.intercalate, queryEscape_replacement]
  rw [hvalues, hone]
  exact (Scrubs.refl _).append (.part values hcode)

theorem pairs_ne_nil (p : Param) : p.pairs ≠ [] := by
  simp [Param.pairs]

/-- **A query whose secret parameters are replaced.** -/
theorem scrubs_encodeQuery (f : Param → Param)
    (hf : ∀ p, Scrubs neutral (['&'].intercalate p.pairs) (['&'].intercalate (f p).pairs))
    (query : List Param) : Scrubs neutral (encodeQuery query) (encodeQuery (query.map f)) := by
  have hne : ∀ (p : Param) (l : List Param), (p :: l).flatMap Param.pairs ≠ [] := by
    intro p l h
    exact pairs_ne_nil p (flatMap_eq_nil_iff.1 h p mem_cons_self)
  induction query with
  | nil => exact .refl _
  | cons p rest ih =>
    cases rest with
    | nil => simpa [encodeQuery] using hf p
    | cons p' rest =>
      simp only [encodeQuery, map_cons, flatMap_cons (x := p), flatMap_cons (x := f p)] at ih ⊢
      rw [intercalate_append _ (pairs_ne_nil p) (hne p' rest),
        intercalate_append _ (pairs_ne_nil _) (hne (f p') (rest.map f))]
      exact (hf p).append (.append (.refl _) ih)

theorem encodeQuery_eq_nil {query : List Param} : encodeQuery query = [] ↔ query = [] := by
  constructor
  · intro h
    cases query with
    | nil => rfl
    | cons p rest =>
      -- the first pair has an equals sign
      have hmem : '=' ∈ encodeQuery (p :: rest) := by
        simp only [encodeQuery, flatMap_cons, Param.pairs, map_cons, cons_append, List.intercalate]
        cases hrest : (p.more.map fun v => queryEscape p.key ++ '=' :: queryEscape v)
          ++ rest.flatMap Param.pairs with
        | nil => simp
        | cons x l => simp [intersperse_cons_cons]
      rw [h] at hmem
      exact absurd hmem not_mem_nil
  · rintro rfl
    rfl

include hcode in
/-- **A URL's replacement replaces parts of it.** -/
theorem scrubs_redactParsedURL (u : Url) : Scrubs neutral u.render u.redactParsedURL := by
  have hquery : Scrubs neutral (encodeQuery u.query) (encodeQuery u.redacted.query) := by
    refine scrubs_encodeQuery _ (fun p => ?_) u.query
    split
    · exact scrubs_pairs hcode p
    · exact .refl _
  have hempty : encodeQuery u.redacted.query ≠ [] ↔ encodeQuery u.query ≠ [] := by
    simp only [ne_eq, encodeQuery_eq_nil, Url.redacted, map_eq_nil_iff]
  rw [Url.redactParsedURL, Url.render, Url.render]
  refine .append (.append (.append (.append (.append (.refl _) ?_) (.refl _)) (.refl _)) ?_) (.refl _)
  · cases hu : u.user with
    | none => simpa [Url.redacted, hu] using Scrubs.nil
    | some user =>
      simp only [Url.redacted, hu, Option.map_some]
      exact (Scrubs.part user hcode).append (.refl _)
  · have hforce : u.redacted.forceQuery = u.forceQuery := rfl
    simp only [hempty, hforce]
    split
    · exact .keep '?' hquery
    · exact .nil

end

/-- So redacting a URL scrubs what writing it anew gives. -/
theorem scrubs_redactURL (hk : ∀ s ∈ secrets, Keepable s) {t : List Char}
    (h : Replaced r t → ∀ s ∈ secrets, Codable s) :
    Scrubs (Neutral secrets) (r.onURL Url.render t) (r.redactURL t) := by
  rw [redactURL, onURL, onURL]
  cases hparse : r.parse t with
  | none => exact .refl t
  | some u =>
    dsimp only
    split
    · rename_i hurl
      by_cases hsame : u.redacted = u
      · rw [Url.redactParsedURL, hsame]
        exact .refl _
      · have hcode := h ⟨u, hparse, hurl.1, hurl.2, hsame⟩
        exact scrubs_redactParsedURL (fun s hs => (hk s hs).apart_encoded (hcode s hs)) u
    · exact .refl t

/-- **A text comes out clean.** -/
theorem clean_text (hk : ∀ s ∈ secrets, Keepable s)
    (hliterals : ∀ s ∈ secrets, s.toList ∈ r.literals) {value : String}
    (h : Settled r secrets value) : Clean secrets (r.text value).toList := by
  have hembedded : Clean secrets (r.embedded (r.scrub value.toList)) :=
    (h.within (clean_scrub hk hliterals value.toList)).scrubs
      (scrubs_rewrite 0 none _ fun m hm =>
        scrubs_redactURL hk (h.coded m (mem_cons_of_mem _ hm)))
  rw [text, String.toList_ofList]
  exact (h.whole hembedded).scrubs (scrubs_redactURL hk (h.coded _ mem_cons_self))

/-! ## Documents -/

/-- `s` is a string `Value` hands to `Text`: no key on the way to it is a
secret's. -/
inductive Reads (s : String) : Json → Prop
  | here : Reads s (.str s)
  | item {items : List Json} {v : Json} (mem : v ∈ items) (inside : Reads s v) :
      Reads s (.arr items)
  | field {fields : List (String × Json)} {e : String × Json} (mem : e ∈ fields)
      (open_ : isSecretKey e.1 e.2 = false) (inside : Reads s e.2) : Reads s (.obj fields)

theorem value_arr (items : List Json) : r.value (.arr items) = .arr (items.map r.value) := by
  rw [value]
  congr 1
  induction items with
  | nil => rfl
  | cons v rest ih => rw [valueItems, ih, map_cons]

theorem value_obj (fields : List (String × Json)) :
    r.value (.obj fields) = .obj (fields.map fun e =>
      (e.1, if isSecretKey e.1 e.2 then .str (String.ofList replacement) else r.value e.2)) := by
  rw [value]
  congr 1
  induction fields with
  | nil => rfl
  | cons e rest ih => rw [valueFields, ih, map_cons]

/-- **The strings `Value` returns** are replacements and redacted texts. -/
theorem hasString_value (h : Json.HasString s (r.value v)) :
    s = String.ofList replacement ∨ ∃ t, Reads t v ∧ s = r.text t := by
  induction v using Json.induct with
  | null | bool | num => cases h
  | str t =>
    obtain _ | _ | _ := h
    exact .inr ⟨t, .here, rfl⟩
  | arr items ih =>
    rw [value_arr] at h
    obtain _ | ⟨hmem, hin⟩ | _ := h
    obtain ⟨v, hv, rfl⟩ := mem_map.1 hmem
    obtain heq | ⟨t, ht, heq⟩ := ih v hv hin
    · exact .inl heq
    · exact .inr ⟨t, .item hv ht, heq⟩
  | obj fields ih =>
    rw [value_obj] at h
    obtain _ | _ | ⟨hmem, hin⟩ := h
    obtain ⟨e, he, rfl⟩ := mem_map.1 hmem
    dsimp only at hin
    split at hin
    · obtain _ | _ | _ := hin
      exact .inl rfl
    · rename_i hopen
      obtain heq | ⟨t, ht, heq⟩ := ih e he hin
      · exact .inl heq
      · exact .inr ⟨t, .field he (by simpa using hopen) ht, heq⟩

theorem clean_replacement (hk : ∀ s ∈ secrets, Keepable s) : Clean secrets replacement :=
  fun s hs => (hk s hs).apart.outside

theorem clean_value (hk : ∀ s ∈ secrets, Keepable s)
    (hliterals : ∀ s ∈ secrets, s.toList ∈ r.literals) (hv : ∀ t, Reads t v → Settled r secrets t)
    (h : Json.HasString s (r.value v)) : Clean secrets s.toList := by
  obtain rfl | ⟨t, ht, rfl⟩ := hasString_value h
  · rw [String.toList_ofList]
    exact clean_replacement hk
  · exact clean_text hk hliterals (hv t ht)

/-- The document `JSON` redacts: what it decodes, or its input as one
text. -/
def Redactor.source (input : String) : Json := (input? input).getD (.str input)

theorem clean_document (hk : ∀ s ∈ secrets, Keepable s)
    (hliterals : ∀ s ∈ secrets, s.toList ∈ r.literals) {input : String}
    (hin : ∀ t, Reads t (source input) → Settled r secrets t) (h : Json.HasString s (r.document input)) :
    Clean secrets s.toList := by
  rw [document] at h
  rw [source] at hin
  cases hinput : input? input with
  | some =>
    rw [hinput] at h hin
    exact clean_value hk hliterals hin (Json.HasString.of_sorted h)
  | none =>
    rw [hinput] at h hin
    obtain _ | _ | ⟨hmem, hstr⟩ := h
    obtain rfl := mem_singleton.1 hmem
    obtain _ | _ | _ := hstr
    exact clean_text hk hliterals (hin input .here)

namespace Sample

/-- A link with a letter of its parameter written as a code. -/
def coded : String := "https://h/?q=%68unter22"

/-- A link with a user and a key. -/
def link : String := "https://joe@h/?key=v"

/-- A URL on the host `h` with one parameter. -/
def url (user : Option (List Char)) (param : Param) : Url where
  scheme := "https".toList
  user := user
  host := "h".toList
  path := "/".toList
  forceQuery := false
  query := [param]
  fragment := []

/-- What `net/url` reads in the two links; the other texts here are no
URLs. -/
def parse (t : List Char) : Option Url :=
  if t = coded.toList then some (url none ⟨"q".toList, "hunter22".toList, []⟩)
  else if t = link.toList then some (url (some "joe".toList) ⟨"key".toList, "v".toList, []⟩)
  else none

def redactor : Redactor := new parse ["hunter22"]

def message : String := "at https://joe@h/?key=v hunter22"

end Sample

open Sample

/-- Writing its link anew brings nothing in. -/
theorem Sample.settled : Settled redactor ["hunter22"] message := by
  refine ⟨fun _ => ?_, fun _ => ?_, fun _ _ _ => ?_⟩ <;>
  · intro s hs
    obtain rfl := mem_singleton.1 hs
    decide +kernel

end Redaction

end HardenLlm
