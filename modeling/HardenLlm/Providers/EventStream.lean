import HardenLlm.Common.Json.Reader
import HardenLlm.Providers.Model.EventStream
/-!
# The first terminal event decides

Both collectors read the same events from a stream. The incremental one
returns at the first event that decides, provided no slice of its buffer up
to there is blank by accident; the buffered one comes to the same when no
event after a completion decides anything.
-/

namespace HardenLlm.Providers

open List Protocol

open Lines Buffered

variable {ε : Type} {P : Protocol ε} {d cur : Bytes}

/-! ## Data -/

theorem trimSpace_cr (t : Bytes) : trimSpace (t ++ [cr]) = trimSpace t := by
  have hright : dropSpace spaceBefore (t ++ [cr]).length (t ++ [cr]).reverse
      = dropSpace spaceBefore t.length t.reverse := by
    rw [reverse_append, length_append]
    rfl
  rw [trimSpace, trimSpace, hright]

/-- A carriage return at its end says nothing about a line. -/
theorem dataLine_trimSuffix (line : Bytes) : dataLine (trimSuffix cr line) = dataLine line := by
  rcases eq_nil_or_concat line with rfl | ⟨init, c, rfl⟩
  · rfl
  · rw [concat_eq_append, trimSuffix]
    by_cases hc : c = cr
    · subst hc
      rw [if_pos (by simp), dropLast_concat]
      -- the mark of a data line does not end in a carriage return
      by_cases hdata : (ascii "data:").isPrefixOf init = true
      · have hlen : 5 ≤ init.length := (List.isPrefixOf_iff_prefix.1 hdata).length_le
        have hlong : (ascii "data:").isPrefixOf (init ++ [cr]) = true :=
          isPrefixOf_iff_prefix.2 ((List.isPrefixOf_iff_prefix.1 hdata).trans (prefix_append _ _))
        rw [dataLine, dataLine, if_pos hdata, if_pos hlong, drop_append_of_le_length hlen,
          trimSpace_cr]
      · have hlong : ¬ (ascii "data:").isPrefixOf (init ++ [cr]) = true := by
          intro h
          rcases prefix_concat_iff.1 (List.isPrefixOf_iff_prefix.1 h) with heq | hin
          · exact absurd (congrArg List.getLast? heq) (by simp [ascii, cr])
          · exact hdata (List.isPrefixOf_iff_prefix.2 hin)
        rw [dataLine, dataLine, if_neg hdata, if_neg hlong]
    · rw [if_neg (by simpa using hc)]

theorem dataLine_nil : dataLine [] = none := rfl

theorem eventData_solid (lines : List Bytes) : eventData (solid lines) = eventData lines := by
  rw [eventData, eventData]
  congr 1
  induction lines with
  | nil => rfl
  | cons line rest ih =>
    by_cases hline : line = []
    · subst hline
      rw [solid_nil_cons, ih, filterMap_cons, dataLine_nil]
    · rw [solid_cons hline, filterMap_cons, filterMap_cons, ih]

theorem eventData_append_nil (lines : List Bytes) :
    eventData (lines ++ [[]]) = eventData lines := by
  rw [← eventData_solid, ← eventData_solid lines]
  simp [solid]

theorem decides_nil : P.decides (eventData []) = none := rfl

/-- The events that decide something. -/
def Protocol.decisive (P : Protocol ε) (ds : List Bytes) : List Bytes :=
  ds.filter fun d => (P.decides d).isSome

theorem decisive_cons_none (h : P.decides d = none) (ds : List Bytes) :
    P.decisive (d :: ds) = P.decisive ds := by
  simp [decisive, h]

theorem decisive_cons_some {o : Collected ε} (h : P.decides d = some o) (ds : List Bytes) :
    P.decisive (d :: ds) = d :: P.decisive ds := by
  simp [decisive, h]

theorem decides_eq_none : P.decides d = none ↔ P.verdict d = .ignored := by
  rw [decides]
  cases P.verdict d <;> simp

/-- Groups with the same essence have the same events that decide. -/
theorem decisive_essence (gs : List (List Bytes)) :
    P.decisive ((essence gs).map eventData) = P.decisive (gs.map eventData) := by
  induction gs with
  | nil => rfl
  | cons g gs ih =>
    have htail : ((gs.map solid).filter fun g => !g.isEmpty) = essence gs := rfl
    rw [essence, map_cons, filter_cons, htail, map_cons]
    cases hd : P.decides (eventData g) with
    | none =>
      rw [decisive_cons_none hd]
      split
      · rw [map_cons, decisive_cons_none (by rwa [eventData_solid]), ih]
      · exact ih
    | some =>
      rw [decisive_cons_some hd]
      split
      · rw [map_cons, decisive_cons_some (by rwa [eventData_solid]), eventData_solid, ih]
      · rename_i hempty
        have hnil : solid g = [] := by simpa using hempty
        rw [← eventData_solid, hnil, decides_nil] at hd
        cases hd

/-- **The blocks of a body hold the events of the stream.** -/
theorem decisive_blocks (body : Bytes) :
    P.decisive ((splitBlank (normalise body)).map fun block =>
        eventData ((splitLines block).map (trimSuffix cr)))
      = P.decisive (events body) := by
  have hblock : ∀ block, eventData ((splitLines block).map (trimSuffix cr))
      = eventData (splitLines block) := by
    intro block
    rw [eventData, eventData, filterMap_map]
    congr 2
    funext line
    exact dataLine_trimSuffix line
  simp only [hblock]
  have hmap : ((splitBlank (normalise body)).map fun block => eventData (splitLines block))
      = ((splitBlank (normalise body)).map splitLines).map eventData := by
    rw [map_map]
    rfl
  rw [hmap, events, ← decisive_essence, essence_splitBlank, decisive_essence]

/-! ## The buffered collector -/

theorem findSome_decisive (ds : List Bytes) :
    (P.decisive ds).findSome? P.decides = ds.findSome? P.decides := by
  induction ds with
  | nil => rfl
  | cons d ds ih =>
    cases hd : P.decides d with
    | none => rw [decisive_cons_none hd, List.findSome?_cons, hd, ih]
    | some => rw [decisive_cons_some hd, List.findSome?_cons, List.findSome?_cons, hd]

theorem collectBlocks_decisive (terminal : Option Object) (ds : List Bytes) :
    P.collectBlocks terminal (P.decisive ds) = P.collectBlocks terminal ds := by
  induction ds generalizing terminal with
  | nil => rfl
  | cons d ds ih =>
    cases hd : P.decides d with
    | none => rw [decisive_cons_none hd, collectBlocks, decides_eq_none.1 hd, ih]
    | some =>
      rw [decisive_cons_some hd, collectBlocks, collectBlocks]
      cases P.verdict d <;> simp only [ih]

/-- **The first event that decides, decides**, when it is no completion or
nothing after it decides. -/
theorem collectBlocks_eq {ds : List Bytes}
    (hquiet : ∀ d rest o, P.decisive ds = d :: rest → P.verdict d = .completed o → rest = []) :
    P.collectBlocks none ds = (ds.findSome? P.decides).getD required := by
  rw [← collectBlocks_decisive, ← findSome_decisive]
  cases hds : P.decisive ds with
  | nil => rfl
  | cons d rest =>
    have hd : d ∈ P.decisive ds := by simp [hds]
    have hsome : (P.decides d).isSome = true := (mem_filter.1 hd).2
    rw [collectBlocks, List.findSome?_cons]
    rw [decides] at hsome ⊢
    cases hv : P.verdict d with
    | ignored => simp [hv] at hsome
    | broken => rfl
    | completed o =>
      obtain rfl := hquiet d rest o hds hv
      rfl
    | incomplete response | failed response => cases response <;> rfl

theorem collectBody_eq {body : Bytes} (h : P.Quiet body) :
    P.collectBody body = P.firstTerminal body := by
  have hblocks := decisive_blocks (P := P) body
  rw [collectBody, collectBlocks_eq, ← findSome_decisive, hblocks, findSome_decisive, firstTerminal]
  intro d rest o hsplit hv
  rw [hblocks] at hsplit
  -- the rest stands after the completion in the stream, where nothing decides
  obtain ⟨before, after, hevents, hbefore, -, hafter⟩ := filter_eq_cons_iff.1 hsplit
  have hquiet := h before d after o hevents (fun d' hd' => by simpa using hbefore d' hd') hv
  rw [← hafter, filter_eq_nil_iff]
  intro d' hd'
  simp [hquiet d' hd']

/-! ## Line by line -/

/-- **The incremental collector on lines**: `block` the lines of the open
event, `cur` the line being read. -/
def Protocol.collectLines (P : Protocol ε) (block cur : Bytes) : Bytes → Collected ε
  | [] => (P.process (block ++ cur)).getD required
  | c :: t =>
    if c = lf then
      if cur = [] ∨ cur = [cr] then
        match P.process (block ++ cur ++ [lf]) with
        | some result => result
        | none => P.collectLines [] [] t
      else P.collectLines (block ++ cur ++ [lf]) [] t
    else P.collectLines block (cur ++ [c]) t

theorem process_eq (block : Bytes) :
    P.process block = P.decides (eventData (linesFrom [] block)) := by
  rw [process]
  split
  · rename_i hnil
    subst hnil
    exact decides_nil.symm
  · rw [← splitLines_normalise [] not_mem_nil, nil_append]

/-- **What is decided line by line is what the first event that decides
says.** The lines of the block are those of the open group. -/
theorem collectLines_eq (block cur : Bytes) (hcur : lf ∉ cur) (t : Bytes) (lines : List Bytes)
    (hblock : ∀ x, linesFrom [] (block ++ x) = lines ++ linesFrom [] x) :
    P.collectLines block cur t
      = (((groupsFrom lines (linesFrom cur t)).map eventData).findSome? P.decides).getD
        required := by
  induction t generalizing block cur lines with
  | nil =>
    rw [collectLines, process_eq, hblock, linesFrom_of_notMem hcur, linesFrom]
    by_cases hempty : cur = []
    · subst hempty
      have hlast : P.decides (eventData []) = none := decides_nil
      rw [eventData_append_nil, groupsFrom, if_pos rfl, groupsFrom, map_cons, List.findSome?_cons]
      cases P.decides (eventData lines) <;> simp [hlast]
    · simp [groupsFrom, hempty]
  | cons c t ih =>
    by_cases hc : c = lf
    · subst hc
      have hline : ∀ x, linesFrom [] (block ++ cur ++ [lf] ++ x)
          = (lines ++ [stripCR cur]) ++ linesFrom [] x := by
        intro x
        have h := hblock (cur ++ lf :: x)
        rw [linesFrom_line hcur] at h
        simpa using h
      rw [collectLines, if_pos rfl, linesFrom, if_pos rfl, groupsFrom]
      by_cases hempty : stripCR cur = []
      · -- the event ends here; its last two lines are empty
        have hall := hline []
        rw [append_nil, hempty] at hall
        have hdata : eventData (linesFrom [] (block ++ cur ++ [lf])) = eventData lines := by
          rw [hall, linesFrom, eventData_append_nil, eventData_append_nil]
        rw [if_pos (stripCR_eq_nil.1 hempty), if_pos hempty, process_eq, hdata, map_cons,
          List.findSome?_cons]
        cases hd : P.decides (eventData lines) with
        | some => rfl
        | none => exact ih [] [] not_mem_nil [] fun x => rfl
      · rw [if_neg fun h => hempty (stripCR_eq_nil.2 h), if_neg hempty]
        exact ih _ _ not_mem_nil _ hline
    · rw [collectLines, if_neg hc, linesFrom, if_neg hc]
      exact ih _ _ (by simpa using ⟨hcur, Ne.symm hc⟩) _ hblock

/-! ## Slice by slice -/

/-- **Where the slices stand in the lines**: `acc` is read of the slice, `cur`
of the line. A line is its first slice, or goes on after a full one. -/
structure Aligned (start : Bool) (slices acc lines cur : Bytes) : Prop where
  same : slices ++ acc = lines ++ cur
  first : start = true → acc = cur
  later : start = false → 2 ≤ cur.length

theorem Aligned.snoc {start : Bool} {slices acc lines : Bytes}
    (h : Aligned start slices acc lines cur) (c : UInt8) :
    Aligned start slices (acc ++ [c]) lines (cur ++ [c]) where
  same := by rw [← append_assoc, h.same, append_assoc]
  first hstart := by rw [h.first hstart]
  later hstart := by
    have := h.later hstart
    simp
    omega

/-- An empty line is its first slice. -/
theorem Aligned.first_of_empty {start : Bool} {slices acc lines : Bytes}
    (h : Aligned start slices acc lines cur) (hempty : cur = [] ∨ cur = [cr]) : start = true := by
  by_contra hlater
  have := h.later (by simpa using hlater)
  rcases hempty with rfl | rfl <;> simp at this

theorem blank_empty (h : cur = [] ∨ cur = [cr]) : blank (cur ++ [lf]) = true := by
  rcases h with rfl | rfl <;> decide

variable {size maximum : ℕ} {stream : Bytes}

section

variable {start : Bool} {block slice : Bytes} {stop : Stop} {rest : List (Bytes × Stop)}
  (h : P.TidyFrom start block ((slice, stop) :: rest))
include h

theorem Protocol.TidyFrom.not_blank (hstop : stop ≠ .ended)
    (hline : ¬ (start = true ∧ (slice = [lf] ∨ slice = [cr, lf]))) : ¬ blank slice = true :=
  fun hblank => hline (h.1 hstop hblank)

/-- The event goes on after a slice that is not blank, -/
theorem Protocol.TidyFrom.opened (hsolid : ¬ blank slice = true) :
    P.TidyFrom (stop = .found) (block ++ slice) rest := by
  have hrest := h.2.resolve_left (by simp [hsolid])
  rwa [if_neg hsolid] at hrest

/-- and a new one begins after a blank slice that decides nothing. -/
theorem Protocol.TidyFrom.closed (hblank : blank slice = true)
    (hnone : P.process (block ++ slice) = none) : P.TidyFrom (stop = .found) [] rest := by
  have hrest := h.2.resolve_left (by simp [hnone])
  rwa [if_pos hblank] at hrest

end

/-- **Slices lead where lines lead**, within the limit and when no slice up
to the event that decides is blank by accident. -/
theorem collectSlices_eq (hsize : 2 < size) (t : Bytes) {start : Bool} {slices acc lines : Bytes}
    (halign : Aligned start slices acc lines cur) (received : ℕ) (hacc : acc.length < size)
    (htidy : P.TidyFrom start slices (slicesFrom size lf acc t))
    (hreceived : received + acc.length + t.length ≤ maximum)
    (hblock : slices.length + acc.length + t.length ≤ maximum) :
    P.collectSlices maximum slices received (slicesFrom size lf acc t)
      = P.collectLines lines cur t := by
  induction t generalizing start slices acc lines cur received with
  | nil =>
    have hwithin : ¬ (maximum < received + acc.length ∨ maximum < (slices ++ acc).length) := by
      simp at hreceived hblock ⊢
      omega
    rw [slicesFrom, collectSlices, if_neg hwithin, collectLines, halign.same]
    cases P.process (lines ++ cur) <;> simp
  | cons c t ih =>
    rw [slicesFrom] at htidy ⊢
    have hwithin : ¬ (maximum < received + (acc ++ [c]).length
        ∨ maximum < (slices ++ (acc ++ [c])).length) := by
      simp at hreceived hblock ⊢
      omega
    have hsnoc := halign.snoc c
    simp only [length_cons] at hreceived hblock
    rw [collectLines]
    by_cases hc : c = lf
    · subst hc
      rw [if_pos rfl] at htidy
      rw [if_pos rfl, if_pos rfl, collectSlices, if_neg hwithin]
      by_cases hempty : cur = [] ∨ cur = [cr]
      · -- the slice is the line, and ends the event
        obtain rfl : acc = cur := halign.first (halign.first_of_empty hempty)
        obtain rfl : slices = lines := append_cancel_right halign.same
        have hblank := blank_empty hempty
        rw [if_pos hblank, if_pos hempty, append_assoc]
        cases hprocess : P.process (slices ++ (acc ++ [lf])) with
        | some => rfl
        | none =>
          refine ih ⟨rfl, fun _ => rfl, fun h => by simp at h⟩ _ (by simp; omega)
            (htidy.closed hblank hprocess) ?_ ?_
          · simp
            omega
          · simp
            omega
      · -- the line is part of an event that goes on
        have hsolid : ¬ blank (acc ++ [lf]) = true := by
          refine htidy.not_blank (by simp) ?_
          rintro ⟨hstart, hslice⟩
          rw [halign.first hstart] at hslice
          refine hempty (hslice.imp ?_ ?_) <;> intro h
          · simpa using h
          · exact append_cancel_right (h : cur ++ [lf] = [cr] ++ [lf])
        have hrest := htidy.opened hsolid
        rw [if_neg hsolid, if_neg hempty, if_neg (by simp), append_assoc]
        refine ih ⟨by rw [hsnoc.same], fun _ => rfl, fun h => by simp at h⟩ _ (by simp; omega)
          hrest ?_ ?_
        · simp
          omega
        · simp
          omega
    · rw [if_neg hc] at htidy
      rw [if_neg hc, if_neg hc]
      by_cases hfull : acc.length + 1 = size
      · rw [if_pos hfull] at htidy
        -- a full slice is no empty line
        have hsolid : ¬ blank (acc ++ [c]) = true := by
          refine htidy.not_blank (by simp) ?_
          rintro ⟨-, hslice⟩
          have hlen : (acc ++ [c]).length = size := by simpa using hfull
          rcases hslice with hslice | hslice <;>
          · rw [hslice] at hlen
            simp at hlen
            omega
        rw [if_pos hfull, collectSlices, if_neg hwithin, if_neg hsolid, if_neg (by simp)]
        refine ih ⟨by rw [append_nil, hsnoc.same], fun h => by simp at h, fun _ => ?_⟩ _
          (by simp; omega) (htidy.opened hsolid) ?_ ?_
        · cases start with
          | false => exact hsnoc.later rfl
          | true =>
            rw [← hsnoc.first rfl]
            simp
            omega
        · simp
          omega
        · simp
          omega
      · -- neither the line nor the slice ends here
        rw [if_neg hfull] at htidy ⊢
        refine ih hsnoc _ (by simp; omega) htidy ?_ ?_
        · simp
          omega
        · simp
          omega

theorem collectReader_eq {r : Reader UInt8} (hbuffer : r.buffer = []) {maximum : ℤ}
    (hlimit : r.content.length ≤ limit maximum) (htidy : P.Tidy r.content) :
    P.collectReader maximum r = P.firstTerminal r.content := by
  have hslices : r.slices bufferSize lf
      = slicesFrom bufferSize lf [] r.content :=
    r.slices_eq (by decide) (by simp [hbuffer])
  have halign : Aligned true [] [] [] [] := ⟨rfl, fun _ => rfl, fun h => by simp at h⟩
  rw [collectReader, hslices, collectSlices_eq (by decide) r.content halign 0 (by decide)
    htidy (by simpa) (by simpa), collectLines_eq [] [] not_mem_nil r.content [] fun x => rfl,
    ← splitLines_normalise [] not_mem_nil]
  rfl

/-! ## What decides -/

/-- The types of the events that decide. -/
def terminalTypes : List String :=
  ["response.completed", "response.incomplete", "response.failed", "error"]

/-- **An event decides** when it has data other than the sentinel, and is
malformed or of one of these types. -/
theorem decides_isSome_iff (d : Bytes) :
    (P.decides d).isSome ↔ d ≠ [] ∧ d ≠ ascii "[DONE]" ∧ ∀ event, P.decodeObject d = some event →
      stringValue (Bindings.value? "type" event) ∈ terminalTypes := by
  have hignored : (P.decides d).isSome ↔ P.verdict d ≠ .ignored := by
    rw [Option.isSome_iff_ne_none, ne_eq, decides_eq_none]
  rw [hignored, verdict]
  by_cases hdata : d = [] ∨ d = ascii "[DONE]"
  · rw [if_pos hdata]
    tauto
  · rw [if_neg hdata]
    cases hobject : P.decodeObject d with
    | none => simpa using not_or.1 hdata
    | some event =>
      simp only [terminalTypes, mem_cons, not_mem_nil, or_false, Option.some.injEq, forall_eq']
      split_ifs with hcompleted hincomplete hfailed
      · cases fields? (Bindings.value? "response" event) <;> simp [hcompleted, not_or.1 hdata]
      · simp [hincomplete, not_or.1 hdata]
      · simpa [hcompleted, hincomplete, hfailed] using not_or.1 hdata
      · simp [hcompleted, hincomplete, not_or.1 hfailed]

theorem firstTerminal_of_first {before after : List Bytes} {o : Collected ε}
    (hevents : events stream = before ++ d :: after) (hbefore : ∀ b ∈ before, P.decides b = none)
    (hd : P.decides d = some o) : P.firstTerminal stream = o := by
  have hnone : before.findSome? P.decides = none := List.findSome?_eq_none_iff.2 hbefore
  rw [firstTerminal, hevents, List.findSome?_append, hnone, List.findSome?_cons, hd]
  rfl

theorem firstTerminal_of_none (h : ∀ d ∈ events stream, P.decides d = none) :
    P.firstTerminal stream = required := by
  rw [firstTerminal, List.findSome?_eq_none_iff.2 h]
  rfl

namespace Sample

/-- A document with nothing but white space after it. -/
def decode (data : Bytes) : Option Json :=
  match Json.readValue Json.maxNestingDepth (data.map fun c => Char.ofNat c.toNat) with
  | some (v, rest) => if Json.skip rest = [] then some v else none
  | none => none

/-- A protocol that finds every status but `completed` incomplete. -/
def protocol : Protocol String where
  decode := decode
  validateCompletion o :=
    if stringValue (Bindings.value? "status" o) = "completed" then none else some "incomplete"
  streamError event := stringValue (Bindings.value? "message" event)

def reader (chunks : List String) : Reader UInt8 := ⟨[], chunks.map ascii⟩

def completion : String :=
  "data: \x7b\"type\":\"response.completed\",\"response\":\x7b\"id\":\"r\"\x7d\x7d\n\n"

/-- A comment and the sentinel before a completion, and a line of white
space after it. -/
def plain : Reader UInt8 := reader [": hello\r\n\r\nda", "ta: [DONE]\n\n", completion, " \n: bye\n"]

/-- A completion, and what is no event. -/
def trailed : Reader UInt8 := reader [completion, "data: x\n\n"]

/-- A completion over two data lines with a blank one between them. -/
def spaced : Reader UInt8 :=
  reader ["data: \x7b\"type\":\"response.completed\",\n \ndata: \"response\":\x7b\"id\":\"r\"\x7d\x7d\n\n"]

end Sample

open Sample

/-- One event that decides leaves nothing to decide after it. -/
theorem quiet_of_decisive (h : (P.decisive (events stream)).length ≤ 1) : P.Quiet stream := by
  intro before data after o hevents _ hv d hd
  have hdata : P.decides data = some ⟨some o, none⟩ := by rw [decides, hv]
  have hsplit : P.decisive (before ++ data :: after)
      = P.decisive before ++ data :: P.decisive after := by
    rw [decisive, filter_append]
    exact congrArg _ (decisive_cons_some hdata after)
  rw [hevents, hsplit, length_append, length_cons] at h
  have hnil : P.decisive after = [] := length_eq_zero_iff.1 (by omega)
  simpa using filter_eq_nil_iff.1 hnil d hd

end HardenLlm.Providers
