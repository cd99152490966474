import Mathlib.Data.List.Basic
import Mathlib.Data.Nat.Notation
/-!
# Lines of a text

A text of bytes is a sequence of lines ended by a line feed, with or
without a carriage return before it, and its lines form groups separated by
empty ones. Splitting the text at pairs of line feeds finds the same
groups, up to empty lines within them and groups without lines.
-/

namespace HardenLlm

open List

/-- A text. -/
abbrev Bytes := List UInt8

namespace Lines

def lf : UInt8 := 10
def cr : UInt8 := 13

/-- ASCII text. -/
def ascii (s : String) : Bytes := s.toList.map fun c => UInt8.ofNat c.toNat

/-- `strings.TrimSuffix` of one byte. -/
def trimSuffix (c : UInt8) (t : Bytes) : Bytes := if t.getLast? = some c then t.dropLast else t

/-- `strings.ReplaceAll(s, "\r\n", "\n")`. -/
def normalise : Bytes → Bytes
  | [] => []
  | [c] => [c]
  | c :: d :: t => if c = cr ∧ d = lf then lf :: normalise t else c :: normalise (d :: t)

/-- `strings.Split(s, "\n")`. -/
def splitLines : Bytes → List Bytes
  | [] => [[]]
  | c :: t =>
    if c = lf then [] :: splitLines t
    else (c :: (splitLines t).headD []) :: (splitLines t).tail

/-- `strings.Split(s, "\n\n")`. -/
def splitBlank : Bytes → List Bytes
  | [] => [[]]
  | [c] => [[c]]
  | c :: d :: t =>
    if c = lf ∧ d = lf then [] :: splitBlank t
    else (c :: (splitBlank (d :: t)).headD []) :: (splitBlank (d :: t)).tail

/-- The line without the carriage return that ends it. -/
def stripCR (line : Bytes) : Bytes := if line.getLast? = some cr then line.dropLast else line

/-- **Lines in groups**, separated by empty lines; `acc` is the group that
is open. -/
def groupsFrom (acc : List Bytes) : List Bytes → List (List Bytes)
  | [] => [acc]
  | line :: rest => if line = [] then acc :: groupsFrom [] rest else groupsFrom (acc ++ [line]) rest

def groups (lines : List Bytes) : List (List Bytes) := groupsFrom [] lines

/-- The lines of a text, `cur` the part of the next one already read. -/
def linesFrom (cur : Bytes) : Bytes → List Bytes
  | [] => [cur]
  | c :: t => if c = lf then stripCR cur :: linesFrom [] t else linesFrom (cur ++ [c]) t

/-! ## Lines ended either way -/

variable {cur : Bytes}

theorem stripCR_eq_nil : stripCR cur = [] ↔ cur = [] ∨ cur = [cr] := by
  rcases eq_nil_or_concat cur with rfl | ⟨init, c, rfl⟩
  · simp [stripCR]
  · simp only [concat_eq_append, stripCR, List.getLast?_append, List.getLast?_singleton,
      Option.some_or, Option.some.injEq, dropLast_concat]
    split
    · rename_i hc
      simp [hc]
    · rename_i hc
      constructor
      · intro h
        simp at h
      · rintro (h | h)
        · simp at h
        · exact absurd (by simpa using congrArg List.getLast? h) hc

theorem normalise_line (hcur : lf ∉ cur) (t : Bytes) :
    normalise (cur ++ lf :: t) = stripCR cur ++ lf :: normalise t := by
  induction cur with
  | nil =>
    cases t with
    | nil => rfl
    | cons => simp [normalise, stripCR, lf, cr]
  | cons c cur ih =>
    have hc : c ≠ lf := fun h => hcur (h ▸ mem_cons_self)
    have hrest := ih fun h => hcur (mem_cons_of_mem _ h)
    cases cur with
    | nil =>
      by_cases hcr : c = cr
      · simp [normalise, stripCR, hcr]
      · cases t with
        | nil => simp [normalise, stripCR, hcr]
        | cons d t =>
          have hd : normalise (lf :: d :: t) = lf :: normalise (d :: t) := by
            simp [normalise, lf, cr]
          rw [singleton_append, normalise, if_neg fun h => hcr h.1, hd]
          simp [stripCR, hcr]
    | cons d cur =>
      have hd : d ≠ lf := fun h => hcur (h ▸ by simp)
      have hstrip : stripCR (c :: d :: cur) = c :: stripCR (d :: cur) := by
        simp only [stripCR, List.getLast?_cons_cons]
        split <;> simp
      rw [hstrip, cons_append, cons_append, normalise, if_neg fun h => hd h.2]
      rw [cons_append] at hrest
      rw [hrest, cons_append]

theorem normalise_of_notMem (hcur : lf ∉ cur) : normalise cur = cur := by
  induction cur with
  | nil => rfl
  | cons c cur ih =>
    have hrest := ih fun h => hcur (mem_cons_of_mem _ h)
    cases cur with
    | nil => rfl
    | cons d =>
      have hd : d ≠ lf := fun h => hcur (h ▸ by simp)
      rw [normalise, if_neg fun h => hd h.2, hrest]

variable {line : Bytes}

theorem splitLines_line (hline : lf ∉ line) (t : Bytes) :
    splitLines (line ++ lf :: t) = line :: splitLines t := by
  induction line with
  | nil => simp [splitLines]
  | cons c line ih =>
    have hc : c ≠ lf := fun h => hline (h ▸ mem_cons_self)
    have hrest := ih fun h => hline (mem_cons_of_mem _ h)
    rw [cons_append, splitLines, if_neg hc, hrest]
    rfl

theorem splitLines_of_notMem (hline : lf ∉ line) : splitLines line = [line] := by
  induction line with
  | nil => rfl
  | cons c line ih =>
    have hc : c ≠ lf := fun h => hline (h ▸ mem_cons_self)
    rw [splitLines, if_neg hc, ih fun h => hline (mem_cons_of_mem _ h)]
    rfl

theorem notMem_stripCR (hcur : lf ∉ cur) : lf ∉ stripCR cur := by
  rw [stripCR]
  split
  · exact fun h => hcur (dropLast_subset _ h)
  · exact hcur

/-- **The lines of a text**, read byte by byte. -/
theorem splitLines_normalise (cur : Bytes) (hcur : lf ∉ cur) (t : Bytes) :
    splitLines (normalise (cur ++ t)) = linesFrom cur t := by
  induction t generalizing cur with
  | nil => rw [append_nil, normalise_of_notMem hcur, splitLines_of_notMem hcur, linesFrom]
  | cons c t ih =>
    rw [linesFrom]
    by_cases hc : c = lf
    · subst hc
      have hnext := ih [] not_mem_nil
      rw [nil_append] at hnext
      rw [normalise_line hcur, splitLines_line (notMem_stripCR hcur), hnext, if_pos rfl]
    · rw [if_neg hc, ← ih (cur ++ [c]) (by simpa using ⟨hcur, Ne.symm hc⟩)]
      simp

theorem linesFrom_append (cur line : Bytes) (hline : lf ∉ line) (t : Bytes) :
    linesFrom cur (line ++ t) = linesFrom (cur ++ line) t := by
  induction line generalizing cur with
  | nil => simp
  | cons c line ih =>
    have hc : c ≠ lf := fun h => hline (h ▸ mem_cons_self)
    rw [cons_append, linesFrom, if_neg hc, ih _ fun h => hline (mem_cons_of_mem _ h),
      append_assoc, singleton_append]

/-- A line, and the lines after it. -/
theorem linesFrom_line (hline : lf ∉ line) (t : Bytes) :
    linesFrom [] (line ++ lf :: t) = stripCR line :: linesFrom [] t := by
  rw [linesFrom_append [] line hline, linesFrom, if_pos rfl, nil_append]

theorem linesFrom_of_notMem (hline : lf ∉ line) : linesFrom [] line = [line] := by
  have h := linesFrom_append [] line hline []
  rwa [append_nil, nil_append] at h

/-! ## Groups -/

/-- The lines of a group that are not empty. -/
def solid (g : List Bytes) : List Bytes := g.filter fun line => !line.isEmpty

/-- What of groups matters. -/
def essence (gs : List (List Bytes)) : List (List Bytes) :=
  (gs.map solid).filter fun g => !g.isEmpty

@[simp] theorem solid_nil_cons (g : List Bytes) : solid ([] :: g) = solid g := rfl

@[simp] theorem solid_cons (h : line ≠ []) (g : List Bytes) :
    solid (line :: g) = line :: solid g := by
  simp [solid, h]

@[simp] theorem essence_nil_cons (gs : List (List Bytes)) : essence ([] :: gs) = essence gs := rfl

theorem essence_congr {g g' : List Bytes} {gs gs' : List (List Bytes)} (h : solid g = solid g')
    (hs : essence gs = essence gs') : essence (g :: gs) = essence (g' :: gs') := by
  rw [essence, essence, map_cons, map_cons, filter_cons, filter_cons, h]
  change (if _ then _ :: essence gs else essence gs) = if _ then _ :: essence gs' else essence gs'
  rw [hs]

/-- An open group is the start of the first. -/
theorem groupsFrom_eq (acc lines : List Bytes) :
    ∃ g gs, groups lines = g :: gs ∧ groupsFrom acc lines = (acc ++ g) :: gs := by
  induction lines generalizing acc with
  | nil => exact ⟨[], [], rfl, by simp [groupsFrom]⟩
  | cons line rest ih =>
    by_cases hline : line = []
    · exact ⟨[], groups rest, by simp [groups, groupsFrom, hline],
        by simp [groups, groupsFrom, hline]⟩
    · obtain ⟨g, gs, hgroups, hfrom⟩ := ih [line]
      obtain ⟨g', gs', hgroups', hfrom'⟩ := ih (acc ++ [line])
      obtain ⟨rfl, rfl⟩ := List.cons.inj (hgroups.symm.trans hgroups')
      refine ⟨line :: g, gs, ?_, ?_⟩
      · simpa [groups, groupsFrom, hline] using hfrom
      · simpa [groups, groupsFrom, hline] using hfrom'

theorem groups_cons (hline : line ≠ []) {lines g : List Bytes}
    {gs : List (List Bytes)} (h : groups lines = g :: gs) :
    groups (line :: lines) = (line :: g) :: gs := by
  obtain ⟨g', gs', hgroups, hfrom⟩ := groupsFrom_eq [line] lines
  obtain ⟨rfl, rfl⟩ := List.cons.inj (h.symm.trans hgroups)
  rw [groups, groupsFrom, if_neg hline]
  exact hfrom

theorem groups_nil_cons (lines : List Bytes) : groups ([] :: lines) = [] :: groups lines := by
  rw [groups, groupsFrom, if_pos rfl]
  rfl

/-- **A text and its blocks**, after the first line: the blocks hold the
groups of the lines. -/
structure Blocked (t : Bytes) : Prop where
  parts : ∃ first lines block blocks g gs, splitLines t = first :: lines
    ∧ (splitBlank t).map splitLines = (first :: block) :: blocks
    ∧ groups lines = g :: gs ∧ solid block = solid g ∧ essence blocks = essence gs

/-- So they hold all its groups. -/
theorem Blocked.essence_eq {t : Bytes} (h : Blocked t) :
    essence ((splitBlank t).map splitLines) = essence (groups (splitLines t)) := by
  obtain ⟨first, lines, block, blocks, g, gs, hlines, hblocks, hgroups, hblock, hessence⟩ := h.parts
  rw [hblocks, hlines]
  by_cases hfirst : first = []
  · subst hfirst
    rw [groups_nil_cons, essence_nil_cons, hgroups]
    exact essence_congr (by simpa using hblock) hessence
  · rw [groups_cons hfirst hgroups]
    exact essence_congr (by simp [hfirst, hblock]) hessence

theorem blocked (t : Bytes) : Blocked t := by
  induction t using splitBlank.induct with
  | case1 => exact ⟨[], [], [], [], [], [], rfl, rfl, rfl, rfl, rfl⟩
  | case2 c =>
    by_cases hc : c = lf
    · subst hc
      exact ⟨[], [[]], [[]], [], [], [[]], rfl, rfl, rfl, rfl, rfl⟩
    · refine ⟨[c], [], [], [], [], [], ?_, ?_, rfl, rfl, rfl⟩
      · simp [splitLines, hc]
      · simp [splitBlank, splitLines, hc]
  | case3 c d t h ih =>
    obtain ⟨rfl, rfl⟩ := h
    refine ⟨[], [] :: splitLines t, [], (splitBlank t).map splitLines, [],
      groups (splitLines t), ?_, ?_, groups_nil_cons _, rfl, ih.essence_eq⟩
    · simp [splitLines]
    · simp [splitBlank, splitLines]
  | case4 c d t h ih =>
    obtain ⟨first, lines, block, blocks, g, gs, hlines, hblocks, hgroups, hblock, hessence⟩ :=
      ih.parts
    obtain ⟨head, tail, hsplit⟩ : ∃ head tail, splitBlank (d :: t) = head :: tail := by
      cases hs : splitBlank (d :: t) with
      | nil => rw [hs] at hblocks; cases hblocks
      | cons head tail => exact ⟨head, tail, rfl⟩
    rw [hsplit] at hblocks
    obtain ⟨hhead, htail⟩ := List.cons.inj hblocks
    have hs : splitBlank (c :: d :: t) = (c :: head) :: tail := by
      rw [splitBlank, if_neg h, hsplit]
      rfl
    by_cases hc : c = lf
    · -- the first line ends here; the next one is not empty
      subst hc
      have hd : d ≠ lf := fun hd => h ⟨rfl, hd⟩
      have hfirst : first ≠ [] := by
        rw [splitLines, if_neg hd] at hlines
        rw [← (List.cons.inj hlines).1]
        exact cons_ne_nil _ _
      refine ⟨[], first :: lines, first :: block, blocks, first :: g, gs, ?_, ?_,
        groups_cons hfirst hgroups, by simp [hfirst, hblock], hessence⟩
      · rw [splitLines, if_pos rfl, hlines]
      · rw [hs, map_cons, ← htail, splitLines, if_pos rfl]
        exact congrArg (· :: _) (congrArg _ hhead)
    · refine ⟨c :: first, lines, block, blocks, g, gs, ?_, ?_, hgroups, hblock, hessence⟩
      · rw [splitLines, if_neg hc, hlines]
        rfl
      · rw [hs, map_cons, ← htail, splitLines, if_neg hc, hhead]
        rfl

/-- **Both ways find the same groups.** -/
theorem essence_splitBlank (t : Bytes) :
    essence ((splitBlank t).map splitLines) = essence (groups (splitLines t)) :=
  (blocked t).essence_eq

end Lines

end HardenLlm
