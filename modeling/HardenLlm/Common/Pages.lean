import Mathlib.Data.List.Dedup
import Mathlib.Data.List.Sort
import Mathlib.Data.Prod.Lex
/-!
# Pages that go round groups

Rows are numbered within their group, and a page takes the first rows of
all groups, then the second ones, and so on up to its limit: the SQL shape
`row_number() OVER (PARTITION BY g ORDER BY k)`, ordered by that number and
limited. A page holds a prefix of each group's rows, and it holds two rows
more of one group than of another only when the other has no more.
-/

namespace HardenLlm.Pages

open List

variable {α β γ δ : Type*} [LinearOrder β] [DecidableEq γ] [LinearOrder δ]

/-- `ORDER BY key`. -/
def orderBy (key : α → β) (l : List α) : List α := l.insertionSort fun a b => key a ≤ key b

theorem orderBy_perm (key : α → β) (l : List α) : (orderBy key l).Perm l :=
  perm_insertionSort _ l

variable {l : List α} {e : α × ℕ} {a : α}

@[simp] theorem mem_orderBy {key : α → β} : a ∈ orderBy key l ↔ a ∈ l :=
  (orderBy_perm key l).mem_iff

theorem orderBy_sorted (key : α → β) (l : List α) :
    (orderBy key l).Pairwise fun a b => key a ≤ key b := by
  have htotal : Std.Total fun a b => key a ≤ key b := ⟨fun a b => le_total (key a) (key b)⟩
  have htrans : IsTrans α fun a b => key a ≤ key b := ⟨fun a b c => le_trans⟩
  exact pairwise_insertionSort _ l

/-- Rows with distinct keys stand in strict order. -/
theorem orderBy_strict {key : α → β} (nodup : l.Nodup)
    (inj : ∀ a ∈ l, ∀ b ∈ l, key a = key b → a = b) :
    (orderBy key l).Pairwise fun a b => key a < key b := by
  have hnodup : (orderBy key l).Nodup := (orderBy_perm key l).nodup_iff.2 nodup
  refine ((orderBy_sorted key l).and hnodup).imp_of_mem fun {a b} ha hb h => ?_
  refine lt_of_le_of_ne h.1 fun heq => h.2 ?_
  exact inj a (mem_orderBy.1 ha) b (mem_orderBy.1 hb) heq

/-! ## Numbered rows -/

/-- The numbers of one list grow along it. -/
theorem pairwise_zipIdx (l : List α) (k : ℕ) : (l.zipIdx k).Pairwise fun e f => e.2 < f.2 := by
  rw [← pairwise_map, zipIdx_map_snd]
  exact pairwise_lt_range'

theorem eq_of_mem_zipIdx {k : ℕ} {f : α × ℕ} (he : e ∈ l.zipIdx k) (hf : f ∈ l.zipIdx k)
    (h : e.2 = f.2) : e = f := by
  obtain ⟨a, i⟩ := e
  obtain ⟨b, j⟩ := f
  obtain rfl : i = j := h
  obtain ⟨-, -, ha⟩ := mem_zipIdx he
  obtain ⟨-, -, hb⟩ := mem_zipIdx hf
  rw [ha, hb]

theorem exists_mem_zipIdx {i : ℕ} (hpos : 0 < i) (hle : i ≤ l.length) :
    ∃ a, (a, i) ∈ l.zipIdx 1 := by
  refine ⟨l[i - 1], mem_iff_getElem?.2 ⟨i - 1, ?_⟩⟩
  rw [List.getElem?_zipIdx, List.getElem?_eq_getElem (by omega), Option.map_some]
  congr 2
  omega

/-- A prefix of a numbered list holds the numbers up to its length. -/
theorem mem_prefix_zipIdx {p : List (α × ℕ)} (h : p <+: l.zipIdx 1) :
    e ∈ p ↔ e ∈ l.zipIdx 1 ∧ e.2 ≤ p.length := by
  have hnumber : ∀ i f, (l.zipIdx 1)[i]? = some f → f.2 = i + 1 := by
    intro i f hf
    rw [List.getElem?_zipIdx] at hf
    obtain ⟨a, -, rfl⟩ := Option.map_eq_some_iff.1 hf
    exact Nat.add_comm 1 i
  have htake := prefix_iff_eq_take.1 h
  constructor
  · intro he
    obtain ⟨i, hi⟩ := mem_iff_getElem?.1 he
    have hlt := (List.getElem?_eq_some_iff.1 hi).1
    rw [htake, List.getElem?_take_of_lt hlt] at hi
    refine ⟨h.subset he, ?_⟩
    have := hnumber i e hi
    omega
  · rintro ⟨he, hle⟩
    obtain ⟨i, hi⟩ := mem_iff_getElem?.1 he
    have := hnumber i e hi
    rw [htake]
    refine mem_iff_getElem?.2 ⟨i, ?_⟩
    rw [List.getElem?_take_of_lt (by omega), hi]

variable (group : α → γ) (key : α → β)

/-- A group's rows, in order. -/
def lane (g : γ) (l : List α) : List α := orderBy key (l.filter fun a => group a = g)

/-- **`row_number() OVER (PARTITION BY group ORDER BY key)`**, beside each
row. -/
def rowNumbers (l : List α) : List (α × ℕ) :=
  (l.map group).dedup.flatMap fun g => (lane group key g l).zipIdx 1

variable {group key} {g : γ}

@[simp] theorem mem_lane : a ∈ lane group key g l ↔ a ∈ l ∧ group a = g := by
  simp [lane]

theorem lane_nodup (h : l.Nodup) : (lane group key g l).Nodup :=
  (orderBy_perm key _).nodup_iff.2 (h.filter _)

theorem group_of_mem_zipIdx {k : ℕ} (h : e ∈ (lane group key g l).zipIdx k) : group e.1 = g :=
  (mem_lane.1 (fst_mem_of_mem_zipIdx h)).2

/-- The numbered rows of one group. -/
theorem filter_rowNumbers (l : List α) (g : γ) :
    ((rowNumbers group key l).filter fun e => group e.1 = g) = (lane group key g l).zipIdx 1 := by
  rw [rowNumbers, filter_flatMap]
  have hlane : ∀ g', (((lane group key g' l).zipIdx 1).filter fun e => group e.1 = g)
      = if g' = g then (lane group key g l).zipIdx 1 else [] := by
    intro g'
    split
    · rename_i heq
      subst heq
      refine filter_eq_self.2 fun e he => ?_
      simpa using group_of_mem_zipIdx he
    · rename_i hne
      refine filter_eq_nil_iff.2 fun e he => ?_
      simpa [group_of_mem_zipIdx he] using hne
  simp only [hlane]
  by_cases hg : g ∈ (l.map group).dedup
  · -- one group of the partition is this one, and it occurs once
    obtain ⟨gs, hs, hsplit⟩ := append_of_mem hg
    have hnodup := nodup_dedup (l.map group)
    rw [hsplit] at hnodup ⊢
    have hout : ∀ g' ∈ gs ++ hs, g' ≠ g := by
      rintro g' hg' rfl
      exact (nodup_middle.1 hnodup).notMem hg'
    have hnil : ∀ m : List γ, (∀ g' ∈ m, g' ≠ g) →
        (m.flatMap fun g' => if g' = g then (lane group key g l).zipIdx 1 else []) = [] := by
      intro m hm
      refine flatMap_eq_nil_iff.2 fun g' hg' => ?_
      rw [if_neg (hm g' hg')]
    rw [flatMap_append, flatMap_cons, if_pos rfl, hnil gs fun g' h => hout g' (mem_append_left _ h),
      hnil hs fun g' h => hout g' (mem_append_right _ h)]
    simp
  · have hempty : lane group key g l = [] := by
      refine eq_nil_iff_forall_not_mem.2 fun a ha => hg ?_
      obtain ⟨hl, rfl⟩ := mem_lane.1 ha
      exact mem_dedup.2 (mem_map_of_mem hl)
    simp [hempty]

/-! ## The page -/

section Page

variable (group key) (rank : γ → δ)

/-- All rows in the order a page takes them: by number, and among equal
numbers by the rank of the group. -/
def rounds (l : List α) : List (α × ℕ) :=
  orderBy (fun e => toLex (e.2, rank (group e.1))) (rowNumbers group key l)

/-- **A page**: `ORDER BY row_number, rank LIMIT n`. -/
def page (n : ℕ) (l : List α) : List α := ((rounds group key rank l).take n).map Prod.fst

/-- Whatever the ranks, the rounds keep each group's own order. -/
theorem filter_rounds (l : List α) (g : γ) :
    ((rounds group key rank l).filter fun e => group e.1 = g)
      = (lane group key g l).zipIdx 1 := by
  have hperm : ((rounds group key rank l).filter fun e => group e.1 = g).Perm
      ((lane group key g l).zipIdx 1) := by
    rw [← filter_rowNumbers l g]
    exact (orderBy_perm _ _).filter _
  have hrounds : ((rounds group key rank l).filter fun e => group e.1 = g).Pairwise
      fun e f => e.2 ≤ f.2 := by
    refine ((orderBy_sorted _ _).filter _).imp fun {e f} h => ?_
    rcases Prod.Lex.toLex_le_toLex.1 h with hlt | heq
    · exact hlt.le
    · exact heq.1.le
  have hlane : ((lane group key g l).zipIdx 1).Pairwise fun e f => e.2 ≤ f.2 :=
    (pairwise_zipIdx _ 1).imp fun h => h.le
  refine Perm.eq_of_pairwise ?_ hrounds hlane hperm
  intro e f he hf hef hfe
  exact eq_of_mem_zipIdx (hperm.mem_iff.1 he) hf (le_antisymm hef hfe)

variable (n : ℕ)

/-- The numbered rows of one group on a page. -/
theorem filter_take_rounds (l : List α) (g : γ) :
    ((rounds group key rank l).take n).filter (fun e => group e.1 = g)
      <+: (lane group key g l).zipIdx 1 := by
  rw [← filter_rounds group key rank l g]
  exact (List.take_prefix n _).filter _

theorem filter_page (l : List α) (g : γ) :
    ((page group key rank n l).filter fun a => group a = g)
      = (((rounds group key rank l).take n).filter fun e => group e.1 = g).map Prod.fst := by
  rw [page, filter_map]
  rfl

/-- **A page holds the first rows of each group**, in the group's order. -/
theorem filter_page_initial (l : List α) (g : γ) :
    ((page group key rank n l).filter fun a => group a = g) <+: lane group key g l := by
  rw [filter_page]
  have hprefix := (filter_take_rounds group key rank n l g).map Prod.fst
  rwa [zipIdx_map_fst] at hprefix

variable {group key rank} {l : List α}

theorem page_length_le (l : List α) : (page group key rank n l).length ≤ n := by
  rw [page, length_map, length_take]
  exact Nat.min_le_left _ _

theorem mem_of_mem_page {n : ℕ} (h : a ∈ page group key rank n l) : a ∈ l := by
  have hlane : a ∈ lane group key (group a) l :=
    (filter_page_initial group key rank n l (group a)).subset (mem_filter.2 ⟨h, by simp⟩)
  exact (mem_lane.1 hlane).1

theorem page_nodup (h : l.Nodup) : (page group key rank n l).Nodup := by
  classical
  refine nodup_iff_count_le_one.2 fun a => ?_
  have hcount : (page group key rank n l).count a
      = ((page group key rank n l).filter fun b => group b = group a).count a := by
    rw [count_filter (by simp)]
  rw [hcount]
  calc ((page group key rank n l).filter fun b => group b = group a).count a
      ≤ (lane group key (group a) l).count a := (filter_page_initial group key rank n l _).sublist.count_le a
    _ ≤ 1 := nodup_iff_count_le_one.1 (lane_nodup h) a

/-- **A page goes round the groups evenly.** While it leaves out a row of
one group, it holds at most one row more of any other. -/
theorem page_even {n : ℕ}
    (hleft : ((page group key rank n l).filter fun a => group a = g).length < (lane group key g
      l).length) (g' : γ) :
    ((page group key rank n l).filter fun a => group a = g').length
      ≤ ((page group key rank n l).filter fun a => group a = g).length + 1 := by
  simp only [filter_page, length_map] at hleft ⊢
  have hp := filter_take_rounds group key rank n l g
  have hp' := filter_take_rounds group key rank n l g'
  set R := rounds group key rank l with hR
  set p := (R.take n).filter fun e => group e.1 = g
  set p' := (R.take n).filter fun e => group e.1 = g' with hpdef'
  rcases Nat.eq_zero_or_pos p'.length with hzero | hpos
  · omega
  -- the last row the page holds of `g'` carries the number of such rows
  have hlast : ∃ e ∈ R.take n, e.2 = p'.length := by
    have hlen : p'.length ≤ (lane group key g' l).length := by simpa using hp'.length_le
    obtain ⟨a, ha⟩ := exists_mem_zipIdx hpos hlen
    have hmem : (a, p'.length) ∈ p' := (mem_prefix_zipIdx hp').2 ⟨ha, le_rfl⟩
    exact ⟨_, mem_of_mem_filter hmem, rfl⟩
  -- the first row of `g` it leaves out carries the next number of its group
  have hnext : ∃ f ∈ R.drop n, f.2 = p.length + 1 := by
    obtain ⟨a, ha⟩ := exists_mem_zipIdx (i := p.length + 1) (by omega) hleft
    have hin : (a, p.length + 1) ∈ R.take n ++ R.drop n := by
      rw [take_append_drop]
      have hz := ha
      rw [← filter_rounds group key rank l g] at hz
      exact mem_of_mem_filter hz
    refine ⟨_, (mem_append.1 hin).resolve_left fun htake => ?_, rfl⟩
    have hmem : (a, p.length + 1) ∈ p :=
      mem_filter.2 ⟨htake, by simpa using group_of_mem_zipIdx ha⟩
    have hbound := ((mem_prefix_zipIdx hp).1 hmem).2
    simp only at hbound
    omega
  obtain ⟨e, he, hecount⟩ := hlast
  obtain ⟨f, hf, hfcount⟩ := hnext
  have hsorted := orderBy_sorted (fun e => toLex (e.2, rank (group e.1)))
    (rowNumbers group key l)
  change R.Pairwise _ at hsorted
  rw [← take_append_drop n R, pairwise_append] at hsorted
  have hle : e.2 ≤ f.2 := by
    rcases Prod.Lex.toLex_le_toLex.1 (hsorted.2.2 e he f hf) with hlt | heq
    · exact hlt.le
    · exact heq.1.le
  omega

end Page

end HardenLlm.Pages
