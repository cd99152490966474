import Mathlib.Data.Int.Range
import Mathlib.Data.List.Dedup
import Mathlib.Data.List.Induction
import Mathlib.Data.List.Sort
/-!
# The page window

`page_window` of the UI's pagination state: the page numbers a pager shows,
with an ellipsis where it leaves some out. A range of Elixir whose bounds
cross counts down, so a pager of many pages without boundary pages shows
the pages zero and one past the last.
-/

namespace HardenLlm.Ui

open List

/-- What a pager shows. -/
inductive WindowEntry
  | page (number : ℤ)
  | ellipsis
  deriving DecidableEq, Repr

/-- `Enum.to_list(first..last)` -/
def toList (first last : ℤ) : List ℤ :=
  if first ≤ last then Int.range first (last + 1) else (Int.range last (first + 1)).reverse

def integerRange (first last : ℤ) : List ℤ := if first ≤ last then toList first last else []

def validateWindowOption (name : String) (value least : ℤ) : Except String Unit :=
  if least ≤ value then .ok () else .error s!"invalid pagination {name}: {value}"

/-- The numbers of a pager that leaves some out. `Enum.uniq` keeps the
first of equal numbers and `dedup` the last; sorted they are the same. -/
def windowNumbers (currentPage totalPages siblingCount boundaryCount : ℤ) : List ℤ :=
  let middleStart := max (boundaryCount + 1) (currentPage - siblingCount)
  let middleEnd := min (totalPages - boundaryCount) (currentPage + siblingCount)
  (toList 1 boundaryCount ++ integerRange middleStart middleEnd
    ++ toList (totalPages - boundaryCount + 1) totalPages).dedup.insertionSort (· ≤ ·)

/-- The next number, after an ellipsis if there is a gap. -/
def appendNumber (window : List WindowEntry) (number : ℤ) : List WindowEntry :=
  match window.getLast? with
  | some (.page previous) =>
    if 1 < number - previous then window ++ [.ellipsis, .page number] else window ++ [.page number]
  | _ => window ++ [.page number]

/-- **`page_window`**; an `ArgumentError` is its message. -/
def pageWindow (currentPage totalPages siblingCount boundaryCount : ℤ) :
    Except String (List WindowEntry) := do
  validateWindowOption "current_page" currentPage 1
  validateWindowOption "total_pages" totalPages 0
  validateWindowOption "sibling_count" siblingCount 0
  validateWindowOption "boundary_count" boundaryCount 0
  if totalPages ≤ 0 then return []
  else if totalPages ≤ boundaryCount * 2 + siblingCount * 2 + 3 then
    return (toList 1 totalPages).map .page
  else return (windowNumbers currentPage totalPages siblingCount boundaryCount).foldl appendNumber []

/-! ## The shape of a window -/

/-- The number a pager's entry shows. -/
def WindowEntry.number? : WindowEntry → Option ℤ
  | .page number => some number
  | .ellipsis => none

/-- **Numbers laid out**: an ellipsis stands between two neighbours exactly
when they are not consecutive, and nowhere else. -/
inductive Laid : List ℤ → List WindowEntry → Prop
  | nil : Laid [] []
  | first (a : ℤ) : Laid [a] [.page a]
  | next {l : List ℤ} {a b : ℤ} {w : List WindowEntry} (before : Laid (l ++ [a]) w) (eq : b = a + 1) :
      Laid (l ++ [a] ++ [b]) (w ++ [.page b])
  | gap {l : List ℤ} {a b : ℤ} {w : List WindowEntry} (before : Laid (l ++ [a]) w) (ne : b ≠ a + 1) :
      Laid (l ++ [a] ++ [b]) (w ++ [.ellipsis, .page b])

/-- **What a window should be.** -/
structure Shaped (currentPage totalPages siblingCount boundaryCount : ℤ) (numbers : List ℤ) : Prop where
  increasing : numbers.Pairwise (· < ·)
  within : ∀ n ∈ numbers, 1 ≤ n ∧ n ≤ totalPages
  current : currentPage ≤ totalPages → currentPage ∈ numbers
  boundaries : ∀ n, 1 ≤ n → n ≤ totalPages →
    n ≤ boundaryCount ∨ totalPages - boundaryCount < n → n ∈ numbers
  siblings : ∀ n, 1 ≤ n → n ≤ totalPages → currentPage - siblingCount ≤ n →
    n ≤ currentPage + siblingCount → n ∈ numbers

variable {l : List ℤ} {w : List WindowEntry}

theorem Laid.numbers (h : Laid l w) : w.filterMap WindowEntry.number? = l := by
  induction h with
  | nil | first => rfl
  | next _ _ ih | gap _ _ ih => rw [filterMap_append, ih]; rfl

/-- A window ends with its last number. -/
theorem Laid.getLast? {a : ℤ} (h : Laid (l ++ [a]) w) : w.getLast? = some (.page a) := by
  generalize hl : l ++ [a] = l' at h
  cases h with
  | nil => simp at hl
  | first b =>
    have hab : a ∈ [b] := hl ▸ mem_append_right l (mem_singleton.2 rfl)
    rw [mem_singleton.1 hab]
    rfl
  | next | gap =>
    obtain ⟨-, hab⟩ := append_inj' hl rfl
    cases hab
    simp

/-- Increasing numbers are laid out one by one. -/
theorem laid_foldl (h : l.Pairwise (· < ·)) : Laid l (l.foldl appendNumber []) := by
  induction l using List.reverseRecOn with
  | nil => exact .nil
  | append_singleton l b ih =>
    rw [pairwise_append] at h
    have hlaid := ih h.1
    rw [foldl_append, foldl_cons, foldl_nil]
    cases l using List.reverseRecOn with
    | nil => exact .first b
    | append_singleton l a =>
      have hlt : a < b := h.2.2 a (by simp) b (by simp)
      generalize (l ++ [a]).foldl appendNumber [] = w at hlaid
      rw [appendNumber, hlaid.getLast?]
      dsimp only
      split
      · exact .gap hlaid (by omega)
      · exact .next hlaid (by omega)

theorem mem_toList {first last n : ℤ} :
    n ∈ toList first last ↔ min first last ≤ n ∧ n ≤ max first last := by
  unfold toList
  split
  · rw [Int.mem_range_iff]
    omega
  · rw [mem_reverse, Int.mem_range_iff]
    omega

/-- All the numbers up to some are consecutive. -/
theorem laid_toList (n : ℕ) : Laid (Int.range 1 (n + 1)) ((Int.range 1 (n + 1)).map .page) := by
  have hrange : Int.range 1 (n + 1) = (List.range n).map fun i : ℕ => (1 : ℤ) + (i : ℤ) := by
    simp [Int.range]
  rw [hrange]
  clear hrange
  induction n with
  | zero => exact .nil
  | succ n ih =>
    cases n with
    | zero => exact .first _
    | succ n =>
      simp only [range_succ, map_append, map_cons, map_nil] at ih ⊢
      exact .next ih (by push_cast; omega)

section

variable {currentPage totalPages siblingCount boundaryCount : ℤ}

theorem mem_windowNumbers {n : ℤ} :
    n ∈ windowNumbers currentPage totalPages siblingCount boundaryCount ↔
      (min 1 boundaryCount ≤ n ∧ n ≤ max 1 boundaryCount)
        ∨ (max (boundaryCount + 1) (currentPage - siblingCount) ≤ n
          ∧ n ≤ min (totalPages - boundaryCount) (currentPage + siblingCount))
        ∨ (min (totalPages - boundaryCount + 1) totalPages ≤ n
          ∧ n ≤ max (totalPages - boundaryCount + 1) totalPages) := by
  unfold windowNumbers integerRange
  dsimp only
  rw [mem_insertionSort, mem_dedup, mem_append, mem_append, mem_toList, mem_toList, or_assoc]
  refine or_congr_right (or_congr_left ?_)
  split
  · rw [mem_toList]
    omega
  · simp only [not_mem_nil, false_iff]
    omega

theorem windowNumbers_increasing (currentPage totalPages siblingCount boundaryCount : ℤ) :
    (windowNumbers currentPage totalPages siblingCount boundaryCount).Pairwise (· < ·) := by
  have hsorted := pairwise_insertionSort (· ≤ ·) (toList 1 boundaryCount
    ++ integerRange (max (boundaryCount + 1) (currentPage - siblingCount))
      (min (totalPages - boundaryCount) (currentPage + siblingCount))
    ++ toList (totalPages - boundaryCount + 1) totalPages).dedup
  refine (hsorted.and ?_).imp fun h => lt_of_le_of_ne h.1 h.2
  exact (perm_insertionSort _ _).nodup_iff.2 (nodup_dedup _)

/-- **The shape of the page window.** With boundary pages, or with so few
pages that none is left out, the window's numbers increase within the
pages, hold the current page, the boundary pages and the siblings, and have
an ellipsis exactly where some are missing. Without boundary pages a window
that leaves pages out does not. -/
theorem pageWindow_shaped_iff (hcurrent : 1 ≤ currentPage) (htotal : 0 ≤ totalPages)
    (hsiblings : 0 ≤ siblingCount) (hboundaries : 0 ≤ boundaryCount) :
    (∃ w, pageWindow currentPage totalPages siblingCount boundaryCount = .ok w
        ∧ Laid (w.filterMap WindowEntry.number?) w
        ∧ Shaped currentPage totalPages siblingCount boundaryCount
          (w.filterMap WindowEntry.number?))
      ↔ 1 ≤ boundaryCount ∨ totalPages ≤ siblingCount * 2 + 3 := by
  have hwindow : pageWindow currentPage totalPages siblingCount boundaryCount
      = .ok (if totalPages ≤ 0 then []
        else if totalPages ≤ boundaryCount * 2 + siblingCount * 2 + 3 then
          (toList 1 totalPages).map .page
        else (windowNumbers currentPage totalPages siblingCount boundaryCount).foldl
          appendNumber []) := by
    simp only [pageWindow, validateWindowOption, if_pos hcurrent, if_pos htotal, if_pos hsiblings,
      if_pos hboundaries]
    split_ifs <;> rfl
  rw [hwindow]
  split_ifs with hnone hfew
  · refine ⟨fun _ => .inr (by omega), fun _ => ⟨[], rfl, .nil, .nil, ?_, ?_, ?_, ?_⟩⟩ <;> simp <;> omega
  · refine ⟨fun _ => ?_, fun _ => ⟨_, rfl, ?_⟩⟩
    · omega
    obtain ⟨n, rfl⟩ := Int.eq_ofNat_of_zero_le htotal
    have hlist : toList 1 n = Int.range 1 (n + 1) := if_pos (by omega)
    have hlaid := laid_toList n
    rw [hlist, hlaid.numbers]
    refine ⟨hlaid, ?_, ?_, ?_, ?_, ?_⟩
    · simp [Int.range, pairwise_map, pairwise_lt_range]
    all_goals
      simp only [Int.mem_range_iff]
      omega
  · have hlaid := laid_foldl
      (windowNumbers_increasing currentPage totalPages siblingCount boundaryCount)
    constructor
    · rintro ⟨w, hw, -, hshaped⟩
      obtain rfl := Except.ok.inj hw
      rw [hlaid.numbers] at hshaped
      -- without boundary pages, `1..0` counts down to zero
      have hzero := hshaped.within (min 1 boundaryCount)
        (mem_windowNumbers.2 (.inl ⟨le_rfl, by omega⟩))
      omega
    · intro hcond
      refine ⟨_, rfl, ?_⟩
      rw [hlaid.numbers]
      refine ⟨hlaid, windowNumbers_increasing .., ?_, ?_, ?_, ?_⟩
      all_goals
        simp only [mem_windowNumbers]
        omega

end

/-- Ten pages with a boundary page at each end. -/
theorem pageWindow_shaped_iff_ten :
    pageWindow 5 10 1 1 = .ok [.page 1, .ellipsis, .page 4, .page 5, .page 6, .ellipsis, .page 10]
      ∧ ∃ w, pageWindow 5 10 1 1 = .ok w ∧ Laid (w.filterMap WindowEntry.number?) w
        ∧ Shaped 5 10 1 1 (w.filterMap WindowEntry.number?) :=
  ⟨by decide, (pageWindow_shaped_iff (by decide) (by decide) (by decide) (by decide)).2
    (.inl (by decide))⟩

/-- **Ten pages without boundary pages** show the pages zero and eleven. -/
theorem pageWindow_counts_down :
    pageWindow 5 10 1 0 = .ok [.page 0, .page 1, .ellipsis, .page 4, .page 5, .page 6, .ellipsis,
      .page 10, .page 11] := by
  decide

end HardenLlm.Ui
