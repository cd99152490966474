import Mathlib.Data.List.Nodup
/-!
# Lists of slots

A list whose entries are found by a key that no two of them share: the
first entry under a key is the only one, so rewriting or erasing it leaves
every other entry as it was.
-/

namespace HardenLlm

open List

variable {α κ : Type*}

/-- Rewriting the first entry a predicate selects. -/
def modifyFirst (p : α → Bool) (f : α → α) : List α → List α
  | [] => []
  | a :: rest => if p a then f a :: rest else a :: modifyFirst p f rest

theorem map_modifyFirst {p : α → Bool} {f : α → α} {key : α → κ} (h : ∀ x, key (f x) = key x)
    (l : List α) : (modifyFirst p f l).map key = l.map key := by
  induction l with
  | nil => rfl
  | cons x rest ih =>
    unfold modifyFirst
    split
    · simp [h]
    · simp [ih]

variable {key : α → κ} {x : α} {l : List α}

/-- Behind a slot there is none under its key. -/
theorem key_ne_of_nodup (hn : ((x :: l).map key).Nodup) : ∀ y ∈ l, key y ≠ key x :=
  fun _ hy e => (nodup_cons.mp hn).1 (e ▸ mem_map_of_mem hy)

variable [DecidableEq κ] {k : κ} {f : α → α}

section

variable (hn : (l.map key).Nodup)
include hn

theorem modifyFirst_eq_map :
    modifyFirst (fun y => decide (key y = k)) f l = l.map fun y => if key y = k then f y else y := by
  induction l with
  | nil => rfl
  | cons y rest ih =>
    rw [modifyFirst, map_cons]
    by_cases hk : key y = k
    · -- the key is here, so it is nowhere further on
      subst hk
      have hsame : ∀ z ∈ rest, (if key z = key y then f z else z) = z :=
        fun z hz => if_neg (key_ne_of_nodup hn z hz)
      rw [if_pos (decide_eq_true rfl), if_pos rfl, map_congr_left hsame, map_id']
    · rw [if_neg (by simpa using hk), if_neg hk, ih hn.of_cons]

theorem eraseP_eq_filter :
    l.eraseP (fun y => decide (key y = k)) = l.filter fun y => decide (key y ≠ k) := by
  induction l with
  | nil => rfl
  | cons y rest ih =>
    by_cases hk : key y = k
    · subst hk
      rw [eraseP_cons_of_pos (by simp), filter_cons_of_neg (by simp),
        filter_eq_self.mpr fun z hz => decide_eq_true (key_ne_of_nodup hn z hz)]
    · rw [eraseP_cons_of_neg (by simpa using hk), filter_cons_of_pos (by simpa using hk),
        ih hn.of_cons]

/-- **Rewriting a slot**: the others stay, and the one under the key is
rewritten. -/
theorem mem_modifyFirst :
    x ∈ modifyFirst (fun y => decide (key y = k)) f l ↔
      (x ∈ l ∧ key x ≠ k) ∨ ∃ y ∈ l, key y = k ∧ x = f y := by
  rw [modifyFirst_eq_map hn, mem_map]
  constructor
  · rintro ⟨y, hy, rfl⟩
    by_cases hk : key y = k
    · exact .inr ⟨y, hy, hk, if_pos hk⟩
    · rw [if_neg hk]
      exact .inl ⟨hy, hk⟩
  · rintro (⟨hx, hk⟩ | ⟨y, hy, hk, rfl⟩)
    · exact ⟨x, hx, if_neg hk⟩
    · exact ⟨y, hy, if_pos hk⟩

/-- **Erasing a slot**: the others stay. -/
theorem mem_eraseP_key : x ∈ l.eraseP (fun y => decide (key y = k)) ↔ x ∈ l ∧ key x ≠ k := by
  rw [eraseP_eq_filter hn, mem_filter, decide_eq_true_eq]

/-- One slot under a key is all there is under it. -/
theorem filter_key (hx : x ∈ l) : l.filter (fun y => decide (key y = key x)) = [x] := by
  induction l with
  | nil => exact absurd hx (by simp)
  | cons y rest ih =>
    have hne := key_ne_of_nodup hn
    obtain rfl | hx := mem_cons.mp hx
    · rw [filter_cons_of_pos (by simp), filter_eq_nil_iff.mpr]
      intro z hz
      simpa using hne z hz
    · rw [filter_cons_of_neg (by simpa using (hne x hx).symm), ih hn.of_cons hx]

/-- Leaving out the slot under one key costs one in a count. -/
theorem countP_key_ne (hx : x ∈ l) {p : α → Bool} (hp : p x = true) :
    l.countP (fun y => p y && !decide (key y = key x)) + 1 = l.countP p := by
  rw [l.countP_eq_countP_filter_add p fun y => decide (key y = key x), filter_key hn hx,
    countP_filter, countP_singleton, if_pos hp, Nat.add_comm]

end

/-! ## Counts, without distinct keys -/

section Counts

variable {p q : α → Bool} {x : α}

theorem modifyFirst_split {before behind : List α} (hx : p x = true)
    (h : ∀ y ∈ before, (!p y) = true) :
    modifyFirst p f (before ++ x :: behind) = before ++ f x :: behind := by
  induction before with
  | nil => simp [modifyFirst, hx]
  | cons y rest ih =>
    obtain ⟨hy, hrest⟩ := forall_mem_cons.mp h
    simp_all [modifyFirst]

theorem find?_modifyFirst (h : l.find? p = some x) (hp : p (f x) = true) :
    (modifyFirst p f l).find? p = some (f x) := by
  obtain ⟨hx, before, behind, rfl, hbefore⟩ := find?_eq_some_iff_append.mp h
  rw [modifyFirst_split hx hbefore]
  exact find?_eq_some_iff_append.mpr ⟨hp, before, behind, rfl, hbefore⟩

/-- Rewriting the first entry moves a count by that entry. -/
theorem countP_modifyFirst (h : l.find? p = some x) :
    (modifyFirst p f l).countP q + (if q x then 1 else 0) = l.countP q + if q (f x) then 1 else 0 := by
  obtain ⟨hx, before, behind, rfl, hbefore⟩ := find?_eq_some_iff_append.mp h
  simp only [modifyFirst_split hx hbefore, countP_append, countP_cons]
  omega

/-- So does erasing it. -/
theorem countP_eraseP (h : l.find? p = some x) :
    (l.eraseP p).countP q + (if q x then 1 else 0) = l.countP q := by
  obtain ⟨hx, before, behind, rfl, hbefore⟩ := find?_eq_some_iff_append.mp h
  rw [eraseP_append_right _ (by simpa using hbefore), eraseP_cons_of_pos hx]
  simp only [countP_append, countP_cons]
  omega

end Counts

end HardenLlm
