import Mathlib.Data.List.Nodup
import Mathlib.Logic.Function.Basic
/-!
# Tables with a primary key

A table is a finite list of rows no two of which share a key. Rows are
looked up by key, inserted under a fresh key, and rewritten in place by
an update that selects rows with a predicate and leaves their keys alone;
these are the three statements a row store offers, and the lemmas here
say what each does to a lookup and to a count.
-/

namespace HardenLlm

open List

/-- **A table whose rows are identified by `key`.** The distinctness of
the keys is part of the value, so no operation can forget it. -/
structure Table {ρ κ : Type*} (key : ρ → κ) where
  rows : List ρ
  nodup : (rows.map key).Nodup

namespace Table

variable {ρ κ : Type*} {key : ρ → κ}

/-- The table with no rows. -/
def empty : Table key := ⟨[], List.nodup_nil⟩

/-- **A `SET` clause**: a rewrite of rows that leaves the key alone. -/
def Assignment (key : ρ → κ) := { f : ρ → ρ // ∀ r, key (f r) = key r }

/-- `UPDATE … SET f WHERE p`. -/
def update (t : Table key) (p : ρ → Bool) (f : Assignment key) : Table key where
  rows := t.rows.map fun r => if p r then f.1 r else r
  nodup := by
    have hkeys : (t.rows.map fun r => if p r then f.1 r else r).map key = t.rows.map key := by
      rw [List.map_map]
      refine List.map_congr_left fun r _ => ?_
      simp only [Function.comp_apply]
      split
      · exact f.2 r
      · rfl
    rw [hkeys]
    exact t.nodup

/-- The number of rows a predicate selects. -/
def count (t : Table key) (q : ρ → Bool) : ℕ := t.rows.countP q

variable [DecidableEq κ] {t : Table key} {r : ρ} {k : κ}

/-- The row stored under a key. -/
def get? (t : Table key) (k : κ) : Option ρ := t.rows.find? fun r => key r = k

theorem key_of_get? (h : t.get? k = some r) : key r = k := by
  have := List.find?_some h
  simpa using this

theorem mem_of_get? (h : t.get? k = some r) : r ∈ t.rows :=
  mem_of_find?_eq_some h

theorem get?_eq_none : t.get? k = none ↔ ∀ r ∈ t.rows, key r ≠ k := by
  simp [get?]

/-- **A stored row is found under its own key**, since no other row can
stand before it. -/
theorem get?_of_mem (h : r ∈ t.rows) : t.get? (key r) = some r := by
  cases hfind : t.get? (key r) with
  | none => exact absurd rfl (get?_eq_none.1 hfind r h)
  | some =>
    rw [inj_on_of_nodup_map t.nodup (mem_of_get? hfind) h (key_of_get? hfind)]

@[simp] theorem get?_empty (k : κ) : (empty : Table key).get? k = none := rfl

/-- `INSERT` of a row whose key is free. -/
def insert (t : Table key) (r : ρ) (h : t.get? (key r) = none) : Table key where
  rows := r :: t.rows
  nodup := by
    rw [get?_eq_none] at h
    simp only [List.map_cons, List.nodup_cons, List.mem_map, not_exists, not_and]
    exact ⟨fun a ha => h a ha, t.nodup⟩

/-- An insert adds its row and hides no other. -/
theorem get?_insert (t : Table key) (r : ρ) (h : t.get? (key r) = none) (k : κ) :
    (t.insert r h).get? k = if k = key r then some r else t.get? k := by
  by_cases hk : k = key r
  · simp [get?, insert, hk]
  · simp [get?, insert, hk, Ne.symm hk]

/-- **An update acts on each row separately.** -/
theorem get?_update (t : Table key) (p : ρ → Bool) (f : Assignment key) (k : κ) :
    (t.update p f).get? k = (t.get? k).map fun r => if p r then f.1 r else r := by
  simp only [get?, update, List.find?_map]
  congr 2
  funext r
  simp only [Function.comp_apply]
  split
  · rw [f.2 r]
  · rfl

/-- `UPDATE … SET f WHERE key = k AND p`: an update of at most one row. -/
def modify (t : Table key) (k : κ) (p : ρ → Bool) (f : Assignment key) : Table key :=
  t.update (fun r => key r = k && p r) f

theorem get?_modify (t : Table key) (k : κ) (p : ρ → Bool) (f : Assignment key) (k' : κ) :
    (t.modify k p f).get? k'
      = if k' = k then (t.get? k).map (fun r => if p r then f.1 r else r) else t.get? k' := by
  rw [modify, get?_update]
  cases hr : t.get? k' with
  | none => split <;> simp_all
  | some =>
    have hkey := key_of_get? hr
    by_cases hk : k' = k
    · simp [← hk, hr, hkey]
    · simp [hk, hkey]

variable {p : ρ → Bool} {β : Type*} {t' : Table key}

/-- **A single-row update whose row is known**: that row is replaced and
every other lookup is as before. -/
theorem get?_modify_of_get? (hr : t.get? k = some r) (hp : p r = true) (f : Assignment key)
    (k' : κ) : (t.modify k p f).get? k' = if k' = k then some (f.1 r) else t.get? k' := by
  simp [get?_modify, hr, hp]

/-- A row the predicate refuses is not rewritten. -/
theorem get?_modify_of_not (hr : t.get? k = some r) (hp : p r = false) (f : Assignment key)
    (k' : κ) : (t.modify k p f).get? k' = t.get? k' := by
  rw [get?_modify]
  split
  · rename_i hk
    simp [hk, hr, hp]
  · rfl

/-- Inserting a row, when its key is free. -/
def insert? (t : Table key) (r : ρ) : Option (Table key) :=
  if h : t.get? (key r) = none then some (t.insert r h) else none

/-- Inserting rows one after the other; a taken key fails the whole copy. -/
def insertAll? (t : Table key) : List ρ → Option (Table key)
  | [] => some t
  | r :: rs => (t.insert? r).bind fun t' => t'.insertAll? rs

theorem insert?_eq_some :
    t.insert? r = some t' ↔ ∃ h : t.get? (key r) = none, t.insert r h = t' := by
  simp [insert?]

/-- **What a copied batch of rows leaves behind.** A row found afterwards
is an old one or one of the batch, and the batch displaced nothing. -/
theorem get?_insertAll? {rs : List ρ} (h : t.insertAll? rs = some t') (k : κ) :
    (t.get? k = none ∧ ∃ r ∈ rs, t'.get? k = some r ∧ key r = k) ∨ t'.get? k = t.get? k := by
  induction rs generalizing t with
  | nil =>
    simp only [insertAll?, Option.some.injEq] at h
    exact .inr (by rw [h])
  | cons r rs ih =>
    simp only [insertAll?, Option.bind_eq_some_iff] at h
    obtain ⟨t₁, h₁, hrest⟩ := h
    obtain ⟨hfree, rfl⟩ := insert?_eq_some.1 h₁
    have hget := get?_insert t r hfree
    rcases ih hrest with ⟨hnone, r', hr', hfound⟩ | hsame
    · rw [hget] at hnone
      split at hnone
      · cases hnone
      · exact .inl ⟨hnone, r', mem_cons_of_mem _ hr', hfound⟩
    · rw [hget] at hsame
      split at hsame
      · rename_i hk
        exact .inl ⟨hk ▸ hfree, r, mem_cons_self, hsame, hk.symm⟩
      · exact .inr hsame

/-- `DELETE … WHERE key = k`. -/
def erase (t : Table key) (k : κ) : Table key where
  rows := t.rows.filter fun r => key r ≠ k
  nodup := t.nodup.sublist (List.filter_sublist.map key)

theorem get?_erase (t : Table key) (k k' : κ) :
    (t.erase k).get? k' = if k' = k then none else t.get? k' := by
  rw [get?, erase, List.find?_filter]
  split
  · rename_i hk
    subst hk
    simp
  · rename_i hk
    refine congrArg (t.rows.find? ·) (funext fun r => ?_)
    by_cases hr : key r = k'
    · simp [hr, hk]
    · simp [hr]

/-- `DELETE … WHERE p`. -/
def deleteWhere (t : Table key) (p : ρ → Bool) : Table key where
  rows := t.rows.filter fun r => !p r
  nodup := t.nodup.sublist (List.filter_sublist.map key)

theorem get?_deleteWhere (t : Table key) (p : ρ → Bool) (k : κ) :
    (t.deleteWhere p).get? k = (t.get? k).filter fun r => !p r := by
  have hfound {r : ρ} (h : (t.deleteWhere p).get? k = some r) :
      t.get? k = some r ∧ p r = false := by
    have hmem := mem_of_get? h
    simp only [deleteWhere, mem_filter, Bool.not_eq_true'] at hmem
    exact ⟨key_of_get? h ▸ get?_of_mem hmem.1, hmem.2⟩
  cases hr : t.get? k with
  | none =>
    cases h : (t.deleteWhere p).get? k with
    | none => rfl
    | some => rw [(hfound h).1] at hr; cases hr
  | some r =>
    by_cases hp : p r = true
    · cases h : (t.deleteWhere p).get? k with
      | none => simp [Option.filter, hp]
      | some =>
        have hsame := hfound h
        rw [hr] at hsame
        cases hsame.1
        rw [hp] at hsame
        cases hsame.2
    · have hmem : r ∈ (t.deleteWhere p).rows := by
        simp only [deleteWhere, mem_filter, Bool.not_eq_true']
        exact ⟨mem_of_get? hr, by simpa using hp⟩
      have hget := get?_of_mem hmem
      rw [key_of_get? hr] at hget
      simp [Option.filter, hget, hp]

/-! ## Counting -/

omit [DecidableEq κ] in
theorem count_eq_zero {q : ρ → Bool} : t.count q = 0 ↔ ∀ r ∈ t.rows, q r = false := by
  simp [count]

theorem count_insert (t : Table key) (r : ρ) (h : t.get? (key r) = none) (q : ρ → Bool) :
    (t.insert r h).count q = t.count q + if q r then 1 else 0 := by
  simp [count, insert, countP_cons]

omit [DecidableEq κ] in
/-- Counting a list through a rewrite that touches only the entry whose
key is `k`. -/
theorem countP_rewrite_one (rows : List ρ) (hnd : (rows.map key).Nodup) (hr : r ∈ rows) (g : ρ → ρ)
    (hg : ∀ a ∈ rows, key a ≠ key r → g a = a) (q : ρ → Bool) :
    (rows.map g).countP q + (if q r then 1 else 0)
      = rows.countP q + (if q (g r) then 1 else 0) := by
  induction rows with
  | nil => simp at hr
  | cons a rest ih =>
    simp only [map_cons, nodup_cons, mem_map, not_exists, not_and] at hnd
    simp only [map_cons, countP_cons]
    rcases mem_cons.1 hr with rfl | hr'
    · -- the rewritten row stands first, and the tail is left alone
      have hrest : rest.map g = rest.map id := map_congr_left fun b hb =>
        hg b (mem_cons_of_mem _ hb) (hnd.1 b hb)
      rw [map_id] at hrest
      rw [hrest]; omega
    · have hne : key a ≠ key r := fun e => hnd.1 r hr' e.symm
      have hga : g a = a := hg a mem_cons_self hne
      have := ih hnd.2 hr' (forall_mem_cons.1 hg).2
      rw [hga]; omega

/-- **A single-row update moves a count by that row alone.** -/
theorem count_modify_of_get? (hr : t.get? k = some r) (hp : p r = true) (f : Assignment key)
    (q : ρ → Bool) :
    (t.modify k p f).count q + (if q r then 1 else 0)
      = t.count q + (if q (f.1 r) then 1 else 0) := by
  have hkey := key_of_get? hr
  have h := countP_rewrite_one t.rows t.nodup (mem_of_get? hr)
    (fun a => if (decide (key a = k) && p a) = true then f.1 a else a)
    (fun a _ hne => by simp [hkey ▸ hne]) q
  simpa [count, modify, update, hkey, hp] using h

/-! ## The effect of a statement

What a reader of the table can tell about a statement, apart from how it
was carried out. -/

/-- **One row replaced.** Every other lookup is as before, and a count
moves by this row alone. -/
structure Replaces (t t' : Table key) (k : κ) (r r' : ρ) : Prop where
  old : t.get? k = some r
  get : ∀ k', t'.get? k' = if k' = k then some r' else t.get? k'
  count : ∀ q : ρ → Bool,
    t'.count q + (if q r then 1 else 0) = t.count q + (if q r' then 1 else 0)

/-- **One row added** under a free key. -/
structure Adds (t t' : Table key) (r : ρ) : Prop where
  free : t.get? (key r) = none
  get : ∀ k', t'.get? k' = if k' = key r then some r else t.get? k'
  count : ∀ q : ρ → Bool, t'.count q = t.count q + (if q r then 1 else 0)

theorem replaces_modify (hr : t.get? k = some r) (hp : p r = true) (f : Assignment key) :
    t.Replaces (t.modify k p f) k r (f.1 r) :=
  ⟨hr, get?_modify_of_get? hr hp f, count_modify_of_get? hr hp f⟩

theorem adds_of_insert? (h : t.insert? r = some t') : t.Adds t' r := by
  obtain ⟨hfree, rfl⟩ := insert?_eq_some.1 h
  exact ⟨hfree, get?_insert t r hfree, count_insert t r hfree⟩

/-- The partial map from keys that a column of the table defines. -/
def view {β : Type*} (t : Table key) (g : ρ → Option β) (k : κ) : Option β := (t.get? k).bind g

namespace Replaces

variable {t t' : Table key} {k k' : κ} {r r' : ρ}

variable (h : t.Replaces t' k r r')
include h

theorem get_self : t'.get? k = some r' := by
  rw [h.get, if_pos rfl]

theorem get_ne (hk : k' ≠ k) : t'.get? k' = t.get? k' := by
  rw [h.get, if_neg hk]

/-- A replacement adds no row. -/
theorem get_none (hk : t.get? k' = none) : t'.get? k' = none := by
  rw [h.get_ne, hk]
  rintro rfl
  rw [h.old] at hk
  cases hk

theorem view_eq (g : ρ → Option β) : t'.view g = Function.update (t.view g) k (g r') := by
  funext k'
  by_cases hk : k' = k
  · subst hk
    simp [view, h.get_self]
  · simp [view, h.get_ne hk, hk]

/-- A column the replacement does not change. -/
theorem view_congr {g : ρ → Option β} (hg : g r' = g r) : t'.view g = t.view g := by
  rw [h.view_eq, hg]
  refine Function.update_eq_self_iff.2 ?_
  simp [view, h.old]

end Replaces

namespace Adds

variable {t t' : Table key} {k' : κ} {r : ρ}

variable (h : t.Adds t' r)
include h

theorem get_self : t'.get? (key r) = some r := by
  rw [h.get, if_pos rfl]

theorem get_ne (hk : k' ≠ key r) : t'.get? k' = t.get? k' := by
  rw [h.get, if_neg hk]

theorem view_eq (g : ρ → Option β) : t'.view g = Function.update (t.view g) (key r) (g r) := by
  funext k'
  by_cases hk : k' = key r
  · subst hk
    simp [view, h.get_self]
  · simp [view, h.get_ne hk, hk]

/-- A column the new row has no value in. -/
theorem view_congr {g : ρ → Option β} (hg : g r = none) : t'.view g = t.view g := by
  rw [h.view_eq, hg]
  refine Function.update_eq_self_iff.2 ?_
  simp [view, h.free]

/-- Nothing stored is lost. -/
theorem get_of_get? {a : ρ} (ha : t.get? k' = some a) : t'.get? k' = some a := by
  rw [h.get_ne, ha]
  rintro rfl
  rw [h.free] at ha
  cases ha

end Adds

end Table

end HardenLlm
