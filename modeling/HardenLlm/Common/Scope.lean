import HardenLlm.Common.Bindings
import HardenLlm.Common.Confined
import HardenLlm.Common.Table
/-!
# Statements on the rows of one scope

The rows of a store belong to scopes: the key of a row is its scope with an
identifier in it. A statement selects rows by a predicate. When every
predicate of an operation asks for one scope, the operation is confined to
it: what it returns depends on no row of another scope, and it changes
none.
-/

namespace HardenLlm

open Bindings Function List

/-- What the first test of a filter gives. -/
theorem of_and_left {a b : Bool} {P : Prop} (h : a = true → P) (hab : (a && b) = true) : P :=
  h (Bool.and_elim_left hab)

theorem of_decide_and {p : Prop} [Decidable p] {b : Bool} : (decide p && b) = true → p :=
  of_and_left of_decide_eq_true

/-! ## Tables of rows in scopes -/

namespace Table

variable {ρ σ κ : Type} [DecidableEq σ] [LinearOrder κ] {key : ρ → σ × κ}

/-- `SELECT … WHERE p`, in the order of the identifiers. -/
def select (t : Table key) (p : ρ → Bool) : List ρ :=
  (sortByKey ((t.rows.filter p).map fun r => ((key r).2, r))).map Prod.snd

/-- **Two tables have the same rows in a scope.** -/
def AgreeOn (scope : σ) (t t' : Table key) : Prop := ∀ k, t.get? (scope, k) = t'.get? (scope, k)

/-- **A table has the rows of another in every scope but one.** -/
def SameElsewhere (scope : σ) (t t' : Table key) : Prop :=
  ∀ scope' k, scope' ≠ scope → t'.get? (scope', k) = t.get? (scope', k)

variable {scope : σ} {t t' : Table key} {p q : ρ → Bool} {r : ρ}

omit [DecidableEq σ] in
theorem mem_select : r ∈ t.select p ↔ r ∈ t.rows ∧ p r = true := by
  rw [← mem_filter]
  refine ⟨fun h => ?_, fun h => ?_⟩
  · obtain ⟨e, he, rfl⟩ := mem_map.1 h
    obtain ⟨r, hr, rfl⟩ := mem_map.1 (mem_sortByKey.1 he)
    exact hr
  · exact mem_map.2 ⟨_, mem_sortByKey.2 (mem_map.2 ⟨r, h, rfl⟩), rfl⟩

theorem AgreeOn.deleteWhere (h : t.AgreeOn scope t') :
    (t.deleteWhere p).AgreeOn scope (t'.deleteWhere p) := by
  intro k
  rw [get?_deleteWhere, get?_deleteWhere, h k]

theorem AgreeOn.update (h : t.AgreeOn scope t') (f : Assignment key) :
    (t.update p f).AgreeOn scope (t'.update p f) := by
  intro k
  rw [get?_update, get?_update, h k]

section

variable (hp : ∀ r, p r = true → (key r).1 = scope)
include hp

omit [DecidableEq σ] [LinearOrder κ] in
/-- The identifiers of selected rows of one scope are distinct. -/
theorem nodup_selected : (((t.rows.filter p).map fun r => ((key r).2, r)).map Prod.fst).Nodup := by
  have hnodup : ((t.rows.filter p).map key).Nodup :=
    t.nodup.sublist (filter_sublist.map key)
  rw [map_map]
  refine Nodup.map_on ?_ (Nodup.of_map key hnodup)
  intro r hr r' hr' hid
  have hkey : key r = key r' :=
    Prod.ext ((hp r (mem_filter.1 hr).2).trans (hp r' (mem_filter.1 hr').2).symm) hid
  exact inj_on_of_nodup_map hnodup hr hr' hkey

theorem value?_selected (k : κ) :
    value? k ((t.rows.filter p).map fun r => ((key r).2, r)) = (t.get? (scope, k)).filter p := by
  ext r
  rw [value?_eq_some_iff (nodup_selected hp), Option.filter_eq_some_iff, mem_map]
  refine ⟨?_, ?_⟩
  · rintro ⟨r', hr', heq⟩
    cases heq
    obtain ⟨hmem, hpr⟩ := mem_filter.1 hr'
    have hkey : key r = (scope, (key r).2) := Prod.ext (hp r hpr) rfl
    exact ⟨hkey ▸ get?_of_mem hmem, hpr⟩
  · rintro ⟨hget, hpr⟩
    refine ⟨r, mem_filter.2 ⟨mem_of_get? hget, hpr⟩, ?_⟩
    rw [key_of_get? hget]

/-- **A selection in a scope depends on its rows only.** -/
theorem select_congr (h : t.AgreeOn scope t') : t.select p = t'.select p := by
  have hsame : sortByKey ((t.rows.filter p).map fun r => ((key r).2, r))
      = sortByKey ((t'.rows.filter p).map fun r => ((key r).2, r)) := by
    refine (sortByKey_eq_iff (nodup_selected hp) (nodup_selected hp)).2 fun k => ?_
    rw [value?_selected hp, value?_selected hp, h k]
  rw [select, hsame, select]

/-- No row of another scope is selected. -/
theorem eq_false_of_get? {scope' : σ} {k : κ}
    (hne : scope' ≠ scope) (hr : t.get? (scope', k) = some r) : p r = false := by
  by_contra hpr
  rw [Bool.not_eq_false] at hpr
  have hscope := hp r hpr
  rw [key_of_get? hr] at hscope
  exact hne hscope

theorem sameElsewhere_deleteWhere : t.SameElsewhere scope (t.deleteWhere p) := by
  intro scope' k hne
  rw [get?_deleteWhere]
  cases hr : t.get? (scope', k) with
  | none => rfl
  | some r => simp [Option.filter, eq_false_of_get? hp hne hr]

theorem sameElsewhere_update (f : Assignment key) : t.SameElsewhere scope (t.update p f) := by
  intro scope' k hne
  rw [get?_update]
  cases hr : t.get? (scope', k) with
  | none => rfl
  | some r => simp [eq_false_of_get? hp hne hr]

end

/-- An insert is refused by a row of its own scope only. -/
theorem AgreeOn.insert? (hr : (key r).1 = scope) (h : t.AgreeOn scope t') :
    (t.insert? r = none ∧ t'.insert? r = none)
      ∨ ∃ u u', t.insert? r = some u ∧ t'.insert? r = some u' ∧ u.AgreeOn scope u' := by
  have hkey : key r = (scope, (key r).2) := Prod.ext hr rfl
  have hget : t.get? (key r) = t'.get? (key r) := by
    rw [hkey]
    exact h _
  by_cases hfree : t.get? (key r) = none
  · refine .inr ⟨_, _, dif_pos hfree, dif_pos (hget ▸ hfree), fun k => ?_⟩
    rw [get?_insert, get?_insert, h k]
  · exact .inl ⟨dif_neg hfree, dif_neg (hget ▸ hfree)⟩

theorem sameElsewhere_insert? {u : Table key} (hr : (key r).1 = scope) (h : t.insert? r = some u) :
    t.SameElsewhere scope u := by
  intro scope' k hne
  obtain ⟨hfree, rfl⟩ := insert?_eq_some.1 h
  rw [get?_insert, if_neg]
  intro hkey
  exact hne ((congrArg Prod.fst hkey).trans hr)

end Table

/-! ## Stores -/

/-- **The tables of a store**, by name; a key is a scope and an
identifier. -/
structure Schema (σ : Type) where
  Name : Type
  Row : Name → Type
  Id : Name → Type
  key : (n : Name) → Row n → σ × Id n

namespace Schema

variable {σ : Type} {D : Schema σ} {ε α β : Type}

/-- What the tables hold. -/
abbrev Store (D : Schema σ) : Type := (n : D.Name) → Table (D.key n)

variable [DecidableEq σ] [(n : D.Name) → LinearOrder (D.Id n)]

/-- Two stores have the same rows in a scope. -/
def Agree (scope : σ) (s t : D.Store) : Prop := ∀ n, (s n).AgreeOn scope (t n)

/-- A store has the rows of another in every scope but one. -/
def Elsewhere (scope : σ) (s t : D.Store) : Prop := ∀ n, (s n).SameElsewhere scope (t n)

/-- **Confined to a scope.** -/
def Within (scope : σ) (x : Op D.Store ε α) : Prop :=
  Op.Confined (Agree scope) (Elsewhere scope) x

variable {scope : σ}

instance : IsPreorder D.Store (Elsewhere scope) where
  refl _ _ _ _ _ := rfl
  trans _ _ _ h h' n scope' k hne := (h' n scope' k hne).trans (h n scope' k hne)

/-! ## Statements -/

variable [DecidableEq D.Name] {n : D.Name} {p : D.Row n → Bool} {r : D.Row n} {s : D.Store}
  {rows : List (D.Row n)}

/-- `SELECT … WHERE p`. -/
def selectFrom (n : D.Name) (p : D.Row n → Bool) : Op D.Store ε (List (D.Row n)) :=
  .reads fun s => (s n).select p

/-- `DELETE … WHERE p`, with the number of rows. -/
def deleteFrom (n : D.Name) (p : D.Row n → Bool) : Op D.Store ε ℕ := do
  let rows ← selectFrom n p
  .change fun s => Function.update s n ((s n).deleteWhere p)
  return rows.length

/-- `UPDATE … SET f WHERE p`, with the number of rows. -/
def updateIn (n : D.Name) (p : D.Row n → Bool) (f : Table.Assignment (D.key n)) :
    Op D.Store ε ℕ := do
  let rows ← selectFrom n p
  .change fun s => Function.update s n ((s n).update p f)
  return rows.length

/-- `INSERT … ON CONFLICT DO NOTHING`, with whether the row was added. -/
def insertInto (n : D.Name) (r : D.Row n) : Op D.Store ε Bool := fun s =>
  match (s n).insert? r with
  | some t => (.ok true, Function.update s n t)
  | none => (.ok false, s)

section

omit [DecidableEq σ]

omit [DecidableEq D.Name] in
/-- A selection returns what the table has. -/
theorem mem_of_exec_selectFrom (h : ((selectFrom n p : Op D.Store ε _).exec s).1 = .ok rows) :
    r ∈ rows ↔ r ∈ (s n).rows ∧ p r = true := by
  cases h
  exact Table.mem_select

omit [DecidableEq D.Name] in
theorem perm_of_exec_selectFrom (h : ((selectFrom n p : Op D.Store ε _).exec s).1 = .ok rows) :
    rows ~ (s n).rows.filter p := by
  cases h
  refine ((sortByKey_perm _).map Prod.snd).trans (.of_eq ?_)
  rw [map_map]
  exact map_id _

variable {t : D.Store} {count : ℕ} {f : Table.Assignment (D.key n)}

theorem mem_of_exec_deleteFrom (h : (deleteFrom n p : Op D.Store ε _).exec s = (.ok count, t)) :
    r ∈ (t n).rows ↔ r ∈ (s n).rows ∧ p r = false := by
  cases h
  simp only [update_self]
  refine mem_filter.trans ?_
  simp

theorem of_exec_deleteFrom (h : (deleteFrom n p : Op D.Store ε _).exec s = (.ok count, t))
    (hr : r ∈ (t n).rows) : r ∈ (s n).rows :=
  ((mem_of_exec_deleteFrom h).1 hr).1

theorem mem_of_exec_updateIn (h : (updateIn n p f : Op D.Store ε _).exec s = (.ok count, t)) :
    r ∈ (t n).rows ↔ ∃ r' ∈ (s n).rows, (if p r' then f.1 r' else r') = r := by
  cases h
  simp only [update_self]
  exact mem_map

/-- An update counts the rows it finds. -/
theorem updateIn_returns (hr : r ∈ (s n).rows) (hp : p r = true) :
    ∃ count t, count ≠ 0 ∧ (updateIn n p f : Op D.Store ε _).exec s = (.ok count, t) :=
  ⟨_, _, (length_pos_of_mem (Table.mem_select.2 ⟨hr, hp⟩)).ne', rfl⟩

/-- An update that counts a row found one. -/
theorem exists_of_exec_updateIn (h : (updateIn n p f : Op D.Store ε _).exec s = (.ok count, t))
    (hcount : count ≠ 0) : ∃ r ∈ (s n).rows, p r = true := by
  cases h
  obtain ⟨r, hr⟩ := exists_mem_of_ne_nil _ fun hnil => hcount (congrArg List.length hnil)
  exact ⟨r, Table.mem_select.1 hr⟩

end

variable {t : D.Store}

theorem of_exec_insertInto {added : Bool}
    (h : (insertInto n r : Op D.Store ε _).exec s = (.ok added, t)) :
    (added = true ∧ (t n).rows = r :: (s n).rows ∧ ∀ r' ∈ (s n).rows, D.key n r' ≠ D.key n r)
      ∨ (added = false ∧ t = s ∧ ∃ r' ∈ (s n).rows, D.key n r' = D.key n r) := by
  simp only [Op.exec, insertInto] at h
  split at h
  · rename_i u hu
    cases h
    obtain ⟨hfree, rfl⟩ := Table.insert?_eq_some.1 hu
    rw [update_self]
    exact .inl ⟨rfl, rfl, Table.get?_eq_none.1 hfree⟩
  · rename_i hu
    cases h
    have htaken : (s n).get? (D.key n r) ≠ none := fun hfree => by
      rw [Table.insert?, dif_pos hfree] at hu
      cases hu
    obtain ⟨r', hr'⟩ := Option.ne_none_iff_exists'.1 htaken
    exact .inr ⟨rfl, rfl, r', Table.mem_of_get? hr', Table.key_of_get? hr'⟩

theorem insertInto_returns (n : D.Name) (r : D.Row n) (s : D.Store) :
    ∃ added t, (insertInto n r : Op D.Store ε _).exec s = (.ok added, t) := by
  simp only [Op.exec, insertInto]
  split <;> exact ⟨_, _, rfl⟩

theorem elsewhere_update {t : Table (D.key n)} (h : (s n).SameElsewhere scope t) :
    Elsewhere scope s (Function.update s n t) := by
  intro m
  by_cases hm : m = n
  · subst hm
    rw [update_self]
    exact h
  · rw [update_of_ne hm]
    exact fun _ _ _ => rfl

theorem Agree.update (h : Agree scope s t) {u u' : Table (D.key n)} (hu : u.AgreeOn scope u') :
    Agree scope (Function.update s n u) (Function.update t n u') := by
  intro m
  by_cases hm : m = n
  · subst hm
    rw [update_self, update_self]
    exact hu
  · rw [update_of_ne hm, update_of_ne hm]
    exact h m

namespace Within

section Statements

variable {n : D.Name} {p : D.Row n → Bool} (hp : ∀ r, p r = true → (D.key n r).1 = scope)
include hp

omit [DecidableEq D.Name] in
theorem selectFrom : Within scope (selectFrom n p : Op D.Store ε _) :=
  .reads fun _ _ h => Table.select_congr hp (h n)

omit [DecidableEq D.Name] in
/-- After a selection, the rest may use that its rows were selected. -/
theorem bind_select {f : List (D.Row n) → Op D.Store ε β}
    (hf : ∀ rows, (∀ r ∈ rows, p r = true) → Within scope (f rows)) :
    Within scope (Schema.selectFrom n p >>= f) := by
  exact .bind_of (selectFrom hp) fun s rows h =>
    hf rows fun r hr => ((mem_of_exec_selectFrom h).1 hr).2

theorem deleteFrom : Within scope (deleteFrom n p : Op D.Store ε _) := by
  refine .bind (selectFrom hp) fun rows => .returns ?_
  exact .change (fun s t h => h.update (h n).deleteWhere)
    fun s => elsewhere_update (Table.sameElsewhere_deleteWhere hp)

theorem updateIn (f : Table.Assignment (D.key n)) :
    Within scope (updateIn n p f : Op D.Store ε _) := by
  refine .bind (selectFrom hp) fun rows => .returns ?_
  exact .change (fun s t h => h.update ((h n).update f))
    fun s => elsewhere_update (Table.sameElsewhere_update hp f)

end Statements

theorem insertInto (hr : (D.key n r).1 = scope) :
    Within scope (insertInto n r : Op D.Store ε _) := by
  have hcases (s t : D.Store) (h : Agree scope s t) :
      ((Schema.insertInto n r : Op D.Store ε _).exec s).1
          = ((Schema.insertInto n r : Op D.Store ε _).exec t).1
        ∧ Agree scope ((Schema.insertInto n r : Op D.Store ε _).exec s).2
          ((Schema.insertInto n r : Op D.Store ε _).exec t).2 := by
    rcases (h n).insert? hr with ⟨hs, ht⟩ | ⟨u, u', hs, ht, hu⟩
    · simp only [Op.exec, Schema.insertInto, hs, ht]
      exact ⟨trivial, h⟩
    · simp only [Op.exec, Schema.insertInto, hs, ht]
      exact ⟨trivial, h.update hu⟩
  refine ⟨fun s t h => (hcases s t h).1, fun s t h => (hcases s t h).2, fun s => ?_⟩
  simp only [Op.exec, Schema.insertInto]
  split
  · rename_i t ht
    exact elsewhere_update (Table.sameElsewhere_insert? hr ht)
  · exact refl_of (Elsewhere scope) s

end Within

end Schema

end HardenLlm
