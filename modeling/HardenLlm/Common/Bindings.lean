import Mathlib.Data.List.Nodup
import Mathlib.Data.List.Sort
import Mathlib.Data.Prod.Lex
/-!
# Bindings

Association lists in which a key may be bound more than once and the last
binding counts, as in a document that is read from left to right. Collected
into a map, each key is bound once; sorted by key, a map has one form only.
-/

namespace HardenLlm

open List

namespace Bindings

variable {κ β γ : Type*}

/-- Each value rewritten. -/
def mapValues (f : β → γ) (l : List (κ × β)) : List (κ × γ) := l.map fun e => (e.1, f e.2)

theorem keys_mapValues (f : β → γ) (l : List (κ × β)) :
    (mapValues f l).map Prod.fst = l.map Prod.fst := by
  simp [mapValues, Function.comp_def]

theorem mem_mapValues {f : β → γ} {l : List (κ × β)} {e : κ × γ} :
    e ∈ mapValues f l ↔ ∃ v, (e.1, v) ∈ l ∧ f v = e.2 := by
  rcases e with ⟨key, w⟩
  simp [mapValues]

section Maps

variable [DecidableEq κ]

/-- **The value of a key**: its last binding. -/
def value? (key : κ) : List (κ × β) → Option β
  | [] => none
  | (k, v) :: rest => (value? key rest).or (if k = key then some v else none)

theorem value?_append (key : κ) (l m : List (κ × β)) :
    value? key (l ++ m) = (value? key m).or (value? key l) := by
  induction l with
  | nil => simp [value?]
  | cons e rest ih => rw [cons_append, value?, ih, value?, Option.or_assoc]

/-- A function of key and value. -/
theorem value?_map (f : κ → β → γ) (key : κ) (l : List (κ × β)) :
    value? key (l.map fun e => (e.1, f e.1 e.2)) = (value? key l).map (f key) := by
  induction l with
  | nil => rfl
  | cons e rest ih =>
    rw [map_cons, value?, ih, value?, Option.map_or]
    split
    · rename_i hkey
      rw [hkey, Option.map_some]
    · rfl

theorem value?_mapValues (f : β → γ) (key : κ) (l : List (κ × β)) :
    value? key (mapValues f l) = (value? key l).map f :=
  value?_map (fun _ => f) key l

variable {l : List (κ × β)} {key : κ}

theorem value?_isSome : (value? key l).isSome = true ↔ key ∈ l.map Prod.fst := by
  induction l with
  | nil => simp [value?]
  | cons e rest ih =>
    rw [value?, Option.isSome_or, Bool.or_eq_true, ih, map_cons, mem_cons]
    have hhead : (if e.1 = key then some e.2 else none).isSome = true ↔ key = e.1 := by
      split
      · rename_i hkey
        simp [hkey]
      · rename_i hkey
        simpa using fun h : key = e.1 => hkey h.symm
    rw [hhead]
    exact or_comm

variable {v : β}

theorem mem_of_value? (h : value? key l = some v) : (key, v) ∈ l := by
  induction l with
  | nil => cases h
  | cons e rest ih =>
    rw [value?, Option.or_eq_some_iff] at h
    rcases h with h | ⟨-, h⟩
    · exact mem_cons_of_mem _ (ih h)
    · split at h
      · rename_i hkey
        cases h
        rw [← hkey]
        exact mem_cons_self
      · cases h

/-- **In a map every binding counts.** -/
theorem value?_of_mem (hl : (l.map Prod.fst).Nodup) (h : (key, v) ∈ l) : value? key l = some v := by
  induction l with
  | nil => cases h
  | cons e rest ih =>
    rw [map_cons, nodup_cons] at hl
    rw [value?]
    rcases mem_cons.1 h with rfl | h
    · have hnone : value? key rest = none := by
        rw [← Option.not_isSome_iff_eq_none, value?_isSome]
        exact hl.1
      simp [hnone]
    · rw [ih hl.2 h, Option.some_or]

theorem value?_eq_some_iff (hl : (l.map Prod.fst).Nodup) : value? key l = some v ↔ (key, v) ∈ l :=
  ⟨mem_of_value?, value?_of_mem hl⟩

/-! ## Collecting a map -/

/-- One more binding in a map. -/
def put (key : κ) (v : β) (l : List (κ × β)) : List (κ × β) := l.filter (·.1 ≠ key) ++ [(key, v)]

theorem value?_put (key k : κ) (v : β) (l : List (κ × β)) :
    value? key (put k v l) = if k = key then some v else value? key l := by
  rw [put, value?_append]
  have hlast : value? key [(k, v)] = if k = key then some v else none := by simp [value?]
  rw [hlast]
  split
  · rfl
  · rename_i hne
    rw [Option.none_or]
    induction l with
    | nil => rfl
    | cons e rest ih =>
      rw [filter_cons, value?]
      by_cases hk : e.1 = k
      · have hkey : ¬ e.1 = key := fun h => hne (hk ▸ h)
        simp only [hk, ne_eq, not_true_eq_false, decide_false, Bool.false_eq_true, if_false, ih]
        rw [if_neg (hk ▸ hkey), Option.or_none]
      · simp only [ne_eq, hk, not_false_eq_true, decide_true, if_true, value?, ih]

theorem nodup_put (hl : (l.map Prod.fst).Nodup) : ((put key v l).map Prod.fst).Nodup := by
  rw [put, map_append, nodup_append]
  refine ⟨hl.sublist ((filter_sublist).map _), nodup_singleton _, ?_⟩
  intro a ha b hb
  obtain ⟨e, he, rfl⟩ := mem_map.1 ha
  rw [mem_singleton.1 hb]
  simpa using (mem_filter.1 he).2

/-- **The map that a list of bindings describes.** -/
def collect (l : List (κ × β)) : List (κ × β) := l.foldl (fun acc e => put e.1 e.2 acc) []

/-- What the bindings add to a map. -/
theorem value?_foldl_put (key : κ) (l acc : List (κ × β)) :
    value? key (l.foldl (fun acc e => put e.1 e.2 acc) acc) = (value? key l).or (value? key acc) := by
  induction l generalizing acc with
  | nil => rfl
  | cons e rest ih =>
    rw [foldl_cons, ih, value?_put, value?, Option.or_assoc]
    split <;> rfl

@[simp] theorem value?_collect (key : κ) (l : List (κ × β)) : value? key (collect l) = value? key l := by
  rw [collect, value?_foldl_put]
  exact Option.or_none

theorem nodup_collect (l : List (κ × β)) : ((collect l).map Prod.fst).Nodup := by
  have hfold (l acc : List (κ × β)) (hacc : (acc.map Prod.fst).Nodup) :
      ((l.foldl (fun acc e => put e.1 e.2 acc) acc).map Prod.fst).Nodup := by
    induction l generalizing acc with
    | nil => exact hacc
    | cons e rest ih => exact ih _ (nodup_put hacc)
  exact hfold l [] nodup_nil

/-- A map is collected as it is. -/
theorem collect_of_nodup (hl : (l.map Prod.fst).Nodup) : collect l = l := by
  have hfold (l acc : List (κ × β)) (h : ((acc ++ l).map Prod.fst).Nodup) :
      l.foldl (fun acc e => put e.1 e.2 acc) acc = acc ++ l := by
    induction l generalizing acc with
    | nil => simp
    | cons e rest ih =>
      have hfresh : ∀ a ∈ acc, a.1 ≠ e.1 := by
        rw [map_append, nodup_append] at h
        intro a ha heq
        exact h.2.2 _ (mem_map_of_mem ha) _ (by simp) heq
      have hput : put e.1 e.2 acc = acc ++ [e] := by
        rw [put, filter_eq_self.2 fun a ha => by simpa using hfresh a ha]
      rw [foldl_cons, hput, ih, append_assoc, singleton_append]
      rw [append_assoc, singleton_append]
      exact h
  exact hfold l [] hl

theorem collect_mapValues (f : β → γ) (l : List (κ × β)) :
    collect (mapValues f l) = mapValues f (collect l) := by
  have hfold (l acc : List (κ × β)) :
      (mapValues f l).foldl (fun acc e => put e.1 e.2 acc) (mapValues f acc)
        = mapValues f (l.foldl (fun acc e => put e.1 e.2 acc) acc) := by
    induction l generalizing acc with
    | nil => rfl
    | cons e rest ih =>
      have hput : put e.1 (f e.2) (mapValues f acc) = mapValues f (put e.1 e.2 acc) := by
        simp [put, mapValues, filter_map, Function.comp_def]
      rw [foldl_cons, ← ih, ← hput]
      rfl
  exact hfold l []

end Maps

/-! ## Sorting by key -/

section Sorting

variable [LinearOrder κ]

/-- **The bindings in the order of their keys.** -/
def sortByKey (l : List (κ × β)) : List (κ × β) := l.insertionSort fun a b => a.1 ≤ b.1

theorem sortByKey_perm (l : List (κ × β)) : (sortByKey l).Perm l := perm_insertionSort _ l

theorem sortByKey_pairwise (l : List (κ × β)) : (sortByKey l).Pairwise fun a b => a.1 ≤ b.1 := by
  have : Std.Total fun a b : κ × β => a.1 ≤ b.1 := ⟨fun a b => le_total a.1 b.1⟩
  have : IsTrans (κ × β) fun a b => a.1 ≤ b.1 := ⟨fun _ _ _ => le_trans⟩
  exact pairwise_insertionSort _ l

variable {l : List (κ × β)}

theorem nodup_sortByKey (hl : (l.map Prod.fst).Nodup) : ((sortByKey l).map Prod.fst).Nodup :=
  ((sortByKey_perm l).map Prod.fst).nodup_iff.2 hl

theorem mem_sortByKey {e : κ × β} : e ∈ sortByKey l ↔ e ∈ l :=
  (sortByKey_perm l).mem_iff

theorem value?_sortByKey (hl : (l.map Prod.fst).Nodup) (key : κ) :
    value? key (sortByKey l) = value? key l := by
  refine Option.ext fun v => ?_
  rw [value?_eq_some_iff (nodup_sortByKey hl), value?_eq_some_iff hl, mem_sortByKey]

/-- **A sorted map is determined by its values.** -/
theorem sortByKey_eq_iff {l m : List (κ × β)} (hl : (l.map Prod.fst).Nodup)
    (hm : (m.map Prod.fst).Nodup) :
    sortByKey l = sortByKey m ↔ ∀ key, value? key l = value? key m := by
  refine ⟨fun h key => ?_, fun h => ?_⟩
  · rw [← value?_sortByKey hl, h, value?_sortByKey hm]
  · have hmem (e : κ × β) : e ∈ l ↔ e ∈ m := by
      rw [← value?_eq_some_iff hl, ← value?_eq_some_iff hm, h]
    have hperm : (sortByKey l).Perm (sortByKey m) :=
      (sortByKey_perm l).trans
        (((perm_ext_iff_of_nodup hl.of_map hm.of_map).2 hmem).trans (sortByKey_perm m).symm)
    refine hperm.eq_of_pairwise ?_ (sortByKey_pairwise l) (sortByKey_pairwise m)
    intro a b ha hb hab hba
    have hkey : a.1 = b.1 := le_antisymm hab hba
    have ha' := value?_of_mem hm ((hmem a).1 (mem_sortByKey.1 ha))
    have hb' := value?_of_mem hm (mem_sortByKey.1 hb)
    rw [hkey, hb'] at ha'
    exact Prod.ext hkey (Option.some.inj ha').symm

/-- Permuted maps sort alike. -/
theorem sortByKey_eq_of_perm {l m : List (κ × β)} (h : l.Perm m) (hl : (l.map Prod.fst).Nodup) :
    sortByKey l = sortByKey m := by
  have hm : (m.map Prod.fst).Nodup := (h.map Prod.fst).nodup_iff.1 hl
  refine (sortByKey_eq_iff hl hm).2 fun key => ?_
  refine Option.ext fun v => ?_
  rw [value?_eq_some_iff hl, value?_eq_some_iff hm, h.mem_iff]

theorem sortByKey_mapValues (f : β → γ) (l : List (κ × β)) :
    sortByKey (mapValues f l) = mapValues f (sortByKey l) := by
  unfold sortByKey mapValues
  rw [map_insertionSort _ fun a b : κ × γ => a.1 ≤ b.1]
  exact fun _ _ _ _ => Iff.rfl

end Sorting

end Bindings

/-! ## Finite maps -/

/-- **A finite map**, each key bound once. -/
structure Dict (κ β : Type*) where
  entries : List (κ × β)
  nodup : (entries.map Prod.fst).Nodup

namespace Dict

open Bindings

variable {κ β γ : Type*}

def empty : Dict κ β := ⟨[], List.nodup_nil⟩

/-- Each value rewritten. -/
def map (f : β → γ) (m : Dict κ β) : Dict κ γ where
  entries := mapValues f m.entries
  nodup := by
    rw [keys_mapValues]
    exact m.nodup

variable [DecidableEq κ]

def get? (m : Dict κ β) (key : κ) : Option β := value? key m.entries

def put (m : Dict κ β) (key : κ) (v : β) : Dict κ β := ⟨Bindings.put key v m.entries, nodup_put m.nodup⟩

theorem get?_empty (key : κ) : (empty : Dict κ β).get? key = none := rfl

theorem get?_put (m : Dict κ β) (key k : κ) (v : β) :
    (m.put key v).get? k = if key = k then some v else m.get? k :=
  value?_put k key v m.entries

theorem get?_eq_some_iff {m : Dict κ β} {key : κ} : m.get? key = some v ↔ (key, v) ∈ m.entries :=
  value?_eq_some_iff m.nodup

end Dict

end HardenLlm
