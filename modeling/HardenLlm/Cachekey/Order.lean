import HardenLlm.Cachekey.Documents
import Mathlib.Data.List.Perm.Basic
/-!
# The order of maps

A map is visited in any order. The document that a value is encoded as does
not depend on it, and neither does whether the value is safe.
-/

namespace HardenLlm.Cachekey

open List Bindings

/-! ## Orders of maps -/

/-- **The same value, its maps visited in other orders.** -/
inductive Reordered : GoValue → GoValue → Prop
  | same (v : GoValue) : Reordered v v
  | pointer {v w : GoValue} (h : Reordered v w) : Reordered (.pointer v) (.pointer w)
  | slice {id : Option ℕ} {items items' : List GoValue} (each : List.Forall₂ Reordered items items') :
      Reordered (.slice id items) (.slice id items')
  | array {items items' : List GoValue} (each : List.Forall₂ Reordered items items') :
      Reordered (.array items) (.array items')
  | map {id : Option ℕ} {entries middle entries' : List (String × GoValue)}
      (distinct : (entries.map Prod.fst).Nodup)
      (keys : entries.map Prod.fst = middle.map Prod.fst)
      (values : List.Forall₂ Reordered (entries.map Prod.snd) (middle.map Prod.snd))
      (perm : middle.Perm entries') : Reordered (.map id entries) (.map id entries')
  | struct {fields fields' : List (FieldName × GoValue)}
      (names : fields.map Prod.fst = fields'.map Prod.fst)
      (values : List.Forall₂ Reordered (fields.map Prod.snd) (fields'.map Prod.snd)) :
      Reordered (.struct fields) (.struct fields')

instance : Std.Refl Reordered := ⟨.same⟩

variable {κ α β : Type} {entries : List (String × GoValue)} {R : α → β → Prop} {m : List (κ × β)}
  {l : List (κ × α)} {items : List GoValue}

/-- Lists that agree in both components agree. -/
theorem forall₂_of_components (keys : l.map Prod.fst = m.map Prod.fst)
    (values : List.Forall₂ R (l.map Prod.snd) (m.map Prod.snd)) :
    List.Forall₂ (fun e f => e.1 = f.1 ∧ R e.2 f.2) l m := by
  induction l generalizing m with
  | nil =>
    rw [map_nil, eq_comm, map_eq_nil_iff] at keys
    rw [keys]
    exact .nil
  | cons e l ih =>
    cases m with
    | nil => cases keys
    | cons =>
      rw [map_cons, map_cons, List.cons.injEq] at keys
      rw [map_cons, map_cons, forall₂_cons] at values
      exact .cons ⟨keys.1, values.1⟩ (ih keys.2 values.2)

theorem keys_of_components (h : List.Forall₂ (fun e f => e.1 = f.1 ∧ R e.2 f.2) l m) :
    l.map Prod.fst = m.map Prod.fst := by
  induction h with
  | nil => rfl
  | cons hhead _ ih => rw [map_cons, map_cons, hhead.1, ih]

theorem values_of_components (h : List.Forall₂ (fun e f => e.1 = f.1 ∧ R e.2 f.2) l m) :
    List.Forall₂ R (l.map Prod.snd) (m.map Prod.snd) := by
  rw [forall₂_map_left_iff, forall₂_map_right_iff]
  exact h.imp fun _ _ h => h.2

section Encoding

variable {R : GoValue → GoValue → Prop}

theorem marshalItems_congr {items' : List GoValue} {ds : List Json}
    (each : List.Forall₂ R items items')
    (ih : ∀ v ∈ items, ∀ w d, R v w → marshal v = .ok d → marshal w = .ok d)
    (h : marshalItems items = .ok ds) : marshalItems items' = .ok ds := by
  rw [marshalItems_ok] at h ⊢
  induction each generalizing ds with
  | nil => exact h
  | cons hhead _ ihtail =>
    obtain ⟨d, ds, hd, hds, rfl⟩ := forall₂_cons_left_iff.1 h
    exact .cons (ih _ mem_cons_self _ _ hhead hd)
      (ihtail ((forall_mem_cons.1 ih).2) hds)

theorem marshalEntries_congr {entries' : List (String × GoValue)} {fields : List (String × Json)}
    (each : List.Forall₂ (fun e f => e.1 = f.1 ∧ R e.2 f.2) entries entries')
    (ih : ∀ e ∈ entries, ∀ w d, R e.2 w → marshal e.2 = .ok d → marshal w = .ok d)
    (h : marshalEntries entries = .ok fields) : marshalEntries entries' = .ok fields := by
  rw [marshalEntries_ok] at h ⊢
  induction each generalizing fields with
  | nil => exact h
  | cons hhead _ ihtail =>
    obtain ⟨field, fields, hfield, hfields, rfl⟩ := forall₂_cons_left_iff.1 h
    refine .cons ⟨hhead.1.symm.trans hfield.1, ?_⟩
      (ihtail ((forall_mem_cons.1 ih).2) hfields)
    exact ih _ mem_cons_self _ _ hhead.2 hfield.2

end Encoding

variable {v w : GoValue}

/-- **The order of maps does not change what is encoded.** -/
theorem Reordered.marshal_eq {d : Json} (h : Reordered v w)
    (hd : marshal v = .ok d) : marshal w = .ok d := by
  induction v using GoValue.induct generalizing w d with
  | nil | bool | int | float | string | number | bytes | raw | keyed | other =>
    cases h
    exact hd
  | pointer v ih =>
    cases h with
    | same => exact hd
    | pointer h =>
      rw [marshal] at hd ⊢
      exact ih h hd
  | slice _ items ih | array items ih =>
    cases h
    · exact hd
    · rename_i each
      rw [marshal, map_eq_ok] at hd ⊢
      obtain ⟨ds, hds, heq⟩ := hd
      exact ⟨ds, marshalItems_congr each (fun v hv _ _ h hd => ih v hv h hd) hds, heq⟩
  | map id entries ih =>
    cases h with
    | same => exact hd
    | map distinct keys values perm =>
      rw [marshal, map_eq_ok] at hd ⊢
      obtain ⟨fields, hfields, heq⟩ := hd
      have hmiddle := marshalEntries_congr (forall₂_of_components keys values)
        (fun e he _ _ h hd => ih e he h hd) hfields
      obtain ⟨fields', hfields', hperm⟩ :=
        perm_comp_forall₂ perm.symm (marshalEntries_ok.1 hmiddle)
      refine ⟨fields', marshalEntries_ok.2 hfields', ?_⟩
      have hnodup : (fields.map Prod.fst).Nodup := by
        rw [← keys_of_components (R := fun v d => marshal v = .ok d) (marshalEntries_ok.1 hfields)]
        exact distinct
      rw [← heq, sortByKey_eq_of_perm hperm.symm hnodup]
  | struct fields ih =>
    cases h with
    | same => exact hd
    | struct names values =>
      rw [marshal, map_eq_ok, marshalFields_eq] at hd ⊢
      obtain ⟨written, hwritten, heq⟩ := hd
      refine ⟨written, ?_, heq⟩
      refine marshalEntries_congr (R := Reordered) ?_ ?_ hwritten
      · rw [forall₂_map_left_iff, forall₂_map_right_iff]
        exact (forall₂_of_components names values).imp fun e f h => ⟨by rw [h.1], h.2⟩
      · intro e he w d h hd
        obtain ⟨e', he', rfl⟩ := mem_map.1 he
        exact ih e' he' h hd

theorem forall₂_symm {R : GoValue → GoValue → Prop} {l m : List GoValue}
    (h : List.Forall₂ R l m) (hsymm : ∀ v ∈ l, ∀ w, R v w → R w v) : List.Forall₂ R m l := by
  induction h with
  | nil => exact .nil
  | cons hhead _ ih =>
    exact .cons (hsymm _ mem_cons_self _ hhead)
      (ih (forall_mem_cons.1 hsymm).2)

theorem Reordered.symm (h : Reordered v w) : Reordered w v := by
  induction v using GoValue.induct generalizing w with
  | nil | bool | int | float | string | number | bytes | raw | keyed | other =>
    cases h
    exact .same _
  | pointer v ih =>
    cases h with
    | same => exact .same _
    | pointer h => exact .pointer (ih h)
  | slice id items ih =>
    cases h with
    | same => exact .same _
    | slice each => exact .slice (forall₂_symm each fun v hv _ h => ih v hv h)
  | array items ih =>
    cases h with
    | same => exact .same _
    | array each => exact .array (forall₂_symm each fun v hv _ h => ih v hv h)
  | map id entries ih =>
    cases h with
    | same => exact .same _
    | @map _ _ middle entries' distinct keys values perm =>
      have hsymm : List.Forall₂ Reordered (middle.map Prod.snd) (entries.map Prod.snd) := by
        refine forall₂_symm values fun v hv w h => ?_
        obtain ⟨e, he, rfl⟩ := mem_map.1 hv
        exact ih e he h
      -- The entries in the order of the other map, each with its value of before.
      obtain ⟨middle', heach, hperm⟩ :=
        perm_comp_forall₂ perm.symm (forall₂_of_components keys.symm hsymm)
      refine .map ?_ (keys_of_components heach) (values_of_components heach) hperm
      rw [(perm.map Prod.fst).nodup_iff.symm, ← keys]
      exact distinct
  | struct fields ih =>
    cases h with
    | same => exact .same _
    | struct names values =>
      refine .struct names.symm (forall₂_symm values fun v hv w h => ?_)
      obtain ⟨e, he, rfl⟩ := mem_map.1 hv
      exact ih e he h

/-! ## Safe values -/

variable {path : String} {seen : List ℕ}

theorem validateItems_ok {index : ℕ}
    (h : ∀ v ∈ items, ∀ path, validateReflect path seen v = .ok ()) :
    validateItems path seen index items = .ok () := by
  induction items generalizing index with
  | nil => rfl
  | cons v items ih =>
    rw [validateItems, h v mem_cons_self]
    exact ih (forall_mem_cons.1 h).2

theorem exists_of_validateItems {index : ℕ} (h : validateItems path seen index items = .ok ()) :
    ∀ v ∈ items, ∃ path, validateReflect path seen v = .ok () := by
  induction items generalizing index with
  | nil => exact nofun
  | cons v items ih =>
    rw [validateItems, bind_eq_ok] at h
    obtain ⟨u, hv, hitems⟩ := h
    exact forall_mem_cons.2 ⟨⟨_, hv⟩, ih hitems⟩

theorem validateEntries_ok (h : ∀ e ∈ entries, ∀ path, validateReflect path seen e.2 = .ok ()) :
    validateEntries path seen entries = .ok () := by
  induction entries with
  | nil => rfl
  | cons e entries ih =>
    rw [validateEntries, h e mem_cons_self]
    exact ih (forall_mem_cons.1 h).2

theorem exists_of_validateEntries (h : validateEntries path seen entries = .ok ()) :
    ∀ e ∈ entries, ∃ path, validateReflect path seen e.2 = .ok () := by
  induction entries with
  | nil => exact nofun
  | cons e entries ih =>
    rw [validateEntries, bind_eq_ok] at h
    obtain ⟨u, he, hentries⟩ := h
    exact forall_mem_cons.2 ⟨⟨_, he⟩, ih hentries⟩

theorem validateFields_eq (path : String) (seen : List ℕ) (fields : List (FieldName × GoValue)) :
    validateFields path seen fields
      = validateEntries path seen (fields.map fun e => (e.1.go, e.2)) := by
  induction fields with
  | nil => rfl
  | cons e fields ih => rw [validateFields, ih, map_cons, validateEntries]

/-- **The order of maps does not change whether a value is safe**, and
neither does the path that a problem would be reported at. -/
theorem Reordered.validate (h : Reordered v w)
    (hv : validateReflect path seen v = .ok ()) (path' : String) :
    validateReflect path' seen w = .ok () := by
  induction v using GoValue.induct generalizing w path path' seen with
  | nil | bool | int | string | number | bytes | raw => cases h; rfl
  | float literal =>
    cases h
    cases literal with
    | none => cases hv
    | some => rfl
  | keyed | other => cases h; cases hv
  | pointer v ih =>
    rw [validateReflect] at hv
    cases h with
    | same => exact ih (.same v) hv path'
    | pointer h => exact ih h hv path'
  | slice id items ih =>
    rw [validateReflect] at hv
    split at hv
    · cases hv
    rename_i hfresh
    have hsafe {items' : List GoValue} (h : ∀ w ∈ items', ∃ v ∈ items, Reordered v w) :
        validateReflect path' seen (.slice id items') = .ok () := by
      rw [validateReflect, if_neg hfresh]
      refine validateItems_ok fun w hw path => ?_
      obtain ⟨v, hmem, hvw⟩ := h w hw
      obtain ⟨_, hv⟩ := exists_of_validateItems hv v hmem
      exact ih v hmem hvw hv path
    cases h with
    | same => exact hsafe fun v hv => ⟨v, hv, .same v⟩
    | slice each => exact hsafe fun w hw => exists_of_forall₂ each hw
  | array items ih =>
    rw [validateReflect] at hv
    have hsafe {items' : List GoValue} (h : ∀ w ∈ items', ∃ v ∈ items, Reordered v w) :
        validateReflect path' seen (.array items') = .ok () := by
      rw [validateReflect]
      refine validateItems_ok fun w hw path => ?_
      obtain ⟨v, hmem, hvw⟩ := h w hw
      obtain ⟨_, hv⟩ := exists_of_validateItems hv v hmem
      exact ih v hmem hvw hv path
    cases h with
    | same => exact hsafe fun v hv => ⟨v, hv, .same v⟩
    | array each => exact hsafe fun w hw => exists_of_forall₂ each hw
  | map id entries ih =>
    rw [validateReflect] at hv
    split at hv
    · cases hv
    rename_i hfresh
    have hsafe {entries' : List (String × GoValue)}
        (h : ∀ f ∈ entries', ∃ e ∈ entries, Reordered e.2 f.2) :
        validateReflect path' seen (.map id entries') = .ok () := by
      rw [validateReflect, if_neg hfresh]
      refine validateEntries_ok fun f hf path => ?_
      obtain ⟨e, he, hef⟩ := h f hf
      obtain ⟨_, hv⟩ := exists_of_validateEntries hv e he
      exact ih e he hef hv path
    cases h with
    | same => exact hsafe fun e he => ⟨e, he, .same e.2⟩
    | map distinct keys values perm =>
      refine hsafe fun f hf => ?_
      obtain ⟨e, he, -, hef⟩ :=
        exists_of_forall₂ (forall₂_of_components keys values) (perm.mem_iff.2 hf)
      exact ⟨e, he, hef⟩
  | struct fields ih =>
    rw [validateReflect, validateFields_eq] at hv
    have hfields (e : FieldName × GoValue) (he : e ∈ fields) :
        ∃ path, validateReflect path seen e.2 = .ok () :=
      exists_of_validateEntries hv _ (mem_map_of_mem he)
    have hsafe {fields' : List (FieldName × GoValue)}
        (h : ∀ f ∈ fields', ∃ e ∈ fields, Reordered e.2 f.2) :
        validateReflect path' seen (.struct fields') = .ok () := by
      rw [validateReflect, validateFields_eq]
      refine validateEntries_ok fun f hf path => ?_
      obtain ⟨f, hmem, rfl⟩ := mem_map.1 hf
      obtain ⟨e, he, hef⟩ := h f hmem
      obtain ⟨_, hv⟩ := hfields e he
      exact ih e he hef hv path
    cases h with
    | same => exact hsafe fun e he => ⟨e, he, .same e.2⟩
    | struct names values =>
      refine hsafe fun f hf => ?_
      obtain ⟨e, he, -, hef⟩ := exists_of_forall₂ (forall₂_of_components names values) hf
      exact ⟨e, he, hef⟩

end HardenLlm.Cachekey
