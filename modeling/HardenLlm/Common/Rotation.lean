import Mathlib.Data.List.Nodup
import Mathlib.Data.Prod.Lex
/-!
# Going round a linear order

Places on a line, visited upwards and again from the least one after the
greatest. A choice is the next one when no place that could have been
chosen lies between it and the choice before; a sequence of such choices
goes round and leaves out nobody who could have been chosen throughout.
-/

namespace HardenLlm.Rotation

open List

variable {α β γ : Type*} [LinearOrder α] {c : α} {y : ℕ × α}

/-- **On the way up from `a` to `b`**, past the greatest place if `b` is not
above `a`; from a place to itself the way is the whole round. -/
def Between (a o b : α) : Prop := if a < b then a < o ∧ o < b else a < o ∨ o < b

instance (a o b : α) : Decidable (Between a o b) := by unfold Between; infer_instance

/-- Where a place stands in the round that starts just above `c`. -/
def lap (c x : α) : Bool ×ₗ α := toLex (decide (x ≤ c), x)

theorem lap_lt {x y : α} : lap c x < lap c y ↔ c < x ∧ y ≤ c ∨ (x ≤ c ↔ y ≤ c) ∧ x < y := by
  simp only [lap, Prod.Lex.toLex_lt_toLex, Bool.lt_iff, decide_eq_false_iff_not, not_le,
    decide_eq_true_eq, decide_eq_decide]

theorem lap_injective (c : α) : Function.Injective (lap c) := fun _ _ h => congrArg Prod.snd h

/-- The way from the start of a round leads past what stands earlier in
it. -/
theorem between_start {o b : α} : Between c o b ↔ lap c o < lap c b := by
  rw [Between, lap_lt]
  split <;> grind

/-- The way to a later place of the same round. -/
theorem between_of_lap_lt {a o b : α} (h : lap c a < lap c b) :
    Between a o b ↔ lap c a < lap c o ∧ lap c o < lap c b := by
  simp only [Between, lap_lt] at h ⊢
  split <;> grind

/-- The way to a place of the next round. -/
theorem between_of_lap_le {a o b : α} (h : lap c b ≤ lap c a) :
    Between a o b ↔ lap c a < lap c o ∨ lap c o < lap c b := by
  rw [← not_lt] at h
  simp only [Between, lap_lt] at h ⊢
  split <;> grind

/-! ## Entries in turns

Each place has a number of entries, its first, its second and so on. All
first entries stand before all second ones, each turn in the order of one
round. -/

/-- The order of entries, a turn and a place each. -/
def entryKey (c : α) (e : ℕ × α) : ℕ ×ₗ (Bool ×ₗ α) := toLex (e.1, lap c e.2)

theorem entryKey_lt {e f : ℕ × α} :
    entryKey c e < entryKey c f ↔ e.1 < f.1 ∨ e.1 = f.1 ∧ lap c e.2 < lap c f.2 :=
  Prod.Lex.toLex_lt_toLex

theorem entryKey_injective (c : α) : Function.Injective (entryKey c) := by
  intro e f h
  have hplace : lap c e.2 = lap c f.2 := congrArg (fun k => k.2) h
  exact Prod.ext (congrArg (fun k => k.1) h) (lap_injective c hplace)

/-- **Entries laid out in turns**: in order, and no place has an entry of
some turn without those of the turns before. -/
structure Laid (c : α) (l : List (ℕ × α)) : Prop where
  sorted : l.Pairwise fun e f => entryKey c e < entryKey c f
  positive : ∀ e ∈ l, 1 ≤ e.1
  earlier : ∀ e ∈ l, ∀ m, 1 ≤ m → m ≤ e.1 → (m, e.2) ∈ l

theorem entryKey_le {e f : ℕ × α} :
    entryKey c e ≤ entryKey c f ↔ e.1 < f.1 ∨ e.1 = f.1 ∧ lap c e.2 ≤ lap c f.2 :=
  Prod.Lex.toLex_le_toLex

/-- In an ordered list nothing stands between neighbours. -/
theorem le_or_le_of_pairwise [LinearOrder β] {f : γ → β} {init post : List γ} {x y e : γ}
    (h : (init ++ x :: y :: post).Pairwise fun e e' => f e < f e')
    (he : e ∈ init ++ x :: y :: post) : f e ≤ f x ∨ f y ≤ f e := by
  obtain ⟨-, htail, hcross⟩ := pairwise_append.1 h
  obtain ⟨-, hpost⟩ := pairwise_cons.1 htail
  rcases mem_append.1 he with hinit | hrest
  · exact .inl (hcross e hinit x (by simp)).le
  rcases mem_cons.1 hrest with rfl | hrest
  · exact .inl le_rfl
  rcases mem_cons.1 hrest with rfl | hrest
  · exact .inr le_rfl
  · exact .inr ((pairwise_cons.1 hpost).1 e hrest).le

/-- The first entry opens a round. -/
theorem Laid.first {post : List (ℕ × α)} (h : Laid c (y :: post)) :
    ∀ z ∈ y :: post, ¬ Between c z.2 y.2 := by
  intro z hz hbetween
  have hleast : ∀ e ∈ y :: post, entryKey c y ≤ entryKey c e := by
    intro e he
    rcases mem_cons.1 he with rfl | htail
    · exact le_rfl
    · exact ((pairwise_cons.1 h.sorted).1 e htail).le
  have hturn : y.1 ≤ z.1 := by
    rcases entryKey_le.1 (hleast z hz) with hlt | ⟨heq, -⟩
    · exact hlt.le
    · exact heq.le
  have hsame := h.earlier z hz y.1 (h.positive y (by simp)) hturn
  rcases entryKey_le.1 (hleast _ hsame) with hlt | ⟨-, hlap⟩
  · exact lt_irrefl _ hlt
  · exact not_lt.2 hlap (between_start.1 hbetween)

/-- **Entries go round.** No place with an entry still to come lies between
an entry and the one before it. -/
theorem Laid.next {init post : List (ℕ × α)} {x : ℕ × α} (h : Laid c (init ++ x :: y :: post)) :
    ∀ z ∈ y :: post, ¬ Between x.2 z.2 y.2 := by
  intro z hz hbetween
  have hcases := fun e he => le_or_le_of_pairwise (e := e) h.sorted he
  have hzl : z ∈ init ++ x :: y :: post := mem_append_right _ (mem_cons_of_mem _ hz)
  have hxpos : 1 ≤ x.1 := h.positive x (by simp)
  have hypos : 1 ≤ y.1 := h.positive y (by simp)
  have htail := pairwise_cons.1 (pairwise_append.1 h.sorted).2.1
  have hxy : entryKey c x < entryKey c y := htail.1 y (by simp)
  have hturn : y.1 ≤ z.1 := by
    rcases mem_cons.1 hz with rfl | hpost
    · exact le_rfl
    · rcases entryKey_lt.1 ((pairwise_cons.1 htail.2).1 z hpost) with hlt | ⟨heq, -⟩
      · exact hlt.le
      · exact heq.le
  -- the entry of `z` in the turn of `y`
  have hsame := hcases _ (h.earlier z hzl y.1 hypos hturn)
  rcases entryKey_lt.1 hxy with hturns | ⟨hturns, hlap⟩
  · -- `y` opens its turn, so `x` closes an earlier one, in which `z` has an entry too
    have hyz : lap c y.2 ≤ lap c z.2 := by
      rcases hsame with hle | hle <;> rcases entryKey_le.1 hle with hlt | ⟨heq, hlap⟩
      · exact absurd hturns (not_lt.2 hlt.le)
      · exact absurd heq.symm hturns.ne
      · exact absurd hlt (lt_irrefl _)
      · exact hlap
    have hzx : lap c z.2 ≤ lap c x.2 := by
      have hbefore := hcases _ (h.earlier z hzl x.1 hxpos (hturns.le.trans hturn))
      rcases hbefore with hle | hle <;> rcases entryKey_le.1 hle with hlt | ⟨heq, hlap⟩
      · exact absurd hlt (lt_irrefl _)
      · exact hlap
      · exact absurd hturns (not_lt.2 hlt.le)
      · exact absurd heq.symm hturns.ne
    rcases (between_of_lap_le (hyz.trans hzx)).1 hbetween with hlt | hlt
    · exact absurd hlt (not_lt.2 hzx)
    · exact absurd hlt (not_lt.2 hyz)
  · obtain ⟨hxz, hzy⟩ := (between_of_lap_lt hlap).1 hbetween
    rcases hsame with hle | hle <;> rcases entryKey_le.1 hle with hlt | ⟨-, hlap'⟩
    · exact absurd hlt (not_lt.2 hturns.le)
    · exact absurd hxz (not_lt.2 hlap')
    · exact absurd hlt (lt_irrefl _)
    · exact absurd hzy (not_lt.2 hlap')

/-- Either way, after what stands before. -/
theorem Laid.goesOn {pre post : List (ℕ × α)} (h : Laid c (pre ++ y :: post)) :
    ∀ z ∈ y :: post, ¬ Between ((pre.getLast?.map Prod.snd).getD c) z.2 y.2 := by
  rcases eq_nil_or_concat pre with rfl | ⟨init, x, rfl⟩
  · exact h.first
  · simp only [concat_eq_append, append_assoc, singleton_append] at h
    simpa using h.next

/-! ## Choices -/

/-- A choice, and what could have been chosen. -/
structure Pick (α : Type*) where
  choice : α
  free : α → Prop

/-- **The choices go round from `c`**: each is free, and nothing free lies
between it and the choice before. -/
def Follows : α → List (Pick α) → Prop
  | _, [] => True
  | c, p :: rest =>
    (p.free p.choice ∧ ∀ o, p.free o → ¬ Between c o p.choice) ∧ Follows p.choice rest

/-- Where the choices end. -/
def stop : α → List (Pick α) → α
  | c, [] => c
  | _, p :: rest => stop p.choice rest

theorem follows_append {l m : List (Pick α)} :
    Follows c (l ++ m) ↔ Follows c l ∧ Follows (stop c l) m := by
  induction l generalizing c with
  | nil => simp [Follows, stop]
  | cons p rest ih => simp only [cons_append, Follows, ih, stop, and_assoc]

omit [LinearOrder α] in
theorem stop_append {l m : List (Pick α)} : stop c (l ++ m) = stop (stop c l) m := by
  induction l generalizing c with
  | nil => rfl
  | cons p rest ih => exact ih

/-- A step past nobody who is free moves on in the round that ends at them. -/
theorem lap_lt_of_not_between {n a b : α} (ha : a ≠ n) (h : ¬ Between a n b) :
    lap n a < lap n b := by
  simp only [Between, lap_lt] at h ⊢
  split at h <;> grind

/-- **Nobody is chosen twice before one who stays free is chosen.** -/
theorem Follows.nodup {n : α} {l : List (Pick α)} (h : Follows c l)
    (hfree : ∀ p ∈ l, p.free n ∧ p.choice ≠ n) : (l.map Pick.choice).Nodup := by
  have hchain : (l.map Pick.choice).IsChain fun a b => lap n a < lap n b := by
    induction l generalizing c with
    | nil => exact .nil
    | cons p rest ih =>
      have hrest := ih h.2 (forall_mem_cons.1 hfree).2
      cases rest with
      | nil => exact .singleton _
      | cons q =>
        refine .cons_cons ?_ hrest
        exact lap_lt_of_not_between (hfree p (by simp)).2 (h.2.1.2 n (hfree q (by simp)).1)
  have hpairwise := hchain.pairwise
  exact hpairwise.imp fun hlt heq => (heq ▸ hlt).false

/-! ## Choices from a layout -/

/-- **The choices a list makes**, each from what is offered and not taken
before. -/
def picks (offered : γ → Prop) (place : γ → α) (taken : List γ) : List γ → List (Pick α)
  | [] => []
  | x :: rest =>
    ⟨place x, fun o => ∃ y, offered y ∧ y ∉ taken ∧ place y = o⟩
      :: picks offered place (x :: taken) rest

section Layout

variable {c : α} {offered : γ → Prop} {place : γ → α} {entries : List (ℕ × γ)} {l : List γ}

omit [LinearOrder α] in
/-- The choices end at the last one's place. -/
theorem stop_picks (taken : List γ) :
    stop c (picks offered place taken l) = (l.getLast?.map place).getD c := by
  induction l generalizing c taken with
  | nil => rfl
  | cons x rest ih =>
    rw [picks, stop, ih (x :: taken)]
    cases rest with
    | nil => rfl
    | cons y rest =>
      rw [List.getLast?_cons_cons, List.getLast?_eq_some_getLast (cons_ne_nil y rest)]
      rfl

/-- **Taking entries in the order they are laid out goes round**, as long as
whoever is offered and not taken has an entry still to come. -/
theorem follows_picks (laid : Laid c (entries.map fun e => (e.1, place e.2)))
    (nodup : (entries.map Prod.snd).Nodup) (taking : l <+: entries.map Prod.snd)
    (choosable : ∀ x ∈ l, offered x)
    (covered : ∀ pre x rest, l = pre ++ x :: rest → ∀ y, offered y → y ∉ pre →
      ∃ z ∈ entries, z.2 ∉ pre ∧ place z.2 = place y) : Follows c (picks offered place [] l) := by
  -- what was taken is a prefix of the list, and the rest goes on from its end
  suffices hsuffix : ∀ (rest pre taken : List γ), l = pre ++ rest →
      (∀ y, y ∈ taken ↔ y ∈ pre) →
      Follows ((pre.getLast?.map place).getD c) (picks offered place taken rest) from
    hsuffix l [] [] rfl fun _ => Iff.rfl
  intro rest
  induction rest with
  | nil => intro pre taken _ _; exact trivial
  | cons x rest ih =>
    intro pre taken hl htaken
    obtain ⟨later, hlater⟩ := taking
    have hsplit : entries.map Prod.snd = pre ++ x :: (rest ++ later) := by
      rw [← hlater, hl]
      simp
    obtain ⟨e₁, e₂, rfl, rfl, he₂⟩ := map_eq_append_iff.1 hsplit
    obtain ⟨⟨turn, x'⟩, e₃, rfl, rfl, -⟩ := map_eq_cons_iff.1 he₂
    rw [picks, Follows]
    refine ⟨⟨⟨x', choosable x' (by simp [hl]), ?_, rfl⟩, ?_⟩, ?_⟩
    · intro hx
      rw [hsplit] at nodup
      exact (nodup_middle.1 nodup).notMem (mem_append_left _ ((htaken x').1 hx))
    · rintro o ⟨y, hy, hnew, rfl⟩
      obtain ⟨z, hz, hzpre, hplace⟩ := covered _ x' rest hl y hy fun h => hnew ((htaken y).2 h)
      have hlaid := laid
      rw [map_append, map_cons] at hlaid
      have hz₂ : z ∈ (turn, x') :: e₃ := (mem_append.1 hz).resolve_left fun h =>
        hzpre (mem_map_of_mem h)
      have hgoes := hlaid.goesOn (z.1, place z.2)
        (by simpa using mem_map_of_mem (f := fun e => (e.1, place e.2)) hz₂)
      simpa [hplace, List.getLast?_map, Option.map_map, Function.comp_def] using hgoes
    · have hnext := ih (e₁.map Prod.snd ++ [x']) (x' :: taken) (by simp [hl]) fun y => by
        simp [htaken, or_comm]
      simpa using hnext

end Layout

end HardenLlm.Rotation
