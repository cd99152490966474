import Mathlib.Tactic.Common
/-!
# Transactions that may refuse

A transaction is a computation in `Except ε`: it returns its result with
the state it leaves, or an error and no state at all. Its body is a
sequence of guards and lookups, so that one fact takes any of them apart:
a sequence succeeds exactly when its first part does and the rest does on
what that returned.
-/

namespace HardenLlm

variable {ε α β : Type}

/-- Refuse with `e` unless `p` holds. -/
def require (p : Prop) [Decidable p] (e : ε) : Except ε Unit :=
  if p then .ok () else .error e

/-- The row a lookup found, or the error of not finding one. -/
def found (o : Option α) (e : ε) : Except ε α :=
  match o with
  | some a => .ok a
  | none => .error e

variable {f : α → Except ε β} {x : Except ε α} {b : β}

theorem bind_eq_ok : (x >>= f) = .ok b ↔ ∃ a, x = .ok a ∧ f a = .ok b := by
  cases x <;> simp [bind, Except.bind]

/-- A check before the rest. -/
theorem seq_eq_ok {x : Except ε Unit} {y : Except ε β} :
    (x >>= fun _ => y) = .ok b ↔ x = .ok () ∧ y = .ok b := by
  cases x <;> simp [bind, Except.bind]

theorem map_eq_ok {f : α → β} : x.map f = .ok b ↔ ∃ a, x = .ok a ∧ f a = b := by
  cases x <;> simp [Except.map]

variable {e : ε} {p : Prop}

theorem require_eq_ok [Decidable p] {u : Unit} : require p e = .ok u ↔ p := by
  by_cases h : p <;> simp [require, h]

variable {o : Option α} {a : α}

theorem found_eq_ok : found o e = .ok a ↔ o = some a := by
  cases o <;> simp [found]

theorem require_seq [Decidable p] {f : Unit → Except ε β} :
    (require p e >>= f) = .ok b ↔ p ∧ f () = .ok b := by
  by_cases h : p <;> simp [require, h, bind, Except.bind]

theorem found_seq : (found o e >>= f) = .ok b ↔ ∃ a, o = some a ∧ f a = .ok b := by
  simp [bind_eq_ok, found_eq_ok]

theorem pure_eq_ok {b : α} : (pure a : Except ε α) = .ok b ↔ a = b := by
  simp [pure, Except.pure]

theorem bind_eq_error : (x >>= f) = .error e ↔ x = .error e ∨ ∃ a, x = .ok a ∧ f a = .error e := by
  cases x <;> simp [bind, Except.bind]

theorem require_eq_error [Decidable p] {e e' : ε} (h : require p e = .error e') : e = e' := by
  by_cases hp : p <;> simp_all [require]

theorem found_eq_error {e e' : ε} (h : found o e = .error e') : e = e' := by
  cases o <;> simp_all [found]

/-- A scan whose every success is the value `g` gives. -/
theorem mapM_eq_ok {g : α → β} (hf : ∀ a b, f a = .ok b → b = g a)
    {l : List α} {bs : List β} (h : l.mapM f = .ok bs) :
    bs = l.map g ∧ ∀ a ∈ l, f a = .ok (g a) := by
  induction l generalizing bs with
  | nil => exact ⟨(pure_eq_ok.1 h).symm, nofun⟩
  | cons a rest ih =>
    rw [List.mapM_cons] at h
    obtain ⟨b, hb, h⟩ := bind_eq_ok.1 h
    obtain ⟨cs, hcs, h⟩ := bind_eq_ok.1 h
    obtain rfl := pure_eq_ok.1 h
    obtain ⟨rfl, hrest⟩ := ih hcs
    obtain rfl := hf a b hb
    exact ⟨rfl, List.forall_mem_cons.2 ⟨hb, hrest⟩⟩

theorem exists_of_isOk (h : x.isOk = true) : ∃ a, x = .ok a := by
  cases x with
  | error => exact absurd h (by simp [Except.isOk, Except.toBool])
  | ok a => exact ⟨a, rfl⟩

/-- A guard that holds lets the rest run. -/
theorem require_bind_of_pos [Decidable p] (h : p) {f : Unit → Except ε β} :
    (require p e >>= f) = f () := by
  simp [require, h, bind, Except.bind]

/-- A lookup that succeeds hands its row to the rest. -/
theorem found_bind_of_some (h : o = some a) : (found o e >>= f) = f a := by
  simp [found, h, bind, Except.bind]

end HardenLlm
