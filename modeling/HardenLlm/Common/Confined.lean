import Mathlib.Order.Defs.Unbundled
import Mathlib.Tactic.Common
/-!
# Confined operations

An operation reads a state, may change it and may fail. For a relation of
states that look alike and a preorder of states that may follow one
another, it is *confined* when it returns the same from states that look
alike, leaves them alike, and leaves a state that may follow. Sequencing
and transactions keep that, so it is proved step by step.
-/

namespace HardenLlm

/-! ## Operations -/

/-- **An operation on a state**, which may fail; what it did before it
failed stays done. -/
abbrev Op (S ε α : Type) := ExceptT ε (StateM S) α

namespace Op

variable {S ε α β : Type}

/-- What an operation returns, and the state it leaves. -/
def exec (x : Op S ε α) (s : S) : Except ε α × S := x s

/-- A read of the state. -/
def reads (f : S → α) : Op S ε α := fun s => (.ok (f s), s)

/-- A change of the state. -/
def change (f : S → S) : Op S ε Unit := fun s => (.ok (), f s)

/-- A check without a look at the state. -/
def lift (x : Except ε α) : Op S ε α := fun s => (x, s)

/-- Fail with `e` unless `p` holds. -/
def ensure (p : Prop) [Decidable p] (e : ε) : Op S ε Unit := lift (if p then .ok () else .error e)

/-- **A transaction**: a failure undoes what was done. -/
def atomically (x : Op S ε α) : Op S ε α := fun s =>
  match x s with
  | (.ok a, t) => (.ok a, t)
  | (.error e, _) => (.error e, s)

/-- An operation whose failure is a result. -/
def attempt (x : Op S ε α) : Op S ε (Except ε α) := fun s => (.ok (x s).1, (x s).2)

/-- The errors of an operation seen from outside. -/
def mapError (f : ε → ε) (x : Op S ε α) : Op S ε α := fun s =>
  match x s with
  | (.ok a, t) => (.ok a, t)
  | (.error e, t) => (.error (f e), t)

/-- One operation after the other, on the items of a list. -/
def each (f : α → Op S ε Unit) : List α → Op S ε Unit
  | [] => pure ()
  | a :: rest => do f a; each f rest

theorem exec_bind (x : Op S ε α) (f : α → Op S ε β) (s : S) :
    (x >>= f).exec s = match x.exec s with
      | (.ok a, t) => (f a).exec t
      | (.error e, t) => (.error e, t) := by
  simp only [exec, Bind.bind, ExceptT.bind, ExceptT.bindCont, ExceptT.mk, StateT.bind]
  rcases x s with ⟨a | a, s'⟩ <;> rfl

variable {x : Op S ε α} {s t : S} {f : α → Op S ε β} {e : ε} {b : β} {a : α}

/-- **A sequence that returned**, with the states it went through. -/
theorem exec_bind_eq_ok :
    (x >>= f).exec s = (.ok b, t) ↔ ∃ a u, x.exec s = (.ok a, u) ∧ (f a).exec u = (.ok b, t) := by
  rw [exec_bind]
  rcases x.exec s with ⟨e | a, u⟩ <;> simp

theorem exec_ensure_eq_ok {p : Prop} [Decidable p] {a : Unit} :
    (ensure p e).exec s = (.ok a, t) ↔ p ∧ s = t := by
  simp only [exec, ensure, lift, Prod.mk.injEq]
  split <;> simp_all

/-- A transaction returns what its operation returned. -/
theorem exec_atomically_eq_ok : x.atomically.exec s = (.ok a, t) ↔ x.exec s = (.ok a, t) := by
  simp only [exec, atomically]
  rcases x s with ⟨e | b, u⟩ <;> simp

theorem exec_mapError_eq_ok {f : ε → ε} :
    (x.mapError f).exec s = (.ok a, t) ↔ x.exec s = (.ok a, t) := by
  simp only [exec, mapError]
  rcases x s with ⟨e | b, u⟩ <;> simp

/-- **A failure changes nothing.** -/
def Clean (x : Op S ε α) : Prop := ∀ ⦃s e t⦄, x.exec s = (.error e, t) → t = s

namespace Clean

theorem atomically : x.atomically.Clean := by
  intro s e t h
  simp only [exec, Op.atomically] at h
  rcases hx : x s with ⟨e | b, u⟩ <;> rw [hx] at h <;> cases h
  rfl

theorem mapError {f : ε → ε} (hx : x.Clean) : (x.mapError f).Clean := by
  intro s e t h
  simp only [exec, Op.mapError] at h
  rcases hs : x s with ⟨e' | b, u⟩ <;> rw [hs] at h <;> cases h
  exact hx hs

theorem after {x : Except ε α} (hf : ∀ a, (f a).Clean) : (lift x >>= f).Clean := by
  intro s e t h
  rw [exec_bind] at h
  cases x with
  | error =>
    cases h
    rfl
  | ok a => exact hf a h

end Clean

/-- A sequence that returned is one whose parts did. -/
theorem of_exec_bind (h : ((x >>= f).exec s).1 = .ok b) :
    ∃ a, (x.exec s).1 = .ok a ∧ ((f a).exec (x.exec s).2).1 = .ok b := by
  rw [exec_bind] at h
  rcases hx : x.exec s with ⟨e | a, t⟩ <;> rw [hx] at h
  · cases h
  · exact ⟨a, rfl, h⟩

/-- What a transaction returned, its operation returned. -/
theorem of_exec_atomically (h : (x.atomically.exec s).1 = .ok a) : (x.exec s).1 = .ok a := by
  simp only [exec, atomically] at h ⊢
  rcases hx : x s with ⟨e | b, t⟩ <;> rw [hx] at h <;> exact h

theorem of_exec_mapError {f : ε → ε} (h : ((x.mapError f).exec s).1 = .ok a) :
    (x.exec s).1 = .ok a := by
  simp only [exec, mapError] at h ⊢
  rcases hx : x s with ⟨e | b, t⟩ <;> rw [hx] at h
  · cases h
  · exact h

/-- **Confined**, for a relation of states that look alike and a preorder
of states that may follow one another. -/
structure Confined (agree follows : S → S → Prop) (x : Op S ε α) : Prop where
  result : ∀ s t, agree s t → (x.exec s).1 = (x.exec t).1
  state : ∀ s t, agree s t → agree (x.exec s).2 (x.exec t).2
  frame : ∀ s, follows s (x.exec s).2

namespace Confined

variable {agree follows : S → S → Prop}

theorem change {f : S → S} (h : ∀ s t, agree s t → agree (f s) (f t)) (hf : ∀ s, follows s (f s)) :
    Confined agree follows (Op.change f : Op S ε Unit) :=
  ⟨fun _ _ _ => rfl, h, hf⟩

theorem mapError (hx : Confined agree follows x) (f : ε → ε) :
    Confined agree follows (x.mapError f) := by
  have hexec (s : S) : (x.mapError f).exec s = match x.exec s with
      | (.ok a, t) => (.ok a, t)
      | (.error e, t) => (.error (f e), t) := rfl
  have hcases (s t : S) (h : agree s t) :
      ((x.mapError f).exec s).1 = ((x.mapError f).exec t).1
        ∧ agree ((x.mapError f).exec s).2 ((x.mapError f).exec t).2 := by
    have hresult := hx.result s t h
    have hstate := hx.state s t h
    rw [hexec, hexec]
    rcases hs : x.exec s with ⟨e | a, s'⟩ <;> rcases ht : x.exec t with ⟨e' | b, t'⟩ <;>
      rw [hs, ht] at hresult hstate <;> cases hresult <;> exact ⟨rfl, hstate⟩
  refine ⟨fun s t h => (hcases s t h).1, fun s t h => (hcases s t h).2, fun s => ?_⟩
  have hframe := hx.frame s
  rw [hexec]
  rcases hs : x.exec s with ⟨e | a, s'⟩ <;> rw [hs] at hframe <;> exact hframe

theorem attempt (hx : Confined agree follows x) : Confined agree follows x.attempt :=
  ⟨fun s t h => congrArg Except.ok (hx.result s t h), hx.state, hx.frame⟩

variable [IsPreorder S follows]

theorem lift (x : Except ε α) : Confined agree follows (Op.lift x : Op S ε α) :=
  ⟨fun _ _ _ => rfl, fun _ _ h => h, refl_of follows⟩

theorem pure (a : α) : Confined agree follows (Pure.pure a : Op S ε α) := lift (.ok a)

theorem ensure (p : Prop) [Decidable p] (e : ε) :
    Confined agree follows (.ensure p e : Op S ε Unit) := lift _

theorem reads {f : S → α} (h : ∀ s t, agree s t → f s = f t) :
    Confined agree follows (Op.reads f : Op S ε α) :=
  ⟨fun s t hst => congrArg Except.ok (h s t hst), fun _ _ h => h, refl_of follows⟩

theorem atomically (hx : Confined agree follows x) : Confined agree follows x.atomically := by
  refine ⟨fun s t h => ?_, fun s t h => ?_, fun s => ?_⟩
  · have hresult := hx.result s t h
    simp only [exec, Op.atomically] at hresult ⊢
    rcases hs : x s with ⟨a | a, s'⟩ <;> rcases ht : x t with ⟨b | b, t'⟩ <;>
      rw [hs, ht] at hresult <;> cases hresult <;> rfl
  · have hresult := hx.result s t h
    have hstate := hx.state s t h
    simp only [exec, Op.atomically] at hresult hstate ⊢
    rcases hs : x s with ⟨a | a, s'⟩ <;> rcases ht : x t with ⟨b | b, t'⟩ <;>
      rw [hs, ht] at hresult hstate
    · exact h
    · cases hresult
    · cases hresult
    · exact hstate
  · have hframe := hx.frame s
    simp only [exec, Op.atomically] at hframe ⊢
    rcases hs : x s with ⟨a | a, s'⟩ <;> rw [hs] at hframe
    · exact refl_of follows s
    · exact hframe

/-- **Sequencing**, when the rest is confined after whatever the first
operation may return. -/
theorem bind_of (hx : Confined agree follows x)
    (hf : ∀ s a, (x.exec s).1 = .ok a → Confined agree follows (f a)) :
    Confined agree follows (x >>= f) := by
  have hcases (s t : S) (h : agree s t) :
      ((x >>= f).exec s).1 = ((x >>= f).exec t).1
        ∧ agree ((x >>= f).exec s).2 ((x >>= f).exec t).2 := by
    have hresult := hx.result s t h
    have hstate := hx.state s t h
    rw [exec_bind, exec_bind]
    rcases hs : x.exec s with ⟨e | a, s'⟩ <;> rcases ht : x.exec t with ⟨e' | b, t'⟩ <;>
      rw [hs, ht] at hresult hstate
    · cases hresult
      exact ⟨rfl, hstate⟩
    · cases hresult
    · cases hresult
    · cases hresult
      have hfa := hf s a (by rw [hs])
      exact ⟨hfa.result s' t' hstate, hfa.state s' t' hstate⟩
  refine ⟨fun s t h => (hcases s t h).1, fun s t h => (hcases s t h).2, fun s => ?_⟩
  have hframe := hx.frame s
  rw [exec_bind]
  rcases hs : x.exec s with ⟨e | a, s'⟩ <;> rw [hs] at hframe
  · exact hframe
  · exact trans_of follows hframe ((hf s a (by rw [hs])).frame s')

theorem bind (hx : Confined agree follows x) (hf : ∀ a, Confined agree follows (f a)) :
    Confined agree follows (x >>= f) := bind_of hx fun _ a _ => hf a

theorem returns (hx : Confined agree follows x) {g : α → β} :
    Confined agree follows (x >>= fun a => Pure.pure (g a)) := bind hx fun _ => pure _

/-- After a check. -/
theorem after {x : Except ε α} (hf : ∀ a, Confined agree follows (f a)) :
    Confined agree follows (Op.lift x >>= f) := bind (lift x) hf

/-- After a check, the rest may use what it returned. -/
theorem bind_lift {x : Except ε α} (hf : ∀ a, x = .ok a → Confined agree follows (f a)) :
    Confined agree follows (Op.lift x >>= f) := bind_of (lift x) fun _ a h => hf a h

theorem each {f : α → Op S ε Unit} {l : List α} (h : ∀ a ∈ l, Confined agree follows (f a)) :
    Confined agree follows (.each f l) := by
  induction l with
  | nil => exact pure ()
  | cons a rest ih =>
    exact bind (h a List.mem_cons_self) fun _ => ih (List.forall_mem_cons.1 h).2

end Confined

/-- **An operation that only reads.** -/
def ReadOnly (x : Op S ε α) : Prop := ∀ s, (x.exec s).2 = s

namespace ReadOnly

theorem lift (x : Except ε α) : ReadOnly (Op.lift x : Op S ε α) := fun _ => rfl

theorem reads (f : S → α) : ReadOnly (Op.reads f : Op S ε α) := fun _ => rfl

theorem bind (hx : ReadOnly x) (hf : ∀ a, ReadOnly (f a)) : ReadOnly (x >>= f) := by
  intro s
  have hs := hx s
  rw [exec_bind]
  rcases h : x.exec s with ⟨e | a, t⟩ <;> rw [h] at hs
  · exact hs
  · exact (hf a t).trans hs

/-- What a sequence returned, its parts returned from the same state. -/
theorem of_exec_bind (hx : ReadOnly x) (h : ((x >>= f).exec s).1 = .ok b) :
    ∃ a, (x.exec s).1 = .ok a ∧ ((f a).exec s).1 = .ok b := by
  obtain ⟨a, ha, h⟩ := Op.of_exec_bind h
  rw [hx s] at h
  exact ⟨a, ha, h⟩

/-- After a check, what the rest returned. -/
theorem of_exec_bind_lift {x : Except ε α} (h : ((Op.lift x >>= f).exec s).1 = .ok b) :
    ∃ a, x = .ok a ∧ ((f a).exec s).1 = .ok b :=
  (lift x).of_exec_bind h

end ReadOnly

end Op

end HardenLlm
