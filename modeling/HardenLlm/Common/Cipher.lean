import Mathlib.Data.Nat.Notation
/-!
# Authenticated ciphers

A cipher seals a plaintext under a key and a nonce, together with data that
is authenticated and not encrypted. An ideal one opens a ciphertext for
exactly what it was sealed with.
-/

namespace HardenLlm

/-- **An authenticated cipher.** -/
structure Cipher where
  nonceSize : ℕ
  overhead : ℕ
  seals (key nonce plaintext data : ByteArray) : ByteArray
  opens (key nonce ciphertext data : ByteArray) : Option ByteArray

namespace Cipher

variable {c : Cipher} {k k' n n' p p' a a' t : ByteArray}

/-- **An ideal cipher**: what opens was sealed, and was sealed with
nothing else. -/
structure Ideal (c : Cipher) : Prop where
  opens_seals : ∀ k n p a, c.opens k n (c.seals k n p a) a = some p
  seals_of_opens : ∀ k n t a p, c.opens k n t a = some p → c.seals k n p a = t
  seals_inj : ∀ k n p a k' n' p' a', c.seals k n p a = c.seals k' n' p' a' →
    k = k' ∧ n = n' ∧ p = p' ∧ a = a'
  overhead_le : ∀ k n p a, c.overhead ≤ (c.seals k n p a).size

/-- **What was sealed opens for what it was sealed with**, and for nothing
else. -/
theorem Ideal.opens_seals_eq_some (h : c.Ideal) :
    c.opens k' n' (c.seals k n p a) a' = some p' ↔ k' = k ∧ n' = n ∧ a' = a ∧ p' = p := by
  constructor
  · intro hopens
    obtain ⟨hk, hn, hp, ha⟩ := h.seals_inj _ _ _ _ _ _ _ _ (h.seals_of_opens _ _ _ _ _ hopens)
    exact ⟨hk, hn, ha, hp⟩
  · rintro ⟨rfl, rfl, rfl, rfl⟩
    exact h.opens_seals _ _ _ _

end Cipher

end HardenLlm
