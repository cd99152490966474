import HardenLlm.Common.Json.Text
/-!
# Integers in documents

Integers are written as decimal numerals; no two share one.
-/

namespace HardenLlm.Json

open List

/-! ## Integers -/

/-- An integer as its decimal numeral. -/
def int (n : ℤ) : Json := .num (toString n)

/-- Only the numeral of zero begins with a zero. -/
theorem toDigits_cons {n : ℕ} (h : n ≠ 0) : ∃ c rest, Nat.toDigits 10 n = c :: rest ∧ c ≠ '0' := by
  induction n using Nat.strong_induction_on with
  | _ n ih =>
    by_cases hlt : n < 10
    · refine ⟨n.digitChar, [], Nat.toDigits_of_lt_base hlt, ?_⟩
      have hall : ∀ n < 10, n ≠ 0 → n.digitChar ≠ '0' := by decide
      exact hall n hlt h
    · obtain ⟨c, rest, hdigits, hc⟩ := ih (n / 10) (by omega) (by omega)
      refine ⟨c, rest ++ [(n % 10).digitChar], ?_, hc⟩
      rw [Nat.toDigits_of_base_le (by decide) (by omega), hdigits, cons_append]

theorem magnitude_toDigits (n : ℕ) : magnitude (Nat.toDigits 10 n) = true := by
  by_cases h : n = 0
  · subst h
    decide
  · obtain ⟨c, rest, hdigits, hc⟩ := toDigits_cons h
    have hall : ∀ d ∈ c :: rest, d.isDigit = true := fun d hd =>
      Nat.isDigit_of_mem_toDigits (by decide) (le_refl 10) (hdigits ▸ hd)
    have hrest : rest.dropWhile Char.isDigit = [] := by
      have hdrop : (rest ++ []).dropWhile Char.isDigit = [] :=
        dropWhile_append_of_pos fun d hd => hall d (mem_cons_of_mem c hd)
      rwa [append_nil] at hdrop
    rw [hdigits, magnitude, if_neg hc, hall c mem_cons_self, hrest]
    rfl

theorem numeric_int (n : ℤ) : numeric (int n) = true := by
  have hdigit (n : ℕ) : ∀ c ∈ Nat.toDigits 10 n, c.isDigit = true := fun c hc =>
    Nat.isDigit_of_mem_toDigits (by decide) (le_refl 10) hc
  have hnumber (n : ℕ) : (Nat.toDigits 10 n).all numberChar = true :=
    all_eq_true.2 fun c hc => by simp [numberChar, hdigit n c hc]
  have hsign (n : ℕ) : withoutSign (Nat.toDigits 10 n) = Nat.toDigits 10 n := by
    cases hcs : Nat.toDigits 10 n with
    | nil => rfl
    | cons c =>
      have hc := hdigit n c (by rw [hcs]; exact mem_cons_self)
      rw [withoutSign, if_neg]
      rintro rfl
      exact absurd hc (by decide)
  cases n with
  | ofNat n =>
    have htext : (toString (Int.ofNat n)).toList = Nat.toDigits 10 n := Nat.toList_repr
    rw [int, numeric, isNumber, htext, hnumber, hsign, magnitude_toDigits]
    rfl
  | negSucc n =>
    have htext : (toString (Int.negSucc n)).toList = '-' :: Nat.toDigits 10 (n + 1) := by
      have : toString (Int.negSucc n) = "-" ++ (n + 1).repr := rfl
      rw [this, String.toList_append, Nat.toList_repr]
      rfl
    rw [int, numeric, isNumber, htext, all_cons, hnumber, withoutSign, if_pos rfl,
      magnitude_toDigits]
    rfl

theorem int_injective : Function.Injective int := by
  intro n m h
  have htext : n.repr = m.repr := Json.num.inj h
  have hrepr {a b : ℕ} (h : a.repr = b.repr) : a = b := by
    have hdigits : Nat.toDigits 10 a = Nat.toDigits 10 b := by
      rw [← Nat.toList_repr, ← Nat.toList_repr, h]
    rw [← Nat.ofDigitChars_toDigits (n := a) (by decide) (le_refl 10), hdigits,
      Nat.ofDigitChars_toDigits (by decide) (le_refl 10)]
  have hsigned (a b : ℕ) : a.repr ≠ "-" ++ b.repr := by
    intro heq
    have hmem : '-' ∈ Nat.toDigits 10 a := by
      rw [← Nat.toList_repr, heq, String.toList_append]
      exact mem_append_left _ (by decide)
    exact absurd (Nat.isDigit_of_mem_toDigits (by decide) (le_refl 10) hmem) (by decide)
  cases n with
  | ofNat a =>
    cases m with
    | ofNat => exact congrArg Int.ofNat (hrepr htext)
    | negSucc b => exact absurd htext (hsigned a (b + 1))
  | negSucc a =>
    cases m with
    | ofNat b => exact absurd htext.symm (hsigned b (a + 1))
    | negSucc b =>
      have habs : (a + 1).repr = (b + 1).repr := by
        have hlist := congrArg String.toList htext
        simp only [Int.repr, String.toList_append] at hlist
        exact String.toList_inj.1 (append_cancel_left hlist)
      have := hrepr habs
      exact congrArg Int.negSucc (by omega)

end HardenLlm.Json
