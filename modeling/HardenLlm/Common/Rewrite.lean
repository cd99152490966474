import Mathlib.Data.List.Infix
/-!
# Rewriting matches in a text

A text is read from the left; where a matcher finds a match, the match is
replaced and reading goes on behind it, and every other character is kept.
Replacing parts of a text by ones that do not overlap with a word cannot
make the word appear, and replacing every match of the word itself makes it
disappear.
-/

namespace HardenLlm.Rewrite

open List

variable {α : Type*}

/-- **Rewriting.** `len` says how long the match at a place is, given the
character before it, `0` for none; the first argument counts what is left
of the match being skipped. -/
def rewrite (len : Option α → List α → ℕ) (f : List α → List α) :
    ℕ → Option α → List α → List α
  | _, _, [] => []
  | n + 1, _, c :: rest => rewrite len f n (some c) rest
  | 0, prev, c :: rest =>
    match len prev (c :: rest) with
    | 0 => c :: rewrite len f 0 (some c) rest
    | n + 1 => f ((c :: rest).take (n + 1)) ++ rewrite len f n (some c) rest

/-- The matches a rewriting replaces. -/
def found (len : Option α → List α → ℕ) : ℕ → Option α → List α → List (List α)
  | _, _, [] => []
  | n + 1, _, c :: rest => found len n (some c) rest
  | 0, prev, c :: rest =>
    match len prev (c :: rest) with
    | 0 => found len 0 (some c) rest
    | n + 1 => (c :: rest).take (n + 1) :: found len n (some c) rest

/-- All matches, from the start of a text. -/
def replaceAll (len : Option α → List α → ℕ) (f : List α → List α) (t : List α) : List α :=
  rewrite len f 0 none t

def allFound (len : Option α → List α → ℕ) (t : List α) : List (List α) := found len 0 none t

/-! ## Parts replaced -/

/-- **`t'` is `t` with parts replaced**, each by a text that `neutral`
allows. -/
inductive Scrubs (neutral : List α → Prop) : List α → List α → Prop
  | nil : Scrubs neutral [] []
  | keep (c : α) {t t' : List α} (rest : Scrubs neutral t t') : Scrubs neutral (c :: t) (c :: t')
  | replace (m : List α) {r t t' : List α} (fresh : neutral r) (rest : Scrubs neutral t t') :
      Scrubs neutral (m ++ t) (r ++ t')

namespace Scrubs

variable {neutral : List α → Prop} {s t t' a a' : List α}

theorem refl (t : List α) : Scrubs neutral t t := by
  induction t with
  | nil => exact .nil
  | cons c rest ih => exact .keep c ih

theorem append (h : Scrubs neutral a a') (h' : Scrubs neutral t t') :
    Scrubs neutral (a ++ t) (a' ++ t') := by
  induction h with
  | nil => exact h'
  | keep c _ ih => exact .keep c ih
  | replace m fresh _ ih =>
    rw [append_assoc, append_assoc]
    exact .replace m fresh ih

/-- One part. -/
theorem part (m : List α) {r : List α} (fresh : neutral r) : Scrubs neutral m r := by
  have hreplace := Scrubs.replace m fresh .nil
  simpa using hreplace

end Scrubs

/-- **`s` and `r` do not overlap**: neither is a part of the other, and
neither ends in what the other begins with. -/
structure Apart (s r : List α) : Prop where
  outside : ¬ s <:+: r
  around : ¬ r <:+: s
  before : ∀ x, x ≠ [] → x <+: r → ¬ x <:+ s
  behind : ∀ x, x ≠ [] → x <:+ r → ¬ x <+: s

/-- Texts without a common character do not. -/
theorem apart_of_disjoint {s r : List α} (hs : s ≠ []) (hr : r ≠ []) (h : ∀ c ∈ s, c ∉ r) :
    Apart s r := by
  have hnone : ∀ x : List α, x ≠ [] → x ⊆ s → ¬ x ⊆ r := by
    intro x hx hin hout
    obtain ⟨c, hc⟩ := exists_mem_of_ne_nil x hx
    exact h c (hin hc) (hout hc)
  exact ⟨fun hin => hnone s hs (Subset.refl s) hin.subset,
    fun hin => hnone r hr hin.subset (Subset.refl r),
    fun x hx hpre hsuf => hnone x hx hsuf.subset hpre.subset,
    fun x hx hsuf hpre => hnone x hx hpre.subset hsuf.subset⟩

/-- No part of the word that is left begins in the other text. -/
theorem Apart.nil_of_isPrefix {s r x t : List α} (h : Apart s r) (hx : x <:+ s)
    (hin : x <+: r ++ t) : x = [] := by
  by_contra hne
  rcases prefix_or_prefix_of_prefix hin (prefix_append r t) with hpre | hpre
  · exact h.before x hne hpre hx
  · exact h.around (hpre.isInfix.trans hx.isInfix)

/-- So an occurrence of the word stands behind it. -/
theorem Apart.infix_of_append {s r t : List α} (h : Apart s r) (hin : s <:+: r ++ t) :
    s <:+: t := by
  -- wherever the occurrence begins, it is not within the other text
  have hsuffix : ∀ r', r' <:+ r → s <:+: r' ++ t → s <:+: t := by
    intro r' hr'
    induction r' with
    | nil => exact id
    | cons c r' ih =>
      intro hin
      rcases infix_cons_iff.1 hin with hp | hi
      · rcases prefix_or_prefix_of_prefix hp (prefix_append (c :: r') t) with hpre | hpre
        · exact absurd (hpre.isInfix.trans hr'.isInfix) h.outside
        · exact absurd hpre (h.behind _ (cons_ne_nil c r') hr')
      · exact ih ((suffix_cons c r').trans hr') hi
  exact hsuffix r (suffix_refl r) hin

section Clean

variable {neutral : List α → Prop} {s t t' : List α}

/-- What the scrubbed text begins with, the text began with. -/
theorem Scrubs.prefix_of (h : Scrubs neutral t t') (hapart : ∀ r, neutral r → Apart s r)
    {x : List α} (hx : x <:+ s) (hin : x <+: t') : x <+: t := by
  induction h generalizing x with
  | nil => exact hin
  | keep c _ ih =>
    cases x with
    | nil => exact nil_prefix
    | cons d x =>
      obtain ⟨rfl, htail⟩ := cons_prefix_cons.1 hin
      exact cons_prefix_cons.2 ⟨rfl, ih ((suffix_cons d x).trans hx) htail⟩
  | replace m fresh =>
    rw [(hapart _ fresh).nil_of_isPrefix hx hin]
    exact nil_prefix

/-- **Scrubbing brings no word back** that does not overlap with what is put
in. -/
theorem Scrubs.infix_of (h : Scrubs neutral t t') (hapart : ∀ r, neutral r → Apart s r)
    (hs : s <:+: t') : s <:+: t := by
  induction h with
  | nil => exact hs
  | @keep c t t' rest ih =>
    rcases infix_cons_iff.1 hs with hp | hi
    · exact ((Scrubs.keep c rest).prefix_of hapart (suffix_refl s) hp).isInfix
    · exact infix_cons (ih hi)
  | replace m fresh _ ih =>
    have hin := ih ((hapart _ fresh).infix_of_append hs)
    exact hin.trans (suffix_append m _).isInfix

end Clean

/-! ## What a rewriting does -/

variable {len : Option α → List α → ℕ} {f g : List α → List α} {neutral : List α → Prop}

/-- Two rewritings of the same matches, where one scrubs what the other
writes. -/
theorem scrubs_rewrite (n : ℕ) (prev : Option α) (t : List α)
    (hf : ∀ m ∈ found len n prev t, Scrubs neutral (g m) (f m)) :
    Scrubs neutral (rewrite len g n prev t) (rewrite len f n prev t) := by
  induction t generalizing n prev with
  | nil =>
    rw [rewrite, rewrite]
    exact .nil
  | cons c rest ih =>
    cases n with
    | succ n =>
      rw [rewrite, rewrite]
      exact ih n (some c) (by simpa only [found] using hf)
    | zero =>
      rw [rewrite, rewrite]
      rw [found] at hf
      cases hlen : len prev (c :: rest) with
      | zero =>
        rw [hlen] at hf
        exact .keep c (ih 0 (some c) hf)
      | succ n =>
        rw [hlen] at hf
        exact (hf _ mem_cons_self).append (ih n (some c) (forall_mem_cons.1 hf).2)

/-- Matches left as they are leave the text as it is. -/
theorem rewrite_id (n : ℕ) (prev : Option α) (t : List α) :
    rewrite len (fun m => m) n prev t = t.drop n := by
  induction t generalizing n prev with
  | nil => simp [rewrite]
  | cons c rest ih =>
    cases n with
    | succ n => rw [rewrite, ih, drop_succ_cons]
    | zero =>
      rw [rewrite]
      cases len prev (c :: rest) with
      | zero => simp [ih]
      | succ n => simp [ih]

/-- **A rewriting replaces its matches** and keeps the rest. -/
theorem scrubs_replaceAll {t : List α} (hf : ∀ m ∈ allFound len t, Scrubs neutral m (f m)) :
    Scrubs neutral t (replaceAll len f t) := by
  have h := scrubs_rewrite 0 none t hf
  rwa [rewrite_id, drop_zero] at h

variable [DecidableEq α]

/-- The matcher of a word. -/
def literal (s : List α) (_ : Option α) (t : List α) : ℕ := if s.isPrefixOf t then s.length else 0

/-- **No occurrence is left** after every occurrence was replaced. -/
theorem not_infix_rewrite_literal {s r : List α} (hs : s ≠ []) (hr : Apart s r) (n : ℕ)
    (prev : Option α) (t : List α) : ¬ s <:+: rewrite (literal s) (fun _ => r) n prev t := by
  induction t generalizing n prev with
  | nil =>
    rw [rewrite]
    exact fun h => hs (infix_nil.1 h)
  | cons c rest ih =>
    cases n with
    | succ n =>
      rw [rewrite]
      exact ih n (some c)
    | zero =>
      rw [rewrite]
      cases hlen : literal s prev (c :: rest) with
      | zero =>
        intro hin
        rcases infix_cons_iff.1 hin with hp | hi
        · -- a kept character starts no occurrence of the word
          have hkept : Scrubs (· = r) (rewrite (literal s) (fun m => m) 0 (some c) rest)
              (rewrite (literal s) (fun _ => r) 0 (some c) rest) :=
            scrubs_rewrite 0 (some c) rest fun m _ => .part m rfl
          rw [rewrite_id, drop_zero] at hkept
          have hsrc : s <+: c :: rest :=
            (Scrubs.keep c hkept).prefix_of (fun r' hr' => hr' ▸ hr) (suffix_refl s) hp
          rw [literal, if_pos (List.isPrefixOf_iff_prefix.2 hsrc)] at hlen
          exact hs (length_eq_zero_iff.1 hlen)
        · exact ih 0 (some c) hi
      | succ n => exact fun hin => ih n (some c) (hr.infix_of_append hin)

theorem not_infix_replaceAll_literal {s r : List α} (hs : s ≠ []) (hr : Apart s r) (t : List α) :
    ¬ s <:+: replaceAll (literal s) (fun _ => r) t :=
  not_infix_rewrite_literal hs hr 0 none t

end HardenLlm.Rewrite
