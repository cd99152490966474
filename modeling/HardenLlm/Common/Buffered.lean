import Mathlib.Data.List.TakeWhile
/-!
# Buffered reading

A reader keeps a buffer of fixed size in front of a source that brings its
bytes in reads of any length, and hands out slices up to a delimiter: a
slice ends with the delimiter, or when the buffer is full without one, or
when the source ends. How the source splits its bytes makes no difference
to the slices.
-/

namespace HardenLlm.Buffered

open List

variable {α : Type*} [DecidableEq α]

/-- How a slice ended: with the delimiter, at a full buffer, or with the
source. -/
inductive Stop
  | found
  | full
  | ended
  deriving DecidableEq, Repr

/-- **A reader**: what it has buffered, and what each later read brings. -/
structure Reader (α : Type*) where
  buffer : List α
  reads : List (List α)

namespace Reader

/-- All it will hand out. -/
def content (r : Reader α) : List α := r.buffer ++ r.reads.flatten

end Reader

/-- The first slice of a text, of at most `n` elements, and the rest. -/
def cut (delim : α) : ℕ → List α → (List α × Stop) × List α
  | 0, t => (([], .full), t)
  | _ + 1, [] => (([], .ended), [])
  | n + 1, c :: t =>
    if c = delim then (([c], .found), t)
    else
      let next := cut delim n t
      ((c :: next.1.1, next.1.2), next.2)

/-- The buffer up to the delimiter in it, and what is left of it. -/
def through (delim : α) (buf : List α) : List α × List α :=
  (buf.takeWhile (· ≠ delim) ++ [delim], (buf.dropWhile (· ≠ delim)).tail)

/-- **`ReadSlice`**: look in the buffer; fill it with the next read, as far
as there is room, until the delimiter is in it or it is full. Empty reads
may go on, where `bufio` gives up with `io.ErrNoProgress`. -/
def readSlice (size : ℕ) (delim : α) (buf : List α) : List (List α) →
    (List α × Stop) × Reader α
  | [] =>
    if delim ∈ buf then (((through delim buf).1, .found), ⟨(through delim buf).2, []⟩)
    else if size ≤ buf.length then ((buf, .full), ⟨[], []⟩)
    else ((buf, .ended), ⟨[], []⟩)
  | c :: rest =>
    if delim ∈ buf then (((through delim buf).1, .found), ⟨(through delim buf).2, c :: rest⟩)
    else if size ≤ buf.length then ((buf, .full), ⟨[], c :: rest⟩)
    else
      let room := size - buf.length
      if c.length ≤ room then readSlice size delim (buf ++ c) rest
      else
        -- the read does not fit: the buffer is full now
        let buf' := buf ++ c.take room
        if delim ∈ buf' then
          (((through delim buf').1, .found), ⟨(through delim buf').2, c.drop room :: rest⟩)
        else ((buf', .full), ⟨[], c.drop room :: rest⟩)

/-- The slices a reader hands out, to the end of its source. -/
def slices (size : ℕ) (delim : α) : ℕ → Reader α → List (List α × Stop)
  | 0, _ => []
  | n + 1, r =>
    let next := readSlice size delim r.buffer r.reads
    next.1 :: if next.1.2 = .ended then [] else slices size delim n next.2

/-- All slices: there are no more than elements, and the last. -/
def Reader.slices (r : Reader α) (size : ℕ) (delim : α) : List (List α × Stop) :=
  Buffered.slices size delim (r.content.length + 1) r

/-- **The slices of a text**, `acc` the part of the next one already read. -/
def slicesFrom (size : ℕ) (delim : α) (acc : List α) : List α → List (List α × Stop)
  | [] => [(acc, .ended)]
  | c :: t =>
    if c = delim then (acc ++ [c], .found) :: slicesFrom size delim [] t
    else if acc.length + 1 = size then (acc ++ [c], .full) :: slicesFrom size delim [] t
    else slicesFrom size delim (acc ++ [c]) t

/-! ## A slice -/

variable {delim : α} {size : ℕ}

variable {buf : List α} {n : ℕ}

/-- The delimiter within reach. -/
theorem cut_of_mem (h : delim ∈ buf) (t : List α) (hn : buf.length ≤ n) :
    cut delim n (buf ++ t) = (((through delim buf).1, .found), (through delim buf).2 ++ t) := by
  induction buf generalizing n with
  | nil => exact absurd h not_mem_nil
  | cons c buf ih =>
    obtain ⟨n, rfl⟩ : ∃ m, n = m + 1 := ⟨n - 1, by simp at hn; omega⟩
    by_cases hc : c = delim
    · subst hc
      simp [cut, through]
    · have hrest : delim ∈ buf := (mem_cons.1 h).resolve_left fun heq => hc heq.symm
      have hnext := ih hrest (n := n) (by simpa using hn)
      simp [cut, hc, hnext, through]

/-- No delimiter before the buffer is full. -/
theorem cut_of_notMem (h : delim ∉ buf) (t : List α) :
    cut delim buf.length (buf ++ t) = ((buf, .full), t) := by
  induction buf with
  | nil => simp [cut]
  | cons c buf ih =>
    have hc : c ≠ delim := fun heq => h (heq ▸ mem_cons_self)
    have hnext := ih fun hmem => h (mem_cons_of_mem _ hmem)
    simp [cut, hc, hnext]

/-- The text ends before. -/
theorem cut_of_short (h : delim ∉ buf) (hn : buf.length < n) :
    cut delim n buf = ((buf, .ended), []) := by
  induction buf generalizing n with
  | nil =>
    obtain ⟨n, rfl⟩ : ∃ m, n = m + 1 := ⟨n - 1, by simp at hn; omega⟩
    rfl
  | cons c buf ih =>
    obtain ⟨n, rfl⟩ : ∃ m, n = m + 1 := ⟨n - 1, by simp at hn; omega⟩
    have hc : c ≠ delim := fun heq => h (heq ▸ mem_cons_self)
    have hnext := ih (fun hmem => h (mem_cons_of_mem _ hmem)) (n := n) (by simpa using hn)
    simp [cut, hc, hnext]

variable (delim) in
theorem length_through_le (buf : List α) : (through delim buf).2.length ≤ buf.length := by
  simp only [through, length_tail]
  have := (dropWhile_suffix (fun c => decide (c ≠ delim)) (l := buf)).length_le
  omega

variable (delim) in
/-- **A slice is the first of what the reader holds**, and the reader goes
on with the rest. -/
theorem readSlice_eq (buf : List α) (reads : List (List α)) (hbuf : buf.length ≤ size) :
    (readSlice size delim buf reads).1 = (cut delim size (buf ++ reads.flatten)).1
      ∧ (readSlice size delim buf reads).2.content = (cut delim size (buf ++ reads.flatten)).2
      ∧ (readSlice size delim buf reads).2.buffer.length ≤ size := by
  by_cases hmem : delim ∈ buf
  · rw [cut_of_mem hmem _ hbuf]
    have hlen := (length_through_le delim buf).trans hbuf
    cases reads <;> simpa [readSlice, hmem, Reader.content] using hlen
  by_cases hfull : size ≤ buf.length
  · obtain rfl : buf.length = size := le_antisymm hbuf hfull
    rw [cut_of_notMem hmem]
    cases reads <;> simp [readSlice, hmem, Reader.content]
  cases reads with
  | nil =>
    have hcut := cut_of_short hmem (not_le.1 hfull)
    simp [readSlice, hmem, hfull, hcut, Reader.content]
  | cons c rest =>
    simp only [readSlice, if_neg hmem, if_neg hfull]
    by_cases hroom : c.length ≤ size - buf.length
    · rw [if_pos hroom]
      have hnext := readSlice_eq (buf ++ c) rest (by simp; omega)
      simpa using hnext
    · rw [if_neg hroom]
      have hlen : (buf ++ c.take (size - buf.length)).length = size := by
        simp
        omega
      have hsplit : buf ++ (c :: rest).flatten = (buf ++ c.take (size - buf.length))
          ++ (c.drop (size - buf.length) :: rest).flatten := by
        simp [← append_assoc (c.take _)]
      rw [hsplit]
      split
      · rename_i hin
        have hcut := cut_of_mem hin (c.drop (size - buf.length) :: rest).flatten hlen.le
        have hthrough := length_through_le delim (buf ++ c.take (size - buf.length))
        simp only [hcut, Reader.content]
        exact ⟨trivial, trivial, hthrough.trans hlen.le⟩
      · rename_i hout
        have hcut := cut_of_notMem hout (c.drop (size - buf.length) :: rest).flatten
        rw [hlen] at hcut
        simp only [hcut, Reader.content, nil_append, length_nil, Nat.zero_le, and_self]

/-! ## All slices -/

/-- The slices of a text begin with its first one. -/
theorem slicesFrom_eq (acc : List α) (t : List α) (hacc : acc.length < size) :
    slicesFrom size delim acc t
      = (acc ++ (cut delim (size - acc.length) t).1.1, (cut delim (size - acc.length) t).1.2)
        :: (if (cut delim (size - acc.length) t).1.2 = .ended then []
            else slicesFrom size delim [] (cut delim (size - acc.length) t).2) := by
  obtain ⟨n, hn⟩ : ∃ n, size - acc.length = n + 1 := ⟨size - acc.length - 1, by omega⟩
  rw [hn]
  induction t generalizing acc n with
  | nil => simp [slicesFrom, cut]
  | cons c t ih =>
    rw [slicesFrom, cut]
    by_cases hc : c = delim
    · simp [hc]
    · rw [if_neg hc, if_neg hc]
      by_cases hfull : acc.length + 1 = size
      · obtain rfl : n = 0 := by omega
        simp [hfull, cut]
      · obtain ⟨m, rfl⟩ : ∃ m, n = m + 1 := ⟨n - 1, by omega⟩
        rw [if_neg hfull, ih (acc ++ [c]) (by simp; omega) m (by simp; omega)]
        simp

theorem length_cut_lt {t : List α} (h : (cut delim (n + 1) t).1.2 ≠ .ended) :
    (cut delim (n + 1) t).2.length < t.length := by
  cases t with
  | nil => exact absurd rfl h
  | cons c t =>
    have hle : ∀ (m : ℕ) (u : List α), (cut delim m u).2.length ≤ u.length := by
      intro m u
      induction u generalizing m with
      | nil => cases m <;> simp [cut]
      | cons d u ih =>
        cases m with
        | zero => simp [cut]
        | succ m =>
          by_cases hd : d = delim
          · simp [cut, hd]
          · have := ih m
            simp [cut, hd]
            omega
    have hrest := hle n t
    by_cases hc : c = delim
    · simp [cut, hc]
    · simp [cut, hc]
      omega

/-- **Reads do not show in the slices.** -/
theorem slices_eq (hsize : 0 < size) (n : ℕ) (r : Reader α) (hbuf : r.buffer.length ≤ size)
    (hn : r.content.length < n) : slices size delim n r = slicesFrom size delim [] r.content := by
  induction n generalizing r with
  | zero => omega
  | succ n ih =>
    obtain ⟨hslice, hcontent, hnext⟩ := readSlice_eq delim r.buffer r.reads hbuf
    have hall : r.buffer ++ r.reads.flatten = r.content := rfl
    rw [hall] at hslice hcontent
    rw [slices, slicesFrom_eq [] r.content hsize]
    simp only [length_nil, Nat.sub_zero, nil_append, hslice]
    congr 1
    split
    · rfl
    · rename_i hmore
      obtain ⟨m, rfl⟩ : ∃ m, size = m + 1 := ⟨size - 1, by omega⟩
      have hshorter := length_cut_lt hmore
      rw [ih _ hnext (by rw [hcontent]; omega), hcontent]

theorem Reader.slices_eq (hsize : 0 < size) (r : Reader α) (hbuf : r.buffer.length ≤ size) :
    r.slices size delim = slicesFrom size delim [] r.content :=
  Buffered.slices_eq hsize _ r hbuf (Nat.lt_succ_self _)

end HardenLlm.Buffered
