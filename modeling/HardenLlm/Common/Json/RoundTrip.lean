import HardenLlm.Common.Json.Text
/-!
# Texts and documents

The text of a document is read back as the document, up to keys that are
bound twice. So no two documents without such keys share a text, whatever
they hold and however deep they are nested.
-/

namespace HardenLlm.Json

open List Bindings

/-! ## Strings -/

theorem hexValue_hexDigit {n : ℕ} (h : n < 16) : hexValue (hexDigit n) = some n := by
  have hall : ∀ n < 16, hexValue (hexDigit n) = some n := by decide
  exact hall n h

variable {c : Char}

/-- A `\u` escape is read back. -/
theorem unescape_unicodeEscape (h : c.toNat < 0xD800) (rest : List Char) :
    unescape ((unicodeEscape c).tail ++ rest) = some (c, rest) := by
  have hdigit (n : ℕ) : hexValue (hexDigit (n % 16)) = some (n % 16) :=
    hexValue_hexDigit (Nat.mod_lt n (by decide))
  have hvalue : ((c.toNat / 4096 % 16 * 16 + c.toNat / 256 % 16) * 16 + c.toNat / 16 % 16) * 16
      + c.toNat % 16 = c.toNat := by omega
  simp [unescape, unicodeEscape, readUnicode, readHex, hdigit, hvalue, h]

/-- The characters of a string are read back one by one. -/
theorem readChars_escapeChar (c : Char) (fuel : ℕ) (rest : List Char) :
    readChars (fuel + 1) (escapeChar c ++ rest)
      = (readChars fuel rest).map fun e => (c :: e.1, e.2) := by
  have hescaped (d : Char) (cs : List Char) (h : unescape (cs ++ rest) = some (d, rest)) :
      readChars (fuel + 1) ('\\' :: cs ++ rest)
        = (readChars fuel rest).map fun e => (d :: e.1, e.2) := by
    rw [cons_append, readChars, if_neg (by decide), if_pos rfl, h]
    cases hread : readChars fuel rest <;> simp [hread]
  have hcode {n : ℕ} (h : c.toNat = n) : c = Char.ofNat n := by rw [← h, Char.ofNat_toNat]
  unfold escapeChar
  split
  · rename_i hc
    exact hc ▸ hescaped '"' ['"'] rfl
  rename_i hquote
  split
  · rename_i hc
    exact hc ▸ hescaped '\\' ['\\'] rfl
  rename_i hbackslash
  split
  · rename_i hc
    exact hc ▸ hescaped '\n' ['n'] rfl
  split
  · rename_i hc
    exact hc ▸ hescaped '\r' ['r'] rfl
  split
  · rename_i hc
    exact hc ▸ hescaped '\t' ['t'] rfl
  split
  · rename_i hc
    exact hcode hc ▸ hescaped (Char.ofNat 8) ['b'] rfl
  split
  · rename_i hc
    exact hcode hc ▸ hescaped (Char.ofNat 12) ['f'] rfl
  split
  · rename_i hc
    refine hescaped c (unicodeEscape c).tail (unescape_unicodeEscape ?_ rest)
    rcases hc with hc | rfl | rfl | rfl | hc | hc
    · omega
    · decide
    · decide
    · decide
    · omega
    · omega
  · rename_i hplain
    have hcontrol : ¬ c.toNat < 32 := fun h => hplain (.inl h)
    rw [cons_append, nil_append, readChars, if_neg hquote, if_neg hbackslash, if_neg hcontrol]
    cases hread : readChars fuel rest <;> rfl

variable {fuel : ℕ}

theorem readChars_escaped (s : List Char) (hfuel : s.length < fuel) (rest : List Char) :
    readChars fuel (s.flatMap escapeChar ++ '"' :: rest) = some (s, rest) := by
  induction s generalizing fuel with
  | nil =>
    obtain ⟨fuel, rfl⟩ : ∃ m, fuel = m + 1 := ⟨fuel - 1, by simp at hfuel; omega⟩
    simp [readChars]
  | cons c s ih =>
    obtain ⟨fuel, rfl⟩ : ∃ m, fuel = m + 1 := ⟨fuel - 1, by simp at hfuel; omega⟩
    rw [flatMap_cons, append_assoc, readChars_escapeChar, ih (by simpa using hfuel)]
    rfl

theorem readString_quoteChars (s : String) (rest : List Char) :
    readString ((quoteChars s).tail ++ rest) = some (s, rest) := by
  have hnonempty (c : Char) : 1 ≤ (escapeChar c).length := by
    unfold escapeChar
    repeat' split
    all_goals simp [unicodeEscape]
  have hlength (cs : List Char) : cs.length ≤ (cs.flatMap escapeChar).length := by
    induction cs with
    | nil => simp
    | cons c =>
      have := hnonempty c
      rw [flatMap_cons, length_append, length_cons]
      omega
  have htext : (quoteChars s).tail ++ rest = s.toList.flatMap escapeChar ++ '"' :: rest := by
    simp [quoteChars]
  have hfuel : s.toList.length < (s.toList.flatMap escapeChar ++ '"' :: rest).length + 1 := by
    have := hlength s.toList
    rw [length_append]
    omega
  rw [readString, htext, readChars_escaped _ hfuel, Option.map_some, String.ofList_toList]

/-! ## Values -/

/-- A number ends where this text begins. -/
def Ends (rest : List Char) : Prop := ∀ c ∈ rest.head?, numberChar c = false

theorem ends_nil : Ends [] := by simp [Ends]

variable {rest : List Char}

theorem ends_cons (h : numberChar c = false) : Ends (c :: rest) := by
  simpa [Ends] using h

theorem skip_cons (h : isBlank c = false) (rest : List Char) : skip (c :: rest) = c :: rest := by
  simp [skip, h]

/-- A number begins with a digit or a minus sign. -/
theorem isNumber_cons {cs : List Char} (h : isNumber cs = true) :
    ∃ c rest, cs = c :: rest ∧ numberChar c = true ∧ (c = '-' ∨ c.isDigit = true) := by
  rw [isNumber, Bool.and_eq_true] at h
  obtain ⟨hall, hgrammar⟩ := h
  cases cs with
  | nil => simp [magnitude, withoutSign] at hgrammar
  | cons c rest =>
    refine ⟨c, rest, rfl, (all_eq_true.1 hall) c mem_cons_self, ?_⟩
    rw [withoutSign] at hgrammar
    split at hgrammar
    · rename_i hsign
      exact .inl hsign
    · rw [magnitude] at hgrammar
      split at hgrammar
      · rename_i hzero
        exact .inr (by rw [hzero]; decide)
      · rw [Bool.and_eq_true] at hgrammar
        exact .inr hgrammar.1

theorem readNumber_append {cs rest : List Char} (h : isNumber cs = true) (hrest : Ends rest) :
    readNumber (cs ++ rest) = some (.num (String.ofList cs), rest) := by
  have hall : ∀ c ∈ cs, numberChar c = true := by
    rw [isNumber, Bool.and_eq_true, all_eq_true] at h
    exact h.1
  have htake : rest.takeWhile numberChar = [] := by
    cases rest with
    | nil => rfl
    | cons c => simp [hrest c rfl]
  have hdrop : rest.dropWhile numberChar = rest := by
    cases rest with
    | nil => rfl
    | cons c => simp [hrest c rfl]
  rw [readNumber, takeWhile_append_of_pos hall, htake, append_nil, if_pos h,
    dropWhile_append_of_pos hall, hdrop]

/-- What a number's first character is not. -/
theorem ne_of_numberChar {d : Char} (h : c = '-' ∨ c.isDigit = true)
    (hd : d ≠ '-' ∧ d.isDigit = false) : c ≠ d := by
  rintro rfl
  rcases h with h | h
  · exact hd.1 h
  · rw [hd.2] at h
    cases h

theorem isBlank_of_numberChar (h : c = '-' ∨ c.isDigit = true) : isBlank c = false := by
  have hother (d : Char) (hd : d ≠ '-' ∧ d.isDigit = false) : c ≠ d := ne_of_numberChar h hd
  simp [isBlank, hother ' ' (by decide), hother '\t' (by decide), hother '\n' (by decide),
    hother '\r' (by decide)]

variable {v : Json}

/-- The first character of a document's text. -/
theorem chars_cons (h : numeric v = true) :
    ∃ c rest, chars v = c :: rest ∧ isBlank c = false ∧ c ≠ ']' := by
  cases v with
  | null => exact ⟨'n', _, rfl, by decide, by decide⟩
  | bool b => cases b <;> exact ⟨_, _, rfl, by decide, by decide⟩
  | num =>
    obtain ⟨c, rest, hcs, -, hc⟩ := isNumber_cons (by simpa [numeric] using h)
    exact ⟨c, rest, by rw [chars, hcs], isBlank_of_numberChar hc, ne_of_numberChar hc (by decide)⟩
  | str => exact ⟨'"', _, by rw [chars, quoteChars], by decide, by decide⟩
  | arr items =>
    cases items with
    | nil => exact ⟨'[', _, rfl, by decide, by decide⟩
    | cons => exact ⟨'[', _, by rw [chars], by decide, by decide⟩
  | obj fields =>
    cases fields with
    | nil => exact ⟨'\x7b', _, rfl, by decide, by decide⟩
    | cons => exact ⟨'\x7b', _, by rw [chars], by decide, by decide⟩

/-! The texts of arrays and objects. -/

theorem chars_arr (items : List Json) : chars (.arr items) = '[' :: (chars (.arr items)).tail := by
  cases items <;> simp [chars]

theorem chars_obj (fields : List (String × Json)) :
    chars (.obj fields) = '\x7b' :: (chars (.obj fields)).tail := by
  cases fields <;> simp [chars]

theorem tail_arr_cons (v : Json) (items : List Json) :
    (chars (.arr (v :: items))).tail ++ rest = chars v ++ (charsItems items ++ rest) := by
  simp [chars]

theorem tail_obj_cons (e : String × Json) (fields : List (String × Json)) :
    (chars (.obj (e :: fields))).tail ++ rest
      = quoteChars e.1 ++ ':' :: (chars e.2 ++ (charsFields fields ++ rest)) := by
  simp [chars]

theorem charsItems_cons (v : Json) (items : List Json) :
    charsItems (v :: items) ++ rest = ',' :: (chars v ++ (charsItems items ++ rest)) := by
  simp [charsItems]

theorem charsFields_cons (e : String × Json) (fields : List (String × Json)) :
    charsFields (e :: fields) ++ rest
      = ',' :: (quoteChars e.1 ++ ':' :: (chars e.2 ++ (charsFields fields ++ rest))) := by
  simp [charsFields]

theorem ends_charsItems (items : List Json) (rest : List Char) : Ends (charsItems items ++ rest) := by
  cases items <;> exact ends_cons (by decide)

theorem ends_charsFields (fields : List (String × Json)) (rest : List Char) :
    Ends (charsFields fields ++ rest) := by
  cases fields <;> exact ends_cons (by decide)

variable {read : List Char → Option (Json × List Char)} {fields : List (String × Json)}

/-- The items behind the first one are read back. -/
theorem readItems_charsItems {items : List Json}
    (h : ∀ v ∈ items, ∀ rest, Ends rest → read (chars v ++ rest) = some (decoded v, rest))
    (hfuel : items.length < fuel) (rest : List Char) :
    readItems read fuel (charsItems items ++ rest) = some (items.map decoded, rest) := by
  induction items generalizing fuel with
  | nil =>
    obtain ⟨fuel, rfl⟩ : ∃ m, fuel = m + 1 := ⟨fuel - 1, by simp at hfuel; omega⟩
    rfl
  | cons v items ih =>
    obtain ⟨fuel, rfl⟩ : ∃ m, fuel = m + 1 := ⟨fuel - 1, by simp at hfuel; omega⟩
    have hread := h v mem_cons_self _ (ends_charsItems items rest)
    have hrest := ih ((forall_mem_cons.1 h).2) (by simpa using hfuel)
    rw [charsItems_cons, readItems, skip_cons (by decide)]
    simp [hread, hrest]

/-- A key is read back. -/
theorem readKey_quoteChars (key : String) (rest : List Char) :
    readKey (quoteChars key ++ ':' :: rest) = some (key, rest) := by
  have hquote : quoteChars key = '"' :: (quoteChars key).tail := rfl
  have hstring := readString_quoteChars key (':' :: rest)
  rw [hquote, cons_append, readKey, skip_cons (by decide)]
  simp [hstring, skip_cons (show isBlank ':' = false by decide)]

/-- A field is read back. -/
theorem readField_chars (key : String) (h : read (chars v ++ rest) = some (decoded v, rest)) :
    readField read (quoteChars key ++ ':' :: (chars v ++ rest)) = some ((key, decoded v), rest) := by
  simp [readField, readKey_quoteChars, h]

/-- The fields behind the first one are read back. -/
theorem readFields_charsFields
    (h : ∀ e ∈ fields, ∀ rest, Ends rest → read (chars e.2 ++ rest) = some (decoded e.2, rest))
    (hfuel : fields.length < fuel) (rest : List Char) :
    readFields read fuel (charsFields fields ++ rest) = some (mapValues decoded fields, rest) := by
  induction fields generalizing fuel with
  | nil =>
    obtain ⟨fuel, rfl⟩ : ∃ m, fuel = m + 1 := ⟨fuel - 1, by simp at hfuel; omega⟩
    rfl
  | cons e fields ih =>
    obtain ⟨fuel, rfl⟩ : ∃ m, fuel = m + 1 := ⟨fuel - 1, by simp at hfuel; omega⟩
    have hread := readField_chars e.1 (h e mem_cons_self _ (ends_charsFields fields rest))
    have hrest := ih ((forall_mem_cons.1 h).2) (by simpa using hfuel)
    rw [charsFields_cons, readFields, skip_cons (by decide)]
    simp [hread, hrest, mapValues]

theorem length_charsItems (items : List Json) : items.length < (charsItems items).length := by
  induction items with
  | nil => simp [charsItems]
  | cons => simp [charsItems]; omega

theorem length_charsFields (fields : List (String × Json)) :
    fields.length < (charsFields fields).length := by
  induction fields with
  | nil => simp [charsFields]
  | cons => simp [charsFields]; omega

/-- An array is read back, if its items are. -/
theorem readArray_chars {items : List Json} (hnumeric : ∀ v ∈ items, numeric v = true)
    (h : ∀ v ∈ items, ∀ rest, Ends rest → read (chars v ++ rest) = some (decoded v, rest))
    (rest : List Char) :
    readArray read ((chars (.arr items)).tail ++ rest) = some (decoded (.arr items), rest) := by
  rw [decoded_arr]
  cases items with
  | nil => rfl
  | cons v items =>
    have hread := h v mem_cons_self _ (ends_charsItems items rest)
    have hitems := readItems_charsItems ((forall_mem_cons.1 h).2)
      (show items.length < (charsItems items).length + rest.length + 1 by
        have := length_charsItems items
        omega) rest
    -- The first item keeps the bracket from being read as that of an empty array.
    obtain ⟨c, cs, hc, hblank, hbracket⟩ := chars_cons (hnumeric v mem_cons_self)
    rw [hc, cons_append] at hread
    rw [tail_arr_cons, hc, cons_append, readArray, skip_cons hblank]
    split
    · rename_i heq
      exact absurd (List.cons.inj heq).1 hbracket
    · simp [hread, hitems]

/-- An object is read back, if its values are. -/
theorem readObject_chars
    (h : ∀ e ∈ fields, ∀ rest, Ends rest → read (chars e.2 ++ rest) = some (decoded e.2, rest))
    (rest : List Char) :
    readObject read ((chars (.obj fields)).tail ++ rest) = some (decoded (.obj fields), rest) := by
  rw [decoded_obj]
  cases fields with
  | nil => rfl
  | cons e fields =>
    have hread := readField_chars e.1 (h e mem_cons_self _ (ends_charsFields fields rest))
    have hfields := readFields_charsFields ((forall_mem_cons.1 h).2)
      (show fields.length < (charsFields fields).length + rest.length + 1 by
        have := length_charsFields fields
        omega) rest
    have hquote : quoteChars e.1 = '"' :: (quoteChars e.1).tail := rfl
    rw [hquote, cons_append] at hread
    rw [tail_obj_cons, hquote, cons_append, readObject, skip_cons (by decide)]
    simp [hread, hfields, mapValues]

/-- **The text of a value is read back** as what a decoder keeps of it. -/
theorem readValue_chars {d : ℕ} (hv : numeric v = true) (hd : depth v ≤ d) (hrest : Ends rest) :
    readValue d (chars v ++ rest) = some (decoded v, rest) := by
  have hwith : ∃ nested, readValue d = readWith nested := by
    cases d <;> exact ⟨_, rfl⟩
  induction v using induct generalizing d rest with
  | null => cases d <;> rfl
  | bool b => cases d <;> cases b <;> rfl
  | num =>
    obtain ⟨nested, hnested⟩ := hwith
    rw [numeric] at hv
    obtain ⟨c, cs, hcs, -, hc⟩ := isNumber_cons hv
    have hother (d : Char) (hd : d ≠ '-' ∧ d.isDigit = false) : c ≠ d := ne_of_numberChar hc hd
    have hnumber := readNumber_append hv hrest
    rw [String.ofList_toList, hcs, cons_append] at hnumber
    rw [hnested, chars, hcs, cons_append, readWith, skip_cons (isBlank_of_numberChar hc)]
    simp [hother '[' (by decide), hother '\x7b' (by decide), hother '"' (by decide),
      hother 'n' (by decide), hother 't' (by decide), hother 'f' (by decide), hnumber, decoded]
  | str s =>
    obtain ⟨nested, hnested⟩ := hwith
    have hquote : quoteChars s = '"' :: (quoteChars s).tail := rfl
    rw [hnested, chars, hquote, cons_append, readWith, skip_cons (by decide)]
    simp [readString_quoteChars, decoded]
  | arr items ih =>
    cases d with
    | zero => simp [depth] at hd
    | succ d =>
      have hread : ∀ v ∈ items, ∀ rest, Ends rest →
          readValue d (chars v ++ rest) = some (decoded v, rest) := by
        intro v hmem rest hrest
        exact ih v hmem (numeric_arr.1 hv v hmem) (depth_arr_le.1 hd v hmem) hrest
          (by cases d <;> exact ⟨_, rfl⟩)
      have harray := readArray_chars (numeric_arr.1 hv) hread rest
      rw [chars_arr, cons_append, readValue, readWith, skip_cons (by decide)]
      simp [harray]
  | obj fields ih =>
    cases d with
    | zero => simp [depth] at hd
    | succ d =>
      have hread : ∀ e ∈ fields, ∀ rest, Ends rest →
          readValue d (chars e.2 ++ rest) = some (decoded e.2, rest) := by
        intro e hmem rest hrest
        exact ih e hmem (numeric_obj.1 hv e hmem) (depth_obj_le.1 hd e hmem) hrest
          (by cases d <;> exact ⟨_, rfl⟩)
      have hobject := readObject_chars hread rest
      rw [chars_obj, cons_append, readValue, readWith, skip_cons (by decide)]
      simp [hobject]

/-! ## Documents -/

/-- **The text of a document is decoded.** -/
theorem decode_encode (hv : numeric v = true) (hd : depth v ≤ maxNestingDepth) :
    decode (encode v) = some (decoded v, []) := by
  have hread := readValue_chars hv hd ends_nil
  rw [append_nil] at hread
  rw [decode, toList_encode, hread]

/-- **Documents that share a text keep the same** when they are decoded,
however deep they are nested. -/
theorem decoded_eq_of_encode_eq {v w : Json} (hv : numeric v = true) (hw : numeric w = true)
    (h : encode v = encode w) : decoded v = decoded w := by
  have hread (u : Json) (hu : numeric u = true) (hle : depth u ≤ max (depth v) (depth w)) :
      readValue (max (depth v) (depth w)) (chars u) = some (decoded u, []) := by
    have := readValue_chars hu hle ends_nil
    rwa [append_nil] at this
  have hv' := hread v hv (le_max_left _ _)
  have hw' := hread w hw (le_max_right _ _)
  rw [← toList_encode, h, toList_encode, hw'] at hv'
  exact (Prod.mk.inj (Option.some.inj hv')).1.symm

end HardenLlm.Json
