import AriaLint.Proofs.Json.Reader

/-!
# What has been written is read

A document is read from the text that it is written as (`parse?_render`).  The proof goes along the
document, along its items and its fields, with any text behind it (`reads_renderAt`).  There is one
thing that this text must not do: begin with a digit, since a count has no end of its own.  Inside a
document it never does, because what follows is a comma or a new line.

Strings are read character by character.  An escape for a UTF-16 unit is always four digits long, so
it is known where it ends, and whether it is half of a character is told by its value.
-/

namespace AriaLint

/-! ## Digits -/

namespace Text

theorem hex_succ {width : Nat} (h : 0 < width) (n : Nat) :
    hex (width + 1) n = hex width (n / 16) ++ [(n % 16).digitChar] := by
  unfold hex
  rcases Nat.lt_or_ge n 16 with hn | hn
  · obtain ⟨width, rfl⟩ := Nat.exists_eq_add_of_lt h
    rw [Nat.div_eq_of_lt hn, Nat.mod_eq_of_lt hn, Nat.toDigits_of_lt_base hn, Nat.toDigits_zero]
    simp [← List.replicate_succ']
  · rw [Nat.toDigits_of_base_le (by decide) hn]
    simp

theorem hex_one {n : Nat} (h : n < 16) : hex 1 n = [n.digitChar] := by
  rw [hex, Nat.toDigits_of_lt_base h]
  rfl

theorem exists_cons_ofNat (n : Nat) :
    ∃ c digits, ofNat n = c :: digits ∧ c.isDigit = true := by
  obtain ⟨c, digits, hn⟩ := List.exists_cons_of_ne_nil (Nat.toDigits_ne_nil (n := n) (b := 10))
  exact ⟨c, digits, hn,
    Nat.isDigit_of_mem_toDigits (by decide) (by decide) (hn ▸ List.mem_cons_self)⟩

/-- A zero in front of a count stands for itself. -/
theorem eq_zero_of_head?_ofNat {n : Nat} (h : (ofNat n).head? = some '0') : n = 0 := by
  induction n using Nat.strongRecOn with
  | ind n ih =>
    rcases Nat.lt_or_ge n 10 with hn | hn
    · rw [ofNat, Nat.toDigits_of_lt_base hn] at h
      exact Nat.digitChar_eq_zero.1 (Option.some.inj h)
    · rw [ofNat, Nat.toDigits_of_base_le (by decide) hn, List.head?_append,
        List.head?_eq_some_head Nat.toDigits_ne_nil] at h
      have := ih (n / 10) (by omega) (by rwa [ofNat, List.head?_eq_some_head Nat.toDigits_ne_nil])
      omega

end Text

namespace Json

variable {t u rest : Text} {c : Char}

/-! ## Strings -/

theorem hexDigit?_digitChar {n : Nat} (h : n < 16) : hexDigit? n.digitChar = some n := by
  have hall : ∀ n : Fin 16, hexDigit? n.val.digitChar = some n.val := by decide
  exact hall ⟨n, h⟩

theorem reads_hex {n : Nat} (h : n < 0x10000) (rest : Text) :
    Reads readUnit? (Text.hex 4 n ++ rest) n rest := by
  have hdigits : Text.hex 4 n = [(n / 16 / 16 / 16).digitChar, (n / 16 / 16 % 16).digitChar,
      (n / 16 % 16).digitChar, (n % 16).digitChar] := by
    rw [Text.hex_succ (by decide), Text.hex_succ (by decide), Text.hex_succ (by decide),
      Text.hex_one (by omega)]
    rfl
  have hvalue :
      ((n / 16 / 16 / 16 * 16 + n / 16 / 16 % 16) * 16 + n / 16 % 16) * 16 + n % 16 = n := by omega
  have hread := reads_unit_of_digits
    (hexDigit?_digitChar (n := n / 16 / 16 / 16) (by omega))
    (hexDigit?_digitChar (n := n / 16 / 16 % 16) (by omega))
    (hexDigit?_digitChar (n := n / 16 % 16) (by omega))
    (hexDigit?_digitChar (n := n % 16) (by omega)) rest
  rw [hvalue] at hread
  rwa [hdigits]

theorem escapeUnit_append (n : Nat) (t : Text) :
    escapeUnit n ++ t = '\\' :: 'u' :: (Text.hex 4 n ++ t) := rfl

theorem head?_escapeUnit_append (n : Nat) (t : Text) :
    (escapeUnit n ++ t).head? = some '\\' := rfl

/-- A character that is one unit. -/
theorem reads_escapeUnit (h : c.toNat < 0x10000) (rest : Text) :
    Reads readChar? (escapeUnit c.toNat ++ rest) c rest := by
  have hc : c.toNat < 0xD800 ∨ 0xE000 ≤ c.toNat := c.valid.imp id fun h => Nat.lt_of_succ_le h.1
  have hunits := reads_units_of_unit (reads_hex h rest) hc
  rw [Char.ofNat_toNat] at hunits
  rw [escapeUnit_append]
  exact reads_char_of_units hunits

theorem ofHalves_toNat (h : 0x10000 ≤ c.toNat) :
    ofHalves (0xD800 + (c.toNat - 0x10000) / 0x400) (0xDC00 + (c.toNat - 0x10000) % 0x400) = c := by
  have hsum : 0x10000 + (0xD800 + (c.toNat - 0x10000) / 0x400 - 0xD800) * 0x400 +
      (0xDC00 + (c.toNat - 0x10000) % 0x400 - 0xDC00) = c.toNat := by omega
  rw [ofHalves, hsum, Char.ofNat_toNat]

/-- A character that has two halves. -/
theorem reads_halves (high low : Nat) (h : 0xD800 ≤ high ∧ high < 0xDC00)
    (h' : 0xDC00 ≤ low ∧ low < 0xE000) (rest : Text) :
    Reads readChar? (escapeUnit high ++ escapeUnit low ++ rest) (ofHalves high low) rest := by
  have hmark : Reads (readWord? ['\\', 'u']) (escapeUnit low ++ rest) ['\\', 'u']
      (Text.hex 4 low ++ rest) := reads_word _ (List.cons_ne_nil _ _) _
  rw [List.append_assoc, escapeUnit_append]
  exact reads_char_of_units (reads_units_of_halves (reads_hex (by omega) _) hmark
    (reads_hex (by omega) rest) h h')

/-- What a character is written as: an escape of its own, itself, one unit, or two halves. -/
theorem escapeChar_cases (c : Char) :
    (∃ d, escapeChar c = ['\\', d] ∧ d ≠ 'u' ∧ escapes.lookup d = some c) ∨
      (escapeChar c = [c] ∧ c ≠ '"' ∧ c ≠ '\\' ∧ 0x20 ≤ c.toNat) ∨
      (escapeChar c = escapeUnit c.toNat ∧ c.toNat < 0x10000) ∨
      (escapeChar c = escapeUnit (0xD800 + (c.toNat - 0x10000) / 0x400) ++
        escapeUnit (0xDC00 + (c.toNat - 0x10000) % 0x400) ∧ 0x10000 ≤ c.toNat) := by
  unfold escapeChar
  split
  · next h => exact Or.inl ⟨'"', rfl, by decide, by rw [h]; rfl⟩
  split
  · next h => exact Or.inl ⟨'\\', rfl, by decide, by rw [h]; rfl⟩
  split
  · next h => exact Or.inl ⟨'n', rfl, by decide, by rw [h]; rfl⟩
  split
  · next h => exact Or.inl ⟨'r', rfl, by decide, by rw [h]; rfl⟩
  split
  · next h => exact Or.inl ⟨'t', rfl, by decide, by rw [h]; rfl⟩
  split
  · next h => exact Or.inl ⟨'f', rfl, by decide, by rw [h]; rfl⟩
  split
  · next h => exact Or.inl ⟨'b', rfl, by decide, by rw [h]; rfl⟩
  split
  · next hquote hslash _ _ _ _ _ hplain => exact Or.inr (Or.inl ⟨rfl, hquote, hslash, hplain.1⟩)
  split
  · next h => exact Or.inr (Or.inr (Or.inl ⟨rfl, h⟩))
  · next h => exact Or.inr (Or.inr (Or.inr ⟨rfl, Nat.le_of_not_lt h⟩))

/-- **A character is read from its escape.** -/
theorem reads_escapeChar (c : Char) (rest : Text) :
    Reads readChar? (escapeChar c ++ rest) c rest := by
  obtain ⟨d, hc, hd, h⟩ | ⟨hc, -, hslash, h⟩ | ⟨hc, h⟩ | ⟨hc, h⟩ := escapeChar_cases c
  · rw [hc]
    exact reads_char_of_escape hd h rest
  · rw [hc]
    exact reads_char_self hslash h rest
  · rw [hc]
    exact reads_escapeUnit h rest
  · have hbound : c.toNat < 0x110000 := by
      have hvalid : c.toNat.isValidChar := c.valid
      unfold Nat.isValidChar at hvalid
      omega
    have hread := reads_halves (0xD800 + (c.toNat - 0x10000) / 0x400)
      (0xDC00 + (c.toNat - 0x10000) % 0x400) (by omega) (by omega) rest
    rw [ofHalves_toNat h] at hread
    rwa [hc]

/-- An escape does not end a string. -/
theorem head?_escapeChar_append_ne (c : Char) (rest : Text) :
    (escapeChar c ++ rest).head? ≠ some '"' := by
  obtain ⟨d, hc, -⟩ | ⟨hc, hquote, -⟩ | ⟨hc, -⟩ | ⟨hc, -⟩ := escapeChar_cases c
  · simp [hc]
  · simpa [hc] using hquote
  · rw [hc, head?_escapeUnit_append]
    decide
  · rw [hc, List.append_assoc, head?_escapeUnit_append]
    decide

/-- **A string is read from its escapes.** -/
theorem reads_escaped (t rest : Text) :
    Reads readText? (t.flatMap escapeChar ++ '"' :: rest) t rest := by
  induction t with
  | nil => exact reads_text_nil (reads_word ['"'] (List.cons_ne_nil _ _) rest)
  | cons c t ih =>
    rw [List.flatMap_cons, List.append_assoc]
    exact reads_text_cons (head?_escapeChar_append_ne c _) (reads_escapeChar c _) ih

/-! ## Scalars -/

/-- What does not begin with a digit. -/
def NoDigit (t : Text) : Prop := ∀ c ∈ t.head?, c.isDigit = false

theorem noDigit_cons (hc : c.isDigit = false) (t : Text) : NoDigit (c :: t) := by
  rintro d ⟨⟩
  exact hc

theorem ne_of_isDigit {d : Char} (hc : c.isDigit = true) (hd : d.isDigit = false) : d ≠ c := by
  rintro rfl
  exact Bool.noConfusion (hd.symm.trans hc)

theorem isBlank_of_isDigit (hc : c.isDigit = true) : isBlank c = false := by
  cases hblank : isBlank c with
  | false => rfl
  | true =>
    rcases of_decide_eq_true hblank with rfl | rfl | rfl | rfl
    all_goals exact absurd hc (by decide)

theorem reads_digits (n : Nat) (hrest : NoDigit rest) :
    Reads readCount? (Text.ofNat n ++ rest) n rest := by
  have hdigits : ∀ c ∈ Text.ofNat n, c.isDigit = true :=
    fun c hc => Nat.isDigit_of_mem_toDigits (by decide) (by decide) hc
  have hstop : rest.takeWhile Char.isDigit = [] ∧ rest.dropWhile Char.isDigit = rest := by
    cases rest with
    | nil => exact ⟨rfl, rfl⟩
    | cons c rest =>
      have hc : c.isDigit = false := hrest c rfl
      simp [hc]
  have htake : (Text.ofNat n ++ rest).takeWhile Char.isDigit = Text.ofNat n := by
    rw [List.takeWhile_append_of_pos hdigits, hstop.1, List.append_nil]
  have hdrop : (Text.ofNat n ++ rest).dropWhile Char.isDigit = rest := by
    rw [List.dropWhile_append_of_pos hdigits, hstop.2]
  have hcount : ¬ (Text.ofNat n = [] ∨ (Text.ofNat n).head? = some '0' ∧ Text.ofNat n ≠ ['0']) := by
    rintro (hnil | ⟨hhead, hne⟩)
    · exact Nat.toDigits_ne_nil hnil
    · rw [Text.eq_zero_of_head?_ofNat hhead] at hne
      exact hne rfl
  refine ⟨_, dif_neg ?_, ?_, hdrop⟩
  · rwa [htake]
  · show Nat.ofDigitChars 10 ((Text.ofNat n ++ rest).takeWhile Char.isDigit) 0 = n
    rw [htake]
    exact Nat.ofDigitChars_ten_toDigits

theorem reads_null (rest : Text) : Reads readScalar? ("null" ++ rest) null rest := by
  obtain ⟨r, hr, -, hrest⟩ := reads_word "null" (by decide) rest
  refine ⟨r.map fun _ => null, ?_, rfl, hrest⟩
  rw [readScalar?, hr]
  rfl

theorem reads_true (rest : Text) : Reads readScalar? ("true" ++ rest) (bool true) rest := by
  obtain ⟨r, hr, -, hrest⟩ := reads_word "true" (by decide) rest
  have hnull : readWord? "null" ("true" ++ rest) = none := by simp [readWord?]
  refine ⟨r.map fun _ => bool true, ?_, rfl, hrest⟩
  rw [readScalar?, hnull, hr]
  rfl

theorem reads_false (rest : Text) : Reads readScalar? ("false" ++ rest) (bool false) rest := by
  obtain ⟨r, hr, -, hrest⟩ := reads_word "false" (by decide) rest
  have hnull : readWord? "null" ("false" ++ rest) = none := by simp [readWord?]
  have htrue : readWord? "true" ("false" ++ rest) = none := by simp [readWord?]
  refine ⟨r.map fun _ => bool false, ?_, rfl, hrest⟩
  rw [readScalar?, hnull, htrue, hr]
  rfl

theorem reads_count (n : Nat) (hrest : NoDigit rest) :
    Reads readScalar? (Text.ofNat n ++ rest) (count n) rest := by
  obtain ⟨c, digits, hn, hc⟩ := Text.exists_cons_ofNat n
  obtain ⟨r, hr, hvalue, hrest⟩ := reads_digits n hrest
  have hnone : ∀ word : Text, word.head?.any (·.isDigit) = false →
      readWord? word (Text.ofNat n ++ rest) = none := by
    intro word hword
    refine dif_neg fun ⟨hne, hhead⟩ => ?_
    obtain ⟨d, word, rfl⟩ := List.exists_cons_of_ne_nil hne
    rw [hn, List.cons_append, List.cons_prefix_cons] at hhead
    rw [hhead.1] at hword
    exact ne_of_isDigit hc hword rfl
  refine ⟨r.map count, ?_, congrArg count hvalue, hrest⟩
  rw [readScalar?, hnone _ (by decide), hnone _ (by decide), hnone _ (by decide), hr]
  rfl

/-! ## Documents -/

theorem all_newline (level : Nat) : (newline level).all isBlank = true := by
  simp [newline, isBlank]

/-- A document begins neither with a blank nor with the end of a list. -/
theorem exists_cons_renderAt (level : Nat) (j : Json) :
    ∃ c t, renderAt level j = c :: t ∧ isBlank c = false ∧ ']' ≠ c := by
  match j with
  | null => exact ⟨'n', _, rfl, rfl, by decide⟩
  | bool true => exact ⟨'t', _, rfl, rfl, by decide⟩
  | bool false => exact ⟨'f', _, rfl, rfl, by decide⟩
  | count n =>
    obtain ⟨c, digits, hn, hc⟩ := Text.exists_cons_ofNat n
    exact ⟨c, digits, hn, isBlank_of_isDigit hc, ne_of_isDigit hc rfl⟩
  | text t => exact ⟨'"', _, rfl, rfl, by decide⟩
  | list [] => exact ⟨'[', _, rfl, rfl, by decide⟩
  | list (item :: items) => exact ⟨'[', _, by rw [renderAt]; rfl, rfl, by decide⟩
  | object [] => exact ⟨'\x7b', _, rfl, rfl, by decide⟩
  | object ((key, value) :: fields) => exact ⟨'\x7b', _, by rw [renderAt]; rfl, rfl, by decide⟩

/-- What follows an item of a list. -/
theorem noDigit_renderItems (level k : Nat) (items : List Json) (t : Text) :
    NoDigit (renderItems level items ++ (newline k ++ t)) := by
  cases items with
  | nil => exact noDigit_cons (by decide) _
  | cons item items => exact noDigit_cons (by decide) _

theorem noDigit_renderFields (level k : Nat) (fields : List (Text × Json)) (t : Text) :
    NoDigit (renderFields level fields ++ (newline k ++ t)) := by
  cases fields with
  | nil => exact noDigit_cons (by decide) _
  | cons field fields => exact noDigit_cons (by decide) _

/-- A document behind blanks. -/
theorem reads_behind {level : Nat} {j : Json} (hu : u.all isBlank = true)
    (h : Reads readHere? (renderAt level j ++ rest) j rest) :
    Reads readValue? (u ++ (renderAt level j ++ rest)) j rest := by
  obtain ⟨c, t, hc, hblank, -⟩ := exists_cons_renderAt level j
  rw [hc] at h ⊢
  exact reads_value hu hblank h

theorem reads_key (key : Text) {j : Json} (hu : u.all isBlank = true)
    (h : Reads readValue? t j rest) :
    Reads readField? (u ++ (renderText key ++ ':' :: t)) (key, j) rest := by
  have hsplit : u ++ (renderText key ++ ':' :: t) =
      u ++ '"' :: (key.flatMap escapeChar ++ '"' :: ':' :: t) := by
    simp [renderText]
  rw [hsplit]
  exact reads_field (reads_mark hu rfl _) (reads_escaped key _) (reads_mark (u := []) rfl rfl _) h

mutual

/-- **A document is read from what it is written as**, whatever follows that is no digit. -/
theorem reads_renderAt (level : Nat) {rest : Text} (hrest : NoDigit rest) :
    (j : Json) → Reads readHere? (renderAt level j ++ rest) j rest
  | null => reads_here_of_scalar (reads_null rest) (by decide)
  | bool true => reads_here_of_scalar (reads_true rest) (by decide)
  | bool false => reads_here_of_scalar (reads_false rest) (by decide)
  | count n => by
    obtain ⟨c, digits, hn, hc⟩ := Text.exists_cons_ofNat n
    have hread := reads_count n hrest
    rw [renderAt]
    rw [hn] at hread ⊢
    exact reads_here_of_scalar hread
      ⟨(ne_of_isDigit hc rfl).symm, (ne_of_isDigit hc rfl).symm, (ne_of_isDigit hc rfl).symm⟩
  | text t => by
    rw [renderAt, renderText, List.append_assoc]
    exact reads_here_of_text (reads_escaped t rest)
  | list [] => reads_here_list_nil (reads_mark (u := []) rfl rfl rest)
  | list (item :: items) => by
    have htail := noDigit_renderItems (level + 1) level items (']' :: rest)
    obtain ⟨c, t, hc, hblank, hne⟩ := exists_cons_renderAt (level + 1) item
    simp only [renderAt, List.append_assoc, List.cons_append, List.nil_append]
    refine reads_here_list_cons ?_
      (reads_behind (all_newline _) (reads_renderAt (level + 1) htail item))
      (reads_renderItems (level + 1) level rest items)
    rw [hc, List.cons_append]
    exact readMark?_eq_none (all_newline _) hblank hne _
  | object [] => reads_here_object_nil (reads_mark (u := []) rfl rfl rest)
  | object ((key, value) :: fields) => by
    have htail := noDigit_renderFields (level + 1) level fields ('\x7d' :: rest)
    simp only [renderAt, List.append_assoc, List.cons_append, List.nil_append]
    refine reads_here_object_cons ?_ (reads_key key (all_newline _)
      (reads_behind (u := [' ']) rfl (reads_renderAt (level + 1) htail value)))
      (reads_renderFields (level + 1) level rest fields)
    exact readMark?_eq_none (all_newline _) (d := '"') rfl (by decide) _

/-- The items of a list, up to its end. -/
theorem reads_renderItems (level k : Nat) (rest : Text) :
    (items : List Json) →
      Reads readItems? (renderItems level items ++ (newline k ++ ']' :: rest)) items rest
  | [] => reads_items_nil (reads_mark (all_newline k) rfl rest)
  | item :: items => by
    have htail := noDigit_renderItems level k items (']' :: rest)
    simp only [renderItems, List.append_assoc, List.cons_append]
    exact reads_items_cons (readMark?_eq_none (u := []) rfl rfl (by decide) _)
      (reads_mark (u := []) rfl rfl _)
      (reads_behind (all_newline _) (reads_renderAt level htail item))
      (reads_renderItems level k rest items)

/-- The fields of an object, up to its end. -/
theorem reads_renderFields (level k : Nat) (rest : Text) :
    (fields : List (Text × Json)) →
      Reads readFields? (renderFields level fields ++ (newline k ++ '\x7d' :: rest)) fields rest
  | [] => reads_fields_nil (reads_mark (all_newline k) rfl rest)
  | (key, value) :: fields => by
    have htail := noDigit_renderFields level k fields ('\x7d' :: rest)
    simp only [renderFields, List.append_assoc, List.cons_append, List.nil_append]
    exact reads_fields_cons (readMark?_eq_none (u := []) rfl rfl (by decide) _)
      (reads_mark (u := []) rfl rfl _)
      (reads_key key (all_newline _)
        (reads_behind (u := [' ']) rfl (reads_renderAt level htail value)))
      (reads_renderFields level k rest fields)

end

/-- **A document is the one that is read from its text.** -/
theorem parse?_render (j : Json) : parse? (render j) = some j := by
  have hread : Reads readHere? (renderAt 0 j ++ []) j [] := reads_renderAt 0 (by rintro c ⟨⟩) j
  have hvalue := reads_behind (u := []) rfl hread
  rw [List.nil_append, List.append_nil] at hvalue
  exact parse?_eq_some hvalue rfl

end Json
end AriaLint
