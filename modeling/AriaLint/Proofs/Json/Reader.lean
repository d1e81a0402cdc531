import AriaLint.Json

/-!
# Reading JSON documents

A document is written by `Json.render`.  Here is the way back, for any text and not only for those
that are written in this way: blanks may stand between the parts, escapes may be short or long, and
hexadecimal digits may be upper case.  Of numbers only the counts are read, and an escape for half of
a character is refused, since there is no such character.

Every reader answers with what it has read and with the rest of the text, and the rest is shorter
(`Reading`).  So a document, its items and its fields can be read by turns without any other bound.
For proofs it is enough to know what is read from which text and what is left of it (`Reads`), and
there is one rule for each way that a reader can take.
-/

namespace AriaLint.Json

/-- What has been read at the head of a text, and the rest. -/
structure Reading (α : Type) (t : Text) where
  value : α
  rest : Text
  shorter : rest.length < t.length

namespace Reading

variable {α β γ : Type} {t u : Text}

/-- Another value for what has been read. -/
def map (f : α → β) (r : Reading α t) : Reading β t := ⟨f r.value, r.rest, r.shorter⟩

/-- What has been read behind the head of a text. -/
def behind (r : Reading α u) (h : u.length ≤ t.length) : Reading α t :=
  ⟨r.value, r.rest, Nat.lt_of_lt_of_le r.shorter h⟩

/-- What has been read by reading on. -/
def and (r : Reading α t) (s : Reading β r.rest) (f : α → β → γ) : Reading γ t :=
  ⟨f r.value s.value, s.rest, Nat.lt_trans s.shorter r.shorter⟩

theorem value_and (r : Reading α t) (s : Reading β r.rest) (f : α → β → γ) :
    (r.and s f).value = f r.value s.value := rfl

end Reading

/-! ## Words and numbers -/

/-- Blanks between the parts of a document. -/
def isBlank (c : Char) : Bool := c = ' ' ∨ c = '\n' ∨ c = '\r' ∨ c = '\t'

/-- Reads the given word. -/
def readWord? (word t : Text) : Option (Reading Text t) :=
  if h : word ≠ [] ∧ word <+: t then
    some ⟨word, t.drop word.length, by
      have := List.length_pos_iff.2 h.1
      have := h.2.length_le
      rw [List.length_drop]
      omega⟩
  else none

/-- Reads a mark behind blanks. -/
def readMark? (c : Char) (t : Text) : Option (Reading Text t) :=
  (readWord? [c] (t.dropWhile isBlank)).map (·.behind (List.dropWhile_suffix _).length_le)

/-- Reads a count: decimal digits without a zero in front. -/
def readCount? (t : Text) : Option (Reading Nat t) :=
  let digits := t.takeWhile Char.isDigit
  if h : digits = [] ∨ digits.head? = some '0' ∧ digits ≠ ['0'] then none
  else some ⟨Nat.ofDigitChars 10 digits 0, t.dropWhile Char.isDigit, by
    have hsplit : (digits ++ t.dropWhile Char.isDigit).length = t.length :=
      congrArg List.length List.takeWhile_append_dropWhile
    have := List.length_pos_iff.2 fun hnil : digits = [] => h (Or.inl hnil)
    rw [List.length_append] at hsplit
    omega⟩

/-! ## Strings -/

/-- A hexadecimal digit. -/
def hexDigit? (c : Char) : Option Nat :=
  if '0' ≤ c ∧ c ≤ '9' then some (c.toNat - 0x30)
  else if 'a' ≤ c ∧ c ≤ 'f' then some (c.toNat - 0x57)
  else if 'A' ≤ c ∧ c ≤ 'F' then some (c.toNat - 0x37)
  else none

/-- Reads four hexadecimal digits, which stand for a UTF-16 unit. -/
def readUnit? : (t : Text) → Option (Reading Nat t)
  | a :: b :: c :: d :: t => do
    let a ← hexDigit? a
    let b ← hexDigit? b
    let c ← hexDigit? c
    let d ← hexDigit? d
    return ⟨((a * 16 + b) * 16 + c) * 16 + d, t, by simp only [List.length_cons]; omega⟩
  | _ => none

/-- The character of two halves. -/
def ofHalves (high low : Nat) : Char :=
  Char.ofNat (0x10000 + (high - 0xD800) * 0x400 + (low - 0xDC00))

/-- Reads what follows the mark of a unit: a character that is one unit, or has two halves. -/
def readUnits? (t : Text) : Option (Reading Char t) := do
  let high ← readUnit? t
  if high.value < 0xD800 ∨ 0xE000 ≤ high.value then
    return high.map Char.ofNat
  else
    let mark ← readWord? ['\\', 'u'] high.rest
    let low ← readUnit? mark.rest
    if high.value < 0xDC00 ∧ 0xDC00 ≤ low.value ∧ low.value < 0xE000 then
      return high.and (mark.and low fun _ low => low) ofHalves
    else none

/-- Characters by the letter that stands for them behind a backslash. -/
def escapes : List (Char × Char) :=
  [('"', '"'), ('\\', '\\'), ('/', '/'), ('b', '\x08'), ('f', '\x0C'), ('n', '\n'), ('r', '\r'),
   ('t', '\t')]

/-- Reads what follows a backslash. -/
def readEscape? : (t : Text) → Option (Reading Char t)
  | [] => none
  | c :: t =>
    if c = 'u' then (readUnits? t).map (·.behind (Nat.le_succ _))
    else (escapes.lookup c).map (⟨·, t, Nat.lt_succ_self _⟩)

/-- Reads a character of a string, which is not its end.  Control characters need an escape. -/
def readChar? : (t : Text) → Option (Reading Char t)
  | [] => none
  | c :: t =>
    if c = '\\' then (readEscape? t).map (·.behind (Nat.le_succ _))
    else if 0x20 ≤ c.toNat then some ⟨c, t, Nat.lt_succ_self _⟩
    else none

/-- Reads a string behind its first quote, up to the quote that ends it. -/
def readText? (t : Text) : Option (Reading Text t) :=
  match readWord? ['"'] t with
  | some quote => some (quote.map fun _ => [])
  | none => do
    let c ← readChar? t
    let cs ← readText? c.rest
    return c.and cs (· :: ·)
termination_by t.length
decreasing_by exact c.shorter

/-! ## Documents -/

/-- Reads a document that is no list and no object. -/
def readScalar? (t : Text) : Option (Reading Json t) :=
  ((readWord? "null" t).map (·.map fun _ => null)).or <|
    ((readWord? "true" t).map (·.map fun _ => bool true)).or <|
      ((readWord? "false" t).map (·.map fun _ => bool false)).or <|
        (readCount? t).map (·.map count)

mutual

/-- Reads a document behind blanks. -/
def readValue? (t : Text) : Option (Reading Json t) :=
  (readHere? (t.dropWhile isBlank)).map (·.behind (List.dropWhile_suffix _).length_le)
termination_by (t.length, 1)
decreasing_by
  refine Prod.Lex.right' _ ?_ Nat.zero_lt_one
  exact (List.dropWhile_suffix _).length_le

/-- Reads a document. -/
def readHere? : (t : Text) → Option (Reading Json t)
  | [] => none
  | c :: t =>
    if c = '"' then (readText? t).map fun s => (s.map text).behind (Nat.le_succ _)
    else if c = '[' then
      match readMark? ']' t with
      | some close => some ((close.map fun _ => list []).behind (Nat.le_succ _))
      | none => do
        let item ← readValue? t
        let items ← readItems? item.rest
        return (item.and items fun item items => list (item :: items)).behind (Nat.le_succ _)
    else if c = '\x7b' then
      match readMark? '\x7d' t with
      | some close => some ((close.map fun _ => object []).behind (Nat.le_succ _))
      | none => do
        let field ← readField? t
        let fields ← readFields? field.rest
        return (field.and fields fun field fields => object (field :: fields)).behind
          (Nat.le_succ _)
    else readScalar? (c :: t)
termination_by t => (t.length, 0)
decreasing_by
  · exact Prod.Lex.left _ _ (Nat.lt_succ_self _)
  · exact Prod.Lex.left _ _ (Nat.lt_succ_of_lt item.shorter)
  · exact Prod.Lex.left _ _ (Nat.lt_succ_self _)
  · exact Prod.Lex.left _ _ (Nat.lt_succ_of_lt field.shorter)

/-- Reads the items of a list behind the first, up to the bracket that ends it. -/
def readItems? (t : Text) : Option (Reading (List Json) t) :=
  match readMark? ']' t with
  | some close => some (close.map fun _ => [])
  | none => do
    let comma ← readMark? ',' t
    let item ← readValue? comma.rest
    let items ← readItems? item.rest
    return comma.and (item.and items (· :: ·)) fun _ items => items
termination_by (t.length, 0)
decreasing_by
  · exact Prod.Lex.left _ _ comma.shorter
  · exact Prod.Lex.left _ _ (Nat.lt_trans item.shorter comma.shorter)

/-- Reads a key with its document. -/
def readField? (t : Text) : Option (Reading (Text × Json) t) := do
  let quote ← readMark? '"' t
  let key ← readText? quote.rest
  let colon ← readMark? ':' key.rest
  let value ← readValue? colon.rest
  return quote.and (key.and (colon.and value fun _ value => value) Prod.mk) fun _ field => field
termination_by (t.length, 0)
decreasing_by
  exact Prod.Lex.left _ _
    (Nat.lt_trans colon.shorter (Nat.lt_trans key.shorter quote.shorter))

/-- Reads the fields of an object behind the first, up to the brace that ends it. -/
def readFields? (t : Text) : Option (Reading (List (Text × Json)) t) :=
  match readMark? '\x7d' t with
  | some close => some (close.map fun _ => [])
  | none => do
    let comma ← readMark? ',' t
    let field ← readField? comma.rest
    let fields ← readFields? field.rest
    return comma.and (field.and fields (· :: ·)) fun _ fields => fields
termination_by (t.length, 0)
decreasing_by
  · exact Prod.Lex.left _ _ comma.shorter
  · exact Prod.Lex.left _ _ (Nat.lt_trans field.shorter comma.shorter)

end

/-- The document that a text is. -/
def parse? (t : Text) : Option Json := do
  let document ← readValue? t
  if document.rest.all isBlank then some document.value else none

example : (parse? " [ \"\\uD83d\\uDE00\\/\", 10 ]\n").map render =
    some (render (.list [.text "😀/", .count 10])) := by cbv

example : ["[1,]", "01", "\"\\ud83d\"", "\"\n\""].map (fun t : String => (parse? t).map render) =
    [none, none, none, none] := by cbv

/-! ## Rules -/

section Rules

variable {α : Type} {t u v w rest : Text} {c d : Char}

/-- The reader finds the value at the head of the text, and leaves the rest. -/
def Reads (read? : (t : Text) → Option (Reading α t)) (t : Text) (a : α) (rest : Text) : Prop :=
  ∃ r, read? t = some r ∧ r.value = a ∧ r.rest = rest

theorem reads_word (word : Text) (h : word ≠ []) (rest : Text) :
    Reads (readWord? word) (word ++ rest) word rest :=
  ⟨_, dif_pos ⟨h, List.prefix_append word rest⟩, rfl, List.drop_left⟩

theorem readWord?_eq_none {word : Text} (h : t.head? ≠ some c) :
    readWord? (c :: word) t = none := by
  refine dif_neg fun hword => h ?_
  obtain ⟨rest, rfl⟩ := hword.2
  rfl

theorem dropWhile_blanks (hu : u.all isBlank = true) (hc : isBlank c = false) (t : Text) :
    (u ++ c :: t).dropWhile isBlank = c :: t := by
  rw [List.dropWhile_append_of_pos fun c hc => List.all_eq_true.1 hu c hc,
    List.dropWhile_cons_of_neg (by simp [hc])]

theorem reads_mark (hu : u.all isBlank = true) (hc : isBlank c = false) (rest : Text) :
    Reads (readMark? c) (u ++ c :: rest) [c] rest := by
  have hword : Reads (readWord? [c]) ((u ++ c :: rest).dropWhile isBlank) [c] rest := by
    rw [dropWhile_blanks hu hc]
    exact reads_word [c] (List.cons_ne_nil c []) rest
  obtain ⟨r, hr, hvalue, hrest⟩ := hword
  exact ⟨_, by rw [readMark?, hr, Option.map_some], hvalue, hrest⟩

theorem readMark?_eq_none (hu : u.all isBlank = true) (hd : isBlank d = false) (h : c ≠ d)
    (rest : Text) : readMark? c (u ++ d :: rest) = none := by
  have hword : readWord? [c] ((u ++ d :: rest).dropWhile isBlank) = none := by
    rw [dropWhile_blanks hu hd]
    exact readWord?_eq_none (by simpa using h.symm)
  rw [readMark?, hword, Option.map_none]

/-! Characters. -/

theorem reads_unit_of_digits {a b c d : Char} {i j k l : Nat} (ha : hexDigit? a = some i)
    (hb : hexDigit? b = some j) (hc : hexDigit? c = some k) (hd : hexDigit? d = some l)
    (rest : Text) :
    Reads readUnit? (a :: b :: c :: d :: rest) (((i * 16 + j) * 16 + k) * 16 + l) rest := by
  unfold Reads
  simp only [readUnit?, ha, hb, hc, hd, Option.bind_eq_bind, Option.bind_some, Option.pure_def]
  exact ⟨_, rfl, rfl, rfl⟩

theorem reads_units_of_unit {n : Nat} (h : Reads readUnit? t n rest)
    (hn : n < 0xD800 ∨ 0xE000 ≤ n) : Reads readUnits? t (Char.ofNat n) rest := by
  obtain ⟨r, hr, rfl, rfl⟩ := h
  unfold Reads
  simp only [readUnits?, hr, if_pos hn, Option.bind_eq_bind, Option.bind_some, Option.pure_def]
  exact ⟨_, rfl, rfl, rfl⟩

theorem reads_units_of_halves {high low : Nat} (hhigh : Reads readUnit? t high u)
    (hmark : Reads (readWord? ['\\', 'u']) u w v) (hlow : Reads readUnit? v low rest)
    (h : 0xD800 ≤ high ∧ high < 0xDC00) (h' : 0xDC00 ≤ low ∧ low < 0xE000) :
    Reads readUnits? t (ofHalves high low) rest := by
  obtain ⟨r, hr, rfl, rfl⟩ := hhigh
  obtain ⟨m, hm, rfl, rfl⟩ := hmark
  obtain ⟨s, hs, rfl, rfl⟩ := hlow
  unfold Reads
  simp only [readUnits?, hr, hm, hs, Option.bind_eq_bind, Option.bind_some, Option.pure_def]
  rw [if_neg (by omega), if_pos (by omega)]
  exact ⟨_, rfl, by rw [Reading.value_and, Reading.value_and], rfl⟩

theorem reads_char_of_escape (hc : d ≠ 'u') (h : escapes.lookup d = some c) (rest : Text) :
    Reads readChar? ('\\' :: d :: rest) c rest := by
  unfold Reads
  rw [readChar?, if_pos rfl, readEscape?, if_neg hc, h]
  exact ⟨_, rfl, rfl, rfl⟩

theorem reads_char_of_units (h : Reads readUnits? t c rest) :
    Reads readChar? ('\\' :: 'u' :: t) c rest := by
  obtain ⟨r, hr, rfl, rfl⟩ := h
  unfold Reads
  rw [readChar?, if_pos rfl, readEscape?, if_pos rfl, hr]
  exact ⟨_, rfl, rfl, rfl⟩

theorem reads_char_self (hc : c ≠ '\\') (hplain : 0x20 ≤ c.toNat) (rest : Text) :
    Reads readChar? (c :: rest) c rest := by
  unfold Reads
  rw [readChar?, if_neg hc, if_pos hplain]
  exact ⟨_, rfl, rfl, rfl⟩

/-! Strings. -/

theorem reads_text_nil (h : Reads (readWord? ['"']) t w rest) : Reads readText? t [] rest := by
  obtain ⟨r, hr, rfl, rfl⟩ := h
  unfold Reads
  rw [readText?, hr]
  exact ⟨_, rfl, rfl, rfl⟩

theorem reads_text_cons (hquote : t.head? ≠ some '"') (h : Reads readChar? t c u)
    (h' : Reads readText? u w rest) : Reads readText? t (c :: w) rest := by
  obtain ⟨r, hr, rfl, rfl⟩ := h
  obtain ⟨s, hs, rfl, rfl⟩ := h'
  unfold Reads
  rw [readText?, readWord?_eq_none hquote]
  simp only [hr, hs, Option.bind_eq_bind, Option.bind_some, Option.pure_def]
  exact ⟨_, rfl, rfl, rfl⟩

/-! Documents. -/

variable {j : Json} {items : List Json} {field : Text × Json} {fields : List (Text × Json)}

/-- A document is read after the blanks in front of it. -/
theorem reads_value (hu : u.all isBlank = true) (hc : isBlank c = false)
    (h : Reads readHere? (c :: t) j rest) : Reads readValue? (u ++ c :: t) j rest := by
  rw [← dropWhile_blanks hu hc t] at h
  obtain ⟨r, hr, rfl, rfl⟩ := h
  unfold Reads
  rw [readValue?, hr]
  exact ⟨_, rfl, rfl, rfl⟩

theorem reads_here_of_scalar (h : Reads readScalar? (c :: t) j rest)
    (hc : c ≠ '"' ∧ c ≠ '[' ∧ c ≠ '\x7b') : Reads readHere? (c :: t) j rest := by
  unfold Reads
  rwa [readHere?, if_neg hc.1, if_neg hc.2.1, if_neg hc.2.2]

theorem reads_here_of_text (h : Reads readText? t w rest) :
    Reads readHere? ('"' :: t) (text w) rest := by
  obtain ⟨r, hr, rfl, rfl⟩ := h
  unfold Reads
  rw [readHere?, if_pos rfl, hr]
  exact ⟨_, rfl, rfl, rfl⟩

theorem reads_here_list_nil (h : Reads (readMark? ']') t w rest) :
    Reads readHere? ('[' :: t) (list []) rest := by
  obtain ⟨r, hr, rfl, rfl⟩ := h
  unfold Reads
  rw [readHere?, if_neg (by decide), if_pos rfl, hr]
  exact ⟨_, rfl, rfl, rfl⟩

theorem reads_here_list_cons (hnot : readMark? ']' t = none) (h : Reads readValue? t j u)
    (h' : Reads readItems? u items rest) : Reads readHere? ('[' :: t) (list (j :: items)) rest := by
  obtain ⟨r, hr, rfl, rfl⟩ := h
  obtain ⟨s, hs, rfl, rfl⟩ := h'
  unfold Reads
  rw [readHere?, if_neg (by decide), if_pos rfl, hnot]
  simp only [hr, hs, Option.bind_eq_bind, Option.bind_some, Option.pure_def]
  exact ⟨_, rfl, rfl, rfl⟩

theorem reads_here_object_nil (h : Reads (readMark? '\x7d') t w rest) :
    Reads readHere? ('\x7b' :: t) (object []) rest := by
  obtain ⟨r, hr, rfl, rfl⟩ := h
  unfold Reads
  rw [readHere?, if_neg (by decide), if_neg (by decide), if_pos rfl, hr]
  exact ⟨_, rfl, rfl, rfl⟩

theorem reads_here_object_cons (hnot : readMark? '\x7d' t = none)
    (h : Reads readField? t field u) (h' : Reads readFields? u fields rest) :
    Reads readHere? ('\x7b' :: t) (object (field :: fields)) rest := by
  obtain ⟨r, hr, rfl, rfl⟩ := h
  obtain ⟨s, hs, rfl, rfl⟩ := h'
  unfold Reads
  rw [readHere?, if_neg (by decide), if_neg (by decide), if_pos rfl, hnot]
  simp only [hr, hs, Option.bind_eq_bind, Option.bind_some, Option.pure_def]
  exact ⟨_, rfl, rfl, rfl⟩

theorem reads_items_nil (h : Reads (readMark? ']') t w rest) : Reads readItems? t [] rest := by
  obtain ⟨r, hr, rfl, rfl⟩ := h
  unfold Reads
  rw [readItems?, hr]
  exact ⟨_, rfl, rfl, rfl⟩

theorem reads_items_cons (hnot : readMark? ']' t = none) (hcomma : Reads (readMark? ',') t w u)
    (h : Reads readValue? u j v) (h' : Reads readItems? v items rest) :
    Reads readItems? t (j :: items) rest := by
  obtain ⟨m, hm, rfl, rfl⟩ := hcomma
  obtain ⟨r, hr, rfl, rfl⟩ := h
  obtain ⟨s, hs, rfl, rfl⟩ := h'
  unfold Reads
  rw [readItems?, hnot]
  simp only [hm, hr, hs, Option.bind_eq_bind, Option.bind_some, Option.pure_def]
  exact ⟨_, rfl, rfl, rfl⟩

theorem reads_fields_nil (h : Reads (readMark? '\x7d') t w rest) : Reads readFields? t [] rest := by
  obtain ⟨r, hr, rfl, rfl⟩ := h
  unfold Reads
  rw [readFields?, hr]
  exact ⟨_, rfl, rfl, rfl⟩

theorem reads_fields_cons (hnot : readMark? '\x7d' t = none)
    (hcomma : Reads (readMark? ',') t w u) (h : Reads readField? u field v)
    (h' : Reads readFields? v fields rest) : Reads readFields? t (field :: fields) rest := by
  obtain ⟨m, hm, rfl, rfl⟩ := hcomma
  obtain ⟨r, hr, rfl, rfl⟩ := h
  obtain ⟨s, hs, rfl, rfl⟩ := h'
  unfold Reads
  rw [readFields?, hnot]
  simp only [hm, hr, hs, Option.bind_eq_bind, Option.bind_some, Option.pure_def]
  exact ⟨_, rfl, rfl, rfl⟩

theorem reads_field {key after after' : Text} (hquote : Reads (readMark? '"') t w u)
    (hkey : Reads readText? u key v) (hcolon : Reads (readMark? ':') v after after')
    (h : Reads readValue? after' j rest) : Reads readField? t (key, j) rest := by
  obtain ⟨m, hm, rfl, rfl⟩ := hquote
  obtain ⟨k, hk, rfl, rfl⟩ := hkey
  obtain ⟨n, hn, rfl, rfl⟩ := hcolon
  obtain ⟨r, hr, rfl, rfl⟩ := h
  unfold Reads
  rw [readField?]
  simp only [hm, hk, hn, hr, Option.bind_eq_bind, Option.bind_some, Option.pure_def]
  exact ⟨_, rfl, rfl, rfl⟩

theorem parse?_eq_some (h : Reads readValue? t j rest) (hrest : rest.all isBlank = true) :
    parse? t = some j := by
  obtain ⟨r, hr, rfl, rfl⟩ := h
  rw [parse?, hr]
  exact if_pos hrest

end Rules

end AriaLint.Json
