import AriaLint.Text.Basic

/-!
# Character references

`&#233;`, `&#xE9;` and `&eacute;` stand for one character each.  A reference has to be followed by
one more character, which ends it; a semicolon there is consumed with it.  Reading starts behind
the ampersand.

A number that no character has gives the replacement character.  The numbers from 0x80 to 0x9F are
read as bytes of code page 1252, as browsers do.  Decimal numbers have a limit on their digits, leading
zeros included.  A name that is not known is left as it stands, with the ampersand but without the
semicolon.
-/

namespace AriaLint.Markup

/-- Why markup has no text content. -/
inductive MarkupError where
  /-- A marked section opens with a keyword that is not known, or with none. -/
  | unknownSection
  /-- A reference gives its number in more decimal digits than are read. -/
  | numberTooLong (digits : Nat)
  deriving DecidableEq, Repr

/-- The most digits of a decimal number. -/
def digitLimit : Nat := 4300

/-- The wording of an error. -/
def MarkupError.message : MarkupError → Text
  | unknownSection => "unknown keyword in a marked section"
  | numberTooLong digits =>
    ("Exceeds the limit (" : Text) ++ Text.ofNat digitLimit ++
      " digits) for integer string conversion: value has " ++ Text.ofNat digits ++
      " digits; use sys.set_int_max_str_digits() to increase the limit"

/-- The characters of code page 1252 that stand at the numbers of control characters. -/
def codePage : List (Nat × Char) :=
  [(0x80, '\u20AC'), (0x82, '\u201A'), (0x83, '\u0192'), (0x84, '\u201E'), (0x85, '\u2026'),
   (0x86, '\u2020'), (0x87, '\u2021'), (0x88, '\u02C6'), (0x89, '\u2030'), (0x8A, '\u0160'),
   (0x8B, '\u2039'), (0x8C, '\u0152'), (0x8E, '\u017D'), (0x91, '\u2018'), (0x92, '\u2019'),
   (0x93, '\u201C'), (0x94, '\u201D'), (0x95, '\u2022'), (0x96, '\u2013'), (0x97, '\u2014'),
   (0x98, '\u02DC'), (0x99, '\u2122'), (0x9A, '\u0161'), (0x9B, '\u203A'), (0x9C, '\u0153'),
   (0x9E, '\u017E'), (0x9F, '\u0178')]

/-- The named characters that are known.  It is a selection: of the many names that there are, these
are told apart, and a reference by any other name is no reference but text that stays as it is. -/
def namedCharacters : List (Text × Char) :=
  [("amp", '&'), ("lt", '<'), ("gt", '>'), ("quot", '"'), ("apos", '\x27'), ("nbsp", '\u00A0'),
   ("copy", '\u00A9'), ("COPY", '\u00A9'), ("eacute", '\u00E9'), ("Eacute", '\u00C9'),
   ("hellip", '\u2026'), ("euro", '\u20AC'), ("rarr", '\u2192'), ("notin", '\u2209'),
   ("not", '\u00AC')]

/-- The character that a number refers to.  A number that no character has, which zero and the
surrogates count among, refers to the replacement character by rule. -/
def characterAt (n : Nat) : Char :=
  if n = 0 ∨ 0x10FFFF < n ∨ (0xD800 ≤ n ∧ n ≤ 0xDFFF) then '\uFFFD'
  else (codePage.lookup n).getD (Char.ofNat n)

/-- The text that a name refers to. -/
def textNamed (name : Text) : Text :=
  match namedCharacters.lookup name with
  | some c => [c]
  | none => '&' :: name

/-- A hexadecimal digit. -/
def isHexDigit (c : Char) : Bool :=
  c.isDigit || ('a' ≤ c && c ≤ 'f') || ('A' ≤ c && c ≤ 'F')

/-- The value of a hexadecimal digit. -/
def digitValue (c : Char) : Nat :=
  if c.isDigit then c.toNat - 0x30 else c.toLower.toNat - 0x61 + 10

/-- The number that digits denote. -/
def numberOf (base : Nat) (digits : Text) : Nat :=
  digits.foldl (fun n c => n * base + digitValue c) 0

/-- A number as it is written: its base, and its digits. -/
structure Numeral where
  base : Nat
  digits : Text
  deriving DecidableEq, Repr

/-- The character that a number refers to. -/
def Numeral.character (n : Numeral) : Except MarkupError Char :=
  if n.base = 10 ∧ digitLimit < n.digits.length then .error (.numberTooLong n.digits.length)
  else .ok (characterAt (numberOf n.base n.digits))

/-- Refuses a text that refers to a character by a number that is too long. -/
def checkNumbers : Text → Except MarkupError Unit
  | [] => .ok ()
  | '&' :: '#' :: t =>
    match (Numeral.mk 10 (t.takeWhile Char.isDigit)).character with
    | .error e => .error e
    | .ok _ => checkNumbers t
  | _ :: t => checkNumbers t

/-- What follows a reference: a semicolon belongs to it. -/
def afterReference : Text → Text
  | ';' :: rest => rest
  | rest => rest

/-- The number at the head of a text; a character that is no hexadecimal digit has to follow. -/
def readNumber? (base : Nat) (isDigit : Char → Bool) (t : Text) : Option (Numeral × Text) :=
  let digits := t.takeWhile isDigit
  match t.dropWhile isDigit with
  | [] => none
  | c :: rest =>
    if digits = [] ∨ isHexDigit c then none else some (⟨base, digits⟩, c :: rest)

/-- A reference by number, behind the ampersand and the number sign. -/
def readNumeric? (t : Text) : Option (Numeral × Text) :=
  let read := match t with
    | 'x' :: t => readNumber? 16 isHexDigit t
    | 'X' :: t => readNumber? 16 isHexDigit t
    | t => readNumber? 10 Char.isDigit t
  read.map fun (n, rest) => (n, afterReference rest)

/-- A character of a reference's name, after the first. -/
def isReferenceChar (c : Char) : Bool := c.isAlphanum || c == '-' || c == '.'

/-- The last hyphen or dot ends a name that runs to the end of the text: the name before it, and the
text from it on. -/
def cutAtLastMark? (run : Text) : Option (Text × Text) :=
  match run.reverse.dropWhile Char.isAlphanum with
  | mark :: name => some (name.reverse, mark :: (run.reverse.takeWhile Char.isAlphanum).reverse)
  | [] => none

/-- A reference by name, behind the ampersand: the name, and what follows it. -/
def readName? (t : Text) : Option (Text × Text) :=
  if t.head?.any Char.isAlpha then
    let run := t.takeWhile isReferenceChar
    match t.dropWhile isReferenceChar with
    | [] => cutAtLastMark? run
    | rest => some (run, rest)
  else none

/-- A named reference behind the ampersand. -/
def readNamed? (t : Text) : Option (Text × Text) :=
  (readName? t).map fun (name, rest) => (textNamed name, afterReference rest)

/-! ## What is left behind a reading

Every reading of markup leaves an end of the text that it was given. -/

theorem suffix_afterReference (t : Text) : afterReference t <:+ t := by
  unfold afterReference
  split
  · exact List.suffix_cons _ _
  · exact List.suffix_refl _

theorem suffix_of_readNumber? {base : Nat} {n : Numeral} {isDigit : Char → Bool} {t rest : Text}
    (h : readNumber? base isDigit t = some (n, rest)) : rest <:+ t := by
  have hd : t.dropWhile isDigit <:+ t := List.dropWhile_suffix _
  simp only [readNumber?] at h
  split at h
  · simp at h
  · next c r hr =>
    split at h
    · simp at h
    · simp only [Option.some.injEq, Prod.mk.injEq] at h
      rwa [← h.2, ← hr]

theorem suffix_of_readNumeric? {t rest : Text} {n : Numeral} (h : readNumeric? t = some (n, rest)) :
    rest <:+ t := by
  obtain ⟨⟨m, r⟩, hn, heq⟩ := Option.map_eq_some_iff.1 h
  simp only [Prod.mk.injEq] at heq
  rw [← heq.2]
  refine (suffix_afterReference r).trans ?_
  split at hn
  · exact (suffix_of_readNumber? hn).trans (List.suffix_cons _ _)
  · exact (suffix_of_readNumber? hn).trans (List.suffix_cons _ _)
  · exact suffix_of_readNumber? hn

theorem append_of_cutAtLastMark? {run name rest : Text}
    (h : cutAtLastMark? run = some (name, rest)) : name ++ rest = run := by
  unfold cutAtLastMark? at h
  split at h
  · next mark before hd =>
    simp only [Option.some.injEq, Prod.mk.injEq] at h
    obtain ⟨rfl, rfl⟩ := h
    have := List.takeWhile_append_dropWhile (p := Char.isAlphanum) (l := run.reverse)
    rw [hd] at this
    have := congrArg List.reverse this
    simpa using this
  · simp at h

theorem suffix_of_readName? {t name rest : Text} (h : readName? t = some (name, rest)) :
    rest <:+ t := by
  simp only [readName?] at h
  split at h
  · split at h
    · next hd =>
      have hrun : t.takeWhile isReferenceChar = t := by
        have := List.takeWhile_append_dropWhile (p := isReferenceChar) (l := t)
        rwa [hd, List.append_nil] at this
      exact ⟨name, (append_of_cutAtLastMark? h).trans hrun⟩
    · simp only [Option.some.injEq, Prod.mk.injEq] at h
      rw [← h.2]
      exact List.dropWhile_suffix _
  · simp at h

theorem suffix_of_readNamed? {t read rest : Text} (h : readNamed? t = some (read, rest)) :
    rest <:+ t := by
  obtain ⟨⟨name, r⟩, hn, heq⟩ := Option.map_eq_some_iff.1 h
  simp only [Prod.mk.injEq] at heq
  rw [← heq.2]
  exact (suffix_afterReference r).trans (suffix_of_readName? hn)

end AriaLint.Markup
