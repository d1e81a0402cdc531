import AriaLint.Text.Blank
import AriaLint.Text.Lowercase
import AriaLint.Text.Reader
import AriaLint.Text.Word

/-!
# Attributes

An attribute counts when it is written with a quoted value: a name, an equals sign, a quote, a value
without quotes, a quote.  Blanks may stand around the equals sign, and the two quotes need not be
of one kind.  Names are compared without regard to case, and a name has to start where no other
name is running: `role` is not found inside `data-role`.

Attributes are read from a text, not from a parsed tag, so a reading can start anywhere that a name
can start.  The first reading that succeeds is the one that counts.
-/

namespace AriaLint

/-- A name with its quoted value, both as written. -/
structure Attribute where
  name : Text
  value : Text
  deriving DecidableEq, Repr

namespace Attribute

/-- A quotation mark, single or double. -/
def isQuote (c : Char) : Bool := c == '"' || c == '\x27'

/-- A character that continues a name, so that no other name starts after it. -/
def continuesName (c : Char) : Bool := isWord c || c == ':' || c == '-'

/-- A name can start after this character, or at the head of a text. -/
def canStartAfter (before : Option Char) : Bool := !before.any continuesName

/-- A value up to the next quote of either kind, after its opening quote. -/
def readValue? (t : Text) : Option (Text × Text) :=
  match t.dropWhile (!isQuote ·) with
  | _ :: rest => some (t.takeWhile (!isQuote ·), rest)
  | [] => none

/-- An equals sign and a quoted value: the value, and what follows the closing quote. -/
def readAssignment? (t : Text) : Option (Text × Text) :=
  match Text.trimLeft t with
  | '=' :: t =>
    match Text.trimLeft t with
    | q :: t => if isQuote q then readValue? t else none
    | [] => none
  | _ => none

/-- The names that a reading looks for: one given name, or every name of the ARIA family. -/
inductive NameForm where
  | exactly (name : Text)
  | aria
  deriving DecidableEq, Repr

/-- A character of an ARIA attribute's name. -/
def isAriaNameChar (c : Char) : Bool :=
  let f := fold c
  ('a' ≤ f && f ≤ 'z') || ('0' ≤ c && c ≤ '9') || c == '_' || c == '-'

/-- The name at the head of a text, and what follows it. -/
def NameForm.read? : NameForm → Text → Option (Text × Text)
  | exactly name, t => Text.readWord? sameLetter name t
  | aria, t => do
    let (start, rest) ← Text.readWord? sameLetter "aria-" t
    let ending := rest.takeWhile isAriaNameChar
    if ending = [] then none else some (start ++ ending, rest.dropWhile isAriaNameChar)

/-- An attribute at the head of a text: its name has the given form. -/
def readAs? (form : NameForm) (t : Text) : Option (Attribute × Text) := do
  let (name, t) ← form.read? t
  let (value, rest) ← readAssignment? t
  some (⟨name, value⟩, rest)

/-! ## Readings get shorter -/

theorem length_trimLeft_le (t : Text) : (Text.trimLeft t).length ≤ t.length :=
  (List.dropWhile_sublist _).length_le

theorem length_of_readValue? {t value rest : Text} (h : readValue? t = some (value, rest)) :
    rest.length < t.length := by
  unfold readValue? at h
  split at h
  · next q r hd =>
    have hle : (t.dropWhile (!isQuote ·)).length ≤ t.length :=
      (List.dropWhile_sublist _).length_le
    simp only [Option.some.injEq, Prod.mk.injEq] at h
    rw [hd, List.length_cons, h.2] at hle
    exact hle
  · simp at h

theorem length_of_readAssignment? {t value rest : Text}
    (h : readAssignment? t = some (value, rest)) : rest.length < t.length := by
  unfold readAssignment? at h
  have ht := length_trimLeft_le t
  split at h
  · next u hu =>
    have hu' := length_trimLeft_le u
    split at h
    · next q v hv =>
      split at h
      · have := length_of_readValue? h
        rw [hu, List.length_cons] at ht
        rw [hv, List.length_cons] at hu'
        omega
      · simp at h
    · simp at h
  · simp at h

theorem NameForm.length_of_read? {form : NameForm} {t name rest : Text}
    (h : form.read? t = some (name, rest)) : rest.length ≤ t.length := by
  cases form with
  | exactly n =>
    rw [← Text.append_of_readWord? h]
    simp
  | aria =>
    simp only [NameForm.read?, Option.bind_eq_bind] at h
    obtain ⟨⟨start, u⟩, hu, hrest⟩ := Option.bind_eq_some_iff.1 h
    simp only at hrest
    split at hrest
    · simp at hrest
    · simp only [Option.some.injEq, Prod.mk.injEq] at hrest
      have := (List.dropWhile_sublist (l := u) isAriaNameChar).length_le
      rw [← hrest.2, ← Text.append_of_readWord? hu]
      simp only [List.length_append]
      omega

theorem length_of_readAs? {form : NameForm} {t rest : Text} {a : Attribute}
    (h : readAs? form t = some (a, rest)) : rest.length < t.length := by
  simp only [readAs?, Option.bind_eq_bind] at h
  obtain ⟨⟨name, u⟩, hu, h⟩ := Option.bind_eq_some_iff.1 h
  obtain ⟨⟨value, v⟩, hv, h⟩ := Option.bind_eq_some_iff.1 h
  simp only [Option.some.injEq, Prod.mk.injEq] at h
  rw [← h.2]
  exact Nat.lt_of_lt_of_le (length_of_readAssignment? hv) (NameForm.length_of_read? hu)

/-! ## Reading attributes -/

/-- The attributes whose name has one of the given forms, tried in order. -/
def reader (forms : List NameForm) : Reader Attribute where
  read? before t := if canStartAfter before then forms.findSome? (readAs? · t) else none
  shortens h := by
    split at h
    · obtain ⟨form, _, h⟩ := List.exists_of_findSome?_eq_some h
      exact length_of_readAs? h
    · simp at h

/-- The first attribute of the given name, in any case, with its place; with `filled`, the first
whose value is not empty. -/
def find? (name : Text) (filled : Bool) (t : Text) : Option (Found Attribute) :=
  ((reader [.exactly (Text.lower name)]).filter fun a => !filled || a.value ≠ []).find? none t

/-- The value of the first attribute of that name. -/
def value? (name t : Text) : Option Text := (find? name false t).map (·.item.value)

/-- The value of the first attribute of that name whose value is not empty. -/
def filledValue? (name t : Text) : Option Text := (find? name true t).map (·.item.value)

/-- The text has an attribute of that name. -/
def has (name t : Text) : Bool := (value? name t).isSome

/-- The text has an attribute of that name whose value is not empty. -/
def hasFilled (name t : Text) : Bool := (filledValue? name t).isSome

/-- The first attribute that has one of the given names. -/
def firstOf? (names : List Text) (t : Text) : Option Attribute :=
  ((reader (names.map .exactly)).find? none t).map Found.item

/-- The attributes with one of the given names whose value is blank. -/
def blankOf (names : List Text) (t : Text) : List Attribute :=
  ((reader (names.map .exactly)).filter fun a => a.value.all isBlank).items t

/-- The attributes of the ARIA family in a text, with their names in lower case. -/
def ariaAttributes (t : Text) : List Attribute :=
  ((reader [.aria]).items t).map fun a => { a with name := Text.lower a.name }

/-! ## Attributes without regard to quotes -/

/-- One of the names stands at the head of the text with an equals sign, and what follows the sign
and its blanks is accepted. -/
def startsAssigned (names : List Text) (accepts : Text → Bool) (t : Text) : Bool :=
  names.any fun name =>
    match Text.readWord? sameLetter name t with
    | none => false
    | some (_, t) =>
      match Text.trimLeft t with
      | '=' :: t => accepts (Text.trimLeft t)
      | _ => false

/-- One of the names is assigned somewhere in a text that follows the given character. -/
def isAssignedAfter (names : List Text) (accepts : Text → Bool) (before : Option Char) :
    Text → Bool
  | [] => false
  | c :: t =>
    (canStartAfter before && startsAssigned names accepts (c :: t)) ||
      isAssignedAfter names accepts (some c) t

/-- One of the names is assigned, with or without quotes, something that is accepted. -/
def isAssigned (names : List Text) (accepts : Text → Bool) (t : Text) : Bool :=
  isAssignedAfter names accepts none t

/-! ## The role attribute -/

/-- The explicit role: the first role that is given a value, trimmed and in lower case.  A blank
value leaves the element without one. -/
def role? (t : Text) : Option Text := do
  let value ← filledValue? "role" t
  let role := Text.lower (Text.trim value)
  if role = [] then none else some role

example : role? " data-role='tab' ROLE = \" Tab \"" = some ("tab" : Text) := by decide +kernel
example : value? "href" "href=x href='y\"" = some ("y" : Text) := by decide +kernel

end Attribute
end AriaLint
