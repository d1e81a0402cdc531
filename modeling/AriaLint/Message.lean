import AriaLint.Text.Basic

/-!
# Messages

A message is a sentence in which some words are code: a tag, an attribute, a role.  It is shown in
two forms.  `html` marks the code and escapes what markup would read as its own, so that a name
taken from a snippet cannot become markup; `plain` is the bare sentence.
-/

namespace AriaLint

/-- A part of a message. -/
inductive Inline where
  | words (t : Text)
  | code (t : Text)
  deriving DecidableEq, Repr

/-- A sentence with code in it. -/
abbrev Message := List Inline

instance : Coe String Inline := ⟨fun s => .words s⟩

namespace Message

/-- The form of a character in which markup reads nothing but that character. -/
def escape (c : Char) : Text :=
  if c = '&' then "&amp;" else if c = '<' then "&lt;" else if c = '>' then "&gt;" else [c]

/-- A part of a message as a fragment of markup. -/
def inlineHtml : Inline → Text
  | .words t => t.flatMap escape
  | .code t => "<code>" ++ t.flatMap escape ++ "</code>"

/-- A part of a message without markup. -/
def inlinePlain : Inline → Text
  | .words t => t
  | .code t => t

/-- The message as a fragment of markup. -/
def html (m : Message) : Text := m.flatMap inlineHtml

/-- The message without markup. -/
def plain (m : Message) : Text := m.flatMap inlinePlain

/-- A tag of that name. -/
def tagCode (name : Text) : Inline := .code ('<' :: name ++ ['>'])

/-- An attribute with its value. -/
def attributeCode (name value : Text) : Inline := .code (name ++ "=\"" ++ value ++ "\"")

/-- A role attribute. -/
def roleCode (role : Text) : Inline := attributeCode "role" role

theorem plain_append (m n : Message) : plain (m ++ n) = plain m ++ plain n := List.flatMap_append

end Message
end AriaLint
