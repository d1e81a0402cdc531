import AriaLint.Text.Quoted

/-!
# JSON documents

A document is written with one item a line, two blanks for each level of nesting, and nothing but
ASCII: a character beyond the printable ones is written as one escape for each of its UTF-16 units.
The fields of an object keep the order in which they are given.
-/

namespace AriaLint

/-- A JSON document; the numbers that reports need are counts. -/
inductive Json where
  | null
  | bool (b : Bool)
  | count (n : Nat)
  | text (t : Text)
  | list (items : List Json)
  | object (fields : List (Text × Json))

namespace Json

/-- An escape for one UTF-16 unit. -/
def escapeUnit (n : Nat) : Text := '\\' :: 'u' :: Text.hex 4 n

/-- A character inside a string. -/
def escapeChar (c : Char) : Text :=
  if c = '"' then ['\\', '"']
  else if c = '\\' then ['\\', '\\']
  else if c = '\n' then ['\\', 'n']
  else if c = '\r' then ['\\', 'r']
  else if c = '\t' then ['\\', 't']
  else if c = '\x0C' then ['\\', 'f']
  else if c = '\x08' then ['\\', 'b']
  else if 0x20 ≤ c.toNat ∧ c.toNat ≤ 0x7E then [c]
  else if c.toNat < 0x10000 then escapeUnit c.toNat
  else
    escapeUnit (0xD800 + (c.toNat - 0x10000) / 0x400) ++
      escapeUnit (0xDC00 + (c.toNat - 0x10000) % 0x400)

/-- A string between its quotes. -/
def renderText (t : Text) : Text := '"' :: t.flatMap escapeChar ++ ['"']

/-- A new line with the blanks of a level of nesting. -/
def newline (level : Nat) : Text := '\n' :: List.replicate (2 * level) ' '

mutual

/-- A document that stands at a level of nesting. -/
def renderAt (level : Nat) : Json → Text
  | null => "null"
  | bool b => if b then "true" else "false"
  | count n => Text.ofNat n
  | text t => renderText t
  | list [] => "[]"
  | list (item :: items) =>
    '[' :: newline (level + 1) ++ renderAt (level + 1) item ++ renderItems (level + 1) items ++
      newline level ++ [']']
  | object [] => ['\x7b', '\x7d']
  | object ((key, value) :: fields) =>
    '\x7b' :: newline (level + 1) ++ renderText key ++ [':', ' '] ++
      renderAt (level + 1) value ++ renderFields (level + 1) fields ++ newline level ++ ['\x7d']

/-- Items of a list behind the first. -/
def renderItems (level : Nat) : List Json → Text
  | [] => []
  | item :: items => ',' :: newline level ++ renderAt level item ++ renderItems level items

/-- Fields of an object behind the first. -/
def renderFields (level : Nat) : List (Text × Json) → Text
  | [] => []
  | (key, value) :: fields =>
    ',' :: newline level ++ renderText key ++ [':', ' '] ++ renderAt level value ++
      renderFields level fields

end

/-- A document as a text. -/
def render (j : Json) : Text := renderAt 0 j

/-- A list of strings. -/
def texts (ts : List Text) : Json := list (ts.map text)

/-- A string, or null. -/
def textOrNull : Option Text → Json
  | some t => text t
  | none => null

end Json
end AriaLint
