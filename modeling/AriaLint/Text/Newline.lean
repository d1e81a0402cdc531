import AriaLint.Text.Basic

/-!
# Line ends

A file may end its lines with a line feed, a carriage return, or both.  A text that has been read
knows the line feed only.

On a terminal more characters than these end a line.  `lastLine` is the line that is seen last.
-/

namespace AriaLint.Text

/-- Every line end becomes a single line feed. -/
def unifyNewlines : Text → Text
  | '\r' :: '\n' :: rest => '\n' :: unifyNewlines rest
  | c :: rest => (if c = '\r' then '\n' else c) :: unifyNewlines rest
  | [] => []

/-- A character that ends a line, when all of Unicode is taken into account. -/
def isLineEnd (c : Char) : Bool :=
  (['\n', '\r', '\x0B', '\x0C', '\x1C', '\x1D', '\x1E', '\u0085', '\u2028', '\u2029'] :
    List Char).contains c

/-- The text without the line end that it closes with. -/
def withoutLineEnd (t : Text) : Text :=
  match t.reverse with
  | '\n' :: '\r' :: before => before.reverse
  | c :: before => if isLineEnd c then before.reverse else t
  | [] => []

/-- The last line, without its line end. -/
def lastLine (t : Text) : Text :=
  ((withoutLineEnd t).reverse.takeWhile (!isLineEnd ·)).reverse

example : lastLine "usage\na\u2028b c\r\n" = ("b c" : Text) := by decide +kernel

end AriaLint.Text
