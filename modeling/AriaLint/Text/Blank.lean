import AriaLint.Text.Basic

/-!
# Blanks

The white space of Unicode, the four information separators included; the zero width characters
U+200B and U+FEFF are not blank.  `trim` removes blanks at both ends of a text, `removeBlanks`
everywhere.
-/

namespace AriaLint

/-- The white space characters. -/
def blankStretches : Stretches :=
  [(0x09, 0x0D), (0x1C, 0x20), (0x85, 0x85), (0xA0, 0xA0), (0x1680, 0x1680), (0x2000, 0x200A),
   (0x2028, 0x2029), (0x202F, 0x202F), (0x205F, 0x205F), (0x3000, 0x3000)]

/-- A character is blank when it is white space. -/
def isBlank (c : Char) : Bool := blankStretches.has c

namespace Text

/-- The text without the blanks at its head. -/
def trimLeft (t : Text) : Text := t.dropWhile isBlank

/-- The text without the blanks at its end. -/
def trimRight (t : Text) : Text := (t.reverse.dropWhile isBlank).reverse

/-- The text without the blanks at either end. -/
def trim (t : Text) : Text := trimRight (trimLeft t)

/-- The blanks that `trimRight` takes off. -/
def trailingBlanks (t : Text) : Text := (t.reverse.takeWhile isBlank).reverse

/-- The text without any blank. -/
def removeBlanks (t : Text) : Text := t.filter fun c => !isBlank c

/-- Trimming on the right cuts a text in two. -/
@[simp] theorem trimRight_append_trailingBlanks (t : Text) :
    trimRight t ++ trailingBlanks t = t := by
  simp only [trimRight, trailingBlanks]
  rw [← List.reverse_append, List.takeWhile_append_dropWhile, List.reverse_reverse]

@[simp] theorem removeBlanks_append (t u : Text) :
    removeBlanks (t ++ u) = removeBlanks t ++ removeBlanks u := List.filter_append t u

/-- No blank is left. -/
theorem not_isBlank_of_mem_removeBlanks {t : Text} {c : Char} (h : c ∈ removeBlanks t) :
    isBlank c = false := by
  simpa using (List.mem_filter.1 h).2

end Text
end AriaLint
