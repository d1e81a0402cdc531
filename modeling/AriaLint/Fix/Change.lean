import AriaLint.Markup.Content
import AriaLint.Message
import AriaLint.Tag

/-!
# Changes

Words used by the fixes.  A *change* is an entry of the log: what was done to which tag.  An *edit*
is a tag that takes another one's place, with its change.  A *result* is a text with the log of the
changes that led to it.

A pass turns a text into a result; `Result.andThen` runs a pass on the text reached so far and
extends the log.
-/

namespace AriaLint.Fix

/-- What a fix does. -/
inductive Kind where
  | removedRedundantRole
  | addedAriaChecked
  | addedValueRange
  | addedTablist
  deriving DecidableEq, Repr

/-- The name of a kind. -/
def Kind.label : Kind → Text
  | removedRedundantRole => "removed-redundant-role"
  | addedAriaChecked => "added-aria-checked"
  | addedValueRange => "added-value-range"
  | addedTablist => "added-tablist"

/-- An entry of the log: the kind, a message as a fragment of markup, the tag, its role, and the
attributes added or removed. -/
structure Change where
  kind : Kind
  message : Text
  tagName : Text
  roleName : Text
  attributeNames : List Text
  deriving DecidableEq, Repr

/-- The message without markup. -/
def Change.text (c : Change) : Except Markup.MarkupError Text := Markup.content c.message

/-- Which fixes are made, how containers are matched, and the values that are filled in. -/
structure Options where
  removeRedundantRoles : Bool
  addChecked : Bool
  addValueRange : Bool
  addTablists : Bool
  /-- A container ends at its own closing tag instead of the first one of its name. -/
  trackDepth : Bool
  checked : Text
  valueMin : Text
  valueMax : Text
  valueNow : Text
  deriving DecidableEq, Repr

/-- All fixes; controls start unchecked, and ranges go from 0 to 100, starting at 0. -/
def Options.default : Options where
  removeRedundantRoles := true
  addChecked := true
  addValueRange := true
  addTablists := true
  trackDepth := false
  checked := "false"
  valueMin := "0"
  valueMax := "100"
  valueNow := "0"

/-- A text with the log of the changes that led to it. -/
structure Result where
  text : Text
  changes : List Change
  deriving DecidableEq, Repr

namespace Result

/-- Some change was made. -/
def isChanged (r : Result) : Bool := !r.changes.isEmpty

/-- Runs a pass on the text reached so far. -/
def andThen (r : Result) (pass : Text → Result) : Result :=
  let s := pass r.text
  ⟨s.text, r.changes ++ s.changes⟩

/-- Runs a pass if it is wanted. -/
def andThenIf (r : Result) (wanted : Bool) (pass : Text → Result) : Result :=
  if wanted then r.andThen pass else r

end Result

/-- A tag that takes the place of another one, with its log entry. -/
structure Edit where
  tag : Tag
  change : Change
  deriving DecidableEq, Repr

/-- The pass that edits each tag for itself; tags without an edit and all other text stay. -/
def editTags (edit? : Tag → Option Edit) (t : Text) : Result where
  text := Tag.reader.rewrite (fun tag => (((edit? tag).map Edit.tag).getD tag).source) t
  changes := (Tag.all t).filterMap fun tag => (edit? tag).map Edit.change

/-- The tag with more attribute text, behind the attributes that it has; blanks and the slash of a
tag that closes itself stay at the end. -/
def appendAttributes (t : Tag) (addition : Text) : Tag :=
  let trimmed := Text.trimRight t.attrs
  let head := if t.isSelfClosing then trimmed.dropLast else t.attrs
  let tail := if t.isSelfClosing then '/' :: Text.trailingBlanks t.attrs else []
  { t with attrs := Text.trimRight head ++ addition ++ Text.trailingBlanks head ++ tail }

/-- An attribute as it is written into a tag. -/
def written (name value : Text) : Text := ' ' :: name ++ "=\"" ++ value ++ "\""

example : (appendAttributes ⟨"br", " a='b' / "⟩ (written "c" "d")).source =
    ("<br a='b' c=\"d\" / >" : Text) := by decide +kernel

end AriaLint.Fix
