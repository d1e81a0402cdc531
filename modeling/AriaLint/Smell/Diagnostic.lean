import AriaLint.Markup.Content
import AriaLint.Message
import AriaLint.Smell.Kind

/-!
# Diagnostics

A finding of the detector, and the options that say which passes run and how many findings of a kind
are kept.
-/

namespace AriaLint.Smell

/-- A finding: its kind, a message as a fragment of markup, and the attribute, the role and the tag
that it is about, where there is one. -/
structure Diagnostic where
  kind : Kind
  message : Text
  attributeName : Option Text
  roleName : Option Text
  tagName : Option Text
  deriving DecidableEq, Repr

namespace Diagnostic

/-- A finding that is about nothing in particular. -/
def general (kind : Kind) (message : Text) : Diagnostic := ⟨kind, message, none, none, none⟩

/-- The pass that made the finding. -/
def category (d : Diagnostic) : Category := d.kind.category

/-- The message without markup. -/
def text (d : Diagnostic) : Except Markup.MarkupError Text := Markup.content d.message

end Diagnostic

/-- What the detector is asked to do: the passes to run, and caps that take the place of the default
ones; `none` lifts a cap. -/
structure Options where
  isEnabled : Category → Bool
  caps : List (Kind × Option Int)

namespace Options

/-- All passes, with the default caps. -/
def default : Options := ⟨fun _ => true, []⟩

/-- The cap in force for a kind. -/
def cap (o : Options) (k : Kind) : Option Int := (o.caps.lookup k).getD k.defaultCap

end Options
end AriaLint.Smell
