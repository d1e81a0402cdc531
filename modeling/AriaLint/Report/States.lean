import AriaLint.Role.Attributes
import AriaLint.Smell.Detect

/-!
# The states of a snippet

Every attribute of the ARIA family with its explanation, and whether a finding is about it.
-/

namespace AriaLint

/-- An attribute with its explanation; `hasIssue` when a finding is about attributes of its name. -/
structure StateSummary where
  name : Text
  value : Text
  hint : Text
  hasIssue : Bool
  deriving DecidableEq, Repr

namespace StateSummary

/-- The explanation of an attribute that the reference does not explain. -/
def defaultHint : Text := "ARIA attribute detected."

/-- The attributes that findings are about. -/
def flagged (ds : List Smell.Diagnostic) : List Text :=
  (ds.filterMap (·.attributeName)).filter (· ≠ [])

/-- The attributes of a snippet, given its findings. -/
def ofSnippet (snippet : Text) (ds : List Smell.Diagnostic) : List StateSummary :=
  (Attribute.ariaAttributes (Text.trim snippet)).map fun a =>
    ⟨a.name, a.value, (Role.stateHint? a.name).getD defaultHint, (flagged ds).contains a.name⟩

/-- The attributes of a snippet, with the findings of the detector. -/
def detect (snippet : Text) : Except Markup.MarkupError (List StateSummary) :=
  (Smell.detect .default (Text.trim snippet)).map (ofSnippet snippet)

end StateSummary
end AriaLint
