import AriaLint.Fix.TagPasses
import AriaLint.Fix.Tablist

/-!
# Fixing a snippet

The passes run one after the other, each on the text that the one before has left.  Only opening tags
are edited; all other text stays as it is.
-/

namespace AriaLint.Fix

/-- The pass over containers of tabs. -/
def addTablists (trackDepth : Bool) : Text → Result :=
  if trackDepth then addTablistsByDepth else addTablistsByFirstClose

/-- The snippet with all fixes that are wanted. -/
def apply (o : Options) (snippet : Text) : Result :=
  ((((Result.mk snippet []).andThenIf o.removeRedundantRoles (editTags removeRedundantRole?)).andThenIf
    o.addChecked (editTags (addChecked? o.checked))).andThenIf
    o.addValueRange (editTags (addValueRange? (rangeDefaults o)))).andThenIf
    o.addTablists (addTablists o.trackDepth)

end AriaLint.Fix
