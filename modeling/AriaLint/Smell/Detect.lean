import AriaLint.Smell.AccessibleName
import AriaLint.Smell.AttributeUse
import AriaLint.Smell.Containment
import AriaLint.Smell.RoleSemantics

/-!
# Detection

The passes run one after the other, and each adds what it finds to what has been gathered before.
Only the pass on accessible names can fail, because it alone reads the text content of markup.
-/

namespace AriaLint.Smell

/-- Runs a pass over a snippet. -/
def Category.run (snippet : Text) (f : Findings) : Category → Except Markup.MarkupError Findings
  | .roleSemantics => .ok (f.addEach Smell.roleSemantics (Tag.all snippet))
  | .interaction => .ok (Smell.interaction (Tag.all snippet) f)
  | .accessibleName => Smell.accessibleName snippet f
  | .attributes => .ok (f.addEach attributeUse (Tag.all snippet))
  | .containment => .ok (f.addAll (Smell.containment (Tag.roles snippet)))

/-- Runs some passes over a snippet, in their order. -/
def runAll (passes : List Category) (snippet : Text) (f : Findings) :
    Except Markup.MarkupError Findings :=
  passes.foldlM (Category.run snippet) f

/-- The smells of a snippet; a blank one has none. -/
def detect (o : Options) (snippet : Text) : Except Markup.MarkupError (List Diagnostic) :=
  if Text.trim snippet = [] then .ok []
  else
    (runAll (Category.all.filter o.isEnabled) snippet (.start o.cap)).map Findings.inOrder

end AriaLint.Smell
