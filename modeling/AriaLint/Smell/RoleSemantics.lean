import AriaLint.Role.Implicit
import AriaLint.Smell.Diagnostic
import AriaLint.Tag

/-!
# Role semantics

Explicit roles that repeat, override or hide what a native element already is.  Each tag is judged
for itself.
-/

namespace AriaLint.Smell

open Message

/-- Elements that can be focused by themselves. -/
def focusableElements : List Text := ["a", "button", "input", "select", "textarea"]

/-- Roles that take an element's meaning away. -/
def presentationalRoles : List Text := ["presentation", "none"]

/-- The text starts with an integer, which may stand behind a quote. -/
def startsWithInteger (t : Text) : Bool :=
  let t := if t.head?.any Attribute.isQuote then t.tail else t
  let t := if t.head? = some '-' then t.tail else t
  t.head?.any isDigit

/-- The tag can be focused: by its element, by an integer tab index, or because it points
somewhere. -/
def isFocusable (t : Tag) : Bool :=
  focusableElements.contains t.name ||
    Attribute.isAssigned ["tabindex"] startsWithInteger t.attrs ||
    Attribute.hasFilled "href" t.attrs

/-- An explicit role beside an implicit one: redundant when they are equal, an override when they
are not. -/
def nativeRole (t : Tag) (role : Text) : List Diagnostic :=
  match Role.implicit? t.name t.attrs with
  | none => []
  | some native =>
    if native = role then
      [{ kind := .redundantRole
         message := html
          ["Native ", tagCode t.name, " already has the implicit ", .code native,
           " role. You usually don't need ", roleCode role, " on semantic elements."]
         attributeName := none, roleName := some role, tagName := some t.name }]
    else
      [{ kind := .roleOverridesNative
         message := html
          ["Native ", tagCode t.name, " has implicit role ", .code native,
           ", but an explicit ", roleCode role, " is set. This can confuse assistive ",
           "technologies; double-check that this is the intended pattern."]
         attributeName := none, roleName := some role, tagName := some t.name }]

/-- A role that hides an element which can be focused. -/
def hiddenFocusable (t : Tag) (role : Text) : List Diagnostic :=
  if presentationalRoles.contains role && isFocusable t then
    [{ kind := .presentationalFocusable
       message := html
        ["Focusable element is using ", roleCode "presentation", " or ", roleCode "none",
         ", which can hide it from assistive technologies."]
       attributeName := none, roleName := some role, tagName := some t.name }]
  else []

/-- What the role of a tag says about its meaning. -/
def roleSemantics (t : Tag) : List Diagnostic :=
  match t.role? with
  | none => []
  | some role => nativeRole t role ++ hiddenFocusable t role

end AriaLint.Smell
