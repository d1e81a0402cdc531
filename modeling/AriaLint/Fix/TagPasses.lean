import AriaLint.Fix.Change
import AriaLint.Role.Attributes
import AriaLint.Role.Implicit

/-!
# Fixes of single tags

A redundant role goes, and controls that have to tell a state or a range get one.  Each of these
passes edits every tag for itself.
-/

namespace AriaLint.Fix

open Message

/-- The attribute text without the first role that is given a value, and without the blanks before
it. -/
def withoutRole (attrs : Text) : Text :=
  match Attribute.find? "role" true attrs with
  | some f => Text.trimRight f.before ++ f.after
  | none => attrs

/-- Removes a role that the element has anyway. -/
def removeRedundantRole? (t : Tag) : Option Edit :=
  match Role.implicit? t.name t.attrs with
  | none => none
  | some native =>
    if t.role? = some native then
      some
        { tag := { t with attrs := withoutRole t.attrs }
          change :=
            { kind := .removedRedundantRole
              message := html
                ["Removed redundant ", roleCode native, " from ", tagCode t.name,
                 " because the element already has that implicit role."]
              tagName := t.name, roleName := native, attributeNames := ["role"] } }
    else none

/-- Roles that have to tell whether they are checked. -/
def checkedRoles : List Text := ["switch", "checkbox"]

/-- Roles that have to tell their value and its range. -/
def rangeRoles : List Text := ["slider", "spinbutton"]

/-- Adds the checked state to a control without one. -/
def addChecked? (value : Text) (t : Tag) : Option Edit :=
  match t.role? with
  | none => none
  | some role =>
    if !checkedRoles.contains role || t.has "aria-checked" then none
    else
      some
        { tag := appendAttributes t (written "aria-checked" value)
          change :=
            { kind := .addedAriaChecked
              message := html
                ["Added default ", attributeCode "aria-checked" value, " to element with ",
                 roleCode role, " so its state is exposed to assistive technologies."]
              tagName := t.name, roleName := role, attributeNames := ["aria-checked"] } }

/-- The attributes of a range with the values to be filled in. -/
def rangeDefaults (o : Options) : List (Text × Text) :=
  Role.valueRange.zip [o.valueMin, o.valueMax, o.valueNow]

/-- Names as code, with commas between them. -/
def listed (names : List Text) : Message := (names.map Inline.code).intersperse (.words ", ")

/-- Adds what is missing of the range to a control that has one. -/
def addValueRange? (defaults : List (Text × Text)) (t : Tag) : Option Edit :=
  match t.role? with
  | none => none
  | some role =>
    let missing := defaults.filter fun d => !t.has d.1
    if !rangeRoles.contains role || missing.isEmpty then none
    else
      some
        { tag := appendAttributes t (missing.flatMap fun d => written d.1 d.2)
          change :=
            { kind := .addedValueRange
              message := html
                (.words "Added default " :: listed (missing.map Prod.fst) ++
                 [.words " to element with ", roleCode role,
                  .words " so its value range is communicated."])
              tagName := t.name, roleName := role
              attributeNames := missing.map Prod.fst } }

end AriaLint.Fix
