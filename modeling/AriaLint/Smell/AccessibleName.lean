import AriaLint.Closing
import AriaLint.Role.Implicit
import AriaLint.Smell.Interaction

/-!
# Accessible names

Controls without a name, elements with two sources for it, and name attributes that are empty.  A
control is named by its visible text up to the first closing tag of its element's name.
-/

namespace AriaLint

open Markup in
/-- The visible text between a tag and the first closing tag of its name; none where there is no
such closing tag, or the tag closes itself. -/
def Occurrence.innerText (o : Occurrence) (t : Text) : Except MarkupError (Option Text) :=
  if o.tag.isSelfClosing then .ok none
  else match Closing.first? o.tag.name (o.after t) with
    | none => .ok none
    | some f => (visibleText f.before).map some

namespace Smell

open Message

/-- Roles of controls that need a name. -/
def rolesNeedingName : List Text :=
  ["button", "link", "switch", "checkbox", "radio", "menuitem", "menuitemcheckbox",
   "menuitemradio", "tab", "option"]

/-- Attributes that name an element. -/
def nameAttributes : List Text := ["aria-label", "aria-labelledby", "title"]

/-- One of the attributes that name an element is there. -/
def hasNameAttribute (t : Tag) : Bool := nameAttributes.any t.has

/-- A label on an element without meaning, and a label from two sources. -/
def labelSources (t : Tag) : List Diagnostic :=
  let hasLabel := t.has "aria-label"
  let hasLabelledby := t.has "aria-labelledby"
  let isBare := t.role?.isNone && (Role.implicit? t.name t.attrs).isNone
  (if (hasLabel || hasLabelledby) && isBare then
    [{ kind := .labelWithoutRole
       message := html
        ["Element ", tagCode t.name, " has ", .code "aria-label", " or ",
         .code "aria-labelledby", " but no semantic role. Consider adding a role or using a ",
         "native element (for example, ", tagCode "button", ", ", tagCode "nav", ", or ",
         tagCode "main", ")."]
       attributeName := some (if hasLabel then "aria-label" else "aria-labelledby")
       roleName := none, tagName := some t.name }]
   else []) ++
  (if hasLabel && hasLabelledby then
    [{ kind := .conflictingNameSources
       message := html
        ["Element ", tagCode t.name, " uses ", .code "aria-label", " and ",
         .code "aria-labelledby", " together. Elements should have a single accessible name ",
         "source; choose one."]
       attributeName := some "aria-labelledby", roleName := none, tagName := some t.name }]
   else [])

/-- A button with a closing tag, but without a name attribute and without visible text. -/
def namelessButton (snippet : Text) (o : Occurrence) :
    Except Markup.MarkupError (List Diagnostic) :=
  if o.tag.name ≠ "button" ∨ hasNameAttribute o.tag then .ok []
  else
    (o.innerText snippet).map fun inner =>
      if inner = some [] then
        [{ kind := .buttonWithoutName
           message := html
            ["Native ", tagCode "button", " does not have an accessible name. Add visible text ",
             "inside the button, or use ", .code "aria-label", ", ", .code "aria-labelledby",
             ", or ", .code "title", "."]
           attributeName := none, roleName := some "button", tagName := some o.tag.name }]
      else []

/-- A control made from an element that is none by itself, without a name attribute and without
visible text. -/
def namelessControl (snippet : Text) (o : Occurrence) :
    Except Markup.MarkupError (List Diagnostic) :=
  match o.tag.role? with
  | none => .ok []
  | some role =>
    if !rolesNeedingName.contains role || nativeInteractiveElements.contains o.tag.name ||
        hasNameAttribute o.tag then .ok []
    else
      (o.innerText snippet).map fun inner =>
        if inner.getD [] = [] then
          [{ kind := .interactiveWithoutName
             message := html
              ["Interactive element ", tagCode o.tag.name, " with ", roleCode role,
               " does not have an accessible name. Add visible text, ", .code "aria-label",
               ", or ", .code "aria-labelledby", "."]
             attributeName := none, roleName := some role, tagName := some o.tag.name }]
        else []

/-- The attributes of a snippet that give an empty name, wherever they stand. -/
def emptyNames (snippet : Text) : List Diagnostic :=
  (Attribute.blankOf ["aria-label", "aria-labelledby"] snippet).map fun a =>
    let name := Text.lower a.name
    { kind := .emptyName
      message := html
        ["Attribute ", .code name, " is present but empty. Elements should not use an empty ",
         "accessible name; provide meaningful text or remove the attribute."]
      attributeName := some name, roleName := none, tagName := none }

/-- Adds what a snippet says about the names of its elements. -/
def accessibleName (snippet : Text) (f : Findings) : Except Markup.MarkupError Findings := do
  let os := Occurrence.all snippet
  let f := f.addEach labelSources (os.map (·.tag))
  let f ← os.foldlM (fun f o => (namelessButton snippet o).map f.addAll) f
  let f ← os.foldlM (fun f o => (namelessControl snippet o).map f.addAll) f
  return f.addAll (emptyNames snippet)

end Smell
end AriaLint
