import AriaLint.Role.Catalogue
import AriaLint.Smell.Findings

/-!
# Interaction

Keyboard support of elements that react to the mouse, and the states that disclosures, tabs, dialogs
and switches have to tell.  The last three look at the snippet as a whole: a state told by any tag
is enough.
-/

namespace AriaLint.Smell

open Message

/-- Elements that the keyboard reaches by themselves. -/
def nativeInteractiveElements : List Text :=
  ["a", "button", "input", "textarea", "select", "option"]

/-- Attributes that handle the mouse. -/
def mouseHandlers : List Text := ["onclick", "onmousedown", "onmouseup"]

/-- Attributes that handle keys. -/
def keyHandlers : List Text := ["onkeydown", "onkeyup", "onkeypress"]

/-- The tag works without a mouse. -/
def hasKeyboardSupport (t : Tag) : Bool :=
  nativeInteractiveElements.contains t.name ||
    t.role? == some "button" ||
    (Attribute.value? "tabindex" t.attrs).any (Text.trim · == "0") ||
    Attribute.isAssigned keyHandlers (fun _ => true) t.attrs

/-- The tag gives the attribute the value true or false. -/
def tellsBoolean (name : Text) (t : Tag) : Bool :=
  (Attribute.value? name t.attrs).any fun v => (["true", "false"] : List Text).contains (Role.normalize v)

/-- A mouse handler without keyboard support. -/
def mouseOnly (t : Tag) : List Diagnostic :=
  match Attribute.firstOf? mouseHandlers t.attrs with
  | none => []
  | some handler =>
    if hasKeyboardSupport t then []
    else
      [{ kind := .mouseOnlyHandler
         message := html
          ["Element has a mouse event handler but no keyboard support. Consider using a ",
           tagCode "button", " or adding keyboard handlers and ",
           attributeCode "tabindex" "0", "."]
         attributeName := some (Text.lower handler.name), roleName := none
         tagName := some t.name }]

/-- A disclosure that does not say what it discloses. -/
def uncontrolledDisclosure (t : Tag) : List Diagnostic :=
  if tellsBoolean "aria-expanded" t && !Attribute.hasFilled "aria-controls" t.attrs then
    [{ kind := .expandedWithoutControls
       message := html
        ["Element uses ", .code "aria-expanded", " without a matching ", .code "aria-controls",
         ". Consider referencing the ID of the collapsible content with ",
         .code "aria-controls", "."]
       attributeName := some "aria-expanded", roleName := none, tagName := some t.name }]
  else []

/-- A tab that tells whether it is expanded. -/
def expandedTab (ts : List Tag) : List Diagnostic :=
  if ts.any fun t => t.role? == some "tab" && tellsBoolean "aria-expanded" t then
    [{ kind := .tabWithExpanded
       message := html
        ["Found ", .code "aria-expanded", " on an element with ", roleCode "tab",
         ". Tabs usually use ", .code "aria-selected", " to indicate the active tab."]
       attributeName := some "aria-expanded", roleName := some "tab", tagName := none }]
  else []

/-- A dialog, where no tag tells whether it is modal. -/
def dialogModality (ts : List Tag) : List Diagnostic :=
  if ts.any (·.role? == some "dialog") && !ts.any (tellsBoolean "aria-modal") then
    [{ kind := .dialogWithoutModal
       message := html
        ["Dialog found without ", .code "aria-modal", ". If this is a modal dialog, consider ",
         attributeCode "aria-modal" "true", " and managing focus."]
       attributeName := some "aria-modal", roleName := some "dialog", tagName := none }]
  else []

/-- A switch, where no tag tells whether it is on. -/
def switchState (ts : List Tag) : List Diagnostic :=
  if ts.any (·.role? == some "switch") && !ts.any (tellsBoolean "aria-checked") then
    [{ kind := .switchWithoutChecked
       message := html
        ["Element with ", roleCode "switch", " is missing ", .code "aria-checked",
         ". Switches should expose their on/off state."]
       attributeName := some "aria-checked", roleName := some "switch", tagName := none }]
  else []

/-- Adds what the tags of a snippet say about interaction.  The first two rules stop at the tag
before which their kind is full. -/
def interaction (ts : List Tag) (f : Findings) : Findings :=
  let f := f.addUntilFull .mouseOnlyHandler mouseOnly ts
  let f := f.addUntilFull .expandedWithoutControls uncontrolledDisclosure ts
  ((f.addAll (expandedTab ts)).addAll (dialogModality ts)).addAll (switchState ts)

end AriaLint.Smell
