import AriaLint.Role.Catalogue

/-!
# Attributes of roles

Which attributes a role has to carry, which are usually wrong on it, what the common attributes say,
and which values an attribute admits.  An attribute that is not listed admits every value.
-/

namespace AriaLint.Role

/-- The attributes that tell a value within a range. -/
def valueRange : List Text := ["aria-valuemin", "aria-valuemax", "aria-valuenow"]

/-- Attributes that a role needs in order to expose its state. -/
def required : List (Text × List Text) :=
  [("checkbox", ["aria-checked"]),
   ("switch", ["aria-checked"]),
   ("menuitemcheckbox", ["aria-checked"]),
   ("menuitemradio", ["aria-checked"]),
   ("tab", ["aria-selected"]),
   ("option", ["aria-selected"]),
   ("slider", valueRange),
   ("spinbutton", valueRange),
   ("scrollbar", valueRange),
   ("progressbar", valueRange),
   ("combobox", ["aria-expanded", "aria-controls"])]

/-- Attributes that are usually wrong on a role. -/
def discouraged : List (Text × List Text) :=
  [("button", ["aria-selected"]),
   ("tabpanel", ["aria-selected"]),
   ("listitem", ["aria-expanded"]),
   ("checkbox", ["aria-selected"]),
   ("radio", ["aria-selected"]),
   ("link", ["aria-pressed"]),
   ("tab", ["aria-pressed"])]

/-- What the common attributes say. -/
def stateHints : List (Text × Text) :=
  [("aria-expanded",
      "Indicates whether the element controls content that can be expanded or collapsed."),
   ("aria-pressed", "Represents the pressed state of a toggle button."),
   ("aria-checked",
      "Represents the checked state of checkboxes, radio buttons, and switches."),
   ("aria-selected",
      "Represents the selected state of items in tabs, listboxes, and other composite widgets."),
   ("aria-disabled", "Marks the element as disabled and not operable."),
   ("aria-hidden", "Indicates whether the element is exposed to assistive technologies."),
   ("aria-modal", "Indicates whether a dialog is modal."),
   ("aria-controls",
      "Identifies the element(s) whose content or presence is controlled by this element."),
   ("aria-labelledby", "Identifies the element(s) that label this element."),
   ("aria-describedby", "Identifies the element(s) that describe this element.")]

/-- The values that an attribute admits, in alphabetical order. -/
def allowedValues : List (Text × List Text) :=
  [("aria-expanded", ["false", "true", "undefined"]),
   ("aria-selected", ["false", "true", "undefined"]),
   ("aria-hidden", ["false", "true", "undefined"]),
   ("aria-checked", ["false", "mixed", "true", "undefined"]),
   ("aria-pressed", ["false", "mixed", "true", "undefined"]),
   ("aria-modal", ["false", "true"])]

/-- The attributes that the role of that name needs. -/
def requiredBy (role : Text) : List Text := (required.lookup (normalize role)).getD []

/-- The attributes that are usually wrong on the role of that name. -/
def discouragedBy (role : Text) : List Text := (discouraged.lookup (normalize role)).getD []

/-- What the attribute of that name says. -/
def stateHint? (name : Text) : Option Text := stateHints.lookup (normalize name)

/-- The attribute admits the value. -/
def admits (name value : Text) : Bool :=
  match allowedValues.lookup (normalize name) with
  | some values => values.contains (normalize value)
  | none => true

end AriaLint.Role
