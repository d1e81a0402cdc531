import AriaLint.Role.Attributes
import AriaLint.Smell.Diagnostic
import AriaLint.Tag

/-!
# Attributes

Whether a tag with a role carries the attributes that the role requires, carries none that are
usually wrong on it, and gives every attribute a value that it admits.
-/

namespace AriaLint.Smell

open Message

/-- A required attribute that is not there. -/
def missingAttribute (t : Tag) (role name : Text) : Diagnostic where
  kind := .missingRequiredAttribute
  message := html ["Element with ", roleCode role, " is missing required ", .code name, "."]
  attributeName := some name
  roleName := some role
  tagName := some t.name

/-- An attribute that is usually wrong on the role. -/
def discouragedAttribute (t : Tag) (role name : Text) : Diagnostic where
  kind := .discouragedAttribute
  message := html
    ["Attribute ", .code name, " is not typically used with ", roleCode role,
     ". Double-check if this is the right pattern."]
  attributeName := some name
  roleName := some role
  tagName := some t.name

/-- An attribute with a value that it does not admit. -/
def invalidValue (t : Tag) (role : Text) (a : Attribute) : Diagnostic where
  kind := .invalidAttributeValue
  message := html
    ["Attribute ", .code a.name, " has value ", .code ('"' :: a.value ++ ['"']),
     ", which is not a valid value for this ARIA attribute."]
  attributeName := some a.name
  roleName := some role
  tagName := some t.name

/-- What the attributes of a tag say, given its role. -/
def attributeUse (t : Tag) : List Diagnostic :=
  match t.role? with
  | none => []
  | some role =>
    let attributes := Attribute.ariaAttributes t.attrs
    let names := attributes.map Attribute.name
    ((Role.requiredBy role).filter (!names.contains ·)).map (missingAttribute t role) ++
      ((Role.discouragedBy role).filter names.contains).map (discouragedAttribute t role) ++
      (attributes.filter fun a => !Role.admits a.name a.value).map (invalidValue t role)

end AriaLint.Smell
