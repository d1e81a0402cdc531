import AriaLint.Text.Blank
import AriaLint.Text.Lowercase

/-!
# The roles of ARIA

Every role that an author may write, with its category, a description and a place to read more.
Names are compared in lower case and without the blanks around them.  `find?_name` says that the
names tell the roles apart: looking up a role's name gives that role.
-/

namespace AriaLint

/-- The families that roles are sorted into. -/
inductive Role.Category where
  | liveRegion
  | landmark
  | window
  | widget
  | documentStructure
  | other
  deriving DecidableEq, Repr

namespace Role.Category

/-- All categories, in the order of the reference. -/
def all : List Category := [liveRegion, landmark, window, widget, documentStructure, other]

/-- The name of a category. -/
def label : Category → Text
  | liveRegion => "live region"
  | landmark => "landmark"
  | window => "window"
  | widget => "widget"
  | documentStructure => "document structure"
  | other => "other"

end Role.Category

/-- The reference entry of a role. -/
structure Role where
  name : Text
  category : Role.Category
  description : Text
  docUrl : Text
  /-- The native element to be preferred, as a tag. -/
  preferredElement : Option Text
  /-- What the role is good for. -/
  goodFor : List Text
  isDeprecated : Bool
  deriving DecidableEq, Repr

namespace Role

/-- A plain entry; its page is named after the role. -/
def entry (name : Text) (category : Category) (description : Text) : Role where
  name := name
  category := category
  description := description
  docUrl :=
    "https://developer.mozilla.org/en-US/docs/Web/Accessibility/ARIA/Roles/" ++ name ++ "_role"
  preferredElement := none
  goodFor := []
  isDeprecated := false

/-- All roles, by category. -/
def all : List Role :=
  [entry "alert" .liveRegion "Important, usually time-sensitive information.",
   entry "log" .liveRegion
      "Live region where new information is added and old information may disappear.",
   entry "marquee" .liveRegion "Non-essential information that changes frequently.",
   entry "status" .liveRegion "Advisory information; usually not as urgent as an alert.",
   entry "timer" .liveRegion "Numeric counter which indicates elapsed or remaining time.",
   entry "banner" .landmark
      "Site-oriented content, typically including a logo or site-level heading.",
   entry "complementary" .landmark
      "Supporting section of the page, complementary but not central.",
   entry "contentinfo" .landmark "Metadata about the page such as copyright or related links.",
   entry "form" .landmark
      "Region of the page that represents a form, when it has an accessible name.",
   { entry "main" .landmark "Main content of a document; unique and central to the page." with
      preferredElement := some "<main>" },
   { entry "navigation" .landmark "Collection of navigational links." with
      preferredElement := some "<nav>" },
   entry "region" .landmark "Noteworthy section of the page with an accessible name.",
   entry "search" .landmark "Region of the page devoted to search functionality.",
   entry "alertdialog" .window "Dialog containing an alert or time-sensitive information.",
   entry "dialog" .window "Modal or non-modal dialog window.",
   { entry "button" .widget "Clickable element that performs an action." with
      preferredElement := some "<button>",
      goodFor := ["custom button", "icon button", "JS-only click handler"] },
   entry "checkbox" .widget "Checkable input that has two or three states.",
   entry "combobox" .widget
      "Composite widget combining a text field with a list of possible values.",
   entry "grid" .widget "Widget with rows and cells, similar to a spreadsheet.",
   entry "gridcell" .widget "Cell in a grid or treegrid, similar to HTML <td>.",
   { entry "link" .widget "Interactive reference to a resource." with
      preferredElement := some "<a href>" },
   entry "listbox" .widget "List of options from which a user can select one or more.",
   entry "menu" .widget "A type of list that offers a set of choices.",
   entry "menubar" .widget "Presentation of a menu that is usually persistent and horizontal.",
   entry "menuitem" .widget "Option in a set of choices contained in a menu or menubar.",
   entry "menuitemcheckbox" .widget "Checkable menu item with true/false/mixed states.",
   entry "menuitemradio" .widget
      "Menu item that is part of a group where only one can be checked.",
   entry "meter" .widget "Represents a scalar measurement within a known range.",
   entry "option" .widget "Selectable item in a listbox, combo box, or tree.",
   entry "progressbar" .widget "Displays the progress status for a task.",
   entry "radio" .widget
      "Checkable input in a group of radio roles, where only one can be checked.",
   entry "radiogroup" .widget "Group of related radio buttons.",
   entry "scrollbar" .widget "Controls the scrolling of content within a region.",
   entry "searchbox" .widget "Text box that is intended for search.",
   entry "separator" .widget
      "Divides and distinguishes sections of content. Focusable when used as a widget.",
   entry "slider" .widget "Allows the user to select a value from a given range.",
   entry "spinbutton" .widget "Allows the user to step through a range of values.",
   entry "switch" .widget "Represents a checkbox that represents on/off values.",
   { entry "tab" .widget "A header in a tabbed interface." with
      goodFor := ["tabbed navigation"] },
   entry "tablist" .widget "Container for a set of tabs.",
   { entry "tabpanel" .widget "The panel associated with a tab." with
      goodFor := ["tab content"] },
   entry "textbox" .widget "Input that allows free-form text.",
   entry "tree" .widget "Widget that presents a hierarchical list of items.",
   entry "treegrid" .widget
      "Grid whose rows can be expanded and collapsed in a hierarchical structure.",
   entry "treeitem" .widget "Item in a tree structure.",
   entry "toolbar" .widget "Group of controls, such as buttons or checkboxes.",
   entry "tooltip" .widget "Popup that provides a description for another element.",
   entry "article" .documentStructure "Self-contained composition in a document or site.",
   entry "cell" .documentStructure "Generic cell in a tabular container.",
   entry "columnheader" .documentStructure "Header for a column of cells.",
   entry "definition" .documentStructure "Definition of a term or concept.",
   entry "document" .documentStructure
      "Section of content to be read in document/browse mode inside an application.",
   entry "feed" .documentStructure
      "Dynamic list of articles or concepts that may be loaded progressively.",
   entry "figure" .documentStructure
      "Illustration, diagram, code snippet, etc., that is referenced from the main content.",
   entry "group" .documentStructure
      "Set of user interface objects that are not included in a page summary or table of contents.",
   entry "heading" .documentStructure "Heading for a section of the page.",
   entry "img" .documentStructure
      "Element that represents a single graphical image composed of multiple elements.",
   entry "list" .documentStructure "Container for a list of items.",
   entry "listitem" .documentStructure "Item within a list.",
   entry "math" .documentStructure "Mathematical expression.",
   entry "note" .documentStructure
      "Content that is parenthetical or ancillary to the main content.",
   entry "presentation" .documentStructure
      "Removes the element's implicit semantics, synonym of none.",
   entry "none" .documentStructure "Synonym of presentation; removes semantics.",
   entry "row" .documentStructure "Row of cells in a table, grid, or treegrid.",
   entry "rowgroup" .documentStructure "Group of rows within a tabular container.",
   entry "rowheader" .documentStructure "Header for a row of cells.",
   entry "table" .documentStructure "A table of data arranged in rows and columns.",
   entry "term" .documentStructure
      "Term or concept that is defined by the associated definition.",
   entry "generic" .documentStructure "Nameless container element with no semantic meaning.",
   { entry "directory" .documentStructure
        "Deprecated: static table of contents. Use list instead." with
      isDeprecated := true,
      docUrl :=
        "https://developer.mozilla.org/en-US/docs/Web/Accessibility/ARIA/" ++
          ("Reference/Roles/directory_role" : Text) },
   entry "application" .other "Indicates the element is a web application, not a document."]

/-- The form in which names are compared: in lower case, without the blanks around. -/
def normalize (name : Text) : Text := Text.lower (Text.trim name)

/-- The role of that name. -/
def find? (name : Text) : Option Role := all.find? (·.name = normalize name)

/-- The roles of the category of that name, in the order of the reference. -/
def inCategory (label : Text) : List Role := all.filter (·.category.label = normalize label)

/-- No two roles share a name. -/
theorem nodup_names : (all.map name).Nodup := by decide +kernel

/-- Names are listed in the form in which they are compared. -/
theorem normalize_name {r : Role} (h : r ∈ all) : normalize r.name = r.name :=
  (by decide +kernel : ∀ r ∈ all, normalize r.name = r.name) r h

/-- Looking up a role's name gives that role. -/
theorem find?_name {r : Role} (h : r ∈ all) : find? r.name = some r := by
  rw [find?, normalize_name h]
  exact Text.find?_eq_of_nodup nodup_names h

end Role
end AriaLint
