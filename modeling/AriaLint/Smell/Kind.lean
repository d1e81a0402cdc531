import AriaLint.Text.Basic

/-!
# Kinds of smells

A smell is a use of ARIA that is probably a mistake.  Every kind belongs to one category, and every
category is one pass over the snippet.  Most kinds about a pattern that tends to repeat are capped:
one finding names the cause, and further ones would add nothing.
-/

namespace AriaLint.Smell

/-- The passes of the detector. -/
inductive Category where
  | roleSemantics
  | interaction
  | accessibleName
  | attributes
  | containment
  deriving DecidableEq, Repr

namespace Category

/-- All categories, in the order in which the passes run. -/
def all : List Category := [roleSemantics, interaction, accessibleName, attributes, containment]

/-- The name of a category. -/
def label : Category → Text
  | roleSemantics => "role-semantics"
  | interaction => "interaction"
  | accessibleName => "accessible-name"
  | attributes => "attributes"
  | containment => "structure"

/-- The name of a category as a heading. -/
def heading : Category → Text
  | roleSemantics => "ROLE-SEMANTICS"
  | interaction => "INTERACTION"
  | accessibleName => "ACCESSIBLE-NAME"
  | attributes => "ATTRIBUTES"
  | containment => "STRUCTURE"

end Category

/-- Everything that the detector can find. -/
inductive Kind where
  | redundantRole
  | roleOverridesNative
  | presentationalFocusable
  | mouseOnlyHandler
  | expandedWithoutControls
  | tabWithExpanded
  | dialogWithoutModal
  | switchWithoutChecked
  | labelWithoutRole
  | conflictingNameSources
  | buttonWithoutName
  | interactiveWithoutName
  | emptyName
  | missingRequiredAttribute
  | discouragedAttribute
  | invalidAttributeValue
  | tabWithoutTablist
  | tabpanelWithoutTab
  | optionWithoutListbox
  | menuitemWithoutMenu
  | treeitemWithoutTree
  | rowWithoutTable
  | cellWithoutRow
  deriving DecidableEq, Repr

namespace Kind

/-- All kinds, by category. -/
def all : List Kind :=
  [redundantRole, roleOverridesNative, presentationalFocusable, mouseOnlyHandler,
   expandedWithoutControls, tabWithExpanded, dialogWithoutModal, switchWithoutChecked,
   labelWithoutRole, conflictingNameSources, buttonWithoutName, interactiveWithoutName, emptyName,
   missingRequiredAttribute, discouragedAttribute, invalidAttributeValue, tabWithoutTablist,
   tabpanelWithoutTab, optionWithoutListbox, menuitemWithoutMenu, treeitemWithoutTree,
   rowWithoutTable, cellWithoutRow]

/-- The name of a kind. -/
def label : Kind → Text
  | redundantRole => "redundant-role"
  | roleOverridesNative => "role-overrides-native"
  | presentationalFocusable => "presentational-focusable"
  | mouseOnlyHandler => "mouse-only-handler"
  | expandedWithoutControls => "expanded-without-controls"
  | tabWithExpanded => "tab-with-expanded"
  | dialogWithoutModal => "dialog-without-modal"
  | switchWithoutChecked => "switch-without-checked"
  | labelWithoutRole => "label-without-role"
  | conflictingNameSources => "conflicting-name-sources"
  | buttonWithoutName => "button-without-name"
  | interactiveWithoutName => "interactive-without-name"
  | emptyName => "empty-name"
  | missingRequiredAttribute => "missing-required-attribute"
  | discouragedAttribute => "discouraged-attribute"
  | invalidAttributeValue => "invalid-attribute-value"
  | tabWithoutTablist => "tab-without-tablist"
  | tabpanelWithoutTab => "tabpanel-without-tab"
  | optionWithoutListbox => "option-without-listbox"
  | menuitemWithoutMenu => "menuitem-without-menu"
  | treeitemWithoutTree => "treeitem-without-tree"
  | rowWithoutTable => "row-without-table"
  | cellWithoutRow => "cell-without-row"

/-- The kind of that name. -/
def ofLabel? (name : Text) : Option Kind := all.find? (·.label = name)

/-- The pass that finds smells of a kind. -/
def category : Kind → Category
  | redundantRole | roleOverridesNative | presentationalFocusable => .roleSemantics
  | mouseOnlyHandler | expandedWithoutControls | tabWithExpanded | dialogWithoutModal
  | switchWithoutChecked => .interaction
  | labelWithoutRole | conflictingNameSources | buttonWithoutName | interactiveWithoutName
  | emptyName => .accessibleName
  | missingRequiredAttribute | discouragedAttribute | invalidAttributeValue => .attributes
  | tabWithoutTablist | tabpanelWithoutTab | optionWithoutListbox | menuitemWithoutMenu
  | treeitemWithoutTree | rowWithoutTable | cellWithoutRow => .containment

/-- How many findings of a kind are reported for a snippet unless told otherwise; none for no
limit. -/
def defaultCap : Kind → Option Int
  | redundantRole | roleOverridesNative | labelWithoutRole | conflictingNameSources
  | buttonWithoutName | interactiveWithoutName | emptyName | missingRequiredAttribute
  | discouragedAttribute | invalidAttributeValue => none
  | presentationalFocusable | mouseOnlyHandler | expandedWithoutControls | tabWithExpanded
  | dialogWithoutModal | switchWithoutChecked | tabWithoutTablist | tabpanelWithoutTab
  | optionWithoutListbox | menuitemWithoutMenu | treeitemWithoutTree | rowWithoutTable
  | cellWithoutRow => some 1

theorem mem_all (k : Kind) : k ∈ all := by cases k <;> decide

end Kind
end AriaLint.Smell
