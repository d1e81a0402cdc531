import AriaLint.Smell.Diagnostic

/-!
# Containment

Roles that belong inside another one.  Containment is judged by presence: some container role has to
stand anywhere in the snippet.
-/

namespace AriaLint.Smell

open Message

/-- A rule: the roles that are owned, the roles that may contain them, and the message for a snippet
with the former and without the latter. -/
structure ContainmentRule where
  kind : Kind
  owned : List Text
  containers : List Text
  message : Message

/-- The rules, in the order in which they are applied. -/
def containmentRules : List ContainmentRule :=
  [⟨.tabWithoutTablist, ["tab"], ["tablist"],
    ["Found elements with ", roleCode "tab", " but no ", roleCode "tablist",
     ". Tabs are usually contained in a tablist element."]⟩,
   ⟨.tabpanelWithoutTab, ["tabpanel"], ["tab"],
    ["Found elements with ", roleCode "tabpanel", " but no ", roleCode "tab",
     ". Tab panels are usually controlled by tabs."]⟩,
   ⟨.optionWithoutListbox, ["option"], ["listbox", "combobox"],
    ["Found elements with ", roleCode "option", " but no ", roleCode "listbox", " or ",
     roleCode "combobox", ". Options are usually children of these composite widgets."]⟩,
   ⟨.menuitemWithoutMenu, ["menuitem", "menuitemcheckbox", "menuitemradio"],
    ["menu", "menubar"],
    ["Found menu item roles (such as ", roleCode "menuitem", ") but no ", roleCode "menu", " or ",
     roleCode "menubar", ". Menu items are usually contained in menu or menubar elements."]⟩,
   ⟨.treeitemWithoutTree, ["treeitem"], ["tree"],
    ["Found elements with ", roleCode "treeitem", " but no ", roleCode "tree",
     ". Tree items are usually contained in a tree widget."]⟩,
   ⟨.rowWithoutTable, ["row"], ["table", "grid", "treegrid"],
    ["Found elements with ", roleCode "row", " but no table, grid, or treegrid role in the ",
     "snippet. Rows are usually part of these composite widgets."]⟩,
   ⟨.cellWithoutRow, ["cell", "gridcell"], ["row"],
    ["Found elements with ", roleCode "cell", " or ", roleCode "gridcell", " but no ",
     roleCode "row", " in the snippet. Cells are usually children of rows."]⟩]

/-- The finding of a rule among the roles of a snippet: it is about the first owned role, in the
order of the rule, that the snippet has. -/
def ContainmentRule.finding? (rule : ContainmentRule) (roles : List Text) : Option Diagnostic :=
  match rule.owned.find? roles.contains with
  | none => none
  | some role =>
    if rule.containers.any roles.contains then none
    else some ⟨rule.kind, rule.message.html, none, some role, none⟩

/-- What the roles of a snippet say about containment. -/
def containment (roles : List Text) : List Diagnostic :=
  containmentRules.filterMap (·.finding? roles)

end AriaLint.Smell
