import AriaLint.Fix.Apply
import AriaLint.Proofs.Document.Matching
import AriaLint.Proofs.Fix.Additions

/-!
# Tablists in documents

Making tablists by depth is a walk along the pieces of a text that skips the content of a container
once it has been dealt with.  For a well-nested document it comes to a rule about the tree, with no
positions in it: an element becomes a tablist when

* it has no role attribute,
* its content holds a tab, and
* every element around it leaves its tabs to the containers inside, that is, has a role attribute
  and is no tablist.

`withTablists` writes the document with the role put into these elements, `newTablists` lists their
tags in document order, and `apply_tablists` is the theorem that the walk yields just that.

Two things carry the induction.  Where an element around has not left its tabs to others, the rule
changes nothing (`withTablists_of_claimed`); this is what is skipped.  And where the walk does not
skip although an element around has claimed the tabs, there are none: an element without tabs holds
only elements without tabs (`tabless_of_hasTab`), since a tab of an inner element is one of the
outer element too.
-/

namespace AriaLint

open AriaLint.Fix

namespace Fix

/-! ## Tabs behind a bracket -/

/-- A tab in a part of the text is a tab in the text, when a bracket closes in front of the part. -/
theorem isSome_find?_tabRole_append {u : Text} (h : (tabRole.find? none u).isSome = true)
    (a b : Text) : (tabRole.find? none ((a ++ ['>']) ++ (u ++ b))).isSome = true := by
  obtain ⟨x, y, rfl, hy⟩ := Reader.isSome_find?_iff.1 h
  obtain ⟨⟨tab, rest⟩, hread⟩ := Option.isSome_iff_exists.1 hy
  obtain ⟨k, d, rfl, -, -, hlocal⟩ := endsAt_tabRole.reading hread
  refine Reader.isSome_find?_iff.2 ⟨a ++ ['>'] ++ x, k ++ d :: (rest ++ b), by simp, ?_⟩
  have hbefore : tabRole.read? (Reader.beforeAt none (a ++ ['>'] ++ x)) (k ++ d :: (rest ++ b)) =
      tabRole.read? (Reader.beforeAt none x) (k ++ d :: (rest ++ b)) := by
    cases x with
    | nil =>
      -- a tab at the head of the part does not miss the beginning of the text
      rw [List.append_nil, Reader.beforeAt_concat]
      rfl
    | cons c x =>
      rw [Reader.beforeAt_append, Reader.beforeAt_concat, Reader.beforeAt_cons,
        Reader.beforeAt_cons]
  rw [hbefore, hlocal]
  rfl

end Fix

/-! ## The rule -/

/-- An element with this tag leaves the tabs inside it to containers of its own. -/
def Tag.leavesTabs (t : Tag) : Bool := t.has "role" && t.role? != some "tablist"

/-- The tag with the role of a tablist behind its attributes. -/
def Tag.asTablist (t : Tag) : Tag where
  rawName := t.rawName
  attrs := Text.trimRight t.attrs ++ " role=\"tablist\"".toList ++ Text.trailingBlanks t.attrs

namespace Document

/-- Some role attribute in the document makes a tab. -/
def hasTab (d : Document) : Bool := (tabRole.find? none d.write).isSome

/-- An element with this tag and content, inside of elements with the tags `above`, becomes a
tablist. -/
def becomesTablist (above : List Tag) (t : Tag) (content : Document) : Bool :=
  !t.has "role" && content.hasTab && above.all Tag.leavesTabs

/-- The document with its new tablists as markup, inside of elements with the tags `above`. -/
def withTablists (above : List Tag) : Document → Text
  | nil => []
  | text t _ rest => t ++ rest.withTablists above
  | leaf t _ _ rest => t.source ++ rest.withTablists above
  | element t _ _ close gap _ _ content rest =>
    (if becomesTablist above t content then t.asTablist else t).source ++
      (content.withTablists (t :: above) ++ (closingTag close gap ++ rest.withTablists above))

/-- The tags of the new tablists in document order. -/
def newTablists (above : List Tag) : Document → List Tag
  | nil => []
  | text _ _ rest => rest.newTablists above
  | leaf _ _ _ rest => rest.newTablists above
  | element t _ _ _ _ _ _ content rest =>
    (if becomesTablist above t content then [t] else []) ++
      (content.newTablists (t :: above) ++ rest.newTablists above)

/-! ## Where nothing is left to do -/

/-- Where an element around claims the tabs, no tablists are made. -/
theorem withTablists_of_claimed (d : Document) {above : List Tag}
    (h : above.all Tag.leavesTabs = false) :
    d.withTablists above = d.write ∧ d.newTablists above = [] := by
  induction d generalizing above with
  | nil => exact ⟨rfl, rfl⟩
  | text t _ rest ih => exact ⟨congrArg (t ++ ·) (ih h).1, (ih h).2⟩
  | leaf t _ _ rest ih => exact ⟨congrArg (t.source ++ ·) (ih h).1, (ih h).2⟩
  | element t _ _ close gap _ _ content rest ihc ihr =>
    have hnot : becomesTablist above t content = false := by rw [becomesTablist, h, Bool.and_false]
    have hinside : (t :: above).all Tag.leavesTabs = false := by
      rw [List.all_cons, h, Bool.and_false]
    rw [withTablists, newTablists, hnot, if_neg Bool.false_ne_true, if_neg Bool.false_ne_true,
      (ihc hinside).1, (ihc hinside).2, (ihr h).1, (ihr h).2]
    exact ⟨rfl, rfl⟩

/-- No element of the document has a tab in its content. -/
def Tabless : Document → Prop
  | nil => True
  | text _ _ rest => rest.Tabless
  | leaf _ _ _ rest => rest.Tabless
  | element _ _ _ _ _ _ _ content rest => content.hasTab = false ∧ rest.Tabless

/-- A text without tabs holds only elements without tabs.  What stands around the document may not
be left out: a role attribute may begin in one text node and end in the next. -/
theorem tabless_of_find? (d : Document) {a b : Text}
    (h : tabRole.find? none (a ++ (d.write ++ b)) = none) : d.Tabless := by
  induction d generalizing a b with
  | nil => trivial
  | text t _ rest ih =>
    refine ih (a := a ++ t) (b := b) ?_
    rwa [write, List.append_assoc, ← List.append_assoc] at h
  | leaf t _ _ rest ih =>
    refine ih (a := a ++ t.source) (b := b) ?_
    rwa [write, List.append_assoc, ← List.append_assoc] at h
  | element t _ _ close gap _ _ content rest _ ihr =>
    constructor
    · cases hc : content.hasTab with
      | false => rfl
      | true =>
        have hfound := isSome_find?_tabRole_append hc (a ++ ('<' :: t.rawName ++ t.attrs))
          (closingTag close gap ++ (rest.write ++ b))
        have hsame : a ++ ((element t ‹_› ‹_› close gap ‹_› ‹_› content rest).write ++ b) =
            (a ++ ('<' :: t.rawName ++ t.attrs) ++ ['>']) ++
              (content.write ++ (closingTag close gap ++ (rest.write ++ b))) := by
          simp [write, Tag.source]
        rw [hsame] at h
        rw [h] at hfound
        exact absurd hfound (by simp)
    · refine ihr (a := a ++ (t.source ++ (content.write ++ closingTag close gap))) (b := b) ?_
      rw [← h]
      simp [write]

theorem tabless_of_hasTab {d : Document} (h : d.hasTab = false) : d.Tabless := by
  refine tabless_of_find? d (a := []) (b := []) ?_
  rw [List.nil_append, List.append_nil]
  exact Option.not_isSome_iff_eq_none.1 (by simpa [hasTab] using h)

end Document

/-! ## The walk -/

namespace Fix

/-- What belongs to a container that has been dealt with stays. -/
theorem tablistPieces_skip (qs ps : List (Piece Tag)) :
    tablistPieces (Tag.textOf qs).length (qs ++ ps) =
      (qs ++ (tablistPieces 0 ps).1, (tablistPieces 0 ps).2) := by
  induction qs with
  | nil => rfl
  | cons p qs ih =>
    cases p with
    | char c =>
      rw [Tag.textOf_char, List.length_cons, List.cons_append, tablistPieces, Nat.add_sub_cancel,
        ih]
      rfl
    | item t =>
      have hpos : (Tag.textOf (.item t :: qs)).length =
          (t.source.length - 1 + (Tag.textOf qs).length) + 1 := by
        rw [Tag.textOf_item, List.length_append, Tag.source]
        simp
        omega
      have hrest : (t.source.length - 1 + (Tag.textOf qs).length) + 1 - t.source.length =
          (Tag.textOf qs).length := by
        rw [← hpos, Tag.textOf_item, List.length_append, Nat.add_sub_cancel_left]
      rw [hpos, List.cons_append, tablistPieces, hrest, ih]
      rfl

/-- Characters stay. -/
theorem tablistPieces_chars (t : Text) (ps : List (Piece Tag)) :
    tablistPieces 0 (t.map .char ++ ps) =
      (t.map .char ++ (tablistPieces 0 ps).1, (tablistPieces 0 ps).2) := by
  induction t with
  | nil => rfl
  | cons c t ih =>
    rw [List.map_cons, List.cons_append, tablistPieces, ih]
    rfl

/-- A container of tabs ends at its own closing tag. -/
theorem closeAroundTabs?_content {t : Tag} (ht : t.IsPlain) (hopen : t.isSelfClosing = false)
    {close gap : Text} (hsame : SameName t.rawName close) (hgap : Text.IsBlankText gap)
    (content : Document) (rest : Text) :
    closeAroundTabs? t (content.write ++ (closingTag close gap ++ rest)) =
      if content.hasTab then
        some ⟨content.write.length, content.write.length + (closingTag close gap).length⟩
      else none := by
  rw [closeAroundTabs?, hopen, if_neg Bool.false_ne_true,
    Closing.matching?_content ht hsame hgap, Option.filter_some, List.take_left]
  rfl

theorem tag_addTablist {t : Tag} (h : t.isSelfClosing = false) :
    (addTablist t).tag = t.asTablist :=
  appendAttributes_of_not_selfClosing h _

section Step

variable {t : Tag} {ps : List (Piece Tag)} {close : Span}

theorem tablistPieces_of_none (h : closeAroundTabs? t (Tag.textOf ps) = none) :
    tablistPieces 0 (.item t :: ps) =
      (.item t :: (tablistPieces 0 ps).1, (tablistPieces 0 ps).2) := by
  rw [tablistPieces, h]

theorem tablistPieces_of_new (h : closeAroundTabs? t (Tag.textOf ps) = some close)
    (hrole : t.has "role" = false) :
    tablistPieces 0 (.item t :: ps) =
      (.item (addTablist t).tag :: (tablistPieces close.stop ps).1,
        (addTablist t).change :: (tablistPieces close.stop ps).2) := by
  rw [tablistPieces, h, hrole]
  rfl

/-- A container with a role leaves the tabs to others or is passed over. -/
theorem tablistPieces_of_has (h : closeAroundTabs? t (Tag.textOf ps) = some close)
    (hrole : t.has "role" = true) :
    tablistPieces 0 (.item t :: ps) =
      (.item t :: (tablistPieces (if t.leavesTabs then 0 else close.stop) ps).1,
        (tablistPieces (if t.leavesTabs then 0 else close.stop) ps).2) := by
  have hskip : (if t.role? = some "tablist".toList then close.stop else 0) =
      if t.leavesTabs then 0 else close.stop := by
    by_cases htablist : t.role? = some "tablist".toList
    · have hleaves : t.leavesTabs = false := by rw [Tag.leavesTabs, htablist]; simp
      rw [if_pos htablist, hleaves, if_neg Bool.false_ne_true]
    · have hleaves : t.leavesTabs = true := by
        rw [Tag.leavesTabs, hrole, Bool.true_and]
        exact bne_iff_ne.2 htablist
      rw [if_neg htablist, if_pos hleaves]
  rw [tablistPieces, h, hrole, ← hskip]
  rfl

end Step

end Fix

namespace Document

/-- The content and the closing tag of a container that has been dealt with stay. -/
theorem tablistPieces_content (content : Document) (close gap : Text) (ps : List (Piece Tag)) :
    tablistPieces (content.write.length + (closingTag close gap).length)
        (content.pieces ++ ((closingTag close gap).map .char ++ ps)) =
      (content.pieces ++ ((closingTag close gap).map .char ++ (tablistPieces 0 ps).1),
        (tablistPieces 0 ps).2) := by
  have hlength : content.write.length + (closingTag close gap).length =
      (Tag.textOf (content.pieces ++ (closingTag close gap).map .char)).length := by
    rw [Tag.textOf_append, textOf_pieces, Tag.textOf_map_char, List.length_append]
  rw [hlength, ← List.append_assoc, tablistPieces_skip, List.append_assoc]

/-- The walk gets through some pieces, whatever comes behind them; it leaves the text `u` and makes
tablists of the tags `ts`. -/
def Walks (ps : List (Piece Tag)) (u : Text) (ts : List Tag) : Prop :=
  ∀ qs, ∃ rs, Tag.textOf rs = u ∧
    tablistPieces 0 (ps ++ qs) =
      (rs ++ (tablistPieces 0 qs).1,
        ts.map (fun t => (addTablist t).change) ++ (tablistPieces 0 qs).2)

namespace Walks

theorem nil : Walks [] [] [] := fun _ => ⟨[], rfl, rfl⟩

theorem append {ps ps' : List (Piece Tag)} {u u' : Text} {ts ts' : List Tag} (h : Walks ps u ts)
    (h' : Walks ps' u' ts') : Walks (ps ++ ps') (u ++ u') (ts ++ ts') := by
  intro qs
  obtain ⟨rs', hrs', hwalk'⟩ := h' qs
  obtain ⟨rs, hrs, hwalk⟩ := h (ps' ++ qs)
  refine ⟨rs ++ rs', by rw [Tag.textOf_append, hrs, hrs'], ?_⟩
  rw [List.append_assoc, hwalk, hwalk', List.append_assoc, List.map_append, List.append_assoc]

theorem chars (t : Text) : Walks (t.map .char) t [] :=
  fun qs => ⟨t.map .char, Tag.textOf_map_char t, tablistPieces_chars t qs⟩

theorem leaf {t : Tag} (h : t.isSelfClosing = true) : Walks [.item t] t.source [] := by
  intro qs
  have hnone : closeAroundTabs? t (Tag.textOf qs) = none := by
    rw [closeAroundTabs?, h, if_pos rfl]
  exact ⟨[.item t], List.append_nil _, tablistPieces_of_none hnone⟩

section Element

variable {t : Tag} (ht : t.IsPlain) (hopen : t.isSelfClosing = false) {close gap : Text}
  (hsame : SameName t.rawName close) (hgap : Text.IsBlankText gap) (content : Document)

include ht hopen hsame hgap in
theorem closeAroundTabs?_textOf (qs : List (Piece Tag)) :
    closeAroundTabs? t
        (Tag.textOf (content.pieces ++ ((closingTag close gap).map .char ++ qs))) =
      if content.hasTab then
        some ⟨content.write.length, content.write.length + (closingTag close gap).length⟩
      else none := by
  rw [Tag.textOf_append, textOf_pieces, Tag.textOf_append, Tag.textOf_map_char]
  exact closeAroundTabs?_content ht hopen hsame hgap content _

include ht hopen hsame hgap in
/-- The walk goes into an element without tabs, and into one that leaves its tabs to others. -/
theorem enter (h : content.hasTab = false ∨ t.leavesTabs = true) {u : Text} {ts : List Tag}
    (hc : Walks content.pieces u ts) :
    Walks (.item t :: (content.pieces ++ (closingTag close gap).map .char))
      (t.source ++ (u ++ closingTag close gap)) ts := by
  intro qs
  obtain ⟨rs, hrs, hwalk⟩ := hc ((closingTag close gap).map .char ++ qs)
  have hend := closeAroundTabs?_textOf ht hopen hsame hgap content qs
  have hstep : tablistPieces 0
        (.item t :: (content.pieces ++ ((closingTag close gap).map .char ++ qs))) =
      (.item t :: (tablistPieces 0
          (content.pieces ++ ((closingTag close gap).map .char ++ qs))).1,
        (tablistPieces 0 (content.pieces ++ ((closingTag close gap).map .char ++ qs))).2) := by
    cases htab : content.hasTab with
    | false =>
      rw [htab, if_neg Bool.false_ne_true] at hend
      exact tablistPieces_of_none hend
    | true =>
      have hleaves : t.leavesTabs = true := h.resolve_left (by simp [htab])
      rw [htab, if_pos rfl] at hend
      rw [tablistPieces_of_has hend (Bool.and_eq_true_iff.1 hleaves).1, if_pos hleaves]
  refine ⟨.item t :: (rs ++ (closingTag close gap).map .char), ?_, ?_⟩
  · rw [Tag.textOf_item, Tag.textOf_append, hrs, Tag.textOf_map_char]
  · rw [List.cons_append, List.append_assoc, hstep, hwalk, tablistPieces_chars, List.cons_append,
      List.append_assoc]

include ht hopen hsame hgap in
/-- The walk makes a tablist of an element without a role and passes over its content. -/
theorem makeTablist (htab : content.hasTab = true) (hrole : t.has "role" = false) :
    Walks (.item t :: (content.pieces ++ (closingTag close gap).map .char))
      (t.asTablist.source ++ (content.write ++ closingTag close gap)) [t] := by
  intro qs
  have hend := closeAroundTabs?_textOf ht hopen hsame hgap content qs
  rw [htab, if_pos rfl] at hend
  refine ⟨.item t.asTablist :: (content.pieces ++ (closingTag close gap).map .char), ?_, ?_⟩
  · rw [Tag.textOf_item, Tag.textOf_append, textOf_pieces, Tag.textOf_map_char]
  · rw [List.cons_append, List.append_assoc, tablistPieces_of_new hend hrole,
      tablistPieces_content, tag_addTablist hopen, List.cons_append, List.append_assoc]
    rfl

include ht hopen hsame hgap in
/-- The walk passes over a tablist. -/
theorem passOver (htab : content.hasTab = true) (hrole : t.has "role" = true)
    (hleaves : t.leavesTabs = false) :
    Walks (.item t :: (content.pieces ++ (closingTag close gap).map .char))
      (t.source ++ (content.write ++ closingTag close gap)) [] := by
  intro qs
  have hend := closeAroundTabs?_textOf ht hopen hsame hgap content qs
  rw [htab, if_pos rfl] at hend
  refine ⟨.item t :: (content.pieces ++ (closingTag close gap).map .char), ?_, ?_⟩
  · rw [Tag.textOf_item, Tag.textOf_append, textOf_pieces, Tag.textOf_map_char]
  · rw [List.cons_append, List.append_assoc, tablistPieces_of_has hend hrole, hleaves,
      if_neg Bool.false_ne_true, tablistPieces_content, List.cons_append, List.append_assoc]
    rfl

include ht hopen hsame hgap in
/-- **The walk follows the rule at an element**, when it does so in the content. -/
theorem element {above : List Tag}
    (h : above.all Tag.leavesTabs = true ∨ content.hasTab = false)
    (hc : (t :: above).all Tag.leavesTabs = true ∨ content.Tabless →
      Walks content.pieces (content.withTablists (t :: above)) (content.newTablists (t :: above))) :
    Walks (.item t :: (content.pieces ++ (closingTag close gap).map .char))
      ((if becomesTablist above t content then t.asTablist else t).source ++
        (content.withTablists (t :: above) ++ closingTag close gap))
      ((if becomesTablist above t content then [t] else []) ++
        content.newTablists (t :: above)) := by
  cases htab : content.hasTab with
  | false =>
    have hnot : becomesTablist above t content = false := by simp [becomesTablist, htab]
    rw [hnot, if_neg Bool.false_ne_true, if_neg Bool.false_ne_true]
    exact enter ht hopen hsame hgap content (Or.inl htab) (hc (Or.inr (tabless_of_hasTab htab)))
  | true =>
    have habove : above.all Tag.leavesTabs = true := h.resolve_right (by simp [htab])
    cases hrole : t.has "role" with
    | false =>
      have hnew : becomesTablist above t content = true := by
        simp only [becomesTablist, hrole, htab, habove]
        rfl
      have hclaimed : (t :: above).all Tag.leavesTabs = false := by
        rw [List.all_cons, Tag.leavesTabs, hrole]
        rfl
      rw [hnew, if_pos rfl, if_pos rfl, (withTablists_of_claimed content hclaimed).1,
        (withTablists_of_claimed content hclaimed).2]
      exact makeTablist ht hopen hsame hgap content htab hrole
    | true =>
      have hnot : becomesTablist above t content = false := by
        simp only [becomesTablist, hrole]
        rfl
      rw [hnot, if_neg Bool.false_ne_true, if_neg Bool.false_ne_true]
      cases hleaves : t.leavesTabs with
      | true =>
        refine enter ht hopen hsame hgap content (Or.inr hleaves) (hc (Or.inl ?_))
        rw [List.all_cons, hleaves, habove]
        rfl
      | false =>
        have hclaimed : (t :: above).all Tag.leavesTabs = false := by
          rw [List.all_cons, hleaves]
          rfl
        rw [(withTablists_of_claimed content hclaimed).1,
          (withTablists_of_claimed content hclaimed).2]
        exact passOver ht hopen hsame hgap content htab hrole hleaves

end Element
end Walks

/-- **The walk follows the rule** inside of elements that leave their tabs to others, and trivially
where no element has any. -/
theorem walks_pieces (d : Document) {above : List Tag}
    (h : above.all Tag.leavesTabs = true ∨ d.Tabless) :
    Walks d.pieces (d.withTablists above) (d.newTablists above) := by
  induction d generalizing above with
  | nil => exact Walks.nil
  | text t _ rest ih => exact (Walks.chars t).append (ih h)
  | leaf t _ hself rest ih => exact (Walks.leaf hself).append (ih h)
  | element t ht hopen close gap hsame hgap content rest ihc ihr =>
    have hrest := ihr (h.imp id And.right)
    have helement := Walks.element ht hopen hsame hgap content (h.imp id And.left) ihc
    have hall := helement.append hrest
    simp only [List.append_assoc, List.cons_append] at hall
    exact hall

/-- **Making tablists by depth is exact on well-nested documents.** -/
theorem addTablistsByDepth_write (d : Document) :
    addTablistsByDepth d.write =
      ⟨d.withTablists [], (d.newTablists []).map fun t => (addTablist t).change⟩ := by
  have hnone : ([] : List Tag).all Tag.leavesTabs = true := rfl
  obtain ⟨rs, hrs, hwalk⟩ := walks_pieces d (Or.inl hnone) []
  have hend : tablistPieces 0 [] = ([], []) := rfl
  rw [addTablistsByDepth, pieces_of_write, ← List.append_nil d.pieces, hwalk, hend]
  simp only [List.append_nil, hrs]

/-- **With the pass over containers of tabs alone, and containers that end at their own closing
tags, fixing a well-nested document makes tablists of the elements that the rule names**, logs one
change for each of them in document order, and leaves everything else. -/
theorem apply_tablists_write (o : Options) (d : Document) :
    apply { o with
        removeRedundantRoles := false
        addChecked := false
        addValueRange := false
        addTablists := true
        trackDepth := true } d.write =
      ⟨d.withTablists [], (d.newTablists []).map fun t => (addTablist t).change⟩ :=
  addTablistsByDepth_write d

/-- A menu leaves its tabs to the list inside. -/
example :
    (element ⟨"nav", " role='menu'"⟩ (by decide +kernel) (by decide +kernel) "nav" []
      (List.forall₂_same.2 fun _ _ => rfl) (by decide +kernel)
      (element ⟨"ul", " "⟩ (by decide +kernel) (by decide +kernel) "ul" []
        (List.forall₂_same.2 fun _ _ => rfl) (by decide +kernel)
        (leaf ⟨"li", " role='tab'/"⟩ (by decide +kernel) (by decide +kernel) nil) nil)
      nil).withTablists [] =
    "<nav role='menu'><ul role=\"tablist\" ><li role='tab'/></ul></nav>" := by
  decide +kernel

end Document
end AriaLint
