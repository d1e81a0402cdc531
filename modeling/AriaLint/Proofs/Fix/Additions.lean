import AriaLint.Fix.Apply
import AriaLint.Proofs.Fix.Containers
import AriaLint.Proofs.Tag.Extension

/-!
# The passes that add attributes

All passes but the first one add attributes to tags and do nothing else.  Each of them is described
here by the pieces of its text: the new text is made up of the old pieces, some of them extended by
an addition of the pass (`Tag.Extended`).  By `Tag.pieces_textOf_of_extended` these *are* the pieces
of the new text.

For the passes that edit every tag for itself this is read off the edit.  For containers that end at
their own closing tag it is an induction along `tablistPieces`.  Containers that end at the first
closing tag take the longest argument, because their reader may start inside a tag and may cut a
name short.  What saves the statement is that a container still covers a whole tag, or the end of
one, so that the addition stands in front of the tail of a tag in either case.
-/

namespace AriaLint
namespace Fix

open Tag

/-! ## Additions -/

theorem isTail_of_isBlankText {y : Text} (h : Text.IsBlankText y) : IsTail y :=
  fun c hc => Or.inl (h c hc)

theorem appendAttributes_of_not_selfClosing {t : Tag} (h : t.isSelfClosing = false) (add : Text) :
    appendAttributes t add =
      { t with attrs := Text.trimRight t.attrs ++ add ++ Text.trailingBlanks t.attrs } := by
  simp [appendAttributes, h]

/-- **Where attributes are appended**: in front of the blanks that the attribute text ends with, and
of the slash in a tag that closes itself. -/
theorem attrs_appendAttributes (t : Tag) (add : Text) :
    ∃ x gap slash ending, t.attrs = x ++ (gap ++ slash ++ ending) ∧
      (appendAttributes t add).attrs = x ++ add ++ (gap ++ slash ++ ending) ∧
      Text.IsBlankText gap ∧ slash = (if t.isSelfClosing then ['/'] else []) ∧
      Text.IsBlankText ending := by
  cases h : t.isSelfClosing with
  | false =>
    refine ⟨Text.trimRight t.attrs, [], [], Text.trailingBlanks t.attrs, ?_, ?_,
      List.forall_mem_nil _, rfl,
      Text.isBlankText_trailingBlanks _⟩
    · exact (Text.trimRight_append_trailingBlanks t.attrs).symm
    · rw [appendAttributes_of_not_selfClosing h]
      rfl
  | true =>
    have hlast : (Text.trimRight t.attrs).getLast? = some '/' := eq_of_beq h
    obtain ⟨head, hhead⟩ := List.getLast?_eq_some_iff.1 hlast
    refine ⟨Text.trimRight head, Text.trailingBlanks head, ['/'], Text.trailingBlanks t.attrs, ?_,
      ?_, Text.isBlankText_trailingBlanks _, rfl, Text.isBlankText_trailingBlanks _⟩
    · rw [← List.append_assoc, ← List.append_assoc, Text.trimRight_append_trailingBlanks, ← hhead,
        Text.trimRight_append_trailingBlanks]
    · simp [appendAttributes, h, hhead]

/-- **Attributes are appended in front of the tail.** -/
theorem extends_appendAttributes (t : Tag) (add : Text) :
    Extends add t (appendAttributes t add) := by
  obtain ⟨x, gap, slash, ending, hattrs, happended, hgap, hslash, hending⟩ :=
    attrs_appendAttributes t add
  refine ⟨rfl, x, gap ++ slash ++ ending, hattrs, happended, fun c hc => ?_, fun hself => ?_⟩
  · rcases List.mem_append.1 hc with hc | hc
    · rcases List.mem_append.1 hc with hc | hc
      · exact Or.inl (hgap c hc)
      · rw [hslash] at hc
        split at hc
        · exact Or.inr (List.mem_singleton.1 hc)
        · simp at hc
    · exact Or.inl (hending c hc)
  · rw [hslash, if_pos hself]
    simp

/-- Nothing can be added to any tag. -/
theorem extends_nil (t : Tag) : Extends [] t t := by
  obtain ⟨-, x, y, hx, -, htail⟩ := extends_appendAttributes t []
  exact ⟨rfl, x, y, hx, by rw [List.append_nil, hx], htail⟩

/-- The last character that is no blank tells whether a tag closes itself. -/
theorem endsWithSlash_append_cons {a b : Text} {c : Char} (hc : isBlank c = false)
    (hb : Text.IsBlankText b) : Tag.endsWithSlash (a ++ c :: b) = (c == '/') := by
  have hblank : ∀ d ∈ b.reverse, isBlank d = true := fun d hd => hb d (List.mem_reverse.1 hd)
  have htrim : Text.trimRight (a ++ c :: b) = a ++ [c] := by
    rw [Text.trimRight, List.reverse_append, List.reverse_cons, List.append_assoc,
      List.dropWhile_append_of_pos hblank]
    simp [hc]
  rw [Tag.endsWithSlash, htrim, List.getLast?_concat]
  rfl

/-- A tag closes itself as before, if the addition ends with neither a blank nor a slash. -/
theorem isSelfClosing_appendAttributes (t : Tag) {add : Text} {c : Char}
    (hlast : add.getLast? = some c) (hblank : isBlank c = false) (hslash : c ≠ '/') :
    (appendAttributes t add).isSelfClosing = t.isSelfClosing :=
  (extends_appendAttributes t add).isSelfClosing_eq hlast hblank hslash

theorem isAddition_written {name value : Text} (hname : '>' ∉ name) (hvalue : '>' ∉ value) :
    IsAddition (written name value) where
  space := rfl
  unclosed := by simp [written, hname, hvalue]

/-- Attributes in a row are an addition when there is one at least. -/
theorem isAddition_flatMap_written {ds : List (Text × Text)} (hne : ds ≠ [])
    (h : ∀ d ∈ ds, '>' ∉ d.1 ∧ '>' ∉ d.2) :
    IsAddition (ds.flatMap fun d => written d.1 d.2) where
  space := by
    obtain ⟨d, ds, rfl⟩ := List.exists_cons_of_ne_nil hne
    rfl
  unclosed := by
    intro hmem
    obtain ⟨d, hd, hclose⟩ := List.mem_flatMap.1 hmem
    exact (isAddition_written (h d hd).1 (h d hd).2).unclosed hclose

/-! ## Passes that edit every tag for itself -/

/-- The tag with its edit, if it has one. -/
def edited (edit? : Tag → Option Edit) (t : Tag) : Tag := ((edit? t).map Edit.tag).getD t

theorem edited_of_none {edit? : Tag → Option Edit} {t : Tag} (h : edit? t = none) :
    edited edit? t = t := by
  rw [edited, h]
  rfl

theorem edited_of_some {edit? : Tag → Option Edit} {t : Tag} {e : Edit} (h : edit? t = some e) :
    edited edit? t = e.tag := by
  rw [edited, h]
  rfl

/-- The piece with its tag edited. -/
def editPiece (edit? : Tag → Option Edit) : Piece Tag → Piece Tag
  | .char c => .char c
  | .item t => .item (edited edit? t)

theorem text_editTags (edit? : Tag → Option Edit) (t : Text) :
    (editTags edit? t).text = textOf ((pieces t).map (editPiece edit?)) := by
  show (pieces t).flatMap (Piece.write _) = ((pieces t).map (editPiece edit?)).flatMap _
  rw [List.flatMap_map]
  congr 1
  funext p
  cases p with
  | char c => rfl
  | item t => rfl

/-- Every edit is an addition of a certain kind. -/
def Adds (A : Text → Prop) (edit? : Tag → Option Edit) : Prop :=
  ∀ t e, edit? t = some e → ∃ add, A add ∧ Extends add t e.tag

theorem extended_editPiece {A : Text → Prop} {edit? : Tag → Option Edit} (h : Adds A edit?)
    (p : Piece Tag) : Extended A p (editPiece edit? p) := by
  cases p with
  | char c => exact Extended.char c
  | item t =>
    cases he : edit? t with
    | none =>
      rw [editPiece, edited_of_none he]
      exact Extended.kept t
    | some e =>
      obtain ⟨add, hadd, hext⟩ := h t e he
      rw [editPiece, edited_of_some he]
      exact Extended.added hadd hext

theorem forall₂_extended_editPiece {A : Text → Prop} {edit? : Tag → Option Edit}
    (h : Adds A edit?) (ps : List (Piece Tag)) :
    List.Forall₂ (Extended A) ps (ps.map (editPiece edit?)) :=
  List.forall₂_map_right_iff.2 (List.forall₂_same.2 fun p _ => extended_editPiece h p)

/-- The pieces of the new text are the old ones, edited. -/
theorem pieces_editTags {A : Text → Prop} (hA : ∀ add, A add → IsAddition add)
    {edit? : Tag → Option Edit} (h : Adds A edit?) (t : Text) :
    pieces (editTags edit? t).text = (pieces t).map (editPiece edit?) := by
  rw [text_editTags]
  exact pieces_textOf_of_extended hA (forall₂_extended_editPiece h _)

/-- The tags of the new text are the old ones, edited. -/
theorem all_editTags {A : Text → Prop} (hA : ∀ add, A add → IsAddition add)
    {edit? : Tag → Option Edit} (h : Adds A edit?) (t : Text) :
    all (editTags edit? t).text = (all t).map (edited edit?) := by
  show (pieces _).filterMap Piece.item? = ((pieces t).filterMap Piece.item?).map _
  rw [pieces_editTags hA h, List.filterMap_map, List.map_filterMap]
  congr 1
  funext p
  cases p with
  | char c => rfl
  | item t => rfl

/-- The tags of a text whose pieces are extended. -/
theorem exists_of_mem_all_extended {A : Text → Prop} (hA : ∀ add, A add → IsAddition add)
    {t : Text} {ps : List (Piece Tag)} (h : List.Forall₂ (Extended A) (pieces t) ps) {u : Tag}
    (hu : u ∈ all (textOf ps)) : ∃ tag ∈ all t, u = tag ∨ ∃ add, A add ∧ Extends add tag u := by
  rw [mem_all_iff, pieces_textOf_of_extended hA h] at hu
  obtain ⟨q, hq, hqu⟩ := exists_of_forall₂_right h hu
  cases hqu with
  | kept tag => exact ⟨u, mem_all_iff.2 hq, Or.inl rfl⟩
  | @added tag v add hadd hext => exact ⟨tag, mem_all_iff.2 hq, Or.inr ⟨add, hadd, hext⟩⟩

/-- The additions of the pass over ranges: some of the attributes with their values. -/
def SomeOf (defaults : List (Text × Text)) (add : Text) : Prop :=
  ∃ ds, ds ≠ [] ∧ ds ⊆ defaults ∧ add = ds.flatMap fun d => written d.1 d.2

theorem tag_of_addChecked? {value : Text} {t : Tag} {e : Edit} (h : addChecked? value t = some e) :
    e.tag = appendAttributes t (written "aria-checked" value) := by
  unfold addChecked? at h
  split at h
  · exact absurd h (by simp)
  · split at h
    · exact absurd h (by simp)
    · obtain rfl := Option.some.inj h
      rfl

theorem tag_of_addValueRange? {defaults : List (Text × Text)} {t : Tag} {e : Edit}
    (h : addValueRange? defaults t = some e) :
    ∃ ds, ds ≠ [] ∧ ds ⊆ defaults ∧
      e.tag = appendAttributes t (ds.flatMap fun d => written d.1 d.2) := by
  unfold addValueRange? at h
  split at h
  · exact absurd h (by simp)
  · dsimp only at h
    split at h
    · exact absurd h (by simp)
    · next hcond =>
      obtain rfl := Option.some.inj h
      refine ⟨_, ?_, List.filter_subset_self _, rfl⟩
      intro hnil
      rw [hnil] at hcond
      simp at hcond

theorem adds_addChecked (value : Text) :
    Adds (· = written "aria-checked" value) (addChecked? value) := by
  intro t e h
  rw [tag_of_addChecked? h]
  exact ⟨_, rfl, extends_appendAttributes t _⟩

theorem adds_addValueRange (defaults : List (Text × Text)) :
    Adds (SomeOf defaults) (addValueRange? defaults) := by
  intro t e h
  obtain ⟨ds, hne, hsub, htag⟩ := tag_of_addValueRange? h
  rw [htag]
  exact ⟨_, ⟨ds, hne, hsub, rfl⟩, extends_appendAttributes t _⟩

/-! ## Containers of tabs -/

/-- What makes a tag a tablist. -/
def tablistRole : Text := written "role" "tablist"

theorem isAddition_tablistRole : ∀ add, add = tablistRole → IsAddition add := by
  rintro add rfl
  exact isAddition_written (by decide) (by decide)

theorem extends_addTablist (t : Tag) : Extends tablistRole t (addTablist t).tag :=
  extends_appendAttributes t _

/-- Containers up to their own closing tag. -/
theorem forall₂_extended_tablistPieces (skip : Nat) (ps : List (Piece Tag)) :
    List.Forall₂ (Extended (· = tablistRole)) ps (tablistPieces skip ps).1 := by
  fun_induction tablistPieces skip ps with
  | case1 skip => exact List.Forall₂.nil
  | case2 skip c ps qs cs hrest ih =>
    rw [hrest] at ih
    exact List.Forall₂.cons (Extended.char c) ih
  | case3 skip t ps qs cs hrest ih =>
    rw [hrest] at ih
    exact List.Forall₂.cons (Extended.kept t) ih
  | case4 t ps hclose qs cs hrest ih =>
    rw [hrest] at ih
    exact List.Forall₂.cons (Extended.kept t) ih
  | case5 t ps close hclose hrole qs cs hrest ih =>
    rw [hrest] at ih
    exact List.Forall₂.cons (Extended.added rfl (extends_addTablist t)) ih
  | case6 t ps close hclose hrole qs cs hrest ih =>
    rw [hrest] at ih
    exact List.Forall₂.cons (Extended.kept t) ih

/-- A container with its tag edited, when the scan reads the same stretch as another tag. -/
theorem exists_extended_edited {t rest : Text} {c : Container} {tag : Tag}
    (hread : Tag.read? t = some (tag, rest)) (hname : ∀ d ∈ c.tag.rawName, isNameChar d = true)
    (hsource : tag.source = c.tag.source) :
    ∃ p, Extended (· = tablistRole) (.item tag) p ∧
      c.edited = p.write source ++ c.content := by
  unfold Container.edited Container.edit?
  by_cases hrole : c.tag.has "role" = true
  · refine ⟨.item tag, Extended.kept tag, ?_⟩
    rw [if_pos hrole]
    show c.tag.source ++ c.content = tag.source ++ c.content
    rw [hsource]
  · obtain ⟨u, hext, hu⟩ := (extends_addTablist c.tag).behind (g := [])
      (isNameChar_of_read? hread) hname hsource
    refine ⟨.item u, Extended.added rfl hext, ?_⟩
    rw [if_neg hrole]
    show (addTablist c.tag).tag.source ++ c.content = u.source ++ c.content
    rw [hu, List.nil_append]

/-- Containers up to the first closing tag, read behind any character. -/
theorem exists_extended_containers (before : Option Char) (t : Text) :
    ∃ ps, List.Forall₂ (Extended (· = tablistRole)) (pieces t) ps ∧
      (Container.reader.pieces before t).flatMap (Piece.write Container.edited) = textOf ps := by
  fun_induction Reader.pieces Container.reader before t with
  | case1 before =>
    rw [pieces_nil]
    exact ⟨[], List.Forall₂.nil, rfl⟩
  | case2 before c tail container rest h ih =>
    -- a container: its tag may gain a role, its content stays
    obtain ⟨ps, hps, htext⟩ := ih
    obtain ⟨tag, hread, hsource⟩ := Container.tagRead?_of_read? h
    obtain ⟨v, k, -, hcontent, -, hcut, -⟩ := Container.read?_eq_some h
    obtain ⟨p, hp, hedited⟩ := exists_extended_edited hread
      (fun d hd => isNameChar_of_mem_nameCuts hcut hd) hsource
    have hclosed : BracketsClose container.content := by
      rw [hcontent]
      exact bracketsClose_append_close k
    refine ⟨p :: (pieces container.content ++ ps), ?_, ?_⟩
    · rw [pieces_of_read hread, pieces_append hclosed]
      exact List.Forall₂.cons hp (List.rel_append (forall₂_extended_refl _) hps)
    · rw [List.flatMap_cons, htext]
      show container.edited ++ textOf ps = p.write source ++ textOf (pieces container.content ++ ps)
      rw [hedited, textOf_append, textOf_pieces, List.append_assoc]
  | case3 before c tail h ih =>
    obtain ⟨ps, hps, htext⟩ := ih
    obtain ⟨qs, hqs, hqtext⟩ := exists_extended_cons c hps
    refine ⟨qs, hqs, ?_⟩
    rw [List.flatMap_cons, htext, hqtext]
    rfl

/-- **Making tablists adds roles and does nothing else**, whichever way containers end. -/
theorem exists_extended_addTablists (trackDepth : Bool) (t : Text) :
    ∃ ps, List.Forall₂ (Extended (· = tablistRole)) (pieces t) ps ∧
      (addTablists trackDepth t).text = textOf ps := by
  cases trackDepth with
  | true => exact ⟨_, forall₂_extended_tablistPieces 0 (pieces t), rfl⟩
  | false => exact exists_extended_containers none t

/-- The options with the pass over containers of tabs alone, which end in the given way. -/
def Options.onlyTablists (o : Options) (trackDepth : Bool) : Options :=
  { o with
    removeRedundantRoles := false
    addChecked := false
    addValueRange := false
    addTablists := true
    trackDepth := trackDepth }

/-- The run with these options is the pass. -/
theorem apply_onlyTablists (o : Options) (trackDepth : Bool) (s : Text) :
    apply (o.onlyTablists trackDepth) s = addTablists trackDepth s := rfl

/-! ## The texts of a default run -/

/-- The text after the pass over redundant roles. -/
def withoutRedundantRoles (s : Text) : Text := (editTags removeRedundantRole? s).text

/-- The text after the pass over checked states. -/
def withChecked (s : Text) : Text :=
  (editTags (addChecked? Options.default.checked) (withoutRedundantRoles s)).text

/-- The text after the pass over ranges. -/
def withRanges (s : Text) : Text :=
  (editTags (addValueRange? (rangeDefaults .default)) (withChecked s)).text

/-- The fixed text of a default run. -/
theorem text_apply_default (s : Text) :
    (apply .default s).text = (addTablists false (withRanges s)).text := rfl

end Fix
end AriaLint
