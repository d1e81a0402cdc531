import AriaLint.Proofs.Closing.Inserted
import AriaLint.Proofs.Document.Tablists
import AriaLint.Proofs.Fix.RedundantRoles
import AriaLint.Proofs.Tag.OpenRole

/-!
# Containers up to their own closing tag, run twice

The walk that makes tablists by depth decides at each tag in turn, and passes over what belongs to a
container once it has been dealt with.  When it walks the fixed text again, does it decide as before?

Three things are decided at a tag.

* *Is it a container of tabs?*  The text behind the tag tells, and new roles there have no part in
  it (`isSome_closeAroundTabs?_tablistPieces`).
* *Where does it end?*  New roles behind the tag may move the end.  But the content of a container
  that has been dealt with is passed over, so that it stays (`take_textOf_tablistPieces`), and with
  it the end (`closeAroundTabs?_tablistPieces_stop`).
* *Has it been dealt with?*  The first run has given it a role, and the second one must find that
  this is the role of a tablist.  This is the one decision that may come out otherwise: a tag may
  leave a role open (`Tag.leavesRoleOpen`).  Then the new role closes the old one instead of making
  a tablist, and the second run goes on to the containers inside.

So the walk changes nothing the second time unless it has edited a tag that leaves a role open
(`apply_onlyTablists_twice`).
-/

namespace AriaLint
namespace Fix

open Tag
open Closing (isNameWord_name)

/-! ## The fixed text has new roles only -/

theorem isSelfClosing_of_closeAroundTabs? {t : Tag} {v : Text} {close : Span}
    (h : closeAroundTabs? t v = some close) : t.isSelfClosing = false := by
  unfold closeAroundTabs? at h
  split at h
  · exact absurd h (by simp)
  · next hself => exact Bool.eq_false_iff.2 hself

/-- A tag that does not close itself ends firmly, up to its trailing blanks. -/
theorem endsFirm_trimRight {u rest : Text} {t : Tag} (h : read? u = some (t, rest))
    (hself : t.isSelfClosing = false) : EndsFirm ('<' :: t.rawName ++ Text.trimRight t.attrs) := by
  intro c hc
  rcases List.eq_nil_or_concat (Text.trimRight t.attrs) with hnil | ⟨z, d, hz⟩
  · -- the tag ends with its name
    rw [hnil, List.append_nil] at hc
    rcases List.mem_cons.1 (List.mem_of_mem_getLast? hc) with rfl | hname
    · decide
    · have hletters := isNameChar_of_read? h
      refine ⟨Bool.eq_false_iff.2 fun hblank => ?_, ?_⟩
      · exact not_mem_of_delimitsName hletters (delimitsName_of_isBlank hblank) hname
      · rintro rfl
        exact not_mem_of_delimitsName hletters delimitsName_slash hname
  · rw [List.concat_eq_append] at hz
    obtain rfl : d = c := by
      rw [hz, ← List.append_assoc, List.getLast?_concat] at hc
      exact Option.some.inj hc
    obtain ⟨y, e, hy, he⟩ := Text.exists_getLast?_trimRight hz
    have hlast : [] ++ [d] = y ++ [e] := hy
    obtain rfl : d = e := List.singleton_inj.1 (List.append_inj' hlast rfl).2
    refine ⟨he, ?_⟩
    rintro rfl
    rw [Tag.isSelfClosing, Tag.endsWithSlash, hz, List.getLast?_concat] at hself
    exact absurd hself (by decide)

/-- A tag that is made a tablist has the role of one behind a text that ends firmly. -/
theorem Roled.addTablist {u rest : Text} {t : Tag} (hread : read? u = some (t, rest))
    (hself : t.isSelfClosing = false) {v w : Text} (h : Roled v w) :
    Roled (t.source ++ v) ((Fix.addTablist t).tag.source ++ w) := by
  have hclose : '>' ∉ '<' :: t.rawName ++ Text.trimRight t.attrs := by
    obtain ⟨hattrs, x, -, hcut⟩ := read?_eq_some_iff.1 hread
    rw [← Text.trimRight_append_trailingBlanks t.attrs, List.mem_append, not_or] at hattrs
    have hname : '>' ∉ t.rawName := not_mem_of_readName? hcut delimitsName_close
    simp [hname, hattrs.1]
  have hroled := Roled.role hclose (by simp) (endsFirm_trimRight hread hself)
    (Text.isBlankText_trailingBlanks t.attrs) h
  have hold : t.source ++ v = '<' :: t.rawName ++ Text.trimRight t.attrs ++
      (Text.trailingBlanks t.attrs ++ '>' :: v) := by
    conv => lhs; rw [Tag.source, ← Text.trimRight_append_trailingBlanks t.attrs]
    simp only [List.append_assoc, List.cons_append, List.nil_append]
  have hnew : (Fix.addTablist t).tag.source ++ w = '<' :: t.rawName ++ Text.trimRight t.attrs ++
      (tablistRole ++ (Text.trailingBlanks t.attrs ++ '>' :: w)) := by
    rw [tag_addTablist hself, Tag.source, Tag.asTablist]
    simp [tablistRole, written]
  rw [hold, hnew]
  exact hroled

/-- **The walk puts roles of tablists into tags that do not close themselves**, and does nothing
else. -/
theorem roled_tablistPieces (skip : Nat) {ps : List (Piece Tag)} (h : AreRead ps) :
    Roled (textOf ps) (textOf (tablistPieces skip ps).1) := by
  fun_induction tablistPieces skip ps with
  | case1 skip => exact Roled.last (by simp)
  | case2 skip c ps qs cs hrest ih =>
    rw [hrest] at ih
    exact (ih h.tail).cons c
  | case3 skip t ps qs cs hrest ih =>
    rw [hrest] at ih
    exact (ih h.tail).append_left t.source
  | case4 t ps hclose qs cs hrest ih =>
    rw [hrest] at ih
    exact (ih h.tail).append_left t.source
  | case5 t ps close hclose hrole qs cs hrest ih =>
    rw [hrest] at ih
    obtain ⟨u, rest, hread⟩ := h.head
    exact (ih h.tail).addTablist hread (isSelfClosing_of_closeAroundTabs? hclose)
  | case6 t ps close hclose hrole qs cs hrest ih =>
    rw [hrest] at ih
    exact (ih h.tail).append_left t.source

/-- **What is passed over stays.** -/
theorem take_textOf_tablistPieces (skip : Nat) (ps : List (Piece Tag)) :
    (textOf (tablistPieces skip ps).1).take skip = (textOf ps).take skip := by
  fun_induction tablistPieces skip ps with
  | case1 skip => rfl
  | case2 skip c ps qs cs hrest ih =>
    rw [hrest] at ih
    cases skip with
    | zero => rfl
    | succ skip =>
      rw [Nat.add_sub_cancel] at ih
      rw [textOf_char, textOf_char, List.take_succ_cons, List.take_succ_cons, ih]
  | case3 skip t ps qs cs hrest ih =>
    rw [hrest] at ih
    rw [textOf_item, textOf_item, List.take_append, List.take_append, ih]
  | case4 | case5 | case6 => rfl

/-! ## The second walk decides as the first one -/

section Decisions

variable {t : Tag} {ps : List (Piece Tag)} (h : AreRead (.item t :: ps))

include h in
/-- **The walk leaves containers of tabs to be containers of tabs**, and makes no others. -/
theorem isSome_closeAroundTabs?_tablistPieces (skip : Nat) :
    (closeAroundTabs? t (textOf (tablistPieces skip ps).1)).isSome =
      (closeAroundTabs? t (textOf ps)).isSome := by
  obtain ⟨u, rest, hread⟩ := h.head
  exact isSome_closeAroundTabs?_of_roled (isNameWord_name (isNameChar_of_read? hread))
    (roled_tablistPieces skip h.tail)

include h in
/-- **A container that is passed over ends where it ended.** -/
theorem closeAroundTabs?_tablistPieces_stop {close : Span}
    (hclose : closeAroundTabs? t (textOf ps) = some close) :
    closeAroundTabs? t (textOf (tablistPieces close.stop ps).1) = some close := by
  obtain ⟨u, rest, hread⟩ := h.head
  obtain ⟨k, v, hsplit, hlength, hlocal⟩ :=
    closeAroundTabs?_local (isNameWord_name (isNameChar_of_read? hread)) hclose
  have htake : (textOf (tablistPieces close.stop ps).1).take close.stop = k := by
    rw [take_textOf_tablistPieces, hsplit, ← hlength, List.take_left]
  rw [← List.take_append_drop close.stop (textOf (tablistPieces close.stop ps).1), htake]
  exact hlocal _

/-- A tag that is made a tablist has the same closing tag. -/
theorem closeAroundTabs?_addTablist (t : Tag) (v : Text) :
    closeAroundTabs? (addTablist t).tag v = closeAroundTabs? t v := by
  have hself : (addTablist t).tag.isSelfClosing = t.isSelfClosing :=
    isSelfClosing_appendAttributes (c := '"') t rfl (by decide) (by decide)
  have hname : (addTablist t).tag.name = t.name := rfl
  rw [closeAroundTabs?, closeAroundTabs?, hself, hname]

/-- A tag that is made a tablist has a role. -/
theorem has_addTablist (t : Tag) : (addTablist t).tag.has "role" = true := by
  obtain ⟨-, x, y, -, hu, -⟩ := extends_addTablist t
  rw [Tag.has, Attribute.has, Attribute.value?, hu, Option.isSome_map]
  exact Attribute.isSome_find?_written (by decide) (by decide) (by decide) x y

/-- A tag that is made a tablist leaves no tabs to others, unless it leaves a role open. -/
theorem leavesTabs_addTablist (hrole : t.has "role" = false) (hopen : t.leavesRoleOpen = false) :
    (addTablist t).tag.leavesTabs = false := by
  have htablist := (role?_eq_tablist_iff (extends_addTablist t) hrole).2 hopen
  rw [Tag.leavesTabs, htablist, bne_self_eq_false, Bool.and_false]

end Decisions

/-- The tag is kept, or a role put into it is read back, as it leaves no role open. -/
def IsReadBack (t u : Tag) : Prop := t = u ∨ t.leavesRoleOpen = false

/-- **The second walk finds nothing left to do**, when no tag with a role left open has been
edited. -/
theorem tablistPieces_twice (skip : Nat) {ps : List (Piece Tag)} (hread : AreRead ps)
    (h : List.Forall₂ (Piecewise IsReadBack) ps (tablistPieces skip ps).1) :
    tablistPieces skip (tablistPieces skip ps).1 = ((tablistPieces skip ps).1, []) := by
  induction ps generalizing skip with
  | nil => rfl
  | cons p ps ih =>
    cases p with
    | char c =>
      have hrest := ih (skip - 1) hread.tail (List.forall₂_cons.1 h).2
      show tablistPieces skip (.char c :: (tablistPieces (skip - 1) ps).1) = _
      rw [tablistPieces, hrest]
      rfl
    | item t =>
      cases skip with
      | succ n =>
        have hrest := ih (n + 1 - t.source.length) hread.tail
          (by rw [tablistPieces] at h; exact (List.forall₂_cons.1 h).2)
        rw [tablistPieces]
        show tablistPieces (n + 1) (.item t :: (tablistPieces (n + 1 - t.source.length) ps).1) = _
        rw [tablistPieces, hrest]
      | zero =>
        cases hclose : closeAroundTabs? t (textOf ps) with
        | none =>
          rw [tablistPieces_of_none hclose] at h ⊢
          have hnone := isSome_closeAroundTabs?_tablistPieces hread 0
          rw [hclose, Option.isSome_none, Option.isSome_eq_false_iff, Option.isNone_iff_eq_none]
            at hnone
          rw [tablistPieces_of_none hnone, ih 0 hread.tail (List.forall₂_cons.1 h).2]
        | some close =>
          have hstop := closeAroundTabs?_tablistPieces_stop hread hclose
          cases hrole : t.has "role" with
          | false =>
            -- a new tablist is passed over, as it was when it was made
            rw [tablistPieces_of_new hclose hrole] at h ⊢
            obtain ⟨hhead, htail⟩ := List.forall₂_cons.1 h
            have hopen : t.leavesRoleOpen = false := by
              cases hhead with
              | item hback =>
                refine hback.resolve_left fun hsame => ?_
                rw [hsame, has_addTablist] at hrole
                exact Bool.noConfusion hrole
            rw [tablistPieces_of_has (closeAroundTabs?_addTablist t _ ▸ hstop) (has_addTablist t),
              leavesTabs_addTablist hrole hopen, if_neg Bool.false_ne_true,
              ih close.stop hread.tail htail]
          | true =>
            rw [tablistPieces_of_has hclose hrole] at h ⊢
            have htail := (List.forall₂_cons.1 h).2
            cases hleaves : t.leavesTabs with
            | true =>
              rw [hleaves, if_pos rfl] at htail
              have hsome := isSome_closeAroundTabs?_tablistPieces hread 0
              rw [hclose, Option.isSome_some] at hsome
              obtain ⟨close', hclose'⟩ := Option.isSome_iff_exists.1 hsome
              rw [if_pos rfl, tablistPieces_of_has hclose' hrole, hleaves, if_pos rfl,
                ih 0 hread.tail htail]
            | false =>
              rw [hleaves, if_neg Bool.false_ne_true] at htail
              rw [if_neg Bool.false_ne_true, tablistPieces_of_has hstop hrole, hleaves,
                if_neg Bool.false_ne_true, ih close.stop hread.tail htail]

/-! ## The second run -/

/-- The tags of a text that stand otherwise in another one. -/
def editedTags (s u : Text) : List Tag :=
  (((all s).zip (all u)).filter fun p => p.1 != p.2).map Prod.fst

/-- What holds of the tags that are edited holds of the pieces. -/
theorem piecewise_of_zip {A : Text → Prop} {ps qs : List (Piece Tag)}
    (h : List.Forall₂ (Extended A) ps qs) {R : Tag → Tag → Prop}
    (hR : ∀ p ∈ (ps.filterMap Piece.item?).zip (qs.filterMap Piece.item?), R p.1 p.2) :
    List.Forall₂ (Piecewise R) ps qs := by
  induction h with
  | nil => exact List.Forall₂.nil
  | @cons p q ps qs hpq _ ih =>
    cases hpq with
    | char c => exact List.Forall₂.cons (.char c) (ih hR)
    | kept t =>
      exact List.Forall₂.cons (.item (hR (t, t) List.mem_cons_self))
        (ih fun r hr => hR r (List.mem_cons_of_mem _ hr))
    | @added t u add hadd hext =>
      exact List.Forall₂.cons (.item (hR (t, u) List.mem_cons_self))
        (ih fun r hr => hR r (List.mem_cons_of_mem _ hr))

/-- **With the pass over containers of tabs alone, and containers that end at their own closing
tags, a second run changes nothing**, on any text, when no tag that the first one has edited leaves
a role open. -/
theorem apply_onlyTablists_twice (o : Options) (s : Text)
    (h : ∀ t ∈ editedTags s (apply (o.onlyTablists true) s).text, t.leavesRoleOpen = false) :
    apply (o.onlyTablists true) (apply (o.onlyTablists true) s).text =
      ⟨(apply (o.onlyTablists true) s).text, []⟩ := by
  have hextended := forall₂_extended_tablistPieces 0 (pieces s)
  have htext : (apply (o.onlyTablists true) s).text = textOf (tablistPieces 0 (pieces s)).1 := rfl
  have hpieces : pieces (textOf (tablistPieces 0 (pieces s)).1) = (tablistPieces 0 (pieces s)).1 :=
    pieces_textOf_of_extended isAddition_tablistRole hextended
  have hback : List.Forall₂ (Piecewise IsReadBack) (pieces s) (tablistPieces 0 (pieces s)).1 := by
    refine piecewise_of_zip hextended fun p hp => ?_
    by_cases hsame : p.1 = p.2
    · exact Or.inl hsame
    · refine Or.inr (h p.1 (List.mem_map.2 ⟨p, List.mem_filter.2 ⟨?_, bne_iff_ne.2 hsame⟩, rfl⟩))
      rw [htext]
      show p ∈ ((pieces s).filterMap Piece.item?).zip ((pieces _).filterMap Piece.item?)
      rwa [hpieces]
  have hwalk := tablistPieces_twice 0 (areRead_pieces s) hback
  rw [apply_onlyTablists, htext]
  show addTablistsByDepth _ = _
  rw [addTablistsByDepth, hpieces, hwalk]

/-- A menu leaves its tabs to the list inside, in the second run too. -/
theorem apply_onlyTablists_twice_menu :
    (∀ t ∈ editedTags "<nav role='menu'><ul><li role='tab'></li></ul></nav>"
        (apply (Options.default.onlyTablists true)
          "<nav role='menu'><ul><li role='tab'></li></ul></nav>").text,
      t.leavesRoleOpen = false) ∧
      apply (Options.default.onlyTablists true) (apply (Options.default.onlyTablists true)
          "<nav role='menu'><ul><li role='tab'></li></ul></nav>").text =
        ⟨(apply (Options.default.onlyTablists true)
          "<nav role='menu'><ul><li role='tab'></li></ul></nav>").text, []⟩ := by
  have hopen : ∀ t ∈ editedTags "<nav role='menu'><ul><li role='tab'></li></ul></nav>"
      (apply (Options.default.onlyTablists true)
        "<nav role='menu'><ul><li role='tab'></li></ul></nav>").text,
      t.leavesRoleOpen = false := by decide +kernel
  exact ⟨hopen, apply_onlyTablists_twice Options.default _ hopen⟩

/-- The new role closes the role that the container leaves open, and so the container inside becomes
a tablist in the second run. -/
theorem apply_onlyTablists_openRole :
    (apply (Options.default.onlyTablists true)
        "<div role=\"x><p><b role='tab'></b></p></div>").text =
      "<div role=\"x role=\"tablist\"><p><b role='tab'></b></p></div>" ∧
    (apply (Options.default.onlyTablists true)
        "<div role=\"x role=\"tablist\"><p><b role='tab'></b></p></div>").changes =
      [(addTablist ⟨"p", ""⟩).change] := by
  decide +kernel

end Fix
end AriaLint
