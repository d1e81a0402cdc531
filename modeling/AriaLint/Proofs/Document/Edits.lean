import AriaLint.Proofs.Document.FirstClose
import AriaLint.Proofs.Fix.Confinement

/-!
# Documents with edited tags

A pass that edits every tag for itself turns a document into a document, as long as each tag keeps
its shape: it stays plain, with its name, and closes itself or does not as before.  Additions keep
the shape of every tag (`keepsShape_appendAttributes`).  Taking out a role may not: what stood behind
the role may run into the name, and a slash in front of it may come to stand at the end.

So a document whose tags keep their shape without their redundant roles is a document still when the
passes over containers begin (`withRanges_write`), and what is known about containers in documents
settles when the two ways to end them make a difference to a run with the default options
(`apply_trackDepth_iff`).
-/

namespace AriaLint

open AriaLint.Fix

namespace Fix

/-! ## Tags that keep their shape -/

/-- The edit leaves a plain tag of the same name that closes itself or does not as before. -/
structure KeepsShape (edit? : Tag → Option Edit) (t : Tag) : Prop where
  plain : (edited edit? t).IsPlain
  rawName : (edited edit? t).rawName = t.rawName
  closesItself : (edited edit? t).isSelfClosing = t.isSelfClosing

instance (edit? : Tag → Option Edit) (t : Tag) : Decidable (KeepsShape edit? t) :=
  decidable_of_iff
    ((edited edit? t).IsPlain ∧ (edited edit? t).rawName = t.rawName ∧
      (edited edit? t).isSelfClosing = t.isSelfClosing)
    ⟨fun ⟨hplain, hname, hself⟩ => ⟨hplain, hname, hself⟩,
      fun h => ⟨h.plain, h.rawName, h.closesItself⟩⟩

/-- The edited tag, or the tag itself where the edit would not keep its shape. -/
def reshaped (edit? : Tag → Option Edit) (t : Tag) : Tag :=
  if KeepsShape edit? t then edited edit? t else t

section Reshaped

variable (edit? : Tag → Option Edit) (t : Tag)

theorem isPlain_reshaped {t : Tag} (ht : t.IsPlain) : (reshaped edit? t).IsPlain := by
  unfold reshaped
  split
  · next h => exact h.plain
  · exact ht

theorem rawName_reshaped : (reshaped edit? t).rawName = t.rawName := by
  unfold reshaped
  split
  · next h => exact h.rawName
  · rfl

theorem isSelfClosing_reshaped : (reshaped edit? t).isSelfClosing = t.isSelfClosing := by
  unfold reshaped
  split
  · next h => exact h.closesItself
  · rfl

end Reshaped

/-! ## Additions -/

/-- Attribute text that can be put into any plain tag: it starts with a blank, ends with a quote,
and holds no bracket. -/
structure IsInsert (add : Text) : Prop where
  starts : add.head? = some ' '
  ends : add.getLast? = some '"'
  opens : '<' ∉ add
  closes : '>' ∉ add

instance (add : Text) : Decidable (IsInsert add) :=
  decidable_of_iff
    (add.head? = some ' ' ∧ add.getLast? = some '"' ∧ '<' ∉ add ∧ '>' ∉ add)
    ⟨fun ⟨hs, he, ho, hc⟩ => ⟨hs, he, ho, hc⟩, fun h => ⟨h.starts, h.ends, h.opens, h.closes⟩⟩

/-- **Additions keep the shape of a tag.** -/
theorem isPlain_of_extends {add : Text} (hadd : IsInsert add) {t u : Tag} (ht : t.IsPlain)
    (h : Tag.Extends add t u) : u.IsPlain := by
  obtain ⟨hraw, x, y, hx, hu, htail, -⟩ := h
  obtain ⟨hopens, hcloses⟩ := And.intro ht.opens ht.closes
  rw [hx, List.mem_append, not_or] at hopens hcloses
  refine ⟨hraw ▸ ht.chars, hraw ▸ ht.last, ?_, ?_, ?_⟩
  · simp [hu, hadd.opens, hopens]
  · simp [hu, hadd.closes, hcloses]
  · intro c hc
    rw [hu, List.append_assoc, List.head?_append] at hc
    cases x with
    | nil =>
      rw [List.head?_append, hadd.starts] at hc
      obtain rfl : ' ' = c := Option.some.inj hc
      exact Or.inl (by decide)
    | cons d x =>
      refine ht.separated c ?_
      rw [hx]
      exact hc

theorem isInsert_flatMap_written {ds : List (Text × Text)} (hne : ds ≠ [])
    (h : ∀ d ∈ ds, IsInsert (written d.1 d.2)) :
    IsInsert (ds.flatMap fun d => written d.1 d.2) where
  starts := by
    obtain ⟨d, ds, rfl⟩ := List.exists_cons_of_ne_nil hne
    rfl
  ends := by
    obtain ⟨init, d, rfl⟩ : ∃ init d, ds = init ++ [d] :=
      ⟨ds.dropLast, ds.getLast hne, (List.dropLast_append_getLast hne).symm⟩
    have hlast := (h d (by simp)).ends
    rw [List.flatMap_append, List.flatMap_singleton, List.getLast?_append, hlast]
    rfl
  opens := by
    intro hmem
    obtain ⟨d, hd, hin⟩ := List.mem_flatMap.1 hmem
    exact (h d hd).opens hin
  closes := by
    intro hmem
    obtain ⟨d, hd, hin⟩ := List.mem_flatMap.1 hmem
    exact (h d hd).closes hin

theorem keepsShape_of_appendAttributes {edit? : Tag → Option Edit} {t : Tag} (ht : t.IsPlain)
    (h : ∀ e, edit? t = some e → ∃ add, IsInsert add ∧ e.tag = appendAttributes t add) :
    KeepsShape edit? t := by
  cases he : edit? t with
  | none =>
    have hsame := edited_of_none he
    exact ⟨by rw [hsame]; exact ht, by rw [hsame], by rw [hsame]⟩
  | some e =>
    obtain ⟨add, hadd, htag⟩ := h e he
    have hsame : edited edit? t = appendAttributes t add := (edited_of_some he).trans htag
    have hext := extends_appendAttributes t add
    exact ⟨by rw [hsame]; exact isPlain_of_extends hadd ht hext, by rw [hsame]; exact hext.1,
      by rw [hsame]; exact isSelfClosing_appendAttributes t hadd.ends (by decide) (by decide)⟩

theorem keepsShape_addChecked {t : Tag} (ht : t.IsPlain) :
    KeepsShape (addChecked? Options.default.checked) t :=
  keepsShape_of_appendAttributes ht fun _ he => ⟨_, by decide, tag_of_addChecked? he⟩

theorem keepsShape_addValueRange {t : Tag} (ht : t.IsPlain) :
    KeepsShape (addValueRange? (rangeDefaults .default)) t := by
  refine keepsShape_of_appendAttributes ht fun e he => ?_
  obtain ⟨ds, hne, hsub, htag⟩ := tag_of_addValueRange? he
  have hall : ∀ d ∈ rangeDefaults .default, IsInsert (written d.1 d.2) := by decide
  exact ⟨_, isInsert_flatMap_written hne fun d hd => hall d (hsub hd), htag⟩

end Fix

/-- Passes come to the same behind a result when they do on its text. -/
theorem Result.andThen_eq_andThen_iff (r : Result) {p q : Text → Result} :
    r.andThen p = r.andThen q ↔ p r.text = q r.text := by
  constructor
  · intro h
    obtain ⟨htext, hchanges⟩ := Result.mk.inj h
    calc p r.text = ⟨(p r.text).text, (p r.text).changes⟩ := rfl
      _ = ⟨(q r.text).text, (q r.text).changes⟩ := by
        rw [htext, List.append_cancel_left hchanges]
  · intro h
    rw [Result.andThen, Result.andThen, h]

/-! ## Edited documents -/

namespace Document

/-- The document with its tags edited. -/
def edit (edit? : Tag → Option Edit) : Document → Document
  | nil => nil
  | text t plain rest => text t plain (rest.edit edit?)
  | leaf t plain closesItself rest =>
    leaf (reshaped edit? t) (isPlain_reshaped edit? plain)
      ((isSelfClosing_reshaped edit? t).trans closesItself) (rest.edit edit?)
  | element t plain staysOpen close gap same blank content rest =>
    element (reshaped edit? t) (isPlain_reshaped edit? plain)
      ((isSelfClosing_reshaped edit? t).trans staysOpen) close gap
      (by rw [rawName_reshaped]; exact same) blank (content.edit edit?) (rest.edit edit?)

section Edit

variable (edit? : Tag → Option Edit)

/-- The tags of the edited document. -/
theorem pieces_edit {d : Document} (h : ∀ t, .item t ∈ d.pieces → KeepsShape edit? t) :
    (d.edit edit?).pieces = d.pieces.map (editPiece edit?) := by
  have hchars : ∀ t : Text, (t.map Piece.char).map (editPiece edit?) = t.map Piece.char := by
    intro t
    rw [List.map_map]
    rfl
  induction d with
  | nil => rfl
  | text t _ rest ih =>
    rw [edit, pieces, pieces, List.map_append, hchars, ih fun u hu => h u (by simp [pieces, hu])]
  | leaf t _ _ rest ih =>
    have ht := h t (by simp [pieces])
    rw [edit, pieces, pieces, List.map_cons, ih fun u hu => h u (by simp [pieces, hu]), reshaped,
      if_pos ht]
    rfl
  | element t _ _ close gap _ _ content rest ihc ihr =>
    have ht := h t (by simp [pieces])
    rw [edit, pieces, pieces, List.map_cons, List.map_append, List.map_append, hchars,
      ihc fun u hu => h u (by simp [pieces, hu]), ihr fun u hu => h u (by simp [pieces, hu]),
      reshaped, if_pos ht]
    rfl

theorem hasElement_edit (name : Text) (d : Document) :
    (d.edit edit?).HasElement name ↔ d.HasElement name := by
  induction d with
  | nil => exact Iff.rfl
  | text t _ rest ih => exact ih
  | leaf t _ _ rest ih => exact ih
  | element t _ _ close gap _ _ content rest ihc ihr =>
    rw [edit, HasElement, HasElement, rawName_reshaped, ihc, ihr]

theorem namesApart_edit {d : Document} (h : d.NamesApart) : (d.edit edit?).NamesApart := by
  induction d with
  | nil => trivial
  | text t _ rest ih => exact ih h
  | leaf t _ _ rest ih => exact ih h
  | element t _ _ close gap _ _ content rest ihc ihr =>
    obtain ⟨hnone, hcontent, hrest⟩ := h
    rw [edit, NamesApart, rawName_reshaped, hasElement_edit]
    exact ⟨hnone, ihc hcontent, ihr hrest⟩

end Edit

/-- The tags of a document are plain. -/
theorem isPlain_of_mem_pieces {d : Document} {u : Tag} (h : .item u ∈ d.pieces) : u.IsPlain := by
  induction d with
  | nil => exact absurd h List.not_mem_nil
  | text t _ rest ih => exact ih (by simpa [pieces] using h)
  | leaf t ht _ rest ih =>
    rw [pieces, List.mem_cons, Piece.item.injEq] at h
    rcases h with rfl | h
    · exact ht
    · exact ih h
  | element t ht _ close gap _ _ content rest ihc ihr =>
    simp only [pieces, List.mem_cons, Piece.item.injEq, List.mem_append] at h
    rcases h with rfl | h | h | h
    · exact ht
    · exact ihc h
    · exact absurd h (by simp)
    · exact ihr h

/-- **A pass that keeps the shape of the tags turns a document into a document.** -/
theorem text_editTags_write {edit? : Tag → Option Edit} {d : Document}
    (h : ∀ t, .item t ∈ d.pieces → KeepsShape edit? t) :
    (editTags edit? d.write).text = (d.edit edit?).write := by
  rw [text_editTags, pieces_of_write, ← pieces_edit edit? h, textOf_pieces]

/-! ## Runs with the default options -/

/-- The document as the passes over single tags leave it. -/
def prepare (d : Document) : Document :=
  ((d.edit removeRedundantRole?).edit (addChecked? Options.default.checked)).edit
    (addValueRange? (rangeDefaults .default))

theorem namesApart_prepare {d : Document} (h : d.NamesApart) : d.prepare.NamesApart :=
  namesApart_edit _ (namesApart_edit _ (namesApart_edit _ h))

/-- The text that the pass over containers gets is a document again. -/
theorem withRanges_write {d : Document}
    (h : ∀ t ∈ Tag.all d.write, KeepsShape removeRedundantRole? t) :
    withRanges d.write = d.prepare.write := by
  have hshape : ∀ t, .item t ∈ d.pieces → KeepsShape removeRedundantRole? t := by
    intro t ht
    refine h t (Tag.mem_all_iff.2 ?_)
    rwa [pieces_of_write]
  rw [withRanges, withChecked, withoutRedundantRoles, text_editTags_write hshape,
    text_editTags_write fun t ht => keepsShape_addChecked (isPlain_of_mem_pieces ht),
    text_editTags_write fun t ht => keepsShape_addValueRange (isPlain_of_mem_pieces ht)]
  rfl

/-- Two runs that differ in the way containers end come to the same when the pass over containers
does. -/
theorem apply_trackDepth_eq_iff_addTablists (s : Text) :
    apply { Options.default with trackDepth := true } s = apply .default s ↔
      addTablists true (withRanges s) = addTablists false (withRanges s) := by
  let before := (((Result.mk s []).andThen (editTags removeRedundantRole?)).andThen
    (editTags (addChecked? Options.default.checked))).andThen
    (editTags (addValueRange? (rangeDefaults .default)))
  have hdepth : apply { Options.default with trackDepth := true } s =
      before.andThen (addTablists true) := rfl
  have hfirst : apply .default s = before.andThen (addTablists false) := rfl
  rw [hdepth, hfirst]
  exact Result.andThen_eq_andThen_iff before

/-- **When the way containers end makes no difference.**  Take a document in which no element holds
another one of its name and every tag keeps its shape without its redundant role.  If, where the
pass over containers begins, no stray container has a role, then containers may end at their own
closing tags or at the first ones of their names, with the same text and log, if and only if there
are no stray containers, and no tablists are made inside of elements. -/
theorem apply_trackDepth_iff (d : Document) (hnames : d.NamesApart)
    (hshape : ∀ t ∈ Tag.all d.write, KeepsShape removeRedundantRole? t)
    (hroles : ∀ c ∈ d.prepare.strays [], c.tag.has "role" = false) :
    apply { Options.default with trackDepth := true } d.write = apply .default d.write ↔
      d.prepare.strays [] = [] ∧ d.prepare.innerTablists = [] := by
  rw [apply_trackDepth_eq_iff_addTablists, withRanges_write hshape]
  exact addTablists_eq_iff d.prepare (namesApart_prepare hnames) hroles

/-- A navigation with its own role around a list of tabs. -/
def tabbedNavigation : Document :=
  element ⟨"nav", " role=\"navigation\""⟩ (by decide +kernel) (by decide +kernel) "nav" []
    (by decide +kernel) (by decide +kernel)
    (element ⟨"ul", ""⟩ (by decide +kernel) (by decide +kernel) "ul" []
      (by decide +kernel) (by decide +kernel)
      (element ⟨"li", " role=\"tab\""⟩ (by decide +kernel) (by decide +kernel) "LI" [' ']
        (by decide +kernel) (by decide +kernel) (text "One" (by decide +kernel) nil) nil) nil) nil

/-- The navigation becomes the tablist either way, once its role has been taken out. -/
theorem apply_trackDepth_tabbedNavigation :
    tabbedNavigation.NamesApart ∧
      (∀ t ∈ Tag.all tabbedNavigation.write, KeepsShape removeRedundantRole? t) ∧
      (∀ c ∈ tabbedNavigation.prepare.strays [], c.tag.has "role" = false) ∧
      apply { Options.default with trackDepth := true } tabbedNavigation.write =
        apply .default tabbedNavigation.write := by
  have hnames : tabbedNavigation.NamesApart := by decide +kernel
  have hshape : ∀ t ∈ Tag.all tabbedNavigation.write, KeepsShape removeRedundantRole? t := by
    decide +kernel
  have hstrays : tabbedNavigation.prepare.strays [] = [] := by decide +kernel
  have hroles : ∀ c ∈ tabbedNavigation.prepare.strays [], c.tag.has "role" = false := by
    rw [hstrays]
    exact List.forall_mem_nil _
  refine ⟨hnames, hshape, hroles, ?_⟩
  exact (apply_trackDepth_iff _ hnames hshape hroles).2 ⟨hstrays, by decide +kernel⟩

/-- An empty paragraph and behind it one with a tab. -/
def emptyParagraph : Document :=
  element ⟨"p", ""⟩ (by decide +kernel) (by decide +kernel) "p" []
    (by decide +kernel) (by decide +kernel) nil
    (element ⟨"p", ""⟩ (by decide +kernel) (by decide +kernel) "p" []
      (by decide +kernel) (by decide +kernel)
      (element ⟨"b", " role=\"tab\""⟩ (by decide +kernel) (by decide +kernel) "b" []
        (by decide +kernel) (by decide +kernel) nil nil) nil)

/-- A menu around a list with a tab. -/
def menuAroundTabs : Document :=
  element ⟨"div", " role=\"menu\""⟩ (by decide +kernel) (by decide +kernel) "div" []
    (by decide +kernel) (by decide +kernel)
    (element ⟨"ul", ""⟩ (by decide +kernel) (by decide +kernel) "ul" []
      (by decide +kernel) (by decide +kernel)
      (element ⟨"li", " role=\"tab\""⟩ (by decide +kernel) (by decide +kernel) "li" []
        (by decide +kernel) (by decide +kernel) nil nil) nil) nil

/-- **The way containers end makes a difference where no element holds another one of its name.**
The empty paragraph is taken for the tablist in place of the one with the tab, and the list inside
the menu is passed over, when containers end at the first closing tags of their names. -/
theorem apply_trackDepth_ne :
    emptyParagraph.NamesApart ∧
      (apply { Options.default with trackDepth := true } emptyParagraph.write).text =
        "<p></p><p role=\"tablist\"><b role=\"tab\"></b></p>" ∧
      (apply .default emptyParagraph.write).text =
        "<p role=\"tablist\"></p><p><b role=\"tab\"></b></p>" ∧
    menuAroundTabs.NamesApart ∧
      (apply { Options.default with trackDepth := true } menuAroundTabs.write).text =
        "<div role=\"menu\"><ul role=\"tablist\"><li role=\"tab\"></li></ul></div>" ∧
      (apply .default menuAroundTabs.write).text = menuAroundTabs.write := by
  decide +kernel

end Document
end AriaLint

