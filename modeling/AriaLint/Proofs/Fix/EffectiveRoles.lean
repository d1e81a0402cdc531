import AriaLint.Proofs.Attribute.Entries
import AriaLint.Proofs.Fix.Others

/-!
# Effective roles

The role of an element is the explicit one or, without one, the role that the element carries
anyway.  The passes over single tags keep it (`effectiveRoles_apply_write`): a role is only taken out
when it says what the element says without it, and attributes are only added to tags with an explicit
role, which stays.

For the first of these reasons to hold, nothing else may change when a role is taken out: neither
the attributes that the role of a link or an input field depends on, nor may another role come to
light.  This is so for tags that are well formed (`Tag.IsWellFormed`), since these are tidy and have
one attribute of each name.
-/

namespace AriaLint

open Attribute

/-! ## Well-formed tags -/

namespace Tag

/-- The explicit role or, without one, the role that the element carries anyway. -/
def effectiveRole? (t : Tag) : Option Text := t.role?.or (Role.implicit? t.name t.attrs)

/-- The name is plain, and the attribute text is a list of attributes of different names, with
blanks and slashes behind it at most. -/
structure IsWellFormed (t : Tag) : Prop where
  chars : ∀ c ∈ t.rawName, AriaLint.isPlain c = true
  last : ∃ c, t.rawName.getLast? = some c ∧ c.isAlphanum = true
  entries : ∃ es y, t.attrs = Entry.writeAll es ++ y ∧
    es.Pairwise (fun e e' => ¬ SameName e.name e'.name) ∧ IsTail y

namespace IsWellFormed

variable {t : Tag} (h : t.IsWellFormed)
include h

theorem isPlain : t.IsPlain := by
  obtain ⟨es, y, hattrs, -, hy⟩ := h.entries
  have hbracket : ∀ {p : Char}, p = '<' ∨ p = '>' → p ∉ t.attrs := by
    intro p hp hmem
    rw [hattrs, List.mem_append] at hmem
    rcases hmem with hmem | hmem
    · obtain ⟨e, -, he⟩ := List.mem_flatMap.1 hmem
      exact e.not_mem_write hp he
    · have hsigns : ∀ s ∈ ['<', '>'], ¬ (isBlank s = true ∨ s = '/') := by decide
      exact hsigns p (by simpa using hp) (hy p hmem)
  have hanew : opensAnew t.attrs = true := by
    rw [hattrs]
    exact Entry.opensAnew_writeAll es hy
  refine ⟨h.chars, h.last, hbracket (Or.inl rfl), hbracket (Or.inr rfl), fun c hc => ?_⟩
  rw [opensAnew, hc, Option.all_some, Bool.and_eq_true, Bool.or_eq_true, beq_iff_eq] at hanew
  exact hanew.1

/-- **Well-formed tags are tidy.** -/
theorem isTidy : Fix.isTidy t = true := by
  obtain ⟨es, y, hattrs, -, hy⟩ := h.entries
  have hclosed : endsOpen t.attrs = false := by
    rw [hattrs, endsOpen_append_of_isUnquoted _ (isUnquoted_of_isTail hy), Entry.endsOpen_writeAll]
  have hapart : (find? "role" true t.attrs).all standsApart = true := by
    rw [Option.all_eq_true, hattrs]
    exact fun f hf => standsApart_of_entries hy hf
  rw [Fix.isTidy, hclosed, hapart, Bool.or_true]
  rfl

end IsWellFormed
end Tag

/-! ## The passes -/

namespace Fix

open Tag

/-- **A pass that adds attributes to tags with a role** keeps effective roles. -/
theorem effectiveRole?_edited {A : Text → Prop} {edit? : Tag → Option Edit} (hadds : Adds A edit?)
    (hrole : ∀ t e, edit? t = some e → ∃ role, t.role? = some role) (t : Tag) :
    (edited edit? t).effectiveRole? = t.effectiveRole? := by
  cases h : edit? t with
  | none => rw [edited_of_none h]
  | some e =>
    obtain ⟨role, ht⟩ := hrole t e h
    obtain ⟨add, -, hext⟩ := hadds t e h
    rw [edited_of_some h, effectiveRole?, effectiveRole?, ht, role?_of_extends hext ht]
    rfl

/-- **A redundant role goes without a trace** from a well-formed tag. -/
theorem effectiveRole?_removeRedundantRole {t : Tag} (ht : t.IsWellFormed) :
    (edited removeRedundantRole? t).effectiveRole? = t.effectiveRole? := by
  cases h : removeRedundantRole? t with
  | none => rw [edited_of_none h]
  | some e =>
    obtain ⟨native, hnative, hrole, htag⟩ := exists_role_of_removeRedundantRole? h
    obtain ⟨f, hf, -⟩ := exists_found_of_redundant hnative hrole
    have himplicit : Role.implicit? e.tag.name e.tag.attrs = some native := by
      have hkeeps : KeepsOthers editedNames t e.tag :=
        (keepsOthers_removeRedundantRole h ht.isTidy).mono (by decide)
      rw [implicit?_of_keepsOthers hkeeps, hnative]
    have hnone : e.tag.role? = none := by
      obtain ⟨es, y, hattrs, hdistinct, hy⟩ := ht.entries
      rw [hattrs] at hf
      rw [htag, Tag.role?, Attribute.role?, filledValue?, hattrs,
        find?_withoutRole hy hdistinct hf]
      rfl
    rw [edited_of_some h, effectiveRole?, effectiveRole?, hrole, hnone, himplicit]
    rfl

/-! ## A run -/

/-- The second tag has the effective role of the first one. -/
def SameEffectiveRole (t u : Tag) : Prop := u.effectiveRole? = t.effectiveRole?

/-- The pieces of the text are those of the snippet, with tags of the same effective role. -/
def KeepsEffectiveRoles (s u : Text) : Prop :=
  List.Forall₂ (Piecewise SameEffectiveRole) (pieces s) (pieces u)

theorem KeepsEffectiveRoles.refl (s : Text) : KeepsEffectiveRoles s s := by
  refine List.forall₂_same.2 fun p _ => ?_
  cases p with
  | char c => exact .char c
  | item t => exact .item rfl

/-- Passes that add attributes to tags with a role. -/
theorem KeepsEffectiveRoles.editTags {A : Text → Prop} (hA : ∀ add, A add → IsAddition add)
    {edit? : Tag → Option Edit} (hadds : Adds A edit?)
    (hrole : ∀ t e, edit? t = some e → ∃ role, t.role? = some role) {s u : Text}
    (h : KeepsEffectiveRoles s u) : KeepsEffectiveRoles s (editTags edit? u).text := by
  rw [KeepsEffectiveRoles, pieces_editTags hA hadds, List.forall₂_map_right_iff]
  refine h.imp fun p q hpq => ?_
  cases hpq with
  | char c => exact .char c
  | item ht => exact .item ((effectiveRole?_edited hadds hrole _).trans ht)

section WellFormed

variable {s : Text} (hs : ∀ t ∈ all s, t.IsWellFormed)
include hs

theorem keepsEffectiveRoles_removeRedundantRoles :
    KeepsEffectiveRoles s (editTags removeRedundantRole? s).text := by
  have hpieces := pieces_withoutRedundantRoles fun t ht _ => (hs t ht).isTidy
  rw [KeepsEffectiveRoles, ← withoutRedundantRoles, hpieces, List.forall₂_map_right_iff,
    List.forall₂_same]
  intro p hp
  cases p with
  | char c => exact .char c
  | item t =>
    exact .item (effectiveRole?_removeRedundantRole (hs t (mem_all_iff.2 hp)))

/-- **The passes over single tags keep effective roles** when all tags are well formed. -/
theorem keepsEffectiveRoles_apply {o : Options} (ho : o.ClosesNothing)
    (hoff : o.addTablists = false) : KeepsEffectiveRoles s (apply o s).text := by
  unfold apply
  rw [hoff]
  show KeepsEffectiveRoles s (Result.andThenIf _ o.addValueRange _).text
  refine Result.keeps_andThenIf ?_ _ fun h => h.editTags (isAddition_range ho)
    (adds_addValueRange _) fun _ _ => role?_of_addValueRange?
  refine Result.keeps_andThenIf ?_ _ fun h => h.editTags (isAddition_checked ho)
    (adds_addChecked _) fun _ _ => role?_of_addChecked?
  refine Result.keeps_andThenIf (KeepsEffectiveRoles.refl s) _ fun _ => ?_
  exact keepsEffectiveRoles_removeRedundantRoles hs

end WellFormed

end Fix

/-! ## Snippets -/

/-- A snippet of well-formed tags, closing tags, and text without opening brackets. -/
inductive Snippet where
  | nil
  | text (t : Text) (plain : '<' ∉ t) (rest : Snippet)
  | closing (t : Text) (plain : '<' ∉ t) (rest : Snippet)
  | opening (t : Tag) (wellFormed : t.IsWellFormed) (rest : Snippet)

namespace Snippet

/-- The snippet as markup. -/
def write : Snippet → Text
  | nil => []
  | text t _ rest => t ++ rest.write
  | closing t _ rest => closingTag t [] ++ rest.write
  | opening t _ rest => t.source ++ rest.write

/-- The opening tags of the snippet and the characters between them. -/
def pieces : Snippet → List (Piece Tag)
  | nil => []
  | text t _ rest => t.map .char ++ rest.pieces
  | closing t _ rest => (closingTag t []).map .char ++ rest.pieces
  | opening t _ rest => .item t :: rest.pieces

/-- Scanning gives the opening tags of the snippet. -/
theorem pieces_write (w : Snippet) : Tag.pieces w.write = w.pieces := by
  induction w with
  | nil => exact Tag.pieces_nil
  | text t ht rest ih => rw [write, pieces, Tag.pieces_append_of_not_mem ht, ih]
  | closing t ht rest ih => rw [write, pieces, Tag.pieces_closingTag ht List.not_mem_nil, ih]
  | opening t ht rest ih =>
    rw [write, pieces, Tag.pieces_of_read (ht.isPlain.read?_source rest.write), ih]

/-- The tags of the snippet are well formed. -/
theorem isWellFormed_of_mem_pieces {w : Snippet} {u : Tag} (h : .item u ∈ w.pieces) :
    u.IsWellFormed := by
  induction w with
  | nil => exact absurd h List.not_mem_nil
  | text t _ rest ih => exact ih (by simpa [pieces] using h)
  | closing t _ rest ih => exact ih (by simpa [pieces] using h)
  | opening t ht rest ih =>
    rw [pieces, List.mem_cons, Piece.item.injEq] at h
    rcases h with rfl | h
    · exact ht
    · exact ih h

end Snippet

namespace Fix

/-- **Effective roles survive.**  Whichever fixes of single tags are wanted, and as long as the
values to be filled in close no bracket, fixing a snippet turns each of its opening tags into one tag
with the same effective role, and leaves all other text. -/
theorem effectiveRoles_apply_write (o : Options) (ho : o.ClosesNothing)
    (hoff : o.addTablists = false) (w : Snippet) :
    List.Forall₂ (Tag.Piecewise SameEffectiveRole) w.pieces
      (Tag.pieces (apply o w.write).text) := by
  rw [← w.pieces_write]
  refine keepsEffectiveRoles_apply (fun t ht => ?_) ho hoff
  rw [Tag.mem_all_iff, w.pieces_write] at ht
  exact Snippet.isWellFormed_of_mem_pieces ht

/-- A field that says twice that it is a check box, without an end and with text behind it. -/
def checkboxSnippet : Snippet :=
  .opening ⟨"Input", " type=\"checkbox\" ROLE = 'Checkbox ' required /"⟩
    ⟨by decide, ⟨'t', rfl, by decide⟩,
      [⟨" ", "type", some ⟨[], [], '"', "checkbox", '"', by decide, by decide, rfl, rfl, by decide,
          by decide, by decide⟩, by decide, by decide, by decide, by decide⟩,
        ⟨" ", "ROLE", some ⟨" ", " ", '\x27', "Checkbox ", '\x27', by decide, by decide, rfl, rfl,
          by decide, by decide, by decide⟩, by decide, by decide, by decide, by decide⟩,
        ⟨" ", "required", none, by decide, by decide, by decide, by decide⟩],
      " /", by decide, by decide, by decide⟩
    (.closing "label " (by decide) (.text "a > b" (by decide) .nil))

/-- The check box loses its role, and is one still. -/
theorem effectiveRoles_apply_checkbox :
    Options.ClosesNothing { Options.default with addTablists := false } ∧
      checkboxSnippet.write =
        "<Input type=\"checkbox\" ROLE = 'Checkbox ' required /></label >a > b" ∧
      (apply { Options.default with addTablists := false } checkboxSnippet.write).text =
        "<Input type=\"checkbox\" required /></label >a > b" ∧
      List.Forall₂ (Tag.Piecewise SameEffectiveRole) checkboxSnippet.pieces
        (Tag.pieces (apply { Options.default with addTablists := false }
          checkboxSnippet.write).text) :=
  ⟨by decide, by decide +kernel, by decide +kernel,
    effectiveRoles_apply_write _ (by decide) rfl checkboxSnippet⟩

end Fix
end AriaLint
