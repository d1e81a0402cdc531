import AriaLint.Proofs.Fix.Additions

/-!
# Edits stay inside opening tags

The passes run one after the other, and each of them cuts the text anew that the one before has
left.  So a later pass need not see the tags of the snippet: when a redundant role has been taken
out of a tag, its name may run into what stood behind the role, and the tag may be gone.
Nevertheless all edits together stay within the tags of the snippet (`exists_keepsPlace_apply`).

The invariant is `Framed`.  The pieces of the text reached so far fall into groups, one for each
piece of the snippet: the character itself for a character, and for a tag a group of pieces whose
text can stand where the tag stood.

* The first pass establishes it.  It rewrites tags, each within its own place, and the pieces of the
  new text fall into groups by `Tag.exists_groups`.
* Additions keep it (`Framed.extended`).  They do not change which pieces there are, and within a
  group they keep its text in its place by `Tag.StandsFor.extended`.
-/

namespace AriaLint
namespace Fix

open Tag

/-! ## The invariant -/

/-- The pieces of the text fall into groups, one for each piece of the snippet, that stand where
the pieces of the snippet stood. -/
def Framed (snippet t : Text) : Prop :=
  ∃ gs, List.Forall₂ IsGroup (pieces snippet) gs ∧ pieces t = gs.flatten

theorem framed_of_keepsPlace {snippet : Text} {us : List Text}
    (h : List.Forall₂ KeepsPlace (pieces snippet) us) : Framed snippet us.flatten :=
  exists_groups h

theorem Framed.refl (snippet : Text) : Framed snippet snippet := by
  have h := keepsPlace_of_extended isAddition_tablistRole
    (forall₂_extended_refl (pieces snippet))
  have hframed := framed_of_keepsPlace h
  rwa [flatten_map_write, textOf_pieces] at hframed

theorem textOf_flatten (gs : List (List (Piece Tag))) :
    textOf gs.flatten = (gs.map textOf).flatten := by
  induction gs with
  | nil => rfl
  | cons g gs ih =>
    rw [List.flatten_cons, textOf_append, ih]
    rfl

/-- **What the invariant is for.** -/
theorem Framed.exists_keepsPlace {snippet t : Text} (h : Framed snippet t) :
    ∃ us, List.Forall₂ KeepsPlace (pieces snippet) us ∧ t = us.flatten := by
  obtain ⟨gs, hgs, hflat⟩ := h
  refine ⟨gs.map textOf, ?_, ?_⟩
  · rw [List.forall₂_map_right_iff]
    exact hgs.imp fun _ _ hg => hg.keepsPlace
  · rw [← textOf_flatten, ← hflat, textOf_pieces]

/-! ## Additions keep the invariant -/

theorem forall₂_flatten_inv {α β : Type} {R : α → β → Prop} {gs : List (List α)} {qs : List β}
    (h : List.Forall₂ R gs.flatten qs) :
    ∃ hs, List.Forall₂ (List.Forall₂ R) gs hs ∧ qs = hs.flatten := by
  induction gs generalizing qs with
  | nil =>
    cases h
    exact ⟨[], List.Forall₂.nil, rfl⟩
  | cons g gs ih =>
    obtain ⟨v, w, rfl, hv, hw⟩ := forall₂_append_inv h
    obtain ⟨hs, hhs, rfl⟩ := ih hw
    exact ⟨v :: hs, List.Forall₂.cons hv hhs, rfl⟩

theorem IsGroup.extended {A : Text → Prop} (hA : ∀ add, A add → IsAddition add) {p : Piece Tag}
    (hname : ∀ t, p = .item t → ∀ c ∈ t.rawName, isNameChar c = true) {g g' : List (Piece Tag)}
    (hg : IsGroup p g) (h : List.Forall₂ (Extended A) g g') : IsGroup p g' := by
  cases p with
  | char c =>
    obtain rfl : g = [.char c] := hg
    obtain ⟨q, rest, hq, hrest, rfl⟩ := List.forall₂_cons_left_iff.1 h
    cases hq
    cases hrest
    rfl
  | item t => exact StandsFor.extended hA (hname t rfl) h hg

theorem forall₂_isGroup_extended {A : Text → Prop} (hA : ∀ add, A add → IsAddition add)
    {ps : List (Piece Tag)} (hname : ∀ t, .item t ∈ ps → ∀ c ∈ t.rawName, isNameChar c = true)
    {gs hs : List (List (Piece Tag))} (hgs : List.Forall₂ IsGroup ps gs)
    (h : List.Forall₂ (List.Forall₂ (Extended A)) gs hs) : List.Forall₂ IsGroup ps hs := by
  induction hgs generalizing hs with
  | nil =>
    cases h
    exact List.Forall₂.nil
  | @cons p g ps gs hp _ ih =>
    cases h with
    | cons hgh hrest =>
      refine List.Forall₂.cons ?_ (ih (fun t ht => hname t (List.mem_cons_of_mem p ht)) hrest)
      refine IsGroup.extended hA ?_ hp hgh
      rintro t rfl
      exact hname t List.mem_cons_self

/-- **Additions keep the invariant.** -/
theorem Framed.extended {A : Text → Prop} (hA : ∀ add, A add → IsAddition add) {snippet t : Text}
    (h : Framed snippet t) {ps : List (Piece Tag)}
    (hps : List.Forall₂ (Extended A) (pieces t) ps) : Framed snippet (textOf ps) := by
  have hpieces : pieces (textOf ps) = ps := pieces_textOf_of_extended hA hps
  obtain ⟨gs, hgs, hflat⟩ := h
  rw [hflat] at hps
  obtain ⟨hs, hhs, rfl⟩ := forall₂_flatten_inv hps
  exact ⟨hs, forall₂_isGroup_extended hA (fun t ht => isNameChar_of_mem_pieces ht) hgs hhs,
    hpieces⟩

/-! ## The passes -/

/-- Taking a role out adds no character. -/
theorem mem_of_mem_withoutRole {attrs : Text} {c : Char} (h : c ∈ withoutRole attrs) :
    c ∈ attrs := by
  unfold withoutRole at h
  split at h
  · next f hf =>
    have hname : Attribute.IsQuoteless (Text.lower "role") := by decide
    obtain ⟨k, d, rfl, -⟩ := (Attribute.endsAt_named hname true).find?_eq_some hf
    rcases List.mem_append.1 h with h | h
    · refine List.mem_append_left _ ?_
      rw [← Text.trimRight_append_trailingBlanks f.before]
      exact List.mem_append_left _ h
    · simp [h]
  · exact h

/-- A tag carries a role that its element has anyway. -/
theorem removeRedundantRole?_eq_none_iff {t : Tag} :
    removeRedundantRole? t = none ↔
      ∀ role, Role.implicit? t.name t.attrs = some role → t.role? ≠ some role := by
  unfold removeRedundantRole?
  cases himplicit : Role.implicit? t.name t.attrs with
  | none => exact ⟨fun _ _ h => absurd h (Option.some_ne_none _).symm, fun _ => rfl⟩
  | some native =>
    dsimp only
    constructor
    · intro h role hrole heq
      obtain rfl := Option.some.inj hrole
      rw [if_pos heq] at h
      exact absurd h (Option.some_ne_none _)
    · intro h
      rw [if_neg (h native rfl)]

/-- A tag without its redundant role has the old name, and no closing bracket within. -/
theorem standsFor_removeRedundantRole {t : Tag} {e : Edit} (hname : '>' ∉ t.rawName)
    (hattrs : '>' ∉ t.attrs) (h : removeRedundantRole? t = some e) :
    StandsFor t e.tag.source := by
  unfold removeRedundantRole? at h
  split at h
  · exact absurd h (by simp)
  · split at h
    · obtain rfl := Option.some.inj h
      have hstands : StandsFor ⟨t.rawName, withoutRole t.attrs⟩
          (Tag.mk t.rawName (withoutRole t.attrs)).source :=
        standsFor_source (fun hmem => hattrs (mem_of_mem_withoutRole hmem)) hname
      exact ⟨hstands.opens, hstands.closes⟩
    · exact absurd h (by simp)

/-- The first pass rewrites each tag within its own place. -/
theorem framed_removeRedundantRoles (snippet : Text) :
    Framed snippet (editTags removeRedundantRole? snippet).text := by
  rw [text_editTags, ← flatten_map_write]
  refine framed_of_keepsPlace ?_
  rw [List.forall₂_map_right_iff, List.forall₂_map_right_iff, List.forall₂_same]
  intro p hp
  cases p with
  | char c => rfl
  | item t =>
    have hattrs : '>' ∉ t.attrs := not_mem_attrs_of_mem_pieces hp
    have hname : '>' ∉ t.rawName :=
      not_mem_of_delimitsName (isNameChar_of_mem_pieces hp) delimitsName_close
    show StandsFor t (((removeRedundantRole? t).map Edit.tag).getD t).source
    cases he : removeRedundantRole? t with
    | none => exact standsFor_source hattrs hname
    | some e => exact standsFor_removeRedundantRole hname hattrs he

theorem framed_editTags {A : Text → Prop} (hA : ∀ add, A add → IsAddition add)
    {edit? : Tag → Option Edit} (hedit : Adds A edit?) {snippet t : Text}
    (h : Framed snippet t) : Framed snippet (editTags edit? t).text := by
  rw [text_editTags]
  exact h.extended hA (forall₂_extended_editPiece hedit _)

theorem framed_addTablists (trackDepth : Bool) {snippet t : Text} (h : Framed snippet t) :
    Framed snippet (addTablists trackDepth t).text := by
  obtain ⟨ps, hps, htext⟩ := exists_extended_addTablists trackDepth t
  rw [htext]
  exact h.extended isAddition_tablistRole hps

/-- The values that an option fills in close no bracket. -/
def Options.ClosesNothing (o : Options) : Prop :=
  ∀ value ∈ [o.checked, o.valueMin, o.valueMax, o.valueNow], '>' ∉ value

instance (o : Options) : Decidable o.ClosesNothing :=
  inferInstanceAs (Decidable (∀ value ∈ [o.checked, o.valueMin, o.valueMax, o.valueNow],
    '>' ∉ value))

theorem isAddition_checked {o : Options} (h : o.ClosesNothing) :
    ∀ add, add = written "aria-checked" o.checked → IsAddition add := by
  rintro add rfl
  exact isAddition_written (by decide) (h o.checked (by simp))

theorem isAddition_range {o : Options} (h : o.ClosesNothing) :
    ∀ add, SomeOf (rangeDefaults o) add → IsAddition add := by
  rintro add ⟨ds, hne, hsub, rfl⟩
  refine isAddition_flatMap_written hne fun d hd => ?_
  have hmem := List.of_mem_zip (hsub hd)
  have hnames : ∀ name ∈ Role.valueRange, '>' ∉ name := by decide
  refine ⟨hnames d.1 hmem.1, h d.2 ?_⟩
  exact List.mem_cons_of_mem _ hmem.2

/-- What a pass keeps is kept whether the pass is wanted or not. -/
theorem Result.keeps_andThenIf {Q : Text → Prop} {r : Result} {pass : Text → Result}
    (h : Q r.text) (wanted : Bool) (hpass : Q r.text → Q (pass r.text).text) :
    Q (r.andThenIf wanted pass).text := by
  cases wanted with
  | false => exact h
  | true => exact hpass h

theorem Framed.andThenIf {snippet : Text} {r : Result} {pass : Text → Result}
    (h : Framed snippet r.text) (wanted : Bool)
    (hpass : Framed snippet r.text → Framed snippet (pass r.text).text) :
    Framed snippet (r.andThenIf wanted pass).text :=
  Result.keeps_andThenIf h wanted hpass

/-- **All edits stay inside opening tags.**  Whichever fixes are wanted, the text between the tags
of the snippet stays as it is, and each tag is replaced by a text that starts with its bracket and
name and closes no bracket before its last character. -/
theorem exists_keepsPlace_apply (o : Options) (ho : o.ClosesNothing) (snippet : Text) :
    ∃ us, List.Forall₂ KeepsPlace (pieces snippet) us ∧ (apply o snippet).text = us.flatten := by
  refine Framed.exists_keepsPlace ?_
  refine Framed.andThenIf ?_ _ (framed_addTablists o.trackDepth)
  refine Framed.andThenIf ?_ _ (framed_editTags (isAddition_range ho) (adds_addValueRange _))
  refine Framed.andThenIf ?_ _ (framed_editTags (isAddition_checked ho) (adds_addChecked _))
  refine Framed.andThenIf (Framed.refl snippet) _ fun _ => ?_
  exact framed_removeRedundantRoles snippet

/-- The redundant role is taken out of a tag within whose attributes a container starts. -/
theorem exists_keepsPlace_nested :
    Options.default.ClosesNothing ∧
      (apply .default "<button role='button'<p ><b role='tab'></b></p>").text =
        "<button<p role=\"tablist\" ><b role='tab'></b></p>" ∧
      ∃ us, List.Forall₂ KeepsPlace
          (pieces "<button role='button'<p ><b role='tab'></b></p>") us ∧
        (apply .default "<button role='button'<p ><b role='tab'></b></p>").text = us.flatten :=
  ⟨by decide, by decide +kernel, exists_keepsPlace_apply .default (by decide) _⟩

end Fix
end AriaLint
