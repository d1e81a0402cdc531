import AriaLint.Proofs.Tag.Pieces
import Mathlib.Data.List.Forall2

/-!
# Rewriting tags in place

When the tags of a text are rewritten and everything else is left alone, which tags does the new
text have?  Not always the rewritten ones: a tag whose name has run into the characters behind it
may be no tag any more, and another one may come to light inside it.  What can be said is where they
lie.

`KeepsPlace` is all that a rewritten tag has to satisfy for that: it starts with the old bracket and
name, and its only closing bracket is its last character.  Then

* no bracket between the tags starts a tag that it did not start before
  (`read?_open_eq_none_of_alike`), and
* the pieces of the new text fall into groups, one for each piece of the old text
  (`exists_groups`).

The reason is that both texts are alike up to the first tag behind a given place: the same
characters, then an opening bracket that is closed later.
-/

namespace AriaLint
namespace Tag

/-- The text can stand where the tag stood: it starts with the bracket and the name of the tag, and
its only closing bracket is its last character. -/
structure StandsFor (t : Tag) (u : Text) : Prop where
  opens : '<' :: t.rawName <+: u
  closes : ∃ v, u = v ++ ['>'] ∧ '>' ∉ v

/-- The text can stand where the piece stood: the same character, or a text that stands for the
tag. -/
def KeepsPlace : Piece Tag → Text → Prop
  | .char c, u => u = [c]
  | .item t, u => StandsFor t u

theorem standsFor_source {t : Tag} (h : '>' ∉ t.attrs) (hname : '>' ∉ t.rawName) :
    StandsFor t t.source where
  opens := ⟨t.attrs ++ ['>'], by simp [source]⟩
  closes := ⟨'<' :: t.rawName ++ t.attrs, by simp [source], by simp [h, hname]⟩

/-! ## Texts that are alike up to the next tag -/

/-- The same text, or the same characters up to an opening bracket that is closed in both. -/
def Alike (t u : Text) : Prop :=
  t = u ∨ ∃ g v w, t = g ++ '<' :: v ∧ u = g ++ '<' :: w ∧ '>' ∈ v ∧ '>' ∈ w

theorem Alike.cons {t u : Text} (c : Char) (h : Alike t u) : Alike (c :: t) (c :: u) := by
  rcases h with rfl | ⟨g, v, w, rfl, rfl, hv, hw⟩
  · exact Or.inl rfl
  · exact Or.inr ⟨c :: g, v, w, rfl, rfl, hv, hw⟩

/-- A text is alike to what it becomes when pieces keep their places. -/
theorem alike_of_keepsPlace {ps : List (Piece Tag)} {us : List Text}
    (h : List.Forall₂ KeepsPlace ps us) : Alike (textOf ps) us.flatten := by
  induction h with
  | nil => exact Or.inl rfl
  | @cons p u ps us hp _ ih =>
    cases p with
    | char c =>
      obtain rfl : u = [c] := hp
      exact ih.cons c
    | item t =>
      obtain ⟨⟨s, hopens⟩, v, hv, -⟩ : StandsFor t u := hp
      refine Or.inr ⟨[], t.rawName ++ t.attrs ++ '>' :: textOf ps, t.rawName ++ s ++ us.flatten,
        ?_, ?_, by simp, ?_⟩
      · simp [source]
      · rw [List.flatten_cons, ← hopens]
        simp
      · have hmem : '>' ∈ u := by
          rw [hv]
          simp
        rw [← hopens] at hmem
        simp only [List.cons_append, List.mem_cons, List.mem_append] at hmem ⊢
        rcases hmem with h | h | h
        · exact absurd h (by decide)
        · exact Or.inl (Or.inl h)
        · exact Or.inl (Or.inr h)

/-- A bracket that starts no tag starts none before an alike text either. -/
theorem read?_open_eq_none_of_alike {t u : Text} (h : read? ('<' :: t) = none)
    (halike : Alike t u) : read? ('<' :: u) = none := by
  rcases halike with rfl | ⟨g, v, w, rfl, rfl, hv, -⟩
  · exact h
  · have hcut : ∀ s, readName? (g ++ '<' :: s) = (readName? (g ++ ['<'])).map (extendCut s) := by
      intro s
      have hname : isNameChar '<' = false := isNameChar_eq_false delimitsName_open
      rw [← readName?_append_of_mem ⟨'<', by simp, hname⟩ s]
      simp
    rcases read?_open_eq_none_iff.1 h with hnone | hclose
    · refine read?_open_eq_none_iff.2 (Or.inl ?_)
      rw [hcut, Option.map_eq_none_iff] at hnone
      rw [hcut, hnone]
      rfl
    · exact absurd (by simp [hv]) hclose

theorem read?_eq_none_of_alike {c : Char} {t u : Text} (h : read? (c :: t) = none)
    (halike : Alike t u) : read? (c :: u) = none := by
  by_cases hc : c = '<'
  · subst hc
    exact read?_open_eq_none_of_alike h halike
  · exact read?_cons_of_ne hc u

/-! ## The pieces of the new text -/

/-- A group of pieces that stand where one piece stood. -/
def IsGroup : Piece Tag → List (Piece Tag) → Prop
  | .char c, g => g = [.char c]
  | .item t, g => StandsFor t (textOf g)

theorem IsGroup.keepsPlace {p : Piece Tag} {g : List (Piece Tag)} (h : IsGroup p g) :
    KeepsPlace p (textOf g) := by
  cases p with
  | char c => rw [show g = [.char c] from h]; rfl
  | item t => exact h

/-- **The pieces of the new text fall into groups**, one for each piece of the old text. -/
theorem exists_groups {t : Text} {us : List Text} (h : List.Forall₂ KeepsPlace (pieces t) us) :
    ∃ gs, List.Forall₂ IsGroup (pieces t) gs ∧ pieces us.flatten = gs.flatten := by
  induction t using piecesInduction generalizing us with
  | nil =>
    rw [pieces_nil] at h ⊢
    cases h
    exact ⟨[], List.Forall₂.nil, pieces_nil⟩
  | char c t hread ih =>
    rw [pieces_of_not_read hread] at h ⊢
    cases h with
    | @cons _ u _ us hp hrest =>
      obtain rfl : u = [c] := hp
      obtain ⟨gs, hgs, heq⟩ := ih hrest
      have halike : Alike t us.flatten := by
        have h' := alike_of_keepsPlace hrest
        rwa [textOf_pieces] at h'
      refine ⟨[.char c] :: gs, List.Forall₂.cons rfl hgs, ?_⟩
      show pieces (c :: us.flatten) = _
      rw [pieces_of_not_read (read?_eq_none_of_alike hread halike), heq]
      rfl
  | item t tag rest hread ih =>
    rw [pieces_of_read hread] at h ⊢
    cases h with
    | @cons _ u _ us hp hrest =>
      obtain ⟨gs, hgs, heq⟩ := ih hrest
      have hstands : StandsFor tag u := hp
      have hclosed : BracketsClose u := by
        obtain ⟨v, rfl, -⟩ := hstands.closes
        exact bracketsClose_append_close v
      refine ⟨pieces u :: gs, List.Forall₂.cons ?_ hgs, ?_⟩
      · show StandsFor tag (textOf (pieces u))
        rw [textOf_pieces]
        exact hstands
      · rw [List.flatten_cons, List.flatten_cons, pieces_append hclosed, heq]

/-! ## Tags that stay tags -/

/-- Each piece has become a piece of its own: characters stay, and tags are related. -/
inductive Piecewise (R : Tag → Tag → Prop) : Piece Tag → Piece Tag → Prop
  | char (c : Char) : Piecewise R (.char c) (.char c)
  | item {t u : Tag} (h : R t u) : Piecewise R (.item t) (.item u)

theorem Piecewise.forall₂_imp {R S : Tag → Tag → Prop} {ps qs : List (Piece Tag)}
    (h : List.Forall₂ (Piecewise R) ps qs) (himp : ∀ t, .item t ∈ ps → ∀ u, R t u → S t u) :
    List.Forall₂ (Piecewise S) ps qs := by
  have hand : List.Forall₂ (fun p q => p ∈ ps ∧ Piecewise R p q) ps qs :=
    (List.forall₂_and_left ps qs).2 ⟨fun _ hp => hp, h⟩
  refine hand.imp fun p q ⟨hp, hpq⟩ => ?_
  cases hpq with
  | char c => exact .char c
  | item htu => exact .item (himp _ hp _ htu)

theorem Piecewise.forall₂_swap {R : Tag → Tag → Prop} {ps qs : List (Piece Tag)}
    (h : List.Forall₂ (Piecewise R) ps qs) :
    List.Forall₂ (Piecewise fun u t => R t u) qs ps := by
  refine (h.imp (S := fun p q => Piecewise (fun u t => R t u) q p) fun p q hpq => ?_).flip
  cases hpq with
  | char c => exact .char c
  | item htu => exact .item htu

/-- What holds of the tags that stand in pairs need only be shown for these pairs. -/
theorem Piecewise.forall₂_of_zip {R S : Tag → Tag → Prop} {ps qs : List (Piece Tag)}
    (h : List.Forall₂ (Piecewise R) ps qs)
    (himp : ∀ p ∈ (ps.filterMap Piece.item?).zip (qs.filterMap Piece.item?),
      R p.1 p.2 → S p.1 p.2) : List.Forall₂ (Piecewise S) ps qs := by
  induction h with
  | nil => exact .nil
  | cons hpq _ ih =>
    cases hpq with
    | char c => exact .cons (.char c) (ih himp)
    | @item t u htu =>
      exact .cons (.item (himp (t, u) List.mem_cons_self htu))
        (ih fun p hp => himp p (List.mem_cons_of_mem _ hp))

/-- The second tag can take the place of the first one, and is read as a whole there. -/
structure Replaces (t u : Tag) : Prop where
  stands : StandsFor t u.source
  reads : ∀ rest, read? (u.source ++ rest) = some (u, rest)

/-- A tag that has been read replaces itself. -/
theorem Replaces.refl {s rest : Text} {t : Tag} (h : read? s = some (t, rest)) : Replaces t t := by
  obtain ⟨hclose, u, -, hname⟩ := read?_eq_some_iff.1 h
  exact ⟨standsFor_source hclose (not_mem_of_readName? hname delimitsName_close),
    read?_source_append h⟩

theorem keepsPlace_of_replaces {ps qs : List (Piece Tag)}
    (h : List.Forall₂ (Piecewise Replaces) ps qs) :
    List.Forall₂ KeepsPlace ps (qs.map (Piece.write source)) := by
  rw [List.forall₂_map_right_iff]
  refine h.imp fun p q hpq => ?_
  cases hpq with
  | char c => exact rfl
  | item h => exact h.stands

theorem flatten_map_write (ps : List (Piece Tag)) :
    (ps.map (Piece.write source)).flatten = textOf ps := by
  rw [textOf, List.flatMap_def]

/-- **Tags that replace the tags of a text are the tags of the new text.** -/
theorem pieces_textOf_of_replaces {t : Text} {ps : List (Piece Tag)}
    (h : List.Forall₂ (Piecewise Replaces) (pieces t) ps) : pieces (textOf ps) = ps := by
  induction t using piecesInduction generalizing ps with
  | nil =>
    rw [pieces_nil] at h
    cases h
    exact pieces_nil
  | char c t hread ih =>
    rw [pieces_of_not_read hread] at h
    cases h with
    | @cons _ q _ qs hp hrest =>
      cases hp with
      | char c =>
        have halike : Alike t (textOf qs) := by
          have h' := alike_of_keepsPlace (keepsPlace_of_replaces hrest)
          rwa [textOf_pieces, flatten_map_write] at h'
        rw [textOf_char, pieces_of_not_read (read?_eq_none_of_alike hread halike), ih hrest]
  | item t tag rest hread ih =>
    rw [pieces_of_read hread] at h
    cases h with
    | @cons _ q _ qs hp hrest =>
      cases hp with
      | item hu => rw [textOf_item, pieces_of_read (hu.reads _), ih hrest]

end Tag
end AriaLint
