import AriaLint.Proofs.Markup.Bracket
import AriaLint.Proofs.Markup.Plain
import AriaLint.Proofs.Tag.Frame

/-!
# Fragments that differ in some tags

When a few tags of a fragment are written anew, which text does the fragment show?  The same one, if
the walk takes each of these tags as a start tag, and finds the same name in it as before: of a start
tag it keeps nothing else.  It need not take them so.  A tag may stand in a comment or a script, or
behind a quote that the markup has left open.

`OpensIn` says that the walk over a fragment takes a tag as a start tag, and `OpenAlike` that it does
so in both fragments wherever their tags are not the same.  Then the two walks go in lockstep
(`content_eq_of_openAlike`).  Between two such tags they need not make the same steps, for what a
construct is may depend on what follows it.  But in front of the next bracket that both of them come
to they have read the same (`state_eq_of_reaches`).
-/

namespace AriaLint.Markup

open StateTransition (Reaches)
open Tag (textOf)

/-- The walk over the fragment takes the tag, with `rest` behind it, as the start tag of an element
of that name. -/
def OpensIn (fragment : Text) (t : Tag) (rest name : Text) (isSelfClosing : Bool) : Prop :=
  ∃ s, Reaches step? (.empty, fragment) (s, t.source ++ rest) ∧
    step? (s, t.source ++ rest) = some (s.openTag name isSelfClosing, rest)

/-- The same pieces, apart from tags that open the same element in both fragments.  The pieces and
`z` are what is left of the fragments. -/
inductive OpenAlike (x y z : Text) : List (Piece Tag) → List (Piece Tag) → Prop
  | nil : OpenAlike x y z [] []
  | same (p : Piece Tag) {ps qs : List (Piece Tag)} (h : OpenAlike x y z ps qs) :
      OpenAlike x y z (p :: ps) (p :: qs)
  | opened {t u : Tag} {name : Text} {isSelfClosing : Bool} {ps qs : List (Piece Tag)}
      (hx : OpensIn x t (textOf ps ++ z) name isSelfClosing)
      (hy : OpensIn y u (textOf qs ++ z) name isSelfClosing) (h : OpenAlike x y z ps qs) :
      OpenAlike x y z (.item t :: ps) (.item u :: qs)

section Lockstep

variable {x y z : Text} {ps qs : List (Piece Tag)}

/-- The walks come to their tags in the same state when they have come to a text in the same state
that both fragments share up to there. -/
theorem state_eq_of_reaches_source {t u : Tag} {a rest rest' : Text} {s s₁ s₂ : State}
    (hx : Reaches step? (.empty, x) (s, a ++ (t.source ++ rest)))
    (hy : Reaches step? (.empty, y) (s, a ++ (u.source ++ rest')))
    (h₁ : Reaches step? (.empty, x) (s₁, t.source ++ rest))
    (h₂ : Reaches step? (.empty, y) (s₂, u.source ++ rest')) : s₁ = s₂ :=
  state_eq_of_reaches (reaches_of_length_le hx h₁ (by simp)) (reaches_of_length_le hy h₂ (by simp))

/-- **The walks go in lockstep.**  What is left of the fragments begins with a text `a` that they
share, and the walks are in the same state in front of it. -/
theorem walk_eq_of_openAlike (h : OpenAlike x y z ps qs) {s : State} {a : Text}
    (hx : Reaches step? (.empty, x) (s, a ++ (textOf ps ++ z)))
    (hy : Reaches step? (.empty, y) (s, a ++ (textOf qs ++ z))) :
    walk false .empty x = walk false .empty y := by
  induction h generalizing s a with
  | nil => exact (walk_eq_of_reaches hx).trans (walk_eq_of_reaches hy).symm
  | same p _ ih =>
    have hmove : ∀ r, a ++ (textOf (p :: r) ++ z) = a ++ p.write Tag.source ++ (textOf r ++ z) := by
      intro r
      rw [textOf, List.flatMap_cons, List.append_assoc, List.append_assoc]
      rfl
    rw [hmove] at hx hy
    exact ih hx hy
  | opened hopen hopen' _ ih =>
    obtain ⟨s₁, hreach, hstep⟩ := hopen
    obtain ⟨s₂, hreach', hstep'⟩ := hopen'
    rw [Tag.textOf_item, List.append_assoc] at hx hy
    obtain rfl := state_eq_of_reaches_source hx hy hreach hreach'
    -- behind the tags nothing is shared yet
    exact ih (a := []) (hreach.tail hstep) (hreach'.tail hstep')

/-- **Fragments that open alike** have the same text content. -/
theorem content_eq_of_openAlike
    (h : OpenAlike (textOf ps ++ z) (textOf qs ++ z) z ps qs) :
    content (textOf ps ++ z) = content (textOf qs ++ z) := by
  have hwalk := walk_eq_of_openAlike h (a := []) (s := .empty) .refl .refl
  rw [content, content, hwalk]

theorem visibleText_eq_of_openAlike
    (h : OpenAlike (textOf ps ++ z) (textOf qs ++ z) z ps qs) :
    visibleText (textOf ps ++ z) = visibleText (textOf qs ++ z) := by
  rw [visibleText_eq, visibleText_eq, content_eq_of_openAlike h]

end Lockstep

end AriaLint.Markup
