import AriaLint.Proofs.Closing.Counting
import AriaLint.Proofs.Tag.Frame

/-!
# Closing tags in texts with edited tags

When tags of a text are edited, where is the first closing tag of a name?  The search goes over tags
and the characters between them, and it may not find the same in both texts: a closing tag may be
spelled out in the attributes of a tag, and an edit there can make or break it.

Outside of the edited tags this cannot happen.

* A closing tag holds no tag, so where one is read at the head of some pieces it consists of
  characters, and is there in the other text too (`isSome_read?_of_piecewise`).
* A tag that has stayed the same settles by itself whether a closing tag begins in it, because its
  last character is the first closing bracket (`first?_source_append`).

So a search can be followed in both texts at once, until it comes to an edited tag.
-/

namespace AriaLint

open Tag (textOf Piecewise AreRead)

namespace Closing

variable {name : Text}

/-- A tag begins with a name, so that it closes nothing. -/
theorem read?_opening_eq_none {t : Tag} (ht : ∃ u rest, Tag.read? u = some (t, rest)) (z : Text) :
    read? sameLetter name (t.source ++ z) = none := by
  obtain ⟨u, rest, hread⟩ := ht
  obtain ⟨-, v, -, hcut⟩ := Tag.read?_eq_some_iff.1 hread
  obtain ⟨c, n, hraw⟩ := List.exists_cons_of_ne_nil (Tag.isNameOf_of_readName? hcut).1.nonempty
  have hc : Tag.isNameChar c = true :=
    Tag.isNameChar_of_read? hread c (by rw [hraw]; exact List.mem_cons_self)
  cases hclose : read? sameLetter name (t.source ++ z) with
  | none => rfl
  | some after =>
    obtain ⟨n', b, htext, -⟩ := read?_eq_some_iff.1 hclose
    rw [Tag.source, hraw] at htext
    obtain rfl : c = '/' := (List.cons.inj (List.cons.inj htext).2).1
    exact absurd hc (by decide)

/-! ## Pieces that stand in pairs -/

section Piecewise

variable {R : Tag → Tag → Prop} {ps qs : List (Piece Tag)} (h : List.Forall₂ (Piecewise R) ps qs)

include h in
/-- Up to the next bracket, the texts are the same. -/
theorem exists_textOf_eq_append {k m : Text} (hk : '<' ∉ k) (htext : textOf ps = k ++ m) :
    ∃ m', textOf qs = k ++ m' := by
  induction h generalizing k with
  | nil =>
    obtain ⟨rfl, rfl⟩ := List.append_eq_nil_iff.1 htext.symm
    exact ⟨[], rfl⟩
  | @cons p q ps qs hpq _ ih =>
    cases k with
    | nil => exact ⟨_, rfl⟩
    | cons d k =>
      rw [List.mem_cons, not_or] at hk
      cases hpq with
      | char c =>
        obtain ⟨rfl, hrest⟩ := List.cons.inj htext
        obtain ⟨m', hm'⟩ := ih hk.2 hrest
        exact ⟨m', by rw [Tag.textOf_char, hm', List.cons_append]⟩
      | item htu => exact absurd (List.cons.inj htext).1 hk.1

include h in
/-- **A closing tag holds no tag**, so that it stands in both texts. -/
theorem isSome_read?_of_piecewise (hname : ∀ w ∈ name, sameLetter w '<' = false)
    (hread : AreRead ps) (hps : (read? sameLetter name (textOf ps)).isSome = true) :
    (read? sameLetter name (textOf qs)).isSome = true := by
  obtain ⟨rest, hclose⟩ := Option.isSome_iff_exists.1 hps
  obtain ⟨n, b, htext, hlike, hb⟩ := read?_eq_some_iff.1 hclose
  cases h with
  | nil => exact absurd htext (by simp)
  | cons hpq hrest =>
    cases hpq with
    | item htu =>
      rw [Tag.textOf_item, read?_opening_eq_none hread.head] at hclose
      exact absurd hclose (by simp)
    | char c =>
      rw [Tag.textOf_char] at htext ⊢
      obtain ⟨rfl, hbehind⟩ := List.cons.inj htext
      have hopen : '<' ∉ '/' :: (n ++ (b ++ ['>'])) := by
        have hn : '<' ∉ n := not_mem_of_forall₂ hname hlike
        have hblank : '<' ∉ b := not_mem_of_isBlankText hb (by decide)
        simp [hn, hblank]
      obtain ⟨m, hm⟩ := exists_textOf_eq_append hrest hopen (m := rest) (by simp [hbehind])
      rw [hm, Option.isSome_iff_exists]
      exact ⟨m, read?_eq_some_iff.2 ⟨n, b, by simp, hlike, hb⟩⟩

end Piecewise

/-! ## How a search goes on -/

/-- A search goes on behind a text when what it finds lies behind it. -/
theorem first?_of_before_eq {k m rest : Text} {f : Found Unit} (hf : first? name (k ++ m) = some f)
    (hbefore : f.before = k ++ rest) : first? name m = some { f with before := rest } := by
  obtain ⟨u, htext, hread, hnone⟩ := Reader.find?_eq_some_iff.1 hf
  rw [hbefore, List.append_assoc] at htext
  refine Reader.find?_eq_some_iff.2 ⟨u, List.append_cancel_left htext, hread, fun x c z hx => ?_⟩
  exact hnone (k ++ x) c z (by rw [hbefore, show rest = x ++ c :: z from hx, List.append_assoc])

/-- A search goes on behind a character at which nothing is closed. -/
theorem first?_cons {c : Char} {t : Text} (h : read? sameLetter name (c :: t) = none) :
    first? name (c :: t) = (first? name t).map fun f => { f with before := c :: f.before } := by
  have hread : (reader sameLetter name).read? none (c :: t) = none := by
    show (read? sameLetter name (c :: t)).map _ = none
    rw [h, Option.map_none]
  rw [first?, Reader.find?_of_not_read hread, find?_eq (some c) none]
  rfl

/-- A search ends where something is closed. -/
theorem first?_of_isSome_read? {t : Text} (h : (read? sameLetter name t).isSome = true) :
    ∃ f, first? name t = some f ∧ f.before = [] := by
  obtain ⟨rest, hrest⟩ := Option.isSome_iff_exists.1 h
  refine ⟨⟨[], (), rest⟩, Reader.find?_of_read ?_, rfl⟩
  show (read? sameLetter name t).map _ = _
  rw [hrest, Option.map_some]

theorem before_ne_nil_of_read?_eq_none {t : Text} {f : Found Unit}
    (h : read? sameLetter name t = none) (hf : first? name t = some f) : f.before ≠ [] := by
  intro hnil
  obtain ⟨u, htext, hread, -⟩ := Reader.find?_eq_some_iff.1 hf
  rw [hnil] at htext
  obtain rfl : t = u := htext
  obtain ⟨rest, hrest, -⟩ := Option.map_eq_some_iff.1 hread
  rw [h] at hrest
  exact absurd hrest (by simp)

/-- **A tag ends all that begins in it**: either the search ends in the tag, whatever follows, or it
goes on behind it. -/
theorem first?_source_append (hname : ∀ w ∈ name, sameLetter w '>' = false) (t : Tag) :
    (∃ x, ∀ m, ∃ f, first? name (t.source ++ m) = some f ∧ f.before = x) ∨
      PassesOver name t.source := by
  have hends := endsAt_reader hname
  cases hfirst : first? name t.source with
  | some f => exact Or.inl ⟨f.before, fun m => ⟨_, hends.find?_append hfirst m, rfl⟩⟩
  | none =>
    refine Or.inr fun before m => ?_
    rw [Reader.find?_append_of_forall fun x c z hsplit => ?_, find?_eq _ none]
    -- the bracket at the end of the tag settles what is read
    have hclose : '>' ∈ c :: z := by
      have hlast : (c :: z).getLast? = some '>' := by
        rw [← List.getLast?_append_of_ne_nil x (List.cons_ne_nil c z), ← hsplit, Tag.source,
          List.getLast?_concat]
      exact List.mem_of_getLast? hlast
    have hcount : 1 ≤ (c :: z).countP isClose := by
      rw [Nat.one_le_iff_ne_zero, ne_eq, countP_isClose_eq_zero, not_not]
      exact hclose
    rw [← List.cons_append, hends.read?_append hcount, Option.map_eq_none_iff]
    by_contra hread
    have hfound : (first? name t.source).isSome = true :=
      Reader.isSome_find?_iff.2 ⟨x, c :: z, hsplit, Option.isSome_iff_ne_none.2 hread⟩
    rw [hfirst] at hfound
    exact absurd hfound (by simp)

end Closing
end AriaLint
