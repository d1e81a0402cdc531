import AriaLint.Proofs.Closing.Edited
import AriaLint.Proofs.Markup.Lockstep
import AriaLint.Proofs.Smell.Success
import Mathlib.Data.List.Zip

/-!
# The visible text of elements that hold edited tags

Fixes edit attributes, and attributes are not shown.  So an element should show the same text before
and after, but it does not always.  Tags are found by a scan that ends a tag at the first closing
bracket, while the text of an element is read by the rules of markup, where a closing bracket may
stand in a quoted value.  What the scan takes for a tag may then be a part of something else: of an
attribute whose quote is still open, of a comment, of a script.  Quotes that are added there may
open or close a value, and hide what follows or lay it open.

`HoldsUnread` says that this is so: an edited tag starts in the content of the element, but the markup
of the content does not take it as a start tag, or does not take it as the same one in both texts.
There is no other reason for another text (`innerText_eq_of_not_holdsUnread`).  If each edited tag in
the content is taken as a start tag, then the first closing tag of the element is found at the same
place (`corresponds_of_searching`), and the walks over the two contents go in lockstep.
-/

namespace AriaLint
namespace Fix

open Tag Closing
open Markup (OpensIn OpenAlike visibleText)

/-! ## Edited tags that markup does not read as tags -/

/-- The markup `inner`, which begins at the position `start`, takes the tag as the start tag of an
element of that name. -/
def OpensAt (inner : Text) (start : Nat) (e : Occurrence) (name : Text) (isSelfClosing : Bool) :
    Prop :=
  ∃ a rest, inner = a ++ (e.tag.source ++ rest) ∧ e.start = start + a.length ∧
    OpensIn inner e.tag rest name isSelfClosing

/-- A tag starts between another one and the first closing tag of its name. -/
def StartsWithin (s : Text) (o e : Occurrence) : Prop :=
  ∃ inner ∈ o.inner? s, o.stop ≤ e.start ∧ e.start < o.stop + inner.length

/-- The markup inside two elements takes two tags as start tags of the same kind. -/
def OpenWithin (s u : Text) (o o' e e' : Occurrence) : Prop :=
  ∃ x ∈ o.inner? s, ∃ y ∈ o'.inner? u, ∃ name isSelfClosing,
    OpensAt x o.stop e name isSelfClosing ∧ OpensAt y o'.stop e' name isSelfClosing

/-- **The element holds an edited tag that its markup does not take as a start tag**, or not as one
of the same kind in both texts. -/
def HoldsUnread (s u : Text) (o o' : Occurrence) : Prop :=
  ∃ e ∈ (Occurrence.all s).zip (Occurrence.all u), e.1.tag ≠ e.2.tag ∧
    (StartsWithin s o e.1 ∨ StartsWithin u o' e.2) ∧ ¬ OpenWithin s u o o' e.1 e.2

theorem OpenWithin.symm {s u : Text} {o o' e e' : Occurrence} (h : OpenWithin s u o o' e e') :
    OpenWithin u s o' o e' e := by
  obtain ⟨x, hx, y, hy, name, b, hex, hey⟩ := h
  exact ⟨y, hy, x, hx, name, b, hey, hex⟩

theorem HoldsUnread.symm {s u : Text} {o o' : Occurrence} (h : HoldsUnread u s o' o) :
    HoldsUnread s u o o' := by
  obtain ⟨⟨e, e'⟩, hmem, hne, hstarts, hnot⟩ := h
  refine ⟨(e', e), ?_, hne.symm, hstarts.symm, fun hopen => hnot hopen.symm⟩
  rw [← List.zip_swap]
  exact List.mem_map_of_mem (f := Prod.swap) hmem

/-- A tag that is opened stands in the markup where it starts. -/
theorem OpensAt.exists_rest {inner a r : Text} {t : Tag} {start : Nat} {name : Text}
    {isSelfClosing : Bool} (h : OpensAt inner start ⟨t, start + a.length⟩ name isSelfClosing)
    (hsplit : inner = a ++ r) :
    ∃ rest, r = t.source ++ rest ∧ OpensIn inner t rest name isSelfClosing := by
  obtain ⟨d, rest, hd, hlength, hopens⟩ := h
  rw [hsplit] at hd
  exact ⟨rest, (List.append_inj hd (Nat.add_left_cancel hlength)).2, hopens⟩

/-! ## What is left of two elements -/

/-- What is left of two fragments behind `a` and `b` opens alike. -/
def Corresponds (x : Text) (y? : Option Text) (a b : Text) : Prop :=
  ∃ ps qs z, x = a ++ (textOf ps ++ z) ∧ ∃ y ∈ y?, y = b ++ (textOf qs ++ z) ∧
    OpenAlike x y z ps qs

namespace Corresponds

variable {x : Text} {y? : Option Text} {a b : Text}

theorem rest {z : Text} (hx : x = a ++ z) (hy : y? = some (b ++ z)) : Corresponds x y? a b :=
  ⟨[], [], z, hx, _, hy, rfl, .nil⟩

theorem same {p : Piece Tag} (h : Corresponds x y? (a ++ p.write source) (b ++ p.write source)) :
    Corresponds x y? a b := by
  obtain ⟨ps, qs, z, hx, y, hy, hsplit, halike⟩ := h
  have htext : ∀ c ps, c ++ p.write source ++ (textOf ps ++ z) = c ++ (textOf (p :: ps) ++ z) := by
    intro c ps
    simp [textOf]
  rw [htext] at hx hsplit
  exact ⟨p :: ps, p :: qs, z, hx, y, hy, hsplit, halike.same p⟩

theorem opened {t t' : Tag} {y name : Text} {k k' : Nat} {isSelfClosing : Bool} (hmem : y ∈ y?)
    (ht : OpensAt x k ⟨t, k + a.length⟩ name isSelfClosing)
    (ht' : OpensAt y k' ⟨t', k' + b.length⟩ name isSelfClosing)
    (h : Corresponds x y? (a ++ t.source) (b ++ t'.source)) : Corresponds x y? a b := by
  obtain ⟨ps, qs, z, hx, y', hy, hsplit, halike⟩ := h
  obtain rfl : y' = y := Option.mem_unique hy hmem
  rw [List.append_assoc] at hx hsplit
  obtain ⟨rest, hrest, hopens⟩ := ht.exists_rest hx
  obtain ⟨rest', hrest', hopens'⟩ := ht'.exists_rest hsplit
  obtain rfl := List.append_cancel_left hrest
  obtain rfl := List.append_cancel_left hrest'
  refine ⟨.item t :: ps, .item t' :: qs, z, ?_, y', hy, ?_, .opened hopens hopens' halike⟩
  · rw [textOf_item, List.append_assoc, ← hx]
  · rw [textOf_item, List.append_assoc, ← hsplit]

end Corresponds

/-! ## The search for the closing tag -/

/-- The search for the first closing tag of two elements goes on with `ps` and `qs`, behind `a` and
`b`; it ends the first element at `x`, and the second one at `y?` if at all. -/
structure Searching (name x : Text) (y? : Option Text) (a b : Text) (ps qs : List (Piece Tag)) :
    Prop where
  left : ∃ f, first? name (textOf ps) = some f ∧ x = a ++ f.before
  right : y? = (first? name (textOf qs)).map fun g => b ++ g.before

namespace Searching

variable {name x : Text} {y? : Option Text} {a b : Text} {ps qs : List (Piece Tag)}

/-- The search ends in front of the same text. -/
theorem ends (h : Searching name x y? a b ps qs) {z : Text}
    (hps : ∃ f, first? name (textOf ps) = some f ∧ f.before = z)
    (hqs : ∃ g, first? name (textOf qs) = some g ∧ g.before = z) : Corresponds x y? a b := by
  obtain ⟨f, hf, hx⟩ := h.left
  obtain ⟨f', hf', hz⟩ := hps
  obtain ⟨g, hg, hz'⟩ := hqs
  obtain rfl := Option.some.inj (hf.symm.trans hf')
  have hy := h.right
  rw [hg, Option.map_some, hz'] at hy
  rw [hz] at hx
  exact .rest hx hy

/-- Nothing is closed at a character. -/
theorem char {c : Char} (h : Searching name x y? a b (.char c :: ps) (.char c :: qs))
    (hps : read? sameLetter name (c :: textOf ps) = none)
    (hqs : read? sameLetter name (c :: textOf qs) = none) :
    Searching name x y? (a ++ [c]) (b ++ [c]) ps qs := by
  obtain ⟨⟨f, hf, hx⟩, hy⟩ := h
  rw [textOf_char, first?_cons hps] at hf
  obtain ⟨f', hf', rfl⟩ := Option.map_eq_some_iff.1 hf
  rw [textOf_char, first?_cons hqs, Option.map_map] at hy
  refine ⟨⟨f', hf', ?_⟩, ?_⟩
  · rw [hx]
    simp
  · rw [hy]
    simp [Function.comp_def]

/-- A tag that is the same in both texts is passed over. -/
theorem passed {t : Tag} (h : Searching name x y? a b (.item t :: ps) (.item t :: qs))
    (hpass : PassesOver name t.source) :
    Searching name x y? (a ++ t.source) (b ++ t.source) ps qs := by
  obtain ⟨⟨f, hf, hx⟩, hy⟩ := h
  rw [textOf_item, first?, hpass] at hf
  obtain ⟨f', hf', rfl⟩ := Option.map_eq_some_iff.1 hf
  rw [textOf_item, first?, hpass, Option.map_map] at hy
  refine ⟨⟨f', hf', ?_⟩, ?_⟩
  · rw [hx]
    simp
  · rw [hy]
    simp [Function.comp_def, first?]

/-- Tags that are opened lie within the elements. -/
theorem opened {t t' : Tag} {y n : Text} {k k' : Nat} {isSelfClosing : Bool}
    (h : Searching name x y? a b (.item t :: ps) (.item t' :: qs)) (hmem : y ∈ y?)
    (ht : OpensAt x k ⟨t, k + a.length⟩ n isSelfClosing)
    (ht' : OpensAt y k' ⟨t', k' + b.length⟩ n isSelfClosing) :
    Searching name x y? (a ++ t.source) (b ++ t'.source) ps qs := by
  obtain ⟨⟨f, hf, hx⟩, hy⟩ := h
  rw [textOf_item] at hf hy
  obtain ⟨rest, hrest, -⟩ := ht.exists_rest hx
  obtain ⟨g, hg, hsplit⟩ := Option.map_eq_some_iff.1 (hy.symm.trans hmem)
  obtain ⟨rest', hrest', -⟩ := ht'.exists_rest hsplit.symm
  refine ⟨⟨_, first?_of_before_eq hf hrest, ?_⟩, ?_⟩
  · rw [hx, hrest, List.append_assoc]
  · rw [hmem, first?_of_before_eq hg hrest', ← hsplit, hrest', Option.map_some, List.append_assoc]

end Searching

/-- **Up to the first closing tag** the two texts have the same pieces, apart from tags that open
alike: then no edited tag has a part in where the element ends. -/
theorem corresponds_of_searching {R : Tag → Tag → Prop} {ps qs : List (Piece Tag)}
    (h : List.Forall₂ (Piecewise R) ps qs) (hps : AreRead ps) (hqs : AreRead qs) {name : Text}
    (hless : ∀ w ∈ name, sameLetter w '<' = false)
    (hgreater : ∀ w ∈ name, sameLetter w '>' = false)
    {x a b : Text} {y? : Option Text} {k k' : Nat} (hsearch : Searching name x y? a b ps qs)
    (hopen : ∀ e ∈ (Occurrence.ofPieces (k + a.length) ps).zip
        (Occurrence.ofPieces (k' + b.length) qs),
      e.1.tag ≠ e.2.tag → e.1.start < k + x.length →
        ∃ y ∈ y?, ∃ n c, OpensAt x k e.1 n c ∧ OpensAt y k' e.2 n c) :
    Corresponds x y? a b := by
  induction h generalizing a b with
  | nil =>
    obtain ⟨f, hf, -⟩ := hsearch.left
    exact absurd hf (by simp [first?, Reader.find?])
  | @cons p q ps qs hpq hrest ih =>
    have hpieces := List.Forall₂.cons hpq hrest
    cases hread : read? sameLetter name (textOf (p :: ps)) with
    | some rest =>
      -- the closing tag is here, in both texts
      have hsome := Option.isSome_iff_exists.2 ⟨rest, hread⟩
      exact hsearch.ends (first?_of_isSome_read? hsome)
        (first?_of_isSome_read? (isSome_read?_of_piecewise hpieces hless hps hsome))
    | none =>
      cases hpq with
      | char c =>
        have hread' : read? sameLetter name (textOf (.char c :: qs)) = none := by
          rw [← Option.not_isSome_iff_eq_none] at hread ⊢
          exact fun hsome => hread
            (isSome_read?_of_piecewise (Piecewise.forall₂_swap hpieces) hless hqs hsome)
        refine .same (p := .char c) (ih hps.tail hqs.tail (hsearch.char hread hread') ?_)
        simpa [Piece.write, Occurrence.ofPieces, Nat.add_assoc] using hopen
      | @item t t' htt' =>
        have htail : ∀ e ∈ (Occurrence.ofPieces (k + (a ++ t.source).length) ps).zip
            (Occurrence.ofPieces (k' + (b ++ t'.source).length) qs),
            e ∈ (Occurrence.ofPieces (k + a.length) (.item t :: ps)).zip
              (Occurrence.ofPieces (k' + b.length) (.item t' :: qs)) := by
          intro e he
          simp only [List.length_append, ← Nat.add_assoc] at he
          exact List.mem_cons_of_mem _ he
        rcases eq_or_ne t t' with rfl | hne
        · rcases first?_source_append hgreater t with ⟨w, hw⟩ | hpass
          · exact hsearch.ends (hw (textOf ps)) (hw (textOf qs))
          · exact .same (p := .item t) (ih hps.tail hqs.tail (hsearch.passed hpass)
              fun e he => hopen e (htail e he))
        · -- the tag starts within the element, since nothing is closed in front of it
          have hlt : k + a.length < k + x.length := by
            obtain ⟨f, hf, hx⟩ := hsearch.left
            have hpos := List.length_pos_iff.2 (before_ne_nil_of_read?_eq_none hread hf)
            rw [hx, List.length_append]
            omega
          obtain ⟨y, hmem, n, c, ht, ht'⟩ := hopen _ List.mem_cons_self hne hlt
          exact .opened hmem ht ht' (ih hps.tail hqs.tail (hsearch.opened hmem ht ht')
            fun e he => hopen e (htail e he))

/-! ## Pairs of elements -/

/-- What follows two tags that stand in a pair. -/
theorem exists_rest_of_mem_zip {R : Tag → Tag → Prop} {ps qs : List (Piece Tag)}
    (h : List.Forall₂ (Piecewise R) ps qs) {i j : Nat} {p : Occurrence × Occurrence}
    (hp : p ∈ (Occurrence.ofPieces i ps).zip (Occurrence.ofPieces j qs)) :
    ∃ g g' r r', List.Forall₂ (Piecewise R) r r' ∧
      (ps = g ++ .item p.1.tag :: r ∧ p.1.start = i + (textOf g).length) ∧
      (qs = g' ++ .item p.2.tag :: r' ∧ p.2.start = j + (textOf g').length) ∧
      (Occurrence.ofPieces p.1.stop r).zip (Occurrence.ofPieces p.2.stop r') ⊆
        (Occurrence.ofPieces i ps).zip (Occurrence.ofPieces j qs) := by
  induction h generalizing i j with
  | nil => exact absurd hp (by simp [Occurrence.ofPieces])
  | cons hpq hrest ih =>
    cases hpq with
    | char c =>
      obtain ⟨g, g', r, r', hr, ⟨rfl, hi⟩, ⟨rfl, hj⟩, hsub⟩ := ih (i := i + 1) (j := j + 1) hp
      refine ⟨.char c :: g, .char c :: g', r, r', hr, ⟨rfl, ?_⟩, ⟨rfl, ?_⟩, hsub⟩
      · rw [hi, textOf_char, List.length_cons]
        omega
      · rw [hj, textOf_char, List.length_cons]
        omega
    | @item t t' htt' =>
      rcases List.mem_cons.1 hp with rfl | hp
      · exact ⟨[], [], _, _, hrest, ⟨rfl, rfl⟩, ⟨rfl, rfl⟩, List.subset_cons_self _ _⟩
      · obtain ⟨g, g', r, r', hr, ⟨rfl, hi⟩, ⟨rfl, hj⟩, hsub⟩ := ih hp
        refine ⟨.item t :: g, .item t' :: g', r, r', hr, ⟨rfl, ?_⟩, ⟨rfl, ?_⟩,
          List.subset_cons_of_subset _ hsub⟩
        · rw [hi, textOf_item, List.length_append, Nat.add_assoc]
        · rw [hj, textOf_item, List.length_append, Nat.add_assoc]

/-- The text behind a tag is what its pieces make up. -/
theorem after_eq_textOf {s : Text} {o : Occurrence} {g r : List (Piece Tag)}
    (hs : pieces s = g ++ .item o.tag :: r) (hstart : o.start = (textOf g).length) :
    o.after s = textOf r := by
  have h := Document.after_append (textOf g) o.tag (textOf r)
  rw [← hstart] at h
  rw [← textOf_pieces s, hs, textOf_append, textOf_item]
  exact h

/-- The content of an element that does not close itself. -/
theorem inner?_eq {o : Occurrence} {s : Text} (h : o.tag.isSelfClosing = false) :
    o.inner? s = (first? o.tag.name (o.after s)).map Found.before := by
  rw [Occurrence.inner?, h, if_neg (by simp)]

theorem isSelfClosing_of_inner? {o : Occurrence} {s x : Text} (h : o.inner? s = some x) :
    o.tag.isSelfClosing = false := by
  cases hself : o.tag.isSelfClosing with
  | false => rfl
  | true =>
    rw [Occurrence.inner?, hself, if_pos rfl] at h
    exact absurd h (by simp)

section Elements

variable {R : Tag → Tag → Prop} {s u : Text} {o o' : Occurrence}

/-- An element with content has content in the other text too, and shows the same. -/
theorem exists_inner?_of_not_holdsUnread
    (hpieces : List.Forall₂ (Piecewise R) (pieces s) (pieces u))
    (hmem : (o, o') ∈ (Occurrence.all s).zip (Occurrence.all u))
    (hname : o'.tag.name = o.tag.name) (hself : o'.tag.isSelfClosing = o.tag.isSelfClosing)
    (h : ¬ HoldsUnread s u o o') {x : Text} (hx : o.inner? s = some x) :
    ∃ y, o'.inner? u = some y ∧ visibleText y = visibleText x := by
  obtain ⟨g, g', r, r', hr, ⟨hs, hstart⟩, ⟨hu, hstart'⟩, hsub⟩ :=
    exists_rest_of_mem_zip hpieces hmem
  rw [Nat.zero_add] at hstart hstart'
  have hopen := isSelfClosing_of_inner? hx
  have hinner : o'.inner? u = (first? o.tag.name (textOf r')).map Found.before := by
    rw [inner?_eq (hself.trans hopen), after_eq_textOf hu hstart', hname]
  have hfirst : (first? o.tag.name (textOf r)).map Found.before = some x := by
    rw [← hx, inner?_eq hopen, after_eq_textOf hs hstart]
  obtain ⟨f, hf, rfl⟩ := Option.map_eq_some_iff.1 hfirst
  have hchars : ∀ c ∈ o.tag.rawName, isNameChar c = true :=
    isNameChar_of_mem_pieces (t := s) (by rw [hs]; simp)
  have hread : AreRead r := fun t ht => areRead_pieces s t (by rw [hs]; simp [ht])
  have hread' : AreRead r' := fun t ht => areRead_pieces u t (by rw [hu]; simp [ht])
  obtain ⟨ps, qs, z, hps, y, hy, rfl, halike⟩ := corresponds_of_searching hr hread hread'
    (sameLetter_name_eq_false hchars (by decide) (by decide) (by decide))
    (sameLetter_name_eq_false hchars (by decide) (by decide) (by decide))
    (a := []) (b := []) (k := o.stop) ⟨⟨f, hf, rfl⟩, hinner⟩ fun e he hne hlt => by
      by_contra hnot
      have hstarts : StartsWithin s o e.1 :=
        ⟨f.before, hx, Occurrence.start_le_of_mem_ofPieces (List.of_mem_zip he).1, hlt⟩
      refine h ⟨e, hsub he, hne, Or.inl hstarts, ?_⟩
      rintro ⟨x, hx', y, hy, n, c, ht, ht'⟩
      obtain rfl : x = f.before := Option.mem_unique hx' hx
      exact hnot ⟨y, hy, n, c, ht, ht'⟩
  rw [List.nil_append] at hps hy halike
  rw [hps] at halike ⊢
  exact ⟨_, hy, (Markup.visibleText_eq_of_openAlike halike).symm⟩

/-- **An element keeps its visible text**, unless it holds an edited tag that its markup does not take
as a start tag. -/
theorem innerText_eq_of_not_holdsUnread
    (hpieces : List.Forall₂ (Piecewise R) (pieces s) (pieces u))
    (hmem : (o, o') ∈ (Occurrence.all s).zip (Occurrence.all u))
    (hname : o'.tag.name = o.tag.name) (hself : o'.tag.isSelfClosing = o.tag.isSelfClosing)
    (h : ¬ HoldsUnread s u o o') : o'.innerText u = o.innerText s := by
  cases hx : o.inner? s with
  | some x =>
    obtain ⟨y, hy, hsame⟩ := exists_inner?_of_not_holdsUnread hpieces hmem hname hself h hx
    rw [Occurrence.innerText_of_some hx, Occurrence.innerText_of_some hy, hsame]
  | none =>
    cases hy : o'.inner? u with
    | none => rw [Occurrence.innerText_of_none hx, Occurrence.innerText_of_none hy]
    | some y =>
      have hswap : (o', o) ∈ (Occurrence.all u).zip (Occurrence.all s) := by
        rw [← List.zip_swap]
        exact List.mem_map_of_mem (f := Prod.swap) hmem
      obtain ⟨x, hx', -⟩ := exists_inner?_of_not_holdsUnread (Piecewise.forall₂_swap hpieces) hswap
        hname.symm hself.symm (fun hunread => h hunread.symm) hy
      rw [hx] at hx'
      exact absurd hx' (by simp)

end Elements

example :
    let s : Text := "<button><i role='switch'>x</i></button>"
    let u : Text := "<button><i role='switch' aria-checked=\"false\">x</i></button>"
    ¬ HoldsUnread s u ⟨⟨"button", ""⟩, 0⟩ ⟨⟨"button", ""⟩, 0⟩ := by
  intro s u
  rintro ⟨e, he, hne, -, hnot⟩
  have hpairs : (Occurrence.all s).zip (Occurrence.all u) =
      [(⟨⟨"button", ""⟩, 0⟩, ⟨⟨"button", ""⟩, 0⟩),
        (⟨⟨"i", " role='switch'"⟩, 8⟩, ⟨⟨"i", " role='switch' aria-checked=\"false\""⟩, 8⟩)] := by
    decide +kernel
  have hs : Occurrence.inner? ⟨⟨"button", ""⟩, 0⟩ s = some "<i role='switch'>x</i>" := by
    decide +kernel
  have hu : Occurrence.inner? ⟨⟨"button", ""⟩, 0⟩ u =
      some "<i role='switch' aria-checked=\"false\">x</i>" := by decide +kernel
  rw [hpairs, List.mem_pair] at he
  rcases he with rfl | rfl
  · exact hne rfl
  · exact hnot ⟨_, hs, _, hu, "i", false, ⟨[], "x</i>", rfl, rfl, .empty, .refl, by decide +kernel⟩,
      ⟨[], "x</i>", rfl, rfl, .empty, .refl, by decide +kernel⟩⟩

end Fix
end AriaLint
