import AriaLint.Proofs.Attribute.Extension
import AriaLint.Proofs.Fix.NewRoles

/-!
# The pass over containers is done after one run

When containers end at the first closing tag of their name, the pass over them finds the same
containers in its own output (`containerPieces_rewrite`), with the same contents, and their tags
have roles by then.  So a second run changes nothing (`addTablistsByFirstClose_idempotent`).

The induction is along the containers of the text.

* Where no container starts, none starts in the new text: `Proofs.Fix.NewRoles`.
* Where a container starts, the longer cuts of its name do not make a container in the new text
  either, and the cut that did still does.  The content is settled by itself, and it is left alone.
-/

namespace AriaLint
namespace Fix

/-! ## Cuts of a name -/

/-- Two cuts of one name, in a text and in one with new roles. -/
def SameCut (a b : Text × Text) : Prop := a.1 = b.1 ∧ Inserted a.2 b.2

/-- **A name has the same cuts** in a text with new roles. -/
theorem forall₂_sameCut_nameCuts {t u : Text} (h : Inserted t u) :
    List.Forall₂ SameCut (Tag.nameCuts t) (Tag.nameCuts u) := by
  have none_of_delimits : ∀ {v : Text}, Delimits v → Tag.nameCuts v = [] := by
    intro v hv
    cases v with
    | nil => rfl
    | cons c v => rw [Tag.nameCuts, if_neg (by simp [isNameChar_eq_false (hv c rfl)])]
  induction h with
  | nil => exact List.Forall₂.nil
  | @cons c t u h ih =>
    have hboundary : isBoundary (some c) t.head? = isBoundary (some c) u.head? := by
      rcases h.head_delimits with heq | ⟨ht, hu⟩
      · rw [heq]
      · have hno : ∀ {v : Text}, Delimits v → v.head?.any isWord = false := by
          intro v hv
          cases v with
          | nil => rfl
          | cons d v => exact isWord_eq_false (hv d rfl)
        rw [isBoundary, isBoundary, hno ht, hno hu]
    rw [Tag.nameCuts, Tag.nameCuts, ← hboundary]
    by_cases hc : Tag.isNameChar c = true
    · rw [if_pos hc, if_pos hc]
      refine List.rel_append ?_ ?_
      · rw [List.forall₂_map_left_iff, List.forall₂_map_right_iff]
        exact ih.imp fun a b hab => ⟨congrArg (c :: ·) hab.1, hab.2⟩
      · by_cases hb : isBoundary (some c) t.head? = true
        · rw [if_pos hb, if_pos hb]
          exact List.Forall₂.cons ⟨rfl, h⟩ List.Forall₂.nil
        · rw [if_neg hb, if_neg hb]
          exact List.Forall₂.nil
    · rw [if_neg hc, if_neg hc]
      exact List.Forall₂.nil
  | @role y t u hy h ih =>
    have hrole := Tag.IsAddition.delimits (isAddition_tablistRole _ rfl) (y ++ '>' :: u)
    rw [none_of_delimits (hy.delimits t), none_of_delimits hrole]
    exact List.Forall₂.nil

/-- What stands behind the first closing bracket of a text with new roles. -/
theorem exists_upTo?_of_inserted {t u a v : Text} (h : Inserted t u)
    (hu : Text.upTo? '>' u = some (a, v)) :
    ∃ b w, Text.upTo? '>' t = some (b, w) ∧ Inserted w v := by
  induction h generalizing a v with
  | nil => exact absurd hu (by simp [Text.upTo?])
  | @cons c t u h ih =>
    rw [Text.upTo?] at hu ⊢
    by_cases hc : c = '>'
    · rw [if_pos hc] at hu ⊢
      obtain ⟨-, rfl⟩ := Prod.mk.inj (Option.some.inj hu)
      exact ⟨[], t, rfl, h⟩
    · rw [if_neg hc] at hu ⊢
      obtain ⟨⟨a', v'⟩, hv', heq⟩ := Option.map_eq_some_iff.1 hu
      obtain ⟨-, rfl⟩ := Prod.mk.inj heq
      obtain ⟨b, w, hw, hins⟩ := ih hv'
      exact ⟨c :: b, w, by rw [hw]; rfl, hins⟩
  | @role y t u hy h ih =>
    have hy' : '>' ∉ y := by
      intro hmem
      rcases hy '>' hmem with hb | hs
      · exact absurd hb (by decide)
      · exact absurd hs (by decide)
    have hrole : '>' ∉ tablistRole ++ y := by
      have hno : '>' ∉ tablistRole := (isAddition_tablistRole _ rfl).unclosed
      simp [hno, hy']
    rw [← List.append_assoc, Text.upTo?_append_cons hrole] at hu
    obtain ⟨-, rfl⟩ := Prod.mk.inj (Option.some.inj hu)
    exact ⟨y, t, Text.upTo?_append_cons hy' t, h⟩

/-! ## Containers in the new text -/

namespace Container

/-- What a cut of the name makes: a container, if tabs and a closing tag follow. -/
def ofCut? (cut : Text × Text) : Option (Container × Text) := do
  let (attrs, t) ← Text.upTo? '>' cut.2
  let rest ← afterTabs? cut.1 t
  some (⟨⟨cut.1, attrs⟩, t.take (t.length - rest.length)⟩, rest)

theorem ofCut?_of_upTo? {name t attrs w : Text} (h : Text.upTo? '>' t = some (attrs, w)) :
    ofCut? (name, t) = (afterTabs? name w).map fun rest =>
      (⟨⟨name, attrs⟩, w.take (w.length - rest.length)⟩, rest) := by
  unfold ofCut?
  rw [h]
  show (afterTabs? name w).bind _ = _
  cases afterTabs? name w with
  | none => rfl
  | some rest => rfl

theorem read?_open (t : Text) : read? ('<' :: t) = (Tag.nameCuts t).findSome? ofCut? := rfl

/-- A cut that makes no container makes none with new roles. -/
theorem ofCut?_eq_none {u : Text} {a b : Text × Text} (ha : a ∈ Tag.nameCuts u)
    (hab : SameCut a b) (h : ofCut? a = none) : ofCut? b = none := by
  obtain ⟨name, t⟩ := a
  obtain ⟨name', t'⟩ := b
  obtain ⟨hname, hins⟩ := hab
  obtain rfl : name = name' := hname
  cases hup : Text.upTo? '>' t' with
  | none =>
    unfold ofCut?
    rw [hup]
    rfl
  | some r =>
    obtain ⟨attrs', w'⟩ := r
    obtain ⟨attrs, w, hw, hins'⟩ := exists_upTo?_of_inserted hins hup
    rw [ofCut?_of_upTo? hw, Option.map_eq_none_iff] at h
    have hnone := afterTabs?_eq_none_of_inserted
      (fun p hp => sameSmall_of_mem_nameCuts ha hp) hins' h
    rw [ofCut?_of_upTo? hup, hnone]
    rfl

/-- **Where no container starts, none starts with new roles behind.** -/
theorem read?_eq_none_of_inserted {c : Char} {t u : Text} (h : Inserted t u)
    (hnone : read? (c :: t) = none) : read? (c :: u) = none := by
  by_cases hc : c = '<'
  · subst hc
    rw [read?_open, List.findSome?_eq_none_iff] at hnone ⊢
    intro b hb
    obtain ⟨a, ha, hab⟩ := Tag.exists_of_forall₂_right (forall₂_sameCut_nameCuts h) hb
    exact ofCut?_eq_none ha hab (hnone a ha)
  · exact read?_cons_of_ne hc u

/-- The container as a tablist, unless it has a role. -/
def settled (c : Container) : Container := { c with tag := (c.edit?.map Edit.tag).getD c.tag }

theorem edited_eq (c : Container) : c.edited = c.settled.source := rfl

/-- The tag of a container is kept or extended. -/
theorem settled_cases (c : Container) :
    c.settled = c ∧ c.tag.has "role" = true ∨
      Tag.Extends tablistRole c.tag c.settled.tag ∧ c.settled.content = c.content := by
  unfold settled edit?
  by_cases h : c.tag.has "role" = true
  · rw [if_pos h]
    exact Or.inl ⟨rfl, h⟩
  · rw [if_neg h]
    exact Or.inr ⟨extends_addTablist c.tag, rfl⟩

/-- A settled container is not edited again. -/
theorem edit?_settled (c : Container) : c.settled.edit? = none := by
  have hrole : c.settled.tag.has "role" = true := by
    rcases c.settled_cases with ⟨heq, h⟩ | ⟨⟨-, x, y, -, hu, -⟩, -⟩
    · rw [heq]
      exact h
    · unfold Tag.has Attribute.has Attribute.value?
      rw [Option.isSome_map, hu]
      exact Attribute.isSome_find?_written (by decide) (by decide) (by simp) x y
  unfold edit?
  rw [if_pos hrole]

/-- The text behind the bracket of a container, before and after the run. -/
theorem inserted_settled {c : Container} {rest rest' : Text} (hins : Inserted rest rest') :
    Inserted (c.tag.rawName ++ (c.tag.attrs ++ '>' :: (c.content ++ rest)))
      (c.settled.tag.rawName ++ (c.settled.tag.attrs ++ '>' :: (c.settled.content ++ rest'))) := by
  have hcontent := hins.append_left c.content
  rcases c.settled_cases with ⟨heq, -⟩ | ⟨⟨hname, x, y, hx, hu, htail, -⟩, hsame⟩
  · rw [heq]
    exact ((hcontent.cons '>').append_left c.tag.attrs).append_left c.tag.rawName
  · rw [hname, hx, hu, hsame]
    have h := (Inserted.role htail hcontent).append_left (c.tag.rawName ++ x)
    simpa using h

theorem not_mem_attrs_settled {c : Container} (h : '>' ∉ c.tag.attrs) :
    '>' ∉ c.settled.tag.attrs := by
  rcases c.settled_cases with ⟨heq, -⟩ | ⟨⟨-, x, y, hx, hu, -⟩, -⟩
  · rw [heq]
    exact h
  · rw [hx, List.mem_append, not_or] at h
    rw [hu]
    simp [h, (isAddition_tablistRole _ rfl).unclosed]

theorem rawName_settled (c : Container) : c.settled.tag.rawName = c.tag.rawName := by
  rcases c.settled_cases with ⟨heq, -⟩ | ⟨⟨hname, -⟩, -⟩
  · rw [heq]
  · exact hname

theorem rawName_of_ofCut? {a : Text × Text} {c : Container} {rest : Text}
    (h : ofCut? a = some (c, rest)) : c.tag.rawName = a.1 := by
  obtain ⟨name, t⟩ := a
  cases hup : Text.upTo? '>' t with
  | none =>
    unfold ofCut? at h
    rw [hup] at h
    exact absurd h (by simp)
  | some r =>
    obtain ⟨attrs, w⟩ := r
    rw [ofCut?_of_upTo? hup] at h
    obtain ⟨rest', -, heq⟩ := Option.map_eq_some_iff.1 h
    rw [← (Prod.mk.inj heq).1]

/-- **A container is found again**, with its tag edited and its content left alone. -/
theorem read?_settled {t rest rest' : Text} {c : Container} (h : read? t = some (c, rest))
    (hins : Inserted rest rest') : read? (c.edited ++ rest') = some (c.settled, rest') := by
  obtain ⟨u, k, rfl, -, hattrs, hcut, hlocal⟩ := read?_eq_some h
  have hu := Tag.append_of_mem_nameCuts hcut
  obtain ⟨u', hu'⟩ : ∃ u', u' = c.settled.tag.rawName ++
      (c.settled.tag.attrs ++ '>' :: (c.settled.content ++ rest')) := ⟨_, rfl⟩
  have htext : c.edited ++ rest' = '<' :: u' := by
    rw [edited_eq, hu', source, Tag.source]
    simp
  have hcuts : List.Forall₂ SameCut (Tag.nameCuts u) (Tag.nameCuts u') := by
    rw [← hu, hu']
    exact forall₂_sameCut_nameCuts (inserted_settled hins)
  rw [read?_open] at h
  rw [htext, read?_open]
  obtain ⟨l, a, l', hl, ha, hbefore⟩ := List.findSome?_eq_some_iff.1 h
  rw [hl] at hcuts
  obtain ⟨m, m', hm, hlm, hrest⟩ := Tag.forall₂_append_inv hcuts
  obtain ⟨b, m'', hab, -, rfl⟩ := List.forall₂_cons_left_iff.1 hrest
  refine List.findSome?_eq_some_iff.2 ⟨m, b, m'', hm, ?_, ?_⟩
  · -- the cut that made the container
    obtain ⟨name, v⟩ := b
    obtain rfl : c.tag.rawName = name := (rawName_of_ofCut? ha).trans hab.1
    have hv : v = c.settled.tag.attrs ++ '>' :: (c.settled.content ++ rest') := by
      have happ : c.tag.rawName ++ v = u' :=
        Tag.append_of_mem_nameCuts (by rw [hm]; simp)
      rw [hu', rawName_settled] at happ
      exact List.append_cancel_left happ
    have hup : Text.upTo? '>' v = some (c.settled.tag.attrs, c.settled.content ++ rest') := by
      rw [hv]
      exact Text.upTo?_append_cons (not_mem_attrs_settled hattrs) _
    have hafter : afterTabs? c.tag.rawName (c.settled.content ++ rest') = some rest' := hlocal rest'
    have htake : (c.settled.content ++ rest').take
        ((c.settled.content ++ rest').length - rest'.length) = c.settled.content := by
      rw [List.length_append, Nat.add_sub_cancel]
      exact List.take_left
    rw [ofCut?_of_upTo? hup, hafter, ← rawName_settled]
    show some ((⟨c.settled.tag, (c.settled.content ++ rest').take
      ((c.settled.content ++ rest').length - rest'.length)⟩ : Container), rest') = _
    rw [htake]
  · -- the longer cuts
    intro b' hb'
    obtain ⟨a', ha', hab'⟩ := Tag.exists_of_forall₂_right hlm hb'
    refine ofCut?_eq_none (u := u) ?_ hab' (hbefore a' ha')
    rw [hl]
    exact List.mem_append_left _ ha'

end Container

/-! ## The second run -/

/-- The container among the pieces of the new text. -/
def settledPiece : Piece Container → Piece Container
  | .char c => .char c
  | .item c => .item c.settled

/-- **The containers of the new text** are the old ones, with their tags edited. -/
theorem containerPieces_rewrite (before : Option Char) (t : Text) (before' : Option Char) :
    Container.reader.pieces before'
        ((Container.reader.pieces before t).flatMap (Piece.write Container.edited)) =
      (Container.reader.pieces before t).map settledPiece := by
  fun_induction Reader.pieces Container.reader before t generalizing before' with
  | case1 before => exact Container.reader.pieces_nil before'
  | case2 before c tail container rest h ih =>
    obtain ⟨ps, hps, htext⟩ :=
      exists_extended_containers (Reader.lastConsumed (c :: tail) rest) rest
    have hins : Inserted rest (Tag.textOf ps) := by
      have hof := Inserted.of_extended hps
      rwa [Tag.textOf_pieces] at hof
    have hread : Container.reader.read? before' (container.edited ++ Tag.textOf ps) =
        some (container.settled, Tag.textOf ps) := Container.read?_settled h hins
    rw [htext] at ih
    rw [List.flatMap_cons, htext, List.map_cons, ← ih]
    exact Container.reader.pieces_of_read hread
  | case3 before c tail h ih =>
    obtain ⟨ps, hps, htext⟩ := exists_extended_containers (some c) tail
    have hins : Inserted tail (Tag.textOf ps) := by
      have hof := Inserted.of_extended hps
      rwa [Tag.textOf_pieces] at hof
    have hnone : Container.reader.read? before' (c :: Tag.textOf ps) = none :=
      Container.read?_eq_none_of_inserted hins h
    rw [htext] at ih
    rw [List.flatMap_cons, htext, List.map_cons, ← ih]
    exact Container.reader.pieces_of_not_read hnone

theorem write_settledPiece (p : Piece Container) :
    (settledPiece p).write Container.edited = p.write Container.edited := by
  cases p with
  | char c => rfl
  | item c =>
    show ((c.settled.edit?.map Edit.tag).getD c.settled.tag).source ++ c.content = _
    rw [c.edit?_settled]
    rfl

/-- **One run makes all tablists** of containers that end at the first closing tag. -/
theorem addTablistsByFirstClose_idempotent (t : Text) :
    addTablistsByFirstClose (addTablistsByFirstClose t).text =
      ⟨(addTablistsByFirstClose t).text, []⟩ := by
  have hpieces := containerPieces_rewrite none t none
  have htext : (addTablistsByFirstClose (addTablistsByFirstClose t).text).text =
      (addTablistsByFirstClose t).text := by
    show (Container.reader.pieces none ((Container.reader.pieces none t).flatMap
      (Piece.write Container.edited))).flatMap (Piece.write Container.edited) = _
    rw [hpieces, List.flatMap_map]
    exact List.flatMap_congr fun p _ => write_settledPiece p
  have hchanges : (addTablistsByFirstClose (addTablistsByFirstClose t).text).changes = [] := by
    show ((Container.reader.pieces none ((Container.reader.pieces none t).flatMap
      (Piece.write Container.edited))).filterMap Piece.item?).filterMap _ = []
    rw [hpieces, List.filterMap_filterMap, List.filterMap_map, List.filterMap_eq_nil_iff]
    intro p _
    cases p with
    | char c => rfl
    | item c =>
      show c.settled.edit?.map Edit.change = none
      rw [c.edit?_settled]
      rfl
  calc addTablistsByFirstClose (addTablistsByFirstClose t).text
      = ⟨(addTablistsByFirstClose (addTablistsByFirstClose t).text).text,
          (addTablistsByFirstClose (addTablistsByFirstClose t).text).changes⟩ := rfl
    _ = ⟨(addTablistsByFirstClose t).text, []⟩ := by rw [htext, hchanges]

end Fix
end AriaLint
