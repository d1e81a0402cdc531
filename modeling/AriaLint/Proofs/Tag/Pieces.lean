import AriaLint.Proofs.Tag.Name
import AriaLint.Proofs.Text.Reader
import AriaLint.Proofs.Text.Words

/-!
# The pieces of a text

A text is cut from the left into its tags and the characters between them.  This file gives the
cutting its equations, an induction principle that follows it (`Tag.piecesInduction`), and the one
law that the rest builds on:

    `pieces_append`     pieces (a ++ b) = pieces a ++ pieces b

whenever each opening bracket of `a` has a closing bracket behind it within `a`.  Without that
condition a tag could start in `a` and end in `b`.
-/

namespace AriaLint
namespace Tag

/-! ## Reading a tag -/

/-- A tag is read where a name follows an opening bracket and a closing bracket follows later. -/
theorem read?_eq_some_iff {t rest : Text} {tag : Tag} :
    read? t = some (tag, rest) ↔
      '>' ∉ tag.attrs ∧ ∃ u, t = '<' :: u ∧
        readName? u = some (tag.rawName, tag.attrs ++ '>' :: rest) := by
  constructor
  · intro h
    unfold read? at h
    split at h
    · next u =>
      obtain ⟨⟨name, v⟩, hv, h⟩ := Option.bind_eq_some_iff.1 h
      obtain ⟨⟨attrs, w⟩, hw, h⟩ := Option.bind_eq_some_iff.1 h
      obtain ⟨rfl, rfl⟩ := Prod.mk.inj (Option.some.inj h)
      obtain ⟨hsplit, hclose⟩ := Text.upTo?_eq_some hw
      refine ⟨hclose, u, rfl, ?_⟩
      rw [hv, show v = attrs ++ '>' :: w from hsplit]
    · exact absurd h (by simp)
  · rintro ⟨hclose, u, rfl, hname⟩
    show (readName? u).bind _ = _
    rw [hname]
    show (Text.upTo? '>' (tag.attrs ++ '>' :: rest)).bind _ = _
    rw [Text.upTo?_append_cons hclose]
    rfl

/-- Nothing is read where no bracket opens. -/
theorem read?_cons_of_ne {c : Char} (h : c ≠ '<') (t : Text) : read? (c :: t) = none := by
  unfold read?
  split
  · next heq => exact absurd (List.cons.inj heq).1 h
  · rfl

/-- Nothing is read behind an opening bracket where no name stands or no bracket closes. -/
theorem read?_open_eq_none_iff {t : Text} :
    read? ('<' :: t) = none ↔ readName? t = none ∨ '>' ∉ t := by
  constructor
  · intro h
    cases hname : readName? t with
    | none => exact Or.inl rfl
    | some r =>
      obtain ⟨name, u⟩ := r
      refine Or.inr fun hmem => ?_
      have happ : name ++ u = t := append_of_readName? hname
      have hu : '>' ∈ u := by
        rw [← happ, List.mem_append] at hmem
        exact hmem.resolve_left (not_mem_of_readName? hname delimitsName_close)
      obtain ⟨attrs, rest, rfl, hattrs⟩ := List.eq_append_cons_of_mem hu
      have hread : read? ('<' :: t) = some (⟨name, attrs⟩, rest) :=
        read?_eq_some_iff.2 ⟨hattrs, t, rfl, hname⟩
      rw [h] at hread
      exact absurd hread (by simp)
  · intro h
    cases hread : read? ('<' :: t) with
    | none => rfl
    | some r =>
      obtain ⟨tag, rest⟩ := r
      obtain ⟨-, u, hu, hname⟩ := read?_eq_some_iff.1 hread
      obtain rfl := (List.cons.inj hu).2
      rcases h with h | h
      · rw [h] at hname
        exact absurd hname (by simp)
      · refine absurd ?_ h
        rw [← append_of_readName? hname]
        simp

/-- **Reading is local.**  What follows a closing bracket has no part in it. -/
theorem read?_append {a : Text} (h : '>' ∈ a) (b : Text) :
    read? (a ++ b) = (read? a).map fun r => (r.1, r.2 ++ b) := by
  cases a with
  | nil => simp at h
  | cons c a =>
    by_cases hc : c = '<'
    · subst hc
      have ha : '>' ∈ a := by simpa using h
      have hname : readName? (a ++ b) = (readName? a).map (extendCut b) :=
        readName?_append_of_mem ⟨'>', ha, isNameChar_eq_false delimitsName_close⟩ b
      cases hread : read? ('<' :: a) with
      | none =>
        rcases read?_open_eq_none_iff.1 hread with hnone | hclose
        · rw [hnone] at hname
          exact read?_open_eq_none_iff.2 (Or.inl hname)
        · exact absurd ha hclose
      | some r =>
        obtain ⟨tag, rest⟩ := r
        obtain ⟨hclose, u, hu, hcut⟩ := read?_eq_some_iff.1 hread
        obtain rfl := (List.cons.inj hu).2
        refine read?_eq_some_iff.2 ⟨hclose, a ++ b, rfl, ?_⟩
        rw [hname, hcut]
        simp [extendCut]
    · rw [List.cons_append, read?_cons_of_ne hc, read?_cons_of_ne hc]
      rfl

theorem close_mem_of_read? {t rest : Text} {tag : Tag} (h : read? t = some (tag, rest)) :
    '>' ∈ t := by
  rw [← source_append_of_read? h]
  simp [source]

/-- A tag that is read somewhere is read before any text. -/
theorem read?_source_append {t rest : Text} {tag : Tag} (h : read? t = some (tag, rest))
    (rest' : Text) : read? (tag.source ++ rest') = some (tag, rest') := by
  have hmem : '>' ∈ tag.source := by simp [source]
  have happ := read?_append hmem rest
  rw [source_append_of_read? h, h] at happ
  obtain ⟨⟨u, s⟩, hu, heq⟩ := Option.map_eq_some_iff.1 happ.symm
  obtain ⟨rfl, hs⟩ := Prod.mk.inj heq
  have hnil : s = [] := List.append_left_eq_self.1 hs
  rw [read?_append hmem, hu, hnil]
  rfl

/-- Where the first closing bracket stands is settled by the text alone. -/
theorem eq_of_append_close {a b c d : Text} (ha : '>' ∉ a) (hc : '>' ∉ c)
    (h : a ++ '>' :: b = c ++ '>' :: d) : a = c ∧ b = d := by
  have hup := Text.upTo?_append_cons hc d
  rw [← h, Text.upTo?_append_cons ha b] at hup
  exact Prod.mk.inj (Option.some.inj hup)

/-- Whatever cut its name is given, a tag covers the same stretch of text. -/
theorem read?_of_mem_nameCuts {u attrs rest : Text} {name : Text}
    (h : (name, attrs ++ '>' :: rest) ∈ nameCuts u) (hattrs : '>' ∉ attrs) :
    ∃ tag, read? ('<' :: u) = some (tag, rest) ∧ tag.source = (Tag.mk name attrs).source := by
  have hu : name ++ (attrs ++ '>' :: rest) = u := append_of_mem_nameCuts h
  have hname : '>' ∉ name :=
    not_mem_of_delimitsName (fun _ => isNameChar_of_mem_nameCuts h) delimitsName_close
  cases hread : read? ('<' :: u) with
  | none =>
    rcases read?_open_eq_none_iff.1 hread with hnone | hclose
    · rw [← head?_nameCuts, List.head?_eq_none_iff] at hnone
      rw [hnone] at h
      exact absurd h (by simp)
    · rw [← hu] at hclose
      exact absurd (by simp) hclose
  | some r =>
    obtain ⟨tag, rest'⟩ := r
    obtain ⟨hclose, v, hv, hcut⟩ := read?_eq_some_iff.1 hread
    obtain rfl := (List.cons.inj hv).2
    have htag : '>' ∉ tag.rawName := not_mem_of_readName? hcut delimitsName_close
    have hsplit : (tag.rawName ++ tag.attrs) ++ '>' :: rest' = (name ++ attrs) ++ '>' :: rest := by
      rw [List.append_assoc, append_of_readName? hcut, List.append_assoc, hu]
    obtain ⟨hsource, rfl⟩ := eq_of_append_close (by simp [htag, hclose]) (by simp [hname, hattrs])
      hsplit
    refine ⟨tag, rfl, ?_⟩
    show '<' :: (tag.rawName ++ tag.attrs) ++ ['>'] = '<' :: (name ++ attrs) ++ ['>']
    rw [hsource]

/-! ## Cutting a text -/

@[simp] theorem pieces_nil : pieces [] = [] := reader.pieces_nil none

/-- Tags are read without regard to what stands before them. -/
theorem reader_pieces (before : Option Char) (t : Text) : reader.pieces before t = pieces t :=
  Reader.IsBlind.pieces_eq (fun _ _ _ => rfl) before none t

theorem pieces_of_read {t rest : Text} {tag : Tag} (h : read? t = some (tag, rest)) :
    pieces t = .item tag :: pieces rest := by
  rw [← reader_pieces (Reader.lastConsumed t rest) rest]
  exact reader.pieces_of_read h

theorem pieces_of_not_read {c : Char} {t : Text} (h : read? (c :: t) = none) :
    pieces (c :: t) = .char c :: pieces t := by
  rw [← reader_pieces (some c) t]
  exact reader.pieces_of_not_read h

/-- Induction along the cutting of a text into pieces. -/
@[elab_as_elim]
theorem piecesInduction {P : Text → Prop} (nil : P [])
    (char : ∀ c t, read? (c :: t) = none → P t → P (c :: t))
    (item : ∀ t tag rest, read? t = some (tag, rest) → P rest → P t) (t : Text) : P t := by
  induction hn : t.length using Nat.strongRecOn generalizing t with
  | ind n ih =>
    subst hn
    cases t with
    | nil => exact nil
    | cons c t =>
      cases h : read? (c :: t) with
      | none => exact char c t h (ih t.length (Nat.lt_succ_self _) t rfl)
      | some r =>
        obtain ⟨tag, rest⟩ := r
        have hread : reader.read? none (c :: t) = some (tag, rest) := h
        have hlt : rest.length < (c :: t).length := reader.shortens hread
        exact item (c :: t) tag rest h (ih rest.length hlt rest rfl)

/-- The tags of a text are those among its pieces. -/
theorem mem_all_iff {t : Text} {tag : Tag} : tag ∈ all t ↔ .item tag ∈ pieces t := by
  constructor
  · intro h
    obtain ⟨p, hp, hitem⟩ := List.mem_filterMap.1 h
    cases p with
    | char c => exact absurd hitem (by simp [Piece.item?])
    | item tag' =>
      obtain rfl : tag' = tag := Option.some.inj hitem
      exact hp
  · intro h
    exact List.mem_filterMap.2 ⟨.item tag, h, rfl⟩

/-- Every tag among the pieces has been read somewhere. -/
theorem exists_read?_of_mem_pieces {t : Text} {tag : Tag} (h : .item tag ∈ pieces t) :
    ∃ u rest, read? u = some (tag, rest) := by
  induction t using piecesInduction with
  | nil => simp at h
  | char c t hread ih =>
    rw [pieces_of_not_read hread] at h
    exact ih ((List.mem_cons.1 h).resolve_left (by simp))
  | item t tag' rest hread ih =>
    rw [pieces_of_read hread] at h
    rcases List.mem_cons.1 h with heq | h
    · obtain rfl : tag = tag' := Piece.item.inj heq
      exact ⟨t, rest, hread⟩
    · exact ih h

/-- The tags among the pieces have been read somewhere. -/
def AreRead (ps : List (Piece Tag)) : Prop :=
  ∀ t, .item t ∈ ps → ∃ u rest, read? u = some (t, rest)

theorem AreRead.head {t : Tag} {ps : List (Piece Tag)} (h : AreRead (.item t :: ps)) :
    ∃ u rest, read? u = some (t, rest) :=
  h t List.mem_cons_self

theorem AreRead.tail {p : Piece Tag} {ps : List (Piece Tag)} (h : AreRead (p :: ps)) : AreRead ps :=
  fun t ht => h t (List.mem_cons_of_mem p ht)

theorem areRead_pieces (s : Text) : AreRead (pieces s) := fun _ => exists_read?_of_mem_pieces

theorem isNameChar_of_read? {t rest : Text} {tag : Tag} (h : read? t = some (tag, rest)) :
    ∀ c ∈ tag.rawName, isNameChar c = true := by
  obtain ⟨-, u, -, hcut⟩ := read?_eq_some_iff.1 h
  exact fun c hc => isNameChar_of_readName? hcut hc

theorem isNameChar_of_mem_pieces {t : Text} {tag : Tag} (h : .item tag ∈ pieces t) :
    ∀ c ∈ tag.rawName, isNameChar c = true := by
  obtain ⟨u, rest, hread⟩ := exists_read?_of_mem_pieces h
  exact isNameChar_of_read? hread

theorem not_mem_attrs_of_mem_pieces {t : Text} {tag : Tag} (h : .item tag ∈ pieces t) :
    '>' ∉ tag.attrs := by
  obtain ⟨u, rest, hread⟩ := exists_read?_of_mem_pieces h
  exact (read?_eq_some_iff.1 hread).1

theorem eq_nil_of_textOf_eq_nil {ps : List (Piece Tag)} (h : textOf ps = []) : ps = [] := by
  cases ps with
  | nil => rfl
  | cons p ps => cases p <;> simp [source] at h

/-! ## Cutting a text in two -/

/-- Each opening bracket of the text has a closing bracket behind it. -/
def BracketsClose : Text → Prop
  | [] => True
  | c :: t => (c = '<' → '>' ∈ t) ∧ BracketsClose t

instance decidableBracketsClose : (t : Text) → Decidable (BracketsClose t)
  | [] => isTrue trivial
  | c :: t =>
    haveI := decidableBracketsClose t
    inferInstanceAs (Decidable ((c = '<' → '>' ∈ t) ∧ BracketsClose t))

theorem bracketsClose_of_not_mem {t : Text} (h : '<' ∉ t) : BracketsClose t := by
  induction t with
  | nil => trivial
  | cons c t ih =>
    rw [List.mem_cons, not_or] at h
    exact ⟨fun hc => absurd hc.symm h.1, ih h.2⟩

/-- A text that ends with a closing bracket leaves none open. -/
theorem bracketsClose_append_close (t : Text) : BracketsClose (t ++ ['>']) := by
  induction t with
  | nil => exact ⟨fun h => absurd h (by decide), trivial⟩
  | cons c t ih => exact ⟨fun _ => by simp, ih⟩

theorem bracketsClose_of_append {a b : Text} (h : BracketsClose (a ++ b)) : BracketsClose b := by
  induction a with
  | nil => exact h
  | cons c a ih => exact ih h.2

theorem bracketsClose_append {a b : Text} (ha : BracketsClose a) (hb : BracketsClose b) :
    BracketsClose (a ++ b) := by
  induction a with
  | nil => exact hb
  | cons c a ih => exact ⟨fun hc => List.mem_append_left b (ha.1 hc), ih ha.2⟩

/-- **The pieces of two texts in a row.** -/
theorem pieces_append {a : Text} (h : BracketsClose a) (b : Text) :
    pieces (a ++ b) = pieces a ++ pieces b := by
  induction a using piecesInduction with
  | nil => simp
  | char c t hread ih =>
    have hread' : read? (c :: (t ++ b)) = none := by
      by_cases hc : c = '<'
      · have hmem : '>' ∈ c :: t := List.mem_cons_of_mem c (h.1 hc)
        have happ := read?_append hmem b
        rw [hread] at happ
        exact happ
      · exact read?_cons_of_ne hc _
    rw [List.cons_append, pieces_of_not_read hread', pieces_of_not_read hread, ih h.2]
    rfl
  | item t tag rest hread ih =>
    have happ : read? (t ++ b) = some (tag, rest ++ b) := by
      rw [read?_append (close_mem_of_read? hread), hread]
      rfl
    have hrest : BracketsClose rest := by
      rw [← source_append_of_read? hread] at h
      exact bracketsClose_of_append h
    rw [pieces_of_read happ, pieces_of_read hread, ih hrest]
    rfl

/-- The tags of two texts in a row. -/
theorem all_append {a : Text} (h : BracketsClose a) (b : Text) : all (a ++ b) = all a ++ all b := by
  show (pieces (a ++ b)).filterMap Piece.item? = _
  rw [pieces_append h, List.filterMap_append]
  rfl

/-- Without an opening bracket there are only characters. -/
theorem pieces_of_not_mem {t : Text} (h : '<' ∉ t) : pieces t = t.map Piece.char := by
  induction t with
  | nil => exact pieces_nil
  | cons c t ih =>
    rw [List.mem_cons, not_or] at h
    rw [pieces_of_not_read (read?_cons_of_ne (Ne.symm h.1) t), ih h.2]
    rfl

theorem all_of_not_mem {t : Text} (h : '<' ∉ t) : all t = [] := by
  show (pieces t).filterMap Piece.item? = []
  rw [pieces_of_not_mem h, List.filterMap_map]
  exact List.filterMap_eq_nil_iff.2 fun _ _ => rfl

/-- A blank text has no opening bracket. -/
theorem not_mem_of_blank {t : Text} (h : Text.trim t = []) : '<' ∉ t := by
  intro hmem
  have htrim := Text.mem_trim hmem (by decide)
  rw [h] at htrim
  exact absurd htrim (by simp)

end Tag
end AriaLint
