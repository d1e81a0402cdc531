import AriaLint.Proofs.Closing.Grammar
import AriaLint.Proofs.Document.Basic
import AriaLint.Proofs.Tag.Extension

/-!
# Matching closing tags in documents

The matching closing tag of an element is found by counting, and what counts is every tag whose name
starts with the word that is looked for (`startsWithWord`): for `tab` also `tab-x` and `tab:y`.  In
a well-nested document this does no harm.  The opening and the closing tag of an element have the
same name up to case, so both of them count or neither does, and an element that closes itself does
not change the count.  So the count is back where it was behind any document, whatever it was before
(`closeFrom_write`), and the first closing tag that brings it to its end behind the content of an
element is the element's own (`matching?_content`).

The count is stated for the text that is still to be read, with the depth and the position reached
so far as parameters; both are free in the induction.
-/

namespace AriaLint

/-! ## Case of plain names -/

theorem fold_of_ascii {c : Char} (h : c.toNat < 128) : fold c = c.toLower := by
  have hall : ∀ n < 128, fold (Char.ofNat n) = (Char.ofNat n).toLower := by decide
  exact forall_ascii (P := fun c => fold c = c.toLower) hall h

theorem isWord_toLower {c : Char} (h : c.toNat < 128) : isWord c.toLower = isWord c := by
  have hall : ∀ n < 128, isWord (Char.ofNat n).toLower = isWord (Char.ofNat n) := by
    decide
  exact forall_ascii (P := fun c => isWord c.toLower = isWord c) hall h

/-- What has an ASCII form in lower case is ASCII. -/
theorem toNat_lt_of_toLower_eq {c d : Char} (hc : c.toNat < 128) (h : c.toLower = d.toLower) :
    d.toNat < 128 := by
  by_cases hd : d.val ≥ 'A'.val ∧ d.val ≤ 'Z'.val
  · exact Nat.lt_of_le_of_lt (show d.toNat ≤ 'Z'.toNat from hd.2) (by decide)
  · have hlow : d.toLower = d := dif_neg hd
    have hall : ∀ n < 128, (Char.ofNat n).toLower.toNat < 128 := by decide
    rw [hlow] at h
    rw [← h]
    exact forall_ascii (P := fun c => c.toLower.toNat < 128) hall hc

/-- The lower case form of a plain name, character by character. -/
theorem lower_eq_map {t : Text} (h : ∀ c ∈ t, c.toNat < 128) :
    Text.lower t = t.map Char.toLower := by
  have hat : ∀ n < 128, ∀ left right, Text.lowerAt left (Char.ofNat n) right =
      [(Char.ofNat n).toLower] := by
    intro n hn left right
    have hne : Char.ofNat n ≠ 'Σ' ∧ Char.ofNat n ≠ 'İ' ∧
        lowerChar (Char.ofNat n) = (Char.ofNat n).toLower := by
      revert n
      decide
    rw [Text.lowerAt, if_neg hne.1, if_neg hne.2.1, hne.2.2]
  have after : ∀ left, Text.lowerAfter left t = t.map Char.toLower := by
    induction t with
    | nil => exact fun _ => rfl
    | cons c t ih =>
      intro left
      have hc := forall_ascii (P := fun c => ∀ left right, Text.lowerAt left c right = [c.toLower])
        hat (h c List.mem_cons_self)
      rw [Text.lowerAfter, hc, ih fun d hd => h d (List.mem_cons_of_mem c hd)]
      rfl
  exact after []

/-- Two characters that no word and no boundary tells apart. -/
def ReadsAlike (c d : Char) : Prop := fold c = fold d ∧ isWord c = isWord d

theorem ReadsAlike.symm {c d : Char} (h : ReadsAlike c d) : ReadsAlike d c := ⟨h.1.symm, h.2.symm⟩

theorem readsAlike_of_toLower_eq {c d : Char} (hc : c.toNat < 128) (h : c.toLower = d.toLower) :
    ReadsAlike c d := by
  have hd := toNat_lt_of_toLower_eq hc h
  refine ⟨?_, ?_⟩
  · rw [fold_of_ascii hc, fold_of_ascii hd, h]
  · rw [← isWord_toLower hc, ← isWord_toLower hd, h]

theorem forall₂_readsAlike_of_sameName {a b : Text} (ha : ∀ c ∈ a, isPlain c = true)
    (h : SameName a b) : List.Forall₂ ReadsAlike a b := by
  induction h with
  | nil => exact List.Forall₂.nil
  | @cons c d a b hcd _ ih =>
    have hc := toNat_lt_of_isPlain (ha c List.mem_cons_self)
    exact List.Forall₂.cons (readsAlike_of_toLower_eq hc hcd)
      (ih fun e he => ha e (List.mem_cons_of_mem c he))

/-- A plain name is like its lower case form. -/
theorem forall₂_readsAlike_lower {a : Text} (ha : ∀ c ∈ a, isPlain c = true) :
    List.Forall₂ ReadsAlike (Text.lower a) a := by
  rw [lower_eq_map fun c hc => toNat_lt_of_isPlain (ha c hc), List.forall₂_map_left_iff]
  refine List.forall₂_same.2 fun c hc => ?_
  have hlt := toNat_lt_of_isPlain (ha c hc)
  have hall : ∀ n < 128, (Char.ofNat n).toLower.toLower = (Char.ofNat n).toLower := by
    decide
  exact (readsAlike_of_toLower_eq hlt
    (forall_ascii (P := fun c => c.toLower.toLower = c.toLower) hall hlt).symm).symm

theorem Tag.IsPlain.isNameChar_name {t : Tag} (h : t.IsPlain) :
    ∀ w ∈ t.name, Tag.isNameChar w = true := by
  intro w hw
  rw [Tag.name, lower_eq_map fun c hc => toNat_lt_of_isPlain (h.chars c hc)] at hw
  obtain ⟨c, hc, rfl⟩ := List.mem_map.1 hw
  have hall : ∀ n < 128, isPlain (Char.ofNat n) = true →
      Tag.isNameChar (Char.ofNat n).toLower = true := by decide
  exact forall_ascii (P := fun c => isPlain c = true → Tag.isNameChar c.toLower = true) hall
    (toNat_lt_of_isPlain (h.chars c hc)) (h.chars c hc)

/-! ## Names that start with a word -/

namespace Closing

/-- The name of a tag starts with the word that is looked for. -/
def startsWithWord (name raw : Text) : Bool :=
  (Text.readWord? sameLetter name raw).any fun r => isBoundary r.1.getLast? r.2.head?

theorem readWord?_of_readsAlike {name a b n z : Text} (h : List.Forall₂ ReadsAlike a b)
    (hread : Text.readWord? sameLetter name a = some (n, z)) :
    ∃ n' z', Text.readWord? sameLetter name b = some (n', z') ∧
      List.Forall₂ ReadsAlike n n' ∧ List.Forall₂ ReadsAlike z z' := by
  induction name generalizing a b n with
  | nil =>
    obtain ⟨rfl, rfl⟩ := Prod.mk.inj (Option.some.inj hread)
    exact ⟨[], b, rfl, List.Forall₂.nil, h⟩
  | cons w name ih =>
    cases h with
    | nil => exact absurd hread (by simp [Text.readWord?])
    | @cons c d a b hcd hab =>
      rw [Text.readWord?] at hread
      split at hread
      · next hw =>
        obtain ⟨⟨m, y⟩, hm, heq⟩ := Option.map_eq_some_iff.1 hread
        obtain ⟨rfl, rfl⟩ := Prod.mk.inj heq
        obtain ⟨m', z', hm', hmm, hzz⟩ := ih hab hm
        have hw' : sameLetter w d = true := by
          rw [sameLetter, ← hcd.1]
          exact hw
        refine ⟨d :: m', z', ?_, List.Forall₂.cons hcd hmm, hzz⟩
        rw [Text.readWord?, if_pos hw', hm']
        rfl
      · exact absurd hread (by simp)

theorem any_isWord_getLast? {a b : Text} (h : List.Forall₂ ReadsAlike a b) :
    a.getLast?.any isWord = b.getLast?.any isWord := by
  induction h with
  | nil => rfl
  | @cons c d a b hcd hab ih =>
    cases hab with
    | nil => simpa using hcd.2
    | cons => simpa using ih

theorem any_isWord_head? {a b : Text} (h : List.Forall₂ ReadsAlike a b) :
    a.head?.any isWord = b.head?.any isWord := by
  cases h with
  | nil => rfl
  | cons hcd => exact hcd.2

theorem startsWithWord_of_readsAlike {name a b : Text} (h : List.Forall₂ ReadsAlike a b)
    (ha : startsWithWord name a = true) : startsWithWord name b = true := by
  obtain ⟨⟨n, z⟩, hread, hb⟩ := (Option.any_eq_true _ _).1 ha
  obtain ⟨n', z', hread', hn, hz⟩ := readWord?_of_readsAlike h hread
  rw [startsWithWord, hread']
  rw [isBoundary, any_isWord_getLast? hn, any_isWord_head? hz] at hb
  exact hb

/-- The opening and the closing tag of an element both count, or neither does. -/
theorem startsWithWord_congr {a b : Text} (h : List.Forall₂ ReadsAlike a b) (name : Text) :
    startsWithWord name a = startsWithWord name b :=
  Bool.eq_iff_iff.2
    ⟨startsWithWord_of_readsAlike h,
      startsWithWord_of_readsAlike (h.flip.imp fun _ _ => ReadsAlike.symm)⟩

/-- A name starts with itself. -/
theorem startsWithWord_lower {raw : Text} (hchars : ∀ c ∈ raw, isPlain c = true)
    (hlast : ∃ c, raw.getLast? = some c ∧ c.isAlphanum = true) :
    startsWithWord (Text.lower raw) raw = true := by
  have hread : Text.readWord? sameLetter (Text.lower raw) raw = some (raw, []) := by
    refine Text.readWord?_eq_some_iff.2 ⟨?_, (List.append_nil raw).symm⟩
    exact (forall₂_readsAlike_lower hchars).imp fun _ _ h => beq_iff_eq.2 h.1
  obtain ⟨c, hc, halpha⟩ := hlast
  have hword := isWord_of_isAlphanum (toNat_lt_of_isAlphanum halpha) halpha
  rw [startsWithWord, hread]
  simp [hc, isBoundary, hword]

/-! ## Reading a tag of a plain name -/

section Turns

variable {name : Text} (hname : IsNameWord name)

include hname in
/-- A word of name characters is not read beyond the end of a name. -/
theorem readWord?_append {t : Text} (ht : ∀ c ∈ t.head?, endsTagName c = true) (raw : Text) :
    Text.readWord? sameLetter name (raw ++ t) =
      (Text.readWord? sameLetter name raw).map fun r => (r.1, r.2 ++ t) := by
  induction name generalizing raw with
  | nil => rfl
  | cons w name ih =>
    have hw := hname w List.mem_cons_self
    cases raw with
    | nil =>
      cases t with
      | nil => rfl
      | cons c t =>
        have hne := hw c (ht c rfl)
        show Text.readWord? sameLetter (w :: name) (c :: t) = none
        rw [Text.readWord?, if_neg (by simp [hne])]
    | cons c raw =>
      rw [List.cons_append, Text.readWord?, Text.readWord?,
        ih fun v hv => hname v (List.mem_cons_of_mem w hv)]
      split
      · rw [Option.map_map, Option.map_map]
        rfl
      · rfl

theorem isBoundary_append {t : Text} (ht : ∀ c ∈ t.head?, endsTagName c = true)
    (left : Option Char) (z : Text) :
    isBoundary left (z ++ t).head? = isBoundary left z.head? := by
  cases z with
  | cons c z => rfl
  | nil =>
    cases t with
    | nil => rfl
    | cons c t => simp [isBoundary, isWord_eq_false (delimits_of_endsTagName (ht c rfl)).1]

include hname in
/-- **What counts** is a tag whose name starts with the word. -/
theorem readRest?_eq_some (isClosing : Bool) {raw attrs rest : Text}
    (hraw : '>' ∉ raw) (hattrs : '>' ∉ attrs)
    (ht : ∀ c ∈ (attrs ++ '>' :: rest).head?, endsTagName c = true)
    (h : startsWithWord name raw = true) :
    ∃ n z, raw = n ++ z ∧ Turn.readRest? name isClosing (raw ++ (attrs ++ '>' :: rest)) =
      some (⟨isClosing, n, z ++ attrs⟩, rest) := by
  obtain ⟨⟨n, z⟩, hread, hb⟩ := (Option.any_eq_true _ _).1 h
  have hsplit : n ++ z = raw := Text.append_of_readWord? hread
  have hz : '>' ∉ z ++ attrs := by
    rw [← hsplit, List.mem_append, not_or] at hraw
    simp [hraw.2, hattrs]
  refine ⟨n, z, hsplit.symm, ?_⟩
  show (Text.readWord? sameLetter name (raw ++ (attrs ++ '>' :: rest))).bind _ = _
  rw [readWord?_append hname ht, hread]
  show (if isBoundary n.getLast? (z ++ (attrs ++ '>' :: rest)).head? = true then
    (Text.upTo? '>' (z ++ (attrs ++ '>' :: rest))).bind _ else none) = _
  rw [isBoundary_append ht, if_pos hb, ← List.append_assoc, Text.upTo?_append_cons hz]
  rfl

include hname in
theorem readRest?_eq_none {raw t : Text} {isClosing : Bool}
    (ht : ∀ c ∈ t.head?, endsTagName c = true) (h : startsWithWord name raw = false) :
    Turn.readRest? name isClosing (raw ++ t) = none := by
  show (Text.readWord? sameLetter name (raw ++ t)).bind _ = _
  rw [readWord?_append hname ht]
  rw [startsWithWord] at h
  cases hread : Text.readWord? sameLetter name raw with
  | none => rfl
  | some r =>
    obtain ⟨n, z⟩ := r
    rw [hread] at h
    have hb : isBoundary n.getLast? z.head? = false := h
    show (if isBoundary n.getLast? (z ++ t).head? = true then _ else none) = none
    rw [isBoundary_append ht, if_neg (by simp [hb])]

/-- The name of an opening tag starts with no slash. -/
theorem read?_open {t : Tag} (ht : t.IsPlain) (rest : Text) :
    Turn.read? name ('<' :: (t.rawName ++ rest)) =
      Turn.readRest? name false (t.rawName ++ rest) := by
  cases hraw : t.rawName with
  | nil =>
    obtain ⟨c, hc, -⟩ := ht.last
    rw [hraw] at hc
    exact absurd hc (by simp)
  | cons c raw =>
    have hne : c ≠ '/' := by
      rintro rfl
      exact ht.not_mem_rawName (p := '/') (by decide) (by rw [hraw]; simp)
    show Turn.read? name ('<' :: c :: (raw ++ rest)) = _
    unfold Turn.read?
    split
    · next heq => exact absurd (List.cons.inj (List.cons.inj heq).2).1 hne
    · next heq => rw [← (List.cons.inj heq).2]; rfl
    · next hnot => exact absurd rfl (hnot _)

include hname in
/-- What counts covers the whole opening tag, and closes itself when the tag does. -/
theorem read?_source {t : Tag} (ht : t.IsPlain) (h : startsWithWord name t.rawName = true)
    (rest : Text) : ∃ u, Turn.read? name (t.source ++ rest) = some (u, rest) ∧
      u.isClosing = false ∧ Tag.endsWithSlash u.attrs = t.isSelfClosing := by
  obtain ⟨n, z, hsplit, hread⟩ := readRest?_eq_some hname false
    (ht.not_mem_rawName (by decide)) ht.closes (endsTagName_of_mem_head? ht.separated rest) h
  have hslash : '/' ∉ z := by
    have hraw := ht.not_mem_rawName (p := '/') (by decide)
    rw [hsplit, List.mem_append, not_or] at hraw
    exact hraw.2
  refine ⟨⟨false, n, z ++ t.attrs⟩, ?_, rfl, Tag.endsWithSlash_append hslash _⟩
  rw [← hread, t.source_append]
  exact read?_open ht _

include hname in
theorem read?_source_eq_none {t : Tag} (ht : t.IsPlain) (h : startsWithWord name t.rawName = false)
    (rest : Text) : Turn.read? name (t.source ++ rest) = none := by
  rw [t.source_append, read?_open ht]
  exact readRest?_eq_none hname (endsTagName_of_mem_head? ht.separated rest) h

end Turns

/-! ## Reading a closing tag -/

section ClosingTags

variable {name : Text} (hname : IsNameWord name)
  {t : Tag} (ht : t.IsPlain) {close gap : Text} (hsame : SameName t.rawName close)
  (hgap : Text.IsBlankText gap)

theorem closingTag_append (close gap rest : Text) :
    closingTag close gap ++ rest = '<' :: '/' :: (close ++ (gap ++ '>' :: rest)) := by
  simp [closingTag]

include hgap in
theorem endsTagName_gap (rest : Text) : ∀ c ∈ (gap ++ '>' :: rest).head?, endsTagName c = true :=
  endsTagName_of_mem_head? (fun c hc => Or.inl (hgap c (List.mem_of_head? hc))) rest

include hname ht hsame hgap in
/-- A closing tag counts as the opening tag does. -/
theorem read?_closingTag (h : startsWithWord name t.rawName = true) (rest : Text) :
    ∃ u, Turn.read? name (closingTag close gap ++ rest) = some (u, rest) ∧ u.isClosing = true := by
  have hclose : startsWithWord name close = true := by
    rwa [← startsWithWord_congr (forall₂_readsAlike_of_sameName ht.chars hsame)]
  obtain ⟨n, z, -, hread⟩ := readRest?_eq_some hname true
    (not_mem_of_sameName ht.chars hsame (by decide))
    (not_mem_of_isBlankText hgap (by decide)) (endsTagName_gap hgap rest) hclose
  rw [closingTag_append]
  exact ⟨_, hread, rfl⟩

include hname ht hsame hgap in
theorem read?_closingTag_eq_none (h : startsWithWord name t.rawName = false) (rest : Text) :
    Turn.read? name (closingTag close gap ++ rest) = none := by
  have hclose : startsWithWord name close = false := by
    rwa [← startsWithWord_congr (forall₂_readsAlike_of_sameName ht.chars hsame)]
  rw [closingTag_append]
  exact readRest?_eq_none hname (endsTagName_gap hgap rest) hclose

end ClosingTags

/-! ## Counting -/

/-- The count over a text that is still to be read. -/
def closeFrom (name : Text) (depth start : Nat) (t : Text) : Option Span :=
  Turn.close? depth start ((Turn.reader name).pieces none t)

section Counting

variable {name : Text}

/-- The tags that count are read without regard to what stands before them. -/
theorem closeFrom_eq (before : Option Char) (depth start : Nat) (t : Text) :
    Turn.close? depth start ((Turn.reader name).pieces before t) =
      closeFrom name depth start t := by
  rw [closeFrom, Reader.IsBlind.pieces_eq (fun _ _ _ => rfl) before none t]

theorem closeFrom_of_not_read {c : Char} {t : Text} (h : Turn.read? name (c :: t) = none)
    (depth start : Nat) :
    closeFrom name depth start (c :: t) = closeFrom name depth (start + 1) t := by
  rw [closeFrom, Reader.pieces_of_not_read (Turn.reader name) h]
  exact closeFrom_eq _ _ _ _

theorem closeFrom_of_opening {u : Turn} {a t : Text} (h : Turn.read? name (a ++ t) = some (u, t))
    (hu : u.isClosing = false) (depth start : Nat) :
    closeFrom name depth start (a ++ t) =
      closeFrom name (if Tag.endsWithSlash u.attrs then depth else depth + 1)
        (start + a.length) t := by
  have hsource : u.source = a := List.append_cancel_right (Turn.source_append_of_read? h)
  rw [closeFrom, Reader.pieces_of_read (Turn.reader name) h]
  unfold Turn.close?
  rw [hu, hsource, if_neg (by simp), closeFrom_eq, closeFrom_eq]
  split <;> rfl

theorem closeFrom_of_closing {u : Turn} {a t : Text} (h : Turn.read? name (a ++ t) = some (u, t))
    (hu : u.isClosing = true) (depth start : Nat) :
    closeFrom name (depth + 1) start (a ++ t) = closeFrom name depth (start + a.length) t ∧
      closeFrom name 0 start (a ++ t) = some ⟨start, start + a.length⟩ := by
  have hsource : u.source = a := List.append_cancel_right (Turn.source_append_of_read? h)
  constructor
  · rw [closeFrom, Reader.pieces_of_read (Turn.reader name) h]
    unfold Turn.close?
    rw [hu, hsource]
    exact closeFrom_eq _ _ _ _
  · rw [closeFrom, Reader.pieces_of_read (Turn.reader name) h]
    unfold Turn.close?
    rw [hu, hsource]
    rfl

/-- Characters that open no bracket do not count. -/
theorem closeFrom_append_of_not_mem {a : Text} (h : '<' ∉ a) (depth start : Nat) (t : Text) :
    closeFrom name depth start (a ++ t) = closeFrom name depth (start + a.length) t := by
  induction a generalizing start with
  | nil => rfl
  | cons c a ih =>
    rw [List.mem_cons, not_or] at h
    have hread : Turn.read? name (c :: (a ++ t)) = none := by
      unfold Turn.read?
      split
      · next heq => exact absurd (List.cons.inj heq).1.symm h.1
      · next heq => exact absurd (List.cons.inj heq).1.symm h.1
      · rfl
    rw [List.cons_append, closeFrom_of_not_read hread, ih h.2, List.length_cons]
    congr 1
    omega

/-- A tag that does not count is passed over. -/
theorem closeFrom_of_tag {a t : Text} (h : Turn.read? name ('<' :: (a ++ t)) = none)
    (ha : '<' ∉ a) (depth start : Nat) :
    closeFrom name depth start ('<' :: (a ++ t)) =
      closeFrom name depth (start + ('<' :: a).length) t := by
  rw [closeFrom_of_not_read h, closeFrom_append_of_not_mem ha, List.length_cons]
  congr 1
  omega

end Counting

section Documents

variable {name : Text} (hname : IsNameWord name)

include hname in
/-- An opening tag counts one up when its name starts with the word and it does not close itself. -/
theorem closeFrom_source {t : Tag} (ht : t.IsPlain) (depth start : Nat) (rest : Text) :
    closeFrom name depth start (t.source ++ rest) =
      closeFrom name
        (if startsWithWord name t.rawName && !t.isSelfClosing then depth + 1 else depth)
        (start + t.source.length) rest := by
  cases hstarts : startsWithWord name t.rawName with
  | true =>
    obtain ⟨u, hread, hu, hslash⟩ := read?_source hname ht hstarts rest
    rw [closeFrom_of_opening hread hu, hslash]
    cases t.isSelfClosing <;> rfl
  | false =>
    have hread := read?_source_eq_none hname ht hstarts rest
    have hopen : '<' ∉ t.rawName ++ t.attrs ++ ['>'] := by
      simp [ht.not_mem_rawName (p := '<') (by decide), ht.opens]
    have hcons : t.source ++ rest = '<' :: (t.rawName ++ t.attrs ++ ['>'] ++ rest) := by
      simp [Tag.source]
    rw [hcons] at hread ⊢
    rw [closeFrom_of_tag hread hopen]
    rfl

include hname in
/-- A closing tag counts one down when the opening tag has counted one up. -/
theorem closeFrom_closingTag {t : Tag} (ht : t.IsPlain) {close gap : Text}
    (hsame : SameName t.rawName close) (hgap : Text.IsBlankText gap) (depth start : Nat)
    (rest : Text) :
    closeFrom name (if startsWithWord name t.rawName then depth + 1 else depth) start
        (closingTag close gap ++ rest) =
      closeFrom name depth (start + (closingTag close gap).length) rest := by
  cases hstarts : startsWithWord name t.rawName with
  | true =>
    obtain ⟨u, hread, hu⟩ := read?_closingTag hname ht hsame hgap hstarts rest
    exact (closeFrom_of_closing hread hu depth start).1
  | false =>
    have hread := read?_closingTag_eq_none hname ht hsame hgap hstarts rest
    have hclose : '<' ∉ close := not_mem_of_sameName ht.chars hsame (by decide)
    have hblank : '<' ∉ gap := not_mem_of_isBlankText hgap (by decide)
    exact closeFrom_of_tag hread (by simp [hclose, hblank]) depth start

include hname in
/-- **Behind a document the count is back where it was.** -/
theorem closeFrom_write (d : Document) (depth start : Nat) (t : Text) :
    closeFrom name depth start (d.write ++ t) =
      closeFrom name depth (start + d.write.length) t := by
  induction d generalizing depth start t with
  | nil => rfl
  | text u h rest ih =>
    rw [Document.write, List.append_assoc, closeFrom_append_of_not_mem h, ih, List.length_append,
      Nat.add_assoc]
  | leaf u h hs rest ih =>
    rw [Document.write, List.append_assoc, closeFrom_source hname h, hs, Bool.not_true,
      Bool.and_false, if_neg Bool.false_ne_true, ih, List.length_append, Nat.add_assoc]
  | element u h hs close gap hsame hgap content rest ihc ihr =>
    rw [Document.write, List.append_assoc, closeFrom_source hname h, hs, Bool.not_false,
      Bool.and_true, List.append_assoc, ihc, List.append_assoc,
      closeFrom_closingTag hname h hsame hgap, ihr]
    simp only [List.length_append, Nat.add_assoc]

/-- **An element ends at its own closing tag.** -/
theorem matching?_content {t : Tag} (ht : t.IsPlain) {close gap : Text}
    (hsame : SameName t.rawName close) (hgap : Text.IsBlankText gap) (content : Document)
    (rest : Text) :
    matching? t.name (content.write ++ (closingTag close gap ++ rest)) =
      some ⟨content.write.length, content.write.length + (closingTag close gap).length⟩ := by
  have hname : IsNameWord t.name := isNameWord_of_isNameChar ht.isNameChar_name
  have hstarts : startsWithWord t.name t.rawName = true := startsWithWord_lower ht.chars ht.last
  obtain ⟨u, hread, hu⟩ := read?_closingTag hname ht hsame hgap hstarts rest
  show closeFrom t.name 0 0 _ = _
  rw [closeFrom_write hname, Nat.zero_add]
  exact (closeFrom_of_closing hread hu 0 _).2

end Documents

end Closing
end AriaLint
