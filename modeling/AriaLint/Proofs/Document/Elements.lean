import AriaLint.Proofs.Document.Matching

/-!
# Elements of documents

Where the tags of a well-nested document stand and where its elements end, read off the tree and
compared with what scanning, counting and searching find in the markup.

Scanning finds the opening tags at their places and counting finds the closing tag of each element.
The first closing tag of the name may be an earlier one.  A search for it passes over every part of
a document that holds no element of that name (`passesOver_write`), and does not get to the end of
one that does (`exists_found_within`), since the closing tag of such an element ends the search.
Elements that close themselves have no closing tag, so they stop no search.
-/

namespace AriaLint

/-- An element that has a closing tag of its own, with its places. -/
structure Element where
  opening : Occurrence
  closing : Span
  content : Document

namespace Document

/-- The opening tags of the document with their places, when it starts at `start`. -/
def occurrences (start : Nat) : Document → List Occurrence
  | nil => []
  | text t _ rest => rest.occurrences (start + t.length)
  | leaf t _ _ rest => ⟨t, start⟩ :: rest.occurrences (start + t.source.length)
  | element t _ _ close gap _ _ content rest =>
    let inside := start + t.source.length
    let closing := inside + content.write.length
    ⟨t, start⟩ :: (content.occurrences inside ++
      rest.occurrences (closing + (closingTag close gap).length))

/-- The elements of the document that do not close themselves, when it starts at `start`. -/
def elements (start : Nat) : Document → List Element
  | nil => []
  | text t _ rest => rest.elements (start + t.length)
  | leaf t _ _ rest => rest.elements (start + t.source.length)
  | element t _ _ close gap _ _ content rest =>
    let inside := start + t.source.length
    let closing := inside + content.write.length
    ⟨⟨t, start⟩, ⟨closing, closing + (closingTag close gap).length⟩, content⟩ ::
      (content.elements inside ++ rest.elements (closing + (closingTag close gap).length))

/-- The document holds an element of that name that does not close itself. -/
def HasElement (name : Text) : Document → Prop
  | nil => False
  | text _ _ rest => rest.HasElement name
  | leaf _ _ _ rest => rest.HasElement name
  | element t _ _ _ _ _ _ content rest =>
    SameName name t.rawName ∨ content.HasElement name ∨ rest.HasElement name

end Document

/-! ## Places -/

theorem Occurrence.ofPieces_append (start : Nat) (ps qs : List (Piece Tag)) :
    ofPieces start (ps ++ qs) =
      ofPieces start ps ++ ofPieces (start + (Tag.textOf ps).length) qs := by
  induction ps generalizing start with
  | nil => rfl
  | cons p ps ih =>
    cases p with
    | char c =>
      rw [List.cons_append, ofPieces, ofPieces, ih, Tag.textOf_char, List.length_cons]
      congr 2
      omega
    | item t =>
      rw [List.cons_append, ofPieces, ofPieces, ih, Tag.textOf_item, List.length_append,
        List.cons_append, Nat.add_assoc]

theorem Occurrence.ofPieces_map_char (start : Nat) (t : Text) :
    ofPieces start (t.map .char) = [] := by
  induction t generalizing start with
  | nil => rfl
  | cons c t ih => exact ih (start + 1)

namespace Document

theorem ofPieces_pieces (d : Document) (start : Nat) :
    Occurrence.ofPieces start d.pieces = d.occurrences start := by
  induction d generalizing start with
  | nil => rfl
  | text t h rest ih =>
    rw [pieces, occurrences, Occurrence.ofPieces_append, Occurrence.ofPieces_map_char,
      Tag.textOf_map_char, ih]
    rfl
  | leaf t h hs rest ih => rw [pieces, occurrences, Occurrence.ofPieces, ih]
  | element t h hs close gap hsame hgap content rest ihc ihr =>
    rw [pieces, occurrences, Occurrence.ofPieces, Occurrence.ofPieces_append,
      Occurrence.ofPieces_append, Occurrence.ofPieces_map_char, Tag.textOf_map_char, textOf_pieces,
      ihc, ihr]
    rfl

/-- Scanning gives the opening tags with their places. -/
theorem all_write (d : Document) : Occurrence.all d.write = d.occurrences 0 := by
  rw [Occurrence.all, pieces_of_write, ofPieces_pieces]

/-- **What holds of an element wherever it stands** holds of all elements of a document. -/
theorem forall_elements {P : Text → Element → Prop}
    (h : ∀ (a : Text) (t : Tag), t.IsPlain → t.isSelfClosing = false → ∀ close gap : Text,
      SameName t.rawName close → Text.IsBlankText gap → ∀ (content : Document) (z : Text),
      P (a ++ (t.source ++ (content.write ++ (closingTag close gap ++ z))))
        ⟨⟨t, a.length⟩, ⟨a.length + t.source.length + content.write.length,
          a.length + t.source.length + content.write.length + (closingTag close gap).length⟩,
          content⟩)
    (d : Document) (a z : Text) : ∀ e ∈ d.elements a.length, P (a ++ (d.write ++ z)) e := by
  induction d generalizing a z with
  | nil => exact fun e he => absurd he (by simp [elements])
  | text t ht rest ih =>
    intro e he
    rw [elements, ← List.length_append] at he
    have hrest := ih (a ++ t) z e he
    rwa [List.append_assoc, ← List.append_assoc t] at hrest
  | leaf t ht hs rest ih =>
    intro e he
    rw [elements, ← List.length_append] at he
    have hrest := ih (a ++ t.source) z e he
    rwa [List.append_assoc, ← List.append_assoc t.source] at hrest
  | element t ht hs close gap hsame hgap content rest ihc ihr =>
    intro e he
    have hsplit : a ++ ((element t ht hs close gap hsame hgap content rest).write ++ z) =
        a ++ (t.source ++ (content.write ++ (closingTag close gap ++ (rest.write ++ z)))) := by
      simp only [write, List.append_assoc]
    rw [hsplit]
    rw [elements, List.mem_cons, List.mem_append] at he
    rcases he with rfl | he | he
    · exact h a t ht hs close gap hsame hgap content (rest.write ++ z)
    · have hinside := ihc (a ++ t.source) (closingTag close gap ++ (rest.write ++ z)) e
      rw [List.length_append, List.append_assoc] at hinside
      exact hinside he
    · have hbehind := ihr (a ++ t.source ++ content.write ++ closingTag close gap) z e
      simp only [List.length_append, List.append_assoc] at hbehind
      exact hbehind (by simpa only [Nat.add_assoc] using he)

end Document

/-! ## Names that are the same up to case -/

theorem toLower_toLower {c : Char} (h : c.toNat < 128) : c.toLower.toLower = c.toLower := by
  have hall : ∀ n < 128, (Char.ofNat n).toLower.toLower = (Char.ofNat n).toLower := by decide
  exact forall_ascii (P := fun c => c.toLower.toLower = c.toLower) hall h

theorem isPlain_toLower {c : Char} (h : c.toNat < 128) : isPlain c.toLower = isPlain c := by
  have hall : ∀ n < 128, isPlain (Char.ofNat n).toLower = isPlain (Char.ofNat n) := by decide
  exact forall_ascii (P := fun c => isPlain c.toLower = isPlain c) hall h

theorem sameName_iff {a b : Text} :
    SameName a b ↔ a.map Char.toLower = b.map Char.toLower := by
  rw [SameName, ← List.forall₂_eq_eq_eq, List.forall₂_map_left_iff, List.forall₂_map_right_iff]

instance (a b : Text) : Decidable (SameName a b) := decidable_of_iff _ sameName_iff.symm

instance Document.decidableHasElement (name : Text) :
    (d : Document) → Decidable (d.HasElement name)
  | nil => inferInstanceAs (Decidable False)
  | text _ _ rest => decidableHasElement name rest
  | leaf _ _ _ rest => decidableHasElement name rest
  | element t _ _ _ _ _ _ content rest =>
    haveI := decidableHasElement name content
    haveI := decidableHasElement name rest
    inferInstanceAs
      (Decidable (SameName name t.rawName ∨ content.HasElement name ∨ rest.HasElement name))

theorem sameName_congr {a b : Text} (h : SameName a b) (name : Text) :
    SameName name a ↔ SameName name b := by
  rw [sameName_iff, sameName_iff, sameName_iff.1 h]

/-- What is the same as a plain name up to case is plain. -/
theorem isPlain_of_sameName {a b : Text} (ha : ∀ c ∈ a, isPlain c = true) (h : SameName a b) :
    ∀ c ∈ b, isPlain c = true := by
  induction h with
  | nil => simp
  | @cons c d a b hcd _ ih =>
    have hc := ha c List.mem_cons_self
    have hascii := toNat_lt_of_isPlain hc
    rw [List.forall_mem_cons]
    refine ⟨?_, ih fun e he => ha e (List.mem_cons_of_mem c he)⟩
    rwa [← isPlain_toLower (toNat_lt_of_toLower_eq hascii hcd), ← hcd, isPlain_toLower hascii]

/-! ## Searching for a closing tag -/

namespace Closing

/-- Among plain names, the ones that a name is like are the ones that are the same up to case. -/
theorem forall₂_sameLetter_lower_iff {raw close : Text} (hraw : ∀ c ∈ raw, c.toNat < 128)
    (hclose : ∀ c ∈ close, c.toNat < 128) :
    List.Forall₂ (fun w c => sameLetter w c = true) (Text.lower raw) close ↔
      SameName raw close := by
  rw [lower_eq_map hraw, List.forall₂_map_left_iff, SameName]
  induction raw generalizing close with
  | nil => simp only [List.forall₂_nil_left_iff]
  | cons c raw ih =>
    cases close with
    | nil => simp only [List.forall₂_nil_right_iff]
    | cons d close =>
      have hc := hraw c List.mem_cons_self
      have hd := hclose d List.mem_cons_self
      have hletter : sameLetter c.toLower d = true ↔ c.toLower = d.toLower := by
        have hlow : c.toLower.toNat < 128 := toNat_lt_of_toLower_eq hc (toLower_toLower hc).symm
        rw [sameLetter, beq_iff_eq, fold_of_ascii hlow, fold_of_ascii hd, toLower_toLower hc]
      rw [List.forall₂_cons, List.forall₂_cons, hletter,
        ih (fun e he => hraw e (List.mem_cons_of_mem c he))
          fun e he => hclose e (List.mem_cons_of_mem d he)]

/-- A name in a closing tag ends where a blank or the bracket stands. -/
def endsClosingName (c : Char) : Bool := isBlank c || c == '>'

theorem fold_of_endsClosingName {c : Char} (h : endsClosingName c = true) :
    fold c = c ∧ Tag.isNameChar c = false := by
  rcases Bool.or_eq_true_iff.1 h with hblank | hclose
  · exact ⟨fold_of_isBlank hblank, isNameChar_eq_false (delimitsName_of_isBlank hblank)⟩
  · rw [eq_of_beq hclose]
    decide

/-- The name of a closing tag, as it is cut out of the markup. -/
theorem takeWhile_name {n b : Text} (hn : ∀ c ∈ n, endsClosingName c = false)
    (hb : Text.IsBlankText b) (rest : Text) :
    (n ++ (b ++ '>' :: rest)).takeWhile (fun c => !endsClosingName c) = n := by
  rw [List.takeWhile_append_of_pos fun c hc => by simp [hn c hc]]
  suffices h : (b ++ '>' :: rest).takeWhile (fun c => !endsClosingName c) = [] by
    rw [h, List.append_nil]
  cases b with
  | nil => rfl
  | cons c b =>
    have hc : endsClosingName c = true := by simp [endsClosingName, hb c List.mem_cons_self]
    exact List.takeWhile_cons_of_neg (by simp [hc])

theorem endsClosingName_eq_false {c : Char} (h : Tag.isNameChar c = true) :
    endsClosingName c = false := by
  cases hends : endsClosingName c with
  | false => rfl
  | true => exact absurd h (by simp [(fold_of_endsClosingName hends).2])

section Tags

variable {raw close gap : Text} (hraw : ∀ c ∈ raw, isPlain c = true)
  (hclose : ∀ c ∈ close, isPlain c = true) (hgap : Text.IsBlankText gap)

include hraw hclose hgap

/-- **A closing tag is one for a name** when the two names are the same up to case. -/
theorem read?_ownClosingTag (h : SameName raw close) (rest : Text) :
    read? sameLetter (Text.lower raw) (closingTag close gap ++ rest) = some rest := by
  refine read?_eq_some_iff.2 ⟨close, gap, closingTag_append close gap rest, ?_, hgap⟩
  exact (forall₂_sameLetter_lower_iff (fun c hc => toNat_lt_of_isPlain (hraw c hc))
    fun c hc => toNat_lt_of_isPlain (hclose c hc)).2 h

theorem read?_foreignClosingTag (h : ¬ SameName raw close) (rest : Text) :
    read? sameLetter (Text.lower raw) (closingTag close gap ++ rest) = none := by
  rw [Option.eq_none_iff_forall_ne_some]
  intro r hread
  obtain ⟨n, b, hsplit, hlike, hb⟩ := read?_eq_some_iff.1 hread
  have hrawAscii : ∀ c ∈ raw, c.toNat < 128 := fun c hc => toNat_lt_of_isPlain (hraw c hc)
  have hn : ∀ c ∈ n, endsClosingName c = false := by
    intro c hc
    cases hends : endsClosingName c with
    | false => rfl
    | true =>
      obtain ⟨hfold, hchar⟩ := fold_of_endsClosingName hends
      refine absurd hc (not_mem_of_forall₂ (fun w hw => ?_) hlike)
      rw [lower_eq_map hrawAscii] at hw
      obtain ⟨v, hv, rfl⟩ := List.mem_map.1 hw
      have hplain : isPlain v.toLower = true :=
        (isPlain_toLower (hrawAscii v hv)).trans (hraw v hv)
      exact sameLetter_eq_false (isNameChar_of_isPlain hplain) hfold hchar
  have heq : n = close := by
    rw [closingTag_append] at hsplit
    have hcut := takeWhile_name
      (fun c hc => endsClosingName_eq_false (isNameChar_of_isPlain (hclose c hc))) hgap rest
    rw [(List.cons.inj (List.cons.inj hsplit).2).2, takeWhile_name hn hb r] at hcut
    exact hcut
  rw [heq] at hlike
  exact h ((forall₂_sameLetter_lower_iff hrawAscii
    fun c hc => toNat_lt_of_isPlain (hclose c hc)).1 hlike)

end Tags

/-! ## What a search passes over -/

/-- A search for a closing tag of that name finds nothing up to the end of `a`, whatever
follows. -/
def PassesOver (name a : Text) : Prop :=
  ∀ before t, (reader sameLetter name).find? before (a ++ t) =
    ((reader sameLetter name).find? none t).map fun f => { f with before := a ++ f.before }

section PassingOver

variable {name : Text}

/-- What is found does not depend on the character before. -/
theorem find?_eq (before before' : Option Char) (t : Text) :
    (reader sameLetter name).find? before t = (reader sameLetter name).find? before' t := by
  cases t with
  | nil => rfl
  | cons c t => rfl

theorem passesOver_nil : PassesOver name [] := by
  intro before t
  rw [List.nil_append, find?_eq before none]
  simp

theorem PassesOver.append {a b : Text} (ha : PassesOver name a) (hb : PassesOver name b) :
    PassesOver name (a ++ b) := by
  intro before t
  rw [List.append_assoc, ha, hb, Option.map_map]
  simp only [Function.comp_def, List.append_assoc]

theorem passesOver_cons {c : Char} {a : Text}
    (hread : ∀ t, read? sameLetter name (c :: (a ++ t)) = none) (ha : PassesOver name a) :
    PassesOver name (c :: a) := by
  intro before t
  have hnone : (reader sameLetter name).read? before (c :: (a ++ t)) = none := by
    show (read? sameLetter name (c :: (a ++ t))).map _ = none
    rw [hread, Option.map_none]
  rw [List.cons_append, Reader.find?_of_not_read hnone, ha, Option.map_map]
  rfl

theorem passesOver_of_not_mem {a : Text} (h : '<' ∉ a) : PassesOver name a := by
  induction a with
  | nil => exact passesOver_nil
  | cons c a ih =>
    rw [List.mem_cons, not_or] at h
    refine passesOver_cons (fun t => ?_) (ih h.2)
    unfold read?
    split
    · next heq => exact absurd (List.cons.inj heq).1.symm h.1
    · rfl

/-- An opening tag closes nothing. -/
theorem passesOver_source {t : Tag} (ht : t.IsPlain) : PassesOver name t.source := by
  have hopen : '<' ∉ t.rawName ++ t.attrs ++ ['>'] := by
    simp [ht.not_mem_rawName (p := '<') (by decide), ht.opens]
  refine passesOver_cons (fun rest => ?_) (passesOver_of_not_mem hopen)
  cases hraw : t.rawName with
  | nil =>
    obtain ⟨c, hc, -⟩ := ht.last
    rw [hraw] at hc
    exact absurd hc (by simp)
  | cons c raw =>
    have hne : c ≠ '/' := by
      rintro rfl
      exact ht.not_mem_rawName (p := '/') (by decide) (by rw [hraw]; simp)
    unfold read?
    split
    · next heq => exact absurd (List.cons.inj (List.cons.inj heq).2).1 hne
    · rfl

/-- A search for a closing tag of that name finds one in `a`, whatever follows. -/
def EndsWithin (name a : Text) : Prop :=
  ∀ t, ∃ f, (reader sameLetter name).find? none (a ++ t) = some f ∧ f.before.length < a.length

theorem EndsWithin.append_right {a : Text} (h : EndsWithin name a) (b : Text) :
    EndsWithin name (a ++ b) := by
  intro t
  obtain ⟨f, hf, hlt⟩ := h (b ++ t)
  refine ⟨f, by rw [List.append_assoc, hf], ?_⟩
  rw [List.length_append]
  omega

theorem EndsWithin.append_left {a b : Text} (ha : PassesOver name a) (hb : EndsWithin name b) :
    EndsWithin name (a ++ b) := by
  intro t
  obtain ⟨f, hf, hlt⟩ := hb t
  refine ⟨{ f with before := a ++ f.before }, by rw [List.append_assoc, ha, hf]; rfl, ?_⟩
  rw [List.length_append, List.length_append]
  omega

end PassingOver

section Documents

variable {raw : Text} (hraw : ∀ c ∈ raw, isPlain c = true)

section Own

variable {close gap : Text} (hclose : ∀ c ∈ close, isPlain c = true)
  (hgap : Text.IsBlankText gap) (h : SameName raw close)

include hraw hclose hgap h

theorem find?_ownClosingTag (t : Text) :
    (reader sameLetter (Text.lower raw)).find? none (closingTag close gap ++ t) =
      some ⟨[], (), t⟩ := by
  refine Reader.find?_of_read ?_
  show (read? sameLetter (Text.lower raw) (closingTag close gap ++ t)).map _ = _
  rw [read?_ownClosingTag hraw hclose hgap h, Option.map_some]

theorem endsWithin_ownClosingTag : EndsWithin (Text.lower raw) (closingTag close gap) := by
  intro t
  exact ⟨_, find?_ownClosingTag hraw hclose hgap h t, by simp [closingTag]⟩

end Own

include hraw in
theorem passesOver_foreignClosingTag {close gap : Text} (hclose : ∀ c ∈ close, isPlain c = true)
    (hgap : Text.IsBlankText gap) (h : ¬ SameName raw close) :
    PassesOver (Text.lower raw) (closingTag close gap) := by
  have hopen : '<' ∉ '/' :: (close ++ gap) ++ ['>'] := by
    have hmem : '<' ∉ close := fun hmem => absurd (hclose '<' hmem) (by decide)
    have hblank : '<' ∉ gap := not_mem_of_isBlankText hgap (by decide)
    simp [hmem, hblank]
  exact passesOver_cons (read?_foreignClosingTag hraw hclose hgap h) (passesOver_of_not_mem hopen)

include hraw in
/-- **A search passes over a document** that holds no element of the name. -/
theorem passesOver_write {d : Document} (h : ¬ d.HasElement raw) :
    PassesOver (Text.lower raw) d.write := by
  induction d with
  | nil => exact passesOver_nil
  | text u hu rest ih => exact (passesOver_of_not_mem hu).append (ih h)
  | leaf u hu hs rest ih => exact (passesOver_source hu).append (ih h)
  | element u hu hs close gap hsame hgap content rest ihc ihr =>
    rw [Document.HasElement, not_or, not_or, sameName_congr hsame raw] at h
    obtain ⟨hforeign, hcontent, hrest⟩ := h
    have hclose := passesOver_foreignClosingTag hraw (isPlain_of_sameName hu.chars hsame) hgap
      hforeign
    exact (passesOver_source hu).append ((ihc hcontent).append (hclose.append (ihr hrest)))

include hraw in
/-- **A search ends inside of a document** that holds an element of the name. -/
theorem endsWithin_write {d : Document} (h : d.HasElement raw) :
    EndsWithin (Text.lower raw) d.write := by
  induction d with
  | nil => exact h.elim
  | text u hu rest ih => exact EndsWithin.append_left (passesOver_of_not_mem hu) (ih h)
  | leaf u hu hs rest ih => exact EndsWithin.append_left (passesOver_source hu) (ih h)
  | element u hu hs close gap hsame hgap content rest ihc ihr =>
    refine EndsWithin.append_left (passesOver_source hu) ?_
    by_cases hcontent : content.HasElement raw
    · exact (ihc hcontent).append_right _
    refine EndsWithin.append_left (passesOver_write hraw hcontent) ?_
    have hclose := isPlain_of_sameName hu.chars hsame
    by_cases hown : SameName raw close
    · exact (endsWithin_ownClosingTag hraw hclose hgap hown).append_right _
    · have hrest : rest.HasElement raw := by
        rw [Document.HasElement, sameName_congr hsame raw] at h
        exact (h.resolve_left hown).resolve_left hcontent
      exact EndsWithin.append_left (passesOver_foreignClosingTag hraw hclose hgap hown) (ihr hrest)

end Documents
end Closing

/-! ## The two closing tags of an element -/

namespace Document

/-- The text behind a tag, for a tag that stands behind `a`. -/
theorem after_append (a : Text) (t : Tag) (z : Text) :
    Occurrence.after ⟨t, a.length⟩ (a ++ (t.source ++ z)) = z := by
  rw [Occurrence.after, Occurrence.stop, ← List.append_assoc, ← List.length_append]
  exact List.drop_left

section Element

variable {t : Tag} (ht : t.IsPlain) {close gap : Text} (hsame : SameName t.rawName close)
  (hgap : Text.IsBlankText gap) (content : Document) (a z : Text)

include ht hsame hgap

/-- Counting finds the closing tag of the element. -/
theorem matchingClose?_eq (hs : t.isSelfClosing = false) :
    Occurrence.matchingClose? ⟨t, a.length⟩
        (a ++ (t.source ++ (content.write ++ (closingTag close gap ++ z)))) =
      some ⟨a.length + t.source.length + content.write.length,
        a.length + t.source.length + content.write.length + (closingTag close gap).length⟩ := by
  rw [Occurrence.matchingClose?, if_neg (by simp [hs]), after_append,
    Closing.matching?_content ht hsame hgap]
  simp only [Option.map_some, Span.shift, Occurrence.stop, Nat.add_assoc]

/-- The first closing tag of the name is the element's own when no element of the same name stands
before it. -/
theorem firstClose?_eq_iff :
    Occurrence.firstClose? ⟨t, a.length⟩
        (a ++ (t.source ++ (content.write ++ (closingTag close gap ++ z)))) =
        some ⟨a.length + t.source.length + content.write.length,
          a.length + t.source.length + content.write.length + (closingTag close gap).length⟩ ↔
      ¬ content.HasElement t.rawName := by
  rw [Occurrence.firstClose?, after_append, Closing.first?, Tag.name]
  constructor
  · intro h hhas
    obtain ⟨f, hf, hlt⟩ := Closing.endsWithin_write ht.chars hhas (closingTag close gap ++ z)
    rw [hf] at h
    have hstart := congrArg Span.start (Option.some.inj h)
    simp only [Found.span, Span.shift, Occurrence.stop] at hstart
    omega
  · intro hnone
    have hown := Closing.find?_ownClosingTag ht.chars (isPlain_of_sameName ht.chars hsame) hgap
      hsame z
    rw [Closing.passesOver_write ht.chars hnone, hown]
    simp only [Option.map_some, Found.span, Span.shift, Occurrence.stop, List.length_append,
      List.append_nil, Option.some.injEq, Span.mk.injEq, true_and]
    omega

end Element

/-- **In a well-nested document every tag is where it belongs**: scanning finds the opening tags of
the document, in order and with their attribute text; counting finds the closing tag of each
element, and so does a search for the first one, unless an element of the same name stands inside.
-/
theorem all_write_and_closes (d : Document) :
    Occurrence.all d.write = d.occurrences 0 ∧
      ∀ e ∈ d.elements 0, e.opening.matchingClose? d.write = some e.closing ∧
        (e.opening.firstClose? d.write = some e.closing ↔
          ¬ e.content.HasElement e.opening.tag.rawName) := by
  refine ⟨d.all_write, ?_⟩
  have hclosed := forall_elements (P := fun markup e =>
    e.opening.matchingClose? markup = some e.closing ∧
      (e.opening.firstClose? markup = some e.closing ↔
        ¬ e.content.HasElement e.opening.tag.rawName)) ?_ d [] []
  · simpa using hclosed
  · intro a t ht hs close gap hsame hgap content z
    exact ⟨matchingClose?_eq ht hsame hgap content a z hs,
      firstClose?_eq_iff ht hsame hgap content a z⟩

end Document
end AriaLint
