import AriaLint.Proofs.Closing.Grammar
import AriaLint.Proofs.Tag.Pieces
import AriaLint.Proofs.Text.Words

/-!
# Well-nested documents

A document is a tree: texts without brackets, elements that close themselves, and elements with a
content and a closing tag of their own.  Names are plain (ASCII letters and digits, colons and
hyphens, a letter or a digit at the end), attribute text holds no brackets, and a closing tag may
differ from its opening tag in upper and lower case and may have blanks before its bracket.

`Document.write` puts a document down as markup.  What scanning that markup gives is no surprise
here, unlike in general: exactly the opening tags of the document, in order
(`Document.pieces_write`).
-/

namespace AriaLint

/-! ## Plain names -/

/-- A character of a plain name. -/
def isPlain (c : Char) : Bool := c.isAlphanum || c == ':' || c == '-'

theorem toNat_lt_of_isAlphanum {c : Char} (h : c.isAlphanum = true) : c.toNat < 128 := by
  have hle : ∀ d : Char, c.val ≤ d.val → d.toNat < 128 → c.toNat < 128 := by
    intro d hcd hd
    exact Nat.lt_of_le_of_lt hcd hd
  rcases Bool.or_eq_true_iff.1 h with hletter | hdigit
  · rcases Bool.or_eq_true_iff.1 hletter with hupper | hlower
    · have hbounds : c.val ≥ 'A'.val ∧ c.val ≤ 'Z'.val := of_decide_eq_true hupper
      exact hle 'Z' hbounds.2 (by decide)
    · exact hle 'z' (of_decide_eq_true (Bool.and_eq_true_iff.1 hlower).2) (by decide)
  · exact hle '9' (of_decide_eq_true (Bool.and_eq_true_iff.1 hdigit).2) (by decide)

theorem toNat_lt_of_isPlain {c : Char} (h : isPlain c = true) : c.toNat < 128 := by
  simp only [isPlain, Bool.or_eq_true, beq_iff_eq] at h
  rcases h with (h | rfl) | rfl
  · exact toNat_lt_of_isAlphanum h
  · decide
  · decide

theorem isNameChar_of_isPlain {c : Char} (h : isPlain c = true) : Tag.isNameChar c = true := by
  have hall : ∀ n < 128, isPlain (Char.ofNat n) = true → Tag.isNameChar (Char.ofNat n) = true := by
    decide
  exact forall_ascii (P := fun c => isPlain c = true → Tag.isNameChar c = true) hall
    (toNat_lt_of_isPlain h) h

/-- The text is empty or starts with a sign that ends every name, in whatever case it is read. -/
def EndsNames (t : Text) : Prop :=
  ∀ c ∈ t.head?, delimitsName c = true ∧ fold c = c

theorem EndsNames.delimits {t : Text} (h : EndsNames t) : Delimits t := fun c hc => (h c hc).1

theorem endsNames_append {attrs : Text} (h : ∀ c ∈ attrs.head?, isBlank c = true ∨ c = '/')
    (rest : Text) : EndsNames (attrs ++ '>' :: rest) := fun c hc =>
  Closing.delimits_of_endsTagName (Closing.endsTagName_of_mem_head? h rest c hc)

/-- An opening tag of a well-nested document. -/
structure Tag.IsPlain (t : Tag) : Prop where
  chars : ∀ c ∈ t.rawName, AriaLint.isPlain c = true
  last : ∃ c, t.rawName.getLast? = some c ∧ c.isAlphanum = true
  opens : '<' ∉ t.attrs
  closes : '>' ∉ t.attrs
  separated : ∀ c ∈ t.attrs.head?, isBlank c = true ∨ c = '/'

instance (t : Tag) : Decidable t.IsPlain :=
  decidable_of_iff
    (t.rawName.all isPlain = true ∧ t.rawName.getLast?.any Char.isAlphanum = true ∧
      '<' ∉ t.attrs ∧ '>' ∉ t.attrs ∧ t.attrs.head?.all (fun c => isBlank c || c == '/') = true)
    ⟨fun ⟨hchars, hlast, hopens, hcloses, hseparated⟩ =>
      ⟨List.all_eq_true.1 hchars, (Option.any_eq_true _ _).1 hlast, hopens, hcloses,
        fun c hc => by simpa using (Option.all_eq_true _ _).1 hseparated c hc⟩,
      fun h => ⟨List.all_eq_true.2 h.chars, (Option.any_eq_true _ _).2 h.last, h.opens, h.closes,
        (Option.all_eq_true _ _).2 fun c hc => by simpa using h.separated c hc⟩⟩

/-- The names are the same up to upper and lower case. -/
def SameName (a b : Text) : Prop := List.Forall₂ (fun c d => c.toLower = d.toLower) a b

/-! ## Documents -/

/-- A well-nested document. -/
inductive Document where
  | nil
  | text (t : Text) (plain : '<' ∉ t) (rest : Document)
  | leaf (t : Tag) (plain : t.IsPlain) (closesItself : t.isSelfClosing = true) (rest : Document)
  | element (t : Tag) (plain : t.IsPlain) (staysOpen : t.isSelfClosing = false) (close gap : Text)
      (same : SameName t.rawName close) (blank : Text.IsBlankText gap) (content rest : Document)

/-- The text of a closing tag. -/
def closingTag (close gap : Text) : Text := '<' :: '/' :: (close ++ gap) ++ ['>']

namespace Document

/-- The document as markup. -/
def write : Document → Text
  | nil => []
  | text t _ rest => t ++ rest.write
  | leaf t _ _ rest => t.source ++ rest.write
  | element t _ _ close gap _ _ content rest =>
    t.source ++ (content.write ++ (closingTag close gap ++ rest.write))

/-- The opening tags of the document and the characters between them. -/
def pieces : Document → List (Piece Tag)
  | nil => []
  | text t _ rest => t.map .char ++ rest.pieces
  | leaf t _ _ rest => .item t :: rest.pieces
  | element t _ _ close gap _ _ content rest =>
    .item t :: (content.pieces ++ ((closingTag close gap).map .char ++ rest.pieces))

end Document

/-! ## Scanning a document -/

namespace Tag

theorem textOf_map_char (t : Text) : textOf (t.map .char) = t := by
  induction t with
  | nil => rfl
  | cons c t ih => rw [List.map_cons, textOf_char, ih]

/-- Characters that open no bracket are pieces of their own. -/
theorem pieces_append_of_not_mem {a : Text} (h : '<' ∉ a) (t : Text) :
    pieces (a ++ t) = a.map .char ++ pieces t := by
  rw [pieces_append (bracketsClose_of_not_mem h), pieces_of_not_mem h]

/-- A closing tag is no opening tag. -/
theorem read?_closingTag (close gap t : Text) : read? (closingTag close gap ++ t) = none := by
  show read? ('<' :: ('/' :: (close ++ gap) ++ ['>'] ++ t)) = none
  refine read?_open_eq_none_iff.2 (Or.inl ?_)
  rw [← head?_nameCuts]
  show (nameCuts ('/' :: _)).head? = none
  rw [nameCuts, if_neg (by decide)]
  rfl

/-- A closing tag holds no opening tag. -/
theorem pieces_closingTag {close gap : Text} (hclose : '<' ∉ close) (hgap : '<' ∉ gap) (t : Text) :
    pieces (closingTag close gap ++ t) = (closingTag close gap).map .char ++ pieces t := by
  have hread : read? ('<' :: ('/' :: (close ++ gap) ++ ['>'] ++ t)) = none :=
    read?_closingTag close gap t
  show pieces ('<' :: ('/' :: (close ++ gap) ++ ['>'] ++ t)) = _
  rw [pieces_of_not_read hread, pieces_append_of_not_mem (by simp [hclose, hgap])]
  rfl

/-- A name is read to its end when it ends with a word character. -/
theorem readName?_eq_self {n : Text} (hchars : ∀ c ∈ n, isNameChar c = true)
    (hlast : ∃ c, n.getLast? = some c ∧ isWord c = true) : readName? n = some (n, []) := by
  induction n with
  | nil =>
    obtain ⟨c, hc, -⟩ := hlast
    exact absurd hc (by simp)
  | cons c n ih =>
    rw [readName?, if_pos (hchars c List.mem_cons_self)]
    cases n with
    | nil =>
      obtain ⟨d, hd, hword⟩ := hlast
      obtain rfl : c = d := by simpa using hd
      simp [readName?, isBoundary, hword]
    | cons d n =>
      rw [ih (fun e he => hchars e (List.mem_cons_of_mem c he)) (by simpa using hlast)]

theorem source_append (t : Tag) (rest : Text) :
    t.source ++ rest = '<' :: (t.rawName ++ (t.attrs ++ '>' :: rest)) := by
  simp [source]

namespace IsPlain

variable {t : Tag} (h : t.IsPlain)
include h

theorem isNameChar {c : Char} (hc : c ∈ t.rawName) : Tag.isNameChar c = true :=
  isNameChar_of_isPlain (h.chars c hc)

theorem endsNames (rest : Text) : EndsNames (t.attrs ++ '>' :: rest) :=
  endsNames_append h.separated rest

theorem read?_source (rest : Text) : read? (t.source ++ rest) = some (t, rest) := by
  obtain ⟨c, hc, halpha⟩ := h.last
  have hname : readName? t.rawName = some (t.rawName, []) :=
    readName?_eq_self (fun d hd => h.isNameChar hd)
      ⟨c, hc, isWord_of_isAlphanum (toNat_lt_of_isAlphanum halpha) halpha⟩
  refine read?_eq_some_iff.2 ⟨h.closes, t.rawName ++ (t.attrs ++ '>' :: rest), ?_, ?_⟩
  · exact t.source_append rest
  · rw [readName?_append_of_delimits _ (h.endsNames rest).delimits, hname]
    rfl

/-- A sign that no plain character is does not occur in the name. -/
theorem not_mem_rawName {p : Char} (hp : isPlain p = false) : p ∉ t.rawName := by
  intro hmem
  have hplain := h.chars p hmem
  rw [hp] at hplain
  exact Bool.noConfusion hplain

end IsPlain
end Tag

/-- The character occurs in no name that is plain up to case. -/
theorem not_mem_of_sameName {a b : Text} (hplain : ∀ c ∈ a, isPlain c = true)
    (h : SameName a b) {p : Char} (hp : ∀ n < 128, isPlain (Char.ofNat n) = true →
      (Char.ofNat n).toLower ≠ p.toLower) : p ∉ b := by
  induction h with
  | nil => simp
  | @cons c d a b hcd _ ih =>
    rw [List.mem_cons, not_or]
    refine ⟨?_, ih fun e he => hplain e (List.mem_cons_of_mem c he)⟩
    rintro rfl
    have hc := hplain c List.mem_cons_self
    exact forall_ascii (P := fun c => isPlain c = true → c.toLower ≠ p.toLower) hp
      (toNat_lt_of_isPlain hc) hc hcd

namespace Document

theorem textOf_pieces (d : Document) : Tag.textOf d.pieces = d.write := by
  induction d with
  | nil => rfl
  | text t h rest ih => rw [pieces, write, Tag.textOf_append, Tag.textOf_map_char, ih]
  | leaf t h hs rest ih => rw [pieces, write, Tag.textOf_item, ih]
  | element t h hs close gap hsame hgap content rest ihc ihr =>
    rw [pieces, write, Tag.textOf_item, Tag.textOf_append, Tag.textOf_append, Tag.textOf_map_char,
      ihc, ihr]

/-- **Scanning gives the opening tags of the document**, in order. -/
theorem pieces_write (d : Document) (t : Text) :
    Tag.pieces (d.write ++ t) = d.pieces ++ Tag.pieces t := by
  induction d generalizing t with
  | nil => rfl
  | text u h rest ih =>
    rw [write, pieces, List.append_assoc, List.append_assoc, Tag.pieces_append_of_not_mem h, ih]
  | leaf u h hs rest ih =>
    rw [write, pieces, List.append_assoc, Tag.pieces_of_read (h.read?_source _), ih]
    rfl
  | element u h hs close gap hsame hgap content rest ihc ihr =>
    have hclose : '<' ∉ close := not_mem_of_sameName h.chars hsame (by decide)
    have hopen : '<' ∉ gap := fun hmem => absurd (hgap '<' hmem) (by decide)
    rw [write, pieces, List.append_assoc, Tag.pieces_of_read (h.read?_source _), List.append_assoc,
      ihc, List.append_assoc, Tag.pieces_closingTag hclose hopen, ihr]
    simp

/-- The pieces of the markup are those of the document. -/
theorem pieces_of_write (d : Document) : Tag.pieces d.write = d.pieces := by
  have hpieces := pieces_write d []
  rwa [List.append_nil, Tag.pieces_nil, List.append_nil] at hpieces

end Document
end AriaLint
