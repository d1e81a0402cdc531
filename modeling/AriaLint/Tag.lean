import AriaLint.Attribute

/-!
# Tags

A snippet is read as a flat sequence of opening tags; no tree is built.  An opening tag is an angle
bracket, a name, and everything up to the next closing bracket.  Closing tags, comments and
declarations never qualify, because a name has to follow the bracket at once.

The name is the longest stretch of name characters that ends at a word boundary.  So `<a->` is a tag
named `a` whose attribute text is a hyphen, and `<->` is no tag at all.
-/

namespace AriaLint

/-- An opening tag, self-closing or not: its name as written, and all that stands between the name
and the closing bracket. -/
structure Tag where
  rawName : Text
  attrs : Text
  deriving DecidableEq, Repr

namespace Tag

/-- The name in lower case. -/
def name (t : Tag) : Text := Text.lower t.rawName

/-- The tag as it stands in the markup. -/
def source (t : Tag) : Text := '<' :: t.rawName ++ t.attrs ++ ['>']

/-- The attribute text ends with a slash, blanks aside. -/
def endsWithSlash (attrs : Text) : Bool := (Text.trimRight attrs).getLast? == some '/'

/-- The tag closes itself. -/
def isSelfClosing (t : Tag) : Bool := endsWithSlash t.attrs

/-- The explicit role. -/
def role? (t : Tag) : Option Text := Attribute.role? t.attrs

/-- The tag has an attribute of that name. -/
def has (t : Tag) (name : Text) : Bool := Attribute.has name t.attrs

/-! ## Reading a tag -/

/-- A character that a tag name may hold. -/
def isNameChar (c : Char) : Bool :=
  let f := fold c
  ('a' ≤ f && f ≤ 'z') || ('0' ≤ c && c ≤ '9') || c == ':' || c == '-'

/-- The name at the head of a text: the longest stretch of name characters that ends at a word
boundary. -/
def readName? : Text → Option (Text × Text)
  | [] => none
  | c :: t =>
    if isNameChar c then
      match readName? t with
      | some (name, rest) => some (c :: name, rest)
      | none => if isBoundary (some c) t.head? then some ([c], t) else none
    else none

/-- All stretches at the head of a text that could be a name, longest first. -/
def nameCuts : Text → List (Text × Text)
  | [] => []
  | c :: t =>
    if isNameChar c then
      (nameCuts t).map (fun (name, rest) => (c :: name, rest)) ++
        if isBoundary (some c) t.head? then [([c], t)] else []
    else []

/-- The name of a tag is the longest of the possible ones. -/
theorem head?_nameCuts (t : Text) : (nameCuts t).head? = readName? t := by
  induction t with
  | nil => rfl
  | cons c t ih =>
    unfold nameCuts readName?
    rw [← ih]
    cases nameCuts t with
    | nil =>
      split
      · by_cases hb : isBoundary (some c) t.head? = true <;> simp [hb]
      · rfl
    | cons n ns => split <;> rfl

theorem append_of_mem_nameCuts {t name rest : Text} (h : (name, rest) ∈ nameCuts t) :
    name ++ rest = t := by
  induction t generalizing name with
  | nil => simp [nameCuts] at h
  | cons c t ih =>
    unfold nameCuts at h
    split at h
    · rcases List.mem_append.1 h with h | h
      · obtain ⟨⟨n, r⟩, hn, heq⟩ := List.mem_map.1 h
        simp only [Prod.mk.injEq] at heq
        obtain ⟨rfl, rfl⟩ := heq
        rw [List.cons_append, ih hn]
      · split at h <;> simp_all
    · simp at h

theorem append_of_readName? {t name rest : Text} (h : readName? t = some (name, rest)) :
    name ++ rest = t := by
  rw [← head?_nameCuts] at h
  exact append_of_mem_nameCuts (List.mem_of_head? h)

/-- A tag at the head of a text, and what follows it. -/
def read? : Text → Option (Tag × Text)
  | '<' :: t => do
    let (name, t) ← readName? t
    let (attrs, rest) ← Text.upTo? '>' t
    some (⟨name, attrs⟩, rest)
  | _ => none

/-- Nothing is lost: the tag and the rest make up the text. -/
theorem source_append_of_read? {t rest : Text} {tag : Tag} (h : read? t = some (tag, rest)) :
    tag.source ++ rest = t := by
  unfold read? at h
  split at h
  · next u =>
    simp only [Option.bind_eq_bind] at h
    obtain ⟨⟨name, v⟩, hv, h⟩ := Option.bind_eq_some_iff.1 h
    obtain ⟨⟨attrs, w⟩, hw, h⟩ := Option.bind_eq_some_iff.1 h
    simp only [Option.some.injEq, Prod.mk.injEq] at h
    obtain ⟨rfl, rfl⟩ := h
    obtain ⟨hsplit, _⟩ := Text.upTo?_eq_some hw
    rw [← append_of_readName? hv, show v = attrs ++ '>' :: w from hsplit]
    simp [source]
  · simp at h

/-- The reader of tags. -/
def reader : Reader Tag where
  read? _ t := read? t
  shortens h := by
    rw [← source_append_of_read? h]
    simp [source]
    omega

/-- A text as its opening tags and the characters between them. -/
def pieces (t : Text) : List (Piece Tag) := reader.pieces none t

/-- The opening tags of a text, from the left. -/
def all (t : Text) : List Tag := reader.items t

/-- The text that some pieces make up. -/
def textOf (ps : List (Piece Tag)) : Text := ps.flatMap (Piece.write source)

@[simp] theorem textOf_nil : textOf [] = [] := rfl

@[simp] theorem textOf_char (c : Char) (ps : List (Piece Tag)) :
    textOf (.char c :: ps) = c :: textOf ps := rfl

@[simp] theorem textOf_item (t : Tag) (ps : List (Piece Tag)) :
    textOf (.item t :: ps) = t.source ++ textOf ps := rfl

@[simp] theorem textOf_append (ps qs : List (Piece Tag)) :
    textOf (ps ++ qs) = textOf ps ++ textOf qs := List.flatMap_append

/-- The tags and the characters between them make up the text. -/
@[simp] theorem textOf_pieces (t : Text) : textOf (pieces t) = t :=
  reader.flatMap_pieces source_append_of_read? none t

/-- The explicit roles of the tags of a text, from the left. -/
def roles (t : Text) : List Text := (all t).filterMap role?

end Tag

/-! ## Tags with their places -/

/-- A tag and the position of its first character. -/
structure Occurrence where
  tag : Tag
  start : Nat
  deriving DecidableEq, Repr

namespace Occurrence

/-- The position behind the tag. -/
def stop (o : Occurrence) : Nat := o.start + o.tag.source.length

/-- The text that follows the tag in the text `t` it was found in. -/
def after (o : Occurrence) (t : Text) : Text := t.drop o.stop

/-- The tags among some pieces, of which the first starts at `start`. -/
def ofPieces (start : Nat) : List (Piece Tag) → List Occurrence
  | [] => []
  | .char _ :: ps => ofPieces (start + 1) ps
  | .item t :: ps => ⟨t, start⟩ :: ofPieces (start + t.source.length) ps

/-- The tags of a text with their places. -/
def all (t : Text) : List Occurrence := ofPieces 0 (Tag.pieces t)

theorem map_tag_ofPieces (start : Nat) (ps : List (Piece Tag)) :
    (ofPieces start ps).map tag = ps.filterMap Piece.item? := by
  induction ps generalizing start with
  | nil => rfl
  | cons p ps ih =>
    cases p with
    | char c => exact ih (start + 1)
    | item t => exact congrArg (t :: ·) (ih (start + t.source.length))

/-- The places aside, these are the tags of the text. -/
theorem map_tag_all (t : Text) : (all t).map tag = Tag.all t :=
  map_tag_ofPieces 0 _

end Occurrence

example : Tag.all "x<a-> <-> <Div role='x'\n>" = [⟨"a", "-"⟩, ⟨"Div", " role='x'\n"⟩] := by
  decide +kernel

end AriaLint
