import AriaLint.Tag

/-!
# Closing tags

Two answers to the question where an element ends.  The first closing tag of the element's name is
cheap, and wrong when elements of that name are nested.  The matching one is found by counting:
every opening tag of the name counts one up unless it closes itself, every closing tag one down.

Counting compares names up to a word boundary, so that `<tab-x>` counts for `tab`.
-/

namespace AriaLint.Closing

/-- A closing tag of the given name at the head of a text, blanks allowed before the bracket: what
follows it. -/
def read? (alike : Char → Char → Bool) (name : Text) : Text → Option Text
  | '<' :: '/' :: t => do
    let (_, t) ← Text.readWord? alike name t
    match Text.trimLeft t with
    | '>' :: rest => some rest
    | _ => none
  | _ => none

theorem length_of_read? {alike : Char → Char → Bool} {name t rest : Text}
    (h : read? alike name t = some rest) : rest.length < t.length := by
  unfold read? at h
  split at h
  · next u =>
    simp only [Option.bind_eq_bind] at h
    obtain ⟨⟨read, v⟩, hv, h⟩ := Option.bind_eq_some_iff.1 h
    simp only at h
    split at h
    · next r hr =>
      have hlen := Attribute.length_trimLeft_le v
      rw [hr] at hlen
      have := congrArg List.length (Text.append_of_readWord? hv)
      simp only [Option.some.injEq] at h
      subst h
      simp only [List.length_append, List.length_cons] at *
      omega
    · simp at h
  · simp at h

/-- The reader of closing tags of a name. -/
def reader (alike : Char → Char → Bool) (name : Text) : Reader Unit where
  read? _ t := (read? alike name t).map fun rest => ((), rest)
  shortens h := by
    obtain ⟨rest, hr, heq⟩ := Option.map_eq_some_iff.1 h
    simp only [Prod.mk.injEq] at heq
    rw [← heq.2]
    exact length_of_read? hr

/-- The first closing tag of that name, in any case. -/
def first? (name t : Text) : Option (Found Unit) := (reader sameLetter name).find? none t

/-! ## Counting -/

/-- A tag that opens or closes an element. -/
structure Turn where
  isClosing : Bool
  rawName : Text
  attrs : Text
  deriving DecidableEq, Repr

namespace Turn

/-- The tag as it stands in the markup. -/
def source (u : Turn) : Text :=
  '<' :: (if u.isClosing then ['/'] else []) ++ u.rawName ++ u.attrs ++ ['>']

/-- The rest of a tag of the given name, after its bracket and slash. -/
def readRest? (name : Text) (isClosing : Bool) (t : Text) : Option (Turn × Text) := do
  let (raw, t) ← Text.readWord? sameLetter name t
  if isBoundary raw.getLast? t.head? then
    let (attrs, rest) ← Text.upTo? '>' t
    some (⟨isClosing, raw, attrs⟩, rest)
  else none

/-- An opening or closing tag of the given name at the head of a text. -/
def read? (name : Text) : Text → Option (Turn × Text)
  | '<' :: '/' :: t => readRest? name true t
  | '<' :: t => readRest? name false t
  | _ => none

theorem source_append_of_readRest? {name t rest : Text} {isClosing : Bool} {u : Turn}
    (h : readRest? name isClosing t = some (u, rest)) :
    u.isClosing = isClosing ∧ u.rawName ++ u.attrs ++ '>' :: rest = t := by
  simp only [readRest?, Option.bind_eq_bind] at h
  obtain ⟨⟨raw, v⟩, hv, h⟩ := Option.bind_eq_some_iff.1 h
  simp only at h
  split at h
  · obtain ⟨⟨attrs, w⟩, hw, h⟩ := Option.bind_eq_some_iff.1 h
    simp only [Option.some.injEq, Prod.mk.injEq] at h
    obtain ⟨rfl, rfl⟩ := h
    obtain ⟨hsplit, _⟩ := Text.upTo?_eq_some hw
    rw [← Text.append_of_readWord? hv, show v = attrs ++ '>' :: w from hsplit]
    simp
  · simp at h

/-- Nothing is lost: the tag and the rest make up the text. -/
theorem source_append_of_read? {name t rest : Text} {u : Turn}
    (h : read? name t = some (u, rest)) : u.source ++ rest = t := by
  unfold read? at h
  split at h
  · obtain ⟨hc, rfl⟩ := source_append_of_readRest? h
    simp [source, hc]
  · obtain ⟨hc, rfl⟩ := source_append_of_readRest? h
    simp [source, hc]
  · simp at h

/-- The reader of opening and closing tags of a name. -/
def reader (name : Text) : Reader Turn where
  read? _ t := read? name t
  shortens h := by
    rw [← source_append_of_read? h]
    simp [source]
    omega

/-- The closing tag that brings the count back, when `depth` elements are open inside the one to
close and the first piece starts at `start`. -/
def close? (depth start : Nat) : List (Piece Turn) → Option Span
  | [] => none
  | .char _ :: ps => close? depth (start + 1) ps
  | .item u :: ps =>
    let stop := start + u.source.length
    if u.isClosing then
      match depth with
      | 0 => some ⟨start, stop⟩
      | depth + 1 => close? depth stop ps
    else if Tag.endsWithSlash u.attrs then close? depth stop ps
    else close? (depth + 1) stop ps

end Turn

/-- The closing tag of the element that is named `name` and whose content starts the text. -/
def matching? (name t : Text) : Option Span := Turn.close? 0 0 ((Turn.reader name).pieces none t)

end Closing

namespace Occurrence

/-- The first closing tag of the tag's name that follows it. -/
def firstClose? (o : Occurrence) (t : Text) : Option Span :=
  (Closing.first? o.tag.name (o.after t)).map fun f => (f.span (o.after t)).shift o.stop

/-- The closing tag that matches the tag; none for a tag that closes itself. -/
def matchingClose? (o : Occurrence) (t : Text) : Option Span :=
  if o.tag.isSelfClosing then none
  else (Closing.matching? o.tag.name (o.after t)).map (Span.shift o.stop)

end Occurrence

example :
    (Occurrence.all "<b><b/><b></b></B >").map
      (fun o => (o.firstClose? "<b><b/><b></b></B >", o.matchingClose? "<b><b/><b></b></B >")) =
    [(some ⟨10, 14⟩, some ⟨14, 19⟩), (some ⟨10, 14⟩, none), (some ⟨10, 14⟩, some ⟨10, 14⟩)] := by
  decide +kernel

end AriaLint
