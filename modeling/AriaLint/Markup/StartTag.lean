import AriaLint.Markup.Reference
import AriaLint.Text.Blank
import AriaLint.Text.Lowercase

/-!
# Start tags

How far a start tag reaches when the markup is read for its text.  The reading is tolerant: quotes
may protect closing brackets, slashes may stand between attributes, an equals sign may be repeated,
and a value with an opening quote alone is given up in favour of what can still be read.

An attribute can begin only behind a blank, a slash or a quote, so the last character consumed is
carried along as a `Cursor`.  The values of the attributes are kept, because character references in
them count even though they are not shown.
-/

namespace AriaLint.Markup

/-- A place in a text: the character just before it, and the text from there on. -/
structure Cursor where
  before : Char
  text : Text
  deriving DecidableEq, Repr

namespace Cursor

/-- The cursor behind the characters that satisfy `p`. -/
def skip (p : Char → Bool) (before : Char) : Text → Cursor
  | [] => ⟨before, []⟩
  | c :: t => if p c then skip p c t else ⟨before, c :: t⟩

/-- The cursor behind blanks and slashes, except a slash that a closing bracket follows. -/
def skipSeparators (before : Char) : Text → Cursor
  | [] => ⟨before, []⟩
  | c :: t =>
    if isBlank c ∨ (c = '/' ∧ t.head? ≠ some '>') then skipSeparators c t else ⟨before, c :: t⟩

theorem suffix_skip (p : Char → Bool) (before : Char) (t : Text) :
    (skip p before t).text <:+ t := by
  induction t generalizing before with
  | nil => exact List.suffix_refl _
  | cons c t ih =>
    unfold skip
    split
    · exact (ih c).trans (List.suffix_cons c t)
    · exact List.suffix_refl _

theorem suffix_skipSeparators (before : Char) (t : Text) :
    (skipSeparators before t).text <:+ t := by
  induction t generalizing before with
  | nil => exact List.suffix_refl _
  | cons c t ih =>
    unfold skipSeparators
    split
    · exact (ih c).trans (List.suffix_cons c t)
    · exact List.suffix_refl _

end Cursor

/-- A character of an element's name, after the first. -/
def isElementNameChar (c : Char) : Bool :=
  !(['\t', '\n', '\r', '\x0C', ' ', '/', '>', '\x00'] : List Char).contains c

/-- A character of an attribute's name, after the first. -/
def isAttributeNameChar (c : Char) : Bool := !(isBlank c || c == '/' || c == '=' || c == '>')

/-- A character of a value without quotes. -/
def isBareValueChar (c : Char) : Bool := !(isBlank c || c == '>')

/-- An attribute's value without its quotes, and the cursor behind it, if a value can be read.
Behind an opening quote that is never closed, blanks before the quote make an empty value; without
blanks, the last of several equals signs starts a bare value. -/
def readValue? (c : Cursor) : Option (Text × Cursor) :=
  let c := Cursor.skip isBlank c.before c.text
  match c.text with
  | '=' :: t =>
    let signs := Cursor.skip (· == '=') '=' t
    let start := Cursor.skip isBlank signs.before signs.text
    match start.text with
    | q :: rest =>
      if q = '"' ∨ q = '\x27' then
        match Text.upTo? q rest with
        | some (value, after) => some (value, ⟨q, after⟩)
        | none =>
          if start ≠ signs then some ([], start)
          else if t.head? = some '=' then
            some ('=' :: signs.text.takeWhile isBareValueChar,
              Cursor.skip isBareValueChar '=' signs.text)
          else none
      else
        some (start.text.takeWhile isBareValueChar,
          Cursor.skip isBareValueChar start.before start.text)
    | [] => some ([], start)
  | _ => none

/-- The value of an attribute, empty if it has none, and the cursor behind the attribute and the
separators that follow it, if an attribute can begin here. -/
def readAttribute? (c : Cursor) : Option (Text × Cursor) :=
  if isBlank c.before ∨ c.before = '/' ∨ c.before = '"' ∨ c.before = '\x27' then
    match c.text with
    | first :: t =>
      if isBlank first ∨ first = '/' ∨ first = '>' then none
      else
        let name := Cursor.skip isAttributeNameChar first t
        let (value, behind) := (readValue? name).getD ([], name)
        some (value, Cursor.skipSeparators behind.before behind.text)
    | [] => none
  else none

theorem suffix_of_upTo? {stop : Char} {t before after : Text}
    (h : Text.upTo? stop t = some (before, after)) : after <:+ t := by
  rw [(Text.upTo?_eq_some h).1]
  exact (List.suffix_cons stop after).trans (List.suffix_append before _)

theorem suffix_of_readValue? {c d : Cursor} {value : Text} (h : readValue? c = some (value, d)) :
    d.text <:+ c.text := by
  have hc := Cursor.suffix_skip isBlank c.before c.text
  simp only [readValue?] at h
  split at h
  · next t ht =>
    rw [ht] at hc
    have hsigns : (Cursor.skip (· == '=') '=' t).text <:+ c.text :=
      (Cursor.suffix_skip _ _ t).trans ((List.suffix_cons _ t).trans hc)
    have hstart := (Cursor.suffix_skip isBlank (Cursor.skip (· == '=') '=' t).before
      (Cursor.skip (· == '=') '=' t).text).trans hsigns
    split at h
    · next q rest hq =>
      split at h
      · split at h
        · next v after ha =>
          simp only [Option.some.injEq, Prod.mk.injEq] at h
          rw [← h.2]
          rw [hq] at hstart
          exact (suffix_of_upTo? ha).trans ((List.suffix_cons q rest).trans hstart)
        · split at h
          · simp only [Option.some.injEq, Prod.mk.injEq] at h
            rw [← h.2]
            exact hstart
          · split at h
            · simp only [Option.some.injEq, Prod.mk.injEq] at h
              rw [← h.2]
              exact (Cursor.suffix_skip _ _ _).trans hsigns
            · simp at h
      · simp only [Option.some.injEq, Prod.mk.injEq] at h
        rw [← h.2]
        exact (Cursor.suffix_skip _ _ _).trans hstart
    · simp only [Option.some.injEq, Prod.mk.injEq] at h
      rw [← h.2]
      exact hstart
  · simp at h

/-- An attribute takes at least one character. -/
theorem suffix_of_readAttribute? {c d : Cursor} {value : Text}
    (h : readAttribute? c = some (value, d)) : ∃ first t, c.text = first :: t ∧ d.text <:+ t := by
  unfold readAttribute? at h
  split at h
  · split at h
    · next first t ht =>
      split at h
      · simp at h
      · simp only [Option.some.injEq, Prod.mk.injEq] at h
        refine ⟨first, t, ht, ?_⟩
        rw [← h.2]
        refine (Cursor.suffix_skipSeparators _ _).trans ?_
        have hname := Cursor.suffix_skip isAttributeNameChar first t
        cases hv : readValue? (Cursor.skip isAttributeNameChar first t) with
        | none => exact hname
        | some v => exact (suffix_of_readValue? hv).trans hname
    · simp at h
  · simp at h

theorem length_of_readAttribute? {c d : Cursor} {value : Text}
    (h : readAttribute? c = some (value, d)) : d.text.length < c.text.length := by
  obtain ⟨first, t, ht, hd⟩ := suffix_of_readAttribute? h
  rw [ht]
  exact Nat.lt_succ_of_le hd.length_le

/-- The values of all attributes that can be read here, and the cursor behind them. -/
def readAttributes (c : Cursor) : List Text × Cursor :=
  match _h : readAttribute? c with
  | some (value, d) =>
    let (values, behind) := readAttributes d
    (value :: values, behind)
  | none => ([], c)
termination_by c.text.length
decreasing_by exact length_of_readAttribute? ‹_›

theorem suffix_readAttributes (c : Cursor) : (readAttributes c).2.text <:+ c.text := by
  fun_induction readAttributes c with
  | case1 c value d h values behind hd ih =>
    rw [hd] at ih
    obtain ⟨first, t, ht, htext⟩ := suffix_of_readAttribute? h
    rw [ht]
    exact ih.trans (htext.trans (List.suffix_cons first t))
  | case2 c h => exact List.suffix_refl _

/-- What stands where a start tag begins: a tag, with its name in lower case and the values of its
attributes; no tag after all, so that the stretch read is text; or a tag that may go on beyond the
end of the text. -/
inductive StartTag where
  | tag (name : Text) (isSelfClosing : Bool) (values : List Text) (rest : Text)
  | data (values : List Text) (rest : Text)
  | incomplete
  deriving DecidableEq, Repr

/-- Reads a start tag behind its opening bracket, where a letter stands.  A slash before the closing
bracket closes the element at once. -/
def StartTag.read (first : Char) (t : Text) : StartTag :=
  let name := Cursor.skip isElementNameChar first t
  let lowered := Text.lower (first :: t.takeWhile isElementNameChar)
  let blanks := Cursor.skip (fun c => isBlank c || c == '/') name.before name.text
  let (values, stop) := readAttributes blanks
  match stop.text with
  | '>' :: rest => .tag lowered (stop == blanks && stop.before == '/') values rest
  | '/' :: '>' :: rest => .tag lowered true values rest
  | [] => .incomplete
  | c :: rest => if c = '/' ∨ c = '=' ∨ c.isAlpha then .incomplete else .data values (c :: rest)

/-- A start tag leaves an end of the text. -/
theorem StartTag.suffix_of_read {first : Char} {t rest : Text} {s : StartTag}
    (h : StartTag.read first t = s)
    (hs : (∃ name closing values, s = .tag name closing values rest) ∨
      ∃ values, s = .data values rest) :
    rest <:+ t := by
  have hname := Cursor.suffix_skip isElementNameChar first t
  have hblanks := Cursor.suffix_skip (fun c => isBlank c || c == '/')
    (Cursor.skip isElementNameChar first t).before (Cursor.skip isElementNameChar first t).text
  have hstop := (suffix_readAttributes (Cursor.skip (fun c => isBlank c || c == '/')
    (Cursor.skip isElementNameChar first t).before
    (Cursor.skip isElementNameChar first t).text)).trans (hblanks.trans hname)
  simp only [StartTag.read] at h
  split at h
  · next r hr =>
    rw [hr] at hstop
    obtain ⟨_, _, _, rfl⟩ | ⟨_, rfl⟩ := hs
    · simp only [tag.injEq] at h
      rw [← h.2.2.2]
      exact (List.suffix_cons _ r).trans hstop
    · simp at h
  · next r hr =>
    rw [hr] at hstop
    obtain ⟨_, _, _, rfl⟩ | ⟨_, rfl⟩ := hs
    · simp only [tag.injEq] at h
      rw [← h.2.2.2]
      exact (List.suffix_cons _ r).trans ((List.suffix_cons _ _).trans hstop)
    · simp at h
  · obtain ⟨_, _, _, rfl⟩ | ⟨_, rfl⟩ := hs <;> simp at h
  · next c r _ _ hr =>
    rw [hr] at hstop
    split at h
    · obtain ⟨_, _, _, rfl⟩ | ⟨_, rfl⟩ := hs <;> simp at h
    · obtain ⟨_, _, _, rfl⟩ | ⟨_, rfl⟩ := hs
      · simp at h
      · simp only [data.injEq] at h
        rwa [← h.2]

end AriaLint.Markup
