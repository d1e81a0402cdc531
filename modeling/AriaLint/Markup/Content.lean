import AriaLint.Markup.StartTag

/-!
# Text content of markup

The text that a fragment of markup shows: tags, comments and declarations are dropped, character
references are replaced, and the contents of scripts, styles, templates and ruby annotations are
left out.  Runs of text that consist of ASCII white space alone shrink to one character, except
inside preformatted elements.

The fragment is walked twice.  The first walk halts where a construct may go on beyond the end of
the text, because more text could still arrive; the second walk takes what is left and treats such
a construct as text.  A marked section with an unknown keyword is refused, and so is a reference whose
number is too long, also in the value of an attribute.
-/

namespace AriaLint.Markup

/-- Elements without content. -/
def voidElements : List Text :=
  ["area", "base", "basefont", "bgsound", "br", "col", "command", "embed", "frame", "hr", "image",
   "img", "input", "isindex", "keygen", "link", "menuitem", "meta", "nextid", "param", "source",
   "spacer", "track", "wbr"]

/-- Elements whose content is not part of the text. -/
def hiddenElements : List Text := ["rt", "rp", "style", "script", "template"]

/-- Elements that keep their white space. -/
def preformattedElements : List Text := ["pre", "textarea"]

/-- Elements whose content is no markup. -/
def rawElements : List Text := ["script", "style"]

/-- How far a walk has come: the text content so far, the text not yet assigned to it, the open
elements from the innermost on, the void elements whose closing tag would be ignored, and the
element whose raw content is being read. -/
structure State where
  output : Text
  pending : Text
  openTags : List Text
  ignoredCloses : List Text
  rawElement : Option Text
  deriving DecidableEq, Repr

namespace State

/-- Nothing read yet. -/
def empty : State := ⟨[], [], [], [], none⟩

/-- More text, not yet assigned. -/
def append (s : State) (t : Text) : State := { s with pending := s.pending ++ t }

/-- ASCII white space. -/
def isAsciiBlank (c : Char) : Bool := ([' ', '\n', '\t', '\x0C', '\r'] : List Char).contains c

/-- A run of white space shrinks to a line feed if it holds one, else to a space. -/
def shrink (s : State) (t : Text) : Text :=
  if !s.openTags.any preformattedElements.contains && t.all isAsciiBlank then
    if t.contains '\n' then ['\n'] else [' ']
  else t

/-- Assigns the pending text: it goes to the output, or nowhere inside a hidden element. -/
def flush (s : State) : State :=
  if s.pending = [] then s
  else if s.openTags.any hiddenElements.contains then { s with pending := [] }
  else { s with pending := [], output := s.output ++ s.shrink s.pending }

/-- Adds the content of a character data section, which is shown even in a hidden element. -/
def addCharacterData (s : State) (t : Text) : State :=
  let s := s.flush
  { s with output := s.output ++ s.shrink t }

/-- Opens an element.  One that closes itself leaves no trace, a void one the closing tag to be
ignored. -/
def openTag (s : State) (name : Text) (isSelfClosing : Bool) : State :=
  let s := s.flush
  if isSelfClosing then s
  else if voidElements.contains name then { s with ignoredCloses := s.ignoredCloses ++ [name] }
  else
    { s with
      openTags := name :: s.openTags
      rawElement := if rawElements.contains name then some name else s.rawElement }

/-- Closes an element, and with it all that were opened inside it. -/
def closeTag (s : State) (name : Text) : State :=
  if s.ignoredCloses.contains name then { s with ignoredCloses := s.ignoredCloses.erase name }
  else
    let s := s.flush
    if s.openTags.contains name then
      { s with openTags := (s.openTags.dropWhile (· ≠ name)).tail }
    else s

end State

/-! ## Constructs behind an opening bracket -/

/-- What a construct did: the walk goes on with the rest, or halts in front of the rest, or the
construct is incomplete. -/
inductive Step where
  | next (s : State) (rest : Text)
  | halt (s : State) (rest : Text)
  | incomplete
  deriving DecidableEq, Repr

/-- The first place where `read` finds a construct: what stands before, and what follows it. -/
def splitAt? (read : Text → Option Text) : Text → Option (Text × Text)
  | [] => none
  | c :: t =>
    match read (c :: t) with
    | some rest => some ([], rest)
    | none => (splitAt? read t).map fun (before, after) => (c :: before, after)

/-- A character that blanks may precede. -/
def readMark? (mark : Char) (t : Text) : Option Text :=
  match Text.trimLeft t with
  | c :: rest => if c = mark then some rest else none
  | [] => none

/-- The end of a comment. -/
def readCommentEnd? : Text → Option Text
  | '-' :: '-' :: t => readMark? '>' t
  | _ => none

/-- The end of a marked section that wants two brackets. -/
def readSectionEnd? : Text → Option Text
  | ']' :: t => (readMark? ']' t).bind (readMark? '>')
  | _ => none

/-- The end of a conditional section, which wants one bracket. -/
def readConditionEnd? : Text → Option Text
  | ']' :: t => readMark? '>' t
  | _ => none

/-- The closing tag of an element with raw content. -/
def readRawClose? (name : Text) : Text → Option Text
  | '<' :: '/' :: t => do
    let (_, t) ← Text.readWord? sameLetter name (Text.trimLeft t)
    readMark? '>' t
  | _ => none

/-- A character of a closing tag's name, after the first, when the tag is written as it should be. -/
def isClosingNameChar (c : Char) : Bool := c.isAlphanum || ("-.:_" : Text).contains c

/-- The effect of a closing tag, given what stands between its slash and its bracket.  A tag written
as it should be also ends raw content; any other name reaches as far as an element's name does. -/
def closing (s : State) (inner : Text) : State :=
  let body := Text.trimLeft inner
  if body.head?.any Char.isAlpha ∧ Text.trimLeft (body.dropWhile isClosingNameChar) = [] then
    { s with rawElement := none }.closeTag (Text.lower (body.takeWhile isClosingNameChar))
  else if inner.head?.any Char.isAlpha then
    s.closeTag (Text.lower (inner.takeWhile isElementNameChar))
  else if inner = [] then s
  else s.flush

/-- A character of a marked section's keyword, after the first. -/
def isKeywordChar (c : Char) : Bool := c.isAlphanum || ("-_." : Text).contains c

/-- Marked sections that want two closing brackets. -/
def sectionKeywords : List Text := ["temp", "cdata", "ignore", "include", "rcdata"]

/-- Conditional sections, which want one closing bracket. -/
def conditionKeywords : List Text := ["if", "else", "endif"]

/-- A marked section, behind its opening bracket.  A character data section is one whose keyword is
followed by a bracket at once. -/
def markedSection (s : State) (t : Text) : Except MarkupError Step :=
  if t = [] then .ok .incomplete
  else if !t.head?.any Char.isAlpha then .error .unknownSection
  else if Text.trimLeft (t.dropWhile isKeywordChar) = [] then .ok .incomplete
  else
    let keyword := Text.lower (t.takeWhile isKeywordChar)
    let split :=
      if sectionKeywords.contains keyword then some (splitAt? readSectionEnd? t)
      else if conditionKeywords.contains keyword then some (splitAt? readConditionEnd? t)
      else none
    match split with
    | none => .error .unknownSection
    | some none => .ok .incomplete
    | some (some (content, rest)) =>
      if keyword = "cdata" ∧ (content.drop 5).head? = some '[' then
        .ok (.next (s.addCharacterData (content.drop 6)) rest)
      else .ok (.next s.flush rest)

/-- A declaration or an instruction ends at the next closing bracket. -/
def declaration (s : State) (t : Text) : Step :=
  match Text.upTo? '>' t with
  | some (_, rest) => .next s.flush rest
  | none => .incomplete

/-- A construct behind an opening bracket. -/
def construct (s : State) (t : Text) : Except MarkupError Step :=
  match t with
  | '/' :: u =>
    match Text.upTo? '>' u with
    | some (inner, rest) => .ok (.next (closing s inner) rest)
    | none => .ok .incomplete
  | '!' :: '-' :: '-' :: u =>
    match splitAt? readCommentEnd? u with
    | some (_, rest) => .ok (.next s.flush rest)
    | none => .ok .incomplete
  | '!' :: '[' :: u => markedSection s u
  | '!' :: u => .ok (declaration s u)
  | '?' :: u => .ok (declaration s u)
  | c :: u =>
    if c.isAlpha then
      match StartTag.read c u with
      | .tag name isSelfClosing values rest =>
        (values.forM checkNumbers).map fun _ => .next (s.openTag name isSelfClosing) rest
      | .data values rest =>
        (values.forM checkNumbers).map fun _ =>
          .next (s.append (('<' :: t).take (('<' :: t).length - rest.length))) rest
      | .incomplete => .ok .incomplete
    else .ok (.next (s.append ['<']) t)
  | [] => .ok (.halt s ['<'])

/-- Takes an incomplete construct as text, up to the next closing bracket, else up to the next
opening one, else its first character alone. -/
def recover (t : Text) : Text × Text :=
  match Text.upTo? '>' t with
  | some (before, rest) => ('<' :: before ++ ['>'], rest)
  | none =>
    if t.contains '<' then ('<' :: t.takeWhile (· != '<'), t.dropWhile (· != '<')) else (['<'], t)

/-- A character reference behind its ampersand.  One that may go on beyond the end of the text
halts the walk. -/
def reference (isLast : Bool) (s : State) (t : Text) : Except MarkupError Step :=
  match t with
  | '#' :: u =>
    match readNumeric? u with
    | some (n, rest) => n.character.map fun c => .next (s.append [c]) rest
    | none =>
      .ok (if u.contains ';' then .halt (s.append ['&', '#']) u else .halt s ('&' :: t))
  | c :: u =>
    match readNamed? t with
    | some (read, rest) => .ok (.next (s.append read) rest)
    | none =>
      if c.isAlpha then .ok (if isLast ∧ u = [] then .halt s t else .halt s ('&' :: t))
      else .ok (.next (s.append ['&']) t)
  | [] => .ok (.halt s ['&'])

/-! ## The walk -/

theorem eq_ok_of_map_eq_ok {ε α β : Type} {f : α → β} {x : Except ε α} {b : β}
    (h : x.map f = .ok b) : ∃ a, x = .ok a ∧ f a = b := by
  cases x with
  | error e => simp [Except.map] at h
  | ok a => exact ⟨a, rfl, Except.ok.inj h⟩

theorem suffix_of_readMark? {mark : Char} {t rest : Text} (h : readMark? mark t = some rest) :
    rest <:+ t := by
  have ht : Text.trimLeft t <:+ t := List.dropWhile_suffix _
  unfold readMark? at h
  split at h
  · next c u hu =>
    rw [hu] at ht
    split at h
    · simp only [Option.some.injEq] at h
      rw [← h]
      exact (List.suffix_cons c u).trans ht
    · simp at h
  · simp at h

theorem suffix_of_splitAt? {read : Text → Option Text} {t before after : Text}
    (hread : ∀ {t rest}, read t = some rest → rest <:+ t)
    (h : splitAt? read t = some (before, after)) : after <:+ t := by
  induction t generalizing before with
  | nil => simp [splitAt?] at h
  | cons c t ih =>
    unfold splitAt? at h
    split at h
    · next r hr =>
      simp only [Option.some.injEq, Prod.mk.injEq] at h
      rw [← h.2]
      exact hread hr
    · obtain ⟨⟨b, a⟩, hb, heq⟩ := Option.map_eq_some_iff.1 h
      simp only [Prod.mk.injEq] at heq
      obtain ⟨_, rfl⟩ := heq
      exact (ih hb).trans (List.suffix_cons c t)

theorem suffix_of_readCommentEnd? {t rest : Text} (h : readCommentEnd? t = some rest) :
    rest <:+ t := by
  unfold readCommentEnd? at h
  split at h
  · exact (suffix_of_readMark? h).trans ((List.suffix_cons _ _).trans (List.suffix_cons _ _))
  · simp at h

theorem suffix_of_readSectionEnd? {t rest : Text} (h : readSectionEnd? t = some rest) :
    rest <:+ t := by
  unfold readSectionEnd? at h
  split at h
  · obtain ⟨u, hu, h⟩ := Option.bind_eq_some_iff.1 h
    exact ((suffix_of_readMark? h).trans (suffix_of_readMark? hu)).trans (List.suffix_cons _ _)
  · simp at h

theorem suffix_of_readConditionEnd? {t rest : Text} (h : readConditionEnd? t = some rest) :
    rest <:+ t := by
  unfold readConditionEnd? at h
  split at h
  · exact (suffix_of_readMark? h).trans (List.suffix_cons _ _)
  · simp at h

theorem suffix_of_markedSection {s s' : State} {t rest : Text}
    (h : markedSection s t = .ok (.next s' rest)) : rest <:+ t := by
  simp only [markedSection] at h
  repeat' split at h
  all_goals first | (simp at h; done) | skip
  all_goals
    next content r hsplit hcontent =>
      simp only [Except.ok.injEq, Step.next.injEq] at h
      rw [← h.2]
      split at hsplit
      · exact suffix_of_splitAt? suffix_of_readSectionEnd? (Option.some.inj hsplit)
      · split at hsplit
        · exact suffix_of_splitAt? suffix_of_readConditionEnd? (Option.some.inj hsplit)
        · simp at hsplit

theorem suffix_of_declaration {s s' : State} {t rest : Text}
    (h : declaration s t = .next s' rest) : rest <:+ t := by
  unfold declaration at h
  split at h
  · next before r hr =>
    simp only [Step.next.injEq] at h
    rw [← h.2]
    exact suffix_of_upTo? hr
  · simp at h

theorem suffix_of_construct {s s' : State} {t rest : Text}
    (h : construct s t = .ok (.next s' rest)) : rest <:+ t := by
  unfold construct at h
  split at h
  · split at h
    · next inner r hr =>
      simp only [Except.ok.injEq, Step.next.injEq] at h
      rw [← h.2]
      exact (suffix_of_upTo? hr).trans (List.suffix_cons _ _)
    · simp at h
  · next u =>
    split at h
    · next before r hr =>
      simp only [Except.ok.injEq, Step.next.injEq] at h
      rw [← h.2]
      exact (suffix_of_splitAt? suffix_of_readCommentEnd? hr).trans
        (List.suffix_append ['!', '-', '-'] u)
    · simp at h
  · next u => exact (suffix_of_markedSection h).trans (List.suffix_append ['!', '['] u)
  · exact (suffix_of_declaration (Except.ok.inj h)).trans (List.suffix_cons _ _)
  · exact (suffix_of_declaration (Except.ok.inj h)).trans (List.suffix_cons _ _)
  · next c u _ _ _ _ _ =>
    split at h
    · split at h
      · next name closing values r hr =>
        obtain ⟨_, _, h⟩ := eq_ok_of_map_eq_ok h
        simp only [Step.next.injEq] at h
        rw [← h.2]
        exact (StartTag.suffix_of_read hr (.inl ⟨_, _, _, rfl⟩)).trans (List.suffix_cons c u)
      · next values r hr =>
        obtain ⟨_, _, h⟩ := eq_ok_of_map_eq_ok h
        simp only [Step.next.injEq] at h
        rw [← h.2]
        exact (StartTag.suffix_of_read hr (.inr ⟨_, rfl⟩)).trans (List.suffix_cons c u)
      · simp at h
    · simp only [Except.ok.injEq, Step.next.injEq] at h
      obtain ⟨-, rfl⟩ := h
      exact List.suffix_refl _
  · simp at h

theorem suffix_recover (t : Text) : (recover t).2 <:+ t := by
  unfold recover
  split
  · next before r hr => exact suffix_of_upTo? hr
  · split
    · exact List.dropWhile_suffix _
    · exact List.suffix_refl _

theorem suffix_of_reference {isLast : Bool} {s s' : State} {t rest : Text}
    (h : reference isLast s t = .ok (.next s' rest)) : rest <:+ t := by
  unfold reference at h
  split at h
  · next u =>
    split at h
    · next n r hr =>
      obtain ⟨_, _, h⟩ := eq_ok_of_map_eq_ok h
      simp only [Step.next.injEq] at h
      rw [← h.2]
      exact (suffix_of_readNumeric? hr).trans (List.suffix_cons _ u)
    · simp only [Except.ok.injEq] at h
      split at h <;> simp at h
  · split at h
    · next read r hr =>
      simp only [Except.ok.injEq, Step.next.injEq] at h
      rw [← h.2]
      exact suffix_of_readNamed? hr
    · split at h
      · simp only [Except.ok.injEq] at h
        split at h <;> simp at h
      · simp only [Except.ok.injEq, Step.next.injEq] at h
        obtain ⟨-, rfl⟩ := h
        exact List.suffix_refl _
  · simp at h

/-- A character that begins no construct. -/
def isPlain (c : Char) : Bool := c != '<' && c != '&'

/-- The text up to the next construct, and the text from there on; none where raw content never
ends. -/
def plainRun (s : State) (t : Text) : Option (Text × Text) :=
  match s.rawElement with
  | some name =>
    (splitAt? (readRawClose? name) t).map fun (before, _) => (before, t.drop before.length)
  | none => some (t.takeWhile isPlain, t.dropWhile isPlain)

theorem suffix_of_plainRun {s : State} {t before rest : Text}
    (h : plainRun s t = some (before, rest)) : rest <:+ t := by
  unfold plainRun at h
  split at h
  · obtain ⟨⟨b, a⟩, _, heq⟩ := Option.map_eq_some_iff.1 h
    simp only [Prod.mk.injEq] at heq
    rw [← heq.2]
    exact List.drop_suffix _ _
  · simp only [Option.some.injEq, Prod.mk.injEq] at h
    rw [← h.2]
    exact List.dropWhile_suffix _

/-- Walks over a text until it ends or the walk halts: the state reached and the text left. -/
def walk (isLast : Bool) (s : State) (t : Text) : Except MarkupError (State × Text) :=
  match _h : plainRun s t with
  | none => .ok (s, t)
  | some (before, []) => .ok (s.append before, [])
  | some (before, c :: u) =>
    let s := s.append before
    if c = '<' then
      match _hc : construct s u with
      | .error e => .error e
      | .ok (.next s rest) => walk isLast s rest
      | .ok (.halt s rest) => .ok (s, rest)
      | .ok .incomplete =>
        if isLast then walk isLast (s.append (recover u).1) (recover u).2
        else .ok (s, c :: u)
    else
      match _hc : reference isLast s u with
      | .error e => .error e
      | .ok (.next s rest) => walk isLast s rest
      | .ok (.halt s rest) => .ok (s, rest)
      | .ok .incomplete => .ok (s, c :: u)
termination_by t.length
decreasing_by
  · have := (suffix_of_plainRun ‹_›).length_le
    have := (suffix_of_construct ‹_›).length_le
    simp only [List.length_cons] at *
    omega
  · have := (suffix_of_plainRun ‹_›).length_le
    have := (suffix_recover u).length_le
    simp only [List.length_cons] at *
    omega
  · have := (suffix_of_plainRun ‹_›).length_le
    have := (suffix_of_reference ‹_›).length_le
    simp only [List.length_cons] at *
    omega

/-- The text content of a fragment. -/
def content (fragment : Text) : Except MarkupError Text := do
  let (s, rest) ← walk false .empty fragment
  let (s, rest) ← walk true s rest
  let s := if s.rawElement.isNone then s.append rest else s
  return s.flush.output

/-- The text content without any blank.  A fragment without brackets and ampersands is its own text
content. -/
def visibleText (fragment : Text) : Except MarkupError Text :=
  if fragment.contains '<' || fragment.contains '&' then
    (content fragment).map Text.removeBlanks
  else .ok (Text.removeBlanks fragment)

end AriaLint.Markup
