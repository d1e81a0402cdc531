import AriaLint.Proofs.Document.Elements
import AriaLint.Proofs.Tag.Lowered
import AriaLint.Proofs.Tag.Scan

/-!
# Tags between a tag and its closing tag

The closing tag of an element is found by counting.  How much of the text has a part in that, and what
happens to the count when one more tag is put in?

A text in which every bracket closes has a result of its own: either the count comes to its end within
the text, whatever follows, or it goes on behind the text from some depth (`closeFrom_append`).  So the
part of the snippet up to the new tag acts on the rest by a single number, and the new tag by what it
adds to that number.

A tag adds nothing when its name does not start with the word that is counted, or when it closes
itself (`Turn.moves`).  The word boundary in "starts with" is what tells names apart here, and it does
not tell all of them apart: `<tab-x>` and `<tab:x>` move the count for `tab`, though they are no tags of
that name.  A tag that moves the count makes a difference for some continuation, namely for closing
tags in just the number that one count needs and the other does not (`closeFrom_closers`).  That gives
the criterion `matchingClose?_insert_iff`, an equivalence.
-/

namespace AriaLint

open Tag (BracketsClose)

namespace Closing

/-! ## What counts, and where it ends -/

namespace Turn

theorem read?_of_head? {name v : Text} (h : v.head? ≠ some '/') :
    read? name ('<' :: v) = readRest? name false v := by
  unfold read?
  split
  · next heq =>
    rw [(List.cons.inj heq).2] at h
    exact absurd rfl h
  · next heq => rw [(List.cons.inj heq).2]
  · next hnot => exact absurd rfl (hnot v)

theorem read?_cons_of_ne {name v : Text} {c : Char} (h : c ≠ '<') : read? name (c :: v) = none := by
  unfold read?
  split
  · next heq => exact absurd (List.cons.inj heq).1 h
  · next heq => exact absurd (List.cons.inj heq).1 h
  · rfl

/-- **What counts**: letters like those of the word up to a word boundary, and all that stands before
the next closing bracket. -/
theorem readRest?_eq_some_iff {name t rest : Text} {isClosing : Bool} {u : Turn} :
    readRest? name isClosing t = some (u, rest) ↔
      u.isClosing = isClosing ∧ List.Forall₂ (fun w c => sameLetter w c = true) name u.rawName ∧
        isBoundary u.rawName.getLast? (u.attrs ++ '>' :: rest).head? = true ∧ '>' ∉ u.attrs ∧
        t = u.rawName ++ (u.attrs ++ '>' :: rest) := by
  constructor
  · intro h
    obtain ⟨⟨raw, v⟩, hv, hbody⟩ := Option.bind_eq_some_iff.1 h
    obtain ⟨hlike, rfl⟩ := Text.readWord?_eq_some_iff.1 hv
    dsimp only at hbody
    split at hbody
    · next hb =>
      obtain ⟨⟨attrs, w⟩, hw, hend⟩ := Option.bind_eq_some_iff.1 hbody
      obtain ⟨rfl, rfl⟩ := Prod.mk.inj (Option.some.inj hend)
      obtain ⟨hsplit, hclose⟩ := Text.upTo?_eq_some hw
      obtain rfl : v = attrs ++ '>' :: w := hsplit
      exact ⟨rfl, hlike, hb, hclose, rfl⟩
    · exact absurd hbody (by simp)
  · rintro ⟨rfl, hlike, hb, hclose, rfl⟩
    have hword : Text.readWord? sameLetter name (u.rawName ++ (u.attrs ++ '>' :: rest)) =
        some (u.rawName, u.attrs ++ '>' :: rest) := Text.readWord?_eq_some_iff.2 ⟨hlike, rfl⟩
    show (Text.readWord? sameLetter name (u.rawName ++ (u.attrs ++ '>' :: rest))).bind _ = _
    rw [hword]
    show (if isBoundary u.rawName.getLast? (u.attrs ++ '>' :: rest).head? = true then
      (Text.upTo? '>' (u.attrs ++ '>' :: rest)).bind _ else none) = _
    rw [if_pos hb, Text.upTo?_append_cons hclose]
    rfl

/-- **A tag that counts ends with its first closing bracket**, and nothing behind it is looked at. -/
theorem endsAt_reader {name : Text} (hname : IsNameWord name) : (reader name).EndsAt isClose 1 where
  reading {before t u rest} h := by
    have hread : read? name t = some (u, rest) := h
    have hends : ∀ {isClosing v}, readRest? name isClosing v = some (u, rest) →
        v = u.rawName ++ (u.attrs ++ '>' :: rest) ∧ '>' ∉ u.rawName ++ u.attrs ∧
          ∀ rest', readRest? name isClosing (u.rawName ++ (u.attrs ++ '>' :: rest')) =
            some (u, rest') := by
      intro isClosing v hv
      obtain ⟨hc, hlike, hb, hclose, rfl⟩ := readRest?_eq_some_iff.1 hv
      have hraw : '>' ∉ u.rawName :=
        not_mem_of_forall₂ (fun w hw => hname w hw '>' rfl) hlike
      refine ⟨rfl, by simp [hraw, hclose], fun rest' => readRest?_eq_some_iff.2 ?_⟩
      refine ⟨hc, hlike, ?_, hclose, rfl⟩
      have hhead : (u.attrs ++ '>' :: rest').head? = (u.attrs ++ '>' :: rest).head? := by
        cases u.attrs <;> rfl
      rwa [hhead]
    cases t with
    | nil => exact absurd hread (by simp [read?])
    | cons c v =>
      by_cases hc : c = '<'
      · subst hc
        by_cases hv : v.head? = some '/'
        · obtain ⟨w, rfl⟩ := List.head?_eq_some_iff.1 hv
          obtain ⟨rfl, hclose, hlocal⟩ := hends (show readRest? name true w = _ from hread)
          refine ⟨'<' :: '/' :: (u.rawName ++ u.attrs), '>', by simp, rfl, ?_, fun rest' => ?_⟩
          · rw [countP_isClose_eq_zero.2]
            rw [List.mem_cons, List.mem_cons, not_or, not_or]
            exact ⟨by decide, by decide, hclose⟩
          · have hrest := hlocal rest'
            rw [← List.append_assoc] at hrest
            exact hrest
        · rw [read?_of_head? hv] at hread
          obtain ⟨rfl, hclose, hlocal⟩ := hends hread
          refine ⟨'<' :: (u.rawName ++ u.attrs), '>', by simp, rfl, ?_, fun rest' => ?_⟩
          · rw [countP_isClose_eq_zero.2]
            rw [List.mem_cons, not_or]
            exact ⟨by decide, hclose⟩
          · have hhead : (u.rawName ++ (u.attrs ++ '>' :: rest')).head? =
                (u.rawName ++ (u.attrs ++ '>' :: rest)).head? := by
              cases u.rawName with
              | cons d raw => rfl
              | nil => cases u.attrs <;> rfl
            show read? name ('<' :: (u.rawName ++ u.attrs ++ '>' :: rest')) = _
            rw [List.append_assoc, read?_of_head? (by rwa [hhead])]
            exact hlocal rest'
      · rw [read?_cons_of_ne hc] at hread
        exact absurd hread (by simp)

/-- **A tag that counts is read before any text.** -/
theorem read?_source_append {name rest : Text} {u : Turn} (hname : IsNameWord name)
    (h : read? name (u.source ++ rest) = some (u, rest)) (v : Text) :
    read? name (u.source ++ v) = some (u, v) := by
  have hread : (reader name).read? none (u.source ++ rest) = some (u, rest) := h
  obtain ⟨k, d, hk, -, -, hlocal⟩ := (endsAt_reader hname).reading hread
  have hsource : (k ++ [d]) ++ rest = u.source ++ rest := by
    rw [hk]
    simp
  rw [← List.append_cancel_right hsource, List.append_assoc]
  exact hlocal v

/-- Where nothing counts in a text whose brackets close, nothing counts before any text. -/
theorem read?_append_eq_none {name a : Text} {c : Char} (hname : IsNameWord name)
    (hclose : c = '<' → '>' ∈ a) (h : read? name (c :: a) = none) (v : Text) :
    read? name (c :: (a ++ v)) = none := by
  by_cases hc : c = '<'
  · have hcount : 1 ≤ (c :: a).countP isClose :=
      List.countP_pos_iff.2 ⟨'>', List.mem_cons_of_mem c (hclose hc), rfl⟩
    have happ := (endsAt_reader hname).read?_append hcount none v
    rw [show (reader name).read? none (c :: a) = none from h] at happ
    exact happ
  · exact read?_cons_of_ne hc

/-- Induction along the tags that count in a text. -/
@[elab_as_elim]
theorem textInduction (name : Text) {P : Text → Prop} (nil : P [])
    (char : ∀ c t, read? name (c :: t) = none → P t → P (c :: t))
    (turn : ∀ u rest, read? name (u.source ++ rest) = some (u, rest) → P rest →
      P (u.source ++ rest)) (t : Text) : P t := by
  induction hn : t.length using Nat.strongRecOn generalizing t with
  | ind n ih =>
    subst hn
    cases t with
    | nil => exact nil
    | cons c t =>
      cases hread : read? name (c :: t) with
      | none => exact char c t hread (ih t.length (Nat.lt_succ_self _) t rfl)
      | some r =>
        obtain ⟨u, rest⟩ := r
        have hreader : (reader name).read? none (c :: t) = some (u, rest) := hread
        have hlt : rest.length < (c :: t).length := (reader name).shortens hreader
        have hrest := ih rest.length hlt rest rfl
        have hsplit := source_append_of_read? hread
        rw [← hsplit] at hread ⊢
        exact turn u rest hread hrest

/-- The tag changes the count for the word. -/
def moves (name : Text) (u : Turn) : Bool :=
  startsWithWord name u.rawName && (u.isClosing || !Tag.endsWithSlash u.attrs)

end Turn

/-! ## Counting over a text in two parts -/

section Counting

variable {name : Text}

theorem closeFrom_nil (depth start : Nat) : closeFrom name depth start [] = none := by
  rw [closeFrom, Reader.pieces_nil]
  rfl

/-- Counting from a later position gives the same closing tag, later. -/
theorem closeFrom_add (n depth start : Nat) (t : Text) :
    closeFrom name depth (n + start) t = (closeFrom name depth start t).map (Span.shift n) := by
  have pieces : ∀ ps : List (Piece Turn), ∀ depth start,
      Turn.close? depth (n + start) ps = (Turn.close? depth start ps).map (Span.shift n) := by
    intro ps
    induction ps with
    | nil => exact fun _ _ => rfl
    | cons p ps ih =>
      intro depth start
      cases p with
      | char c => exact ih depth (start + 1)
      | item u =>
        unfold Turn.close?
        simp only [Nat.add_assoc, ih]
        split
        · cases depth with
          | zero => rfl
          | succ depth => rfl
        · split <;> rfl
  exact pieces _ depth start

/-- **The first part of a text acts on the rest by a depth**, unless the count ends within it. -/
theorem closeFrom_append (hname : IsNameWord name) {a : Text} (ha : BracketsClose a)
    (depth start : Nat) :
    (∃ s : Span, s.start < start + a.length ∧
        ∀ v, closeFrom name depth start (a ++ v) = some s) ∨
      ∃ depth', ∀ v, closeFrom name depth start (a ++ v) =
        closeFrom name depth' (start + a.length) v := by
  induction a using Turn.textInduction name generalizing depth start with
  | nil => exact Or.inr ⟨depth, fun v => rfl⟩
  | char c a hread ih =>
    have hnone := Turn.read?_append_eq_none hname ha.1 hread
    have hlen : start + 1 + a.length = start + (c :: a).length := by
      rw [List.length_cons]
      omega
    have hrest := ih ha.2 depth (start + 1)
    rw [hlen] at hrest
    refine hrest.imp (fun ⟨s, hs, hclosed⟩ => ⟨s, hs, fun v => ?_⟩)
      fun ⟨depth', hopen⟩ => ⟨depth', fun v => ?_⟩
    · rw [List.cons_append, closeFrom_of_not_read (hnone v), hclosed]
    · rw [List.cons_append, closeFrom_of_not_read (hnone v), hopen]
  | turn u rest hread ih =>
    have hsome : ∀ v, Turn.read? name (u.source ++ (rest ++ v)) = some (u, rest ++ v) :=
      fun v => Turn.read?_source_append hname hread _
    have hrest : BracketsClose rest := Tag.bracketsClose_of_append ha
    have hlen : start + u.source.length + rest.length = start + (u.source ++ rest).length := by
      rw [List.length_append]
      omega
    -- a tag that leaves the count running hands it on with another depth
    have hon : ∀ depth', (∀ v, closeFrom name depth start (u.source ++ (rest ++ v)) =
        closeFrom name depth' (start + u.source.length) (rest ++ v)) →
        (∃ s : Span, s.start < start + (u.source ++ rest).length ∧
          ∀ v, closeFrom name depth start (u.source ++ rest ++ v) = some s) ∨
        ∃ depth', ∀ v, closeFrom name depth start (u.source ++ rest ++ v) =
          closeFrom name depth' (start + (u.source ++ rest).length) v := by
      intro depth' hstep
      have hih := ih hrest depth' (start + u.source.length)
      rw [hlen] at hih
      simp only [List.append_assoc, hstep]
      exact hih
    cases hu : u.isClosing with
    | false => exact hon _ fun v => closeFrom_of_opening (hsome v) hu depth start
    | true =>
      cases depth with
      | zero =>
        refine Or.inl ⟨⟨start, start + u.source.length⟩, ?_, fun v => ?_⟩
        · have hpos : 0 < u.source.length := by simp [Turn.source]
          show start < start + (u.source ++ rest).length
          rw [List.length_append]
          omega
        · rw [List.append_assoc]
          exact (closeFrom_of_closing (hsome v) hu 0 start).2
      | succ depth => exact hon _ fun v => (closeFrom_of_closing (hsome v) hu depth start).1

end Counting

/-! ## One tag -/

section OneTag

variable {name : Text} (hname : IsNameWord name) {u : Turn}
  (hu : Tag.IsPlain ⟨u.rawName, u.attrs⟩)

theorem source_of_opening (h : u.isClosing = false) :
    u.source = Tag.source ⟨u.rawName, u.attrs⟩ := by
  simp [Turn.source, Tag.source, h]

theorem source_append_of_closing (h : u.isClosing = true) (y : Text) :
    u.source ++ y = '<' :: '/' :: (u.rawName ++ (u.attrs ++ '>' :: y)) := by
  simp [Turn.source, h]

include hname hu in
/-- A closing tag of another name is passed over, and one that counts takes the depth down. -/
theorem closeFrom_closing (h : u.isClosing = true) (depth start : Nat) (y : Text) :
    (startsWithWord name u.rawName = false → closeFrom name depth start (u.source ++ y) =
        closeFrom name depth (start + u.source.length) y) ∧
      (startsWithWord name u.rawName = true →
        closeFrom name (depth + 1) start (u.source ++ y) =
            closeFrom name depth (start + u.source.length) y ∧
          closeFrom name 0 start (u.source ++ y) = some ⟨start, start + u.source.length⟩) := by
  have hbehind := endsTagName_of_mem_head? hu.separated y
  have hrawOpen : '<' ∉ u.rawName := hu.not_mem_rawName (by decide)
  have hrawClose : '>' ∉ u.rawName := hu.not_mem_rawName (by decide)
  have hsource := source_append_of_closing h y
  refine ⟨fun hstarts => ?_, fun hstarts => ?_⟩
  · have hread : Turn.read? name (u.source ++ y) = none := by
      rw [hsource]
      show Turn.readRest? name true _ = none
      exact readRest?_eq_none hname hbehind hstarts
    have hopen : '<' ∉ '/' :: (u.rawName ++ u.attrs ++ ['>']) := by
      simp [hrawOpen, hu.opens]
    have hcons : u.source = '<' :: '/' :: (u.rawName ++ u.attrs ++ ['>']) := by
      simp [Turn.source, h]
    rw [hcons] at hread ⊢
    exact closeFrom_of_tag hread hopen depth start
  · obtain ⟨n, z, -, hread⟩ :=
      readRest?_eq_some hname true hrawClose hu.closes hbehind hstarts
    have hturn : Turn.read? name (u.source ++ y) = some (⟨true, n, z ++ u.attrs⟩, y) := by
      rw [hsource]
      exact hread
    exact closeFrom_of_closing hturn rfl depth start

include hname hu in
/-- A tag that does not move the count is passed over. -/
theorem closeFrom_of_not_moves (h : u.moves name = false) (depth start : Nat) (y : Text) :
    closeFrom name depth start (u.source ++ y) =
      closeFrom name depth (start + u.source.length) y := by
  cases hc : u.isClosing with
  | false =>
    rw [Turn.moves, hc, Bool.false_or] at h
    rw [source_of_opening hc, closeFrom_source hname hu]
    show closeFrom name (if startsWithWord name u.rawName && !Tag.endsWithSlash u.attrs then _
      else depth) _ y = _
    rw [h]
    rfl
  | true =>
    rw [Turn.moves, hc, Bool.true_or, Bool.and_true] at h
    exact (closeFrom_closing hname hu hc depth start y).1 h

include hname hu in
/-- An opening tag that moves the count takes the depth up. -/
theorem closeFrom_of_moves (hc : u.isClosing = false) (h : u.moves name = true)
    (depth start : Nat) (y : Text) :
    closeFrom name depth start (u.source ++ y) =
      closeFrom name (depth + 1) (start + u.source.length) y := by
  rw [Turn.moves, hc, Bool.false_or] at h
  rw [source_of_opening hc, closeFrom_source hname hu]
  show closeFrom name (if startsWithWord name u.rawName && !Tag.endsWithSlash u.attrs then _
    else depth) _ y = _
  rw [h]
  rfl

/-! ## Closing tags in a row -/

/-- Closing tags of a name, `n` of them. -/
def closers (raw : Text) (n : Nat) : Text := (List.replicate n (closingTag raw [])).flatten

include hname hu in
/-- The count ends when there is one closing tag more than elements that are open inside. -/
theorem closeFrom_closers (hstarts : startsWithWord name u.rawName = true) (n depth start : Nat) :
    (closeFrom name depth start (closers u.rawName n)).isSome = decide (depth < n) := by
  have hplain : Tag.IsPlain ⟨u.rawName, []⟩ :=
    ⟨hu.chars, hu.last, by simp, by simp, by simp⟩
  induction n generalizing depth start with
  | zero =>
    rw [show closers u.rawName 0 = [] from rfl, closeFrom_nil]
    rfl
  | succ n ih =>
    have hcons : closers u.rawName (n + 1) =
        closingTag u.rawName [] ++ closers u.rawName n := by
      rw [closers, List.replicate_succ, List.flatten_cons]
      rfl
    have hsame : SameName u.rawName u.rawName := List.forall₂_same.2 fun _ _ => rfl
    have hgap : Text.IsBlankText [] := by simp [Text.IsBlankText]
    obtain ⟨v, hread, hv⟩ :=
      read?_closingTag hname hplain hsame hgap hstarts (closers u.rawName n)
    rw [hcons]
    cases depth with
    | zero =>
      rw [(closeFrom_of_closing hread hv 0 start).2]
      simp
    | succ depth =>
      rw [(closeFrom_of_closing hread hv depth start).1, ih]
      simp

end OneTag

/-- No sign that is not part of a name is like a character of the name of a tag. -/
theorem sameLetter_name_eq_false {t : Tag} (h : ∀ c ∈ t.rawName, Tag.isNameChar c = true)
    {p : Char} (hfold : fold p = p) (hp : Tag.isNameChar p = false) (hdot : p ≠ '\u0307') :
    ∀ w ∈ t.name, sameLetter w p = false := by
  intro w hw
  rcases Tag.isNameChar_or_dot_of_mem_name h w hw with hname | rfl
  · exact sameLetter_eq_false hname hfold hp
  · -- the dot is like itself alone
    have hsame : fold '\u0307' = '\u0307' := by decide +kernel
    rw [sameLetter, hsame, hfold]
    exact beq_eq_false_iff_ne.2 hdot.symm

/-- **The name of a tag is read up to its end**, whichever characters it has. -/
theorem isNameWord_name {t : Tag} (h : ∀ c ∈ t.rawName, Tag.isNameChar c = true) :
    IsNameWord t.name := by
  intro w hw c hc
  obtain ⟨hdelim, hfold⟩ := delimits_of_endsTagName hc
  refine sameLetter_name_eq_false h hfold (isNameChar_eq_false hdelim) ?_ w hw
  rintro rfl
  exact absurd hc (by decide +kernel)

end Closing

/-! ## A tag that is put in -/

/-- The stretch in a text that has `n` more characters from the position `p` on. -/
def Span.shiftFrom (p n : Nat) (s : Span) : Span := if p ≤ s.start then s.shift n else s

namespace Occurrence

open Closing

/-- A tag of a text stands in it, with a name that is read up to its end. -/
theorem exists_append_of_mem_all {t : Text} {o : Occurrence} (h : o ∈ all t) :
    ∃ g a, t = g ++ (o.tag.source ++ a) ∧ o.start = g.length ∧ IsNameWord o.tag.name := by
  rw [all_eq_map_readings] at h
  obtain ⟨f, hf, rfl⟩ := List.mem_map.1 h
  obtain ⟨hsplit, hread⟩ := append_of_readsAt (Tag.endsAt_reader.readsAt_of_mem hf)
  exact ⟨f.before, f.after, hsplit, rfl, isNameWord_name (Tag.isNameChar_of_read? hread)⟩

theorem matchingClose?_append {x g a : Text} {o : Occurrence} (hx : x = g ++ (o.tag.source ++ a))
    (ho : o.start = g.length) (hself : o.tag.isSelfClosing = false) (v : Text) :
    o.matchingClose? (x ++ v) =
      (closeFrom o.tag.name 0 0 (a ++ v)).map (Span.shift o.stop) := by
  have hafter : o.after (x ++ v) = a ++ v := by
    have h := Document.after_append g o.tag (a ++ v)
    rw [← ho] at h
    rw [hx, List.append_assoc, List.append_assoc]
    exact h
  rw [matchingClose?, hself, if_neg (by simp), hafter]
  rfl

/-- **One more tag leaves the closing tag of a tag where it was, whatever follows, exactly when it
does not move the count**, unless the tag closes itself or is closed before. -/
theorem matchingClose?_insert_iff {x : Text} (hx : BracketsClose x) {o : Occurrence}
    (ho : o ∈ all x) {u : Turn} (hu : Tag.IsPlain ⟨u.rawName, u.attrs⟩) :
    (∀ y, o.matchingClose? (x ++ (u.source ++ y)) =
        (o.matchingClose? (x ++ y)).map (Span.shiftFrom x.length u.source.length)) ↔
      o.tag.isSelfClosing = true ∨ (o.matchingClose? x).isSome = true ∨
        u.moves o.tag.name = false := by
  obtain ⟨g, a, hsplit, hstart, hname⟩ := exists_append_of_mem_all ho
  cases hself : o.tag.isSelfClosing with
  | true =>
    have hnone : ∀ t, o.matchingClose? t = none := fun t => by
      rw [matchingClose?, if_pos hself]
    simp [hnone]
  | false =>
    have hmatch := matchingClose?_append hsplit hstart hself
    have hlen : x.length = o.stop + a.length := by
      rw [hsplit, stop, hstart, List.length_append, List.length_append, Nat.add_assoc]
    have ha : BracketsClose a := by
      rw [hsplit] at hx
      exact Tag.bracketsClose_of_append (Tag.bracketsClose_of_append hx)
    have hx' : o.matchingClose? x = (closeFrom o.tag.name 0 0 (a ++ [])).map (Span.shift o.stop) := by
      rw [← hmatch, List.append_nil]
    rcases closeFrom_append hname ha 0 0 with ⟨s, hs, hclosed⟩ | ⟨depth, hopen⟩
    · -- closed before: both sides hold
      rw [Nat.zero_add] at hs
      refine iff_of_true (fun y => ?_) (Or.inr (Or.inl ?_))
      · have hlt : ¬ x.length ≤ (s.shift o.stop).start := by
          show ¬ x.length ≤ o.stop + s.start
          omega
        rw [hmatch, hmatch, hclosed, hclosed]
        simp [Span.shiftFrom, hlt]
      · rw [hx', hclosed]
        rfl
    · have hnone : (o.matchingClose? x).isSome = false := by
        rw [hx', hopen, closeFrom_nil]
        rfl
      simp only [hmatch, hopen, hnone, Bool.false_eq_true, false_or, Nat.zero_add]
      constructor
      · intro h
        by_contra hmoves
        rw [Bool.not_eq_false] at hmoves
        have hstarts : startsWithWord o.tag.name u.rawName = true :=
          (Bool.and_eq_true_iff.1 hmoves).1
        have hsome : ∀ n, (closeFrom o.tag.name depth a.length
            (u.source ++ closers u.rawName n)).isSome = decide (depth < n) := by
          intro n
          have hn := congrArg Option.isSome (h (closers u.rawName n))
          rw [Option.isSome_map, Option.isSome_map, Option.isSome_map] at hn
          rw [hn, closeFrom_closers hname hu hstarts]
        cases hc : u.isClosing with
        | false =>
          have hclosers := hsome (depth + 1)
          rw [closeFrom_of_moves hname hu hc hmoves, closeFrom_closers hname hu hstarts] at hclosers
          simp at hclosers
        | true =>
          have hclosers := hsome depth
          cases depth with
          | zero =>
            rw [((closeFrom_closing hname hu hc 0 _ _).2 hstarts).2] at hclosers
            simp at hclosers
          | succ depth =>
            rw [((closeFrom_closing hname hu hc depth _ _).2 hstarts).1,
              closeFrom_closers hname hu hstarts] at hclosers
            simp at hclosers
      · intro hmoves y
        have hbase : ∀ n, closeFrom o.tag.name depth n y =
            (closeFrom o.tag.name depth 0 y).map (Span.shift n) := fun n => closeFrom_add n depth 0 y
        rw [closeFrom_of_not_moves hname hu hmoves, hbase (a.length + u.source.length),
          hbase a.length]
        simp only [Option.map_map]
        refine congrArg (Option.map · _) (funext fun s => ?_)
        have hle : x.length ≤ o.stop + (a.length + s.start) := by omega
        simp only [Function.comp_apply, Span.shiftFrom, Span.shift, hle, if_true, Span.mk.injEq]
        omega

/-- A `b` leaves the closing tag of a `tab` where it is. -/
theorem matchingClose?_insert_b :
    matchingClose? ⟨⟨"tab", []⟩, 0⟩ "<tab><b></tab>" =
      (matchingClose? ⟨⟨"tab", []⟩, 0⟩ "<tab></tab>").map (Span.shiftFrom 5 3) :=
  (matchingClose?_insert_iff (x := "<tab>") (by decide +kernel) (by decide +kernel)
    (u := ⟨false, "b", []⟩) (by decide +kernel)).2 (Or.inr (Or.inr (by decide +kernel))) "</tab>"

/-- A `tab-x` takes the closing tag of a `tab`, and a `tab:x` does too. -/
theorem matchingClose?_insert_tabX :
    let o : Occurrence := ⟨⟨"tab", []⟩, 0⟩
    o ∈ all "<tab>" ∧ o.matchingClose? "<tab></tab>" = some ⟨5, 11⟩ ∧
      o.matchingClose? "<tab><tab-x></tab>" = none ∧
      o.matchingClose? "<tab><tab:x></tab>" = none := by
  decide +kernel

end Occurrence
end AriaLint
