import AriaLint.Proofs.Markup.Steps

/-!
# Start tags in a text that is cut off

Where a walk over a fragment goes may depend on text that it has not come to yet.  A quote is read
as the start of a value only if it is closed again; if it never is, it belongs to a name, and the tag
ends elsewhere.  So one cannot change what follows a place and expect the walk to come to the place
as before.

But when the walk does come to a place with a bracket, what it has read up to there does not depend
on what follows the bracket.  This is shown by cutting the text off behind the bracket.  `Cut m t u`
says that `u` is what is left of `t`, where `m` follows the bracket.  The readers are taken one by one,
and for each of them there is the same law: what stops in front of the bracket, or at it, is read in
`u` as in `t`, and what it leaves is cut off too.  A reader that may give up has to give up in both
texts.

Here are the readers of start tags, up to `StartTag.read_cut`.  `Proofs.Markup.Bracket` goes on with
the other constructs and with the walk.
-/

namespace AriaLint.Markup

/-- The second text is the first one, cut off behind a bracket that `m` follows. -/
def Cut (m t u : Text) : Prop := ∃ a, t = a ++ '<' :: m ∧ u = a ++ ['<']

namespace Cut

variable {m t u t' u' k rest : Text}

theorem suffix (h : Cut m t u) : '<' :: m <:+ t := by
  obtain ⟨a, rfl, -⟩ := h
  exact List.suffix_append a _

/-- The bracket is not behind itself. -/
theorem not_suffix (h : '<' :: m <:+ rest) : ¬ rest <:+ m := fun hrest => by
  have := (h.trans hrest).length_le
  rw [List.length_cons] at this
  omega

/-- What is left of a text, as far as the bracket belongs to it, is cut off with it. -/
theorem exists_rest (h : Cut m (k ++ rest) u) (hm : '<' :: m <:+ rest) :
    ∃ rest', u = k ++ rest' ∧ Cut m rest rest' := by
  obtain ⟨a, ha, rfl⟩ := h
  obtain ⟨r, rfl⟩ := hm
  rw [← List.append_assoc] at ha
  obtain rfl := List.append_cancel_right ha
  exact ⟨r ++ ['<'], List.append_assoc k r _, r, rfl, rfl⟩

theorem eq_iff (h : Cut m t u) (h' : Cut m t' u') : t = t' ↔ u = u' := by
  obtain ⟨a, rfl, rfl⟩ := h
  obtain ⟨b, rfl, rfl⟩ := h'
  rw [List.append_cancel_right_eq, List.append_cancel_right_eq]

/-- What has been consumed of a text, the bracket not included. -/
theorem consumed_eq {rest' : Text} (h : Cut m t u) (hrest : Cut m rest rest')
    (hsuffix : rest <:+ t) :
    u.take (u.length - rest'.length) = t.take (t.length - rest.length) := by
  obtain ⟨k, rfl⟩ := hsuffix
  obtain ⟨r, rfl, hr⟩ := h.exists_rest hrest.suffix
  obtain rfl := (hr.eq_iff hrest).1 rfl
  simp

theorem cons (c : Char) (h : Cut m t u) : Cut m (c :: t) (c :: u) := by
  obtain ⟨a, rfl, rfl⟩ := h
  exact ⟨c :: a, rfl, rfl⟩

/-- Either the bracket is next, or another character. -/
theorem cases_head (h : Cut m t u) :
    (t = '<' :: m ∧ u = ['<']) ∨ ∃ c t' u', t = c :: t' ∧ u = c :: u' ∧ Cut m t' u' := by
  obtain ⟨a, rfl, rfl⟩ := h
  cases a with
  | nil => exact Or.inl ⟨rfl, rfl⟩
  | cons c a => exact Or.inr ⟨c, _, _, rfl, rfl, a, rfl, rfl⟩

/-- A character other than the bracket stands in both texts. -/
theorem exists_of_cons {c : Char} (h : Cut m (c :: t) u) (hc : c ≠ '<') :
    ∃ u', u = c :: u' ∧ Cut m t u' := by
  rcases h.cases_head with ⟨heq, -⟩ | ⟨d, t', u', heq, rfl, h'⟩
  · exact absurd (List.cons.inj heq).1 hc
  · obtain ⟨rfl, rfl⟩ := List.cons.inj heq
    exact ⟨u', rfl, h'⟩

theorem exists_of_cons_right {c : Char} (h : Cut m t (c :: u)) (hc : c ≠ '<') :
    ∃ t', t = c :: t' ∧ Cut m t' u := by
  rcases h.cases_head with ⟨-, heq⟩ | ⟨d, t', u', rfl, heq, h'⟩
  · exact absurd (List.cons.inj heq).1 hc
  · obtain ⟨rfl, rfl⟩ := List.cons.inj heq
    exact ⟨t', rfl, h'⟩

/-- Both texts begin with the same character. -/
theorem exists_cons (h : Cut m t u) : ∃ c t' u', t = c :: t' ∧ u = c :: u' := by
  rcases h.cases_head with ⟨rfl, rfl⟩ | ⟨c, t', u', rfl, rfl, -⟩
  · exact ⟨'<', m, [], rfl, rfl⟩
  · exact ⟨c, t', u', rfl, rfl⟩

theorem head?_eq (h : Cut m t u) : u.head? = t.head? := by
  rcases h.cases_head with ⟨rfl, rfl⟩ | ⟨c, t', u', rfl, rfl, -⟩
  · rfl
  · rfl

theorem not_mem {c : Char} (h : Cut m t u) (hc : c ∉ t) : c ∉ u := by
  obtain ⟨a, rfl, rfl⟩ := h
  rw [List.mem_append, List.mem_cons, not_or, not_or] at hc
  simp [hc.1, hc.2.1]

end Cut

/-- The second cursor stands where the first one does, in a text that is cut off. -/
structure Cursor.Cut (m : Text) (c d : Cursor) : Prop where
  before : d.before = c.before
  text : Markup.Cut m c.text d.text

variable {m t u : Text}

theorem Cursor.Cut.eq_iff {c d c' d' : Cursor} (h : Cursor.Cut m c d) (h' : Cursor.Cut m c' d') :
    c = c' ↔ d = d' := by
  rcases c, d, c', d' with ⟨⟨b, x⟩, ⟨_, y⟩, ⟨b', x'⟩, ⟨_, y'⟩⟩
  obtain ⟨rfl, htext⟩ := h
  obtain ⟨rfl, htext'⟩ := h'
  rw [Cursor.mk.injEq, Cursor.mk.injEq, htext.eq_iff htext']

/-! ## Characters -/

section Skip

variable {p : Char → Bool} {b : Char}

/-- What is skipped in front of the bracket. -/
theorem skip_cut (h : Cut m t u) (hm : '<' :: m <:+ (Cursor.skip p b t).text) :
    Cursor.Cut m (Cursor.skip p b t) (Cursor.skip p b u) ∧ u.takeWhile p = t.takeWhile p := by
  obtain ⟨a, rfl, rfl⟩ := h
  induction a generalizing b with
  | nil =>
    rw [List.nil_append, Cursor.skip] at hm ⊢
    by_cases hp : p '<' = true
    · rw [if_pos hp] at hm
      exact absurd (Cursor.suffix_skip p '<' m) (Cut.not_suffix hm)
    · rw [List.nil_append, Cursor.skip, if_neg hp, if_neg hp, List.takeWhile_cons_of_neg hp,
        List.takeWhile_cons_of_neg hp]
      exact ⟨⟨rfl, [], rfl, rfl⟩, rfl⟩
  | cons c a ih =>
    rw [List.cons_append, Cursor.skip] at hm ⊢
    rw [List.cons_append, Cursor.skip]
    by_cases hp : p c = true
    · rw [if_pos hp] at hm ⊢
      obtain ⟨hcut, htake⟩ := ih hm
      rw [if_pos hp, List.takeWhile_cons_of_pos hp, List.takeWhile_cons_of_pos hp, htake]
      exact ⟨hcut, rfl⟩
    · rw [if_neg hp, if_neg hp, List.takeWhile_cons_of_neg hp, List.takeWhile_cons_of_neg hp]
      exact ⟨⟨rfl, c :: a, rfl, rfl⟩, rfl⟩

/-- The bracket is not skipped. -/
theorem suffix_skip_of_cut (h : Cut m t u) (hp : p '<' = false) :
    '<' :: m <:+ (Cursor.skip p b t).text := by
  obtain ⟨a, rfl, -⟩ := h
  induction a generalizing b with
  | nil =>
    rw [List.nil_append, Cursor.skip, hp, if_neg Bool.false_ne_true]
  | cons c a ih =>
    rw [List.cons_append, Cursor.skip]
    split
    · exact ih
    · exact List.suffix_append (c :: a) _

theorem skipSeparators_cut (h : Cut m t u) :
    Cursor.Cut m (Cursor.skipSeparators b t) (Cursor.skipSeparators b u) := by
  obtain ⟨a, rfl, rfl⟩ := h
  induction a generalizing b with
  | nil => exact ⟨rfl, [], rfl, rfl⟩
  | cons c a ih =>
    have hhead : (a ++ ['<']).head? = (a ++ '<' :: m).head? := Cut.head?_eq ⟨a, rfl, rfl⟩
    rw [List.cons_append, List.cons_append, Cursor.skipSeparators, Cursor.skipSeparators, hhead]
    split
    · exact ih
    · exact ⟨rfl, c :: a, rfl, rfl⟩

end Skip

/-! ## Attributes -/

section Attributes

variable {c d e : Cursor} {value : Text}

theorem upTo?_cut {q : Char} {after : Text} (h : Cut m t u)
    (hread : Text.upTo? q t = some (value, after)) (hm : '<' :: m <:+ after) :
    ∃ after', Text.upTo? q u = some (value, after') ∧ Cut m after after' := by
  obtain ⟨rfl, hvalue⟩ := Text.upTo?_eq_some hread
  rw [← List.singleton_append, ← List.append_assoc] at h
  obtain ⟨after', rfl, hcut⟩ := h.exists_rest hm
  rw [List.append_assoc, List.singleton_append]
  exact ⟨after', Text.upTo?_append_cons hvalue after', hcut⟩

theorem upTo?_cut_eq_none {q : Char} (h : Cut m t u) (hread : Text.upTo? q t = none) :
    Text.upTo? q u = none :=
  Text.upTo?_eq_none_iff.2 (h.not_mem (Text.upTo?_eq_none_iff.1 hread))

/-- The cursors behind what is not skipped past a bracket. -/
theorem Cursor.Cut.skip (h : Cursor.Cut m c d) {p : Char → Bool} (hp : p '<' = false) :
    Cursor.Cut m (Cursor.skip p c.before c.text) (Cursor.skip p d.before d.text) := by
  rw [h.before]
  exact (skip_cut h.text (suffix_skip_of_cut h.text hp)).1

/-- What a value is behind its equals signs: `t` follows the first of them, `signs` stands behind all
of them, and `start` behind the blanks that come then. -/
def valueBehind? (t : Text) (signs start : Cursor) : Option (Text × Cursor) :=
  match start.text with
  | q :: rest =>
    if q = '"' ∨ q = '\x27' then
      match Text.upTo? q rest with
      | some (value, after) => some (value, ⟨q, after⟩)
      | none =>
        if start ≠ signs then some ([], start)
        else if t.head? = some '=' then
          some ('=' :: signs.text.takeWhile isBareValueChar,
            Cursor.skip isBareValueChar '=' signs.text)
        else none
    else
      some (start.text.takeWhile isBareValueChar,
        Cursor.skip isBareValueChar start.before start.text)
  | [] => some ([], start)

theorem readValue?_of_sign (h : (Cursor.skip isBlank c.before c.text).text = '=' :: t) :
    readValue? c =
      valueBehind? t (Cursor.skip (· == '=') '=' t)
        (Cursor.skip isBlank (Cursor.skip (· == '=') '=' t).before
          (Cursor.skip (· == '=') '=' t).text) := by
  rw [readValue?]
  dsimp only
  rw [h]
  rfl

theorem readValue?_of_no_sign
    (h : ∀ t, (Cursor.skip isBlank c.before c.text).text ≠ '=' :: t) : readValue? c = none := by
  rw [readValue?]
  dsimp only
  split
  · next t ht => exact absurd ht (h t)
  · rfl

theorem valueBehind?_cut {signs signs' start start' : Cursor} (h : Cut m t u)
    (hsigns : Cursor.Cut m signs signs') (hstart : Cursor.Cut m start start') :
    (valueBehind? t signs start = none → valueBehind? u signs' start' = none) ∧
      ∀ value e, valueBehind? t signs start = some (value, e) → '<' :: m <:+ e.text →
        ∃ e', valueBehind? u signs' start' = some (value, e') ∧ Cursor.Cut m e e' := by
  unfold valueBehind?
  rcases hstart.text.cases_head with ⟨hs, hs'⟩ | ⟨q, v, v', hs, hs', hv⟩
  · -- a bare value takes the bracket with it
    rw [hs, hs']
    refine ⟨fun hnone => absurd hnone (by simp), fun value e hread hm => ?_⟩
    dsimp only at hread
    rw [if_neg (by decide)] at hread
    obtain ⟨-, rfl⟩ := Prod.mk.inj (Option.some.inj hread)
    rw [Cursor.skip, if_pos (by decide)] at hm
    exact absurd (Cursor.suffix_skip _ _ m) (Cut.not_suffix hm)
  · rw [hs, hs']
    dsimp only
    by_cases hq : q = '"' ∨ q = '\x27'
    · rw [if_pos hq, if_pos hq]
      cases hquote : Text.upTo? q v with
      | some r =>
        obtain ⟨quoted, after⟩ := r
        refine ⟨fun hnone => absurd hnone (by simp), fun value e hread hm => ?_⟩
        obtain ⟨rfl, rfl⟩ := Prod.mk.inj (Option.some.inj hread)
        obtain ⟨after', hquote', hafter⟩ := upTo?_cut hv hquote hm
        rw [hquote']
        exact ⟨_, rfl, rfl, hafter⟩
      | none =>
        -- a quote that is never closed is not closed when the text is cut off either
        rw [upTo?_cut_eq_none hv hquote]
        dsimp only
        have hsame : start' ≠ signs' ↔ start ≠ signs := (hstart.eq_iff hsigns).symm.not
        by_cases hne : start ≠ signs
        · rw [if_pos hne, if_pos (hsame.2 hne)]
          refine ⟨fun hnone => absurd hnone (by simp), fun value e hread _ => ?_⟩
          obtain ⟨rfl, rfl⟩ := Prod.mk.inj (Option.some.inj hread)
          exact ⟨start', rfl, hstart⟩
        · rw [if_neg hne, if_neg (mt hsame.1 hne), h.head?_eq]
          by_cases hsign : t.head? = some '='
          · rw [if_pos hsign, if_pos hsign]
            refine ⟨fun hnone => absurd hnone (by simp), fun value e hread hm => ?_⟩
            obtain ⟨rfl, rfl⟩ := Prod.mk.inj (Option.some.inj hread)
            obtain ⟨hbare, htake⟩ := skip_cut hsigns.text hm
            rw [htake]
            exact ⟨_, rfl, hbare⟩
          · rw [if_neg hsign, if_neg hsign]
            exact ⟨fun _ => rfl, fun _ _ hread => absurd hread (by simp)⟩
    · rw [if_neg hq, if_neg hq, ← hs, ← hs', hstart.before]
      refine ⟨fun hnone => absurd hnone (by simp), fun value e hread hm => ?_⟩
      obtain ⟨rfl, rfl⟩ := Prod.mk.inj (Option.some.inj hread)
      obtain ⟨hbare, htake⟩ := skip_cut hstart.text hm
      rw [htake]
      exact ⟨_, rfl, hbare⟩

/-- The value of an attribute is read alike, or there is none in both texts. -/
theorem readValue?_cut (h : Cursor.Cut m c d) :
    (readValue? c = none → readValue? d = none) ∧
      ∀ value e, readValue? c = some (value, e) → '<' :: m <:+ e.text →
        ∃ e', readValue? d = some (value, e') ∧ Cursor.Cut m e e' := by
  have hblank := h.skip (p := isBlank) (by decide)
  by_cases hsign : ∃ t, (Cursor.skip isBlank c.before c.text).text = '=' :: t
  · obtain ⟨t, ht⟩ := hsign
    have hcut := hblank.text
    rw [ht] at hcut
    obtain ⟨u, hu, hcut⟩ := hcut.exists_of_cons (by decide)
    have hsigns : Cursor.Cut m (Cursor.skip (· == '=') '=' t) (Cursor.skip (· == '=') '=' u) :=
      Cursor.Cut.skip (c := ⟨'=', t⟩) (d := ⟨'=', u⟩) ⟨rfl, hcut⟩ (by decide)
    rw [readValue?_of_sign ht, readValue?_of_sign hu]
    exact valueBehind?_cut hcut hsigns (hsigns.skip (by decide))
  · rw [not_exists] at hsign
    have hsign' : ∀ u, (Cursor.skip isBlank d.before d.text).text ≠ '=' :: u := by
      intro u hu
      have hhead := hblank.text.head?_eq
      rw [hu] at hhead
      obtain ⟨t, ht⟩ := List.head?_eq_some_iff.1 hhead.symm
      exact hsign t ht
    rw [readValue?_of_no_sign hsign, readValue?_of_no_sign hsign']
    exact ⟨fun _ => rfl, fun _ _ hread => absurd hread (by simp)⟩

/-- The value behind the name of an attribute, empty where there is none. -/
theorem readValue?_getD_cut (h : Cursor.Cut m c d)
    (hm : '<' :: m <:+ ((readValue? c).getD ([], c)).2.text) :
    ((readValue? d).getD ([], d)).1 = ((readValue? c).getD ([], c)).1 ∧
      Cursor.Cut m ((readValue? c).getD ([], c)).2 ((readValue? d).getD ([], d)).2 := by
  obtain ⟨hnone, hsome⟩ := readValue?_cut h
  cases hread : readValue? c with
  | none =>
    rw [hnone hread]
    exact ⟨rfl, h⟩
  | some r =>
    rw [hread] at hm
    obtain ⟨e, he, hcut⟩ := hsome r.1 r.2 hread hm
    rw [he]
    exact ⟨rfl, hcut⟩

/-- An attribute is read alike, or there is none in both texts. -/
theorem readAttribute?_cut (h : Cursor.Cut m c d) :
    (readAttribute? c = none → readAttribute? d = none) ∧
      ∀ value e, readAttribute? c = some (value, e) → '<' :: m <:+ e.text →
        ∃ e', readAttribute? d = some (value, e') ∧ Cursor.Cut m e e' := by
  unfold readAttribute?
  rw [h.before]
  by_cases hbefore : isBlank c.before ∨ c.before = '/' ∨ c.before = '"' ∨ c.before = '\x27'
  · rw [if_pos hbefore, if_pos hbefore]
    rcases h.text.cases_head with ⟨hc, hd⟩ | ⟨x, t, u, hc, hd, hcut⟩
    · -- the name of an attribute takes the bracket with it
      refine ⟨fun hnone => ?_, fun value e hread hm => ?_⟩
      · rw [hc] at hnone
        exact absurd hnone (by simp [show isBlank '<' = false by decide])
      · have hsome : readAttribute? c = some (value, e) := by
          rw [readAttribute?, if_pos hbefore, hread]
        obtain ⟨first, t, ht, hsuffix⟩ := suffix_of_readAttribute? hsome
        obtain ⟨rfl, rfl⟩ := List.cons.inj (hc.symm.trans ht)
        exact absurd hsuffix (Cut.not_suffix hm)
    · rw [hc, hd]
      dsimp only
      by_cases hx : isBlank x ∨ x = '/' ∨ x = '>'
      · rw [if_pos hx, if_pos hx]
        exact ⟨fun _ => rfl, fun _ _ hread => absurd hread (by simp)⟩
      · rw [if_neg hx, if_neg hx]
        refine ⟨fun hnone => absurd hnone (by simp), fun value e hread hm => ?_⟩
        obtain ⟨rfl, rfl⟩ := Prod.mk.inj (Option.some.inj hread)
        have hbehind := hm.trans (Cursor.suffix_skipSeparators _ _)
        have hname : '<' :: m <:+ (Cursor.skip isAttributeNameChar x t).text := by
          refine hbehind.trans ?_
          cases hv : readValue? (Cursor.skip isAttributeNameChar x t) with
          | none => exact List.suffix_refl _
          | some v => exact suffix_of_readValue? hv
        obtain ⟨hvalue, hcut⟩ := readValue?_getD_cut (skip_cut hcut hname).1 hbehind
        rw [hvalue, hcut.before]
        exact ⟨_, rfl, skipSeparators_cut hcut.text⟩
  · rw [if_neg hbefore, if_neg hbefore]
    exact ⟨fun _ => rfl, fun _ _ hread => absurd hread (by simp)⟩

theorem readAttributes_of_some {value : Text} (h : readAttribute? c = some (value, e)) :
    readAttributes c = (value :: (readAttributes e).1, (readAttributes e).2) := by
  rw [readAttributes]
  split
  · next value' e' h' =>
    obtain ⟨rfl, rfl⟩ := Prod.mk.inj (Option.some.inj (h.symm.trans h'))
    rfl
  · next hnone => exact absurd (h.symm.trans hnone) (by simp)

/-- All attributes are read alike. -/
theorem readAttributes_cut (h : Cursor.Cut m c d) (hm : '<' :: m <:+ (readAttributes c).2.text) :
    (readAttributes d).1 = (readAttributes c).1 ∧
      Cursor.Cut m (readAttributes c).2 (readAttributes d).2 := by
  fun_induction readAttributes c generalizing d with
  | case1 c value e hread values behind hbehind ih =>
    rw [hbehind] at ih
    have he : '<' :: m <:+ e.text := by
      have hsuffix := suffix_readAttributes e
      rw [hbehind] at hsuffix
      exact hm.trans hsuffix
    obtain ⟨e', hread', hcut⟩ := (readAttribute?_cut h).2 value e hread he
    obtain ⟨hvalues, hstop⟩ := ih hcut hm
    rw [readAttributes_of_some hread', hvalues]
    exact ⟨rfl, hstop⟩
  | case2 c hread =>
    rw [readAttributes_of_none ((readAttribute?_cut h).1 hread)]
    exact ⟨rfl, h⟩

end Attributes

/-! ## Start tags -/

/-- Where the attributes of a start tag begin: behind its name, and the blanks and slashes that
follow it. -/
def attributesAt (first : Char) (t : Text) : Cursor :=
  Cursor.skip (fun c => isBlank c || c == '/') (Cursor.skip isElementNameChar first t).before
    (Cursor.skip isElementNameChar first t).text

/-- What a start tag is, by the character where its attributes have ended. -/
theorem StartTag.read_eq (first : Char) (t : Text) :
    StartTag.read first t =
      match (readAttributes (attributesAt first t)).2.text with
      | '>' :: rest =>
        .tag (Text.lower (first :: t.takeWhile isElementNameChar))
          ((readAttributes (attributesAt first t)).2 == attributesAt first t &&
            (readAttributes (attributesAt first t)).2.before == '/')
          (readAttributes (attributesAt first t)).1 rest
      | '/' :: '>' :: rest =>
        .tag (Text.lower (first :: t.takeWhile isElementNameChar)) true
          (readAttributes (attributesAt first t)).1 rest
      | [] => .incomplete
      | c :: rest =>
        if c = '/' ∨ c = '=' ∨ c.isAlpha then .incomplete
        else .data (readAttributes (attributesAt first t)).1 (c :: rest) := rfl

/-- What is left behind a start tag. -/
def StartTag.rest? : StartTag → Option Text
  | .tag _ _ _ rest => some rest
  | .data _ rest => some rest
  | .incomplete => none

/-- The start tag with something else left behind it. -/
def StartTag.withRest (rest : Text) : StartTag → StartTag
  | .tag name isSelfClosing values _ => .tag name isSelfClosing values rest
  | .data values _ => .data values rest
  | .incomplete => .incomplete

theorem StartTag.suffix_of_rest? {first : Char} {t rest : Text}
    (h : (StartTag.read first t).rest? = some rest) :
    rest <:+ (readAttributes (attributesAt first t)).2.text := by
  rw [StartTag.read_eq] at h
  split at h
  · next r hr =>
    rw [hr, ← Option.some.inj h]
    exact List.suffix_cons _ _
  · next r hr =>
    rw [hr, ← Option.some.inj h]
    exact List.suffix_append ['/', '>'] _
  · exact absurd h (by simp [StartTag.rest?])
  · next c r _ _ hr =>
    split at h
    · exact absurd h (by simp [StartTag.rest?])
    · rw [hr, ← Option.some.inj h]

/-- A start tag is read alike. -/
theorem StartTag.read_cut {first : Char} {rest : Text} (h : Cut m t u)
    (hrest : (StartTag.read first t).rest? = some rest) (hm : '<' :: m <:+ rest) :
    ∃ rest', StartTag.read first u = (StartTag.read first t).withRest rest' ∧ Cut m rest rest' := by
  have hstop := hm.trans (StartTag.suffix_of_rest? hrest)
  have hblanks : '<' :: m <:+ (attributesAt first t).text := hstop.trans (suffix_readAttributes _)
  have hname : '<' :: m <:+ (Cursor.skip isElementNameChar first t).text :=
    hblanks.trans (Cursor.suffix_skip _ _ _)
  obtain ⟨hcut, htake⟩ := skip_cut h hname
  have hattrs : Cursor.Cut m (attributesAt first t) (attributesAt first u) := by
    rw [attributesAt, attributesAt, hcut.before]
    exact (skip_cut hcut.text hblanks).1
  obtain ⟨hvalues, hend⟩ := readAttributes_cut hattrs hstop
  have hsame : ((readAttributes (attributesAt first u)).2 == attributesAt first u) =
      ((readAttributes (attributesAt first t)).2 == attributesAt first t) := by
    rw [Bool.eq_iff_iff, beq_iff_eq, beq_iff_eq]
    exact (hend.eq_iff hattrs).symm
  rw [StartTag.read_eq] at hrest ⊢
  rw [StartTag.read_eq first t, htake, hvalues, hsame, hend.before]
  rcases hend.text.cases_head with ⟨hc, hd⟩ | ⟨x, v, v', hc, hd, hv⟩
  · rw [hc] at hrest
    rw [hc, hd]
    obtain rfl : '<' :: m = rest := Option.some.inj hrest
    exact ⟨['<'], rfl, [], rfl, rfl⟩
  · rw [hc] at hrest
    rw [hc, hd]
    split at hrest
    · next r hr =>
      obtain ⟨rfl, rfl⟩ := List.cons.inj hr
      obtain rfl := Option.some.inj hrest
      exact ⟨v', rfl, hv⟩
    · next r hr =>
      obtain ⟨rfl, rfl⟩ := List.cons.inj hr
      obtain rfl := Option.some.inj hrest
      obtain ⟨w, rfl, hw⟩ := hv.exists_of_cons (by decide)
      exact ⟨w, rfl, hw⟩
    · exact absurd hrest (by simp [StartTag.rest?])
    · next c r hclose hslash hr =>
      obtain ⟨rfl, rfl⟩ := List.cons.inj hr
      by_cases hopen : x = '/' ∨ x = '=' ∨ x.isAlpha = true
      · rw [if_pos hopen] at hrest
        exact absurd hrest (by simp [StartTag.rest?])
      · rw [if_neg hopen] at hrest
        obtain rfl := Option.some.inj hrest
        refine ⟨x :: v', ?_, hv.cons x⟩
        split
        · next heq => exact absurd (List.cons.inj heq).1 hclose
        · next heq => exact absurd (Or.inl (List.cons.inj heq).1) hopen
        · next heq => exact absurd heq (List.cons_ne_nil _ _)
        · next heq =>
          obtain ⟨rfl, rfl⟩ := List.cons.inj heq
          rw [if_neg hopen, if_neg hopen]
          rfl

end AriaLint.Markup
