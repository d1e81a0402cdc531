import AriaLint.Markup.Content
import Mathlib.Data.List.Infix
import Mathlib.Data.List.TakeWhile

/-!
# Markup that is refused

Not every fragment of markup has a text content.  There are two reasons, and the error names them:
a marked section opens with a keyword that is not known, or a reference gives its number in too many
digits.  Whether the walk gets there depends on all that stands before, since a comment or a script
may swallow what looks like a section.  What does not depend on it is that the reason stands in the
fragment (`hasCause_of_visibleText`).  So a fragment without such a section and such a number has a
text content.

The other direction holds where nothing can swallow the section: a fragment that opens with plain
text and goes on with an unknown section is refused, whatever follows (`visibleText_plain_section`).

The walk only ever looks at ends of the fragment, and the values of attributes are stretches of one,
so the reason is found where the walk halts and carried back to the whole fragment.
-/

namespace AriaLint.Markup

/-! ## Reasons -/

/-- A marked section, behind its opening bracket, with a keyword that is complete and not known, or
with none. -/
def IsUnknownSection (t : Text) : Prop :=
  t ≠ [] ∧ (t.head?.any Char.isAlpha = true →
    Text.trimLeft (t.dropWhile isKeywordChar) ≠ [] ∧
      Text.lower (t.takeWhile isKeywordChar) ∉ sectionKeywords ++ conditionKeywords)

instance (t : Text) : Decidable (IsUnknownSection t) :=
  inferInstanceAs (Decidable (_ ∧ (_ → _ ∧ _)))

/-- A reference to a character by `n` decimal digits, more than are read. -/
def HasLongNumber (n : Nat) (t : Text) : Prop :=
  ∃ digits : Text, '&' :: '#' :: digits <:+: t ∧ (∀ c ∈ digits, c.isDigit = true) ∧
    digits.length = n ∧ digitLimit < n

/-- What an error complains of stands in the text. -/
def MarkupError.HasCause (t : Text) : MarkupError → Prop
  | .unknownSection => ∃ u, '<' :: '!' :: '[' :: u <:+ t ∧ IsUnknownSection u
  | .numberTooLong n => HasLongNumber n t

theorem HasLongNumber.mono {n : Nat} {t u : Text} (h : HasLongNumber n t) (hu : t <:+: u) :
    HasLongNumber n u := by
  obtain ⟨digits, hin, hdigits, hlength, hlong⟩ := h
  exact ⟨digits, hin.trans hu, hdigits, hlength, hlong⟩

theorem MarkupError.HasCause.mono {e : MarkupError} {t u : Text} (h : e.HasCause t)
    (hu : t <:+ u) : e.HasCause u := by
  cases e with
  | unknownSection =>
    obtain ⟨v, hv, hunknown⟩ := h
    exact ⟨v, hv.trans hu, hunknown⟩
  | numberTooLong n => exact HasLongNumber.mono h hu.isInfix

/-- Digits behind the mark of a reference. -/
theorem hasLongNumber_of_takeWhile {t : Text}
    (h : digitLimit < (t.takeWhile Char.isDigit).length) :
    HasLongNumber (t.takeWhile Char.isDigit).length ('&' :: '#' :: t) := by
  refine ⟨t.takeWhile Char.isDigit, ?_, fun c hc => ?_, rfl, h⟩
  · have hprefix : t.takeWhile Char.isDigit <+: t := List.takeWhile_prefix _
    exact (List.prefix_append_right_inj ['&', '#']).2 hprefix |>.isInfix
  · exact List.mem_takeWhile_imp hc

/-! ## References -/

theorem character_eq_error {n : Numeral} {e : MarkupError} (h : n.character = .error e) :
    e = .numberTooLong n.digits.length ∧ n.base = 10 ∧ digitLimit < n.digits.length := by
  unfold Numeral.character at h
  split at h
  · next hlong => exact ⟨(Except.error.inj h).symm, hlong⟩
  · exact absurd h (by simp)

theorem hasCause_of_checkNumbers {t : Text} {e : MarkupError} (h : checkNumbers t = .error e) :
    ∃ n, e = .numberTooLong n ∧ HasLongNumber n t := by
  fun_induction checkNumbers t with
  | case1 => exact absurd h (by simp)
  | case2 t e' he =>
    obtain rfl := Except.error.inj h
    obtain ⟨rfl, -, hlong⟩ := character_eq_error he
    exact ⟨_, rfl, hasLongNumber_of_takeWhile hlong⟩
  | case3 t c hc ih =>
    obtain ⟨n, he, hn⟩ := ih h
    exact ⟨n, he, hn.mono (List.suffix_append ['&', '#'] t).isInfix⟩
  | case4 c t hne ih =>
    obtain ⟨n, he, hn⟩ := ih h
    exact ⟨n, he, hn.mono (List.suffix_cons c t).isInfix⟩

/-- Only decimal numbers are limited, and their digits stand at the head of the text. -/
theorem digits_of_readNumeric? {t rest : Text} {n : Numeral}
    (h : readNumeric? t = some (n, rest)) (hbase : n.base = 10) :
    n.digits = t.takeWhile Char.isDigit := by
  have hread : ∀ {base : Nat} {isDigit : Char → Bool} {t rest : Text} {n : Numeral},
      readNumber? base isDigit t = some (n, rest) →
        n.base = base ∧ n.digits = t.takeWhile isDigit := by
    intro base isDigit t rest n h
    simp only [readNumber?] at h
    split at h
    · exact absurd h (by simp)
    · split at h
      · exact absurd h (by simp)
      · obtain ⟨rfl, -⟩ := Prod.mk.inj (Option.some.inj h)
        exact ⟨rfl, rfl⟩
  obtain ⟨⟨m, r⟩, hm, heq⟩ := Option.map_eq_some_iff.1 h
  obtain ⟨rfl, -⟩ := Prod.mk.inj heq
  split at hm
  · exact absurd (hbase.symm.trans (hread hm).1) (by decide)
  · exact absurd (hbase.symm.trans (hread hm).1) (by decide)
  · exact (hread hm).2

theorem hasCause_of_reference {isLast : Bool} {s : State} {t : Text} {e : MarkupError}
    (h : reference isLast s t = .error e) : e.HasCause ('&' :: t) := by
  unfold reference at h
  split at h
  · next u =>
    split at h
    · next n rest hn =>
      cases hc : n.character with
      | ok c =>
        rw [hc] at h
        exact absurd h (by simp [Except.map])
      | error e' =>
        rw [hc] at h
        obtain rfl := Except.error.inj h
        obtain ⟨rfl, hbase, hlong⟩ := character_eq_error hc
        rw [digits_of_readNumeric? hn hbase] at hlong ⊢
        exact hasLongNumber_of_takeWhile hlong
    · exact absurd h (by simp)
  · split at h
    · exact absurd h (by simp)
    · split at h <;> exact absurd h (by simp)
  · exact absurd h (by simp)

/-! ## Values of attributes -/

/-- An equals sign that is read as part of a value is no part of a number. -/
theorem hasLongNumber_of_sign {n : Nat} {t : Text} (h : HasLongNumber n ('=' :: t)) :
    HasLongNumber n t := by
  obtain ⟨digits, hin, hdigits, hlength, hlong⟩ := h
  rcases List.infix_cons_iff.1 hin with hprefix | hin
  · exact absurd (List.cons_prefix_cons.1 hprefix).1 (by decide)
  · exact ⟨digits, hin, hdigits, hlength, hlong⟩

theorem not_hasLongNumber_nil (n : Nat) : ¬ HasLongNumber n [] := by
  rintro ⟨digits, hin, -⟩
  exact absurd (List.infix_nil.1 hin) (by simp)

theorem hasLongNumber_of_readValue? {c d : Cursor} {value : Text} {n : Nat}
    (h : readValue? c = some (value, d)) (hn : HasLongNumber n value) :
    HasLongNumber n c.text := by
  have hc := Cursor.suffix_skip isBlank c.before c.text
  simp only [readValue?] at h
  split at h
  · next t ht =>
    rw [ht] at hc
    have hsigns : (Cursor.skip (· == '=') '=' t).text <:+ c.text :=
      (Cursor.suffix_skip _ _ t).trans ((List.suffix_cons _ t).trans hc)
    have hstart := (Cursor.suffix_skip isBlank (Cursor.skip (· == '=') '=' t).before
      (Cursor.skip (· == '=') '=' t).text).trans hsigns
    split at h
    · next q rest hq =>
      split at h
      · split at h
        · next v after hv =>
          obtain ⟨rfl, -⟩ := Prod.mk.inj (Option.some.inj h)
          have hrest : v <:+: rest := by
            rw [(Text.upTo?_eq_some hv).1]
            exact (List.prefix_append v _).isInfix
          rw [hq] at hstart
          exact hn.mono (hrest.trans ((List.suffix_cons q rest).trans hstart).isInfix)
        · split at h
          · obtain ⟨rfl, -⟩ := Prod.mk.inj (Option.some.inj h)
            exact absurd hn (not_hasLongNumber_nil n)
          · split at h
            · obtain ⟨rfl, -⟩ := Prod.mk.inj (Option.some.inj h)
              refine (hasLongNumber_of_sign hn).mono ?_
              exact (List.takeWhile_prefix _).isInfix.trans hsigns.isInfix
            · exact absurd h (by simp)
      · obtain ⟨rfl, -⟩ := Prod.mk.inj (Option.some.inj h)
        exact hn.mono ((List.takeWhile_prefix _).isInfix.trans hstart.isInfix)
    · obtain ⟨rfl, -⟩ := Prod.mk.inj (Option.some.inj h)
      exact absurd hn (not_hasLongNumber_nil n)
  · exact absurd h (by simp)

theorem hasLongNumber_of_readAttribute? {c d : Cursor} {value : Text} {n : Nat}
    (h : readAttribute? c = some (value, d)) (hn : HasLongNumber n value) :
    HasLongNumber n c.text := by
  unfold readAttribute? at h
  split at h
  · split at h
    · next first t ht =>
      split at h
      · exact absurd h (by simp)
      · obtain ⟨rfl, -⟩ := Prod.mk.inj (Option.some.inj h)
        rw [ht]
        refine HasLongNumber.mono ?_ (List.suffix_cons first t).isInfix
        cases hv : readValue? (Cursor.skip isAttributeNameChar first t) with
        | none =>
          rw [hv] at hn
          exact absurd hn (not_hasLongNumber_nil n)
        | some v =>
          rw [hv] at hn
          exact (hasLongNumber_of_readValue? hv hn).mono (Cursor.suffix_skip _ _ _).isInfix
    · exact absurd h (by simp)
  · exact absurd h (by simp)

theorem hasLongNumber_of_readAttributes {c : Cursor} {n : Nat} {value : Text}
    (hmem : value ∈ (readAttributes c).1) (hn : HasLongNumber n value) :
    HasLongNumber n c.text := by
  fun_induction readAttributes c with
  | case1 c v d h values behind hd ih =>
    rcases List.mem_cons.1 hmem with rfl | hmem
    · exact hasLongNumber_of_readAttribute? h hn
    · rw [hd] at ih
      obtain ⟨first, t, ht, htext⟩ := suffix_of_readAttribute? h
      rw [ht]
      exact (ih hmem).mono (htext.trans (List.suffix_cons first t)).isInfix
  | case2 c h => exact absurd hmem (by simp)

/-- The values that a start tag keeps. -/
def StartTag.values : StartTag → List Text
  | .tag _ _ values _ => values
  | .data values _ => values
  | .incomplete => []

theorem hasLongNumber_of_read {first : Char} {t value : Text} {n : Nat}
    (hmem : value ∈ (StartTag.read first t).values) (hn : HasLongNumber n value) :
    HasLongNumber n t := by
  have hname := Cursor.suffix_skip isElementNameChar first t
  have hblanks := Cursor.suffix_skip (fun c => isBlank c || c == '/')
    (Cursor.skip isElementNameChar first t).before (Cursor.skip isElementNameChar first t).text
  have hread : value ∈ (readAttributes (Cursor.skip (fun c => isBlank c || c == '/')
      (Cursor.skip isElementNameChar first t).before
      (Cursor.skip isElementNameChar first t).text)).1 := by
    simp only [StartTag.read] at hmem
    split at hmem
    · exact hmem
    · exact hmem
    · exact absurd hmem (by simp [StartTag.values])
    · split at hmem
      · exact absurd hmem (by simp [StartTag.values])
      · exact hmem
  exact (hasLongNumber_of_readAttributes hread hn).mono (hblanks.trans hname).isInfix

theorem exists_of_forM_eq_error {α ε : Type} {check : α → Except ε Unit} {as : List α} {e : ε}
    (h : as.forM check = .error e) : ∃ a ∈ as, check a = .error e := by
  induction as with
  | nil => exact absurd h (by simp [pure, Except.pure])
  | cons a as ih =>
    have hstep : (check a >>= fun _ => as.forM check) = .error e := h
    cases hc : check a with
    | error e' =>
      rw [hc] at hstep
      obtain rfl := Except.error.inj hstep
      exact ⟨a, List.mem_cons_self, hc⟩
    | ok u =>
      rw [hc] at hstep
      obtain ⟨b, hb, he⟩ := ih hstep
      exact ⟨b, List.mem_cons_of_mem a hb, he⟩

/-- The numbers in a start tag. -/
theorem hasCause_of_values {first : Char} {t : Text} {s : StartTag} {e : MarkupError}
    (hread : StartTag.read first t = s) (h : s.values.forM checkNumbers = .error e) :
    e.HasCause t := by
  rw [← hread] at h
  obtain ⟨value, hmem, hvalue⟩ := exists_of_forM_eq_error h
  obtain ⟨n, rfl, hn⟩ := hasCause_of_checkNumbers hvalue
  exact hasLongNumber_of_read hmem hn

/-! ## Sections and other constructs -/

/-- **Exactly the unknown sections are refused.** -/
theorem markedSection_eq_error_iff {s : State} {t : Text} {e : MarkupError} :
    markedSection s t = .error e ↔ e = .unknownSection ∧ IsUnknownSection t := by
  constructor
  · intro h
    unfold markedSection at h
    split at h
    · exact absurd h (by simp)
    · next hempty =>
      split at h
      · next hhead =>
        obtain rfl := Except.error.inj h
        refine ⟨rfl, hempty, fun halpha => ?_⟩
        rw [halpha] at hhead
        exact absurd hhead (by decide)
      · split at h
        · exact absurd h (by simp)
        · next hkeyword =>
          dsimp only at h
          split at h
          · next hsplit =>
            obtain rfl := Except.error.inj h
            refine ⟨rfl, hempty, fun _ => ⟨hkeyword, ?_⟩⟩
            split at hsplit
            · exact absurd hsplit (by simp)
            · next hsection =>
              split at hsplit
              · exact absurd hsplit (by simp)
              · next hcondition =>
                rw [List.contains_iff_mem] at hsection hcondition
                rw [List.mem_append, not_or]
                exact ⟨hsection, hcondition⟩
          · exact absurd h (by simp)
          · split at h <;> exact absurd h (by simp)
  · rintro ⟨rfl, hempty, hunknown⟩
    unfold markedSection
    rw [if_neg hempty]
    by_cases halpha : t.head?.any Char.isAlpha = true
    · obtain ⟨hkeyword, hno⟩ := hunknown halpha
      rw [List.mem_append, not_or] at hno
      rw [if_neg (by rw [halpha]; decide), if_neg hkeyword]
      dsimp only
      rw [if_neg (by rw [List.contains_iff_mem]; exact hno.1),
        if_neg (by rw [List.contains_iff_mem]; exact hno.2)]
    · rw [if_pos (by rw [Bool.not_eq_true] at halpha; rw [halpha]; rfl)]

theorem hasCause_of_construct {s : State} {t : Text} {e : MarkupError}
    (h : construct s t = .error e) : e.HasCause ('<' :: t) := by
  have error_of_map : ∀ {x : Except MarkupError PUnit} {f : PUnit → Step},
      x.map f = .error e → x = .error e := by
    intro x f hx
    cases x with
    | error e' => exact congrArg Except.error (Except.error.inj hx)
    | ok u => exact absurd hx (by simp [Except.map])
  unfold construct at h
  split at h
  · split at h <;> exact absurd h (by simp)
  · split at h <;> exact absurd h (by simp)
  · next u =>
    obtain ⟨rfl, hunknown⟩ := markedSection_eq_error_iff.1 h
    exact ⟨u, List.suffix_refl _, hunknown⟩
  · exact absurd h (by simp)
  · exact absurd h (by simp)
  · next c u _ _ _ _ _ =>
    have htail : u <:+ '<' :: c :: u := List.suffix_append ['<', c] u
    split at h
    · split at h
      · next name closing values rest hread =>
        refine MarkupError.HasCause.mono ?_ htail
        have hvalues : values.forM checkNumbers = .error e := error_of_map h
        exact hasCause_of_values hread hvalues
      · next values rest hread =>
        refine MarkupError.HasCause.mono ?_ htail
        have hvalues : values.forM checkNumbers = .error e := error_of_map h
        exact hasCause_of_values hread hvalues
      · exact absurd h (by simp)
    · exact absurd h (by simp)
  · exact absurd h (by simp)

/-! ## Places where the walk looks or halts -/

/-- What is found stands in the text, behind what comes before it. -/
theorem eq_append_of_splitAt? {read : Text → Option Text} {t before after : Text}
    (h : splitAt? read t = some (before, after)) :
    ∃ u, t = before ++ u ∧ read u = some after := by
  induction t generalizing before with
  | nil => exact absurd h (by simp [splitAt?])
  | cons c t ih =>
    unfold splitAt? at h
    split at h
    · next rest hr =>
      obtain ⟨rfl, rfl⟩ := Prod.mk.inj (Option.some.inj h)
      exact ⟨c :: t, rfl, hr⟩
    · obtain ⟨⟨b, a⟩, hb, heq⟩ := Option.map_eq_some_iff.1 h
      obtain ⟨rfl, rfl⟩ := Prod.mk.inj heq
      obtain ⟨u, rfl, hu⟩ := ih hb
      exact ⟨u, rfl, hu⟩

/-- Only brackets and ampersands begin a construct, and raw content ends at a bracket. -/
theorem eq_of_plainRun {s : State} {t before u : Text} {c : Char}
    (h : plainRun s t = some (before, c :: u)) : c = '<' ∨ c = '&' := by
  unfold plainRun at h
  split at h
  · next name hname =>
    obtain ⟨⟨b, a⟩, hb, heq⟩ := Option.map_eq_some_iff.1 h
    obtain ⟨rfl, hdrop⟩ := Prod.mk.inj heq
    obtain ⟨v, rfl, hv⟩ := eq_append_of_splitAt? hb
    rw [List.drop_left] at hdrop
    subst hdrop
    unfold readRawClose? at hv
    split at hv
    · next heq => exact Or.inl (List.cons.inj heq).1
    · exact absurd hv (by simp)
  · obtain ⟨-, hdrop⟩ := Prod.mk.inj (Option.some.inj h)
    have hhead := List.head?_dropWhile_not isPlain t
    rw [hdrop] at hhead
    have hnot : isPlain c = false := hhead
    simpa [isPlain, Decidable.or_iff_not_imp_left] using hnot

/-- Sections do not halt the walk. -/
theorem markedSection_ne_halt {s s' : State} {t rest : Text} :
    markedSection s t ≠ .ok (.halt s' rest) := by
  intro h
  simp only [markedSection] at h
  repeat' split at h
  all_goals exact absurd h (by simp)

/-- A bracket halts the walk at the end of the text. -/
theorem suffix_of_construct_halt {s s' : State} {t rest : Text}
    (h : construct s t = .ok (.halt s' rest)) : rest <:+ '<' :: t := by
  unfold construct at h
  split at h
  · split at h <;> exact absurd h (by simp)
  · split at h <;> exact absurd h (by simp)
  · exact absurd h markedSection_ne_halt
  · unfold declaration at h
    split at h <;> exact absurd h (by simp)
  · unfold declaration at h
    split at h <;> exact absurd h (by simp)
  · split at h
    · split at h
      · obtain ⟨_, _, h⟩ := eq_ok_of_map_eq_ok h
        exact absurd h (by simp)
      · obtain ⟨_, _, h⟩ := eq_ok_of_map_eq_ok h
        exact absurd h (by simp)
      · exact absurd h (by simp)
    · exact absurd h (by simp)
  · obtain ⟨-, rfl⟩ := Step.halt.inj (Except.ok.inj h)
    exact List.suffix_refl _

/-- A reference that may go on halts the walk in front of it or within it. -/
theorem suffix_of_reference_halt {isLast : Bool} {s s' : State} {t rest : Text}
    (h : reference isLast s t = .ok (.halt s' rest)) : rest <:+ '&' :: t := by
  unfold reference at h
  split at h
  · next u =>
    split at h
    · obtain ⟨_, _, h⟩ := eq_ok_of_map_eq_ok h
      exact absurd h (by simp)
    · split at h
      · obtain ⟨-, rfl⟩ := Step.halt.inj (Except.ok.inj h)
        exact List.suffix_append ['&', '#'] _
      · obtain ⟨-, rfl⟩ := Step.halt.inj (Except.ok.inj h)
        exact List.suffix_refl _
  · split at h
    · exact absurd h (by simp)
    · split at h
      · split at h
        · obtain ⟨-, rfl⟩ := Step.halt.inj (Except.ok.inj h)
          exact List.suffix_cons '&' _
        · obtain ⟨-, rfl⟩ := Step.halt.inj (Except.ok.inj h)
          exact List.suffix_refl _
      · exact absurd h (by simp)
  · obtain ⟨-, rfl⟩ := Step.halt.inj (Except.ok.inj h)
    exact List.suffix_refl _

/-! ## The walk -/

/-- A walk that is refused has come to the reason. -/
theorem hasCause_of_walk {isLast : Bool} {s : State} {t : Text} {e : MarkupError}
    (h : walk isLast s t = .error e) : e.HasCause t := by
  fun_induction walk isLast s t with
  | case1 s t hrun => exact absurd h (by simp)
  | case2 s t before hrun => exact absurd h (by simp)
  | case3 s t before u s' e' hc hrun =>
    obtain rfl := Except.error.inj h
    exact (hasCause_of_construct hc).mono (suffix_of_plainRun hrun)
  | case4 s t before u s' s'' rest hc hrun ih =>
    refine (ih h).mono ((suffix_of_construct hc).trans ?_)
    exact (List.suffix_cons '<' u).trans (suffix_of_plainRun hrun)
  | case5 s t before u s' s'' rest hc hrun => exact absurd h (by simp)
  | case6 s t before u s' hc hlast hrun ih =>
    refine (ih h).mono ((suffix_recover u).trans ?_)
    exact (List.suffix_cons '<' u).trans (suffix_of_plainRun hrun)
  | case7 s t before u s' hc hlast hrun => exact absurd h (by simp)
  | case8 s t before c u hrun s' hne e' hc =>
    obtain rfl := Except.error.inj h
    obtain rfl := (eq_of_plainRun hrun).resolve_left hne
    exact (hasCause_of_reference hc).mono (suffix_of_plainRun hrun)
  | case9 s t before c u hrun s' hne s'' rest hc ih =>
    refine (ih h).mono ((suffix_of_reference hc).trans ?_)
    exact (List.suffix_cons c u).trans (suffix_of_plainRun hrun)
  | case10 s t before c u hrun s' hne s'' rest hc => exact absurd h (by simp)
  | case11 s t before c u hrun s' hne hc => exact absurd h (by simp)

/-- A walk leaves an end of the text. -/
theorem suffix_of_walk {isLast : Bool} {s s' : State} {t rest : Text}
    (h : walk isLast s t = .ok (s', rest)) : rest <:+ t := by
  fun_induction walk isLast s t with
  | case1 s t hrun =>
    obtain ⟨-, rfl⟩ := Prod.mk.inj (Except.ok.inj h)
    exact List.suffix_refl t
  | case2 s t before hrun =>
    obtain ⟨-, rfl⟩ := Prod.mk.inj (Except.ok.inj h)
    exact List.nil_suffix
  | case3 s t before u s' e' hc hrun => exact absurd h (by simp)
  | case4 s t before u s' s'' rest' hc hrun ih =>
    refine (ih h).trans ((suffix_of_construct hc).trans ?_)
    exact (List.suffix_cons '<' u).trans (suffix_of_plainRun hrun)
  | case5 s t before u s' s'' rest' hc hrun =>
    obtain ⟨-, rfl⟩ := Prod.mk.inj (Except.ok.inj h)
    exact (suffix_of_construct_halt hc).trans (suffix_of_plainRun hrun)
  | case6 s t before u s' hc hlast hrun ih =>
    refine (ih h).trans ((suffix_recover u).trans ?_)
    exact (List.suffix_cons '<' u).trans (suffix_of_plainRun hrun)
  | case7 s t before u s' hc hlast hrun =>
    obtain ⟨-, rfl⟩ := Prod.mk.inj (Except.ok.inj h)
    exact suffix_of_plainRun hrun
  | case8 s t before c u hrun s' hne e' hc => exact absurd h (by simp)
  | case9 s t before c u hrun s' hne s'' rest' hc ih =>
    refine (ih h).trans ((suffix_of_reference hc).trans ?_)
    exact (List.suffix_cons c u).trans (suffix_of_plainRun hrun)
  | case10 s t before c u hrun s' hne s'' rest' hc =>
    obtain ⟨-, rfl⟩ := Prod.mk.inj (Except.ok.inj h)
    obtain rfl := (eq_of_plainRun hrun).resolve_left hne
    exact (suffix_of_reference_halt hc).trans (suffix_of_plainRun hrun)
  | case11 s t before c u hrun s' hne hc =>
    obtain ⟨-, rfl⟩ := Prod.mk.inj (Except.ok.inj h)
    exact suffix_of_plainRun hrun

theorem hasCause_of_content {fragment : Text} {e : MarkupError}
    (h : content fragment = .error e) : e.HasCause fragment := by
  unfold content at h
  cases hfirst : walk false .empty fragment with
  | error e' =>
    rw [hfirst] at h
    obtain rfl := Except.error.inj h
    exact hasCause_of_walk hfirst
  | ok r =>
    obtain ⟨s, rest⟩ := r
    cases hsecond : walk true s rest with
    | error e' =>
      rw [hfirst] at h
      have hstep : (walk true s rest >>= fun r => pure
          (if r.1.rawElement.isNone then r.1.append r.2 else r.1).flush.output) = .error e := h
      rw [hsecond] at hstep
      obtain rfl := Except.error.inj hstep
      exact (hasCause_of_walk hsecond).mono (suffix_of_walk hfirst)
    | ok r =>
      rw [hfirst] at h
      have hstep : (walk true s rest >>= fun r => pure
          (if r.1.rawElement.isNone then r.1.append r.2 else r.1).flush.output) = .error e := h
      rw [hsecond] at hstep
      exact absurd hstep (by simp [bind, Except.bind, pure, Except.pure])

/-- **A fragment that has no text content holds the reason.** -/
theorem hasCause_of_visibleText {fragment : Text} {e : MarkupError}
    (h : visibleText fragment = .error e) : e.HasCause fragment := by
  unfold visibleText at h
  split at h
  · cases hcontent : content fragment with
    | error e' =>
      rw [hcontent] at h
      obtain rfl := Except.error.inj h
      exact hasCause_of_content hcontent
    | ok t =>
      rw [hcontent] at h
      exact absurd h (by simp [Except.map])
  · exact absurd h (by simp)

/-- **An unknown section behind plain text is refused**, whatever follows. -/
theorem visibleText_plain_section {before t : Text} (hplain : ∀ c ∈ before, isPlain c = true)
    (ht : IsUnknownSection t) :
    visibleText (before ++ '<' :: '!' :: '[' :: t) = .error .unknownSection := by
  have hrun : plainRun .empty (before ++ '<' :: '!' :: '[' :: t) =
      some (before, '<' :: '!' :: '[' :: t) := by
    show some ((before ++ '<' :: '!' :: '[' :: t).takeWhile isPlain,
      (before ++ '<' :: '!' :: '[' :: t).dropWhile isPlain) = _
    rw [List.takeWhile_append_of_pos hplain, List.dropWhile_append_of_pos hplain]
    simp [isPlain]
  have hconstruct : construct (State.empty.append before) ('!' :: '[' :: t) =
      .error .unknownSection := markedSection_eq_error_iff.2 ⟨rfl, ht⟩
  have hwalk : walk false .empty (before ++ '<' :: '!' :: '[' :: t) =
      .error .unknownSection := by
    unfold walk
    split
    · next h => exact absurd (hrun.symm.trans h) (by simp)
    · next h => exact absurd (hrun.symm.trans h) (by simp)
    · next b c u h =>
      obtain ⟨rfl, htail⟩ := Prod.mk.inj (Option.some.inj (hrun.symm.trans h))
      obtain ⟨rfl, rfl⟩ := List.cons.inj htail
      dsimp only
      rw [if_pos rfl]
      split
      · next e he =>
        exact congrArg Except.error (Except.error.inj (he.symm.trans hconstruct))
      · next hnext => exact absurd (hconstruct.symm.trans hnext) (by simp)
      · next hhalt => exact absurd (hconstruct.symm.trans hhalt) (by simp)
      · next hmore => exact absurd (hconstruct.symm.trans hmore) (by simp)
  have hcontent : content (before ++ '<' :: '!' :: '[' :: t) = .error .unknownSection := by
    unfold content
    rw [hwalk]
    rfl
  unfold visibleText
  rw [if_pos (by simp), hcontent]
  rfl

end AriaLint.Markup
