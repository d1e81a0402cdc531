import AriaLint.Proofs.Message.Fragment

/-!
# Text that is no markup

A fragment without brackets and ampersands need not be read as markup to get at its visible text: it
is enough to take the blanks out of it (`visibleText_eq`).

That is not because such a fragment were its own text content.  A stretch that is white space alone
shrinks to one character, and two notions of white space meet there: what shrinks is white space of
ASCII, and what is taken out afterwards is blank, which is a notion of Unicode.  A stretch of wide
spaces, or of line tabulations, does not shrink.  But all white space of ASCII is blank, and so is
what it shrinks to, so the blanks aside no stretch is changed (`State.removeBlanks_shrink`).

None of this depends on how far a walk has come.  Wherever text is shown, what comes out is what was
gathered, blanks aside (`State.removeBlanks_flush`).
-/

namespace AriaLint.Markup

/-! ## Stretches of text -/

namespace State

variable (s : State)

theorem isBlank_of_isAsciiBlank {c : Char} (h : isAsciiBlank c = true) : isBlank c = true := by
  have hall : ∀ c ∈ ([' ', '\n', '\t', '\x0C', '\r'] : List Char), isBlank c = true := by
    decide +kernel
  exact hall c (List.contains_iff_mem.1 h)

/-- **What shrinks is blank**, before and after. -/
theorem removeBlanks_shrink (t : Text) : Text.removeBlanks (s.shrink t) = Text.removeBlanks t := by
  unfold shrink
  split
  · next h =>
    have hblank : Text.removeBlanks t = [] := by
      refine List.filter_eq_nil_iff.2 fun c hc => ?_
      rw [isBlank_of_isAsciiBlank (List.all_eq_true.1 (Bool.and_eq_true _ _ ▸ h).2 c hc)]
      decide
    rw [hblank]
    split
    · decide +kernel
    · decide +kernel
  · rfl

variable {s}

/-- Where text is shown, all of it comes out, blanks aside. -/
theorem removeBlanks_flush (h : s.openTags.any hiddenElements.contains = false) :
    Text.removeBlanks s.flush.output = Text.removeBlanks (s.output ++ s.pending) := by
  unfold flush
  by_cases hp : s.pending = []
  · rw [if_pos hp, hp, List.append_nil]
  · rw [if_neg hp, h, if_neg (by decide)]
    dsimp only
    rw [Text.removeBlanks_append, removeBlanks_shrink, Text.removeBlanks_append]

end State

/-! ## Plain fragments -/

section Plain

variable {isLast : Bool} {s : State} {t : Text}

/-- A walk over plain text gathers all of it. -/
theorem walk_of_plain (h : s.rawElement = none) (ht : ∀ c ∈ t, isPlain c = true) :
    walk isLast s t = .ok (s.append t, []) := by
  induction t generalizing s with
  | nil => rw [walk_nil h, append_nil]
  | cons c t ih =>
    obtain ⟨hc, ht⟩ := List.forall_mem_cons.1 ht
    have hsame : (s.append [c]).append t = s.append (c :: t) := by simp [State.append]
    rw [walk_plain h hc, ih (s := s.append [c]) h ht, hsame]

/-- The text content of a plain fragment: the first walk leaves nothing to the second. -/
theorem content_of_plain (ht : ∀ c ∈ t, isPlain c = true) :
    content t = .ok (State.empty.append t).flush.output := by
  have hfirst : walk false .empty t = .ok (State.empty.append t, []) := walk_of_plain rfl ht
  have hsecond : walk true (State.empty.append t) [] = .ok (State.empty.append t, []) := walk_nil rfl
  unfold content
  rw [hfirst]
  show (walk true (State.empty.append t) [] >>= _) = _
  rw [hsecond]
  show Except.ok ((State.empty.append t).append []).flush.output = _
  rw [append_nil]

theorem removeBlanks_content (ht : ∀ c ∈ t, isPlain c = true) :
    (content t).map Text.removeBlanks = .ok (Text.removeBlanks t) := by
  rw [content_of_plain ht, Except.map, State.removeBlanks_flush rfl]
  rfl

/-- A text without brackets and ampersands is plain. -/
theorem isPlain_of_notMem (hopen : '<' ∉ t) (hand : '&' ∉ t) : ∀ c ∈ t, isPlain c = true := by
  intro c hc
  have hne : c ≠ '<' ∧ c ≠ '&' := ⟨fun h => hopen (h ▸ hc), fun h => hand (h ▸ hc)⟩
  simp [isPlain, hne]

/-- Every fragment may be read as markup. -/
theorem visibleText_eq (fragment : Text) :
    visibleText fragment = (content fragment).map Text.removeBlanks := by
  unfold visibleText
  split
  · rfl
  · next h =>
    rw [Bool.or_eq_true, List.contains_iff_mem, List.contains_iff_mem, not_or] at h
    exact (removeBlanks_content (isPlain_of_notMem h.1 h.2)).symm

end Plain

/-- **Plain fragments need not be read as markup**: blanks aside they are their own text content, so
that the visible text of a fragment is its text content without the blanks, whatever the fragment.
No blank is left in it. -/
theorem visibleText_eq_removeBlanks_content :
    (∀ fragment : Text, '<' ∉ fragment → '&' ∉ fragment →
      (content fragment).map Text.removeBlanks = .ok (Text.removeBlanks fragment)) ∧
    (∀ fragment : Text, visibleText fragment = (content fragment).map Text.removeBlanks) ∧
    ∀ fragment text : Text, visibleText fragment = .ok text → ∀ c ∈ text, isBlank c = false := by
  refine ⟨fun fragment hopen hand => ?_, visibleText_eq, fun fragment text h c hc => ?_⟩
  · exact removeBlanks_content (isPlain_of_notMem hopen hand)
  · rw [visibleText_eq] at h
    obtain ⟨whole, -, rfl⟩ := eq_ok_of_map_eq_ok h
    exact Text.not_isBlank_of_mem_removeBlanks hc

/-- A line tabulation and wide spaces, alone and in markup. -/
theorem visibleText_wide_spaces :
    let plain : Text := "\x0b\u3000 A\u2028\n"
    let marked : Text := "<b>\u3000A </b>&amp;<i> \n</i>\u00a0"
    ('<' ∉ plain ∧ '&' ∉ plain ∧ (content plain).map Text.removeBlanks = .ok "A") ∧
    visibleText marked = .ok "A&" ∧ ∀ c ∈ ("A&" : Text), isBlank c = false := by
  intro plain marked
  have hopen : '<' ∉ plain := by decide +kernel
  have hand : '&' ∉ plain := by decide +kernel
  have hmarked : visibleText marked = .ok "A&" := by decide +kernel
  refine ⟨⟨hopen, hand, ?_⟩, hmarked, visibleText_eq_removeBlanks_content.2.2 marked _ hmarked⟩
  rw [visibleText_eq_removeBlanks_content.1 plain hopen hand]
  decide +kernel

end AriaLint.Markup
