import AriaLint.Proofs.Closing.Grammar
import AriaLint.Proofs.Markup.Cut

/-!
# What is read in front of a bracket

A walk that comes to a bracket has read the same, whatever follows the bracket
(`state_eq_of_reaches`).  The constructs of markup and the references to characters are read alike in
a text that is cut off behind the bracket, hence so are the steps of a walk (`step?_cut`), and two
walks over texts with a common beginning both give rise to a walk over that beginning and the bracket
alone.  There they have come to the same place.  A single bracket starts nothing (`step?_bracket`),
so neither of them can be ahead of the other.

The ends of comments, of marked sections and of raw content are alike in that they end with a closing
bracket and look at nothing behind it (`EndsMarked`).  In raw content a closing tag is looked for, and
then read once more as a construct; for this the two readings have to end at the same bracket.
-/

namespace AriaLint.Markup

/-! ## Marks that end a construct -/

/-- What is read ends with a closing bracket, and nothing behind that is looked at. -/
def EndsMarked (read : Text → Option Text) : Prop :=
  ∀ t rest, read t = some rest →
    ∃ k, t = k ++ '>' :: rest ∧ ∀ rest', read (k ++ '>' :: rest') = some rest'

theorem readMark?_eq_some_iff {mark : Char} (hmark : isBlank mark = false) {t rest : Text} :
    readMark? mark t = some rest ↔ ∃ b, t = b ++ mark :: rest ∧ Text.IsBlankText b := by
  unfold readMark?
  constructor
  · intro h
    split at h
    · next c r hr =>
      split at h
      · next hc =>
        obtain rfl := hc
        obtain rfl := Option.some.inj h
        obtain ⟨b, ht, hb, -⟩ := Text.trimLeft_eq_cons_iff.1 hr
        exact ⟨b, ht, hb⟩
      · exact absurd h (by simp)
    · exact absurd h (by simp)
  · rintro ⟨b, rfl, hb⟩
    rw [Text.trimLeft_append_cons hb hmark]
    exact if_pos rfl

theorem endsMarked_readMark? : EndsMarked (readMark? '>') := by
  intro t rest h
  obtain ⟨b, rfl, hb⟩ := (readMark?_eq_some_iff (by decide)).1 h
  exact ⟨b, rfl, fun rest' => (readMark?_eq_some_iff (by decide)).2 ⟨b, rfl, hb⟩⟩

theorem endsMarked_readCommentEnd? : EndsMarked readCommentEnd? := by
  intro t rest h
  unfold readCommentEnd? at h
  split at h
  · next u =>
    obtain ⟨k, rfl, hlocal⟩ := endsMarked_readMark? u rest h
    exact ⟨'-' :: '-' :: k, rfl, hlocal⟩
  · exact absurd h (by simp)

theorem endsMarked_readConditionEnd? : EndsMarked readConditionEnd? := by
  intro t rest h
  unfold readConditionEnd? at h
  split at h
  · next u =>
    obtain ⟨k, rfl, hlocal⟩ := endsMarked_readMark? u rest h
    exact ⟨']' :: k, rfl, hlocal⟩
  · exact absurd h (by simp)

theorem endsMarked_readSectionEnd? : EndsMarked readSectionEnd? := by
  intro t rest h
  unfold readSectionEnd? at h
  split at h
  · next u =>
    obtain ⟨v, hv, hmark⟩ := Option.bind_eq_some_iff.1 h
    obtain ⟨b, rfl, hb⟩ := (readMark?_eq_some_iff (by decide)).1 hv
    obtain ⟨k, rfl, hlocal⟩ := endsMarked_readMark? v rest hmark
    refine ⟨']' :: (b ++ ']' :: k), by simp, fun rest' => ?_⟩
    have hbracket : readMark? ']' (b ++ ']' :: (k ++ '>' :: rest')) = some (k ++ '>' :: rest') :=
      (readMark?_eq_some_iff (by decide)).2 ⟨b, rfl, hb⟩
    show (readMark? ']' ((b ++ ']' :: k) ++ '>' :: rest')).bind (readMark? '>') = some rest'
    rw [List.append_assoc, List.cons_append, hbracket]
    exact hlocal rest'
  · exact absurd h (by simp)

theorem endsMarked_readRawClose? (name : Text) : EndsMarked (readRawClose? name) := by
  intro t rest h
  unfold readRawClose? at h
  split at h
  · next u =>
    rw [Option.bind_eq_bind] at h
    obtain ⟨⟨word, v⟩, hword, hmark⟩ := Option.bind_eq_some_iff.1 h
    obtain ⟨hlike, hv⟩ := Text.readWord?_eq_some_iff.1 hword
    obtain ⟨k, rfl, hlocal⟩ := endsMarked_readMark? v rest hmark
    -- the name may be empty, but what is trimmed is not
    obtain ⟨c, z, hz⟩ : ∃ c z, word ++ (k ++ ['>']) = c :: z :=
      List.exists_cons_of_ne_nil (by simp)
    have hz' : ∀ r, word ++ (k ++ '>' :: r) = c :: (z ++ r) := by
      intro r
      rw [← List.cons_append, ← hz]
      simp
    rw [hz'] at hv
    obtain ⟨b, rfl, hb, hc⟩ := Text.trimLeft_eq_cons_iff.1 hv
    have hsplit : ∀ r, ('<' :: '/' :: (b ++ word ++ k)) ++ '>' :: r =
        '<' :: '/' :: (b ++ c :: (z ++ r)) := by
      intro r
      rw [← hz']
      simp
    refine ⟨'<' :: '/' :: (b ++ word ++ k), (hsplit rest).symm, fun rest' => ?_⟩
    rw [hsplit]
    show (Text.readWord? sameLetter name (Text.trimLeft (b ++ c :: (z ++ rest'))) >>= fun r =>
      readMark? '>' r.2) = _
    rw [Text.trimLeft_append_cons hb hc, ← hz', Text.readWord?_eq_some_iff.2 ⟨hlike, rfl⟩]
    exact hlocal rest'
  · exact absurd h (by simp)

section Marks

variable {read : Text → Option Text} (hends : EndsMarked read) {m t u : Text}
include hends

/-- A mark is read alike, or there is none in both texts. -/
theorem EndsMarked.cut (h : Cut m t u) :
    (read t = none → read u = none) ∧
      ∀ rest, read t = some rest → '<' :: m <:+ rest →
        ∃ rest', read u = some rest' ∧ Cut m rest rest' := by
  refine ⟨fun hnone => ?_, fun rest hread hm => ?_⟩
  · cases hread : read u with
    | none => rfl
    | some rest =>
      -- the mark ends in front of the bracket, so it stands in both texts
      obtain ⟨k, hk, hlocal⟩ := hends u rest hread
      obtain ⟨a, rfl, rfl⟩ := h
      rcases List.eq_nil_or_concat rest with rfl | ⟨r, c, rfl⟩
      · exact absurd (List.append_inj' hk rfl).2 (by decide)
      · rw [List.concat_eq_append, ← List.cons_append, ← List.append_assoc] at hk
        obtain ⟨rfl, -⟩ := List.append_inj' hk rfl
        rw [List.append_assoc, List.cons_append, hlocal] at hnone
        exact absurd hnone (by simp)
  · obtain ⟨k, rfl, hlocal⟩ := hends t rest hread
    rw [← List.singleton_append, ← List.append_assoc] at h
    obtain ⟨rest', rfl, hcut⟩ := h.exists_rest hm
    refine ⟨rest', ?_, hcut⟩
    rw [List.append_assoc, List.singleton_append]
    exact hlocal rest'

theorem EndsMarked.suffix {rest : Text} (hread : read t = some rest) : rest <:+ t := by
  obtain ⟨k, rfl, -⟩ := hends t rest hread
  exact (List.suffix_cons _ rest).trans (List.suffix_append k _)

/-- What stands in front of the first mark. -/
theorem splitAt?_cut {before after : Text} (h : Cut m t u)
    (hsplit : splitAt? read t = some (before, after)) (hm : '<' :: m <:+ after) :
    ∃ after', splitAt? read u = some (before, after') ∧ Cut m after after' := by
  obtain ⟨a, rfl, rfl⟩ := h
  induction a generalizing before with
  | nil =>
    -- a mark behind the bracket leaves less than what follows the bracket
    rw [List.nil_append, splitAt?] at hsplit
    split at hsplit
    · next rest hread =>
      obtain ⟨-, rfl⟩ := Prod.mk.inj (Option.some.inj hsplit)
      obtain ⟨k, hk, -⟩ := hends _ _ hread
      refine absurd ?_ (Cut.not_suffix hm)
      cases k with
      | nil => exact absurd (List.cons.inj hk).1 (by decide)
      | cons c k =>
        rw [(List.cons.inj hk).2]
        exact (List.suffix_cons _ _).trans (List.suffix_append k _)
    · obtain ⟨⟨b, r⟩, hb, heq⟩ := Option.map_eq_some_iff.1 hsplit
      obtain ⟨-, rfl⟩ := Prod.mk.inj heq
      exact absurd (suffix_of_splitAt? (fun hread => EndsMarked.suffix hends hread) hb)
        (Cut.not_suffix hm)
  | cons c a ih =>
    have hcut : Cut m (c :: (a ++ '<' :: m)) (c :: (a ++ ['<'])) := ⟨c :: a, rfl, rfl⟩
    obtain ⟨hnone, hsome⟩ := EndsMarked.cut hends hcut
    rw [List.cons_append, splitAt?] at hsplit
    rw [List.cons_append, splitAt?]
    split at hsplit
    · next rest hread =>
      obtain ⟨rfl, rfl⟩ := Prod.mk.inj (Option.some.inj hsplit)
      obtain ⟨rest', hread', hrest⟩ := hsome _ hread hm
      rw [hread']
      exact ⟨rest', rfl, hrest⟩
    · next hread =>
      obtain ⟨⟨b, r⟩, hb, heq⟩ := Option.map_eq_some_iff.1 hsplit
      obtain ⟨rfl, rfl⟩ := Prod.mk.inj heq
      obtain ⟨after', hafter, hrest⟩ := ih hb
      rw [hnone hread, hafter]
      exact ⟨after', rfl, hrest⟩

end Marks

/-! ## Constructs -/

section Constructs

variable {s s' : State} {m t u rest : Text}

theorem takeWhile_cut {p : Char → Bool} (h : Cut m t u) (hp : p '<' = false) :
    u.takeWhile p = t.takeWhile p :=
  (skip_cut (b := '<') h (suffix_skip_of_cut h hp)).2

/-- The bracket stays when a text is cut off, and it is no blank. -/
theorem trimLeft_dropWhile_cut {p : Char → Bool} (h : Cut m t u) (hp : p '<' = false) :
    Text.trimLeft (u.dropWhile p) ≠ [] := by
  obtain ⟨a, -, rfl⟩ := h
  have hmem : '<' ∈ (a ++ ['<']).takeWhile p ++ (a ++ ['<']).dropWhile p := by
    rw [List.takeWhile_append_dropWhile]
    simp
  rcases List.mem_append.1 hmem with htake | hdrop
  · rw [List.mem_takeWhile_imp htake] at hp
    exact absurd hp (by decide)
  · exact List.ne_nil_of_mem (Text.mem_trimLeft hdrop (by decide))

/-- What a marked section does, given what stands in front of its end and behind it. -/
def sectionStep (s : State) (keyword : Text) :
    Option (Option (Text × Text)) → Except MarkupError Step
  | none => .error .unknownSection
  | some none => .ok .incomplete
  | some (some (content, rest)) =>
    if keyword = "cdata" ∧ (content.drop 5).head? = some '[' then
      .ok (.next (s.addCharacterData (content.drop 6)) rest)
    else .ok (.next s.flush rest)

theorem markedSection_eq (s : State) (t : Text) :
    markedSection s t =
      if t = [] then .ok .incomplete
      else if !t.head?.any Char.isAlpha then .error .unknownSection
      else if Text.trimLeft (t.dropWhile isKeywordChar) = [] then .ok .incomplete
      else
        sectionStep s (Text.lower (t.takeWhile isKeywordChar))
          (if sectionKeywords.contains (Text.lower (t.takeWhile isKeywordChar)) then
            some (splitAt? readSectionEnd? t)
          else if conditionKeywords.contains (Text.lower (t.takeWhile isKeywordChar)) then
            some (splitAt? readConditionEnd? t)
          else none) := rfl

theorem sectionStep_cut {keyword : Text} {read : Text → Option Text} (hends : EndsMarked read)
    (h : Cut m t u) (hstep : sectionStep s keyword (some (splitAt? read t)) = .ok (.next s' rest))
    (hm : '<' :: m <:+ rest) :
    ∃ rest', sectionStep s keyword (some (splitAt? read u)) = .ok (.next s' rest') ∧
      Cut m rest rest' := by
  cases hsplit : splitAt? read t with
  | none =>
    rw [hsplit] at hstep
    exact absurd hstep (by simp [sectionStep])
  | some r =>
    obtain ⟨content, after⟩ := r
    rw [hsplit, sectionStep] at hstep
    have hafter : after = rest := by
      split at hstep
      · exact (Step.next.inj (Except.ok.inj hstep)).2
      · exact (Step.next.inj (Except.ok.inj hstep)).2
    subst hafter
    obtain ⟨rest', hsplit', hcut⟩ := splitAt?_cut hends h hsplit hm
    rw [hsplit', sectionStep]
    refine ⟨rest', ?_, hcut⟩
    split at hstep
    · next hdata => rw [if_pos hdata, (Step.next.inj (Except.ok.inj hstep)).1]
    · next hdata => rw [if_neg hdata, (Step.next.inj (Except.ok.inj hstep)).1]

theorem markedSection_cut (h : Cut m t u) (hread : markedSection s t = .ok (.next s' rest))
    (hm : '<' :: m <:+ rest) :
    ∃ rest', markedSection s u = .ok (.next s' rest') ∧ Cut m rest rest' := by
  have htake := takeWhile_cut (p := isKeywordChar) h (by decide)
  have hnil := trimLeft_dropWhile_cut (p := isKeywordChar) h (by decide)
  have hu : u ≠ [] := by
    rintro rfl
    exact hnil rfl
  rw [markedSection_eq] at hread ⊢
  rw [if_neg hu, h.head?_eq, if_neg hnil, htake]
  split at hread
  · exact absurd hread (by simp)
  · split at hread
    · exact absurd hread (by simp)
    · next hhead =>
      rw [if_neg hhead]
      split at hread
      · exact absurd hread (by simp)
      · split at hread
        · next hsection =>
          rw [if_pos hsection]
          exact sectionStep_cut endsMarked_readSectionEnd? h hread hm
        · next hsection =>
          rw [if_neg hsection]
          split at hread
          · next hcondition =>
            rw [if_pos hcondition]
            exact sectionStep_cut endsMarked_readConditionEnd? h hread hm
          · exact absurd hread (by simp [sectionStep])

theorem declaration_cut (h : Cut m t u) (hread : declaration s t = .next s' rest)
    (hm : '<' :: m <:+ rest) :
    ∃ rest', declaration s u = .next s' rest' ∧ Cut m rest rest' := by
  unfold declaration at hread ⊢
  split at hread
  · next before after hafter =>
    obtain ⟨rfl, rfl⟩ := Step.next.inj hread
    obtain ⟨rest', hrest', hcut⟩ := upTo?_cut h hafter hm
    rw [hrest']
    exact ⟨rest', rfl, hcut⟩
  · exact absurd hread (by simp)

/-- A declaration that is neither a comment nor a marked section. -/
theorem construct_declaration (hcomment : ∀ v, t ≠ '-' :: '-' :: v) (hsection : ∀ v, t ≠ '[' :: v) :
    construct s ('!' :: t) = .ok (declaration s t) := by
  rw [construct]
  · exact hcomment
  · exact hsection

/-- What stands behind a bracket, when it is no sign of a closing tag, a declaration or an
instruction. -/
theorem construct_other {c : Char} (hslash : c ≠ '/') (hbang : c ≠ '!') (hquestion : c ≠ '?') :
    construct s (c :: t) =
      if c.isAlpha then
        match StartTag.read c t with
        | .tag name isSelfClosing values rest =>
          (values.forM checkNumbers).map fun _ => .next (s.openTag name isSelfClosing) rest
        | .data values rest =>
          (values.forM checkNumbers).map fun _ =>
            .next (s.append (('<' :: c :: t).take (('<' :: c :: t).length - rest.length))) rest
        | .incomplete => .ok .incomplete
      else .ok (.next (s.append ['<']) (c :: t)) := by
  unfold construct
  split
  · next heq => exact absurd (List.cons.inj heq).1 hslash
  · next heq => exact absurd (List.cons.inj heq).1 hbang
  · next heq => exact absurd (List.cons.inj heq).1 hbang
  · next heq => exact absurd (List.cons.inj heq).1 hbang
  · next heq => exact absurd (List.cons.inj heq).1 hquestion
  · next heq =>
    obtain ⟨rfl, rfl⟩ := List.cons.inj heq
    rfl
  · next heq => exact absurd heq (by simp)

/-- A comment, a marked section or a declaration. -/
theorem construct_bang_cut (h : Cut m t u)
    (hread : construct s ('!' :: t) = .ok (.next s' rest)) (hm : '<' :: m <:+ rest) :
    ∃ rest', construct s ('!' :: u) = .ok (.next s' rest') ∧ Cut m rest rest' := by
  by_cases hcomment : ∃ v, t = '-' :: '-' :: v
  · obtain ⟨v, rfl⟩ := hcomment
    obtain ⟨w, rfl, hdash⟩ := h.exists_of_cons (by decide)
    obtain ⟨w, rfl, hcut⟩ := hdash.exists_of_cons (by decide)
    rw [construct] at hread ⊢
    split at hread
    · next before after hafter =>
      obtain ⟨rfl, rfl⟩ := Step.next.inj (Except.ok.inj hread)
      obtain ⟨rest', hrest', hrest⟩ := splitAt?_cut endsMarked_readCommentEnd? hcut hafter hm
      rw [hrest']
      exact ⟨rest', rfl, hrest⟩
    · exact absurd hread (by simp)
  · by_cases hsection : ∃ v, t = '[' :: v
    · obtain ⟨v, rfl⟩ := hsection
      obtain ⟨w, rfl, hcut⟩ := h.exists_of_cons (by decide)
      rw [construct] at hread ⊢
      exact markedSection_cut hcut hread hm
    · have hcomment' : ∀ w, u ≠ '-' :: '-' :: w := by
        rintro w rfl
        obtain ⟨v, rfl, hdash⟩ := h.exists_of_cons_right (by decide)
        obtain ⟨v, rfl, -⟩ := hdash.exists_of_cons_right (by decide)
        exact hcomment ⟨v, rfl⟩
      have hsection' : ∀ w, u ≠ '[' :: w := by
        rintro w rfl
        obtain ⟨v, rfl, -⟩ := h.exists_of_cons_right (by decide)
        exact hsection ⟨v, rfl⟩
      rw [construct_declaration (not_exists.1 hcomment) (not_exists.1 hsection)] at hread
      rw [construct_declaration hcomment' hsection']
      obtain ⟨rest', hread', hrest⟩ := declaration_cut h (Except.ok.inj hread) hm
      exact ⟨rest', congrArg Except.ok hread', hrest⟩

/-- A start tag, or what only looks like one. -/
theorem construct_letter_cut {c : Char} (hc : c.isAlpha = true) (h : Cut m t u)
    (hread : construct s (c :: t) = .ok (.next s' rest)) (hm : '<' :: m <:+ rest) :
    ∃ rest', construct s (c :: u) = .ok (.next s' rest') ∧ Cut m rest rest' := by
  have hne : c ≠ '/' ∧ c ≠ '!' ∧ c ≠ '?' := by
    refine ⟨?_, ?_, ?_⟩ <;> rintro rfl <;> exact absurd hc (by decide)
  rw [construct_other hne.1 hne.2.1 hne.2.2, if_pos hc] at hread ⊢
  have hrest : (StartTag.read c t).rest? = some rest := by
    split at hread
    · next hstart =>
      obtain ⟨_, -, hnext⟩ := eq_ok_of_map_eq_ok hread
      rw [hstart, StartTag.rest?, (Step.next.inj hnext).2]
    · next hstart =>
      obtain ⟨_, -, hnext⟩ := eq_ok_of_map_eq_ok hread
      rw [hstart, StartTag.rest?, (Step.next.inj hnext).2]
    · exact absurd hread (by simp)
  obtain ⟨rest', hread', hcut⟩ := StartTag.read_cut h hrest hm
  rw [hread']
  refine ⟨rest', ?_, hcut⟩
  split at hread
  · next name closing values after hstart =>
    obtain ⟨_, hvalues, hnext⟩ := eq_ok_of_map_eq_ok hread
    rw [hstart, ← (Step.next.inj hnext).1]
    show (values.forM checkNumbers).map _ = _
    rw [hvalues]
    rfl
  · next values after hstart =>
    obtain ⟨_, hvalues, hnext⟩ := eq_ok_of_map_eq_ok hread
    obtain ⟨rfl, rfl⟩ := Step.next.inj hnext
    rw [hstart]
    show (values.forM checkNumbers).map _ = _
    have hsuffix := StartTag.suffix_of_read hstart (.inr ⟨values, rfl⟩)
    have hwhole : Cut m ('<' :: c :: t) ('<' :: c :: u) := (h.cons c).cons '<'
    rw [hvalues, ← hwhole.consumed_eq hcut (hsuffix.trans (List.suffix_append ['<', c] t))]
    rfl
  · exact absurd hread (by simp)

/-- **A construct is read alike** in a text that is cut off behind it. -/
theorem construct_cut (h : Cut m t u) (hread : construct s t = .ok (.next s' rest))
    (hm : '<' :: m <:+ rest) :
    ∃ rest', construct s u = .ok (.next s' rest') ∧ Cut m rest rest' := by
  rcases h.cases_head with ⟨rfl, rfl⟩ | ⟨c, v, w, rfl, rfl, hcut⟩
  · obtain ⟨rfl, rfl⟩ := Step.next.inj (Except.ok.inj hread)
    exact ⟨['<'], rfl, [], rfl, rfl⟩
  · by_cases hslash : c = '/'
    · subst hslash
      rw [construct] at hread ⊢
      split at hread
      · next inner after hafter =>
        obtain ⟨rfl, rfl⟩ := Step.next.inj (Except.ok.inj hread)
        obtain ⟨rest', hrest', hrest⟩ := upTo?_cut hcut hafter hm
        rw [hrest']
        exact ⟨rest', rfl, hrest⟩
      · exact absurd hread (by simp)
    · by_cases hbang : c = '!'
      · subst hbang
        exact construct_bang_cut hcut hread hm
      · by_cases hquestion : c = '?'
        · subst hquestion
          obtain ⟨rest', hread', hrest⟩ := declaration_cut hcut (Except.ok.inj hread) hm
          exact ⟨rest', congrArg Except.ok hread', hrest⟩
        · by_cases halpha : c.isAlpha = true
          · exact construct_letter_cut halpha hcut hread hm
          · rw [construct_other hslash hbang hquestion, if_neg halpha] at hread ⊢
            obtain ⟨rfl, rfl⟩ := Step.next.inj (Except.ok.inj hread)
            exact ⟨c :: w, rfl, hcut.cons c⟩

end Constructs

/-! ## References -/

section References

variable {s s' : State} {m t u rest : Text}

theorem dropWhile_cut {p : Char → Bool} (h : Cut m t u) (hp : p '<' = false) :
    Cut m (t.dropWhile p) (u.dropWhile p) := by
  obtain ⟨a, rfl, rfl⟩ := h
  induction a with
  | nil =>
    rw [List.nil_append, List.nil_append, List.dropWhile_cons_of_neg (by simp [hp]),
      List.dropWhile_cons_of_neg (by simp [hp])]
    exact ⟨[], rfl, rfl⟩
  | cons c a ih =>
    rw [List.cons_append, List.cons_append, List.dropWhile_cons, List.dropWhile_cons]
    split
    · exact ih
    · exact ⟨c :: a, rfl, rfl⟩

theorem afterReference_cut (h : Cut m t u) : Cut m (afterReference t) (afterReference u) := by
  rcases h.cases_head with ⟨rfl, rfl⟩ | ⟨c, v, w, rfl, rfl, hcut⟩
  · exact ⟨[], rfl, rfl⟩
  · by_cases hc : c = ';'
    · subst hc
      exact hcut
    · have hkeep : ∀ v, afterReference (c :: v) = c :: v := by
        intro v
        unfold afterReference
        split
        · next heq => exact absurd (List.cons.inj heq).1 hc
        · rfl
      rw [hkeep, hkeep]
      exact hcut.cons c

theorem readNumber?_cut {base : Nat} {isDigit : Char → Bool} {n : Numeral} (h : Cut m t u)
    (hdigit : isDigit '<' = false) (hread : readNumber? base isDigit t = some (n, rest)) :
    ∃ rest', readNumber? base isDigit u = some (n, rest') ∧ Cut m rest rest' := by
  have hcut := dropWhile_cut h hdigit
  obtain ⟨c, v, w, hv, hw⟩ := hcut.exists_cons
  rw [hv, hw] at hcut
  simp only [readNumber?] at hread ⊢
  rw [hv] at hread
  rw [hw, takeWhile_cut h hdigit]
  dsimp only at hread ⊢
  split at hread
  · exact absurd hread (by simp)
  · next hnone =>
    obtain ⟨rfl, rfl⟩ := Prod.mk.inj (Option.some.inj hread)
    rw [if_neg hnone]
    exact ⟨c :: w, rfl, hcut⟩

theorem readNumeric?_cut {n : Numeral} (h : Cut m t u)
    (hread : readNumeric? t = some (n, rest)) :
    ∃ rest', readNumeric? u = some (n, rest') ∧ Cut m rest rest' := by
  obtain ⟨⟨n', r⟩, hn, heq⟩ := Option.map_eq_some_iff.1 hread
  obtain ⟨rfl, rfl⟩ := Prod.mk.inj heq
  suffices hnumber : ∃ r', readNumeric? u = some (n', afterReference r') ∧ Cut m r r' by
    obtain ⟨r', hr', hcut⟩ := hnumber
    exact ⟨_, hr', afterReference_cut hcut⟩
  split at hn
  · obtain ⟨w, rfl, hcut⟩ := h.exists_of_cons (by decide)
    obtain ⟨r', hr', hrest⟩ := readNumber?_cut hcut (by decide) hn
    exact ⟨r', Option.map_eq_some_iff.2 ⟨(n', r'), hr', rfl⟩, hrest⟩
  · obtain ⟨w, rfl, hcut⟩ := h.exists_of_cons (by decide)
    obtain ⟨r', hr', hrest⟩ := readNumber?_cut hcut (by decide) hn
    exact ⟨r', Option.map_eq_some_iff.2 ⟨(n', r'), hr', rfl⟩, hrest⟩
  · next hlower hupper =>
    obtain ⟨r', hr', hrest⟩ := readNumber?_cut h (by decide) hn
    refine ⟨r', Option.map_eq_some_iff.2 ⟨(n', r'), ?_, rfl⟩, hrest⟩
    split
    · obtain ⟨v, rfl, -⟩ := h.exists_of_cons_right (by decide)
      exact absurd rfl (hlower v)
    · obtain ⟨v, rfl, -⟩ := h.exists_of_cons_right (by decide)
      exact absurd rfl (hupper v)
    · exact hr'

theorem readName?_cut {name : Text} (h : Cut m t u) (hread : readName? t = some (name, rest)) :
    ∃ rest', readName? u = some (name, rest') ∧ Cut m rest rest' := by
  have hcut := dropWhile_cut (p := isReferenceChar) h (by decide)
  obtain ⟨c, v, w, hv, hw⟩ := hcut.exists_cons
  rw [hv, hw] at hcut
  simp only [readName?] at hread ⊢
  rw [hv] at hread
  rw [hw, h.head?_eq, takeWhile_cut h (by decide)]
  split at hread
  · next hhead =>
    obtain ⟨rfl, rfl⟩ := Prod.mk.inj (Option.some.inj hread)
    rw [if_pos hhead]
    exact ⟨c :: w, rfl, hcut⟩
  · exact absurd hread (by simp)

theorem readNamed?_cut {read : Text} (h : Cut m t u) (hread : readNamed? t = some (read, rest)) :
    ∃ rest', readNamed? u = some (read, rest') ∧ Cut m rest rest' := by
  obtain ⟨⟨name, r⟩, hname, heq⟩ := Option.map_eq_some_iff.1 hread
  obtain ⟨rfl, rfl⟩ := Prod.mk.inj heq
  obtain ⟨r', hr', hcut⟩ := readName?_cut h hname
  exact ⟨afterReference r', Option.map_eq_some_iff.2 ⟨(name, r'), hr', rfl⟩,
    afterReference_cut hcut⟩

/-- Where no name is read, no letter stands. -/
theorem readNamed?_cut_eq_none (h : Cut m t u) (hread : readNamed? t = none) :
    readNamed? u = none := by
  obtain ⟨c, v, w, hv, -⟩ := (dropWhile_cut (p := isReferenceChar) h (by decide)).exists_cons
  have hhead : ¬ t.head?.any Char.isAlpha = true := by
    intro hhead
    rw [readNamed?, Option.map_eq_none_iff, readName?, if_pos hhead] at hread
    simp only [hv] at hread
    exact absurd hread (by simp)
  rw [readNamed?, readName?, h.head?_eq, if_neg hhead]
  rfl

theorem reference_of_ne {c : Char} {v : Text} (hc : c ≠ '#') :
    reference false s (c :: v) =
      match readNamed? (c :: v) with
      | some (read, rest) => .ok (.next (s.append read) rest)
      | none =>
        if c.isAlpha then .ok (.halt s ('&' :: c :: v))
        else .ok (.next (s.append ['&']) (c :: v)) := by
  rw [reference]
  · rfl
  · exact hc

/-- A reference is read alike. -/
theorem reference_cut (h : Cut m t u) (hread : reference false s t = .ok (.next s' rest)) :
    ∃ rest', reference false s u = .ok (.next s' rest') ∧ Cut m rest rest' := by
  obtain ⟨c, v, w, rfl, rfl⟩ := h.exists_cons
  by_cases hc : c = '#'
  · subst hc
    obtain ⟨w', heq, hcut⟩ := h.exists_of_cons (by decide)
    obtain rfl := (List.cons.inj heq).2
    rw [reference] at hread ⊢
    split at hread
    · next n r hn =>
      obtain ⟨d, hd, hnext⟩ := eq_ok_of_map_eq_ok hread
      obtain ⟨rfl, rfl⟩ := Step.next.inj hnext
      obtain ⟨r', hr', hrest⟩ := readNumeric?_cut hcut hn
      rw [hr']
      show ∃ rest', n.character.map _ = _ ∧ _
      rw [hd]
      exact ⟨r', rfl, hrest⟩
    · split at hread <;> exact absurd hread (by simp)
  · rw [reference_of_ne hc] at hread ⊢
    split at hread
    · next read r hr =>
      obtain ⟨rfl, rfl⟩ := Step.next.inj (Except.ok.inj hread)
      obtain ⟨r', hr', hrest⟩ := readNamed?_cut h hr
      rw [hr']
      exact ⟨r', rfl, hrest⟩
    · next hnone =>
      rw [readNamed?_cut_eq_none h hnone]
      dsimp only
      split at hread
      · exact absurd hread (by simp)
      · next halpha =>
        obtain ⟨rfl, rfl⟩ := Step.next.inj (Except.ok.inj hread)
        rw [if_neg halpha]
        exact ⟨c :: w, rfl, h⟩

end References

/-! ## The walk -/

/-- The closing tag of raw content ends at its first bracket. -/
theorem exists_upTo?_of_readRawClose? {name v rest : Text} (hname : name ∈ rawElements)
    (h : readRawClose? name ('<' :: '/' :: v) = some rest) :
    ∃ inner, Text.upTo? '>' v = some (inner, rest) := by
  obtain ⟨⟨word, r⟩, hword, hmark⟩ := Option.bind_eq_some_iff.1 h
  obtain ⟨hlike, hr⟩ := Text.readWord?_eq_some_iff.1 hword
  obtain ⟨b, rfl, hb⟩ := (readMark?_eq_some_iff (by decide)).1 hmark
  have hplain : ∀ name ∈ rawElements, ∀ c ∈ name, sameLetter c '>' = false := by decide
  have hclose : '>' ∉ word := Closing.not_mem_of_forall₂ (hplain name hname) hlike
  have hblank : '>' ∉ b := Closing.not_mem_of_isBlankText hb (by decide)
  have hhead : '>' ∉ v.takeWhile isBlank :=
    Closing.not_mem_of_isBlankText (fun _ => List.mem_takeWhile_imp) (by decide)
  have hv : v = (v.takeWhile isBlank ++ (word ++ b)) ++ '>' :: rest := by
    rw [List.append_assoc, List.append_assoc, ← hr]
    exact (List.takeWhile_append_dropWhile (p := isBlank) (l := v)).symm
  refine ⟨v.takeWhile isBlank ++ (word ++ b), ?_⟩
  conv_lhs => rw [hv]
  exact Text.upTo?_append_cons (by simp [hclose, hblank, hhead]) rest

section Walk

open StateTransition (Reaches)

variable {s s' : State} {m t u rest : Text}

/-- A step is taken alike. -/
theorem step?_cut (h : Cut m t u) (hstep : step? (s, t) = some (s', rest))
    (hm : '<' :: m <:+ rest) :
    ∃ rest', step? (s, u) = some (s', rest') ∧ Cut m rest rest' := by
  rcases step?_eq_some_iff.1 hstep with ⟨name, hname, before, v, after, hraw, rfl, hsplit, hc⟩ |
    ⟨hraw, v, rfl, hc⟩ | ⟨hraw, v, rfl, hc⟩ | ⟨hraw, c, hplain, rfl, rfl⟩
  · -- the closing tag is read as a construct once it has been found
    obtain ⟨y, hy, hclose⟩ := eq_append_of_splitAt? hsplit
    obtain rfl := List.append_cancel_left hy
    obtain ⟨v, heq⟩ := exists_cons_of_readRawClose? hclose
    obtain rfl := (List.cons.inj heq).2
    obtain ⟨inner, hinner⟩ := exists_upTo?_of_readRawClose? hname hclose
    have hafter : after = rest := by
      rw [construct, hinner] at hc
      exact (Step.next.inj (Except.ok.inj hc)).2
    subst hafter
    obtain ⟨after', hsplit', hcut⟩ := splitAt?_cut (endsMarked_readRawClose? name) h hsplit hm
    have hwhole : before ++ '<' :: '/' :: v = (before ++ ['<', '/']) ++ v := by simp
    rw [hwhole] at h
    obtain ⟨w, rfl, hw⟩ := h.exists_rest (hm.trans (suffix_of_upTo? hinner))
    obtain ⟨rest', hread, hrest⟩ := construct_cut (hw.cons '/') hc hm
    refine ⟨rest', step?_eq_some_iff.2 (.inl ⟨name, hname, before, '/' :: w, after', hraw, ?_,
      hsplit', hread⟩), hrest⟩
    simp
  · rcases h.cases_head with ⟨heq, rfl⟩ | ⟨c, t', w, heq, rfl, hcut⟩
    · -- a construct behind the bracket leaves less than what follows it
      obtain rfl := (List.cons.inj heq).2
      exact absurd (suffix_of_construct hc) (Cut.not_suffix hm)
    · obtain ⟨rfl, rfl⟩ := List.cons.inj heq
      obtain ⟨rest', hread, hrest⟩ := construct_cut hcut hc hm
      exact ⟨rest', step?_eq_some_iff.2 (.inr (.inl ⟨hraw, w, rfl, hread⟩)), hrest⟩
  · obtain ⟨w, rfl, hcut⟩ := h.exists_of_cons (by decide)
    obtain ⟨rest', hread, hrest⟩ := reference_cut hcut hc
    exact ⟨rest', step?_eq_some_iff.2 (.inr (.inr (.inl ⟨hraw, w, rfl, hread⟩))), hrest⟩
  · have hne : c ≠ '<' := by
      rintro rfl
      exact absurd hplain (by decide)
    obtain ⟨w, rfl, hcut⟩ := h.exists_of_cons hne
    exact ⟨w, step?_eq_some_iff.2 (.inr (.inr (.inr ⟨hraw, c, hplain, rfl, rfl⟩))), hcut⟩

/-- A walk that comes to the bracket comes to it alike. -/
theorem reaches_cut {c d : State × Text} (h : Reaches step? c d) (hm : '<' :: m <:+ d.2)
    (hcut : Cut m c.2 u) : ∃ rest, Reaches step? (c.1, u) (d.1, rest) ∧ Cut m d.2 rest := by
  induction h with
  | refl => exact ⟨u, .refl, hcut⟩
  | tail _ hstep ih =>
    obtain ⟨rest, hreaches, hrest⟩ := ih (hm.trans (suffix_of_step? hstep))
    obtain ⟨rest', hstep', hrest'⟩ := step?_cut hrest hstep hm
    exact ⟨rest', hreaches.tail hstep', hrest'⟩

/-- The walk halts at a bracket that nothing follows. -/
theorem step?_bracket : step? (s, ['<']) = none := by
  cases hstep : step? (s, ['<']) with
  | none => rfl
  | some d =>
    obtain ⟨s', rest⟩ := d
    rcases step?_eq_some_iff.1 hstep with ⟨name, -, before, v, after, -, ht, hsplit, -⟩ |
      ⟨-, v, ht, hc⟩ | ⟨-, v, ht, -⟩ | ⟨-, c, hplain, ht, -⟩
    · obtain ⟨y, hy, hclose⟩ := eq_append_of_splitAt? hsplit
      obtain ⟨v, rfl⟩ := exists_cons_of_readRawClose? hclose
      have hlen := congrArg List.length hy
      simp only [List.length_append, List.length_cons, List.length_nil] at hlen
      omega
    · obtain rfl := (List.cons.inj ht).2
      exact absurd hc (by simp [construct])
    · exact absurd (List.cons.inj ht).1 (by decide)
    · obtain rfl := (List.cons.inj ht).1
      exact absurd hplain (by decide)

/-- **What a walk has read in front of a bracket** does not depend on what follows the bracket. -/
theorem state_eq_of_reaches {a m m' : Text} {s₁ s₂ : State}
    (h₁ : Reaches step? (s, a ++ '<' :: m) (s₁, '<' :: m))
    (h₂ : Reaches step? (s, a ++ '<' :: m') (s₂, '<' :: m')) : s₁ = s₂ := by
  have hend : ∀ {m rest : Text}, Cut m ('<' :: m) rest → rest = ['<'] := by
    intro m rest h
    exact (h.eq_iff ⟨[], rfl, rfl⟩).1 rfl
  obtain ⟨r₁, hreach₁, hr₁⟩ := reaches_cut h₁ (List.suffix_refl _) ⟨a, rfl, rfl⟩
  obtain ⟨r₂, hreach₂, hr₂⟩ := reaches_cut h₂ (List.suffix_refl _) ⟨a, rfl, rfl⟩
  rw [hend hr₁] at hreach₁
  rw [hend hr₂] at hreach₂
  -- both walks have come to the end of the text that was cut off
  have hsame := reaches_of_length_le hreach₁ hreach₂ (Nat.le_refl _)
  rcases hsame.cases_head with heq | ⟨d, hstep, -⟩
  · exact (Prod.mk.inj heq).1
  · rw [Option.mem_def, step?_bracket] at hstep
    exact absurd hstep (by simp)

end Walk

end AriaLint.Markup
