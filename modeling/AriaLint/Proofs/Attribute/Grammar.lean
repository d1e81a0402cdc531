import AriaLint.Attribute
import AriaLint.Proofs.Text.Reader
import AriaLint.Proofs.Text.Words

/-!
# What an attribute looks like

The reader of attributes is a chain of small steps.  Here they are put together: an attribute of a
given name is read exactly where a name that is like it stands, an equals sign and a value between
quotes behind it (`readAs?_exactly_iff`), and so it ends with its second quote (`endsAt_exactly`).

That a name holds no quote has to be asked for, since `readWord?` would read a quote in a name as
readily as a letter.  `IsQuoteless` is a check of the characters of the name.
-/

namespace AriaLint
namespace Attribute

/-! ## Quotes -/

/-- The text holds no quote. -/
def IsUnquoted (t : Text) : Prop := ∀ c ∈ t, isQuote c = false

instance (t : Text) : Decidable (IsUnquoted t) := List.decidableBAll _ t

theorem IsUnquoted.countP_eq_zero {t : Text} (h : IsUnquoted t) : t.countP isQuote = 0 :=
  List.countP_eq_zero.2 fun c hc => by simp [h c hc]

/-- A quote is one of two characters. -/
theorem eq_of_isQuote {c : Char} (h : isQuote c = true) : c = '"' ∨ c = '\x27' := by
  rcases Bool.or_eq_true_iff.1 h with h | h
  · exact Or.inl (eq_of_beq h)
  · exact Or.inr (eq_of_beq h)

theorem isBlank_of_isQuote {c : Char} (h : isQuote c = true) : isBlank c = false := by
  rcases eq_of_isQuote h with rfl | rfl
  · decide
  · decide

theorem fold_of_isQuote {c : Char} (h : isQuote c = true) : fold c = c := by
  rcases eq_of_isQuote h with rfl | rfl
  · decide
  · decide

theorem isQuote_of_isBlank {c : Char} (h : isBlank c = true) : isQuote c = false := by
  cases hc : isQuote c with
  | false => rfl
  | true =>
    rw [isBlank_of_isQuote hc] at h
    exact absurd h Bool.false_ne_true

theorem isUnquoted_of_isBlankText {t : Text} (h : Text.IsBlankText t) : IsUnquoted t :=
  fun c hc => isQuote_of_isBlank (h c hc)

/-- No character of the name is like a quote. -/
def IsQuoteless (name : Text) : Prop := ∀ c ∈ name, isQuote (fold c) = false

instance (name : Text) : Decidable (IsQuoteless name) := List.decidableBAll _ name

theorem isUnquoted_of_sameLetter {name n : Text} (hname : IsQuoteless name)
    (h : List.Forall₂ (fun w c => sameLetter w c = true) name n) : IsUnquoted n := by
  induction h with
  | nil => exact fun c hc => absurd hc (by simp)
  | @cons w c name n hwc _ ih =>
    intro d hd
    rcases List.mem_cons.1 hd with rfl | hd
    · cases hq : isQuote d with
      | false => rfl
      | true =>
        have hw : isQuote (fold w) = false := hname w List.mem_cons_self
        rw [show fold w = fold d from eq_of_beq hwc, fold_of_isQuote hq, hq] at hw
        exact hw
    · exact ih (fun e he => hname e (List.mem_cons_of_mem w he)) d hd

/-! ## Values and assignments -/

/-- A value is all that stands before the next quote. -/
theorem readValue?_eq_some_iff {t value rest : Text} :
    readValue? t = some (value, rest) ↔
      ∃ q, t = value ++ q :: rest ∧ isQuote q = true ∧ IsUnquoted value := by
  constructor
  · intro h
    unfold readValue? at h
    split at h
    · next q r hd =>
      obtain ⟨rfl, rfl⟩ := Prod.mk.inj (Option.some.inj h)
      refine ⟨q, ?_, ?_, fun c hc => ?_⟩
      · rw [← hd, List.takeWhile_append_dropWhile]
      · have hhead := List.head?_dropWhile_not (!isQuote ·) t
        rw [hd] at hhead
        simpa using hhead
      · simpa using List.mem_takeWhile_imp hc
    · exact absurd h (by simp)
  · rintro ⟨q, rfl, hq, hvalue⟩
    have hpos : ∀ c ∈ value, (!isQuote c) = true := fun c hc => by simp [hvalue c hc]
    have hdrop : (value ++ q :: rest).dropWhile (!isQuote ·) = q :: rest := by
      rw [List.dropWhile_append_of_pos hpos, List.dropWhile_cons_of_neg (by simp [hq])]
    have htake : (value ++ q :: rest).takeWhile (!isQuote ·) = value := by
      rw [List.takeWhile_append_of_pos hpos, List.takeWhile_cons_of_neg (by simp [hq]),
        List.append_nil]
    unfold readValue?
    rw [hdrop, htake]

/-- An equals sign and a value between quotes, without the closing quote. -/
def IsAssignment (value k : Text) : Prop :=
  ∃ b b' q, k = b ++ '=' :: (b' ++ q :: value) ∧ Text.IsBlankText b ∧ Text.IsBlankText b' ∧
    isQuote q = true ∧ IsUnquoted value

theorem IsAssignment.countP_isQuote {value k : Text} (h : IsAssignment value k) :
    k.countP isQuote = 1 := by
  obtain ⟨b, b', q, rfl, hb, hb', hq, hvalue⟩ := h
  rw [List.countP_append, List.countP_cons, List.countP_append, List.countP_cons,
    (isUnquoted_of_isBlankText hb).countP_eq_zero, (isUnquoted_of_isBlankText hb').countP_eq_zero,
    hvalue.countP_eq_zero, if_pos hq]
  rfl

theorem readAssignment?_eq_some_iff {t value rest : Text} :
    readAssignment? t = some (value, rest) ↔
      ∃ k q, t = k ++ q :: rest ∧ isQuote q = true ∧ IsAssignment value k := by
  constructor
  · intro h
    unfold readAssignment? at h
    split at h
    · next u hu =>
      obtain ⟨b, rfl, hb, -⟩ := Text.trimLeft_eq_cons_iff.1 hu
      split at h
      · next q v hv =>
        obtain ⟨b', rfl, hb', -⟩ := Text.trimLeft_eq_cons_iff.1 hv
        split at h
        · next hq =>
          obtain ⟨q', rfl, hq', hvalue⟩ := readValue?_eq_some_iff.1 h
          refine ⟨b ++ '=' :: (b' ++ q :: value), q', by simp, hq', ?_⟩
          exact ⟨b, b', q, rfl, hb, hb', hq, hvalue⟩
        · exact absurd h (by simp)
      · exact absurd h (by simp)
    · exact absurd h (by simp)
  · rintro ⟨k, q', rfl, hq', b, b', q, rfl, hb, hb', hq, hvalue⟩
    have hsign : Text.trimLeft (b ++ '=' :: (b' ++ q :: (value ++ q' :: rest))) =
        '=' :: (b' ++ q :: (value ++ q' :: rest)) :=
      Text.trimLeft_append_cons hb (by decide)
    have hquote : Text.trimLeft (b' ++ q :: (value ++ q' :: rest)) = q :: (value ++ q' :: rest) :=
      Text.trimLeft_append_cons hb' (isBlank_of_isQuote hq)
    have hread : readValue? (value ++ q' :: rest) = some (value, rest) :=
      readValue?_eq_some_iff.2 ⟨q', rfl, hq', hvalue⟩
    have ht : b ++ '=' :: (b' ++ q :: value) ++ q' :: rest =
        b ++ '=' :: (b' ++ q :: (value ++ q' :: rest)) := by simp
    simp only [readAssignment?, ht, hsign, hquote, if_pos hq, hread]

/-! ## Attributes -/

/-- **An attribute of a given name**: the name in any case, an equals sign, a value between
quotes. -/
theorem readAs?_exactly_iff {name t rest : Text} {a : Attribute} :
    readAs? (.exactly name) t = some (a, rest) ↔
      List.Forall₂ (fun w c => sameLetter w c = true) name a.name ∧
        ∃ k q, t = a.name ++ (k ++ q :: rest) ∧ isQuote q = true ∧ IsAssignment a.value k := by
  constructor
  · intro h
    obtain ⟨⟨n, u⟩, hn, h⟩ := Option.bind_eq_some_iff.1 h
    obtain ⟨⟨value, v⟩, hv, h⟩ := Option.bind_eq_some_iff.1 h
    obtain ⟨rfl, rfl⟩ := Prod.mk.inj (Option.some.inj h)
    obtain ⟨hlike, rfl⟩ := Text.readWord?_eq_some_iff.1 hn
    obtain ⟨k, q, rfl, hq, hk⟩ := readAssignment?_eq_some_iff.1 hv
    exact ⟨hlike, k, q, rfl, hq, hk⟩
  · rintro ⟨hlike, k, q, rfl, hq, hk⟩
    have hword : Text.readWord? sameLetter name (a.name ++ (k ++ q :: rest)) =
        some (a.name, k ++ q :: rest) := Text.readWord?_eq_some_iff.2 ⟨hlike, rfl⟩
    have hassign : readAssignment? (k ++ q :: rest) = some (a.value, rest) :=
      readAssignment?_eq_some_iff.2 ⟨k, q, rfl, hq, hk⟩
    show (Text.readWord? sameLetter name (a.name ++ (k ++ q :: rest))).bind _ = _
    rw [hword]
    show (readAssignment? (k ++ q :: rest)).bind _ = _
    rw [hassign]
    rfl

theorem readAs?_written {name value : Text} (hvalue : IsUnquoted value) (z : Text) :
    readAs? (.exactly name) (name ++ ("=\"" ++ value ++ "\"" ++ z)) = some (⟨name, value⟩, z) := by
  refine readAs?_exactly_iff.2 ⟨Text.forall₂_sameLetter_refl name, '=' :: '"' :: value, '"', ?_,
    rfl, ?_⟩
  · simp
  · exact ⟨[], [], '"', rfl, by simp [Text.IsBlankText], by simp [Text.IsBlankText], rfl, hvalue⟩

theorem reader_exactly (name : Text) (before : Option Char) (t : Text) :
    (reader [.exactly name]).read? before t =
      if canStartAfter before then readAs? (.exactly name) t else none := by
  show (if canStartAfter before then [NameForm.exactly name].findSome? (readAs? · t) else none) = _
  rw [List.findSome?_singleton]

/-- **An attribute ends with its second quote**, and nothing behind it is looked at. -/
theorem endsAt_exactly {name : Text} (hname : IsQuoteless name) :
    (reader [.exactly name]).EndsAt isQuote 2 where
  reading {before t a rest} h := by
    rw [reader_exactly] at h
    split at h
    · next hbefore =>
      obtain ⟨hlike, k, q, rfl, hq, hk⟩ := readAs?_exactly_iff.1 h
      refine ⟨a.name ++ k, q, by simp, hq, ?_, fun rest' => ?_⟩
      · rw [List.countP_append, (isUnquoted_of_sameLetter hname hlike).countP_eq_zero,
          hk.countP_isQuote]
      · rw [reader_exactly, if_pos hbefore, List.append_assoc]
        exact readAs?_exactly_iff.2 ⟨hlike, k, q, rfl, hq, hk⟩
    · exact absurd h (by simp)

/-- The reader behind `find?`. -/
def named (name : Text) (filled : Bool) : Reader Attribute :=
  (reader [.exactly (Text.lower name)]).filter fun a => !filled || a.value ≠ []

theorem find?_eq (name : Text) (filled : Bool) (t : Text) :
    find? name filled t = (named name filled).find? none t := rfl

theorem endsAt_named {name : Text} (hname : IsQuoteless (Text.lower name)) (filled : Bool) :
    (named name filled).EndsAt isQuote 2 :=
  (endsAt_exactly hname).filter _

end Attribute
end AriaLint
