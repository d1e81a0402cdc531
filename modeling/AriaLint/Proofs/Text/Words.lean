import AriaLint.Text.Blank
import AriaLint.Text.Lowercase
import Mathlib.Data.List.Forall2
import Mathlib.Data.List.TakeWhile

/-!
# The head of a text

What trimming takes off and what a given word looks like in a text, each said by the split of the
text that it makes.
-/

namespace AriaLint
namespace Text

/-! ## Going through a text -/

/-- What holds of each character of a text is decided by going through the text, not through all
characters that there are. -/
instance (priority := 1100) decidableForallMem {P : Char → Prop} [DecidablePred P] (t : Text) :
    Decidable (∀ c ∈ t, P c) := List.decidableBAll P t

/-! ## Trimming -/

/-- Nothing but blanks. -/
def IsBlankText (t : Text) : Prop := ∀ c ∈ t, isBlank c = true

instance (t : Text) : Decidable (IsBlankText t) := decidableForallMem t

theorem trimLeft_append_cons {b t : Text} {c : Char} (hb : IsBlankText b)
    (hc : isBlank c = false) : trimLeft (b ++ c :: t) = c :: t := by
  rw [trimLeft, List.dropWhile_append_of_pos hb, List.dropWhile_cons_of_neg (by simp [hc])]

/-- Trimming cuts blanks off, and the next character is none. -/
theorem trimLeft_eq_cons_iff {t u : Text} {c : Char} :
    trimLeft t = c :: u ↔ ∃ b, t = b ++ c :: u ∧ IsBlankText b ∧ isBlank c = false := by
  constructor
  · intro h
    refine ⟨t.takeWhile isBlank, ?_, fun d hd => List.mem_takeWhile_imp hd, ?_⟩
    · rw [← h, trimLeft, List.takeWhile_append_dropWhile]
    · have hhead := List.head?_dropWhile_not isBlank t
      rw [show t.dropWhile isBlank = c :: u from h] at hhead
      simpa using hhead
  · rintro ⟨b, rfl, hb, hc⟩
    exact trimLeft_append_cons hb hc

theorem mem_trimRight {t : Text} {c : Char} (h : c ∈ t) (hc : isBlank c = false) :
    c ∈ trimRight t := by
  rw [← trimRight_append_trailingBlanks t, List.mem_append] at h
  refine h.resolve_right fun htail => ?_
  have hblank := List.mem_takeWhile_imp (List.mem_reverse.1 htail)
  rw [hc] at hblank
  exact Bool.false_ne_true hblank

theorem mem_trimLeft {t : Text} {c : Char} (h : c ∈ t) (hc : isBlank c = false) :
    c ∈ trimLeft t := by
  rw [← List.takeWhile_append_dropWhile (p := isBlank) (l := t), List.mem_append] at h
  refine h.resolve_left fun hhead => ?_
  have hblank := List.mem_takeWhile_imp hhead
  rw [hc] at hblank
  exact Bool.false_ne_true hblank

/-- Trimming takes off blanks only. -/
theorem mem_trim {t : Text} {c : Char} (h : c ∈ t) (hc : isBlank c = false) : c ∈ trim t :=
  mem_trimRight (mem_trimLeft h hc) hc

theorem isBlankText_trailingBlanks (t : Text) : IsBlankText (trailingBlanks t) := by
  intro c hc
  exact List.mem_takeWhile_imp (List.mem_reverse.1 hc)

/-! ## Lower case -/

/-- An equals sign has no other case. -/
theorem mem_lower_of_equals {t : Text} (h : '=' ∈ t) : '=' ∈ lower t := by
  have after : ∀ left : Text, '=' ∈ lowerAfter left t := by
    induction t with
    | nil => simp at h
    | cons c t ih =>
      intro left
      rw [lowerAfter, List.mem_append]
      rcases List.mem_cons.1 h with rfl | h
      · have hsign : lowerAt left '=' t = ['='] := rfl
        exact Or.inl (by rw [hsign]; exact List.mem_singleton_self _)
      · exact Or.inr (ih h _)
  exact after []

/-! ## Words -/

/-- **A word is read** where characters stand that are like its own. -/
theorem readWord?_eq_some_iff {alike : Char → Char → Bool} {word t n rest : Text} :
    readWord? alike word t = some (n, rest) ↔
      List.Forall₂ (fun w c => alike w c = true) word n ∧ t = n ++ rest := by
  constructor
  · intro h
    refine ⟨?_, (append_of_readWord? h).symm⟩
    induction word generalizing t n with
    | nil =>
      rw [readWord?] at h
      obtain ⟨rfl, -⟩ := Prod.mk.inj (Option.some.inj h)
      exact List.Forall₂.nil
    | cons w word ih =>
      cases t with
      | nil => simp [readWord?] at h
      | cons c t =>
        rw [readWord?] at h
        split at h
        · next hc =>
          obtain ⟨⟨m, r⟩, hm, heq⟩ := Option.map_eq_some_iff.1 h
          obtain ⟨rfl, rfl⟩ := Prod.mk.inj heq
          exact List.Forall₂.cons hc (ih hm)
        · exact absurd h (by simp)
  · rintro ⟨h, rfl⟩
    induction h with
    | nil => rfl
    | @cons w c word n hc _ ih =>
      rw [List.cons_append, readWord?, if_pos hc, ih]
      rfl

theorem sameLetter_refl (c : Char) : sameLetter c c = true := beq_self_eq_true _

/-- Every word is like itself. -/
theorem forall₂_sameLetter_refl (w : Text) :
    List.Forall₂ (fun a b => sameLetter a b = true) w w :=
  List.forall₂_same.2 fun c _ => sameLetter_refl c

end Text
end AriaLint
