import AriaLint.Closing
import AriaLint.Proofs.Tag.Name
import AriaLint.Proofs.Text.Reader
import AriaLint.Proofs.Text.Words

/-!
# What a closing tag looks like

A closing tag of a given name is read where a bracket and a slash stand, the name in its own
letters or like ones, blanks, and a closing bracket (`read?_eq_some_iff`); it ends with that bracket
(`endsAt_reader`), provided that no character of the name is like a bracket itself.

Names of tags satisfy this: no character of theirs is like a sign that delimits names
(`sameLetter_eq_false`).
-/

namespace AriaLint
namespace Closing

open Text

/-! ## The grammar -/

/-- **A closing tag of a given name.** -/
theorem read?_eq_some_iff {alike : Char → Char → Bool} {name t rest : Text} :
    read? alike name t = some rest ↔
      ∃ n b, t = '<' :: '/' :: (n ++ (b ++ '>' :: rest)) ∧
        List.Forall₂ (fun w c => alike w c = true) name n ∧ IsBlankText b := by
  constructor
  · intro h
    unfold read? at h
    split at h
    · next u =>
      rw [Option.bind_eq_bind] at h
      obtain ⟨⟨n, v⟩, hn, hclose⟩ := Option.bind_eq_some_iff.1 h
      obtain ⟨hlike, rfl⟩ := readWord?_eq_some_iff.1 hn
      dsimp only at hclose
      split at hclose
      · next r hr =>
        obtain rfl := Option.some.inj hclose
        obtain ⟨b, rfl, hb, -⟩ := trimLeft_eq_cons_iff.1 hr
        exact ⟨n, b, rfl, hlike, hb⟩
      · exact absurd hclose (by simp)
    · exact absurd h (by simp)
  · rintro ⟨n, b, rfl, hlike, hb⟩
    have hword : readWord? alike name (n ++ (b ++ '>' :: rest)) = some (n, b ++ '>' :: rest) :=
      readWord?_eq_some_iff.2 ⟨hlike, rfl⟩
    have htrim : trimLeft (b ++ '>' :: rest) = '>' :: rest :=
      trimLeft_append_cons hb (by decide)
    simp only [read?, hword, Option.bind_eq_bind, Option.bind_some, htrim]

/-! ## The end -/

/-- The closing bracket, as a test. -/
def isClose (c : Char) : Bool := c == '>'

theorem countP_isClose_eq_zero {t : Text} : t.countP isClose = 0 ↔ '>' ∉ t := by
  rw [List.countP_eq_zero]
  constructor
  · intro h hmem
    exact h '>' hmem rfl
  · intro h c hc heq
    obtain rfl : c = '>' := eq_of_beq heq
    exact h hc

theorem not_mem_of_forall₂ {alike : Char → Char → Bool} {p : Char} {name n : Text}
    (hname : ∀ w ∈ name, alike w p = false)
    (h : List.Forall₂ (fun w c => alike w c = true) name n) : p ∉ n := by
  induction h with
  | nil => simp
  | @cons w c name n hwc _ ih =>
    rw [List.mem_cons, not_or]
    refine ⟨?_, ih fun v hv => hname v (List.mem_cons_of_mem w hv)⟩
    rintro rfl
    rw [hname w List.mem_cons_self] at hwc
    exact Bool.false_ne_true hwc

theorem not_mem_of_isBlankText {b : Text} (hb : IsBlankText b) {p : Char}
    (hp : isBlank p = false) : p ∉ b := by
  intro hmem
  rw [hb p hmem] at hp
  exact Bool.noConfusion hp

/-- **A closing tag ends with its first closing bracket**, and nothing behind it is looked at. -/
theorem endsAt_reader {alike : Char → Char → Bool} {name : Text}
    (hname : ∀ w ∈ name, alike w '>' = false) : (reader alike name).EndsAt isClose 1 where
  reading {before t a rest} h := by
    obtain ⟨r, hread, heq⟩ := Option.map_eq_some_iff.1 h
    obtain ⟨-, rfl⟩ := Prod.mk.inj heq
    obtain ⟨n, b, rfl, hlike, hb⟩ := read?_eq_some_iff.1 hread
    refine ⟨'<' :: '/' :: (n ++ b), '>', by simp, rfl, ?_, fun rest' => ?_⟩
    · have hn : '>' ∉ n := not_mem_of_forall₂ hname hlike
      have hblank : '>' ∉ b := not_mem_of_isBlankText hb (by decide)
      rw [countP_isClose_eq_zero.2]
      simp [hn, hblank]
    · refine Option.map_eq_some_iff.2 ⟨rest', ?_, rfl⟩
      exact read?_eq_some_iff.2 ⟨n, b, by simp, hlike, hb⟩

/-! ## Names -/

/-- A name character is like no sign that delimits it. -/
theorem sameLetter_eq_false {w p : Char} (hw : Tag.isNameChar w = true) (hfold : fold p = p)
    (hp : Tag.isNameChar p = false) : sameLetter w p = false := by
  cases h : sameLetter w p with
  | false => rfl
  | true =>
    have heq : fold w = p := (eq_of_beq h).trans hfold
    have hne : fold w ≠ w := by
      intro hsame
      rw [← heq, hsame, hw] at hp
      exact Bool.noConfusion hp
    simp only [Tag.isNameChar, heq, Bool.or_eq_true, Bool.and_eq_true, decide_eq_true_eq,
      beq_iff_eq] at hw
    rcases hw with ((hw | hw) | rfl) | rfl
    · have hletter : Tag.isNameChar p = true := by simp [Tag.isNameChar, hfold, hw]
      rw [hp] at hletter
      exact absurd hletter Bool.false_ne_true
    · -- a digit has no other case
      have hascii : w.toNat < 0x80 := Nat.lt_of_le_of_lt (show w.toNat ≤ '9'.toNat from hw.2)
        (by decide)
      have hnot : ¬ (w.val ≥ 'A'.val ∧ w.val ≤ 'Z'.val) := by
        intro hupper
        have hle : w.val ≤ '9'.val := hw.2
        exact absurd (UInt32.le_trans hupper.1 hle) (by decide)
      have hlower : lowerChar w = w := by
        rw [lowerChar, if_pos hascii]
        exact dif_neg hnot
      refine absurd ?_ hne
      unfold fold
      rw [hlower, if_pos hascii]
    · exact absurd (by decide) hne
    · exact absurd (by decide) hne

theorem sameLetter_of_sameSmall {a b : Char} (h : sameSmall a b = true) :
    sameLetter a b = true := by
  have hlower : lowerChar a = lowerChar b := eq_of_beq h
  refine beq_iff_eq.2 ?_
  unfold fold
  rw [hlower]

/-- Nor does it share its lower case form with one. -/
theorem sameSmall_eq_false {w p : Char} (hw : Tag.isNameChar w = true) (hfold : fold p = p)
    (hp : Tag.isNameChar p = false) : sameSmall w p = false := by
  cases h : sameSmall w p with
  | false => rfl
  | true =>
    have hlike := sameLetter_of_sameSmall h
    rw [sameLetter_eq_false hw hfold hp] at hlike
    exact absurd hlike Bool.false_ne_true

/-- The signs that stand behind the name of a tag. -/
def endsTagName (c : Char) : Bool := isBlank c || c == '/' || c == '>'

theorem delimits_of_endsTagName {c : Char} (h : endsTagName c = true) :
    delimitsName c = true ∧ fold c = c := by
  have hsigns : ∀ s ∈ ['/', '>'], delimitsName s = true ∧ fold s = s := by decide
  simp only [endsTagName, Bool.or_eq_true, beq_iff_eq] at h
  rcases h with (hb | rfl) | rfl
  · exact ⟨delimitsName_of_isBlank hb, fold_of_isBlank hb⟩
  · exact hsigns '/' (by simp)
  · exact hsigns '>' (by simp)

/-- The signs that follow a name are no letters of the word, so that it is never read beyond a
name. -/
def IsNameWord (word : Text) : Prop :=
  ∀ w ∈ word, ∀ c, endsTagName c = true → sameLetter w c = false

theorem isNameWord_of_isNameChar {word : Text} (h : ∀ w ∈ word, Tag.isNameChar w = true) :
    IsNameWord word := by
  intro w hw c hc
  obtain ⟨hdelim, hfold⟩ := delimits_of_endsTagName hc
  exact sameLetter_eq_false (h w hw) hfold (isNameChar_eq_false hdelim)

/-- Attribute text that stands apart from the name ends it, and so does the closing bracket. -/
theorem endsTagName_of_mem_head? {attrs : Text}
    (h : ∀ c ∈ attrs.head?, isBlank c = true ∨ c = '/') (rest : Text) :
    ∀ c ∈ (attrs ++ '>' :: rest).head?, endsTagName c = true := by
  intro c hc
  cases attrs with
  | nil =>
    obtain rfl : '>' = c := by simpa using hc
    rfl
  | cons d attrs =>
    obtain rfl : d = c := by simpa using hc
    rcases h d rfl with hb | rfl
    · simp [endsTagName, hb]
    · rfl

end Closing
end AriaLint
