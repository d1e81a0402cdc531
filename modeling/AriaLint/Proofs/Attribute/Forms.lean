import AriaLint.Proofs.Attribute.Grammar
import AriaLint.Proofs.Tag.Name

/-!
# Attributes of several names

The reader of attributes takes a list of name forms, and the grammar of a single name holds for all
of them: where an attribute is read, a name of one of the forms stands, blanks, an equals sign,
blanks, and a value between quotes (`exists_of_read?`), and the reading ends with the second quote
(`endsAt_reader`).

`NameForm.Names` says which texts a form stands for.  All that is needed of them later is that they
are proper names: not empty, without blanks, quotes, equals signs and slashes.  The names of the
ARIA family are proper by themselves; for a given name this is a check of its characters.
-/

namespace AriaLint
namespace Attribute

/-! ## Proper names -/

/-- A character of a proper name. -/
def isNamePart (c : Char) : Bool := !(isBlank c || isQuote c || c == '=' || c == '/')

theorem not_isNamePart_cases {c : Char} (h : isNamePart c = false) :
    isBlank c = true ∨ isQuote c = true ∨ c = '=' ∨ c = '/' := by
  simpa only [isNamePart, Bool.not_eq_false', Bool.or_eq_true, beq_iff_eq, or_assoc] using h

theorem isNamePart_of_isBlank {c : Char} (h : isBlank c = true) : isNamePart c = false := by
  simp [isNamePart, h]

theorem isNamePart_of_isQuote {c : Char} (h : isQuote c = true) : isNamePart c = false := by
  simp [isNamePart, h]

/-- What no name holds has no other case. -/
theorem fold_of_not_isNamePart {c : Char} (h : isNamePart c = false) : fold c = c := by
  rcases not_isNamePart_cases h with h | h | rfl | rfl
  · exact fold_of_isBlank h
  · exact fold_of_isQuote h
  · decide
  · decide

theorem isNamePart_of_fold {c : Char} (h : isNamePart (fold c) = true) : isNamePart c = true := by
  cases hc : isNamePart c with
  | true => rfl
  | false =>
    rw [fold_of_not_isNamePart hc, hc] at h
    exact h

theorem isNamePart_of_isAriaNameChar {c : Char} (h : isAriaNameChar c = true) :
    isNamePart c = true := by
  cases hc : isNamePart c with
  | true => rfl
  | false =>
    rcases not_isNamePart_cases hc with hblank | hquote | rfl | rfl
    · have hname : Tag.isNameChar c = false := isNameChar_eq_false (delimitsName_of_isBlank hblank)
      have hline : c ≠ '_' := by
        rintro rfl
        exact absurd hblank (by decide)
      simp only [Tag.isNameChar, Bool.or_eq_false_iff] at hname
      simp [isAriaNameChar, hname, hline] at h
    · rcases eq_of_isQuote hquote with rfl | rfl
      · exact absurd h (by decide)
      · exact absurd h (by decide)
    · exact absurd h (by decide)
    · exact absurd h (by decide)

/-- The text is a proper name. -/
def IsNameText (n : Text) : Prop := n ≠ [] ∧ ∀ c ∈ n, isNamePart c = true

/-- Blanks and equals signs are no part of a name of the ARIA family. -/
theorem isAriaNameChar_eq_false {c : Char} (h : isNamePart c = false) :
    isAriaNameChar c = false := by
  cases hc : isAriaNameChar c with
  | false => rfl
  | true =>
    rw [isNamePart_of_isAriaNameChar hc] at h
    exact absurd h Bool.noConfusion

namespace NameForm

/-- The names that have the form. -/
def Names : NameForm → Text → Prop
  | exactly name, n => List.Forall₂ (fun w c => sameLetter w c = true) name n
  | aria, n => ∃ start ending, n = start ++ ending ∧
      List.Forall₂ (fun w c => sameLetter w c = true) "aria-" start ∧ ending ≠ [] ∧
      ∀ c ∈ ending, isAriaNameChar c = true

/-- A form of proper names. -/
def IsProper : NameForm → Prop
  | exactly name => name ≠ [] ∧ ∀ c ∈ name, isNamePart (fold c) = true
  | aria => True

instance (form : NameForm) : Decidable form.IsProper :=
  match form with
  | exactly name => inferInstanceAs (Decidable (name ≠ [] ∧ ∀ c ∈ name, isNamePart (fold c) = true))
  | aria => isTrue trivial

theorem isNamePart_of_sameLetter {name n : Text} (hname : ∀ c ∈ name, isNamePart (fold c) = true)
    (h : List.Forall₂ (fun w c => sameLetter w c = true) name n) :
    ∀ c ∈ n, isNamePart c = true := by
  induction h with
  | nil => simp
  | @cons w c name n hwc _ ih =>
    rw [List.forall_mem_cons]
    refine ⟨isNamePart_of_fold ?_, ih fun d hd => hname d (List.mem_cons_of_mem w hd)⟩
    rw [← show fold w = fold c from eq_of_beq hwc]
    exact hname w List.mem_cons_self

/-- **The names of a proper form are proper.** -/
theorem isNameText_of_names {form : NameForm} (hform : form.IsProper) {n : Text}
    (h : form.Names n) : IsNameText n := by
  cases form with
  | exactly name =>
    refine ⟨?_, isNamePart_of_sameLetter hform.2 h⟩
    rintro rfl
    exact hform.1 (List.forall₂_nil_right_iff.1 h)
  | aria =>
    obtain ⟨start, ending, rfl, hstart, hne, hending⟩ := h
    refine ⟨by simp [hne], fun c hc => ?_⟩
    rcases List.mem_append.1 hc with hc | hc
    · exact isNamePart_of_sameLetter (by decide) hstart c hc
    · exact isNamePart_of_isAriaNameChar (hending c hc)

/-- A name of the form is read where it stands and no name part follows. -/
theorem read?_eq_some_iff {form : NameForm} {n rest : Text}
    (hrest : ∀ c ∈ rest.head?, isNamePart c = false) {t : Text} :
    form.read? t = some (n, rest) ↔ form.Names n ∧ t = n ++ rest := by
  cases form with
  | exactly name => exact Text.readWord?_eq_some_iff
  | aria =>
    constructor
    · intro h
      obtain ⟨⟨start, u⟩, hstart, hread⟩ := Option.bind_eq_some_iff.1 h
      obtain ⟨hlike, rfl⟩ := Text.readWord?_eq_some_iff.1 hstart
      dsimp only at hread
      split at hread
      · exact absurd hread (by simp)
      · next hne =>
        obtain ⟨rfl, rfl⟩ := Prod.mk.inj (Option.some.inj hread)
        refine ⟨⟨start, _, rfl, hlike, hne, fun c hc => List.mem_takeWhile_imp hc⟩, ?_⟩
        rw [List.append_assoc, List.takeWhile_append_dropWhile]
    · rintro ⟨⟨start, ending, rfl, hlike, hne, hending⟩, rfl⟩
      have hword : Text.readWord? sameLetter "aria-" (start ++ ending ++ rest) =
          some (start, ending ++ rest) :=
        Text.readWord?_eq_some_iff.2 ⟨hlike, by rw [List.append_assoc]⟩
      have hstop : ∀ c ∈ rest.head?, isAriaNameChar c = false :=
        fun c hc => isAriaNameChar_eq_false (hrest c hc)
      have htake : (ending ++ rest).takeWhile isAriaNameChar = ending := by
        rw [List.takeWhile_append_of_pos hending]
        cases rest with
        | nil => simp
        | cons c rest =>
          rw [List.takeWhile_cons_of_neg (by simp [hstop c rfl]), List.append_nil]
      have hdrop : (ending ++ rest).dropWhile isAriaNameChar = rest := by
        have hsplit := List.takeWhile_append_dropWhile (p := isAriaNameChar) (l := ending ++ rest)
        rw [htake] at hsplit
        exact List.append_cancel_left hsplit
      show (Text.readWord? sameLetter "aria-" (start ++ ending ++ rest)).bind _ = _
      rw [hword]
      show (if (ending ++ rest).takeWhile isAriaNameChar = [] then none else _) = _
      rw [htake, hdrop, if_neg hne]

end NameForm

/-! ## Attributes -/

/-- An assignment starts with a blank or its sign. -/
theorem IsAssignment.head?_append {value k : Text} (h : IsAssignment value k) (rest : Text) :
    ∀ c ∈ (k ++ rest).head?, isNamePart c = false := by
  obtain ⟨b, b', q, rfl, hb, -⟩ := h
  intro c hc
  cases b with
  | nil =>
    obtain rfl : '=' = c := by simpa using hc
    decide
  | cons d b =>
    obtain rfl : d = c := by simpa using hc
    exact isNamePart_of_isBlank (hb d List.mem_cons_self)

/-- **An attribute of a form**: a name of the form, an equals sign, a value between quotes. -/
theorem readAs?_iff {form : NameForm} {t rest : Text} {a : Attribute} :
    readAs? form t = some (a, rest) ↔
      form.Names a.name ∧
        ∃ k q, t = a.name ++ (k ++ q :: rest) ∧ isQuote q = true ∧ IsAssignment a.value k := by
  constructor
  · intro h
    obtain ⟨⟨n, u⟩, hn, h⟩ := Option.bind_eq_some_iff.1 h
    obtain ⟨⟨value, v⟩, hv, h⟩ := Option.bind_eq_some_iff.1 h
    obtain ⟨rfl, rfl⟩ := Prod.mk.inj (Option.some.inj h)
    obtain ⟨k, q, rfl, hq, hk⟩ := readAssignment?_eq_some_iff.1 hv
    obtain ⟨hnames, rfl⟩ := (NameForm.read?_eq_some_iff (hk.head?_append _)).1 hn
    exact ⟨hnames, k, q, rfl, hq, hk⟩
  · rintro ⟨hnames, k, q, rfl, hq, hk⟩
    have hname : form.read? (a.name ++ (k ++ q :: rest)) = some (a.name, k ++ q :: rest) :=
      (NameForm.read?_eq_some_iff (hk.head?_append _)).2 ⟨hnames, rfl⟩
    have hassign : readAssignment? (k ++ q :: rest) = some (a.value, rest) :=
      readAssignment?_eq_some_iff.2 ⟨k, q, rfl, hq, hk⟩
    show (form.read? (a.name ++ (k ++ q :: rest))).bind _ = _
    rw [hname]
    show (readAssignment? (k ++ q :: rest)).bind _ = _
    rw [hassign]
    rfl

section Forms

variable {forms : List NameForm}

theorem reader_read? (before : Option Char) (t : Text) :
    (reader forms).read? before t =
      if canStartAfter before then forms.findSome? (readAs? · t) else none := rfl

/-- What an attribute looks like, whichever name it was read by. -/
theorem exists_of_read? {before : Option Char} {t rest : Text} {a : Attribute}
    (h : (reader forms).read? before t = some (a, rest)) :
    canStartAfter before = true ∧ (∃ form ∈ forms, form.Names a.name) ∧
      ∃ b b' p q, t = a.name ++ (b ++ '=' :: (b' ++ p :: (a.value ++ q :: rest))) ∧
        Text.IsBlankText b ∧ Text.IsBlankText b' ∧ isQuote p = true ∧ isQuote q = true ∧
        IsUnquoted a.value := by
  rw [reader_read?] at h
  split at h
  · next hbefore =>
    obtain ⟨form, hform, hread⟩ := List.exists_of_findSome?_eq_some h
    obtain ⟨hnames, k, q, rfl, hq, b, b', p, rfl, hb, hb', hp, hvalue⟩ := readAs?_iff.1 hread
    exact ⟨hbefore, ⟨form, hform, hnames⟩, b, b', p, q, by simp, hb, hb', hp, hq, hvalue⟩
  · exact absurd h (by simp)

variable (hforms : ∀ form ∈ forms, form.IsProper)

include hforms in
/-- Nothing is read at a character that is no part of a name. -/
theorem read?_eq_none_of_not_isNamePart {c : Char} (h : isNamePart c = false)
    (before : Option Char) (t : Text) : (reader forms).read? before (c :: t) = none := by
  rw [Option.eq_none_iff_forall_ne_some]
  rintro ⟨a, rest⟩ hread
  obtain ⟨-, ⟨form, hform, hnames⟩, b, b', p, q, hsplit, -⟩ := exists_of_read? hread
  obtain ⟨hne, hchars⟩ := NameForm.isNameText_of_names (hforms form hform) hnames
  obtain ⟨d, n, hn⟩ := List.exists_cons_of_ne_nil hne
  rw [hn, List.cons_append] at hsplit
  have hd := hchars d (by rw [hn]; exact List.mem_cons_self)
  rw [← (List.cons.inj hsplit).1, h] at hd
  exact Bool.noConfusion hd

theorem isUnquoted_of_isNameText {n : Text} (h : IsNameText n) : IsUnquoted n := by
  intro c hc
  cases hq : isQuote c with
  | false => rfl
  | true =>
    have hpart := h.2 c hc
    rw [isNamePart_of_isQuote hq] at hpart
    exact absurd hpart Bool.noConfusion

/-- A single form ends with the second quote. -/
theorem readAs?_append {form : NameForm} (hform : form.IsProper) {k : Text} {d : Char}
    (hd : isQuote d = true) (hk : k.countP isQuote = 1) (rest : Text) :
    readAs? form (k ++ d :: rest) = (readAs? form (k ++ [d])).map fun r => (r.1, r.2 ++ rest) := by
  cases hread : readAs? form (k ++ [d]) with
  | some r =>
    obtain ⟨a, rest'⟩ := r
    obtain ⟨hnames, l, q, hsplit, hq, hl⟩ := readAs?_iff.1 hread
    refine readAs?_iff.2 ⟨hnames, l, q, ?_, hq, hl⟩
    rw [show k ++ d :: rest = (k ++ [d]) ++ rest by simp, hsplit]
    simp
  | none =>
    rw [Option.map_none, Option.eq_none_iff_forall_ne_some]
    rintro ⟨a, rest'⟩ hread'
    obtain ⟨hnames, l, q, hsplit, hq, hl⟩ := readAs?_iff.1 hread'
    -- the second quote of the reading is the second quote of the text
    have hcount : (a.name ++ l).countP isQuote = 1 := by
      rw [List.countP_append, hl.countP_isQuote,
        (isUnquoted_of_isNameText (NameForm.isNameText_of_names hform hnames)).countP_eq_zero]
    rw [← List.append_assoc] at hsplit
    have heq : k = a.name ++ l ∧ d = q := by
      rcases List.append_eq_append_iff.1 hsplit with ⟨z, hz, hrest⟩ | ⟨z, hz, hrest⟩
      · cases z with
        | nil => exact ⟨by rw [hz, List.append_nil], (List.cons.inj hrest).1⟩
        | cons e z =>
          obtain ⟨rfl, -⟩ := List.cons.inj hrest
          rw [hz, List.countP_append, List.countP_cons, hk, if_pos hd] at hcount
          omega
      · cases z with
        | nil => exact ⟨by rw [hz, List.append_nil], (List.cons.inj hrest).1.symm⟩
        | cons e z =>
          obtain ⟨rfl, -⟩ := List.cons.inj hrest
          rw [hz, List.countP_append, List.countP_cons, hcount, if_pos hq] at hk
          omega
    have hsome : readAs? form (k ++ [d]) = some (a, []) :=
      readAs?_iff.2 ⟨hnames, l, q, by rw [heq.1, heq.2]; simp, hq, hl⟩
    rw [hread] at hsome
    exact absurd hsome (by simp)

theorem findSome?_eq_map {α β γ : Type} {l : List α} {f : α → Option β} {g : α → Option γ}
    {h : γ → β} (heq : ∀ a ∈ l, f a = (g a).map h) : l.findSome? f = (l.findSome? g).map h := by
  induction l with
  | nil => rfl
  | cons a l ih =>
    rw [List.findSome?_cons, List.findSome?_cons, heq a List.mem_cons_self,
      ih fun b hb => heq b (List.mem_cons_of_mem a hb)]
    cases g a with
    | none => rfl
    | some c => rfl

include hforms in
/-- **An attribute ends with its second quote**, whichever name it is read by. -/
theorem endsAt_reader : (reader forms).EndsAt isQuote 2 where
  reading {before t a rest} h := by
    obtain ⟨hbefore, ⟨form, hform, hnames⟩, b, b', p, q, rfl, hb, hb', hp, hq, hvalue⟩ :=
      exists_of_read? h
    have hcount : (a.name ++ (b ++ '=' :: (b' ++ p :: a.value))).countP isQuote = 1 := by
      rw [List.countP_append, IsAssignment.countP_isQuote ⟨b, b', p, rfl, hb, hb', hp, hvalue⟩,
        (isUnquoted_of_isNameText
          (NameForm.isNameText_of_names (hforms form hform) hnames)).countP_eq_zero]
    have hlocal : ∀ rest', forms.findSome? (readAs? ·
        (a.name ++ (b ++ '=' :: (b' ++ p :: a.value)) ++ q :: rest')) =
          (forms.findSome? (readAs? · (a.name ++ (b ++ '=' :: (b' ++ p :: a.value)) ++ [q]))).map
            fun r => (r.1, r.2 ++ rest') := fun rest' =>
      findSome?_eq_map fun form hform => readAs?_append (hforms form hform) hq hcount rest'
    refine ⟨a.name ++ (b ++ '=' :: (b' ++ p :: a.value)), q, by simp, hq, by omega, fun rest' => ?_⟩
    rw [reader_read?, if_pos hbefore] at h ⊢
    have hsplit : a.name ++ (b ++ '=' :: (b' ++ p :: (a.value ++ q :: rest))) =
        a.name ++ (b ++ '=' :: (b' ++ p :: a.value)) ++ q :: rest := by simp
    rw [hsplit, hlocal rest] at h
    obtain ⟨⟨a', left⟩, hfound, heq⟩ := Option.map_eq_some_iff.1 h
    obtain ⟨rfl, hleft⟩ := Prod.mk.inj heq
    obtain rfl : left = [] := List.append_left_eq_self.1 hleft
    rw [hlocal rest', hfound]
    rfl

end Forms
end Attribute
end AriaLint
