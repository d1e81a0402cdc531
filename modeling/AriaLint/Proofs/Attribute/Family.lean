import AriaLint.Proofs.Attribute.Edits
import AriaLint.Proofs.Attribute.Seam
import AriaLint.Proofs.Tag.Lowered
import AriaLint.Proofs.Text.Readings

/-!
# The ARIA family and a single name

An ARIA attribute can be looked for in two ways: by its name, at every place of a text, or in a walk
over all attributes of the family, whose names are then compared in lower case.  Where the attribute
is, both can read it (`readsAt_of_names`, `names_aria_of_exactly`), but the walk can still miss it,
for two reasons:

* the place is inside of an attribute of the family that the walk has read before;
* the name as written is like the name that is looked for without having its lower case form, since
  the comparison without regard to case admits `ı` and `İ` for `i`.

There are no other reasons (`mem_names_ariaAttributes_iff`).  The first one needs a value that ends
with an equals sign (`not_isSettled_of_startsInside`), so in most texts the walk misses nothing
(`not_isOverlooked`).
-/

namespace AriaLint
namespace Attribute

open Reader

/-! ## Characters of the family -/

/-- The characters of names of the family are in ASCII but for four. -/
theorem isAriaNameChar_cases {c : Char} (h : isAriaNameChar c = true) :
    c.toNat < 128 ∨ c ∈ foreignNameChars := by
  by_cases hline : c = '_'
  · exact Or.inl (by rw [hline]; decide)
  · refine Tag.isNameChar_cases ?_
    simp only [isAriaNameChar, Bool.or_eq_true, beq_iff_eq, hline, or_false] at h
    simp only [Tag.isNameChar, Bool.or_eq_true, beq_iff_eq]
    exact h.imp Or.inl id

/-- What holds of each character of the family can be looked up. -/
theorem forall_ariaNameChar {P : Char → Prop}
    (hascii : ∀ n < 128, isAriaNameChar (Char.ofNat n) = true → P (Char.ofNat n))
    (hforeign : ∀ e ∈ foreignNameChars, P e) {c : Char} (h : isAriaNameChar c = true) : P c := by
  rcases isAriaNameChar_cases h with hlt | hmem
  · exact forall_ascii (P := fun c => isAriaNameChar c = true → P c) hascii hlt h
  · exact hforeign c hmem

theorem continuesName_of_isAriaNameChar {c : Char} (h : isAriaNameChar c = true) :
    continuesName c = true :=
  forall_ariaNameChar (P := fun c => continuesName c = true) (by decide +kernel)
    (by decide +kernel) h

/-- What is like a character of the family is one. -/
theorem isAriaNameChar_of_fold_eq {w c : Char} (hw : isAriaNameChar w = true)
    (h : fold w = fold c) : isAriaNameChar c = true := by
  have hsmall : (fold w).toNat < 128 ∧ isAriaNameChar (fold w) = true :=
    forall_ariaNameChar (P := fun c => (fold c).toNat < 128 ∧ isAriaNameChar (fold c) = true)
      (by decide +kernel) (by decide +kernel) hw
  rw [h] at hsmall
  exact holds_of_fold (P := isAriaNameChar) (by decide +kernel) (by decide +kernel) (by decide)
    hsmall.1 hsmall.2

/-- Letters that pass for one in ASCII and have another lower case form. -/
def strayLetters : List Char := ['\u017F', '\u0130', '\u0131']

/-- A character of the family in lower case: the dotted capital leaves a mark behind, and any other
character is like its small letter, which stands for all that are like it unless it is a stray one. -/
theorem lowerAt_of_isAriaNameChar {c : Char} (h : isAriaNameChar c = true) (left right : Text) :
    c ∈ strayLetters ∧ '\u0307' ∈ Text.lowerAt left c right ∨
      ∃ d, Text.lowerAt left c right = [d] ∧ sameLetter d c = true ∧
        (c ∉ strayLetters → d = fold c) := by
  have hcases : c ≠ 'Σ' ∧ (c = 'İ' ∨
      sameLetter (lowerChar c) c = true ∧ (c ∉ strayLetters → lowerChar c = fold c)) :=
    forall_ariaNameChar (P := fun c => c ≠ 'Σ' ∧ (c = 'İ' ∨
      sameLetter (lowerChar c) c = true ∧ (c ∉ strayLetters → lowerChar c = fold c)))
      (by decide +kernel) (by decide +kernel) h
  rw [Text.lowerAt, if_neg hcases.1]
  by_cases hdot : c = 'İ'
  · rw [if_pos hdot, hdot]
    exact Or.inl (by decide)
  · rw [if_neg hdot]
    exact Or.inr ⟨_, rfl, hcases.2.resolve_left hdot⟩

/-! ## Names of the family -/

theorem isAriaNameChar_of_map_fold_eq {m n : Text} (hm : ∀ w ∈ m, isAriaNameChar w = true)
    (h : m.map fold = n.map fold) : ∀ c ∈ n, isAriaNameChar c = true := by
  intro c hc
  have hfold : fold c ∈ m.map fold := by
    rw [h]
    exact List.mem_map_of_mem hc
  obtain ⟨w, hw, hlike⟩ := List.mem_map.1 hfold
  exact isAriaNameChar_of_fold_eq (hm w hw) hlike

theorem isAriaNameChar_of_names {n : Text} (h : NameForm.aria.Names n) :
    ∀ c ∈ n, isAriaNameChar c = true := by
  obtain ⟨start, ending, rfl, hstart, -, hending⟩ := h
  intro c hc
  rcases List.mem_append.1 hc with hc | hc
  · exact isAriaNameChar_of_map_fold_eq (by decide) (map_fold_eq hstart) c hc
  · exact hending c hc

theorem forall₂_of_map_fold_eq {a b : Text} (h : a.map fold = b.map fold) :
    List.Forall₂ (fun w c => sameLetter w c = true) a b := by
  rw [← List.forall₂_eq_eq_eq, List.forall₂_map_left_iff, List.forall₂_map_right_iff] at h
  exact h.imp fun _ _ => beq_iff_eq.2

/-- What is like a name of the family is one. -/
theorem names_aria_of_exactly {name n : Text} (hname : NameForm.aria.Names name)
    (h : (NameForm.exactly name).Names n) : NameForm.aria.Names n := by
  obtain ⟨start, ending, rfl, hstart, hne, hending⟩ := hname
  obtain ⟨start', ending', rfl, hstart', hending'⟩ := List.map_eq_append_iff.1
    ((map_fold_eq h).symm.trans (List.map_append))
  refine ⟨start', ending', rfl, ?_, ?_, isAriaNameChar_of_map_fold_eq hending hending'.symm⟩
  · exact forall₂_of_map_fold_eq ((map_fold_eq hstart).trans hstart'.symm)
  · rintro rfl
    exact hne (List.map_eq_nil_iff.1 hending'.symm)

/-- A name of the family that has no mark in lower case is like its lower case form. -/
theorem forall₂_sameLetter_lowerAfter {n : Text} (hn : ∀ c ∈ n, isAriaNameChar c = true)
    {left : Text} (hmark : '\u0307' ∉ Text.lowerAfter left n) :
    List.Forall₂ (fun w c => sameLetter w c = true) (Text.lowerAfter left n) n := by
  induction n generalizing left with
  | nil => exact .nil
  | cons c n ih =>
    rw [Text.lowerAfter, List.mem_append, not_or] at hmark
    rcases lowerAt_of_isAriaNameChar (hn c List.mem_cons_self) left n with
      ⟨-, hdot⟩ | ⟨d, heq, hlike, -⟩
    · exact absurd hdot hmark.1
    · rw [Text.lowerAfter, heq]
      exact .cons hlike (ih (fun d hd => hn d (List.mem_cons_of_mem c hd)) hmark.2)

/-- A name with the lower case form that is looked for is like it. -/
theorem names_exactly_of_lower {n : Text} (hname : NameForm.aria.Names (Text.lower n))
    (hn : NameForm.aria.Names n) : (NameForm.exactly (Text.lower n)).Names n := by
  refine forall₂_sameLetter_lowerAfter (isAriaNameChar_of_names hn) fun hmark => ?_
  exact absurd (isAriaNameChar_of_names hname _ hmark) (by decide)

/-! ## Places -/

section Places

variable {form form' : NameForm} {before : Option Char} {t : Text} {f : Found Attribute}

theorem reader_single (form : NameForm) (before : Option Char) (t : Text) :
    (reader [form]).read? before t =
      if canStartAfter before then readAs? form t else none := by
  rw [reader_read?, List.findSome?_singleton]

theorem names_of_readsAt (h : (reader [form]).ReadsAt before t f) : form.Names f.item.name := by
  obtain ⟨u, -, hread⟩ := h
  obtain ⟨-, ⟨form', hmem, hnames⟩, -⟩ := exists_of_read? hread
  rwa [List.mem_singleton.1 hmem] at hnames

/-- **Readers of single forms differ in the names alone.** -/
theorem readsAt_of_names (h : (reader [form]).ReadsAt before t f)
    (hnames : form'.Names f.item.name) : (reader [form']).ReadsAt before t f := by
  obtain ⟨u, hsplit, hread⟩ := h
  refine ⟨u, hsplit, ?_⟩
  rw [reader_single] at hread ⊢
  split at hread
  · next hstart =>
    rw [if_pos hstart]
    exact readAs?_iff.2 ⟨hnames, (readAs?_iff.1 hread).2⟩
  · exact absurd hread (by simp)

/-- The text has an attribute of a name where it can be read at some place. -/
theorem has_iff_exists_readsAt {name : Text} (hname : Text.lower name = name) :
    has name t = true ↔ ∃ f, (reader [.exactly name]).ReadsAt none t f := by
  have hnamed : named name false = reader [.exactly name] := by
    rw [named, hname]
    exact filter_true _
  rw [has, value?, Option.isSome_map, find?_eq, hnamed, isSome_find?_iff]
  constructor
  · rintro ⟨x, u, rfl, hread⟩
    obtain ⟨⟨a, rest⟩, hr⟩ := Option.isSome_iff_exists.1 hread
    exact ⟨⟨x, a, rest⟩, u, rfl, hr⟩
  · rintro ⟨f, u, hsplit, hread⟩
    exact ⟨f.before, u, hsplit, by rw [hread]; rfl⟩

end Places

/-! ## The walk over the family -/

theorem endsAt_aria : (reader [.aria]).EndsAt isQuote 2 :=
  endsAt_reader (by simp [NameForm.IsProper])

/-- The ARIA attributes of a text are those that the walk reads. -/
theorem ariaAttributes_eq_map (t : Text) :
    ariaAttributes t = ((reader [.aria]).readings none t).map
      fun f => { f.item with name := Text.lower f.item.name } := by
  have hitems : (reader [.aria]).items t = ((reader [.aria]).readings none t).map Found.item :=
    (map_item_readings none t).symm
  rw [ariaAttributes, hitems, List.map_map]
  rfl

/-- **When the walk over the family comes by an attribute**: when the attribute can be read by its
name at some place, with the very letters of its lower case form, that is not inside of an attribute
of the family that the walk reads. -/
theorem mem_names_ariaAttributes_iff {name t : Text} (hname : NameForm.aria.Names name) :
    name ∈ (ariaAttributes t).map Attribute.name ↔
      ∃ f, (reader [.exactly name]).ReadsAt none t f ∧ Text.lower f.item.name = name ∧
        ∀ g ∈ (reader [.aria]).readings none t, ¬ f.StartsInside t g := by
  rw [ariaAttributes_eq_map, List.map_map, List.mem_map]
  constructor
  · rintro ⟨f, hf, hlower⟩
    obtain ⟨hread, hfree⟩ := endsAt_aria.mem_readings_iff.1 hf
    refine ⟨f, ?_, hlower, hfree⟩
    subst hlower
    exact readsAt_of_names hread (names_exactly_of_lower hname (names_of_readsAt hread))
  · rintro ⟨f, hread, hlower, hfree⟩
    refine ⟨f, endsAt_aria.mem_readings_iff.2 ⟨?_, hfree⟩, hlower⟩
    exact readsAt_of_names hread (names_aria_of_exactly hname (names_of_readsAt hread))

/-! ## What the walk misses -/

/-- The text has an attribute of the name, and the walk over the family does not come by it: at each
place the name is spelled in a way of its own, or an attribute of the family has been read that ends
only behind that place. -/
structure IsOverlooked (name t : Text) : Prop where
  present : ∃ f, (reader [.exactly name]).ReadsAt none t f
  missed : ∀ f, (reader [.exactly name]).ReadsAt none t f →
    Text.lower f.item.name ≠ name ∨ ∃ g ∈ (reader [.aria]).readings none t, f.StartsInside t g

theorem isOverlooked_iff {name t : Text} (hname : NameForm.aria.Names name)
    (hlower : Text.lower name = name) :
    IsOverlooked name t ↔ has name t = true ∧ name ∉ (ariaAttributes t).map Attribute.name := by
  rw [has_iff_exists_readsAt hlower, mem_names_ariaAttributes_iff hname]
  constructor
  · rintro ⟨hpresent, hmissed⟩
    refine ⟨hpresent, ?_⟩
    rintro ⟨f, hread, hspelled, hfree⟩
    rcases hmissed f hread with hother | ⟨g, hg, hinside⟩
    · exact hother hspelled
    · exact hfree g hg hinside
  · rintro ⟨hpresent, hnot⟩
    refine ⟨hpresent, fun f hread => ?_⟩
    by_contra hcases
    obtain ⟨hspelled, hfree⟩ := not_or.1 hcases
    exact hnot ⟨f, hread, not_not.1 hspelled, fun g hg hinside => hfree ⟨g, hg, hinside⟩⟩

/-! ## When the walk misses nothing -/

/-- Stray letters aside, a name of the family is compared by its lower case form. -/
theorem lower_eq_map_fold {n : Text} (hn : ∀ c ∈ n, isAriaNameChar c = true)
    (hstray : ∀ c ∈ n, c ∉ strayLetters) : Text.lower n = n.map fold := by
  have hafter : ∀ left, Text.lowerAfter left n = n.map fold := by
    induction n with
    | nil => exact fun _ => rfl
    | cons c n ih =>
      intro left
      have hc := hstray c List.mem_cons_self
      rcases lowerAt_of_isAriaNameChar (hn c List.mem_cons_self) left n with
        ⟨hmem, -⟩ | ⟨d, heq, -, hfold⟩
      · exact absurd hmem hc
      · rw [Text.lowerAfter, heq, hfold hc, ih (fun d hd => hn d (List.mem_cons_of_mem c hd))
          fun d hd => hstray d (List.mem_cons_of_mem c hd)]
        rfl
  exact hafter []

theorem not_isSettled_append (x : Text) {b : Text} (hb : Text.IsBlankText b) :
    ¬ IsSettled (x ++ '=' :: b) := by
  have hrev : (x ++ '=' :: b).reverse = b.reverse ++ '=' :: x.reverse := by simp
  have htrim := Text.trimLeft_append_cons (t := x.reverse) (c := '=') (isBlankText_reverse hb)
    (by decide)
  rw [Text.trimLeft] at htrim
  rw [IsSettled, Text.trimRight, hrev, htrim, List.getLast?_reverse]
  exact not_not.2 rfl

/-- Nothing starts between a name and the value that belongs to it. -/
theorem exists_behind_quote {m c c' z u v : Text} {r : Char}
    (hm : ∀ d ∈ m, isAriaNameChar d = true) (hc : Text.IsBlankText c) (hc' : Text.IsBlankText c')
    (hr : isQuote r = true) (hz : z ≠ []) {before : Option Char}
    (hstart : canStartAfter (beforeAt before z) = true) (hu : ∀ d ∈ u.head?, isNamePart d = true)
    (h : m ++ (c ++ '=' :: (c' ++ r :: v)) = z ++ u) : ∃ x, v = x ++ u := by
  rcases List.append_eq_append_iff.1 h with ⟨a, rfl, ha⟩ | ⟨a, rfl, -⟩
  · have hsign : ∀ d ∈ c ++ '=' :: (c' ++ [r]), isNamePart d = false := by
      simp only [List.mem_append, List.mem_cons, List.mem_nil_iff, or_false]
      rintro d (hd | rfl | hd | rfl)
      · exact isNamePart_of_isBlank (hc d hd)
      · decide
      · exact isNamePart_of_isBlank (hc' d hd)
      · exact isNamePart_of_isQuote hr
    have ha' : (c ++ '=' :: (c' ++ [r])) ++ v = a ++ u := by simpa using ha
    rcases List.append_eq_append_iff.1 ha' with ⟨x, -, hx⟩ | ⟨x, hx, rfl⟩
    · exact ⟨x, hx⟩
    · cases x with
      | nil => exact ⟨[], rfl⟩
      | cons d x =>
        have hpart := hu d rfl
        rw [hsign d (by simp [hx])] at hpart
        exact absurd hpart Bool.noConfusion
  · obtain ⟨i, l, rfl⟩ := (List.eq_nil_or_concat z).resolve_left hz
    rw [List.concat_eq_append, beforeAt_concat] at hstart
    have hgoes := continuesName_of_isAriaNameChar (hm l (by simp))
    rw [canStartAfter, Option.any_some, hgoes] at hstart
    exact absurd hstart Bool.noConfusion

/-- **An attribute inside of another one** stands at the end of its value: the quote that opens the
inner value has been taken for the one that closes the outer value. -/
theorem not_isSettled_of_startsInside {t : Text} {f g : Found Attribute}
    (hf : (reader [.aria]).ReadsAt none t f) (hg : (reader [.aria]).ReadsAt none t g)
    (hinside : f.StartsInside t g) : ¬ IsSettled g.item.value := by
  have hproper : NameForm.aria.IsProper := trivial
  have hname : IsNameText f.item.name := NameForm.isNameText_of_names hproper (names_of_readsAt hf)
  have hchars := isAriaNameChar_of_names (names_of_readsAt hg)
  obtain ⟨u, hsplit, hu⟩ := hf
  obtain ⟨w, hsplit', hw⟩ := hg
  obtain ⟨hstart, -, b, b', p, q, hinner, hb, hb', hp, -, -⟩ := exists_of_read? hu
  obtain ⟨-, -, c, c', r, s, houter, hc, hc', hr, hs, hvalue⟩ := exists_of_read? hw
  obtain ⟨hbehind, hwithin⟩ := hinside
  simp only [Found.span] at hbehind hwithin
  obtain ⟨z, hz, hbefore, rfl⟩ : ∃ z, z ≠ [] ∧ f.before = g.before ++ z ∧ w = z ++ u := by
    rcases List.append_eq_append_iff.1 (hsplit.symm.trans hsplit') with ⟨z, hz, -⟩ | ⟨z, hz, hw⟩
    · rw [hz, List.length_append] at hbehind
      omega
    · refine ⟨z, ?_, hz, hw⟩
      rintro rfl
      rw [hz, List.append_nil] at hbehind
      exact absurd hbehind (lt_irrefl _)
  rw [hbefore, beforeAt_append] at hstart
  have hhead : ∀ d ∈ u.head?, isNamePart d = true := by
    obtain ⟨d, n, hn⟩ := List.exists_cons_of_ne_nil hname.1
    rw [hinner, hn]
    rintro e he
    obtain rfl : d = e := by simpa using he
    exact hname.2 d (by simp [hn])
  obtain ⟨x, hx⟩ := exists_behind_quote hchars hc hc' hr hz hstart hhead houter.symm
  rcases List.append_eq_append_iff.1 hx with ⟨k, -, hrest⟩ | ⟨k, hk, hrest⟩
  · -- behind the outer value it would not be inside
    cases k with
    | nil =>
      have hpart := hhead s (by rw [← List.nil_append u, ← hrest]; rfl)
      rw [isNamePart_of_isQuote hs] at hpart
      exact absurd hpart Bool.noConfusion
    | cons e k =>
      have hlength := congrArg List.length hrest
      rw [List.length_append, List.length_cons, List.length_cons] at hlength
      rw [hsplit, List.length_append] at hwithin
      omega
  · have hquote : k ++ s :: g.after =
        (f.item.name ++ (b ++ '=' :: b')) ++ p :: (f.item.value ++ q :: f.after) := by
      rw [← hrest, hinner]
      simp
    have hunquoted : IsUnquoted (f.item.name ++ (b ++ '=' :: b')) := by
      intro d hd
      simp only [List.mem_append, List.mem_cons] at hd
      rcases hd with hd | hd | rfl | hd
      · exact isUnquoted_of_isNameText hname d hd
      · exact isQuote_of_isBlank (hb d hd)
      · decide
      · exact isQuote_of_isBlank (hb' d hd)
    have hk' : IsUnquoted k := fun d hd => hvalue d (by rw [hk]; exact List.mem_append_right _ hd)
    obtain ⟨rfl, -⟩ := eq_of_split hk' hs hunquoted hp hquote
    rw [hk, ← List.append_assoc, ← List.append_assoc]
    exact not_isSettled_append _ hb'

/-- **The walk misses nothing** in a text without stray letters when no value of the family ends with
an equals sign. -/
theorem not_isOverlooked {name t : Text} (hname : NameForm.aria.Names name)
    (hlower : Text.lower name = name) (hplain : ∀ c ∈ name, c ∉ strayLetters)
    (hstray : ∀ c ∈ t, c ∉ strayLetters) (hsettled : ∀ a ∈ ariaAttributes t, IsSettled a.value) :
    ¬ IsOverlooked name t := by
  rintro ⟨⟨f, hread⟩, hmissed⟩
  have hlike := names_of_readsAt hread
  have hfamily := readsAt_of_names hread (names_aria_of_exactly hname hlike)
  rcases hmissed f hread with hother | ⟨g, hg, hinside⟩
  · have hchars : ∀ c ∈ f.item.name, c ∈ t := by
      obtain ⟨u, rfl, hu⟩ := hread
      obtain ⟨-, -, b, b', p, q, rfl, -⟩ := exists_of_read? hu
      exact fun c hc => by simp [hc]
    refine hother ?_
    calc Text.lower f.item.name
        = f.item.name.map fold := lower_eq_map_fold
          (isAriaNameChar_of_names (names_of_readsAt hfamily)) fun c hc => hstray c (hchars c hc)
      _ = name.map fold := (map_fold_eq hlike).symm
      _ = Text.lower name := (lower_eq_map_fold (isAriaNameChar_of_names hname) hplain).symm
      _ = name := hlower
  · have hmem : { g.item with name := Text.lower g.item.name } ∈ ariaAttributes t := by
      rw [ariaAttributes_eq_map]
      exact List.mem_map_of_mem hg
    have hvalue := hsettled _ hmem
    exact not_isSettled_of_startsInside hfamily (endsAt_aria.readsAt_of_mem hg) hinside hvalue

end Attribute
end AriaLint
