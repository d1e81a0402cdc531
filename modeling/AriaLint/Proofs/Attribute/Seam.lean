import AriaLint.Proofs.Attribute.Forms
import AriaLint.Proofs.Text.Seam

/-!
# Where attribute text may be cut

Attributes are read anywhere in a text, so attribute text cannot be cut just anywhere without
changing what is read.  Two things can go wrong at a seam.  A value may be open there, so that it
goes on behind the seam (`endsOpen`).  Or a name may stand before the seam and its equals sign or
its quote behind it.  The latter is impossible when a quote or a slash stands before the seam
(`endsApart`), and when a blank or a slash stands behind it and no sign or quote after that
(`opensAnew`).  Nothing else can happen (`isSeam`).

An attribute that is written out has seams on both sides, and nothing but this attribute is read
from it (`eq_of_read?_spelled`).
-/

namespace AriaLint
namespace Attribute

/-! ## Open values -/

/-- The last quote of the text stands behind an equals sign, as if it opened a value. -/
def endsOpen (t : Text) : Bool :=
  match t.reverse.dropWhile (!isQuote ·) with
  | [] => false
  | _ :: r => (Text.trimLeft r).head? == some '='

theorem isBlankText_reverse {b : Text} (h : Text.IsBlankText b) : Text.IsBlankText b.reverse :=
  fun c hc => h c (List.mem_reverse.1 hc)

theorem endsOpen_iff {t : Text} :
    endsOpen t = true ↔ ∃ h b q v, t = h ++ '=' :: (b ++ q :: v) ∧ Text.IsBlankText b ∧
      isQuote q = true ∧ IsUnquoted v := by
  constructor
  · intro hopen
    obtain ⟨v, hv, hsplit⟩ : ∃ v : Text, IsUnquoted v ∧
        v ++ t.reverse.dropWhile (!isQuote ·) = t.reverse :=
      ⟨t.reverse.takeWhile (!isQuote ·), fun c hc => by simpa using List.mem_takeWhile_imp hc,
        List.takeWhile_append_dropWhile⟩
    unfold endsOpen at hopen
    split at hopen
    · exact absurd hopen (by simp)
    · next q r hr =>
      have hq : isQuote q = true := by
        have hhead := List.head?_dropWhile_not (!isQuote ·) t.reverse
        rw [hr] at hhead
        simpa using hhead
      cases htrim : Text.trimLeft r with
      | nil => rw [htrim] at hopen; exact absurd hopen (by simp)
      | cons c h =>
        rw [htrim] at hopen
        obtain rfl : c = '=' := by simpa using hopen
        obtain ⟨b, rfl, hb, -⟩ := Text.trimLeft_eq_cons_iff.1 htrim
        refine ⟨h.reverse, b.reverse, q, v.reverse, ?_, isBlankText_reverse hb, hq,
          fun c hc => hv c (List.mem_reverse.1 hc)⟩
        rw [hr] at hsplit
        have ht := congrArg List.reverse hsplit
        rw [List.reverse_reverse] at ht
        rw [← ht]
        simp
  · rintro ⟨h, b, q, v, rfl, hb, hq, hv⟩
    have hpos : ∀ c ∈ v.reverse, (!isQuote c) = true := fun c hc => by
      simp [hv c (List.mem_reverse.1 hc)]
    have hrev : (h ++ '=' :: (b ++ q :: v)).reverse =
        v.reverse ++ q :: (b.reverse ++ '=' :: h.reverse) := by simp
    have hdrop : (h ++ '=' :: (b ++ q :: v)).reverse.dropWhile (!isQuote ·) =
        q :: (b.reverse ++ '=' :: h.reverse) := by
      rw [hrev, List.dropWhile_append_of_pos hpos, List.dropWhile_cons_of_neg (by simp [hq])]
    unfold endsOpen
    rw [hdrop]
    show ((Text.trimLeft (b.reverse ++ '=' :: h.reverse)).head? == some '=') = true
    rw [Text.trimLeft_append_cons (isBlankText_reverse hb) (by decide)]
    rfl

/-- A text that holds no quote opens and closes nothing. -/
theorem endsOpen_append_of_isUnquoted (x : Text) {y : Text} (hy : IsUnquoted y) :
    endsOpen (x ++ y) = endsOpen x := by
  have hpos : ∀ c ∈ y.reverse, (!isQuote c) = true := fun c hc => by
    simp [hy c (List.mem_reverse.1 hc)]
  unfold endsOpen
  rw [List.reverse_append, List.dropWhile_append_of_pos hpos]

/-- What stands further ahead does not close a value. -/
theorem endsOpen_append_left (a : Text) {b : Text} (h : endsOpen b = true) :
    endsOpen (a ++ b) = true := by
  obtain ⟨c, b', q, v, rfl, hb', hq, hv⟩ := endsOpen_iff.1 h
  exact endsOpen_iff.2 ⟨a ++ c, b', q, v, by simp, hb', hq, hv⟩

/-- Nor does it open one, unless it holds an equals sign. -/
theorem endsOpen_of_append {a b : Text} (ha : '=' ∉ a) (h : endsOpen (a ++ b) = true) :
    endsOpen b = true := by
  obtain ⟨c, b', q, v, hsplit, hb', hq, hv⟩ := endsOpen_iff.1 h
  rcases List.append_eq_append_iff.1 hsplit with ⟨z, -, hz⟩ | ⟨z, rfl, hz⟩
  · exact endsOpen_iff.2 ⟨z, b', q, v, hz, hb', hq, hv⟩
  · cases z with
    | nil => exact endsOpen_iff.2 ⟨[], b', q, v, hz.symm, hb', hq, hv⟩
    | cons d z =>
      obtain ⟨rfl, -⟩ := List.cons.inj hz
      exact absurd (by simp) ha

/-! ## Seams -/

/-- A quote or a slash stands at the end. -/
def endsApart (x : Text) : Bool := x.getLast?.any fun c => isQuote c || c == '/'

/-- A blank or a slash stands at the head, or nothing, and neither a sign nor a quote follows the
blanks. -/
def opensAnew (z : Text) : Bool :=
  z.head?.all (fun c => isBlank c || c == '/') &&
    (Text.trimLeft z).head?.all fun c => c != '=' && !isQuote c

theorem endsApart_append {a b : Text} (hb : b ≠ []) : endsApart (a ++ b) = endsApart b := by
  rw [endsApart, List.getLast?_append_of_ne_nil _ hb]
  rfl

/-- No name starts at the head of a text that opens anew. -/
theorem isNamePart_of_opensAnew {c : Char} {z : Text} (h : opensAnew (c :: z) = true) :
    isNamePart c = false := by
  rcases Bool.or_eq_true_iff.1 (Bool.and_eq_true_iff.1 h).1 with hblank | hslash
  · exact isNamePart_of_isBlank hblank
  · rw [eq_of_beq hslash]
    decide

/-- Behind a blank within a name with its sign, the sign or the value comes next. -/
theorem exists_head?_trimLeft {n b b' x u w : Text} {c p : Char} (hn : IsNameText n)
    (hb : Text.IsBlankText b) (hb' : Text.IsBlankText b') (hp : isQuote p = true)
    (hc : isBlank c = true) (h : n ++ (b ++ '=' :: b') = x ++ c :: u) :
    ∃ d, (Text.trimLeft (c :: u ++ p :: w)).head? = some d ∧ (d = '=' ∨ isQuote d = true) := by
  have hbehind : ∃ z, b ++ '=' :: b' = z ++ c :: u := by
    rcases List.append_eq_append_iff.1 h with ⟨z, -, hz⟩ | ⟨z, rfl, hz⟩
    · exact ⟨z, hz⟩
    · cases z with
      | nil => exact ⟨[], hz.symm⟩
      | cons d z =>
        obtain ⟨rfl, -⟩ := List.cons.inj hz
        have hpart := hn.2 c (by simp)
        rw [isNamePart_of_isBlank hc] at hpart
        exact absurd hpart Bool.noConfusion
  obtain ⟨z, hz⟩ := hbehind
  have hsign : ∀ v : Text, v ++ '=' :: b' = c :: u → Text.IsBlankText v →
      ∃ d, (Text.trimLeft (c :: u ++ p :: w)).head? = some d ∧ (d = '=' ∨ isQuote d = true) := by
    intro v hv hblank
    refine ⟨'=', ?_, Or.inl rfl⟩
    rw [← hv, List.append_assoc, List.cons_append, Text.trimLeft_append_cons hblank (by decide)]
    rfl
  rcases List.append_eq_append_iff.1 hz with ⟨v, -, hv⟩ | ⟨v, rfl, hv⟩
  · cases v with
    | nil => exact hsign [] hv (by simp [Text.IsBlankText])
    | cons d v =>
      obtain ⟨rfl, hrest⟩ := List.cons.inj hv
      have hblank : Text.IsBlankText (c :: u) := fun e he => hb' e (by rw [hrest]; simp [he])
      refine ⟨p, ?_, Or.inr hp⟩
      rw [Text.trimLeft_append_cons hblank (isBlank_of_isQuote hp)]
      rfl
  · exact hsign v hv.symm fun e he => hb e (by simp [he])

/-- What stands before the value of an attribute does not end apart, and what is left of it behind
a seam does not open anew. -/
theorem apart_of_head {n b b' x u w : Text} {p : Char} (hn : IsNameText n)
    (hb : Text.IsBlankText b) (hb' : Text.IsBlankText b') (hp : isQuote p = true) (hx : x ≠ [])
    (h : n ++ (b ++ '=' :: b') = x ++ u) :
    endsApart x = false ∧ opensAnew (u ++ p :: w) = false := by
  have hchars : ∀ c ∈ x ++ u, isQuote c = false ∧ c ≠ '/' := by
    have hblank : ∀ c, isBlank c = true → isQuote c = false ∧ c ≠ '/' := by
      intro c hc
      refine ⟨isQuote_of_isBlank hc, ?_⟩
      rintro rfl
      exact absurd hc (by decide)
    intro c hc
    rw [← h, List.mem_append, List.mem_append, List.mem_cons] at hc
    rcases hc with hc | hc | rfl | hc
    · have hpart := hn.2 c hc
      simp only [isNamePart, Bool.not_eq_true', Bool.or_eq_false_iff, beq_eq_false_iff_ne] at hpart
      exact ⟨hpart.1.1.2, hpart.2⟩
    · exact hblank c (hb c hc)
    · decide
    · exact hblank c (hb' c hc)
  constructor
  · rcases List.eq_nil_or_concat x with rfl | ⟨l, c, rfl⟩
    · exact absurd rfl hx
    · obtain ⟨hquote, hslash⟩ := hchars c (by simp)
      simp [endsApart, hquote, hslash]
  · cases u with
    | nil =>
      have hslash : p ≠ '/' := by
        rintro rfl
        exact absurd hp (by decide)
      simp [opensAnew, isBlank_of_isQuote hp, hslash]
    | cons c u =>
      obtain ⟨-, hslash⟩ := hchars c (by simp)
      cases hc : isBlank c with
      | false => simp [opensAnew, hc, hslash]
      | true =>
        have hhead : ∃ d, (Text.trimLeft (c :: u ++ p :: w)).head? = some d ∧
            (d = '=' ∨ isQuote d = true) :=
          exists_head?_trimLeft hn hb hb' hp hc h
        obtain ⟨d, hd, hsign⟩ := hhead
        simp only [opensAnew, hd]
        rcases hsign with rfl | hquote
        · simp
        · simp [hquote]

section Seams

variable {forms : List NameForm} (hforms : ∀ form ∈ forms, form.IsProper)

include hforms in
/-- **Where attribute text may be cut.** -/
theorem isSeam {before : Option Char} {x z : Text} (hopen : endsOpen x = false)
    (h : endsApart x = true ∨ opensAnew z = true) : (reader forms).IsSeam before x z := by
  intro a b hx hb
  have hends := endsAt_reader hforms
  cases hread : (reader forms).read? (Reader.beforeAt before a) b with
  | some r =>
    obtain ⟨c, rest⟩ := r
    obtain ⟨k, d, rfl, -, -, hlocal⟩ := hends.reading hread
    rw [List.append_assoc]
    exact hlocal _
  | none =>
    rw [Option.map_none, Option.eq_none_iff_forall_ne_some]
    rintro ⟨c, rest⟩ hread'
    obtain ⟨k, d, hkd, -, -, hlocal⟩ := hends.reading hread'
    obtain ⟨-, ⟨form, hform, hnames⟩, bl, bl', p, q, hsplit, hbl, hbl', hp, hq, hvalue⟩ :=
      exists_of_read? hread'
    have hname := NameForm.isNameText_of_names (hforms form hform) hnames
    -- all but the closing quote of the attribute
    have hk : k = c.name ++ (bl ++ '=' :: bl') ++ p :: c.value := by
      have hsame : (k ++ [d]) ++ rest =
          (c.name ++ (bl ++ '=' :: bl') ++ p :: c.value ++ [q]) ++ rest := by
        have hleft : (k ++ [d]) ++ rest = b ++ z := by rw [hkd]; simp
        rw [hleft, hsplit]
        simp
      exact (List.append_inj' (List.append_cancel_right hsame) rfl).1
    have hbefore : ∃ k', k = b ++ k' ∧ z = k' ++ d :: rest := by
      rcases List.append_eq_append_iff.1 hkd with ⟨u, hu, hz⟩ | ⟨u, rfl, hz⟩
      · exact ⟨u, hu, hz⟩
      · cases u with
        | nil => exact ⟨[], by simp, hz.symm⟩
        | cons e u =>
          obtain ⟨rfl, -⟩ := List.cons.inj hz
          rw [hlocal u] at hread
          exact absurd hread (by simp)
    obtain ⟨k', hbk, hz⟩ := hbefore
    rw [hbk] at hk
    have hbeforeValue : ∀ u, c.name ++ (bl ++ '=' :: bl') = b ++ u → k' = u ++ p :: c.value →
        False := by
      rintro u hu rfl
      obtain ⟨hapart, hanew⟩ :=
        apart_of_head (w := c.value ++ d :: rest) hname hbl hbl' hp hb hu
      rcases h with h | h
      · rw [hx, endsApart_append hb, hapart] at h
        exact Bool.noConfusion h
      · rw [hz, List.append_assoc, List.cons_append, hanew] at h
        exact Bool.noConfusion h
    rcases List.append_eq_append_iff.1 hk with ⟨u, hu, hk'⟩ | ⟨u, hu, hk'⟩
    · exact hbeforeValue u hu hk'
    · cases u with
      | nil => exact hbeforeValue [] (by rw [hu]; simp) hk'.symm
      | cons e u =>
        -- the value is open at the seam
        obtain ⟨rfl, hvalue'⟩ := List.cons.inj hk'
        have hu' : b = (c.name ++ bl) ++ '=' :: (bl' ++ p :: u) := by rw [hu]; simp
        have hbopen : endsOpen b = true :=
          endsOpen_iff.2 ⟨_, bl', p, u, hu', hbl', hp, fun e he => hvalue e (by
            rw [hvalue']; exact List.mem_append_left _ he)⟩
        rw [hx, endsOpen_append_left a hbopen] at hopen
        exact Bool.noConfusion hopen

end Seams

/-! ## An attribute that is written out -/

/-- The text is the attribute, from its name to its closing quote. -/
def IsSpelledBy (a : Attribute) (r : Text) : Prop :=
  ∃ k q, r = a.name ++ (k ++ [q]) ∧ isQuote q = true ∧ IsAssignment a.value k

/-- Where the first character of a kind stands is settled by the text alone. -/
theorem eq_of_split {P : Char → Bool} {a b c d : Text} {p q : Char} (ha : ∀ x ∈ a, P x = false)
    (hp : P p = true) (hc : ∀ x ∈ c, P x = false) (hq : P q = true)
    (h : a ++ p :: b = c ++ q :: d) : a = c ∧ b = d := by
  have htake : ∀ {a b : Text} {p : Char}, (∀ x ∈ a, P x = false) → P p = true →
      (a ++ p :: b).takeWhile (!P ·) = a := by
    intro a b p ha hp
    rw [List.takeWhile_append_of_pos fun x hx => by simp [ha x hx],
      List.takeWhile_cons_of_neg (by simp [hp]), List.append_nil]
  have hac : a = c := by rw [← htake (b := b) ha hp, h, htake hc hq]
  subst hac
  exact ⟨rfl, (List.cons.inj (List.append_cancel_left h)).2⟩

/-- Where the last one stands is, too. -/
theorem eq_of_split_last {P : Char → Bool} {a b c d : Text} {p q : Char}
    (hb : ∀ x ∈ b, P x = false) (hp : P p = true) (hd : ∀ x ∈ d, P x = false) (hq : P q = true)
    (h : a ++ p :: b = c ++ q :: d) : a ++ [p] = c ++ [q] ∧ b = d := by
  have hrev : b.reverse ++ p :: a.reverse = d.reverse ++ q :: c.reverse := by
    simpa using congrArg List.reverse h
  obtain ⟨hbd, -⟩ := eq_of_split (fun x hx => hb x (List.mem_reverse.1 hx)) hp
    (fun x hx => hd x (List.mem_reverse.1 hx)) hq hrev
  obtain rfl := List.reverse_injective hbd
  refine ⟨?_, rfl⟩
  have hsame : (a ++ [p]) ++ b = (c ++ [q]) ++ b := by simpa using h
  exact List.append_cancel_right hsame

/-- Where the only one stands is, too. -/
theorem eq_of_split_only {P : Char → Bool} {a b c d : Text} {p q : Char} (ha : ∀ x ∈ a, P x = false)
    (hp : P p = true) (hb : ∀ x ∈ b, P x = false) (hq : P q = true)
    (h : a ++ p :: b = c ++ q :: d) : a = c ∧ b = d := by
  have hzero : ∀ {t : Text}, (∀ x ∈ t, P x = false) → t.countP P = 0 := fun ht =>
    List.countP_eq_zero.2 fun x hx => by simp [ht x hx]
  have hcount := congrArg (List.countP P) h
  rw [List.countP_append, List.countP_append, List.countP_cons, List.countP_cons, if_pos hp,
    if_pos hq, hzero ha, hzero hb] at hcount
  refine eq_of_split ha hp (fun x hx => ?_) hq h
  have hc : c.countP P = 0 := by omega
  simpa using List.countP_eq_zero.1 hc x hx

section Spelled

variable {forms : List NameForm} (hforms : ∀ form ∈ forms, form.IsProper)

/-- Names with blanks behind them. -/
theorem eq_of_append_blanks {a n b c m b' : Text} (hn : IsNameText n) (hb : Text.IsBlankText b)
    (hm : IsNameText m) (hb' : Text.IsBlankText b') (h : a ++ (n ++ b) = c ++ (m ++ b')) :
    a ++ n = c ++ m := by
  have hlast : ∀ {n : Text}, IsNameText n → ∃ i l, n = i ++ [l] ∧ isBlank l = false := by
    intro n hn
    rcases List.eq_nil_or_concat n with rfl | ⟨i, l, rfl⟩
    · exact absurd rfl hn.1
    · refine ⟨i, l, by simp, ?_⟩
      cases hl : isBlank l with
      | false => rfl
      | true =>
        have hpart := hn.2 l (by simp)
        rw [isNamePart_of_isBlank hl] at hpart
        exact absurd hpart Bool.noConfusion
  obtain ⟨i, l, rfl, hl⟩ := hlast hn
  obtain ⟨j, l', rfl, hl'⟩ := hlast hm
  have hsplit : (a ++ i) ++ l :: b = (c ++ j) ++ l' :: b' := by simpa using h
  have hsame := eq_of_split_last (P := (!isBlank ·)) (fun x hx => by simp [hb x hx]) (by simp [hl])
    (fun x hx => by simp [hb' x hx]) (by simp [hl']) hsplit
  simpa using hsame.1

/-- A name that ends where a word behind blanks ends is that word, unless it starts inside. -/
theorem eq_of_append_name {a n w m : Text} (hn : IsNameText n) (hw : Text.IsBlankText w)
    (hgoes : ∀ c ∈ m, continuesName c = true) {before : Option Char}
    (hstart : canStartAfter (Reader.beforeAt before a) = true) (h : a ++ n = w ++ m) : n = m := by
  rcases List.append_eq_append_iff.1 h with ⟨z, rfl, hz⟩ | ⟨z, rfl, hz⟩
  · cases z with
    | nil => exact hz
    | cons l z =>
      have hpart := hn.2 l (by rw [hz]; simp)
      rw [isNamePart_of_isBlank (hw l (by simp))] at hpart
      exact absurd hpart Bool.noConfusion
  · rcases List.eq_nil_or_concat z with rfl | ⟨z, l, rfl⟩
    · exact hz.symm
    · have hl : continuesName l = true := hgoes l (by rw [hz]; simp)
      rw [List.concat_eq_append, ← List.append_assoc, Reader.beforeAt_concat] at hstart
      simp [canStartAfter, hl] at hstart

include hforms in
/-- **Nothing but the attribute is read** from an attribute that is written out behind blanks, and
it is read behind these blanks. -/
theorem eq_of_read?_spelled {w r : Text} {m : Attribute} (hw : Text.IsBlankText w)
    (hm : IsNameText m.name) (hgoes : ∀ c ∈ m.name, continuesName c = true)
    (hr : m.IsSpelledBy r) {before : Option Char} {a d rest : Text} {c : Attribute}
    (hsplit : w ++ r = a ++ d)
    (hread : (reader forms).read? (Reader.beforeAt before a) d = some (c, rest)) :
    c = m ∧ a = w ∧ rest = [] := by
  obtain ⟨hstart, ⟨form, hform, hnames⟩, b, b', p, q, rfl, hb, hb', hp, hq, hvalue⟩ :=
    exists_of_read? hread
  obtain ⟨k, q', rfl, hq', e, e', p', rfl, he, he', hp', hvalue'⟩ := hr
  have hname := NameForm.isNameText_of_names (hforms form hform) hnames
  have hquotes : (a ++ (c.name ++ (b ++ '=' :: b'))) ++ p :: (c.value ++ q :: rest) =
      (w ++ (m.name ++ (e ++ '=' :: e'))) ++ p' :: (m.value ++ q' :: []) := by
    simpa using hsplit.symm
  have hright : IsUnquoted (w ++ (m.name ++ (e ++ '=' :: e'))) := by
    intro x hx
    simp only [List.mem_append, List.mem_cons] at hx
    rcases hx with hx | hx | hx | rfl | hx
    · exact isQuote_of_isBlank (hw x hx)
    · exact isUnquoted_of_isNameText hm x hx
    · exact isQuote_of_isBlank (he x hx)
    · decide
    · exact isQuote_of_isBlank (he' x hx)
  -- the two quotes of the reading are all the quotes that there are
  have hleft : IsUnquoted (a ++ (c.name ++ (b ++ '=' :: b'))) := by
    have htwo : ∀ {u v w : Text} {p q : Char}, isQuote p = true → isQuote q = true →
        IsUnquoted v → (u ++ p :: (v ++ q :: w)).countP isQuote =
          u.countP isQuote + w.countP isQuote + 2 := by
      intro u v w p q hp hq hv
      rw [List.countP_append, List.countP_cons, List.countP_append, List.countP_cons,
        hv.countP_eq_zero, if_pos hp, if_pos hq]
      omega
    have hcount := congrArg (List.countP isQuote) hquotes
    rw [htwo hp hq hvalue, htwo hp' hq' hvalue', hright.countP_eq_zero, List.countP_nil] at hcount
    intro x hx
    have hzero : (a ++ (c.name ++ (b ++ '=' :: b'))).countP isQuote = 0 := by omega
    simpa using List.countP_eq_zero.1 hzero x hx
  obtain ⟨hhead, htail⟩ := eq_of_split hleft hp hright hp' hquotes
  obtain ⟨hvalues, hrest⟩ := eq_of_split hvalue hq hvalue' hq' htail
  have hsigns : (a ++ (c.name ++ b)) ++ '=' :: b' = (w ++ (m.name ++ e)) ++ '=' :: e' := by
    simpa using hhead
  have hequals : ∀ {b : Text}, Text.IsBlankText b → ∀ x ∈ b, (x == '=') = false := by
    intro b hb x hx
    rw [beq_eq_false_iff_ne]
    rintro rfl
    exact absurd (hb '=' hx) (by decide)
  obtain ⟨hnames', -⟩ :=
    eq_of_split_last (P := (· == '=')) (hequals hb') rfl (hequals he') rfl hsigns
  have hboth : a ++ c.name = w ++ m.name :=
    eq_of_append_blanks hname hb hm he (List.append_cancel_right hnames')
  have hsame : c.name = m.name := eq_of_append_name hname hw hgoes hstart hboth
  obtain ⟨cname, cvalue⟩ := c
  obtain rfl : cname = m.name := hsame
  obtain rfl : cvalue = m.value := hvalues
  exact ⟨rfl, List.append_cancel_right hboth, hrest⟩

/-- The value does not end with an equals sign, blanks aside. -/
def IsSettled (v : Text) : Prop := (Text.trimRight v).getLast? ≠ some '='

instance (v : Text) : Decidable (IsSettled v) := inferInstanceAs (Decidable (_ ≠ _))

theorem isSettled_of_not_mem {v : Text} (h : '=' ∉ v) : IsSettled v := by
  intro hlast
  refine h ?_
  rw [← Text.trimRight_append_trailingBlanks v]
  exact List.mem_append_left _ (List.mem_of_getLast? hlast)

/-- The closing quote of an attribute whose value is settled closes this value. -/
theorem endsOpen_spelled {w r : Text} {m : Attribute} (hr : m.IsSpelledBy r)
    (hvalue : IsSettled m.value) : endsOpen (w ++ r) = false := by
  obtain ⟨k, q, rfl, hq, b, b', p, rfl, -, -, hp, -⟩ := hr
  have hrev : (w ++ (m.name ++ (b ++ '=' :: (b' ++ p :: m.value) ++ [q]))).reverse =
      q :: (m.value.reverse ++ p :: (w ++ (m.name ++ (b ++ '=' :: b'))).reverse) := by simp
  unfold endsOpen
  rw [hrev, List.dropWhile_cons_of_neg (by simp [hq])]
  dsimp only
  rw [Text.trimLeft, List.dropWhile_append]
  split
  · -- a blank value: its opening quote comes next
    rw [List.dropWhile_cons_of_neg (by simp [isBlank_of_isQuote hp])]
    rcases eq_of_isQuote hp with rfl | rfl
    · rfl
    · rfl
  · next hfilled =>
    obtain ⟨c, u, hu⟩ := List.exists_cons_of_ne_nil (mt List.isEmpty_iff.2 hfilled)
    rw [IsSettled, Text.trimRight, List.getLast?_reverse, hu] at hvalue
    rw [hu]
    simpa using hvalue

theorem endsApart_spelled {r : Text} {m : Attribute} (hr : m.IsSpelledBy r) :
    endsApart r = true := by
  obtain ⟨k, q, rfl, hq, -⟩ := hr
  rw [← List.append_assoc, endsApart, List.getLast?_concat]
  simp [hq]

section First

variable (keep : Attribute → Bool)

/-- Behind a quote or a slash a name can start, as at the head of a text. -/
theorem canStartAfter_of_endsApart {x : Text} (h : endsApart x = true) (before : Option Char) :
    canStartAfter (Reader.beforeAt before x) = true := by
  rcases List.eq_nil_or_concat x with rfl | ⟨i, l, rfl⟩
  · exact absurd h (by simp [endsApart])
  · rw [List.concat_eq_append] at h ⊢
    rw [Reader.beforeAt_concat]
    rw [endsApart, List.getLast?_concat, Option.any_some, Bool.or_eq_true, beq_iff_eq] at h
    rcases h with hquote | rfl
    · rcases eq_of_isQuote hquote with rfl | rfl
      · decide
      · decide
    · decide

/-- Of what stands before a text it only counts whether a name can start there. -/
theorem itemsAfter_congr {before before' : Option Char}
    (h : canStartAfter before = canStartAfter before') (t : Text) :
    ((reader forms).filter keep).itemsAfter before t =
      ((reader forms).filter keep).itemsAfter before' t := by
  refine congrArg _ (Reader.pieces_congr ?_)
  show ((reader forms).read? before t).filter _ = ((reader forms).read? before' t).filter _
  rw [reader_read?, h]
  rfl

include hforms in
/-- Nothing is read at the head of a text that opens anew. -/
theorem itemsAfter_of_opensAnew {z : Text} (h : opensAnew z = true) (before before' : Option Char) :
    ((reader forms).filter keep).itemsAfter before z =
      ((reader forms).filter keep).itemsAfter before' z := by
  cases z with
  | nil => rw [Reader.itemsAfter, Reader.itemsAfter, Reader.pieces_nil, Reader.pieces_nil]
  | cons c z =>
    have hc := isNamePart_of_opensAnew h
    refine congrArg _ (Reader.pieces_congr ?_)
    show ((reader forms).read? before (c :: z)).filter _ =
      ((reader forms).read? before' (c :: z)).filter _
    rw [read?_eq_none_of_not_isNamePart hforms hc, read?_eq_none_of_not_isNamePart hforms hc]

include hforms in
/-- Behind an attribute that is written out the text goes on as if it started there. -/
theorem itemsAfter_append_spelled {w r : Text} {m : Attribute} (hr : m.IsSpelledBy r)
    (hvalue : IsSettled m.value) (before : Option Char) (z : Text) :
    ((reader forms).filter keep).itemsAfter before (w ++ (r ++ z)) =
      ((reader forms).filter keep).itemsAfter before (w ++ r) ++
        ((reader forms).filter keep).itemsAfter none z := by
  have hne : r ≠ [] := by
    rintro rfl
    simpa [endsApart] using endsApart_spelled hr
  have happart : endsApart (w ++ r) = true := by
    rw [endsApart_append hne]
    exact endsApart_spelled hr
  have hseam : ((reader forms).filter keep).IsSeam before (w ++ r) z :=
    (isSeam hforms (endsOpen_spelled hr hvalue) (Or.inl happart)).filter keep
  rw [← List.append_assoc, hseam.itemsAfter_append ((endsAt_reader hforms).filter keep)]
  exact congrArg _ (itemsAfter_congr keep (canStartAfter_of_endsApart happart before) z)

include hforms in
/-- What is read from an attribute that is written out is this attribute. -/
theorem eq_of_mem_itemsAfter_spelled {w r : Text} {m c : Attribute} (hw : Text.IsBlankText w)
    (hm : IsNameText m.name) (hgoes : ∀ c ∈ m.name, continuesName c = true)
    (hr : m.IsSpelledBy r) {before : Option Char}
    (h : c ∈ ((reader forms).filter keep).itemsAfter before (w ++ r)) :
    c = m ∧ (∃ form ∈ forms, form.Names m.name) ∧ keep m = true := by
  obtain ⟨a, d, hsplit, -, rest, hread⟩ :=
    ((endsAt_reader hforms).filter keep).exists_read?_of_mem_itemsAfter h
  obtain ⟨hread', hkeep⟩ := Option.filter_eq_some_iff.1 hread
  obtain ⟨rfl, -⟩ := eq_of_read?_spelled hforms hw hm hgoes hr hsplit hread'
  obtain ⟨-, hnames, -⟩ := exists_of_read? hread'
  exact ⟨rfl, hnames, hkeep⟩

include hforms in
/-- **An attribute of another name is passed over.** -/
theorem itemsAfter_spelled_append {w r : Text} {m : Attribute} (hw : Text.IsBlankText w)
    (hm : IsNameText m.name) (hgoes : ∀ c ∈ m.name, continuesName c = true)
    (hr : m.IsSpelledBy r) (hvalue : IsSettled m.value)
    (hother : ∀ form ∈ forms, ¬ form.Names m.name) (before : Option Char) (z : Text) :
    ((reader forms).filter keep).itemsAfter before (w ++ (r ++ z)) =
      ((reader forms).filter keep).itemsAfter none z := by
  have hnone : ((reader forms).filter keep).itemsAfter before (w ++ r) = [] := by
    refine List.eq_nil_iff_forall_not_mem.2 fun a ha => ?_
    obtain ⟨-, ⟨form, hform, hnames⟩, -⟩ :=
      eq_of_mem_itemsAfter_spelled hforms keep hw hm hgoes hr ha
    exact hother form hform hnames
  rw [itemsAfter_append_spelled hforms keep hr hvalue, hnone, List.nil_append]

include hforms in
theorem first?_spelled_append {w r : Text} {m : Attribute} (hw : Text.IsBlankText w)
    (hm : IsNameText m.name) (hgoes : ∀ c ∈ m.name, continuesName c = true)
    (hr : m.IsSpelledBy r) (hvalue : IsSettled m.value)
    (hother : ∀ form ∈ forms, ¬ form.Names m.name) (before : Option Char) (z : Text) :
    ((reader forms).filter keep).first? before (w ++ (r ++ z)) =
      ((reader forms).filter keep).first? none z := by
  rw [← Reader.head?_itemsAfter, ← Reader.head?_itemsAfter,
    itemsAfter_spelled_append hforms keep hw hm hgoes hr hvalue hother]

end First

end Spelled
end Attribute
end AriaLint
