import AriaLint.Proofs.Fix.Fixpoint
import AriaLint.Proofs.Fix.RedundantRoles

/-!
# The log is truthful

The fixes take text out and put text in.  Can what one pass puts in make up for what another one has
taken out, so that the snippet comes out as it went in although the log tells of changes?  The
values that are filled in are arbitrary, so that nothing much can be said of the text of an addition.

The answer is found by counting.  A `Tally` is a number for each text that adds up along texts.

* `hyphens`: a redundant role holds no hyphen, and neither does the role of a tablist; but each name
  that comes with a filled in value holds one.  So where the text is what it was, no value has been
  filled in.
* `merit`: quotes against, and two letters of the word `tablist` for a text.  It rises when a
  redundant role goes and when the role of a tablist comes.  So where the text is what it was and no
  value has been filled in, nothing has been done at all.

`Earns` says of a pass that a tally never falls and rises with each entry by some gain, and
`Result.Earned` carries it through a run.  The converse, that a run without entries leaves the text,
needs no counting: a pass without entries leaves the text (`IsSilent`).  Both together, with the
order of the entries, are `truthful_changes_apply`.
-/

namespace AriaLint

/-! ## Counting characters through trimming and lower case -/

namespace Text

/-- Trimming takes no character away that is no blank. -/
theorem count_trim {c : Char} (hc : isBlank c = false) (t : Text) :
    (trim t).count c = t.count c := by
  have hblanks : ∀ {b : Text}, IsBlankText b → b.count c = 0 := fun hb =>
    List.count_eq_zero.2 fun hmem => by
      rw [hb c hmem] at hc
      exact Bool.noConfusion hc
  have hright : ∀ u : Text, (trimRight u).count c = u.count c := by
    intro u
    conv => rhs; rw [← trimRight_append_trailingBlanks u]
    rw [List.count_append, hblanks (isBlankText_trailingBlanks u), Nat.add_zero]
  have hleft : (trimLeft t).count c = t.count c := by
    conv => rhs; rw [← List.takeWhile_append_dropWhile (p := isBlank) (l := t)]
    rw [List.count_append, hblanks fun d hd => List.mem_takeWhile_imp hd, Nat.zero_add]
    rfl
  rw [trim, hright, hleft]

/-- A character that is in lower case already is there as often at least afterwards. -/
theorem count_le_count_lower {c : Char} (hc : ∀ left right, lowerAt left c right = [c]) (t : Text) :
    t.count c ≤ (lower t).count c := by
  have hafter : ∀ left, t.count c ≤ (lowerAfter left t).count c := by
    induction t with
    | nil => exact fun _ => Nat.le_refl _
    | cons d t ih =>
      intro left
      rw [lowerAfter, List.count_append, List.count_cons]
      have htail := ih (d :: left)
      split
      · next heq =>
        obtain rfl := eq_of_beq heq
        rw [hc, List.count_singleton_self]
        omega
      · omega
  exact hafter []

end Text

namespace Fix

open Tag
open Attribute

/-! ## Tallies -/

/-- A number for each text that adds up along texts. -/
structure Tally where
  of : Text → Int
  append : ∀ a b, of (a ++ b) = of a + of b

namespace Tally

variable (w : Tally)

@[simp] theorem of_nil : w.of [] = 0 := by
  have h := w.append [] []
  rw [List.append_nil] at h
  omega

theorem of_cons (c : Char) (t : Text) : w.of (c :: t) = w.of [c] + w.of t := w.append [c] t

/-- A tag with an addition has the tally of both. -/
theorem of_extends {add : Text} {t u : Tag} (h : Extends add t u) :
    w.of u.source = w.of t.source + w.of add := by
  obtain ⟨hraw, x, y, hx, hu, -⟩ := h
  have ht : t.source = '<' :: t.rawName ++ x ++ (y ++ ['>']) := by simp [source, hx]
  have hu' : u.source = '<' :: t.rawName ++ x ++ add ++ (y ++ ['>']) := by
    simp [source, hraw, hu]
  rw [ht, hu', w.append, w.append _ (y ++ ['>']), w.append _ add]
  omega

/-- A tag has the tally of what is left of it and what it loses. -/
theorem of_losesRole {role : Text} {t u : Tag} {front blanks written back : Text} {a : Attribute}
    (h : LosesRole role t u front blanks written back a) :
    w.of t.source = w.of u.source + (w.of blanks + w.of written) := by
  have ht : t.source = '<' :: t.rawName ++ front ++ blanks ++ written ++ (back ++ ['>']) := by
    simp [source, h.split]
  have hu : u.source = '<' :: t.rawName ++ front ++ (back ++ ['>']) := by
    rw [h.cut]
    simp [source]
  rw [ht, hu, w.append, w.append _ written, w.append _ blanks, w.append _ (back ++ ['>'])]
  omega

end Tally

/-- The hyphens of a text. -/
def hyphens : Tally where
  of t := t.count '-'
  append a b := by simp

/-- Two letters of the word `tablist`, and the quotes against them, so weighed that the letters of no
redundant role make up for its two quotes, while those of a tablist's role do. -/
def merit : Tally where
  of t := 8 * t.count 's' + 4 * t.count 'a' - 5 * t.countP isQuote
  append a b := by
    simp only [List.count_append, List.countP_append]
    omega

/-! ## What goes and what comes -/

/-- Characters that a redundant role is counted by. -/
def countedChars : List Char := ['-', 's', 'a']

theorem counted_cases {c : Char} (hc : c ∈ countedChars) :
    isBlank c = false ∧ isQuote c = false ∧ c ≠ '=' ∧
      (∀ d ∈ ("role" : Text), sameLetter d c = false) ∧
      c ≠ 'Σ' ∧ c ≠ 'İ' ∧ lowerChar c = c := by
  revert c
  decide

/-- **A role that goes holds no more of these characters than its name does.** -/
theorem LosesRole.count_le {role : Text} {t u : Tag} {front blanks written back : Text}
    {a : Attribute} (h : LosesRole role t u front blanks written back a) {c : Char}
    (hc : c ∈ countedChars) : (blanks ++ written).count c ≤ role.count c := by
  obtain ⟨hblank, hquote, hsign, hrole, hsigma, hdot, hsmall⟩ := counted_cases hc
  have hno : ∀ {b : Text}, Text.IsBlankText b → b.count c = 0 := fun hb =>
    List.count_eq_zero.2 (Closing.not_mem_of_isBlankText hb hblank)
  have hname : a.name.count c = 0 :=
    List.count_eq_zero.2 (Closing.not_mem_of_forall₂ hrole h.named)
  have hmark : ∀ {q : Char}, isQuote q = true → q ≠ c := by
    rintro q hq rfl
    rw [hquote] at hq
    exact Bool.noConfusion hq
  obtain ⟨k, q, hwritten, hq, b, b', p, rfl, hb, hb', hp, -⟩ := h.spelled
  have hvalue : (blanks ++ written).count c = a.value.count c := by
    rw [hwritten]
    simp only [List.count_append, List.count_cons, List.count_nil, hno h.blank, hname, hno hb,
      hno hb', beq_iff_eq, if_neg (hmark hq), if_neg (hmark hp), if_neg (Ne.symm hsign)]
    omega
  rw [hvalue, h.value, ← Text.count_trim hblank a.value]
  refine Text.count_le_count_lower (fun left right => ?_) _
  rw [Text.lowerAt, if_neg hsigma, if_neg hdot, hsmall]

/-- A role that goes takes two quotes with it. -/
theorem LosesRole.countP_isQuote {role : Text} {t u : Tag} {front blanks written back : Text}
    {a : Attribute} (h : LosesRole role t u front blanks written back a) :
    (blanks ++ written).countP isQuote = 2 := by
  obtain ⟨k, q, hwritten, hq, hk⟩ := h.spelled
  have hname : IsUnquoted a.name := isUnquoted_of_sameLetter (by decide) h.named
  rw [hwritten, List.countP_append, List.countP_append, List.countP_append,
    (isUnquoted_of_isBlankText h.blank).countP_eq_zero, hname.countP_eq_zero, hk.countP_isQuote,
    List.countP_singleton, hq]
  rfl

/-- What a tag loses with a redundant role. -/
theorem exists_losesRole_of_edit {t : Tag} {e : Edit} (h : removeRedundantRole? t = some e) :
    ∃ role ∈ Role.implicitRoles, ∃ front blanks written back a,
      LosesRole role t e.tag front blanks written back a := by
  obtain ⟨role, hnative, hrole, htag⟩ := exists_role_of_removeRedundantRole? h
  rw [htag]
  exact ⟨role, Role.implicit?_mem hnative,
    exists_losesRole (redundantRole?_eq_some_iff.2 ⟨hnative, hrole⟩)⟩

theorem hyphens_removeRedundantRole {t : Tag} {e : Edit} (h : removeRedundantRole? t = some e) :
    hyphens.of t.source ≤ hyphens.of e.tag.source := by
  obtain ⟨role, hmem, front, blanks, written, back, a, hloses⟩ := exists_losesRole_of_edit h
  have hnone : ∀ role ∈ Role.implicitRoles, role.count '-' = 0 := by decide
  have hcount := hloses.count_le (c := '-') (by decide)
  rw [hnone role hmem, List.count_append] at hcount
  rw [hyphens.of_losesRole hloses]
  show _ + (((blanks.count '-' : Nat) : Int) + (written.count '-' : Nat)) ≤ _
  omega

/-- **Merit rises when a redundant role goes.** -/
theorem merit_removeRedundantRole {t : Tag} {e : Edit} (h : removeRedundantRole? t = some e) :
    merit.of t.source + 1 ≤ merit.of e.tag.source := by
  obtain ⟨role, hmem, front, blanks, written, back, a, hloses⟩ := exists_losesRole_of_edit h
  have hsmall : ∀ role ∈ Role.implicitRoles, 8 * role.count 's' + 4 * role.count 'a' ≤ 8 := by
    decide
  have hs := hloses.count_le (c := 's') (by decide)
  have ha := hloses.count_le (c := 'a') (by decide)
  have hrole := hsmall role hmem
  have hgone : merit.of (blanks ++ written) =
      8 * ((blanks ++ written).count 's' : Nat) + 4 * ((blanks ++ written).count 'a' : Nat) - 10 := by
    show (8 * _ + 4 * _ - 5 * ((blanks ++ written).countP isQuote : Nat) : Int) = _
    rw [hloses.countP_isQuote]
    rfl
  rw [merit.of_losesRole hloses, ← merit.append, hgone]
  omega

theorem one_le_hyphens_written {name : Text} (h : '-' ∈ name) (value : Text) :
    1 ≤ hyphens.of (written name value) := by
  have hpos := List.count_pos_iff.2 h
  show (1 : Int) ≤ ((written name value).count '-' : Nat)
  simp only [written, List.cons_append, List.count_cons, List.count_append]
  omega

/-- **Each value that is filled in brings a hyphen.** -/
theorem hyphens_addChecked {value : Text} {t : Tag} {e : Edit} (h : addChecked? value t = some e) :
    hyphens.of t.source + 1 ≤ hyphens.of e.tag.source := by
  obtain ⟨add, rfl, hext⟩ := adds_addChecked value t e h
  have hone : 1 ≤ hyphens.of (written "aria-checked" value) :=
    one_le_hyphens_written (by decide) value
  rw [hyphens.of_extends hext]
  omega

theorem hyphens_addValueRange {o : Options} {t : Tag} {e : Edit}
    (h : addValueRange? (rangeDefaults o) t = some e) :
    hyphens.of t.source + 1 ≤ hyphens.of e.tag.source := by
  obtain ⟨add, ⟨ds, hne, hsub, rfl⟩, hext⟩ := adds_addValueRange _ t e h
  obtain ⟨d, ds, rfl⟩ := List.exists_cons_of_ne_nil hne
  have hnames : ∀ name ∈ Role.valueRange, '-' ∈ name := by decide
  have hd : d.1 ∈ Role.valueRange := (List.of_mem_zip (hsub List.mem_cons_self)).1
  have hone := one_le_hyphens_written (hnames d.1 hd) d.2
  have hrest : 0 ≤ hyphens.of (ds.flatMap fun d => written d.1 d.2) := Int.natCast_nonneg _
  rw [hyphens.of_extends hext, List.flatMap_cons, hyphens.append]
  omega

/-- The role of a tablist has merit, and no hyphen. -/
theorem of_addTablist (t : Tag) :
    hyphens.of (addTablist t).tag.source = hyphens.of t.source ∧
      merit.of (addTablist t).tag.source = merit.of t.source + 2 := by
  have hrole : hyphens.of tablistRole = 0 ∧ merit.of tablistRole = 2 := by decide
  rw [hyphens.of_extends (extends_addTablist t), merit.of_extends (extends_addTablist t), hrole.1,
    hrole.2]
  exact ⟨Int.add_zero _, rfl⟩

/-! ## Passes -/

/-- Through the pass the tally does not fall, and each entry comes with this gain at least. -/
def Earns (w : Tally) (gain : Nat) (pass : Text → Result) : Prop :=
  ∀ t, w.of t + gain * (pass t).changes.length ≤ w.of (pass t).text

/-- A pass that makes no entry leaves the text. -/
def IsSilent (pass : Text → Result) : Prop := ∀ t, (pass t).changes = [] → pass t = ⟨t, []⟩

section Passes

variable {w : Tally} {gain : Nat}

section Rewriting

variable {α : Type} {read : Reader α} {write write' : α → Text} {change? : α → Option Change}
  (lossless : ∀ {before t a rest}, read.read? before t = some (a, rest) → write a ++ rest = t)
include lossless

/-- What is earned for each construct that is written anew is earned for the text. -/
theorem earns_rewrite
    (h : ∀ a, w.of (write a) + gain * (change? a).toList.length ≤ w.of (write' a)) :
    Earns w gain fun t => ⟨read.rewrite write' t, (read.items t).filterMap change?⟩ := by
  have hpieces : ∀ ps : List (Piece α), w.of (ps.flatMap (Piece.write write)) +
      gain * ((ps.filterMap Piece.item?).filterMap change?).length ≤
        w.of (ps.flatMap (Piece.write write')) := by
    intro ps
    induction ps with
    | nil => simp
    | cons p ps ih =>
      rw [List.filterMap_eq_flatMap_toList] at ih
      rw [List.flatMap_cons, List.flatMap_cons, w.append, w.append,
        List.filterMap_eq_flatMap_toList]
      cases p with
      | char c =>
        rw [List.filterMap_cons_none (by rfl), Piece.write, Piece.write]
        omega
      | item a =>
        have ha := h a
        rw [List.filterMap_cons_some (by rfl), List.flatMap_cons, List.length_append, Piece.write,
          Piece.write, Int.natCast_add, Int.mul_add]
        omega
  intro t
  have ht := hpieces (read.pieces none t)
  rwa [read.flatMap_pieces lossless] at ht

/-- When each construct without an entry is written as it was, a text without entries stays. -/
theorem isSilent_rewrite (h : ∀ a, change? a = none → write' a = write a) :
    IsSilent fun t => ⟨read.rewrite write' t, (read.items t).filterMap change?⟩ := by
  intro t hnone
  have hsame : read.rewrite write' t = t := by
    conv => rhs; rw [← read.flatMap_pieces lossless none t]
    refine List.flatMap_congr fun p hp => ?_
    cases p with
    | char c => rfl
    | item a =>
      exact h a (List.filterMap_eq_nil_iff.1 hnone a (List.mem_filterMap.2 ⟨_, hp, rfl⟩))
  exact congrArg₂ Result.mk hsame hnone

end Rewriting

theorem earns_editTags {edit? : Tag → Option Edit}
    (h : ∀ t e, edit? t = some e → w.of t.source + gain ≤ w.of e.tag.source) :
    Earns w gain (editTags edit?) := by
  refine earns_rewrite source_append_of_read? fun t => ?_
  cases he : edit? t with
  | none => simp
  | some e => simpa using h t e he

theorem isSilent_editTags (edit? : Tag → Option Edit) : IsSilent (editTags edit?) :=
  isSilent_rewrite source_append_of_read? fun t ht => by
    rw [Option.map_eq_none_iff.1 ht]
    rfl

theorem earns_tablistPieces (h : ∀ t, w.of t.source + gain ≤ w.of (addTablist t).tag.source)
    (skip : Nat) (ps : List (Piece Tag)) :
    w.of (textOf ps) + gain * (tablistPieces skip ps).2.length ≤
      w.of (textOf (tablistPieces skip ps).1) := by
  fun_induction tablistPieces skip ps with
  | case1 => simp
  | case2 skip c ps qs cs hrest ih =>
    simp only [hrest, textOf_char] at ih ⊢
    rw [w.of_cons c (textOf ps), w.of_cons c (textOf qs)]
    omega
  | case3 skip t ps qs cs hrest ih =>
    simp only [hrest, textOf_item, w.append] at ih ⊢
    omega
  | case4 t ps hclose qs cs hrest ih =>
    simp only [hrest, textOf_item, w.append] at ih ⊢
    omega
  | case5 t ps close hclose hnew qs cs hrest ih =>
    have ht := h t
    simp only [hrest, textOf_item, w.append, List.length_cons, Int.natCast_add, Int.mul_add]
      at ih ⊢
    omega
  | case6 t ps close hclose hrole qs cs hrest ih =>
    simp only [hrest, textOf_item, w.append] at ih ⊢
    omega

theorem earns_addTablists (h : ∀ t, w.of t.source + gain ≤ w.of (addTablist t).tag.source)
    (trackDepth : Bool) : Earns w gain (addTablists trackDepth) := by
  cases trackDepth with
  | true =>
    intro t
    have ht := earns_tablistPieces h 0 (pieces t)
    rwa [textOf_pieces] at ht
  | false =>
    refine earns_rewrite Container.source_append_of_read? fun c => ?_
    rw [Container.edited, Container.source, w.append, w.append]
    have hc := h c.tag
    unfold Container.edit?
    split
    · simp
    · simp only [Option.map_some, Option.toList_some, List.length_singleton, Option.getD_some]
      omega

theorem tablistPieces_of_changes_eq_nil {skip : Nat} {ps : List (Piece Tag)}
    (h : (tablistPieces skip ps).2 = []) : (tablistPieces skip ps).1 = ps := by
  fun_induction tablistPieces skip ps with
  | case1 => rfl
  | case2 skip c ps qs cs hrest ih | case3 skip c ps qs cs hrest ih
  | case4 c ps _ qs cs hrest ih | case6 c ps _ _ _ qs cs hrest ih =>
    rw [hrest] at ih
    exact congrArg (_ :: ·) (ih h)
  | case5 => exact absurd h (by simp)

theorem isSilent_addTablists (trackDepth : Bool) : IsSilent (addTablists trackDepth) := by
  cases trackDepth with
  | true =>
    intro t ht
    have hsame : textOf (tablistPieces 0 (pieces t)).1 = t := by
      rw [tablistPieces_of_changes_eq_nil ht, textOf_pieces]
    exact congrArg₂ Result.mk hsame ht
  | false =>
    refine isSilent_rewrite Container.source_append_of_read? fun c hc => ?_
    rw [Container.edited, Option.map_eq_none_iff.1 hc]
    rfl

end Passes

/-! ## Runs -/

namespace Result

variable {w : Tally} {counts : Kind → Bool} {s : Text} {r : Result} {pass : Text → Result}
  {k : Kind}

/-- Since the text `s` the tally has not fallen, and it has risen by one at least for each entry of a
kind that counts. -/
def Earned (w : Tally) (counts : Kind → Bool) (s : Text) (r : Result) : Prop :=
  w.of s + r.changes.countP (counts ·.kind) ≤ w.of r.text

theorem Earned.start (s : Text) : Earned w counts s ⟨s, []⟩ := by simp [Earned]

theorem Earned.andThenIf (h : r.Earned w counts s) (wanted : Bool)
    (hkind : ∀ t, ∀ c ∈ (pass t).changes, c.kind = k) (hpass : Earns w (counts k).toNat pass) :
    (r.andThenIf wanted pass).Earned w counts s := by
  cases wanted with
  | false => exact h
  | true =>
    have hr := hpass r.text
    have hcount : (pass r.text).changes.countP (counts ·.kind) =
        (counts k).toNat * (pass r.text).changes.length := by
      have hsame : (pass r.text).changes.countP (counts ·.kind) =
          (pass r.text).changes.countP fun _ => counts k :=
        List.countP_congr fun c hc => by rw [hkind _ c hc]
      rw [hsame]
      cases counts k with
      | false => simp
      | true => simp
    show _ + ((r.changes ++ (pass r.text).changes).countP _ : Nat) ≤ w.of (pass r.text).text
    unfold Earned at h
    rw [List.countP_append, hcount, Int.natCast_add, Int.natCast_mul]
    omega

/-- Where the text is what it was, there are no entries of the kinds that count. -/
theorem Earned.forall_of_text_eq (h : r.Earned w counts s) (hsame : r.text = s) :
    ∀ c ∈ r.changes, counts c.kind = false := by
  rw [Earned, hsame] at h
  have hzero : r.changes.countP (counts ·.kind) = 0 := by omega
  exact fun c hc => Bool.eq_false_iff.2 (List.countP_eq_zero.1 hzero c hc)

/-- A pass that makes its entries in one kind has done nothing when there are none of that kind. -/
theorem andThenIf_eq_self_of_kind (hsilent : IsSilent pass)
    (hkind : ∀ t, ∀ c ∈ (pass t).changes, c.kind = k) {wanted : Bool}
    (hnone : ∀ c ∈ (r.andThenIf wanted pass).changes, c.kind ≠ k) :
    r.andThenIf wanted pass = r := by
  refine andThenIf_eq_self fun hwanted => hsilent r.text ?_
  refine List.eq_nil_iff_forall_not_mem.2 fun c hc => hnone c ?_ (hkind _ c hc)
  rw [hwanted]
  exact List.mem_append_right _ hc

theorem changes_subset_andThenIf (r : Result) (wanted : Bool) (pass : Text → Result) :
    r.changes ⊆ (r.andThenIf wanted pass).changes := by
  cases wanted with
  | false => exact fun _ h => h
  | true => exact List.subset_append_left _ _

end Result

/-- The kinds of entries that tell of a value that was filled in. -/
def Kind.isFill : Kind → Bool
  | removedRedundantRole => false
  | addedAriaChecked => true
  | addedValueRange => true
  | addedTablist => false

/-- Each value that is filled in is a hyphen more. -/
theorem earned_hyphens_apply (o : Options) (s : Text) :
    (apply o s).Earned hyphens Kind.isFill s := by
  have hroles : Earns hyphens 0 (editTags removeRedundantRole?) := earns_editTags fun t e he =>
    (Int.add_zero _).trans_le (hyphens_removeRedundantRole he)
  have hchecked : Earns hyphens 1 (editTags (addChecked? o.checked)) := earns_editTags fun t e he =>
    hyphens_addChecked he
  have hrange : Earns hyphens 1 (editTags (addValueRange? (rangeDefaults o))) :=
    earns_editTags fun t e he => hyphens_addValueRange he
  have htablists : Earns hyphens 0 (addTablists o.trackDepth) :=
    earns_addTablists
      (fun t => Int.le_of_eq ((Int.add_zero _).trans (of_addTablist t).1.symm)) _
  exact ((((Result.Earned.start s).andThenIf _ (fun _ _ => kind_of_mem_removeRedundantRoles)
    hroles).andThenIf _ (fun _ _ => kind_of_mem_addChecked) hchecked).andThenIf _
    (fun _ _ => kind_of_mem_addValueRange) hrange).andThenIf _
    (fun _ _ => kind_of_mem_addTablists) htablists

/-- Where no values are filled in, a run consists of the first pass and the last one. -/
theorem apply_of_forall_not_isFill {o : Options} {s : Text}
    (h : ∀ c ∈ (apply o s).changes, c.kind.isFill = false) :
    apply o s = ((Result.mk s []).andThenIf o.removeRedundantRoles
      (editTags removeRedundantRole?)).andThenIf o.addTablists (addTablists o.trackDepth) := by
  have hnone : ∀ {k : Kind}, k.isFill = true → ∀ c ∈ (apply o s).changes, c.kind ≠ k := by
    rintro k hk c hc rfl
    exact absurd (hk.symm.trans (h c hc)) (by decide)
  unfold apply at hnone ⊢
  have hrange := Result.andThenIf_eq_self_of_kind (isSilent_editTags _)
    (fun _ _ => kind_of_mem_addValueRange) fun c hc =>
      hnone rfl c (Result.changes_subset_andThenIf _ _ _ hc)
  have hchecked := Result.andThenIf_eq_self_of_kind (isSilent_editTags _)
    (fun _ _ => kind_of_mem_addChecked) fun c hc =>
      hnone rfl c (Result.changes_subset_andThenIf _ _ _
        (Result.changes_subset_andThenIf _ _ _ hc))
  rw [hrange, hchecked]

/-- **A run that changes nothing logs nothing.** -/
theorem changes_apply_eq_nil_of_text_eq {o : Options} {s : Text} (h : (apply o s).text = s) :
    (apply o s).changes = [] := by
  have hrun := apply_of_forall_not_isFill ((earned_hyphens_apply o s).forall_of_text_eq h)
  have hroles : Earns merit 1 (editTags removeRedundantRole?) := earns_editTags fun t e he =>
    merit_removeRedundantRole he
  have htablists : Earns merit 1 (addTablists o.trackDepth) :=
    earns_addTablists (fun t => by rw [(of_addTablist t).2]; omega) _
  have hearned : Result.Earned merit (fun _ => true) s _ := ((Result.Earned.start s).andThenIf
    o.removeRedundantRoles (fun _ _ => kind_of_mem_removeRedundantRoles) hroles).andThenIf
    o.addTablists (fun _ _ => kind_of_mem_addTablists) htablists
  rw [← hrun] at hearned
  exact List.eq_nil_iff_forall_not_mem.2 fun c hc =>
    absurd (hearned.forall_of_text_eq h c hc) (by decide)

/-- **A run that logs nothing changes nothing.** -/
theorem apply_of_changes_eq_nil {o : Options} {s : Text} (h : (apply o s).changes = []) :
    apply o s = ⟨s, []⟩ := by
  have hnone : ∀ {k : Kind}, ∀ c ∈ (apply o s).changes, c.kind ≠ k := by simp [h]
  rw [apply_of_forall_not_isFill (by simp [h])] at hnone ⊢
  have htablists := Result.andThenIf_eq_self_of_kind (isSilent_addTablists _)
    (fun _ _ => kind_of_mem_addTablists) hnone
  have hroles := Result.andThenIf_eq_self_of_kind (isSilent_editTags _)
    (fun _ _ => kind_of_mem_removeRedundantRoles) fun c hc =>
      hnone c (Result.changes_subset_andThenIf _ _ _ hc)
  rw [htablists, hroles]

/-! ## The order of the log -/

/-- The pass that makes entries of this kind. -/
def Kind.turn : Kind → Nat
  | removedRedundantRole => 1
  | addedAriaChecked => 2
  | addedValueRange => 3
  | addedTablist => 4

/-- The entries are in the order of the passes, of which `n` have had their turn. -/
def Result.InTurn (n : Nat) (r : Result) : Prop :=
  (r.changes.Pairwise fun c d => c.kind.turn ≤ d.kind.turn) ∧ ∀ c ∈ r.changes, c.kind.turn ≤ n

theorem Result.InTurn.andThenIf {n : Nat} {r : Result} {pass : Text → Result} {k : Kind}
    (h : r.InTurn n) (wanted : Bool) (hkind : ∀ t, ∀ c ∈ (pass t).changes, c.kind = k)
    (hturn : n ≤ k.turn) : (r.andThenIf wanted pass).InTurn k.turn := by
  cases wanted with
  | false => exact ⟨h.1, fun c hc => (h.2 c hc).trans hturn⟩
  | true =>
    have hnew : ∀ d ∈ (pass r.text).changes, d.kind.turn = k.turn := fun d hd =>
      congrArg Kind.turn (hkind _ d hd)
    constructor
    · refine List.pairwise_append.2 ⟨h.1, ?_, fun c hc d hd => ?_⟩
      · exact List.pairwise_of_forall_mem_list fun c hc d hd => (hnew c hc).trans_le (hnew d hd).ge
      · exact ((h.2 c hc).trans hturn).trans (hnew d hd).ge
    · intro c hc
      rcases List.mem_append.1 hc with hc | hc
      · exact (h.2 c hc).trans hturn
      · exact (hnew c hc).le

theorem inTurn_apply (o : Options) (s : Text) : (apply o s).InTurn 4 := by
  have hstart : (Result.mk s []).InTurn 0 := ⟨List.Pairwise.nil, by simp⟩
  exact (((hstart.andThenIf _ (fun _ _ => kind_of_mem_removeRedundantRoles) (by decide)).andThenIf _
    (fun _ _ => kind_of_mem_addChecked) (by decide)).andThenIf _
    (fun _ _ => kind_of_mem_addValueRange) (by decide)).andThenIf _
    (fun _ _ => kind_of_mem_addTablists) (by decide)

/-- **The log is truthful**, whatever the options are and whatever is filled in: it is empty exactly
when the snippet has come out as it went in, and its entries are in the order of the passes. -/
theorem truthful_changes_apply (o : Options) (s : Text) :
    ((apply o s).changes = [] ↔ (apply o s).text = s) ∧
      (apply o s).changes.Pairwise fun c d => c.kind.turn ≤ d.kind.turn :=
  ⟨⟨fun h => by rw [apply_of_changes_eq_nil h], changes_apply_eq_nil_of_text_eq⟩,
    (inTurn_apply o s).1⟩

end Fix
end AriaLint
