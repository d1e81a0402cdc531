import AriaLint.Fix.TagPasses
import AriaLint.Proofs.Attribute.Extension
import AriaLint.Proofs.Attribute.Seam

/-!
# What edits leave as it was

Two edits are made to attribute text: a role attribute is taken out together with the blanks before
it, and attributes are put in front of a tail.  Neither should touch what is read under other names,
and this is so wherever attribute text may be cut at the places of the edit
(`first?_withoutRole`, `first?_extended`).

For the attributes that are put in, the text before them must not end with an open value, since a
blank stands at their head and a quote at their end.  For the role more has to be asked for, because
its neighbours meet when it is gone: `standsApart` is this condition.

Both theorems speak about a text `pre` in front of the attribute text.  With the name of the tag in
its place they are about the whole tag.
-/

namespace AriaLint
namespace Attribute

/-- The form stands for no name that is like the given one. -/
def NameForm.Avoids (form : NameForm) (name : Text) : Prop :=
  ∀ n, List.Forall₂ (fun w c => sameLetter w c = true) name n → ¬ form.Names n

theorem map_fold_eq {a b : Text} (h : List.Forall₂ (fun w c => sameLetter w c = true) a b) :
    a.map fold = b.map fold := by
  induction h with
  | nil => rfl
  | cons hwc _ ih => rw [List.map_cons, List.map_cons, ih, eq_of_beq hwc]

theorem avoids_exactly {name other : Text} (h : name.map fold ≠ other.map fold) :
    (NameForm.exactly name).Avoids other :=
  fun _ hother hnames => h ((map_fold_eq hnames).trans (map_fold_eq hother).symm)

/-- The names of the ARIA family are longer than their beginning. -/
theorem avoids_aria {name : Text} (h : name.length ≤ 5) : NameForm.aria.Avoids name := by
  rintro n hn ⟨start, ending, rfl, hstart, hne, -⟩
  have hpos := List.length_pos_iff.2 hne
  have hlen := hn.length_eq
  rw [List.length_append, ← hstart.length_eq, show ("aria-" : Text).length = 5 by decide] at hlen
  omega

theorem NameForm.Avoids.not_names {form : NameForm} {name : Text} (h : form.Avoids name) :
    ¬ form.Names name := h name (Text.forall₂_sameLetter_refl name)

/-! ## The letters of the role attribute -/

/-- A letter of `role` has no other case beyond ASCII. -/
theorem toNat_lt_of_fold_mem {c : Char} (h : fold c ∈ ("role" : Text)) : c.toNat < 128 := by
  by_contra hascii
  have hlower : ∀ d, lowerChar c = d → d.toNat < 128 → d ∉ ("role" : Text) := by
    intro d hd hlt
    rw [lowerChar, if_neg hascii] at hd
    have hruns : capitalRuns.all (fun r => Nat.ble 128 r.small ||
        Nat.beq r.first r.last && decide (Char.ofNat r.small ∉ ("role" : Text))) = true := by decide
    split at hd
    · next r hr =>
      subst hd
      have hhas := List.find?_some hr
      simp only [CapitalRun.has, Bool.and_eq_true, decide_eq_true_eq] at hhas
      have hrun := List.all_eq_true.1 hruns r (List.mem_of_find?_eq_some hr)
      simp only [Bool.or_eq_true, Bool.and_eq_true, Nat.ble_eq, Nat.beq_eq,
        decide_eq_true_eq] at hrun
      rcases hrun with hsmall | ⟨hsingle, hnot⟩
      · -- a code point beyond ASCII, or none
        by_cases hvalid : Nat.isValidChar (r.small + (c.toNat - r.first))
        · rw [Char.ofNat, dif_pos hvalid] at hlt
          have hnat : (Char.ofNatAux _ hvalid).toNat = r.small + (c.toNat - r.first) := rfl
          omega
        · rw [Char.ofNat, dif_neg hvalid]
          decide
      · rw [show r.small + (c.toNat - r.first) = r.small by omega]
        exact hnot
    · subst hd
      exact absurd hlt hascii
  unfold fold at h
  dsimp only at h
  split at h
  · next hlt => exact hlower _ rfl hlt h
  · next hge =>
    cases hlook : sharedCapitals.lookup (lowerChar c) with
    | none =>
      rw [hlook] at h
      have hall : ∀ d ∈ ("role" : Text), d.toNat < 128 := by decide
      exact hge (hall _ h)
    | some d =>
      rw [hlook] at h
      have hall : ∀ p ∈ sharedCapitals, p.2 ∉ ("role" : Text) := by decide
      obtain ⟨l, m, hsplit, -⟩ := List.lookup_eq_some_iff.1 hlook
      exact hall (lowerChar c, d) (by rw [hsplit]; simp) h

/-- Within the name of a role attribute no other name starts. -/
theorem continuesName_of_role {n : Text}
    (h : List.Forall₂ (fun w c => sameLetter w c = true) "role" n) :
    ∀ c ∈ n, continuesName c = true := by
  have hletter : ∀ c : Char, fold c ∈ ("role" : Text) → continuesName c = true := by
    intro c hc
    have hall : ∀ m < 128, fold (Char.ofNat m) ∈ ("role" : Text) →
        continuesName (Char.ofNat m) = true := by decide
    exact forall_ascii (P := fun c => fold c ∈ ("role" : Text) → continuesName c = true) hall
      (toNat_lt_of_fold_mem hc) hc
  intro c hc
  refine hletter c ?_
  have hfold : ("role" : Text).map fold = n.map fold := map_fold_eq h
  rw [show ("role" : Text).map fold = "role" by decide] at hfold
  rw [hfold]
  exact List.mem_map_of_mem hc

/-! ## Taking a role out -/

theorem isProper_role : (NameForm.exactly "role").IsProper := by decide

/-- The role attribute that is found, with what stands around it. -/
theorem exists_spelled_role {t : Text} {f : Found Attribute} (hf : find? "role" true t = some f) :
    ∃ r, t = f.before ++ (r ++ f.after) ∧ f.item.IsSpelledBy r ∧
      List.Forall₂ (fun w c => sameLetter w c = true) "role" f.item.name := by
  have hname : IsQuoteless (Text.lower "role") := by decide
  obtain ⟨k, d, hsplit, -, -, hlocal⟩ := (endsAt_named hname true).find?_eq_some hf
  have hread := (Option.filter_eq_some_iff.1 (hlocal f.after)).1
  obtain ⟨-, ⟨form, hform, hnames⟩, b, b', p, q, hkd, hb, hb', hp, hq, hvalue⟩ :=
    exists_of_read? hread
  obtain rfl := List.mem_singleton.1 hform
  refine ⟨f.item.name ++ (b ++ '=' :: (b' ++ p :: f.item.value) ++ [q]), ?_,
    ⟨_, q, rfl, hq, b, b', p, rfl, hb, hb', hp, hvalue⟩, ?_⟩
  · rw [hsplit, hkd]
    simp
  · have hlower : Text.lower "role" = "role" := by decide
    rwa [hlower] at hnames

/-- What stands before the attribute leaves no value open, and its neighbours may be cut apart: a
quote or a slash stands before it, or a blank before it and a blank or a slash behind it. -/
def standsApart (f : Found Attribute) : Bool :=
  !endsOpen (Text.trimRight f.before) &&
    (endsApart (Text.trimRight f.before) ||
      !(Text.trailingBlanks f.before).isEmpty && opensAnew f.after)

/-- Blanks and a name open anew. -/
theorem opensAnew_named {w n : Text} (hw : Text.IsBlankText w) (hne : w ≠ []) (hn : IsNameText n)
    (z : Text) : opensAnew (w ++ (n ++ z)) = true := by
  obtain ⟨c, w, rfl⟩ := List.exists_cons_of_ne_nil hne
  obtain ⟨l, n, rfl⟩ := List.exists_cons_of_ne_nil hn.1
  have hl : isNamePart l = true := hn.2 l List.mem_cons_self
  simp only [isNamePart, Bool.not_eq_true', Bool.or_eq_false_iff, beq_eq_false_iff_ne] at hl
  have htrim : Text.trimLeft (c :: w ++ (l :: n ++ z)) = l :: (n ++ z) :=
    Text.trimLeft_append_cons hw hl.1.1.1
  rw [opensAnew, htrim]
  simp [hw c List.mem_cons_self, hl]

theorem opensAnew_spelled {w r : Text} {m : Attribute} (hw : Text.IsBlankText w) (hne : w ≠ [])
    (hm : IsNameText m.name) (hr : m.IsSpelledBy r) (z : Text) :
    opensAnew (w ++ (r ++ z)) = true := by
  obtain ⟨k, q, rfl, -⟩ := hr
  rw [List.append_assoc]
  exact opensAnew_named hw hne hm _

/-- A role with the blanks before it, cut out of attribute text: what stands before and behind may
be cut apart from it, and from each other. -/
structure IsRoleCut (attrs x w r z : Text) (m : Attribute) : Prop where
  split : attrs = x ++ (w ++ (r ++ z))
  without : Fix.withoutRole attrs = x ++ z
  blank : Text.IsBlankText w
  spelled : m.IsSpelledBy r
  role : List.Forall₂ (fun w c => sameLetter w c = true) "role" m.name
  value : '=' ∉ m.value
  closed : endsOpen x = false
  apart : endsApart x = true ∨ w ≠ [] ∧ opensAnew z = true

/-- A role that stands apart can be cut out. -/
theorem exists_isRoleCut {attrs : Text} {f : Found Attribute}
    (hf : find? "role" true attrs = some f) (hvalue : '=' ∉ f.item.value)
    (hstands : standsApart f = true) :
    ∃ x w r z, IsRoleCut attrs x w r z f.item := by
  obtain ⟨r, hsplit, hr, hrole⟩ := exists_spelled_role hf
  simp only [standsApart, Bool.and_eq_true, Bool.not_eq_true', Bool.or_eq_true,
    List.isEmpty_eq_false_iff] at hstands
  refine ⟨Text.trimRight f.before, Text.trailingBlanks f.before, r, f.after, ?_, ?_,
    Text.isBlankText_trailingBlanks f.before, hr, hrole, hvalue, hstands.1, hstands.2⟩
  · rw [← List.append_assoc, Text.trimRight_append_trailingBlanks]
    exact hsplit
  · rw [Fix.withoutRole, hf]

namespace IsRoleCut

variable {attrs x w r z : Text} {m : Attribute}

theorem name (h : IsRoleCut attrs x w r z m) : IsNameText m.name :=
  NameForm.isNameText_of_names isProper_role h.role

theorem goes (h : IsRoleCut attrs x w r z m) : ∀ c ∈ m.name, continuesName c = true :=
  continuesName_of_role h.role

theorem settled (h : IsRoleCut attrs x w r z m) : IsSettled m.value := isSettled_of_not_mem h.value

theorem seamBefore (h : IsRoleCut attrs x w r z m) :
    endsApart x = true ∨ opensAnew (w ++ (r ++ z)) = true :=
  h.apart.imp id fun hw => opensAnew_spelled h.blank hw.1 h.name h.spelled z

theorem seamBehind (h : IsRoleCut attrs x w r z m) : endsApart x = true ∨ opensAnew z = true :=
  h.apart.imp id And.right

end IsRoleCut

section Edits

variable {forms : List NameForm} (hforms : ∀ form ∈ forms, form.IsProper)
  (keep : Attribute → Bool) {pre : Text} (hpre : '=' ∉ pre) (before : Option Char)

include hforms hpre in
/-- **Taking a role out that stands apart** leaves what is read under other names. -/
theorem itemsAfter_withoutRole (hother : ∀ form ∈ forms, form.Avoids "role") {attrs x w r z : Text}
    {m : Attribute} (hcut : IsRoleCut attrs x w r z m) :
    ((reader forms).filter keep).itemsAfter before (pre ++ Fix.withoutRole attrs) =
      ((reader forms).filter keep).itemsAfter before (pre ++ attrs) := by
  have hclosed : endsOpen (pre ++ x) = false := by
    cases h : endsOpen (pre ++ x) with
    | false => rfl
    | true => rw [hcut.closed.symm, endsOpen_of_append hpre h]
  have happart : endsApart x = true → endsApart (pre ++ x) = true := by
    intro h
    have hne : x ≠ [] := by
      rintro rfl
      exact absurd h (by decide)
    rwa [endsApart_append hne]
  have hends := (endsAt_reader hforms).filter keep
  have hold : ((reader forms).filter keep).IsSeam before (pre ++ x) (w ++ (r ++ z)) :=
    (isSeam hforms hclosed (hcut.seamBefore.imp happart id)).filter keep
  have hnew : ((reader forms).filter keep).IsSeam before (pre ++ x) z :=
    (isSeam hforms hclosed (hcut.seamBehind.imp happart id)).filter keep
  have hbehind : ((reader forms).filter keep).itemsAfter (Reader.beforeAt before (pre ++ x)) z =
      ((reader forms).filter keep).itemsAfter none z := by
    rcases hcut.seamBehind with h | h
    · exact itemsAfter_congr keep (canStartAfter_of_endsApart (happart h) before) _
    · exact itemsAfter_of_opensAnew hforms keep h _ _
  rw [hcut.without, hcut.split, ← List.append_assoc, ← List.append_assoc,
    hnew.itemsAfter_append hends, hold.itemsAfter_append hends, hbehind,
    itemsAfter_spelled_append hforms keep hcut.blank hcut.name hcut.goes hcut.spelled hcut.settled
      fun form hform => hother form hform _ hcut.role]

include hforms hpre in
theorem first?_withoutRole (hother : ∀ form ∈ forms, form.Avoids "role") {attrs x w r z : Text}
    {m : Attribute} (hcut : IsRoleCut attrs x w r z m) :
    ((reader forms).filter keep).first? before (pre ++ Fix.withoutRole attrs) =
      ((reader forms).filter keep).first? before (pre ++ attrs) := by
  rw [← Reader.head?_itemsAfter, ← Reader.head?_itemsAfter,
    itemsAfter_withoutRole hforms keep hpre before hother hcut]

/-- Behind an equals sign and blanks a text does not end apart. -/
theorem endsApart_equals (h : Text) {b : Text} (hb : Text.IsBlankText b) :
    endsApart (h ++ '=' :: b) = false := by
  rcases List.eq_nil_or_concat b with rfl | ⟨b, c, rfl⟩
  · simp [endsApart, isQuote]
  · have hc : isBlank c = true := hb c (by simp)
    have hslash : c ≠ '/' := by
      rintro rfl
      exact absurd hc (by decide)
    have hlast : h ++ '=' :: b.concat c = (h ++ '=' :: b) ++ [c] := by simp
    rw [hlast, endsApart, List.getLast?_concat]
    simp [isQuote_of_isBlank hc, hslash]

/-- No value is open at the end of two texts that may be cut apart when none is at the end of
either. -/
theorem endsOpen_append {x a : Text} (hx : endsOpen x = false) (ha : endsOpen a = false)
    (hapart : endsApart x = true ∨ opensAnew a = true) : endsOpen (x ++ a) = false := by
  cases hopen : endsOpen (x ++ a) with
  | false => rfl
  | true =>
    obtain ⟨h, b, q, v, hsplit, hb, hq, hv⟩ := endsOpen_iff.1 hopen
    have hsign : ∃ x', x = h ++ '=' :: x' ∧ x' ++ a = b ++ q :: v := by
      rcases List.append_eq_append_iff.1 hsplit with ⟨z, -, hz⟩ | ⟨z, hz, hza⟩
      · rw [endsOpen_iff.2 ⟨z, b, q, v, hz, hb, hq, hv⟩] at ha
        exact absurd ha (by simp)
      · cases z with
        | nil =>
          have ha' : endsOpen a = true := endsOpen_iff.2 ⟨[], b, q, v, hza.symm, hb, hq, hv⟩
          rw [ha] at ha'
          exact absurd ha' (by simp)
        | cons c z =>
          rw [List.cons_append] at hza
          obtain ⟨rfl, hrest⟩ := List.cons.inj hza
          exact ⟨z, hz, hrest.symm⟩
    obtain ⟨x', rfl, hx'⟩ := hsign
    have hbefore : ∀ w, b = x' ++ w → a = w ++ q :: v → False := by
      rintro w rfl rfl
      rcases hapart with h' | h'
      · rw [endsApart_equals h fun c hc => hb c (List.mem_append_left _ hc)] at h'
        exact Bool.noConfusion h'
      · have htrim := Text.trimLeft_append_cons (t := v)
          (fun c hc => hb c (List.mem_append_right x' hc)) (isBlank_of_isQuote hq)
        rw [opensAnew, htrim] at h'
        simp [hq] at h'
    rcases List.append_eq_append_iff.1 hx' with ⟨w, hw, hwa⟩ | ⟨w, hw, hwa⟩
    · exact (hbefore w hw hwa).elim
    · cases w with
      | nil => exact (hbefore [] (by simpa using hw.symm) hwa.symm).elim
      | cons d w =>
        obtain ⟨rfl, rfl⟩ := List.cons.inj hwa
        rw [hw, endsOpen_iff.2 ⟨h, b, q, w, rfl, hb, hq,
          fun c hc => hv c (List.mem_append_left _ hc)⟩] at hx
        exact hx

/-- Taking a role out that stands apart opens no value. -/
theorem endsOpen_withoutRole {attrs x w r z : Text} {m : Attribute}
    (hcut : IsRoleCut attrs x w r z m) (hopen : endsOpen attrs = false) :
    endsOpen (Fix.withoutRole attrs) = false := by
  have hbehind : endsOpen z = false := by
    cases h : endsOpen z with
    | false => rfl
    | true =>
      rw [hcut.split, endsOpen_append_left _ (endsOpen_append_left _ (endsOpen_append_left _ h))]
        at hopen
      exact hopen
  rw [hcut.without]
  exact endsOpen_append hcut.closed hbehind hcut.seamBehind

/-! ## Putting attributes in -/

/-- Written out, the pair is an attribute of that name and nothing else. -/
structure IsPlainPair (d : Text × Text) : Prop where
  name : IsNameText d.1
  goes : ∀ c ∈ d.1, continuesName c = true
  unquoted : IsUnquoted d.2
  value : '=' ∉ d.2

instance (d : Text × Text) : Decidable (IsPlainPair d) :=
  decidable_of_iff
    ((d.1 ≠ [] ∧ ∀ c ∈ d.1, isNamePart c = true) ∧ (∀ c ∈ d.1, continuesName c = true) ∧
      IsUnquoted d.2 ∧ '=' ∉ d.2)
    ⟨fun ⟨hname, hgoes, hunquoted, hvalue⟩ => ⟨hname, hgoes, hunquoted, hvalue⟩,
      fun h => ⟨h.name, h.goes, h.unquoted, h.value⟩⟩

theorem IsPlainPair.settled {d : Text × Text} (h : IsPlainPair d) : IsSettled d.2 :=
  isSettled_of_not_mem h.value

/-- The attribute that is written for a pair. -/
def ofPair (d : Text × Text) : Attribute := ⟨d.1, d.2⟩

theorem written_eq (d : Text × Text) :
    Fix.written d.1 d.2 = [' '] ++ (d.1 ++ ('=' :: '"' :: d.2 ++ ['"'])) := by
  simp [Fix.written]

theorem isSpelledBy_written {d : Text × Text} (hd : IsPlainPair d) :
    (ofPair d).IsSpelledBy (d.1 ++ ('=' :: '"' :: d.2 ++ ['"'])) :=
  ⟨'=' :: '"' :: d.2, '"', rfl, rfl, [], [], '"', rfl, by simp [Text.IsBlankText],
    by simp [Text.IsBlankText], rfl, hd.unquoted⟩

/-- Behind its blanks a tail goes on with its slash. -/
theorem eq_slash_of_isTail {y : Text} (hy : Tag.IsTail y) {c : Char}
    (hc : c ∈ (Text.trimLeft y).head?) : c = '/' := by
  have hmem : c ∈ y := (List.dropWhile_sublist isBlank).subset (List.mem_of_head? hc)
  have hblank : isBlank c = false := by
    have hhead := List.head?_dropWhile_not isBlank y
    rw [show (y.dropWhile isBlank).head? = some c from hc] at hhead
    simpa using hhead
  refine (hy c hmem).resolve_left fun h => ?_
  rw [hblank] at h
  exact Bool.noConfusion h

theorem opensAnew_of_isTail {y : Text} (hy : Tag.IsTail y) : opensAnew y = true := by
  rw [opensAnew, Bool.and_eq_true]
  constructor
  · rw [Option.all_eq_true]
    intro c hc
    simpa using hy c (List.mem_of_head? hc)
  · rw [Option.all_eq_true]
    intro c hc
    rw [eq_slash_of_isTail hy hc]
    decide

variable {ds : List (Text × Text)} (hds : ∀ d ∈ ds, IsPlainPair d)

include hds in
theorem opensAnew_flatMap_written {y : Text} (hy : Tag.IsTail y) :
    opensAnew ((ds.flatMap fun d => Fix.written d.1 d.2) ++ y) = true := by
  cases ds with
  | nil => exact opensAnew_of_isTail hy
  | cons d ds =>
    have hd := hds d List.mem_cons_self
    rw [List.flatMap_cons, written_eq, List.append_assoc, List.append_assoc]
    exact opensAnew_spelled (by decide) (by decide) hd.name (isSpelledBy_written hd) _

include hforms in
theorem first?_of_isTail {y : Text} (hy : Tag.IsTail y) :
    ((reader forms).filter keep).first? before y = none := by
  refine Reader.EndsAt.first?_eq_none ((endsAt_reader hforms).filter keep) ?_ before
  rw [(isUnquoted_of_isTail hy).countP_eq_zero]
  omega

include hforms hds in
/-- Nothing is read under other names in attributes that are written in front of a tail. -/
theorem first?_flatMap_written (hother : ∀ form ∈ forms, ∀ d ∈ ds, form.Avoids d.1) {y : Text}
    (hy : Tag.IsTail y) :
    ((reader forms).filter keep).first? before
      ((ds.flatMap fun d => Fix.written d.1 d.2) ++ y) = none := by
  induction ds generalizing before with
  | nil => exact first?_of_isTail hforms keep before hy
  | cons d ds ih =>
    have hd := hds d List.mem_cons_self
    rw [List.flatMap_cons, written_eq, List.append_assoc, List.append_assoc,
      first?_spelled_append hforms keep (by decide) hd.name hd.goes (isSpelledBy_written hd)
        hd.settled fun form hform => (hother form hform d List.mem_cons_self).not_names]
    exact ih none (fun e he => hds e (List.mem_cons_of_mem d he))
      fun form hform e he => hother form hform e (List.mem_cons_of_mem d he)

include hforms hpre hds in
/-- **Putting attributes in** in front of a tail leaves what is read under other names. -/
theorem first?_extended (hother : ∀ form ∈ forms, ∀ d ∈ ds, form.Avoids d.1) {x y : Text}
    (hy : Tag.IsTail y) (hopen : endsOpen x = false) :
    ((reader forms).filter keep).first? before
        (pre ++ (x ++ (ds.flatMap fun d => Fix.written d.1 d.2) ++ y)) =
      ((reader forms).filter keep).first? before (pre ++ (x ++ y)) := by
  have hopen' : endsOpen (pre ++ x) = false := by
    cases h : endsOpen (pre ++ x) with
    | false => rfl
    | true => rw [endsOpen_of_append hpre h] at hopen; exact Bool.noConfusion hopen
  have hnew : ((reader forms).filter keep).IsSeam before (pre ++ x)
      ((ds.flatMap fun d => Fix.written d.1 d.2) ++ y) :=
    (isSeam hforms hopen' (Or.inr (opensAnew_flatMap_written hds hy))).filter keep
  have hold : ((reader forms).filter keep).IsSeam before (pre ++ x) y :=
    (isSeam hforms hopen' (Or.inr (opensAnew_of_isTail hy))).filter keep
  have hnone := first?_flatMap_written hforms keep (Reader.beforeAt before (pre ++ x)) hds hother hy
  rw [List.append_assoc x, ← List.append_assoc pre, ← List.append_assoc pre, hnew.first?_append,
    hnone, hold.first?_append, first?_of_isTail hforms keep _ hy]

include hds in
/-- Nor does putting attributes in open a value. -/
theorem endsOpen_extended {x y : Text} (hy : Tag.IsTail y) (hopen : endsOpen x = false) :
    endsOpen (x ++ (ds.flatMap fun d => Fix.written d.1 d.2) ++ y) = false := by
  rw [endsOpen_append_of_isUnquoted _ (isUnquoted_of_isTail hy)]
  rcases List.eq_nil_or_concat ds with rfl | ⟨ds, d, rfl⟩
  · simpa using hopen
  · have hd := hds d (by simp)
    rw [List.concat_eq_append, List.flatMap_append, List.flatMap_singleton, written_eq,
      ← List.append_assoc, ← List.append_assoc]
    exact endsOpen_spelled (isSpelledBy_written hd) hd.settled

include hforms hds in
/-- What is read in attributes that are written in front of a tail is one of them. -/
theorem mem_map_ofPair_of_read? {y : Text} (hy : Tag.IsTail y) (before : Option Char)
    {c d rest : Text} {a : Attribute} (hd : d ≠ [])
    (hsplit : (ds.flatMap fun d => Fix.written d.1 d.2) ++ y = c ++ d)
    (hread : (reader forms).read? (Reader.beforeAt before c) d = some (a, rest)) :
    a ∈ ds.map ofPair := by
  induction ds generalizing before c d with
  | nil =>
    obtain ⟨k, q, rfl, hq, -⟩ := (endsAt_reader hforms).reading hread
    have hmem : q ∈ y := by
      rw [List.flatMap_nil, List.nil_append] at hsplit
      simp [hsplit]
    rw [isUnquoted_of_isTail hy q hmem] at hq
    exact absurd hq (by decide)
  | cons e ds ih =>
    have he := hds e List.mem_cons_self
    have hds' : ∀ d ∈ ds, IsPlainPair d := fun d hd => hds d (List.mem_cons_of_mem e hd)
    have hspelled := isSpelledBy_written he
    rw [List.flatMap_cons, written_eq, List.append_assoc] at hsplit
    generalize e.1 ++ ('=' :: '"' :: e.2 ++ ['"']) = r at hsplit hspelled
    rw [List.map_cons, List.mem_cons]
    rcases List.append_eq_append_iff.1 hsplit with ⟨c', rfl, hsplit'⟩ | ⟨d', hwr, rfl⟩
    · rw [Reader.beforeAt_append] at hread
      exact Or.inr (ih hds' _ hd hsplit' hread)
    · cases d' with
      | nil => exact Or.inr (ih hds' (Reader.beforeAt before c) hd (c := []) (by simp) hread)
      | cons l d' =>
        refine Or.inl ?_
        have hapart : endsApart ([' '] ++ r) = true := by
          have happart := endsApart_spelled hspelled
          rwa [endsApart_append fun hnil => by simp [hnil, endsApart] at happart]
        have hseam : (reader forms).IsSeam before ([' '] ++ r)
            ((ds.flatMap fun d => Fix.written d.1 d.2) ++ y) :=
          isSeam hforms (endsOpen_spelled hspelled he.settled) (Or.inl hapart)
        rw [hseam c (l :: d') hwr (by simp)] at hread
        obtain ⟨⟨a', rest'⟩, hread', heq⟩ := Option.map_eq_some_iff.1 hread
        obtain ⟨rfl, -⟩ := Prod.mk.inj heq
        exact (eq_of_read?_spelled hforms (by decide) he.name he.goes hspelled hwr hread').1

include hforms hds in
/-- What is read first is read first when attributes are put in; where nothing is read, one of them
may be. -/
theorem first?_extended_cases {x y : Text} (hy : Tag.IsTail y) (hopen : endsOpen x = false) :
    ((reader forms).filter keep).first? before
        (x ++ (ds.flatMap fun d => Fix.written d.1 d.2) ++ y) =
        ((reader forms).filter keep).first? before (x ++ y) ∨
      ((reader forms).filter keep).first? before (x ++ y) = none ∧
        ∃ d ∈ ds, ((reader forms).filter keep).first? before
          (x ++ (ds.flatMap fun d => Fix.written d.1 d.2) ++ y) = some (ofPair d) := by
  have hold : ((reader forms).filter keep).first? before (x ++ y) =
      ((reader forms).filter keep).first? before x := by
    have hseam : ((reader forms).filter keep).IsSeam before x y :=
      (isSeam hforms hopen (Or.inr (opensAnew_of_isTail hy))).filter keep
    rw [hseam.first?_append, first?_of_isTail hforms keep _ hy, Option.or_none]
  have hseam : ((reader forms).filter keep).IsSeam before x
      ((ds.flatMap fun d => Fix.written d.1 d.2) ++ y) :=
    (isSeam hforms hopen (Or.inr (opensAnew_flatMap_written hds hy))).filter keep
  rw [hold, List.append_assoc, hseam.first?_append]
  cases hx : ((reader forms).filter keep).first? before x with
  | some a => exact Or.inl rfl
  | none =>
    rw [Option.none_or]
    cases hz : ((reader forms).filter keep).first? (Reader.beforeAt before x)
        ((ds.flatMap fun d => Fix.written d.1 d.2) ++ y) with
    | none => exact Or.inl rfl
    | some a =>
      obtain ⟨c, d, hsplit, hd, rest, hread⟩ := Reader.exists_read?_of_first? hz
      obtain ⟨hread, -⟩ := Option.filter_eq_some_iff.1 hread
      obtain ⟨e, he, rfl⟩ :=
        List.mem_map.1 (mem_map_ofPair_of_read? hforms hds hy _ hd hsplit hread)
      exact Or.inr ⟨rfl, e, he, rfl⟩

include hforms hds in
/-- **Putting attributes in** adds some of them to what is read, and nothing else. -/
theorem items_extended {x y : Text} (hy : Tag.IsTail y) (hopen : endsOpen x = false) :
    ∃ as ⊆ ds.map ofPair,
      (reader forms).items (x ++ (ds.flatMap fun d => Fix.written d.1 d.2) ++ y) =
        (reader forms).items (x ++ y) ++ as := by
  have hitems : ∀ ds : List (Text × Text), (∀ d ∈ ds, IsPlainPair d) →
      ∃ as ⊆ ds.map ofPair,
        (reader forms).items (x ++ ((ds.flatMap fun d => Fix.written d.1 d.2) ++ y)) =
          (reader forms).items x ++ as := by
    intro ds hds
    have hseam : (reader forms).IsSeam none x ((ds.flatMap fun d => Fix.written d.1 d.2) ++ y) :=
      isSeam hforms hopen (Or.inr (opensAnew_flatMap_written hds hy))
    refine ⟨(reader forms).itemsAfter (Reader.beforeAt none x)
      ((ds.flatMap fun d => Fix.written d.1 d.2) ++ y), fun a ha => ?_,
      hseam.itemsAfter_append (endsAt_reader hforms)⟩
    obtain ⟨c, d, hsplit, hd, rest, hread⟩ :=
      (endsAt_reader hforms).exists_read?_of_mem_itemsAfter ha
    exact mem_map_ofPair_of_read? hforms hds hy _ hd hsplit hread
  obtain ⟨as, has, heq⟩ := hitems ds hds
  obtain ⟨bs, hbs, hnone⟩ := hitems [] (by simp)
  obtain rfl : bs = [] := List.eq_nil_of_subset_nil hbs
  rw [List.flatMap_nil, List.nil_append, List.append_nil] at hnone
  exact ⟨as, has, by rw [List.append_assoc, heq, hnone]⟩

end Edits
end Attribute
end AriaLint
