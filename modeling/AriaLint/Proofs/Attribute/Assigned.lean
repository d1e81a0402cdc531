import AriaLint.Proofs.Attribute.Edits

/-!
# Assignments that stay

Some rules ask only whether a name is assigned anything of a kind, with or without quotes.  The
edits leave the answer as it is (`isAssigned_withoutRole`, `isAssigned_extended`).

The reasons are those of `Attribute.Edits`.  A text can be taken apart where no name with its sign
runs across the seam, and what is accepted behind the sign does not depend on what follows the seam
(`isAssignedAfter_append`); and no other name is assigned within an attribute that is written out
(`isAssignedAfter_spelled_append`).
-/

namespace AriaLint
namespace Attribute

section Assigned

variable {names : List Text} {accepts : Text → Bool}

/-- A name is assigned at the head of a text: the name, blanks, and an equals sign. -/
theorem startsAssigned_iff {t : Text} :
    startsAssigned names accepts t = true ↔
      ∃ n b v, t = n ++ (b ++ '=' :: v) ∧
        (∃ name ∈ names, List.Forall₂ (fun w c => sameLetter w c = true) name n) ∧
        Text.IsBlankText b ∧ accepts (Text.trimLeft v) = true := by
  rw [startsAssigned, List.any_eq_true]
  constructor
  · rintro ⟨name, hname, h⟩
    split at h
    · exact absurd h (by simp)
    · next n u hword =>
      obtain ⟨hlike, rfl⟩ := Text.readWord?_eq_some_iff.1 hword
      split at h
      · next v hv =>
        obtain ⟨b, rfl, hb, -⟩ := Text.trimLeft_eq_cons_iff.1 hv
        exact ⟨n, b, v, rfl, ⟨name, hname, hlike⟩, hb, h⟩
      · exact absurd h (by simp)
  · rintro ⟨n, b, v, rfl, ⟨name, hname, hlike⟩, hb, h⟩
    have hword : Text.readWord? sameLetter name (n ++ (b ++ '=' :: v)) = some (n, b ++ '=' :: v) :=
      Text.readWord?_eq_some_iff.2 ⟨hlike, rfl⟩
    have hsign : Text.trimLeft (b ++ '=' :: v) = '=' :: v :=
      Text.trimLeft_append_cons hb (by decide)
    refine ⟨name, hname, ?_⟩
    rw [hword]
    dsimp only
    rw [hsign]
    exact h

/-- Of what stands before a text it only counts whether a name can start there. -/
theorem isAssignedAfter_congr {before before' : Option Char}
    (h : canStartAfter before = canStartAfter before') (t : Text) :
    isAssignedAfter names accepts before t = isAssignedAfter names accepts before' t := by
  cases t with
  | nil => rfl
  | cons c t => rw [isAssignedAfter, isAssignedAfter, h]

/-- **Taking a text apart** where what starts in the first part is settled there. -/
theorem isAssignedAfter_append {before : Option Char} {x z : Text}
    (h : ∀ a b, x = a ++ b → b ≠ [] →
      startsAssigned names accepts (b ++ z) = startsAssigned names accepts b) :
    isAssignedAfter names accepts before (x ++ z) =
      (isAssignedAfter names accepts before x ||
        isAssignedAfter names accepts (Reader.beforeAt before x) z) := by
  induction x generalizing before with
  | nil => rfl
  | cons c x ih =>
    have htail : ∀ a b, x = a ++ b → b ≠ [] →
        startsAssigned names accepts (b ++ z) = startsAssigned names accepts b := by
      rintro a b rfl hb
      exact h (c :: a) b rfl hb
    have hhead : startsAssigned names accepts (c :: (x ++ z)) =
        startsAssigned names accepts (c :: x) := h [] (c :: x) rfl (by simp)
    rw [List.cons_append, isAssignedAfter, isAssignedAfter, hhead, ih htail, Bool.or_assoc,
      Reader.beforeAt_cons]

/-- Nothing is assigned in a text at whose places nothing is. -/
theorem isAssignedAfter_append_of_none {before : Option Char} {x z : Text}
    (h : ∀ a b, x = a ++ b → b ≠ [] → canStartAfter (Reader.beforeAt before a) = true →
      startsAssigned names accepts (b ++ z) = false) :
    isAssignedAfter names accepts before (x ++ z) =
      isAssignedAfter names accepts (Reader.beforeAt before x) z := by
  induction x generalizing before with
  | nil => rfl
  | cons c x ih =>
    have htail : ∀ a b, x = a ++ b → b ≠ [] → canStartAfter (Reader.beforeAt (some c) a) = true →
        startsAssigned names accepts (b ++ z) = false := by
      rintro a b rfl hb hstart
      exact h (c :: a) b rfl hb (by rwa [Reader.beforeAt_cons])
    have hhead :
        (canStartAfter before && startsAssigned names accepts (c :: (x ++ z))) = false := by
      cases hstart : canStartAfter before with
      | false => rfl
      | true => exact h [] (c :: x) rfl (by simp) hstart
    rw [List.cons_append, isAssignedAfter, hhead, Bool.false_or, ih htail, Reader.beforeAt_cons]

/-- Whether a text opens anew shows before its first equals sign. -/
theorem opensAnew_sign (u v w : Text) : opensAnew (u ++ '=' :: v) = opensAnew (u ++ '=' :: w) := by
  have htrim : (Text.trimLeft (u ++ '=' :: v)).head? = (Text.trimLeft (u ++ '=' :: w)).head? := by
    induction u with
    | nil => rfl
    | cons c u ih =>
      rw [Text.trimLeft, Text.trimLeft, List.cons_append, List.cons_append, List.dropWhile_cons,
        List.dropWhile_cons]
      split
      · exact ih
      · rfl
  have hhead : (u ++ '=' :: v).head? = (u ++ '=' :: w).head? := by cases u <;> rfl
  rw [opensAnew, opensAnew, htrim, hhead]

variable (hnames : ∀ name ∈ names, (NameForm.exactly name).IsProper)

include hnames

theorem isNameText_of_like {n : Text}
    (h : ∃ name ∈ names, List.Forall₂ (fun w c => sameLetter w c = true) name n) :
    IsNameText n := by
  obtain ⟨name, hname, hlike⟩ := h
  exact NameForm.isNameText_of_names (hnames name hname) hlike

/-- Nothing is assigned at the head of a text that opens anew. -/
theorem isAssignedAfter_of_opensAnew {z : Text} (h : opensAnew z = true)
    (before before' : Option Char) :
    isAssignedAfter names accepts before z = isAssignedAfter names accepts before' z := by
  cases z with
  | nil => rfl
  | cons c z =>
    have hnone : startsAssigned names accepts (c :: z) = false := by
      rw [Bool.eq_false_iff]
      intro hstarts
      obtain ⟨n, b, v, hsplit, hlike, -⟩ := startsAssigned_iff.1 hstarts
      obtain ⟨hne, hchars⟩ := isNameText_of_like hnames hlike
      obtain ⟨d, n, rfl⟩ := List.exists_cons_of_ne_nil hne
      obtain ⟨rfl, -⟩ := List.cons.inj hsplit
      have hpart := hchars c List.mem_cons_self
      rw [isNamePart_of_opensAnew h] at hpart
      exact Bool.noConfusion hpart
    simp only [isAssignedAfter, hnone, Bool.and_false]

omit hnames in
/-- **A name with its sign does not run across** a seam: what follows opens anew, or what stands
before ends apart. -/
theorem exists_of_assigned_append {n bl b z v : Text} (hn : IsNameText n)
    (hbl : Text.IsBlankText bl) (hb : b ≠ []) (h : endsApart b = true ∨ opensAnew z = true)
    (hsplit : b ++ z = n ++ bl ++ '=' :: v) : ∃ u, b = n ++ bl ++ '=' :: u ∧ v = u ++ z := by
  have hnot : ∀ u, n ++ bl = b ++ u → z = u ++ '=' :: v → False := by
    rintro u hu rfl
    have hsign : n ++ (bl ++ '=' :: []) = b ++ (u ++ ['=']) := by
      rw [← List.append_assoc, hu, List.append_assoc]
    have hnil : Text.IsBlankText [] := by simp [Text.IsBlankText]
    obtain ⟨hapart, hanew⟩ := apart_of_head (p := '"') (w := []) hn hbl hnil (by decide) hb hsign
    rw [List.append_assoc, List.singleton_append, opensAnew_sign u _ v] at hanew
    rw [hapart, hanew] at h
    simp at h
  rcases List.append_eq_append_iff.1 hsplit with ⟨u, hu, hz⟩ | ⟨u, rfl, hz⟩
  · exact (hnot u hu hz).elim
  · cases u with
    | nil => exact (hnot [] (by simp) hz.symm).elim
    | cons c u =>
      obtain ⟨rfl, hv⟩ := List.cons.inj hz
      exact ⟨u, rfl, hv⟩

/-- Whether a name is assigned shows on this side of a seam, when what is accepted does. -/
theorem startsAssigned_append {b z : Text} (hb : b ≠ [])
    (h : endsApart b = true ∨ opensAnew z = true)
    (haccepts : ∀ v, accepts (Text.trimLeft (v ++ z)) = accepts (Text.trimLeft v)) :
    startsAssigned names accepts (b ++ z) = startsAssigned names accepts b := by
  rw [Bool.eq_iff_iff, startsAssigned_iff, startsAssigned_iff]
  constructor
  · rintro ⟨n, bl, v, hsplit, hlike, hbl, hv⟩
    rw [← List.append_assoc] at hsplit
    obtain ⟨u, rfl, rfl⟩ :=
      exists_of_assigned_append (isNameText_of_like hnames hlike) hbl hb h hsplit
    rw [haccepts] at hv
    exact ⟨n, bl, u, by simp, hlike, hbl, hv⟩
  · rintro ⟨n, bl, v, rfl, hlike, hbl, hv⟩
    exact ⟨n, bl, v ++ z, by simp, hlike, hbl, by rwa [haccepts]⟩

/-- **An attribute of another name is passed over.** -/
theorem isAssignedAfter_spelled_append {w r : Text} {m : Attribute} (hw : Text.IsBlankText w)
    (hm : IsNameText m.name) (hgoes : ∀ c ∈ m.name, continuesName c = true)
    (hr : m.IsSpelledBy r) (hvalue : '=' ∉ m.value)
    (hother : ∀ name ∈ names, ¬ (NameForm.exactly name).Names m.name) (before : Option Char)
    (z : Text) :
    isAssignedAfter names accepts before (w ++ (r ++ z)) =
      isAssignedAfter names accepts none z := by
  have hne : r ≠ [] := by
    rintro rfl
    simpa [endsApart] using endsApart_spelled hr
  have happart : endsApart (w ++ r) = true := by
    rw [endsApart_append hne]
    exact endsApart_spelled hr
  rw [← List.append_assoc, isAssignedAfter_append_of_none fun a b hsplit hb hstart => ?_]
  · exact isAssignedAfter_congr (canStartAfter_of_endsApart happart before) z
  rw [Bool.eq_false_iff]
  intro hstarts
  obtain ⟨n, bl, v, hv, hlike, hbl, -⟩ := startsAssigned_iff.1 hstarts
  have hname := isNameText_of_like hnames hlike
  rw [hsplit, endsApart_append hb] at happart
  rw [← List.append_assoc] at hv
  obtain ⟨u, rfl, -⟩ := exists_of_assigned_append hname hbl hb (Or.inl happart) hv
  -- the sign of the name is the only one of the attribute
  obtain ⟨k, q, rfl, hq, e, e', p, rfl, he, he', hp, -⟩ := hr
  have hsigns : (w ++ (m.name ++ e)) ++ '=' :: (e' ++ p :: m.value ++ [q]) =
      (a ++ (n ++ bl)) ++ '=' :: u := by simpa using hsplit
  have hblank : ∀ {b : Text}, Text.IsBlankText b → '=' ∉ b := fun hb hmem =>
    absurd (hb '=' hmem) (by decide)
  have hquote : ∀ {p : Char}, isQuote p = true → '=' ≠ p := by
    rintro _ hp rfl
    exact absurd hp (by decide)
  have hhead : '=' ∉ w ++ (m.name ++ e) := by
    have hmname : '=' ∉ m.name := fun hmem => absurd (hm.2 '=' hmem) (by decide)
    simp [hblank hw, hmname, hblank he]
  have htail : '=' ∉ e' ++ p :: m.value ++ [q] := by
    simp [hblank he', hquote hp, hvalue, hquote hq]
  obtain ⟨hnames', -⟩ := eq_of_split_only (P := (· == '='))
    (fun c hc => beq_false_of_ne fun heq => hhead (heq ▸ hc)) rfl
    (fun c hc => beq_false_of_ne fun heq => htail (heq ▸ hc)) rfl hsigns
  have hboth : a ++ n = w ++ m.name := eq_of_append_blanks hname hbl hm he hnames'.symm
  obtain rfl : n = m.name := eq_of_append_name hname hw hgoes hstart hboth
  obtain ⟨name, hmem, hlike'⟩ := hlike
  exact hother name hmem hlike'

/-! ## Edits -/

/-- **Taking a role out that stands apart** leaves which other names are assigned at all. -/
theorem isAssigned_withoutRole (hother : ∀ name ∈ names, (NameForm.exactly name).Avoids "role")
    {attrs x w r z : Text} {m : Attribute} (hcut : IsRoleCut attrs x w r z m) :
    isAssigned names (fun _ => true) (Fix.withoutRole attrs) =
      isAssigned names (fun _ => true) attrs := by
  have hseam : ∀ y, endsApart x = true ∨ opensAnew y = true →
      isAssigned names (fun _ => true) (x ++ y) = (isAssigned names (fun _ => true) x ||
        isAssignedAfter names (fun _ => true) (Reader.beforeAt none x) y) := by
    intro y h
    refine isAssignedAfter_append fun a b hx hb => startsAssigned_append hnames hb ?_ fun _ => rfl
    rwa [hx, endsApart_append hb] at h
  have hbehind : isAssignedAfter names (fun _ => true) (Reader.beforeAt none x) z =
      isAssignedAfter names (fun _ => true) none z := by
    rcases hcut.seamBehind with h | h
    · exact isAssignedAfter_congr (canStartAfter_of_endsApart h none) _
    · exact isAssignedAfter_of_opensAnew hnames h _ _
  rw [hcut.without, hcut.split, hseam _ hcut.seamBehind, hseam _ hcut.seamBefore, hbehind,
    isAssignedAfter_spelled_append hnames hcut.blank hcut.name hcut.goes hcut.spelled hcut.value
      fun name hmem => hother name hmem _ hcut.role]

/-- Nothing is assigned in attributes of other names that are written in front of a tail. -/
theorem isAssignedAfter_flatMap_written {ds : List (Text × Text)} (hds : ∀ d ∈ ds, IsPlainPair d)
    (hother : ∀ name ∈ names, ∀ d ∈ ds, (NameForm.exactly name).Avoids d.1) {y : Text}
    (hy : Tag.IsTail y) (before : Option Char) :
    isAssignedAfter names accepts before ((ds.flatMap fun d => Fix.written d.1 d.2) ++ y) =
      false := by
  induction ds generalizing before with
  | nil =>
    rw [List.flatMap_nil, List.nil_append, ← List.append_nil y,
      isAssignedAfter_append_of_none fun a b hsplit _ _ => ?_]
    · rfl
    rw [Bool.eq_false_iff]
    intro hstarts
    obtain ⟨n, bl, v, hv, -⟩ := startsAssigned_iff.1 hstarts
    have hsign : '=' ∈ y := by
      rw [List.append_nil] at hv
      simp [hsplit, hv]
    exact absurd (hy '=' hsign) (by decide)
  | cons d ds ih =>
    have hd := hds d List.mem_cons_self
    rw [List.flatMap_cons, written_eq, List.append_assoc, List.append_assoc,
      isAssignedAfter_spelled_append hnames (by decide) hd.name hd.goes (isSpelledBy_written hd)
        hd.value fun name hname => (hother name hname d List.mem_cons_self).not_names]
    exact ih (fun e he => hds e (List.mem_cons_of_mem d he))
      (fun name hname e he => hother name hname e (List.mem_cons_of_mem d he)) none

/-- **Putting attributes in** in front of a tail leaves whether other names are assigned something
that is accepted. -/
theorem isAssigned_extended {ds : List (Text × Text)} (hds : ∀ d ∈ ds, IsPlainPair d)
    (hother : ∀ name ∈ names, ∀ d ∈ ds, (NameForm.exactly name).Avoids d.1) {x y : Text}
    (hy : Tag.IsTail y)
    (haccepts : ∀ ds' ⊆ ds, ∀ v, accepts (Text.trimLeft (v ++
      ((ds'.flatMap fun d => Fix.written d.1 d.2) ++ y))) = accepts (Text.trimLeft v)) :
    isAssigned names accepts (x ++ (ds.flatMap fun d => Fix.written d.1 d.2) ++ y) =
      isAssigned names accepts (x ++ y) := by
  have hseam : ∀ ds' ⊆ ds, isAssigned names accepts
      (x ++ ((ds'.flatMap fun d => Fix.written d.1 d.2) ++ y)) = isAssigned names accepts x := by
    intro ds' hsub
    have hds' : ∀ d ∈ ds', IsPlainPair d := fun d hd => hds d (hsub hd)
    rw [isAssigned, isAssignedAfter_append fun a b _ hb => startsAssigned_append hnames hb
        (Or.inr (opensAnew_flatMap_written hds' hy)) (haccepts ds' hsub),
      isAssignedAfter_flatMap_written hnames hds'
        (fun name hname d hd => hother name hname d (hsub hd)) hy,
      Bool.or_false, isAssigned]
  rw [List.append_assoc, hseam ds (List.Subset.refl ds)]
  exact (hseam [] (by simp)).symm

end Assigned
end Attribute
end AriaLint
