import AriaLint.Proofs.Attribute.Assigned
import AriaLint.Proofs.Fix.Others
import AriaLint.Proofs.Tag.Lowered
import AriaLint.Smell.Detect

/-!
# What fixes do to the tags that the detector looks at

The rules of the detector ask a tag for its role, for the attributes of the ARIA family, and for a
few other attributes.  `Grows` says what of this is kept when attributes are added: the role, if there
is one, and everything else but the attributes that were added.  `Develops` says what is kept by a
whole run; a redundant role is the only thing that can get lost (`Develops.keptRole`), and `tablist`
the only role that can come in (`Develops.newRole`).

This is for tidy tags with no other role behind a redundant one (`hasOneRole`).
-/

namespace AriaLint
namespace Fix

open Attribute Tag Smell

/-! ## Integers -/

/-- A character that an integer behind a quote may start with. -/
def opensInteger (c : Char) : Bool := isQuote c || c == '-' || isDigit c

theorem isDigit_of_isBlank {c : Char} (h : isBlank c = true) : isDigit c = false := by
  by_cases hascii : c.toNat < 128
  · have hall : ∀ n < 128, isBlank (Char.ofNat n) = true → isDigit (Char.ofNat n) = false := by
      decide
    exact forall_ascii (P := fun c => isBlank c = true → isDigit c = false) hall hascii h
  · have hdigits : Stretches.avoidsBlanks digitStretches = true := by decide +kernel
    rw [isDigit, if_neg hascii]
    exact Stretches.has_eq_false hdigits h

/-- A text that opens anew opens no integer. -/
theorem opensInteger_of_opensAnew {z : Text} (h : opensAnew z = true) :
    ∀ c ∈ z.head?, opensInteger c = false := by
  intro c hc
  have hhead : isBlank c = true ∨ c = '/' := by
    rw [opensAnew, hc, Option.all_some, Bool.and_eq_true, Bool.or_eq_true, beq_iff_eq] at h
    exact h.1
  rcases hhead with hblank | rfl
  · have hdash : c ≠ '-' := by
      rintro rfl
      exact absurd hblank (by decide)
    simp [opensInteger, isQuote_of_isBlank hblank, isDigit_of_isBlank hblank, hdash]
  · decide

/-- The text without its first character, if that satisfies `p`. -/
def dropFirst (p : Char → Bool) (t : Text) : Text := if t.head?.any p then t.tail else t

theorem dropFirst_append {p : Char → Bool} {z : Text} (hz : ∀ c ∈ z.head?, p c = false) (t : Text) :
    dropFirst p (t ++ z) = dropFirst p t ++ z := by
  cases t with
  | nil =>
    cases z with
    | nil => rfl
    | cons c z => simp [dropFirst, hz c rfl]
  | cons c t => cases h : p c <;> simp [dropFirst, h]

theorem startsWithInteger_eq (t : Text) :
    startsWithInteger t = (dropFirst (· == '-') (dropFirst isQuote t)).head?.any isDigit := by
  have hsign : ∀ u : Text, (if u.head? = some '-' then u.tail else u) = dropFirst (· == '-') u := by
    intro u
    cases u <;> simp [dropFirst]
  rw [← hsign]
  rfl

/-- Whether a text starts with an integer shows before what opens none. -/
theorem startsWithInteger_append {z : Text} (hz : ∀ c ∈ z.head?, opensInteger c = false)
    (t : Text) : startsWithInteger (t ++ z) = startsWithInteger t := by
  simp only [opensInteger, Bool.or_eq_false_iff] at hz
  rw [startsWithInteger_eq, startsWithInteger_eq, dropFirst_append fun c hc => (hz c hc).1.1,
    dropFirst_append fun c hc => (hz c hc).1.2]
  cases dropFirst (· == '-') (dropFirst isQuote t) with
  | cons c u => rfl
  | nil =>
    cases z with
    | nil => rfl
    | cons c z => exact (hz c rfl).2

/-- Nor does it depend on a text that opens anew, blanks aside. -/
theorem startsWithInteger_trimLeft_append {z : Text} (hz : opensAnew z = true)
    (htrim : ∀ c ∈ (Text.trimLeft z).head?, opensInteger c = false) (t : Text) :
    startsWithInteger (Text.trimLeft (t ++ z)) = startsWithInteger (Text.trimLeft t) := by
  rw [Text.trimLeft, Text.trimLeft, List.dropWhile_append]
  split
  · next hblank =>
    rw [List.isEmpty_iff.1 hblank]
    exact startsWithInteger_append htrim []
  · exact startsWithInteger_append (opensInteger_of_opensAnew hz) _

/-! ## Adding attributes -/

/-- What the detector may find in the second tag, given the first one, after attributes were
added. -/
structure Grows (t u : Tag) : Prop where
  role : ∀ role, t.role? = some role → u.role? = some role
  newRole : ∀ role, u.role? = some role → t.role? = some role ∨ role = "tablist"
  checked : ∀ value, value? "aria-checked" t.attrs = some value →
    value? "aria-checked" u.attrs = some value
  keys : isAssigned keyHandlers (fun _ => true) u.attrs =
    isAssigned keyHandlers (fun _ => true) t.attrs
  tabindex : isAssigned ["tabindex"] startsWithInteger u.attrs =
    isAssigned ["tabindex"] startsWithInteger t.attrs
  family : ∃ as ⊆ addedPairs.map ofPair, (reader [.aria]).items u.attrs =
    (reader [.aria]).items t.attrs ++ as
  closesItself : u.isSelfClosing = t.isSelfClosing

namespace Grows

variable {t u v : Tag}

theorem refl (t : Tag) : Grows t t :=
  ⟨fun _ hr => hr, fun _ hr => Or.inl hr, fun _ hv => hv, rfl, rfl, ⟨[], by simp, by simp⟩, rfl⟩

theorem trans (h : Grows t u) (h' : Grows u v) : Grows t v where
  role r hr := h'.role r (h.role r hr)
  newRole r hr := (h'.newRole r hr).elim (h.newRole r) Or.inr
  checked value hv := h'.checked value (h.checked value hv)
  keys := h'.keys.trans h.keys
  tabindex := h'.tabindex.trans h.tabindex
  family := by
    obtain ⟨as, has, heq⟩ := h.family
    obtain ⟨bs, hbs, heq'⟩ := h'.family
    exact ⟨as ++ bs, List.append_subset.2 ⟨has, hbs⟩, by rw [heq', heq, List.append_assoc]⟩
  closesItself := h'.closesItself.trans h.closesItself

end Grows

section Additions

variable {ds : List (Text × Text)} (hds : ds ⊆ addedPairs) {t u : Tag}
  (hext : Extends (ds.flatMap fun d => written d.1 d.2) t u) (hclosed : endsOpen t.attrs = false)

include hds hext hclosed

/-- The value of an attribute stays, and a new one is the one that was added. -/
theorem value_cases_of_extends (name : Text)
    (hname : (NameForm.exactly (Text.lower name)).IsProper) (filled : Bool) :
    (find? name filled u.attrs).map Found.item = (find? name filled t.attrs).map Found.item ∨
      (find? name filled t.attrs).map Found.item = none ∧
        ∃ d ∈ ds, (find? name filled u.attrs).map Found.item = some (ofPair d) := by
  obtain ⟨-, x, y, hx, hu, hy, -⟩ := hext
  rw [hx, endsOpen_append_of_isUnquoted _ (isUnquoted_of_isTail hy)] at hclosed
  rw [hx, hu]
  exact first?_extended_cases (by simpa using hname) _ none
    (fun d hd => isPlainPair_of_mem_addedPairs d (hds hd)) hy hclosed

/-- The only role that is added is that of a tablist. -/
theorem newRole_of_extends {role : Text} (hrole : u.role? = some role) :
    t.role? = some role ∨ role = "tablist" := by
  obtain ⟨value, hvalue, rfl⟩ := exists_filledValue?_of_role? hrole
  obtain ⟨f, hf, rfl⟩ := Option.map_eq_some_iff.1 hvalue
  have hlower : Text.lower "role" = "role" := by decide
  rcases value_cases_of_extends hds hext hclosed "role" (by decide) true with
    heq | ⟨-, d, hd, heq⟩
  · refine Or.inl ?_
    rw [← role?_eq_of_filledValue? (t := t) (u := u), hrole]
    have hvalues := congrArg (Option.map Attribute.value) heq
    simpa [filledValue?, Function.comp_def] using hvalues
  · obtain ⟨r, -, -, hlike⟩ := exists_spelled_role hf
    rw [hf, Option.map_some, Option.some.injEq] at heq
    rw [heq] at hlike
    have hadded : ∀ d ∈ addedPairs, d.1.map fold = ("role" : Text).map fold →
        Text.lower (Text.trim d.2) = "tablist" := by decide
    rw [heq]
    exact Or.inr (hadded d (hds hd) (map_fold_eq hlike).symm)

theorem checked_of_extends {value : Text} (hvalue : value? "aria-checked" t.attrs = some value) :
    value? "aria-checked" u.attrs = some value := by
  obtain ⟨f, hf, rfl⟩ := Option.map_eq_some_iff.1 hvalue
  rcases value_cases_of_extends hds hext hclosed "aria-checked" (by decide) false with
    heq | ⟨hnone, -⟩
  · have hvalues := congrArg (Option.map Attribute.value) heq
    rw [← hvalue]
    simpa [value?, Function.comp_def] using hvalues
  · rw [hf] at hnone
    exact absurd hnone (by simp)

omit hclosed in
theorem assigned_of_extends {names : List Text} {accepts : Text → Bool}
    (hnames : ∀ name ∈ names, (NameForm.exactly name).IsProper)
    (hother : ∀ name ∈ names, ∀ d ∈ addedPairs, name.map fold ≠ d.1.map fold)
    (haccepts : ∀ z, opensAnew z = true → (∀ c ∈ (Text.trimLeft z).head?, opensInteger c = false) →
      ∀ v, accepts (Text.trimLeft (v ++ z)) = accepts (Text.trimLeft v)) :
    isAssigned names accepts u.attrs = isAssigned names accepts t.attrs := by
  obtain ⟨-, x, y, hx, hu, hy, -⟩ := hext
  have hplain : ∀ ds' ⊆ ds, ∀ d ∈ ds', IsPlainPair d := fun ds' hsub d hd =>
    isPlainPair_of_mem_addedPairs d (hds (hsub hd))
  rw [hx, hu]
  refine isAssigned_extended hnames (hplain ds (List.Subset.refl ds))
    (fun name hname d hd => avoids_exactly (hother name hname d (hds hd))) hy
    fun ds' hsub => haccepts _ (opensAnew_flatMap_written (hplain ds' hsub) hy) ?_
  -- what follows a seam starts with a name or a slash
  intro c hc
  cases ds' with
  | nil =>
    rw [List.flatMap_nil, List.nil_append] at hc
    rw [eq_slash_of_isTail hy hc]
    decide
  | cons d ds' =>
    have hadded : ∀ d ∈ addedPairs, d.1 ≠ [] ∧
        d.1.head?.all (fun c => !isBlank c && !opensInteger c) = true := by decide
    obtain ⟨hne, hhead⟩ := hadded d (hds (hsub List.mem_cons_self))
    obtain ⟨l, n, hn⟩ := List.exists_cons_of_ne_nil hne
    simp only [hn, List.head?_cons, Option.all_some, Bool.and_eq_true, Bool.not_eq_true'] at hhead
    have htrim : ∀ k z, Text.trimLeft ([' '] ++ (l :: n ++ k) ++ z) = l :: (n ++ k ++ z) :=
      fun k z => Text.trimLeft_append_cons (b := [' ']) (by decide) hhead.1
    rw [List.flatMap_cons, written_eq, hn, List.append_assoc, htrim] at hc
    obtain rfl := Option.some.inj hc
    exact hhead.2

omit hds hclosed in
/-- A tag closes itself as before, since the attributes that are added end with a quote. -/
theorem isSelfClosing_of_extends : u.isSelfClosing = t.isSelfClosing := by
  rcases List.eq_nil_or_concat ds with rfl | ⟨ds, d, rfl⟩
  · obtain ⟨-, x, y, hx, hu, -⟩ := hext
    rw [Tag.isSelfClosing, Tag.isSelfClosing, hx, hu]
    simp
  · refine hext.isSelfClosing_eq (c := '"') ?_ (by decide) (by decide)
    have hwritten : written d.1 d.2 = (' ' :: (d.1 ++ '=' :: '"' :: d.2)) ++ ['"'] := by
      simp [written]
    rw [List.concat_eq_append, List.flatMap_append, List.flatMap_singleton, hwritten,
      ← List.append_assoc, List.getLast?_concat]

theorem grows_of_extends : Grows t u where
  role _ hr := role?_of_extends hext hr
  newRole _ hr := newRole_of_extends hds hext hclosed hr
  checked _ hv := checked_of_extends hds hext hclosed hv
  keys := assigned_of_extends hds hext (by decide) (by decide) fun _ _ _ _ => rfl
  tabindex := assigned_of_extends hds hext (by decide) (by decide) fun _ hz htrim v =>
    startsWithInteger_trimLeft_append hz htrim v
  family := by
    obtain ⟨-, x, y, hx, hu, hy, -⟩ := hext
    rw [hx, endsOpen_append_of_isUnquoted _ (isUnquoted_of_isTail hy)] at hclosed
    have hforms : ∀ form ∈ [NameForm.aria], form.IsProper := by decide
    obtain ⟨as, has, heq⟩ := items_extended hforms
      (fun d hd => isPlainPair_of_mem_addedPairs d (hds hd)) hy hclosed
    exact ⟨as, fun a ha => List.map_subset ofPair hds (has ha), by rw [hx, hu, heq]⟩
  closesItself := isSelfClosing_of_extends hext

end Additions

theorem Gains.grows {t u : Tag} (h : Gains t u)
    (hclosed : AriaLint.Attribute.endsOpen t.attrs = false) : Grows t u := by
  obtain ⟨ds, hds, hext⟩ := h
  exact grows_of_extends hds hext hclosed

/-! ## A whole run -/

theorem contains_of_implicit?_button {t : Tag} (hname : ∀ c ∈ t.rawName, isNameChar c = true)
    (h : Role.implicit? t.name t.attrs = some "button") :
    nativeInteractiveElements.contains t.name = true := by
  simp only [Role.implicit?, normalize_name hname] at h
  split at h
  · next role hlook =>
    have hall : ∀ p ∈ Role.elementRoles, p.2 = "button" →
        nativeInteractiveElements.contains p.1 = true := by decide
    exact hall _ (Role.mem_of_lookup hlook) (Option.some.inj h)
  · split at h
    · next hlink =>
      rw [hlink]
      decide
    · split at h
      · next hinput =>
        rw [hinput]
        decide
      · exact absurd h (by simp)

/-- A tag that closes itself still does so without its role: the slash is no part of the role. -/
theorem endsWithSlash_withoutRole {attrs x w r z : Text} {m : Attribute}
    (hcut : IsRoleCut attrs x w r z m) (h : endsWithSlash attrs = true) :
    endsWithSlash (withoutRole attrs) = true := by
  obtain ⟨k, q, hr, hq, -⟩ := hcut.spelled
  have hne : q ≠ '/' := by
    rintro rfl
    exact absurd hq (by decide)
  have hsplit : attrs = (x ++ w ++ m.name ++ k) ++ q :: z := by
    rw [hcut.split, hr]
    simp
  rw [hsplit, endsWithSlash_append_cons_of_ne (isBlank_of_isQuote hq) hne] at h
  rw [hcut.without]
  exact endsWithSlash_append_of_endsWithSlash h x

/-- There is no other role behind a redundant one. -/
def hasOneRole (t : Tag) : Bool := (removeRedundantRole? t).all fun e => e.tag.role?.isNone

/-- What the detector may find in a tag after a run, given what it finds before. -/
structure Develops (t u : Tag) : Prop where
  others : KeepsOthers editedNames t u
  keys : isAssigned keyHandlers (fun _ => true) u.attrs =
    isAssigned keyHandlers (fun _ => true) t.attrs
  checked : ∀ value, value? "aria-checked" t.attrs = some value →
    value? "aria-checked" u.attrs = some value
  family : ∃ as ⊆ addedPairs.map ofPair, (reader [.aria]).items u.attrs =
    (reader [.aria]).items t.attrs ++ as
  cases : Grows t u ∨ ∃ native, Role.implicit? t.name t.attrs = some native ∧
    t.role? = some native ∧ ∀ role, u.role? = some role → role = "tablist"
  closesItself : t.isSelfClosing = true → u.isSelfClosing = true

/-- A tag that is left alone develops into itself. -/
theorem Develops.refl (t : Tag) : Develops t t :=
  ⟨KeepsOthers.refl t, rfl, fun _ hvalue => hvalue, (Grows.refl t).family, Or.inl (Grows.refl t), id⟩

/-- **A run over a tidy tag** adds attributes, or takes its redundant role out and adds some. -/
theorem develops_of_becomes {t u : Tag} (htidy : isTidy t = true) (hone : hasOneRole t = true)
    (h : Becomes t u) : Develops t u := by
  obtain ⟨v, w, hv, hw, hu⟩ := exists_gains_of_becomes h
  obtain ⟨hrole, hclosed⟩ := keepsOthers_edited htidy
  have hclosed' := hv.endsOpen hclosed
  have hgrows : Grows (edited removeRedundantRole? t) u :=
    ((hv.grows hclosed).trans (hw.grows hclosed')).trans (hu.grows (hw.endsOpen hclosed'))
  have hothers := keepsOthers_of_becomes htidy h
  cases he : removeRedundantRole? t with
  | none =>
    rw [edited_of_none he] at hgrows
    exact ⟨hothers, hgrows.keys, hgrows.checked, hgrows.family, Or.inl hgrows,
      fun hself => hgrows.closesItself.trans hself⟩
  | some e =>
    rw [edited_of_some he] at hgrows hrole
    obtain ⟨native, hnative, ht, htag⟩ := exists_role_of_removeRedundantRole? he
    obtain ⟨x, y, r, z, m, hcut, -⟩ := exists_isRoleCut_of_isTidy he htidy
    rw [hasOneRole, he, Option.all_some, Option.isNone_iff_eq_none] at hone
    refine ⟨hothers, ?_, ?_, ?_, Or.inr ⟨native, hnative, ht, fun role hr => ?_⟩, fun hself => ?_⟩
    · rw [hgrows.keys, htag]
      exact isAssigned_withoutRole (by decide) (fun name hname => avoids_exactly (by
        revert name
        decide)) hcut
    · intro value hvalue
      refine hgrows.checked value ?_
      rw [← hvalue]
      exact hrole.value?_eq ⟨by decide, fun other hother => avoids_exactly (by
        revert other
        decide)⟩
    · obtain ⟨as, has, heq⟩ := hgrows.family
      refine ⟨as, has, ?_⟩
      have hproper : ∀ form ∈ [NameForm.aria], form.IsProper := by decide
      have hsame := itemsAfter_withoutRole hproper (fun _ => true) List.not_mem_nil none
        (by simpa using avoids_aria (by decide)) hcut
      rw [Reader.filter_true] at hsame
      rw [heq, htag]
      exact congrArg (· ++ as) hsame
    · refine (hgrows.newRole role hr).resolve_left fun hrole => ?_
      rw [hone] at hrole
      exact absurd hrole (by simp)
    · rw [hgrows.closesItself, htag]
      exact endsWithSlash_withoutRole hcut hself

namespace Develops

variable {t u : Tag} (h : Develops t u)

include h

theorem name_eq : u.name = t.name := congrArg Text.lower h.others.rawName

theorem has_eq {name : Text} (hname : IsUnrelated name) : u.has name = t.has name :=
  h.others.has_eq hname.isOther

theorem hasFilled_eq {name : Text} (hname : IsUnrelated name) :
    hasFilled name u.attrs = hasFilled name t.attrs := by
  rw [hasFilled, hasFilled, h.others.filledValue?_eq hname.isOther]

theorem tellsBoolean_eq {name : Text} (hname : IsUnrelated name) :
    tellsBoolean name u = tellsBoolean name t := by
  rw [tellsBoolean, tellsBoolean, h.others.value?_eq hname.isOther]

theorem hasNameAttribute_eq : hasNameAttribute u = hasNameAttribute t := by
  have hall : ∀ name ∈ nameAttributes, IsUnrelated name := by decide
  rw [hasNameAttribute, hasNameAttribute, Bool.eq_iff_iff, List.any_eq_true, List.any_eq_true]
  exact exists_congr fun name => and_congr_right fun hname => by rw [h.has_eq (hall name hname)]

theorem implicit?_eq : Role.implicit? u.name u.attrs = Role.implicit? t.name t.attrs :=
  implicit?_of_keepsOthers h.others

/-- **What becomes of roles**: one that was there may stay or, when it is redundant, go; and only
tablists come in. -/
theorem newRole {role : Text} (hu : u.role? = some role) :
    t.role? = some role ∨ role = "tablist" := by
  rcases h.cases with hgrows | ⟨native, -, -, hnew⟩
  · exact hgrows.newRole role hu
  · exact Or.inr (hnew role hu)

theorem oldRole {role : Text} (hne : role ≠ "tablist") (hu : u.role? = some role) :
    t.role? = some role := (h.newRole hu).resolve_right hne

theorem keptRole {role : Text} (ht : t.role? = some role) :
    u.role? = some role ∨ Role.implicit? t.name t.attrs = some role := by
  rcases h.cases with hgrows | ⟨native, hnative, hrole, -⟩
  · exact Or.inl (hgrows.role role ht)
  · rw [hrole] at ht
    obtain rfl := Option.some.inj ht
    exact Or.inr hnative

/-- A tag that has kept a role has only grown. -/
theorem grows_of_role? {role : Text} (ht : t.role? = some role) (hu : u.role? = some role) :
    Grows t u := by
  refine h.cases.resolve_right ?_
  rintro ⟨native, hnative, hrole, hnew⟩
  rw [hrole] at ht
  obtain rfl := Option.some.inj ht
  have hmem := Role.implicit?_mem hnative
  rw [hnew native hu] at hmem
  exact absurd hmem (by decide)

/-- **The ARIA attributes** are the ones that were there and some that were added. -/
theorem ariaAttributes_eq :
    ∃ as ⊆ addedPairs.map ofPair, ariaAttributes u.attrs = ariaAttributes t.attrs ++ as := by
  obtain ⟨as, has, heq⟩ := h.family
  have hlower : ∀ a ∈ addedPairs.map ofPair, { a with name := Text.lower a.name } = a := by decide
  refine ⟨as, has, ?_⟩
  rw [ariaAttributes, heq, List.map_append, ← ariaAttributes]
  exact congrArg _ ((List.map_congr_left fun a ha => hlower a (has ha)).trans (List.map_id' as))

/-- The first mouse handler stays. -/
theorem firstOf?_eq : firstOf? mouseHandlers u.attrs = firstOf? mouseHandlers t.attrs := by
  have hforms : ∀ form ∈ mouseHandlers.map NameForm.exactly, form.IsOther editedNames :=
    isOther_of_mem_map (by decide)
  have hfirst := h.others.first _ hforms (fun _ => true) [] none (by simp)
  rwa [Reader.filter_true] at hfirst

/-- Keyboard support stays. -/
theorem hasKeyboardSupport_of (hname : ∀ c ∈ t.rawName, isNameChar c = true)
    (ht : hasKeyboardSupport t = true) : hasKeyboardSupport u = true := by
  have htabindex : value? "tabindex" u.attrs = value? "tabindex" t.attrs :=
    h.others.value?_eq (IsUnrelated.isOther (by decide))
  simp only [hasKeyboardSupport, h.name_eq, htabindex, h.keys, Bool.or_eq_true, beq_iff_eq] at ht ⊢
  rcases ht with ((hnative | hrole) | htab) | hkeys
  · exact Or.inl (Or.inl (Or.inl hnative))
  · rcases h.keptRole hrole with hu | hnative
    · exact Or.inl (Or.inl (Or.inr hu))
    · exact Or.inl (Or.inl (Or.inl (contains_of_implicit?_button hname hnative)))
  · exact Or.inl (Or.inr htab)
  · exact Or.inr hkeys

/-- A tag that has only grown can be focused when it could before. -/
theorem isFocusable_of (hgrows : Grows t u) (hu : isFocusable u = true) : isFocusable t = true := by
  rw [isFocusable, h.name_eq, hgrows.tabindex, h.hasFilled_eq (by decide)] at hu
  exact hu

end Develops

end Fix
end AriaLint
