import AriaLint.Proofs.Smell.Options

/-!
# When a kind of smell is reported

The report of a snippet is a list of findings, made by five passes and cut off by caps.  Whether
some kind occurs in it at all is a question about the snippet alone: `Shows` answers it, kind by kind,
and `exists_kind_iff_shows` says that the default options report exactly the kinds that show.

The caps play no part, because none of the default ones is zero (`exists_kind_keepFirst_iff`).
Neither do the passes, because the findings of a kind are all made by the pass of its category
(`findings_eq_filter`), so each pass is taken by itself.
-/

namespace AriaLint.Smell

open Attribute Tag

/-! ## Caps and passes -/

/-- A kind is kept where some of it was found and there is room for any of it. -/
theorem exists_kind_keepFirst_iff {room : Kind → Option Nat} {ds : List Diagnostic} {k : Kind} :
    (∃ d ∈ keepFirst room ds, d.kind = k) ↔ room k ≠ some 0 ∧ ∃ d ∈ ds, d.kind = k := by
  induction ds generalizing room with
  | nil => simp [keepFirst]
  | cons d ds ih =>
    by_cases hd : d.kind = k
    · subst hd
      rcases hroom : room d.kind with _ | _ | n
      · simp [keepFirst, hroom]
      · simp [keepFirst, hroom, ih]
      · simp [keepFirst, hroom]
    · rcases hroom : room d.kind with _ | _ | n
      · simp [keepFirst, hroom, hd, ih]
      · simp [keepFirst, hroom, hd, ih]
      · simp [keepFirst, hroom, hd, ih, Function.update_of_ne (Ne.symm hd)]

theorem room_default (k : Kind) : (Options.default.cap k).map Int.toNat ≠ some 0 := by
  cases k <;> decide

/-- What one pass finds, among the findings of all. -/
theorem findings_eq_filter {s : Text} {dss : List (List Diagnostic)}
    (h : Category.all.mapM (Category.findings s) = .ok dss) (c : Category) :
    c.findings s = .ok (dss.flatten.filter fun d => d.category == c) := by
  obtain ⟨ess, hess, hflat⟩ := findings_filter (· == c) h
  have hone : Category.all.filter (· == c) = [c] := by cases c <;> rfl
  rw [hone] at hess
  obtain ⟨ds, fss, hds, hnil, rfl⟩ := eq_cons_of_mapM_cons hess
  obtain rfl := Except.ok.inj hnil
  rw [hds, ← hflat]
  simp

/-- A kind is reported when the pass of its category finds it. -/
theorem exists_kind_iff_findings {s : Text} {ds : List Diagnostic} (hblank : Text.trim s ≠ [])
    (h : detect .default s = .ok ds) (k : Kind) :
    ∃ es, k.category.findings s = .ok es ∧
      ((∃ d ∈ ds, d.kind = k) ↔ ∃ d ∈ es, d.kind = k) := by
  have hall : Category.all.filter Options.default.isEnabled = Category.all := rfl
  obtain ⟨dss, hdss, rfl⟩ := exists_findings_of_detect hblank h
  rw [hall] at hdss
  refine ⟨_, findings_eq_filter hdss k.category, ?_⟩
  rw [exists_kind_keepFirst_iff]
  constructor
  · rintro ⟨-, d, hd, rfl⟩
    exact ⟨d, List.mem_filter.2 ⟨hd, by simp [Diagnostic.category]⟩, rfl⟩
  · rintro ⟨d, hd, hkind⟩
    exact ⟨room_default k, d, (List.mem_filter.1 hd).1, hkind⟩

/-- Of a kind without a cap everything is reported that the pass of its category finds. -/
theorem exists_filter_kind_eq {s : Text} {ds : List Diagnostic} (hblank : Text.trim s ≠ [])
    (h : detect .default s = .ok ds) {k : Kind} (hcap : Options.default.cap k = none) :
    ∃ es, k.category.findings s = .ok es ∧
      ds.filter (·.kind = k) = es.filter (·.kind = k) := by
  have hall : Category.all.filter Options.default.isEnabled = Category.all := rfl
  obtain ⟨dss, hdss, rfl⟩ := exists_findings_of_detect hblank h
  rw [hall] at hdss
  refine ⟨_, findings_eq_filter hdss k.category, ?_⟩
  rw [filter_keepFirst (by rw [hcap]; rfl), List.filter_filter]
  refine List.filter_congr fun d _ => ?_
  by_cases hd : d.kind = k
  · simp [hd, Diagnostic.category]
  · simp [hd]

/-! ## What shows in a snippet -/

/-- The roles of a snippet call for another role, and none of those that would do is there. -/
def ContainmentRule.Fails (rule : ContainmentRule) (roles : List Text) : Prop :=
  (∃ role ∈ rule.owned, role ∈ roles) ∧ ∀ role ∈ rule.containers, role ∉ roles

/-- A smell of the kind is somewhere in the snippet. -/
def Shows (s : Text) : Kind → Prop
  | .redundantRole => ∃ t ∈ all s, ∃ role, t.role? = some role ∧
      Role.implicit? t.name t.attrs = some role
  | .roleOverridesNative => ∃ t ∈ all s, ∃ role native, t.role? = some role ∧
      Role.implicit? t.name t.attrs = some native ∧ native ≠ role
  | .presentationalFocusable => ∃ t ∈ all s, ∃ role, t.role? = some role ∧
      role ∈ presentationalRoles ∧ isFocusable t = true
  | .mouseOnlyHandler => ∃ t ∈ all s, (firstOf? mouseHandlers t.attrs).isSome = true ∧
      hasKeyboardSupport t = false
  | .expandedWithoutControls => ∃ t ∈ all s, tellsBoolean "aria-expanded" t = true ∧
      hasFilled "aria-controls" t.attrs = false
  | .tabWithExpanded => ∃ t ∈ all s, t.role? = some "tab" ∧ tellsBoolean "aria-expanded" t = true
  | .dialogWithoutModal => (∃ t ∈ all s, t.role? = some "dialog") ∧
      ∀ t ∈ all s, tellsBoolean "aria-modal" t = false
  | .switchWithoutChecked => (∃ t ∈ all s, t.role? = some "switch") ∧
      ∀ t ∈ all s, tellsBoolean "aria-checked" t = false
  | .labelWithoutRole => ∃ t ∈ all s, (t.has "aria-label" = true ∨ t.has "aria-labelledby" = true) ∧
      t.role? = none ∧ Role.implicit? t.name t.attrs = none
  | .conflictingNameSources => ∃ t ∈ all s, t.has "aria-label" = true ∧
      t.has "aria-labelledby" = true
  | .buttonWithoutName => ∃ o ∈ Occurrence.all s, o.tag.name = "button" ∧
      hasNameAttribute o.tag = false ∧ o.innerText s = .ok (some [])
  | .interactiveWithoutName => ∃ o ∈ Occurrence.all s, ∃ role, o.tag.role? = some role ∧
      role ∈ rolesNeedingName ∧ o.tag.name ∉ nativeInteractiveElements ∧
      hasNameAttribute o.tag = false ∧ ∃ inner, o.innerText s = .ok inner ∧ inner.getD [] = []
  | .emptyName => blankOf ["aria-label", "aria-labelledby"] s ≠ []
  | .missingRequiredAttribute => ∃ t ∈ all s, ∃ role, t.role? = some role ∧
      ∃ name ∈ Role.requiredBy role, name ∉ (ariaAttributes t.attrs).map Attribute.name
  | .discouragedAttribute => ∃ t ∈ all s, ∃ role, t.role? = some role ∧
      ∃ name ∈ Role.discouragedBy role, name ∈ (ariaAttributes t.attrs).map Attribute.name
  | .invalidAttributeValue => ∃ t ∈ all s, ∃ role, t.role? = some role ∧
      ∃ a ∈ ariaAttributes t.attrs, Role.admits a.name a.value = false
  | k => ∃ rule ∈ containmentRules, rule.kind = k ∧ rule.Fails (roles s)

/-! ## Each pass -/

section Passes

variable {s : Text} {es : List Diagnostic} {k : Kind}

/-- What a rule finds in some tags it finds in one of them. -/
theorem exists_kind_flatMap_iff {rule : Tag → List Diagnostic} {ts : List Tag} :
    (∃ d ∈ ts.flatMap rule, d.kind = k) ↔ ∃ t ∈ ts, ∃ d ∈ rule t, d.kind = k := by
  simp only [List.mem_flatMap]
  constructor
  · rintro ⟨d, ⟨t, ht, hd⟩, hk⟩
    exact ⟨t, ht, d, hd, hk⟩
  · rintro ⟨t, ht, d, hd, hk⟩
    exact ⟨d, ⟨t, ht, hd⟩, hk⟩

theorem exists_kind_ite_iff {p : Prop} [Decidable p] {d : Diagnostic} :
    (∃ e ∈ (if p then [d] else []), e.kind = k) ↔ p ∧ d.kind = k := by
  split
  · next h => simp [h]
  · next h => simp [h]

theorem exists_kind_nativeRole_iff {t : Tag} {role : Text} :
    (∃ d ∈ nativeRole t role, d.kind = k) ↔
      ∃ native, Role.implicit? t.name t.attrs = some native ∧
        (native = role ∧ .redundantRole = k ∨ native ≠ role ∧ .roleOverridesNative = k) := by
  unfold nativeRole
  cases Role.implicit? t.name t.attrs with
  | none => simp
  | some native =>
    by_cases hrole : native = role
    · simp [hrole]
    · simp [hrole]

theorem exists_kind_hiddenFocusable_iff {t : Tag} {role : Text} :
    (∃ d ∈ hiddenFocusable t role, d.kind = k) ↔
      role ∈ presentationalRoles ∧ isFocusable t = true ∧ .presentationalFocusable = k := by
  rw [hiddenFocusable, exists_kind_ite_iff, Bool.and_eq_true, List.contains_iff_mem, and_assoc]

/-- What the role of one tag says about its meaning. -/
theorem exists_kind_roleOf_iff {t : Tag} :
    (∃ d ∈ Smell.roleSemantics t, d.kind = k) ↔
      ∃ role, t.role? = some role ∧
        ((∃ native, Role.implicit? t.name t.attrs = some native ∧
            (native = role ∧ .redundantRole = k ∨ native ≠ role ∧ .roleOverridesNative = k)) ∨
          role ∈ presentationalRoles ∧ isFocusable t = true ∧ .presentationalFocusable = k) := by
  unfold Smell.roleSemantics
  cases t.role? with
  | none => simp
  | some role =>
    simp only [List.mem_append, or_and_right, exists_or, exists_kind_nativeRole_iff,
      exists_kind_hiddenFocusable_iff, Option.some.injEq, exists_eq_left']

theorem exists_kind_roleSemantics_iff (h : k.category = .roleSemantics) :
    (∃ d ∈ (all s).flatMap Smell.roleSemantics, d.kind = k) ↔ Shows s k := by
  simp only [exists_kind_flatMap_iff, exists_kind_roleOf_iff]
  cases k with
  | redundantRole => simp [Shows]
  | roleOverridesNative => simp [Shows]
  | presentationalFocusable => simp [Shows]
  | _ => exact absurd h (by decide)

theorem exists_kind_append_iff {ds es : List Diagnostic} :
    (∃ d ∈ ds ++ es, d.kind = k) ↔ (∃ d ∈ ds, d.kind = k) ∨ ∃ d ∈ es, d.kind = k := by
  simp only [List.mem_append, or_and_right, exists_or]

theorem exists_kind_mouseOnly_iff {t : Tag} :
    (∃ d ∈ mouseOnly t, d.kind = k) ↔ (firstOf? mouseHandlers t.attrs).isSome = true ∧
      hasKeyboardSupport t = false ∧ .mouseOnlyHandler = k := by
  unfold mouseOnly
  cases firstOf? mouseHandlers t.attrs with
  | none => simp
  | some handler =>
    cases hasKeyboardSupport t with
    | false => simp
    | true => simp

theorem exists_kind_interaction_iff (h : k.category = .interaction) :
    (∃ d ∈ interactionFindings (all s), d.kind = k) ↔ Shows s k := by
  simp only [interactionFindings, exists_kind_append_iff, exists_kind_flatMap_iff,
    exists_kind_mouseOnly_iff, uncontrolledDisclosure, expandedTab, dialogModality, switchState,
    exists_kind_ite_iff]
  cases k with
  | mouseOnlyHandler => simp [Shows]
  | expandedWithoutControls => simp [Shows]
  | tabWithExpanded => simp [Shows]
  | dialogWithoutModal => simp [Shows]
  | switchWithoutChecked => simp [Shows]
  | _ => exact absurd h (by decide)

/-- What a walk finds it finds at one of its steps. -/
theorem exists_kind_mapM_iff {α ε : Type} {rule : α → Except ε (List Diagnostic)} {as : List α}
    {dss : List (List Diagnostic)} (h : as.mapM rule = .ok dss) :
    (∃ d ∈ dss.flatten, d.kind = k) ↔ ∃ a ∈ as, ∃ ds, rule a = .ok ds ∧ ∃ d ∈ ds, d.kind = k := by
  induction as generalizing dss with
  | nil =>
    obtain rfl := Except.ok.inj h
    simp
  | cons a as ih =>
    obtain ⟨ds, ess, hds, hess, rfl⟩ := eq_cons_of_mapM_cons h
    rw [List.flatten_cons, exists_kind_append_iff, ih hess]
    simp [hds]

theorem exists_kind_labelSources_iff {t : Tag} :
    (∃ d ∈ labelSources t, d.kind = k) ↔
      ((t.has "aria-label" = true ∨ t.has "aria-labelledby" = true) ∧ t.role? = none ∧
        Role.implicit? t.name t.attrs = none) ∧ .labelWithoutRole = k ∨
      (t.has "aria-label" = true ∧ t.has "aria-labelledby" = true) ∧
        .conflictingNameSources = k := by
  simp only [labelSources, exists_kind_append_iff, exists_kind_ite_iff, Bool.and_eq_true,
    Bool.or_eq_true, Option.isNone_iff_eq_none]

/-- A rule that looks at a reading which may fail. -/
theorem exists_kind_map_ite_iff {ε α : Type} {x : Except ε α} {p : α → Prop} [DecidablePred p]
    {d : Diagnostic} :
    (∃ ds, (x.map fun a => if p a then [d] else []) = .ok ds ∧ ∃ e ∈ ds, e.kind = k) ↔
      (∃ a, x = .ok a ∧ p a) ∧ d.kind = k := by
  cases x with
  | error e => simp [Except.map]
  | ok a => 
    simp only [Except.map, Except.ok.injEq, exists_eq_left', exists_kind_ite_iff]

theorem exists_kind_ok_nil_iff {ε : Type} :
    ¬ ∃ ds : List Diagnostic, (.ok [] : Except ε (List Diagnostic)) = .ok ds ∧
      ∃ d ∈ ds, d.kind = k := by
  simp

theorem exists_kind_namelessButton_iff {o : Occurrence} :
    (∃ ds, namelessButton s o = .ok ds ∧ ∃ d ∈ ds, d.kind = k) ↔ o.tag.name = "button" ∧
      hasNameAttribute o.tag = false ∧ o.innerText s = .ok (some []) ∧ .buttonWithoutName = k := by
  unfold namelessButton
  split
  · next h =>
    refine iff_of_false exists_kind_ok_nil_iff ?_
    rintro ⟨hname, hnone, -⟩
    rw [hnone] at h
    exact h.elim (fun h => h hname) (by decide)
  · next h =>
    rw [not_or, not_not, Bool.not_eq_true] at h
    rw [exists_kind_map_ite_iff]
    simp [h]

theorem exists_kind_namelessControl_iff {o : Occurrence} :
    (∃ ds, namelessControl s o = .ok ds ∧ ∃ d ∈ ds, d.kind = k) ↔ ∃ role, o.tag.role? = some role ∧
      role ∈ rolesNeedingName ∧ o.tag.name ∉ nativeInteractiveElements ∧
      hasNameAttribute o.tag = false ∧
      (∃ inner, o.innerText s = .ok inner ∧ inner.getD [] = []) ∧ .interactiveWithoutName = k := by
  unfold namelessControl
  cases o.tag.role? with
  | none => simp
  | some role =>
    dsimp only
    split
    · next h =>
      refine iff_of_false exists_kind_ok_nil_iff ?_
      rintro ⟨r, hr, hneeds, hnative, hnone, -⟩
      obtain rfl := Option.some.inj hr
      simp [hneeds, hnative, hnone] at h
    · next h =>
      rw [exists_kind_map_ite_iff]
      simp only [Bool.or_eq_true, not_or, Bool.not_eq_true, Bool.not_eq_false',
        List.contains_iff_mem] at h
      simp [h]

theorem exists_kind_names_iff (h : k.category = .accessibleName) (hes : nameFindings s = .ok es) :
    (∃ d ∈ es, d.kind = k) ↔ Shows s k := by
  obtain ⟨buttons, hbuttons, hes⟩ := eq_ok_of_bind_eq_ok hes
  obtain ⟨controls, hcontrols, hes⟩ := eq_ok_of_bind_eq_ok hes
  obtain rfl := Except.ok.inj hes
  have hempty : (∃ d ∈ emptyNames s, d.kind = k) ↔
      blankOf ["aria-label", "aria-labelledby"] s ≠ [] ∧ .emptyName = k := by
    unfold emptyNames
    cases blankOf ["aria-label", "aria-labelledby"] s with
    | nil => simp
    | cons a as => simp
  simp only [exists_kind_append_iff, exists_kind_flatMap_iff, exists_kind_labelSources_iff,
    exists_kind_mapM_iff hbuttons, exists_kind_mapM_iff hcontrols, exists_kind_namelessButton_iff,
    exists_kind_namelessControl_iff, hempty, Occurrence.map_tag_all]
  cases k with
  | labelWithoutRole => simp [Shows]
  | conflictingNameSources => simp [Shows]
  | buttonWithoutName => simp [Shows]
  | interactiveWithoutName => simp [Shows]
  | emptyName => simp [Shows]
  | _ => exact absurd h (by decide)

theorem exists_kind_map_filter_iff {α : Type} {f : α → Bool} {g : α → Diagnostic} {l : List α}
    {kind : Kind} (hg : ∀ a, (g a).kind = kind) :
    (∃ d ∈ (l.filter f).map g, d.kind = k) ↔ (∃ a ∈ l, f a = true) ∧ kind = k := by
  simp only [List.mem_map, List.mem_filter]
  constructor
  · rintro ⟨d, ⟨a, ha, rfl⟩, hk⟩
    exact ⟨⟨a, ha⟩, (hg a).symm.trans hk⟩
  · rintro ⟨⟨a, ha⟩, hk⟩
    exact ⟨g a, ⟨a, ha, rfl⟩, (hg a).trans hk⟩

theorem exists_kind_attributeUse_iff (h : k.category = .attributes) :
    (∃ d ∈ (all s).flatMap attributeUse, d.kind = k) ↔ Shows s k := by
  have htag : ∀ t, (∃ d ∈ attributeUse t, d.kind = k) ↔ ∃ role, t.role? = some role ∧
      (((∃ name ∈ Role.requiredBy role, name ∉ (ariaAttributes t.attrs).map Attribute.name) ∧
          .missingRequiredAttribute = k ∨
        (∃ name ∈ Role.discouragedBy role, name ∈ (ariaAttributes t.attrs).map Attribute.name) ∧
          .discouragedAttribute = k) ∨
        (∃ a ∈ ariaAttributes t.attrs, Role.admits a.name a.value = false) ∧
          .invalidAttributeValue = k) := by
    intro t
    unfold attributeUse
    cases t.role? with
    | none => simp
    | some role =>
      have hmissing : ∀ name, (missingAttribute t role name).kind = .missingRequiredAttribute :=
        fun _ => rfl
      have hdiscouraged : ∀ name, (discouragedAttribute t role name).kind = .discouragedAttribute :=
        fun _ => rfl
      have hinvalid : ∀ a, (invalidValue t role a).kind = .invalidAttributeValue := fun _ => rfl
      simp only [exists_kind_append_iff, exists_kind_map_filter_iff hmissing,
        exists_kind_map_filter_iff hdiscouraged, exists_kind_map_filter_iff hinvalid]
      simp
  simp only [exists_kind_flatMap_iff, htag]
  cases k with
  | missingRequiredAttribute => simp [Shows]
  | discouragedAttribute => simp [Shows]
  | invalidAttributeValue => simp [Shows]
  | _ => exact absurd h (by decide)

theorem exists_kind_finding_iff {rule : ContainmentRule} {roles : List Text} :
    (∃ d, rule.finding? roles = some d ∧ d.kind = k) ↔ rule.kind = k ∧ rule.Fails roles := by
  unfold ContainmentRule.finding? ContainmentRule.Fails
  cases h : rule.owned.find? roles.contains with
  | none =>
    rw [List.find?_eq_none] at h
    simp only [reduceCtorEq, false_and, exists_false, false_iff]
    rintro ⟨-, ⟨role, hrole, hmem⟩, -⟩
    exact h role hrole (List.contains_iff_mem.2 hmem)
  | some role =>
    have howned := List.mem_of_find?_eq_some h
    have hmem := List.contains_iff_mem.1 (List.find?_some h)
    dsimp only
    split
    · next hany =>
      obtain ⟨c, hc, hin⟩ := List.any_eq_true.1 hany
      simp only [reduceCtorEq, false_and, exists_false, false_iff]
      exact fun hfails => hfails.2.2 c hc (List.contains_iff_mem.1 hin)
    · next hany =>
      simp only [Option.some.injEq, exists_eq_left']
      refine ⟨fun hk => ⟨hk, ⟨role, howned, hmem⟩, fun c hc hin => hany ?_⟩, fun hk => hk.1⟩
      exact List.any_eq_true.2 ⟨c, hc, List.contains_iff_mem.2 hin⟩

theorem exists_kind_containment_iff (h : k.category = .containment) :
    (∃ d ∈ Smell.containment (roles s), d.kind = k) ↔ Shows s k := by
  have hshows : Shows s k ↔ ∃ rule ∈ containmentRules, rule.kind = k ∧ rule.Fails (roles s) := by
    cases k <;> first | rfl | exact absurd h (by decide)
  rw [hshows]
  simp only [Smell.containment, List.mem_filterMap, ← exists_kind_finding_iff]
  constructor
  · rintro ⟨d, ⟨rule, hrule, hd⟩, hk⟩
    exact ⟨rule, hrule, d, hd, hk⟩
  · rintro ⟨rule, hrule, d, hd, hk⟩
    exact ⟨d, ⟨rule, hrule, hd⟩, hk⟩

end Passes

/-- **A kind is reported when it shows**, under the default options. -/
theorem exists_kind_iff_shows {s : Text} {ds : List Diagnostic} (hblank : Text.trim s ≠ [])
    (h : detect .default s = .ok ds) (k : Kind) : (∃ d ∈ ds, d.kind = k) ↔ Shows s k := by
  obtain ⟨es, hes, hiff⟩ := exists_kind_iff_findings hblank h k
  rw [hiff]
  cases hk : k.category with
  | roleSemantics =>
    rw [hk] at hes
    obtain rfl := Except.ok.inj hes
    exact exists_kind_roleSemantics_iff hk
  | interaction =>
    rw [hk] at hes
    obtain rfl := Except.ok.inj hes
    exact exists_kind_interaction_iff hk
  | accessibleName =>
    rw [hk] at hes
    exact exists_kind_names_iff hk hes
  | attributes =>
    rw [hk] at hes
    obtain rfl := Except.ok.inj hes
    exact exists_kind_attributeUse_iff hk
  | containment =>
    rw [hk] at hes
    obtain rfl := Except.ok.inj hes
    exact exists_kind_containment_iff hk

end AriaLint.Smell
