import AriaLint.Proofs.Attribute.Family
import AriaLint.Proofs.Fix.Idempotence
import AriaLint.Proofs.Smell.Reports

/-!
# Controls that are fixed and still reported

The fixer gives every control the attributes that its role requires (`tells_apply_default`), so it
seems that the detector has nothing left to report about them.  But the two look for attributes in
different ways: the fixer by their names, at every place of a tag, and the detector in a walk over
all ARIA attributes.  What the walk misses is reported although it is there, and that is all that is
reported (`mem_missingAttribute_apply_iff`).  In most texts the walk misses nothing, and then the
detector is content (`roleName_ne_of_missingAttribute`).
-/

namespace AriaLint

namespace Smell

open Attribute Tag

/-- What the rule on attributes finds missing. -/
theorem mem_attributeUse_iff {t : Tag} {d : Diagnostic} (h : d.kind = .missingRequiredAttribute) :
    d ∈ attributeUse t ↔ ∃ role, t.role? = some role ∧ ∃ name ∈ Role.requiredBy role,
      name ∉ (ariaAttributes t.attrs).map Attribute.name ∧ missingAttribute t role name = d := by
  unfold attributeUse
  cases t.role? with
  | none => simp
  | some role =>
    have hdiscouraged : ∀ name, discouragedAttribute t role name ≠ d := by
      rintro name rfl
      exact absurd (show Kind.discouragedAttribute = .missingRequiredAttribute from h) (by decide)
    have hinvalid : ∀ a, invalidValue t role a ≠ d := by
      rintro a rfl
      exact absurd (show Kind.invalidAttributeValue = .missingRequiredAttribute from h) (by decide)
    simp [hdiscouraged, hinvalid, and_assoc]

/-- **Which missing attributes are reported**: those that a role requires and the walk over the
attributes of the tag does not come by. -/
theorem mem_missingAttribute_iff {s role : Text} {ds : List Diagnostic}
    (h : detect .default s = .ok ds) (d : Diagnostic) :
    d ∈ ds ∧ d.kind = .missingRequiredAttribute ∧ d.roleName = some role ↔
      ∃ t ∈ all s, t.role? = some role ∧ ∃ name ∈ Role.requiredBy role,
        name ∉ (ariaAttributes t.attrs).map Attribute.name ∧ missingAttribute t role name = d := by
  have hfound : d.kind = .missingRequiredAttribute → (d ∈ ds ↔ ∃ t ∈ all s, d ∈ attributeUse t) := by
    intro hd
    by_cases hblank : Text.trim s = []
    · rw [detect, if_pos hblank] at h
      obtain rfl := Except.ok.inj h
      simp [all_of_not_mem (not_mem_of_blank hblank)]
    · obtain ⟨es, hes, heq⟩ := exists_filter_kind_eq hblank h (k := .missingRequiredAttribute) rfl
      obtain rfl := Except.ok.inj hes
      have hmem : d ∈ ds.filter (·.kind = .missingRequiredAttribute) ↔
          d ∈ ((all s).flatMap attributeUse).filter (·.kind = .missingRequiredAttribute) := by
        rw [heq]
      simpa [List.mem_filter, hd] using hmem
  constructor
  · rintro ⟨hmem, hkind, hrole⟩
    obtain ⟨t, ht, hd⟩ := (hfound hkind).1 hmem
    obtain ⟨role', htrole, name, hname, hmissing, rfl⟩ := (mem_attributeUse_iff hkind).1 hd
    obtain rfl : role' = role := Option.some.inj hrole
    exact ⟨t, ht, htrole, name, hname, hmissing, rfl⟩
  · rintro ⟨t, ht, htrole, name, hname, hmissing, rfl⟩
    refine ⟨(hfound rfl).2 ⟨t, ht, ?_⟩, rfl, rfl⟩
    exact (mem_attributeUse_iff rfl).2 ⟨role, htrole, name, hname, hmissing, rfl⟩

end Smell

namespace Fix

open Attribute Tag

theorem has_of_mem_requiredBy {s role name : Text} (hrole : role ∈ controlRoles)
    (hname : name ∈ Role.requiredBy role) {t : Tag} (ht : t ∈ all (apply .default s).text)
    (htrole : t.role? = some role) : t.has name = true := by
  obtain ⟨hchecked, hrange⟩ := tells_apply_default s t ht
  have hone : ∀ role ∈ checkedRoles, Role.requiredBy role = ["aria-checked"] := by decide
  have hthree : ∀ role ∈ rangeRoles, Role.requiredBy role = Role.valueRange := by decide
  rcases List.mem_append.1 hrole with hmem | hmem
  · rw [hone role hmem] at hname
    rw [List.mem_singleton.1 hname]
    exact hchecked role hmem htrole
  · rw [hthree role hmem] at hname
    exact hrange role hmem htrole name hname

/-- What a control requires is a name of the family. -/
theorem names_aria_of_mem {name : Text} (h : name ∈ controlAttributes) :
    NameForm.aria.Names name := by
  have hall : ∀ name ∈ controlAttributes, name.take 5 = "aria-" ∧ name.drop 5 ≠ [] ∧
      ∀ c ∈ name.drop 5, isAriaNameChar c = true := by decide
  obtain ⟨hstart, hne, hending⟩ := hall name h
  refine ⟨name.take 5, name.drop 5, (List.take_append_drop 5 name).symm, ?_, hne, hending⟩
  rw [hstart]
  exact Text.forall₂_sameLetter_refl _

theorem mem_controlAttributes {role name : Text} (hrole : role ∈ controlRoles)
    (hname : name ∈ Role.requiredBy role) : name ∈ controlAttributes := by
  have hall : ∀ role ∈ controlRoles, ∀ name ∈ Role.requiredBy role, name ∈ controlAttributes := by
    decide
  exact hall role hrole name hname

/-- **What is still reported about controls after the fixes.**  Of a switch, a checkbox, a slider or
a spin button in the fixed text the detector reports a required attribute as missing exactly when the
tag has the attribute by its name and the walk over its ARIA attributes overlooks it. -/
theorem mem_missingAttribute_apply_iff {s role : Text} {ds : List Smell.Diagnostic}
    (h : Smell.detect .default (apply .default s).text = .ok ds) (hrole : role ∈ controlRoles)
    (d : Smell.Diagnostic) :
    d ∈ ds ∧ d.kind = .missingRequiredAttribute ∧ d.roleName = some role ↔
      ∃ t ∈ all (apply .default s).text, t.role? = some role ∧ ∃ name ∈ Role.requiredBy role,
        IsOverlooked name t.attrs ∧ Smell.missingAttribute t role name = d := by
  have hoverlooked : ∀ t ∈ all (apply .default s).text, t.role? = some role →
      ∀ name ∈ Role.requiredBy role,
        (name ∉ (ariaAttributes t.attrs).map Attribute.name ↔ IsOverlooked name t.attrs) := by
    intro t ht htrole name hname
    have hmem := mem_controlAttributes hrole hname
    have hhas : has name t.attrs = true := has_of_mem_requiredBy hrole hname ht htrole
    rw [isOverlooked_iff (names_aria_of_mem hmem) (lower_of_mem hmem)]
    exact (and_iff_right hhas).symm
  rw [Smell.mem_missingAttribute_iff h]
  constructor
  · rintro ⟨t, ht, htrole, name, hname, hmissing, rfl⟩
    exact ⟨t, ht, htrole, name, hname, (hoverlooked t ht htrole name hname).1 hmissing, rfl⟩
  · rintro ⟨t, ht, htrole, name, hname, hmissing, rfl⟩
    exact ⟨t, ht, htrole, name, hname, (hoverlooked t ht htrole name hname).2 hmissing, rfl⟩

/-- Two switches whose attribute is overlooked: it stands in the value of another attribute, or is
spelled with a dotless letter. -/
theorem detect_apply_overlooked :
    Smell.detect .default
        (apply .default "<div role=\"switch\" aria-label=\"x aria-checked='true'\">").text =
      .ok [Smell.missingAttribute ⟨"div", []⟩ "switch" "aria-checked"] ∧
    Smell.detect .default
        (apply .default "<div role=\"switch\" aria-label=\"x\" ar\u0131a-checked=\"true\">").text =
      .ok [Smell.missingAttribute ⟨"div", []⟩ "switch" "aria-checked"] :=
  ⟨by decide +kernel, by decide +kernel⟩

/-- A label with another attribute in quotes: its value is taken to end at the first quote, so that
the attribute in it is there for the fixer and not for the detector. -/
theorem mem_missingAttribute_apply_quotedLabel :
    let s : Text := "<div role=\"switch\" aria-label=\"x aria-checked='true'\">"
    ∃ ds, Smell.detect .default (apply .default s).text = .ok ds ∧
      ∃ t ∈ all (apply .default s).text,
        t.role? = some ("switch" : Text) ∧ IsOverlooked "aria-checked" t.attrs := by
  intro s
  have hds := detect_apply_overlooked.1
  have hrole : ("switch" : Text) ∈ controlRoles := by decide
  have hreported := (mem_missingAttribute_apply_iff hds hrole _).1 ⟨List.mem_cons_self, rfl, rfl⟩
  obtain ⟨t, ht, htrole, name, hname, hoverlooked, -⟩ := hreported
  have hrequired : Role.requiredBy "switch" = [("aria-checked" : Text)] := by decide
  rw [hrequired, List.mem_singleton] at hname
  subst hname
  exact ⟨_, hds, t, ht, htrole, hoverlooked⟩

/-- The fixes do not settle all that the detector requires of controls: an attribute in the value of
another one is overlooked, and so is one that is spelled with a dotless letter. -/
theorem missingAttribute_reported_after_fixes :
    (∃ ds, Smell.detect .default
        (apply .default "<div role=\"switch\" aria-label=\"x aria-checked='true'\">").text = .ok ds ∧
      ∃ d ∈ ds, d.kind = .missingRequiredAttribute ∧ d.roleName = some ("switch" : Text)) ∧
    ∃ ds, Smell.detect .default
        (apply .default "<div role=\"switch\" aria-label=\"x\" ar\u0131a-checked=\"true\">").text =
          .ok ds ∧
      ∃ d ∈ ds, d.kind = .missingRequiredAttribute ∧ d.roleName = some ("switch" : Text) := by
  have hreported : ∀ {s : Text}, Smell.detect .default (apply .default s).text =
      .ok [Smell.missingAttribute ⟨"div", []⟩ "switch" "aria-checked"] →
        ∃ ds, Smell.detect .default (apply .default s).text = .ok ds ∧
          ∃ d ∈ ds, d.kind = .missingRequiredAttribute ∧ d.roleName = some ("switch" : Text) :=
    fun h => ⟨_, h, _, List.mem_cons_self, rfl, rfl⟩
  exact ⟨hreported detect_apply_overlooked.1, hreported detect_apply_overlooked.2⟩

/-- **The detector is content with fixed controls** in texts without stray letters and without values
of ARIA attributes that end with an equals sign. -/
theorem roleName_ne_of_missingAttribute {s : Text} {ds : List Smell.Diagnostic}
    (h : Smell.detect .default (apply .default s).text = .ok ds)
    (hstray : ∀ t ∈ all (apply .default s).text, ∀ c ∈ t.attrs, c ∉ strayLetters)
    (hsettled : ∀ t ∈ all (apply .default s).text, ∀ a ∈ ariaAttributes t.attrs,
      IsSettled a.value) :
    ∀ d ∈ ds, d.kind = .missingRequiredAttribute → ∀ role ∈ controlRoles,
      d.roleName ≠ some role := by
  intro d hd hkind role hrole hname
  obtain ⟨t, ht, -, name, hrequired, hoverlooked, -⟩ :=
    (mem_missingAttribute_apply_iff h hrole d).1 ⟨hd, hkind, hname⟩
  have hmem := mem_controlAttributes hrole hrequired
  have hplain : ∀ name ∈ controlAttributes, ∀ c ∈ name, c ∉ strayLetters := by decide
  exact not_isOverlooked (names_aria_of_mem hmem) (lower_of_mem hmem) (hplain name hmem)
    (hstray t ht) (hsettled t ht) hoverlooked

end Fix
end AriaLint
