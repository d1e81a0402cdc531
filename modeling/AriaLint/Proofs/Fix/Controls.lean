import AriaLint.Proofs.Attribute.Extension
import AriaLint.Proofs.Fix.Confinement

/-!
# What controls tell

A switch or a checkbox has to tell whether it is checked, a slider or a spin button its value and
range.  Two passes add what is missing, and when a run is over nothing is missing
(`tells_apply`), whatever other passes there are and however containers of tabs are matched.

A pass achieves this for the tags it has seen, and later passes cut the text anew and add to its
tags.  What is achieved is kept because they only add.  `Keeps t u` is what is needed of that: as far
as the roles of controls go, `u` has no other role than `t`, and it has every attribute of `t`.  The
pass over tablists is the one that could go wrong here, since it gives roles away; but the role that
is read off a new tablist is a tablist or no word at all.
-/

namespace AriaLint
namespace Fix

open Tag

/-! ## What controls have to tell -/

/-- A control that can be checked tells whether it is. -/
def TellsChecked (t : Tag) : Prop :=
  ∀ role ∈ checkedRoles, t.role? = some role → t.has "aria-checked" = true

/-- A control with a range tells its value and its range. -/
def TellsRange (t : Tag) : Prop :=
  ∀ role ∈ rangeRoles, t.role? = some role → ∀ name ∈ Role.valueRange, t.has name = true

theorem not_contains_or_iff {roles : List Text} {role : Text} {b : Bool} :
    (!roles.contains role || b) = true ↔ (role ∈ roles → b = true) := by
  rw [Bool.or_eq_true, Bool.not_eq_true', imp_iff_not_or, ← Bool.not_eq_true,
    List.contains_iff_mem]

theorem ite_none_eq_none_iff {α : Type} {p : Prop} [Decidable p] {a : α} :
    (if p then none else some a) = none ↔ p := by
  by_cases h : p
  · simp [h]
  · simp [h]

theorem addChecked?_eq_none_iff {value : Text} {t : Tag} :
    addChecked? value t = none ↔ TellsChecked t := by
  unfold addChecked? TellsChecked
  cases hrole : t.role? with
  | none => exact ⟨fun _ _ _ h => absurd h (Option.some_ne_none _).symm, fun _ => rfl⟩
  | some role =>
    dsimp only
    rw [ite_none_eq_none_iff, not_contains_or_iff]
    constructor
    · intro h role' hmem heq
      obtain rfl := Option.some.inj heq
      exact h hmem
    · intro h hmem
      exact h role hmem rfl

theorem map_fst_rangeDefaults (o : Options) :
    (rangeDefaults o).map Prod.fst = Role.valueRange := rfl

theorem addValueRange?_eq_none_iff {o : Options} {t : Tag} :
    addValueRange? (rangeDefaults o) t = none ↔ TellsRange t := by
  have hmissing : ((rangeDefaults o).filter fun d => !t.has d.1).isEmpty = true ↔
      ∀ name ∈ Role.valueRange, t.has name = true := by
    rw [List.isEmpty_iff, List.filter_eq_nil_iff, ← map_fst_rangeDefaults o, List.forall_mem_map]
    simp only [Bool.not_eq_true', Bool.not_eq_false]
  unfold addValueRange? TellsRange
  cases hrole : t.role? with
  | none => exact ⟨fun _ _ _ h => absurd h (Option.some_ne_none _).symm, fun _ => rfl⟩
  | some role =>
    dsimp only
    rw [ite_none_eq_none_iff, not_contains_or_iff, hmissing]
    constructor
    · intro h role' hmem heq
      obtain rfl := Option.some.inj heq
      exact h hmem
    · intro h hmem
      exact h role hmem rfl

/-! ## What later passes keep -/

/-- The roles of controls that have to tell something. -/
def controlRoles : List Text := checkedRoles ++ rangeRoles

/-- What they have to tell. -/
def controlAttributes : List Text := "aria-checked" :: Role.valueRange

/-- As far as controls go, the second tag has no other role than the first one, and it has every
attribute of the first one. -/
structure Keeps (t u : Tag) : Prop where
  role : ∀ role ∈ controlRoles, u.role? = some role → t.role? = some role
  has : ∀ name ∈ controlAttributes, t.has name = true → u.has name = true

theorem Keeps.refl (t : Tag) : Keeps t t := ⟨fun _ _ h => h, fun _ _ h => h⟩

theorem Keeps.tellsChecked {t u : Tag} (h : Keeps t u) (ht : TellsChecked t) : TellsChecked u := by
  intro role hmem hrole
  exact h.has _ List.mem_cons_self
    (ht role hmem (h.role role (List.mem_append_left _ hmem) hrole))

theorem Keeps.tellsRange {t u : Tag} (h : Keeps t u) (ht : TellsRange t) : TellsRange u := by
  intro role hmem hrole name hname
  exact h.has _ (List.mem_cons_of_mem _ hname)
    (ht role hmem (h.role role (List.mem_append_right _ hmem) hrole) name hname)

theorem isQuoteless_of_mem {name : Text} (h : name ∈ controlAttributes) :
    Attribute.IsQuoteless (Text.lower name) := by
  have hall : ∀ name ∈ controlAttributes,
      Attribute.IsQuoteless (Text.lower name) := by decide
  exact hall name h

theorem lower_of_mem {name : Text} (h : name ∈ controlAttributes) :
    Text.lower name = name := by
  have hall : ∀ name ∈ controlAttributes, Text.lower name = name := by
    decide
  exact hall name h

/-- An addition to a tag that has a role. -/
theorem keeps_of_extends {add : Text} {t u : Tag} (h : Extends add t u) {role : Text}
    (hrole : t.role? = some role) : Keeps t u where
  role r _ hu := by
    rw [role?_of_extends h hrole] at hu
    rw [hrole, hu]
  has name hname ht := has_of_extends h (isQuoteless_of_mem hname) ht

/-- A new tablist is no control, whatever is read as its role. -/
theorem keeps_of_extends_tablistRole {t u : Tag} (h : Extends tablistRole t u) : Keeps t u where
  role r hmem hu := by
    have hall : ∀ r ∈ controlRoles, r ≠ "tablist" ∧ '=' ∉ r := by decide
    rcases role?_of_extends_tablistRole h hu with ht | heq | hsign
    · exact ht
    · exact absurd heq (hall r hmem).1
    · exact absurd hsign (hall r hmem).2
  has name hname ht := has_of_extends h (isQuoteless_of_mem hname) ht

/-! ## The checked state -/

theorem role?_of_addChecked? {value : Text} {t : Tag} {e : Edit}
    (h : addChecked? value t = some e) : ∃ role, t.role? = some role := by
  unfold addChecked? at h
  cases hrole : t.role? with
  | none =>
    rw [hrole] at h
    exact absurd h (by simp)
  | some role => exact ⟨role, rfl⟩

theorem tellsChecked_edited {value : Text} (hvalue : Attribute.IsUnquoted value) (t : Tag) :
    TellsChecked (edited (addChecked? value) t) := by
  cases he : addChecked? value t with
  | none =>
    rw [edited_of_none he]
    exact addChecked?_eq_none_iff.1 he
  | some e =>
    obtain ⟨add, rfl, -, x, y, -, hu, -⟩ := adds_addChecked value t e he
    rw [edited_of_some he]
    intro role _ _
    unfold Tag.has Attribute.has Attribute.value?
    rw [Option.isSome_map, hu]
    exact Attribute.isSome_find?_written (by decide) hvalue (by simp) x y

/-! ## The range -/

theorem role?_of_addValueRange? {defaults : List (Text × Text)} {t : Tag} {e : Edit}
    (h : addValueRange? defaults t = some e) : ∃ role, t.role? = some role := by
  unfold addValueRange? at h
  cases hrole : t.role? with
  | none =>
    rw [hrole] at h
    exact absurd h (by simp)
  | some role => exact ⟨role, rfl⟩

theorem keeps_addValueRange (defaults : List (Text × Text)) (t : Tag) :
    Keeps t (edited (addValueRange? defaults) t) := by
  cases he : addValueRange? defaults t with
  | none =>
    rw [edited_of_none he]
    exact Keeps.refl t
  | some e =>
    obtain ⟨role, hrole⟩ := role?_of_addValueRange? he
    obtain ⟨add, -, hext⟩ := adds_addValueRange defaults t e he
    rw [edited_of_some he]
    exact keeps_of_extends hext hrole

/-- The attributes of the range that are missing are the ones that are added. -/
theorem extends_addValueRange {defaults : List (Text × Text)} {t : Tag} {e : Edit}
    (h : addValueRange? defaults t = some e) :
    Extends ((defaults.filter fun d => !t.has d.1).flatMap fun d => written d.1 d.2) t e.tag := by
  unfold addValueRange? at h
  split at h
  · exact absurd h (by simp)
  · dsimp only at h
    split at h
    · exact absurd h (by simp)
    · obtain rfl := Option.some.inj h
      exact extends_appendAttributes t _

theorem tellsRange_edited {o : Options}
    (hvalues : ∀ d ∈ rangeDefaults o, Attribute.IsUnquoted d.2) (t : Tag) :
    TellsRange (edited (addValueRange? (rangeDefaults o)) t) := by
  cases he : addValueRange? (rangeDefaults o) t with
  | none =>
    rw [edited_of_none he]
    exact addValueRange?_eq_none_iff.1 he
  | some e =>
    have hext := extends_addValueRange he
    rw [edited_of_some he]
    intro role _ _ name hname
    have hmem : name ∈ controlAttributes := List.mem_cons_of_mem _ hname
    by_cases hhas : t.has name = true
    · exact has_of_extends hext (isQuoteless_of_mem hmem) hhas
    · obtain ⟨-, x, y, -, hu, -⟩ := hext
      rw [← map_fst_rangeDefaults o] at hname
      obtain ⟨d, hd, rfl⟩ := List.mem_map.1 hname
      obtain ⟨l, m, hsplit⟩ : ∃ l m, (rangeDefaults o).filter (fun d => !t.has d.1) = l ++ d :: m :=
        List.append_of_mem (List.mem_filter.2 ⟨hd, by simp [hhas]⟩)
      rw [hsplit, List.flatMap_append, List.flatMap_cons] at hu
      have hfound : (Attribute.find? d.1 false ((x ++ l.flatMap fun d => written d.1 d.2) ++
          written d.1 d.2 ++ ((m.flatMap fun d => written d.1 d.2) ++ y))).isSome = true :=
        Attribute.isSome_find?_written (lower_of_mem hmem) (hvalues d hd) (by simp) _ _
      unfold Tag.has Attribute.has Attribute.value?
      rw [Option.isSome_map, hu]
      simpa using hfound

/-! ## The run -/

/-- The values that an option fills in are written between quotes. -/
def Options.QuotesNothing (o : Options) : Prop :=
  ∀ value ∈ [o.checked, o.valueMin, o.valueMax, o.valueNow], Attribute.IsUnquoted value

instance (o : Options) : Decidable o.QuotesNothing :=
  List.decidableBAll _ _

section Run

variable {o : Options} (hcloses : o.ClosesNothing) (hquotes : o.QuotesNothing)

include hquotes in
theorem isUnquoted_rangeDefaults : ∀ d ∈ rangeDefaults o, Attribute.IsUnquoted d.2 := by
  intro d hd
  exact hquotes d.2 (List.mem_cons_of_mem _ (List.of_mem_zip hd).2)

include hcloses hquotes in
/-- The pass over checked states achieves what it is for. -/
theorem tellsChecked_editTags (s : Text) :
    ∀ t ∈ all (editTags (addChecked? o.checked) s).text, TellsChecked t := by
  intro u hu
  rw [all_editTags (isAddition_checked hcloses) (adds_addChecked _)] at hu
  obtain ⟨t, -, rfl⟩ := List.mem_map.1 hu
  exact tellsChecked_edited (hquotes o.checked List.mem_cons_self) t

/-- A property of tags that additions keep. -/
def IsKept (P : Tag → Prop) : Prop := ∀ ⦃t u : Tag⦄, Keeps t u → P t → P u

theorem isKept_tellsChecked : IsKept TellsChecked := fun _ _ h => h.tellsChecked

theorem isKept_tellsRange : IsKept TellsRange := fun _ _ h => h.tellsRange

include hcloses in
/-- The pass over ranges keeps what other passes achieve. -/
theorem IsKept.editTags {P : Tag → Prop} (hP : IsKept P) {s : Text} (hs : ∀ t ∈ all s, P t) :
    ∀ t ∈ all (editTags (addValueRange? (rangeDefaults o)) s).text, P t := by
  intro u hu
  rw [all_editTags (isAddition_range hcloses) (adds_addValueRange _)] at hu
  obtain ⟨t, ht, rfl⟩ := List.mem_map.1 hu
  exact hP (keeps_addValueRange _ t) (hs t ht)

/-- The pass over containers keeps what other passes achieve. -/
theorem IsKept.addTablists {P : Tag → Prop} (hP : IsKept P) (trackDepth : Bool) {s : Text}
    (hs : ∀ t ∈ all s, P t) : ∀ t ∈ all (addTablists trackDepth s).text, P t := by
  intro u hu
  obtain ⟨ps, hps, htext⟩ := exists_extended_addTablists trackDepth s
  rw [htext] at hu
  obtain ⟨t, ht, htu⟩ := exists_of_mem_all_extended isAddition_tablistRole hps hu
  have hkeeps : Keeps t u := by
    rcases htu with rfl | ⟨add, rfl, hext⟩
    · exact Keeps.refl u
    · exact keeps_of_extends_tablistRole hext
  exact hP hkeeps (hs t ht)

include hcloses hquotes in
/-- The pass over ranges achieves what it is for. -/
theorem tellsRange_editTags (s : Text) :
    ∀ t ∈ all (editTags (addValueRange? (rangeDefaults o)) s).text, TellsRange t := by
  intro u hu
  rw [all_editTags (isAddition_range hcloses) (adds_addValueRange _)] at hu
  obtain ⟨t, -, rfl⟩ := List.mem_map.1 hu
  exact tellsRange_edited (isUnquoted_rangeDefaults hquotes) t

include hcloses hquotes in
/-- When a run is over, checked states are told if they are asked for. -/
theorem tellsChecked_apply (hchecked : o.addChecked = true) (s : Text) :
    ∀ t ∈ all (apply o s).text, TellsChecked t := by
  unfold apply
  generalize Result.andThenIf ⟨s, []⟩ _ _ = r
  rw [hchecked]
  refine Result.keeps_andThenIf (Q := fun s => ∀ t ∈ all s, TellsChecked t) ?_ _
    (isKept_tellsChecked.addTablists o.trackDepth)
  refine Result.keeps_andThenIf (Q := fun s => ∀ t ∈ all s, TellsChecked t) ?_ _
    (isKept_tellsChecked.editTags hcloses)
  exact tellsChecked_editTags hcloses hquotes r.text

include hcloses hquotes in
/-- When a run is over, ranges are told if they are asked for. -/
theorem tellsRange_apply (hrange : o.addValueRange = true) (s : Text) :
    ∀ t ∈ all (apply o s).text, TellsRange t := by
  unfold apply
  generalize Result.andThenIf (Result.andThenIf ⟨s, []⟩ _ _) _ _ = r
  rw [hrange]
  refine Result.keeps_andThenIf (Q := fun s => ∀ t ∈ all s, TellsRange t) ?_ _
    (isKept_tellsRange.addTablists o.trackDepth)
  exact tellsRange_editTags hcloses hquotes r.text

include hcloses hquotes in
/-- **When a run is over, controls tell all that their roles ask for.** -/
theorem tells_apply (hchecked : o.addChecked = true) (hrange : o.addValueRange = true) (s : Text) :
    ∀ t ∈ all (apply o s).text, TellsChecked t ∧ TellsRange t := fun t ht =>
  ⟨tellsChecked_apply hcloses hquotes hchecked s t ht,
    tellsRange_apply hcloses hquotes hrange s t ht⟩

end Run

theorem Options.closesNothing_of_values {o : Options}
    (hvalues : ∀ value ∈ [o.checked, o.valueMin, o.valueMax, o.valueNow],
      ∀ c ∈ value, c ≠ '"' ∧ c ≠ '\x27' ∧ c ≠ '>') : o.ClosesNothing :=
  fun value hv hmem => (hvalues value hv '>' hmem).2.2 rfl

theorem Options.quotesNothing_of_values {o : Options}
    (hvalues : ∀ value ∈ [o.checked, o.valueMin, o.valueMax, o.valueNow],
      ∀ c ∈ value, c ≠ '"' ∧ c ≠ '\x27' ∧ c ≠ '>') : o.QuotesNothing := by
  intro value hv c hc
  obtain ⟨hdouble, hsingle, -⟩ := hvalues value hv c hc
  simp [Attribute.isQuote, hdouble, hsingle]

/-- **Every control of a fixed text tells its state.**  With both passes over controls on and values
that hold neither quotes nor a closing bracket, each tag of the fixed text whose role is a switch or
a checkbox tells whether it is checked, and each slider or spin button its range and its value. -/
theorem control_attributes_apply (o : Options) (hchecked : o.addChecked = true)
    (hrange : o.addValueRange = true)
    (hvalues : ∀ value ∈ [o.checked, o.valueMin, o.valueMax, o.valueNow],
      ∀ c ∈ value, c ≠ '"' ∧ c ≠ '\x27' ∧ c ≠ '>')
    (s : Text) :
    ∀ t ∈ all (apply o s).text,
      (t.role? = some "switch" ∨ t.role? = some "checkbox" → t.has "aria-checked" = true) ∧
      (t.role? = some "slider" ∨ t.role? = some "spinbutton" →
        t.has "aria-valuemin" = true ∧ t.has "aria-valuemax" = true ∧
          t.has "aria-valuenow" = true) := by
  intro t ht
  have hcloses := Options.closesNothing_of_values hvalues
  have hquotes := Options.quotesNothing_of_values hvalues
  obtain ⟨htells, hrange⟩ := tells_apply hcloses hquotes hchecked hrange s t ht
  refine ⟨?_, ?_⟩
  · rintro (hrole | hrole)
    · exact htells "switch" (by decide) hrole
    · exact htells "checkbox" (by decide) hrole
  · intro hrole
    have hall : ∀ name ∈ Role.valueRange, t.has name = true := by
      rcases hrole with hrole | hrole
      · exact hrange "slider" (by decide) hrole
      · exact hrange "spinbutton" (by decide) hrole
    exact ⟨hall _ (by decide), hall _ (by decide), hall _ (by decide)⟩

/-- A switch inside of a tablist, next to a slider that tells its value only. -/
theorem control_attributes_switchAndSlider :
    (∀ value ∈ ["mixed", "1", "10", "1"], ∀ c ∈ (value : Text),
        c ≠ '"' ∧ c ≠ '\x27' ∧ c ≠ '>') ∧
      (apply ⟨false, true, true, true, true, "mixed", "1", "10", "1"⟩
          "<p><b role='tab'><i role='switch'></i></b></p><i role='slider' aria-valuenow='5'>").text =
        "<p role=\"tablist\"><b role='tab'><i role='switch' aria-checked=\"mixed\"></i></b></p>" ++
          "<i role='slider' aria-valuenow='5' aria-valuemin=\"1\" aria-valuemax=\"10\">" ∧
      ∀ t ∈ all (apply ⟨false, true, true, true, true, "mixed", "1", "10", "1"⟩
          "<p><b role='tab'><i role='switch'></i></b></p><i role='slider' aria-valuenow='5'>").text,
        (t.role? = some "switch" ∨ t.role? = some "checkbox" → t.has "aria-checked" = true) ∧
        (t.role? = some "slider" ∨ t.role? = some "spinbutton" →
          t.has "aria-valuemin" = true ∧ t.has "aria-valuemax" = true ∧
            t.has "aria-valuenow" = true) :=
  ⟨by decide, by decide +kernel, control_attributes_apply _ rfl rfl (by decide) _⟩

end Fix
end AriaLint
