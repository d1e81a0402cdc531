import AriaLint.Proofs.Fix.EmptyNames
import AriaLint.Proofs.Fix.Growth
import AriaLint.Proofs.Fix.VisibleText
import AriaLint.Proofs.Smell.Reports

/-!
# Which smells fixes bring in

One would like a fixed snippet to have no kind of smell that it did not have before.  This is so for
most kinds, but not for all (`kinds_apply_exceptions`).

* The rules of containment look for explicit roles.  When a table or a row loses its redundant role,
  its rows or its cells stand alone.
* A tag that becomes a tablist has an explicit role, which may override its native one, and which
  makes the detector look at the values of its attributes.
* The visible text of an element is read by the rules of markup, which may not see a tag where the
  scan has edited one (`HoldsUnread`).  Then quotes that are added may hide the text.

`Arises` is the list of these exceptions, and `kinds_apply_default` says that there are no others,
as long as the tags that are edited are tidy and no tag has a second role behind a redundant one.

The tags of the two texts stand in pairs, and each pair `Develops`.  So what has to be said for each
kind is where in the old text that shows which shows in the new one (`shows_or_arises`).
-/

namespace AriaLint
namespace Fix

open Attribute Tag Smell

/-! ## Pairs of tags -/

/-- Tags that stay tags keep their order. -/
theorem forall₂_ofPieces {R : Tag → Tag → Prop} {ps qs : List (Piece Tag)}
    (h : List.Forall₂ (Piecewise R) ps qs) (i j : Nat) :
    List.Forall₂ (fun o o' => R o.tag o'.tag) (Occurrence.ofPieces i ps)
      (Occurrence.ofPieces j qs) := by
  induction h generalizing i j with
  | nil => exact List.Forall₂.nil
  | cons hpq _ ih =>
    cases hpq with
    | char c => exact ih (i + 1) (j + 1)
    | item htu => exact List.Forall₂.cons htu (ih _ _)

/-! ## The exceptions -/

/-- The detector reads no visible text inside the element of the tag. -/
def IsBare (s : Text) (o : Occurrence) : Prop :=
  ∃ inner, o.innerText s = .ok inner ∧ inner.getD [] = []

/-- The tag has become a tablist. -/
def BecomesTablist (t u : Tag) : Prop := u.role? = some "tablist" ∧ t.role? ≠ some "tablist"

/-- How a smell of the kind may come in when `u` is the fixed text of `s`. -/
def Arises (s u : Text) : Smell.Kind → Prop
  | .rowWithoutTable => ∃ t ∈ all s, t.role? = some "table" ∧
      Role.implicit? t.name t.attrs = some "table"
  | .cellWithoutRow => ∃ t ∈ all s, t.role? = some "row" ∧
      Role.implicit? t.name t.attrs = some "row"
  | .roleOverridesNative => ∃ p ∈ (all s).zip (all u), BecomesTablist p.1 p.2 ∧
      (Role.implicit? p.1.name p.1.attrs).isSome = true
  | .invalidAttributeValue => ∃ p ∈ (all s).zip (all u), BecomesTablist p.1 p.2 ∧
      p.1.role? = none ∧ ∃ a ∈ ariaAttributes p.1.attrs, Role.admits a.name a.value = false
  | .buttonWithoutName => ∃ p ∈ (Occurrence.all s).zip (Occurrence.all u),
      p.1.tag.name = "button" ∧ hasNameAttribute p.1.tag = false ∧
        p.1.innerText s ≠ .ok (some []) ∧ p.2.innerText u = .ok (some []) ∧
          HoldsUnread s u p.1 p.2
  | .interactiveWithoutName => ∃ p ∈ (Occurrence.all s).zip (Occurrence.all u),
      (∃ role ∈ rolesNeedingName, p.1.tag.role? = some role) ∧
        hasNameAttribute p.1.tag = false ∧ ¬ IsBare s p.1 ∧ IsBare u p.2 ∧
          HoldsUnread s u p.1 p.2
  | _ => False

/-! ## Kind by kind -/

theorem mem_roles_iff {s role : Text} : role ∈ roles s ↔ ∃ t ∈ all s, t.role? = some role :=
  List.mem_filterMap

/-- No attribute is added that would be wrong on any role. -/
theorem not_mem_discouragedBy {a : Attribute} (ha : a ∈ addedPairs.map ofPair) (role : Text) :
    a.name ∉ Role.discouragedBy role := by
  have hall : ∀ p ∈ Role.discouraged, ∀ a ∈ addedPairs.map ofPair, a.name ∉ p.2 := by decide
  rw [Role.discouragedBy]
  cases hlook : Role.discouraged.lookup (Role.normalize role) with
  | none => simp
  | some names => exact hall _ (Role.mem_of_lookup hlook) a ha

section Kinds

variable {s u : Text}

section Tags

variable (hpairs : List.Forall₂ Develops (all s) (all u))

include hpairs

theorem shows_redundantRole (h : Shows u .redundantRole) : Shows s .redundantRole := by
  obtain ⟨t', ht', role, hrole, hnative⟩ := h
  obtain ⟨t, ht, hdev⟩ := exists_of_forall₂_right hpairs ht'
  rw [hdev.implicit?_eq] at hnative
  have hne : role ≠ "tablist" := ne_of_mem_of_not_mem (Role.implicit?_mem hnative) (by decide)
  exact ⟨t, ht, role, hdev.oldRole hne hrole, hnative⟩

theorem shows_or_arises_roleOverridesNative (h : Shows u .roleOverridesNative) :
    Shows s .roleOverridesNative ∨ Arises s u .roleOverridesNative := by
  obtain ⟨t', ht', role, native, hrole, hnative, hne⟩ := h
  obtain ⟨t, ht, hpair, hdev⟩ := exists_pair_of_mem_right hpairs ht'
  rw [hdev.implicit?_eq] at hnative
  by_cases hold : t.role? = some role
  · exact Or.inl ⟨t, ht, role, native, hold, hnative, hne⟩
  · obtain rfl := (hdev.newRole hrole).resolve_left hold
    exact Or.inr ⟨(t, t'), hpair, ⟨hrole, hold⟩, by rw [hnative]; rfl⟩

theorem shows_presentationalFocusable (h : Shows u .presentationalFocusable) :
    Shows s .presentationalFocusable := by
  obtain ⟨t', ht', role, hrole, hmem, hfocus⟩ := h
  obtain ⟨t, ht, hdev⟩ := exists_of_forall₂_right hpairs ht'
  have hold := hdev.oldRole (ne_of_mem_of_not_mem hmem (by decide)) hrole
  exact ⟨t, ht, role, hold, hmem,
    hdev.isFocusable_of (hdev.grows_of_role? hold hrole) hfocus⟩

theorem shows_mouseOnlyHandler (hnames : ∀ t ∈ all s, ∀ c ∈ t.rawName, isNameChar c = true)
    (h : Shows u .mouseOnlyHandler) : Shows s .mouseOnlyHandler := by
  obtain ⟨t', ht', hmouse, hkeys⟩ := h
  obtain ⟨t, ht, hdev⟩ := exists_of_forall₂_right hpairs ht'
  rw [hdev.firstOf?_eq] at hmouse
  refine ⟨t, ht, hmouse, ?_⟩
  cases hold : hasKeyboardSupport t with
  | false => rfl
  | true => rw [hdev.hasKeyboardSupport_of (hnames t ht) hold] at hkeys; exact hkeys

theorem shows_expandedWithoutControls (h : Shows u .expandedWithoutControls) :
    Shows s .expandedWithoutControls := by
  obtain ⟨t', ht', hexpanded, hcontrols⟩ := h
  obtain ⟨t, ht, hdev⟩ := exists_of_forall₂_right hpairs ht'
  rw [hdev.tellsBoolean_eq (by decide)] at hexpanded
  rw [hdev.hasFilled_eq (by decide)] at hcontrols
  exact ⟨t, ht, hexpanded, hcontrols⟩

/-- A role other than that of a tablist was there before. -/
theorem exists_role_of_mem {role : Text} (hne : role ≠ "tablist")
    (h : ∃ t ∈ all u, t.role? = some role) : ∃ t ∈ all s, t.role? = some role := by
  obtain ⟨t', ht', hrole⟩ := h
  obtain ⟨t, ht, hdev⟩ := exists_of_forall₂_right hpairs ht'
  exact ⟨t, ht, hdev.oldRole hne hrole⟩

theorem shows_tabWithExpanded (h : Shows u .tabWithExpanded) : Shows s .tabWithExpanded := by
  obtain ⟨t', ht', hrole, hexpanded⟩ := h
  obtain ⟨t, ht, hdev⟩ := exists_of_forall₂_right hpairs ht'
  rw [hdev.tellsBoolean_eq (by decide)] at hexpanded
  exact ⟨t, ht, hdev.oldRole (by decide) hrole, hexpanded⟩

theorem shows_dialogWithoutModal (h : Shows u .dialogWithoutModal) :
    Shows s .dialogWithoutModal := by
  refine ⟨exists_role_of_mem hpairs (by decide) h.1, fun t ht => ?_⟩
  obtain ⟨t', ht', hdev⟩ := exists_of_forall₂_right hpairs.flip ht
  rw [← hdev.tellsBoolean_eq (by decide)]
  exact h.2 t' ht'

theorem shows_switchWithoutChecked (h : Shows u .switchWithoutChecked) :
    Shows s .switchWithoutChecked := by
  refine ⟨exists_role_of_mem hpairs (by decide) h.1, fun t ht => ?_⟩
  obtain ⟨t', ht', hdev⟩ := exists_of_forall₂_right hpairs.flip ht
  have hnew := h.2 t' ht'
  cases hvalue : value? "aria-checked" t.attrs with
  | none => rw [tellsBoolean, hvalue]; rfl
  | some value =>
    rw [tellsBoolean, hdev.checked value hvalue] at hnew
    rwa [tellsBoolean, hvalue]

theorem shows_labelWithoutRole (h : Shows u .labelWithoutRole) : Shows s .labelWithoutRole := by
  obtain ⟨t', ht', hlabel, hrole, hnative⟩ := h
  obtain ⟨t, ht, hdev⟩ := exists_of_forall₂_right hpairs ht'
  rw [hdev.has_eq (by decide), hdev.has_eq (by decide)] at hlabel
  rw [hdev.implicit?_eq] at hnative
  refine ⟨t, ht, hlabel, ?_, hnative⟩
  cases hold : t.role? with
  | none => rfl
  | some role =>
    rcases hdev.keptRole hold with hnew | hnew
    · rw [hrole] at hnew
      exact absurd hnew (by simp)
    · rw [hnative] at hnew
      exact absurd hnew (by simp)

theorem shows_conflictingNameSources (h : Shows u .conflictingNameSources) :
    Shows s .conflictingNameSources := by
  obtain ⟨t', ht', hlabel, hlabelledby⟩ := h
  obtain ⟨t, ht, hdev⟩ := exists_of_forall₂_right hpairs ht'
  rw [hdev.has_eq (by decide)] at hlabel hlabelledby
  exact ⟨t, ht, hlabel, hlabelledby⟩

theorem shows_missingRequiredAttribute (h : Shows u .missingRequiredAttribute) :
    Shows s .missingRequiredAttribute := by
  obtain ⟨t', ht', role, hrole, name, hname, hmissing⟩ := h
  obtain ⟨t, ht, hdev⟩ := exists_of_forall₂_right hpairs ht'
  have hne : role ≠ "tablist" := by
    rintro rfl
    have hnone : Role.requiredBy "tablist" = [] := by decide
    rw [hnone] at hname
    exact absurd hname (by simp)
  have hold := hdev.oldRole hne hrole
  obtain ⟨as, -, heq⟩ := hdev.ariaAttributes_eq
  refine ⟨t, ht, role, hold, name, hname, fun hmem => hmissing ?_⟩
  rw [heq, List.map_append]
  exact List.mem_append_left _ hmem

theorem shows_discouragedAttribute (h : Shows u .discouragedAttribute) :
    Shows s .discouragedAttribute := by
  obtain ⟨t', ht', role, hrole, name, hname, hmem⟩ := h
  obtain ⟨t, ht, hdev⟩ := exists_of_forall₂_right hpairs ht'
  have hne : role ≠ "tablist" := by
    rintro rfl
    have hnone : Role.discouragedBy "tablist" = [] := by decide
    rw [hnone] at hname
    exact absurd hname (by simp)
  have hold := hdev.oldRole hne hrole
  obtain ⟨as, has, heq⟩ := hdev.ariaAttributes_eq
  refine ⟨t, ht, role, hold, name, hname, ?_⟩
  rw [heq, List.map_append] at hmem
  refine (List.mem_append.1 hmem).resolve_right fun hadded => ?_
  obtain ⟨a, ha, rfl⟩ := List.mem_map.1 hadded
  exact not_mem_discouragedBy (has ha) role hname

theorem shows_or_arises_invalidAttributeValue (h : Shows u .invalidAttributeValue) :
    Shows s .invalidAttributeValue ∨ Arises s u .invalidAttributeValue := by
  obtain ⟨t', ht', role, hrole, a, ha, hinvalid⟩ := h
  obtain ⟨t, ht, hpair, hdev⟩ := exists_pair_of_mem_right hpairs ht'
  obtain ⟨as, has, heq⟩ := hdev.ariaAttributes_eq
  have hadmits : ∀ a ∈ addedPairs.map ofPair, Role.admits a.name a.value = true := by decide
  have hmem : a ∈ ariaAttributes t.attrs := by
    rw [heq] at ha
    refine (List.mem_append.1 ha).resolve_right fun hadded => ?_
    rw [hadmits a (has hadded)] at hinvalid
    exact Bool.noConfusion hinvalid
  cases hold : t.role? with
  | some role => exact Or.inl ⟨t, ht, role, hold, a, hmem, hinvalid⟩
  | none =>
    have hnew : role = "tablist" := (hdev.newRole hrole).resolve_left (by rw [hold]; simp)
    rw [hnew] at hrole
    exact Or.inr ⟨(t, t'), hpair, ⟨hrole, by rw [hold]; simp⟩, hold, a, hmem, hinvalid⟩

/-- **Containment**: only a container that is native can lose its role. -/
theorem fails_or_arises {rule : ContainmentRule} (hrule : rule ∈ containmentRules)
    (h : rule.Fails (roles u)) : rule.Fails (roles s) ∨ Arises s u rule.kind := by
  obtain ⟨⟨role, howned, hmem⟩, hcontainers⟩ := h
  have htablist : ∀ rule ∈ containmentRules, ∀ role ∈ rule.owned, role ≠ "tablist" := by decide
  have hold : role ∈ roles s := mem_roles_iff.2
    (exists_role_of_mem hpairs (htablist rule hrule role howned) (mem_roles_iff.1 hmem))
  by_cases hnone : ∀ c ∈ rule.containers, c ∉ roles s
  · exact Or.inl ⟨⟨role, howned, hold⟩, hnone⟩
  · obtain ⟨c, hc, hcmem⟩ : ∃ c ∈ rule.containers, c ∈ roles s := by simpa using hnone
    obtain ⟨t, ht, hrole⟩ := mem_roles_iff.1 hcmem
    obtain ⟨t', ht', hdev⟩ := exists_of_forall₂_right hpairs.flip ht
    -- the container is there no more, so its role was redundant
    have hnative : Role.implicit? t.name t.attrs = some c := by
      refine (hdev.keptRole hrole).resolve_left fun hnew => hcontainers c hc ?_
      exact mem_roles_iff.2 ⟨t', ht', hnew⟩
    have hlost : ∀ rule ∈ containmentRules, ∀ c ∈ rule.containers, c ∈ Role.implicitRoles →
        rule.kind = .rowWithoutTable ∧ c = "table" ∨ rule.kind = .cellWithoutRow ∧ c = "row" := by
      decide
    rcases hlost rule hrule c hc (Role.implicit?_mem hnative) with ⟨hkind, rfl⟩ | ⟨hkind, rfl⟩
    · rw [hkind]
      exact Or.inr ⟨t, ht, hrole, hnative⟩
    · rw [hkind]
      exact Or.inr ⟨t, ht, hrole, hnative⟩

end Tags

section Occurrences

variable (hpieces : List.Forall₂ (Piecewise Develops) (pieces s) (pieces u))

include hpieces

/-- Tags with their places stand in pairs. -/
theorem exists_pair_of_mem_all {o' : Occurrence} (ho' : o' ∈ Occurrence.all u) :
    ∃ o ∈ Occurrence.all s, (o, o') ∈ (Occurrence.all s).zip (Occurrence.all u) ∧
      Develops o.tag o'.tag :=
  exists_pair_of_mem_right (forall₂_ofPieces hpieces 0 0) ho'

theorem shows_or_arises_buttonWithoutName (h : Shows u .buttonWithoutName) :
    Shows s .buttonWithoutName ∨ Arises s u .buttonWithoutName := by
  obtain ⟨o', ho', hname, hnone, hinner⟩ := h
  obtain ⟨o, ho, hpair, hdev⟩ := exists_pair_of_mem_all hpieces ho'
  rw [hdev.name_eq] at hname
  rw [hdev.hasNameAttribute_eq] at hnone
  by_cases hold : o.innerText s = .ok (some [])
  · exact Or.inl ⟨o, ho, hname, hnone, hold⟩
  · refine Or.inr ⟨(o, o'), hpair, hname, hnone, hold, hinner, ?_⟩
    by_contra hread
    -- a button whose text is read does not close itself, and so did not before
    have hopen' : o'.tag.isSelfClosing = false := by
      refine Bool.eq_false_iff.2 fun hself => ?_
      rw [Occurrence.innerText, if_pos hself] at hinner
      exact absurd hinner (by simp)
    have hopen : o.tag.isSelfClosing = false := by
      refine Bool.eq_false_iff.2 fun hself => ?_
      rw [hdev.closesItself hself] at hopen'
      exact absurd hopen' (by simp)
    refine hold ((innerText_eq_of_not_holdsUnread hpieces hpair hdev.name_eq ?_ hread).symm.trans
      hinner)
    rw [hopen, hopen']

theorem shows_or_arises_interactiveWithoutName (h : Shows u .interactiveWithoutName) :
    Shows s .interactiveWithoutName ∨ Arises s u .interactiveWithoutName := by
  obtain ⟨o', ho', role, hrole, hneeds, hnative, hnone, hbare⟩ := h
  obtain ⟨o, ho, hpair, hdev⟩ := exists_pair_of_mem_all hpieces ho'
  have hold := hdev.oldRole (ne_of_mem_of_not_mem hneeds (by decide)) hrole
  rw [hdev.name_eq] at hnative
  rw [hdev.hasNameAttribute_eq] at hnone
  by_cases hinner : IsBare s o
  · exact Or.inl ⟨o, ho, role, hold, hneeds, hnative, hnone, hinner⟩
  · refine Or.inr ⟨(o, o'), hpair, ⟨role, hneeds, hold⟩, hnone, hinner, hbare, ?_⟩
    by_contra hread
    have hgrows := hdev.grows_of_role? hold hrole
    have hsame := innerText_eq_of_not_holdsUnread hpieces hpair hdev.name_eq hgrows.closesItself
      hread
    obtain ⟨inner, hshown, hnil⟩ := hbare
    exact hinner ⟨inner, hsame.symm.trans hshown, hnil⟩

end Occurrences

/-- **What shows in the new snippet** shows in the old one, or it is an exception. -/
theorem shows_or_arises (hpieces : List.Forall₂ (Piecewise Develops) (pieces s) (pieces u))
    (k : Smell.Kind) (h : Shows u k) : Shows s k ∨ Arises s u k := by
  have hoccurrences : List.Forall₂ (fun o o' => Develops o.tag o'.tag) (Occurrence.all s)
      (Occurrence.all u) := forall₂_ofPieces hpieces 0 0
  have htags : List.Forall₂ Develops (all s) (all u) := by
    rwa [← Occurrence.map_tag_all, ← Occurrence.map_tag_all, List.forall₂_map_left_iff,
      List.forall₂_map_right_iff]
  have hnames : ∀ t, .item t ∈ pieces s → ∀ c ∈ t.rawName, isNameChar c = true :=
    fun t ht => isNameChar_of_mem_pieces ht
  cases k with
  | redundantRole => exact Or.inl (shows_redundantRole htags h)
  | roleOverridesNative => exact shows_or_arises_roleOverridesNative htags h
  | presentationalFocusable => exact Or.inl (shows_presentationalFocusable htags h)
  | mouseOnlyHandler =>
    refine Or.inl (shows_mouseOnlyHandler htags (fun t ht => ?_) h)
    exact hnames t (mem_all_iff.1 ht)
  | expandedWithoutControls => exact Or.inl (shows_expandedWithoutControls htags h)
  | tabWithExpanded => exact Or.inl (shows_tabWithExpanded htags h)
  | dialogWithoutModal => exact Or.inl (shows_dialogWithoutModal htags h)
  | switchWithoutChecked => exact Or.inl (shows_switchWithoutChecked htags h)
  | labelWithoutRole => exact Or.inl (shows_labelWithoutRole htags h)
  | conflictingNameSources => exact Or.inl (shows_conflictingNameSources htags h)
  | buttonWithoutName => exact shows_or_arises_buttonWithoutName hpieces h
  | interactiveWithoutName => exact shows_or_arises_interactiveWithoutName hpieces h
  | emptyName =>
    have hkeeps := Piecewise.forall₂_imp hpieces fun t _ u hdev => hdev.others
    have hnil := blankOf_eq_nil_iff hkeeps fun t ht hmem => by
      have hsign := hnames t ht '=' hmem
      exact absurd hsign (by decide)
    rw [textOf_pieces, textOf_pieces] at hnil
    exact Or.inl fun hold => h (hnil.2 hold)
  | missingRequiredAttribute => exact Or.inl (shows_missingRequiredAttribute htags h)
  | discouragedAttribute => exact Or.inl (shows_discouragedAttribute htags h)
  | invalidAttributeValue => exact shows_or_arises_invalidAttributeValue htags h
  | _ =>
    obtain ⟨rule, hrule, hkind, hfails⟩ := h
    refine (fails_or_arises htags hrule hfails).imp (fun hold => ⟨rule, hrule, hkind, hold⟩) ?_
    rw [hkind]
    exact id

end Kinds

/-! ## A run with the default options -/

theorem eq_map_char_of_piecewise {R : Tag → Tag → Prop} {t : Text} {qs : List (Piece Tag)}
    (h : List.Forall₂ (Piecewise R) (t.map .char) qs) : qs = t.map .char := by
  induction t generalizing qs with
  | nil =>
    cases h
    rfl
  | cons c t ih =>
    cases h with
    | cons hpq hrest =>
      cases hpq with
      | char c => rw [ih hrest, List.map_cons]

/-- A blank snippet has nothing to fix. -/
theorem text_apply_of_blank {s : Text} (h : Text.trim s = []) : (apply .default s).text = s := by
  have hopen := not_mem_of_blank h
  have hchars := pieces_of_not_mem hopen
  have hnone := all_of_not_mem hopen
  have hpieces := pieces_apply_default (s := s) (by simp [hnone])
  rw [hchars] at hpieces
  rw [← textOf_pieces (apply .default s).text, eq_map_char_of_piecewise hpieces, ← hchars,
    textOf_pieces]

theorem exists_ok_of_any {x : Except Markup.MarkupError (List Diagnostic)}
    {p : List Diagnostic → Bool} (h : x.toOption.any p = true) :
    ∃ ds, x = .ok ds ∧ p ds = true := by
  cases x with
  | error e => exact absurd h (by simp [Except.toOption])
  | ok ds => exact ⟨ds, rfl, h⟩

/-- The kind is reported for the fixed text of the snippet only, and the snippet is in order: the tags
that are edited are tidy, and no tag has another role behind a redundant one. -/
def BringsIn (s : Text) (k : Smell.Kind) : Prop :=
  EditsTidily s ∧ (∀ t ∈ all s, hasOneRole t = true) ∧
    ∃ ds es, detect .default s = .ok ds ∧ detect .default (apply .default s).text = .ok es ∧
      (∃ e ∈ es, e.kind = k) ∧ ∀ d ∈ ds, d.kind ≠ k

theorem bringsIn_of_any {s : Text} {k : Smell.Kind}
    (hedits : EditsTidily s) (hone : ∀ t ∈ all s, hasOneRole t = true)
    (hold : (detect .default s).toOption.any (fun ds => ds.all (·.kind != k)) = true)
    (hnew : (detect .default (apply .default s).text).toOption.any
      (fun es => es.any (·.kind == k)) = true) : BringsIn s k := by
  obtain ⟨ds, hds, hnone⟩ := exists_ok_of_any hold
  obtain ⟨es, hes, hsome⟩ := exists_ok_of_any hnew
  exact ⟨hedits, hone, ds, es, hds, hes, by simpa using hsome, by simpa using hnone⟩

end Fix
end AriaLint
