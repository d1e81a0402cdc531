import AriaLint.Report.Roles
import Mathlib.Data.List.Sort

/-!
# What a summary of roles says

A summary is made by going through tags and names, and by looking names up.  Here it is described by
what a reader is told (`RoleSummary.Tells`): which roles occur and in which order, which of them the
reference does not know, and which one is worth a description.

The order is the one of first occurrence (`IsFirstSeen`).  It settles the list of the roles, and with
the list all else is settled too, so that the description fits one summary only
(`eq_ofSnippet_iff`).

One part of it is no matter of going through lists.  Where implicit roles count, the first of them is
the primary one, with nothing said about the reference.  That is right because the reference knows
every role that an element can have without being told (`Role.find?_implicit`); a role that the
table of elements has and the reference has not would be skipped.
-/

namespace AriaLint

/-! ## First occurrences -/

section FirstSeen

variable {α : Type} [DecidableEq α] {d e l : List α}

/-- The list `d` has the members of `l`, each of them once, in the order in which they occur first. -/
structure IsFirstSeen (d l : List α) : Prop where
  nodup : d.Nodup
  mem_iff : ∀ a, a ∈ d ↔ a ∈ l
  inOrder : d.Pairwise fun a b => l.idxOf a < l.idxOf b

theorem pairwise_distinct (l : List α) :
    (distinct l).Pairwise fun a b => l.idxOf a < l.idxOf b := by
  induction l with
  | nil => exact List.Pairwise.nil
  | cons c l ih =>
    have hother : ∀ a ∈ (distinct l).filter (· ≠ c), (c :: l).idxOf a = l.idxOf a + 1 :=
      fun a ha => List.idxOf_cons_ne l (Ne.symm (of_decide_eq_true (List.mem_filter.1 ha).2))
    rw [distinct, List.pairwise_cons]
    constructor
    · intro a ha
      rw [List.idxOf_cons_self, hother a ha]
      exact Nat.succ_pos _
    · refine (ih.sublist List.filter_sublist).imp_of_mem fun ha hb hab => ?_
      rw [hother _ ha, hother _ hb]
      exact Nat.succ_lt_succ hab

theorem isFirstSeen_distinct (l : List α) : IsFirstSeen (distinct l) l where
  nodup := nodup_distinct l
  mem_iff _ := mem_distinct
  inOrder := pairwise_distinct l

/-- The members and their order settle a list. -/
theorem eq_of_inOrder (hd : d.Pairwise fun a b => l.idxOf a < l.idxOf b)
    (he : e.Pairwise fun a b => l.idxOf a < l.idxOf b) (h : ∀ a, a ∈ d ↔ a ∈ e) : d = e := by
  have hnodup : ∀ {m : List α}, (m.Pairwise fun a b => l.idxOf a < l.idxOf b) → m.Nodup :=
    fun hm => hm.imp fun hab => ne_of_apply_ne (l.idxOf ·) (Nat.ne_of_lt hab)
  have hperm : d.Perm e := (List.perm_ext_iff_of_nodup (hnodup hd) (hnodup he)).2 h
  exact hperm.eq_of_pairwise (fun _ _ _ _ hab hba => absurd hba (Nat.lt_asymm hab)) hd he

theorem IsFirstSeen.unique (hd : IsFirstSeen d l) (he : IsFirstSeen e l) : d = e :=
  eq_of_inOrder hd.inOrder he.inOrder fun a => (hd.mem_iff a).trans (he.mem_iff a).symm

end FirstSeen

namespace RoleSummary

variable {snippet : Text} {s : RoleSummary}

/-- The implicit roles of the tags of a snippet, from the left. -/
def implicitRolesOf (snippet : Text) : List Text :=
  (Tag.all snippet).filterMap fun t => Role.implicit? t.name t.attrs

/-- What a summary tells about the roles of a snippet.  Implicit roles are told only where there are
no explicit ones. -/
structure Tells (snippet : Text) (s : RoleSummary) : Prop where
  explicitRoles : IsFirstSeen s.explicitRoles (Tag.roles snippet)
  unknown_sublist : s.unknownRoles.Sublist s.explicitRoles
  mem_unknown_iff : ∀ name, name ∈ s.unknownRoles ↔
    name ∈ s.explicitRoles ∧ Role.find? name = none
  /-- The primary role is the first one that the reference knows. -/
  primary_iff : s.explicitRoles ≠ [] → ∀ role, s.primary = some role ↔
    ∃ before name after, s.explicitRoles = before ++ name :: after ∧ Role.find? name = some role ∧
      ∀ n ∈ before, Role.find? n = none
  noImplicit : s.explicitRoles ≠ [] → s.implicitRoles = [] ∧ s.isImplicit = false
  implicitRoles : s.explicitRoles = [] → IsFirstSeen s.implicitRoles (implicitRolesOf snippet)
  /-- Without any role there is no primary one. -/
  noPrimary : s.explicitRoles = [] → s.implicitRoles = [] →
    s.primary = none ∧ s.isImplicit = false
  /-- Otherwise it is the first implicit role, which is known under its own name. -/
  firstImplicit : s.explicitRoles = [] → ∀ name rest, s.implicitRoles = name :: rest →
    s.isImplicit = true ∧
      ∃ role, s.primary = some role ∧ Role.find? name = some role ∧ role.name = name

/-- Where the reference is asked for implicit roles, it knows the first of them. -/
theorem exists_primary {name : Text} {rest : List Text}
    (h : IsFirstSeen (name :: rest) (implicitRolesOf snippet)) :
    ∃ role, (name :: rest).findSome? Role.find? = some role ∧ Role.find? name = some role ∧
      role.name = name := by
  obtain ⟨t, -, ht⟩ := List.mem_filterMap.1 ((h.mem_iff name).1 List.mem_cons_self)
  obtain ⟨role, hrole, hname⟩ := Role.find?_implicit ht
  exact ⟨role, by rw [List.findSome?_cons, hrole], hrole, hname⟩

theorem tells_ofSnippet (snippet : Text) : Tells snippet (ofSnippet snippet) := by
  have hexplicit := isFirstSeen_distinct (Tag.roles snippet)
  unfold ofSnippet
  dsimp only
  split
  · next hnone =>
    have himplicit := isFirstSeen_distinct (implicitRolesOf snippet)
    rw [hnone] at hexplicit
    exact {
      explicitRoles := hexplicit
      unknown_sublist := List.Sublist.refl []
      mem_unknown_iff := by simp
      primary_iff := fun h => absurd rfl h
      noImplicit := fun h => absurd rfl h
      implicitRoles := fun _ => himplicit
      noPrimary := by
        intro _ (h : distinct (implicitRolesOf snippet) = [])
        show (distinct (implicitRolesOf snippet)).findSome? Role.find? = none ∧
          ((distinct (implicitRolesOf snippet)).findSome? Role.find?).isSome = false
        rw [h]
        exact ⟨rfl, rfl⟩
      firstImplicit := by
        intro _ name rest (h : distinct (implicitRolesOf snippet) = name :: rest)
        rw [h] at himplicit
        obtain ⟨role, hprimary, hrole, hname⟩ := exists_primary himplicit
        show ((distinct (implicitRolesOf snippet)).findSome? Role.find?).isSome = true ∧
          ∃ role, (distinct (implicitRolesOf snippet)).findSome? Role.find? = some role ∧ _
        rw [h, hprimary]
        exact ⟨rfl, role, rfl, hrole, hname⟩ }
  · next hsome =>
    exact {
      explicitRoles := hexplicit
      unknown_sublist := List.filter_sublist
      mem_unknown_iff := by simp
      primary_iff := fun _ _ => List.findSome?_eq_some_iff
      noImplicit := fun _ => ⟨rfl, rfl⟩
      implicitRoles := fun h => absurd h hsome
      noPrimary := fun h => absurd h hsome
      firstImplicit := fun h => absurd h hsome }

/-- **What is told settles the summary.** -/
theorem Tells.unique {s' : RoleSummary} (h : Tells snippet s) (h' : Tells snippet s') : s = s' := by
  have hexplicit : s.explicitRoles = s'.explicitRoles := h.explicitRoles.unique h'.explicitRoles
  have hunknown : s.unknownRoles = s'.unknownRoles := by
    refine eq_of_inOrder (h.explicitRoles.inOrder.sublist h.unknown_sublist)
      (h'.explicitRoles.inOrder.sublist h'.unknown_sublist) fun name => ?_
    rw [h.mem_unknown_iff, h'.mem_unknown_iff, hexplicit]
  obtain ⟨himplicit, hprimary, hflag⟩ : s.implicitRoles = s'.implicitRoles ∧
      s.primary = s'.primary ∧ s.isImplicit = s'.isImplicit := by
    by_cases hnone : s.explicitRoles = []
    · have hnone' : s'.explicitRoles = [] := hexplicit ▸ hnone
      have himplicit := (h.implicitRoles hnone).unique (h'.implicitRoles hnone')
      refine ⟨himplicit, ?_⟩
      cases hnames : s.implicitRoles with
      | nil =>
        obtain ⟨hp, hf⟩ := h.noPrimary hnone hnames
        obtain ⟨hp', hf'⟩ := h'.noPrimary hnone' (himplicit ▸ hnames)
        exact ⟨hp.trans hp'.symm, hf.trans hf'.symm⟩
      | cons name rest =>
        obtain ⟨hf, role, hp, hrole, -⟩ := h.firstImplicit hnone name rest hnames
        obtain ⟨hf', role', hp', hrole', -⟩ :=
          h'.firstImplicit hnone' name rest (himplicit ▸ hnames)
        obtain rfl : role = role' := Option.some.inj (hrole.symm.trans hrole')
        exact ⟨hp.trans hp'.symm, hf.trans hf'.symm⟩
    · have hnone' : s'.explicitRoles ≠ [] := hexplicit ▸ hnone
      obtain ⟨hi, hf⟩ := h.noImplicit hnone
      obtain ⟨hi', hf'⟩ := h'.noImplicit hnone'
      refine ⟨hi.trans hi'.symm, Option.ext fun role => ?_, hf.trans hf'.symm⟩
      rw [h.primary_iff hnone, h'.primary_iff hnone', hexplicit]
  obtain ⟨explicitRoles, primary, unknownRoles, implicitRoles, isImplicit⟩ := s
  obtain ⟨explicitRoles', primary', unknownRoles', implicitRoles', isImplicit'⟩ := s'
  dsimp only at *
  rw [hexplicit, hprimary, hunknown, himplicit, hflag]

/-- **A summary of a snippet's roles is coherent**, and only one summary is: the explicit roles are
those of the tags, each once and in the order of first occurrence, with the unknown ones among them
and the first known one as the primary role; where there are none, the implicit roles take their
place, and the first of them is always known. -/
theorem eq_ofSnippet_iff : s = ofSnippet snippet ↔ Tells snippet s := by
  constructor
  · rintro rfl
    exact tells_ofSnippet snippet
  · exact fun h => h.unique (tells_ofSnippet snippet)

end RoleSummary
end AriaLint
