import AriaLint.Fix.Apply

/-!
# The log of the fixes

Each pass makes entries of one kind (`kind_of_mem_addChecked`, `kind_of_mem_addValueRange`,
`kind_of_mem_addTablists`), each of them for an edit of a tag.  So a property of all entries is shown
pass by pass (`Result.forall_changes_andThenIf`), and the entries of one kind are those of one pass
(`Result.filter_changes_andThenIf`, `filter_changes_apply`).
-/

namespace AriaLint.Fix

/-! ## The entries of a pass -/

theorem exists_edit_of_mem_changes {edit? : Tag → Option Edit} {t : Text} {c : Change}
    (h : c ∈ (editTags edit? t).changes) : ∃ tag e, edit? tag = some e ∧ e.change = c := by
  obtain ⟨tag, -, hc⟩ := List.mem_filterMap.1 h
  obtain ⟨e, he, rfl⟩ := Option.map_eq_some_iff.1 hc
  exact ⟨tag, e, he, rfl⟩

theorem exists_tag_of_mem_tablistPieces {skip : Nat} {ps : List (Piece Tag)} {c : Change}
    (h : c ∈ (tablistPieces skip ps).2) : ∃ t, c = (addTablist t).change := by
  fun_induction tablistPieces skip ps with
  | case1 => simp at h
  | case2 skip d ps qs cs hrest ih =>
    rw [hrest] at ih
    exact ih h
  | case3 skip t ps qs cs hrest ih =>
    rw [hrest] at ih
    exact ih h
  | case4 t ps hclose qs cs hrest ih =>
    rw [hrest] at ih
    exact ih h
  | case5 t ps close hclose hnew qs cs hrest ih =>
    rw [hrest] at ih
    rcases List.mem_cons.1 h with rfl | h
    · exact ⟨t, rfl⟩
    · exact ih h
  | case6 t ps close hclose hrole qs cs hrest ih =>
    rw [hrest] at ih
    exact ih h

theorem exists_tag_of_mem_addTablists {trackDepth : Bool} {t : Text} {c : Change}
    (h : c ∈ (addTablists trackDepth t).changes) : ∃ tag, c = (addTablist tag).change := by
  unfold addTablists at h
  split at h
  · exact exists_tag_of_mem_tablistPieces h
  · obtain ⟨k, -, hc⟩ := List.mem_filterMap.1 h
    obtain ⟨e, he, rfl⟩ := Option.map_eq_some_iff.1 hc
    unfold Container.edit? at he
    split at he
    · simp at he
    · obtain rfl := Option.some.inj he
      exact ⟨k.tag, rfl⟩

theorem kind_of_mem_removeRedundantRoles {t : Text} {c : Change}
    (h : c ∈ (editTags removeRedundantRole? t).changes) : c.kind = .removedRedundantRole := by
  obtain ⟨tag, e, he, rfl⟩ := exists_edit_of_mem_changes h
  unfold removeRedundantRole? at he
  split at he
  · simp at he
  · split at he
    · obtain rfl := Option.some.inj he
      rfl
    · simp at he

theorem kind_of_mem_addChecked {value t : Text} {c : Change}
    (h : c ∈ (editTags (addChecked? value) t).changes) : c.kind = .addedAriaChecked := by
  obtain ⟨tag, e, he, rfl⟩ := exists_edit_of_mem_changes h
  unfold addChecked? at he
  split at he
  · simp at he
  · split at he
    · simp at he
    · obtain rfl := Option.some.inj he
      rfl

theorem kind_of_mem_addValueRange {defaults : List (Text × Text)} {t : Text} {c : Change}
    (h : c ∈ (editTags (addValueRange? defaults) t).changes) : c.kind = .addedValueRange := by
  obtain ⟨tag, e, he, rfl⟩ := exists_edit_of_mem_changes h
  unfold addValueRange? at he
  split at he
  · simp at he
  · dsimp only at he
    split at he
    · simp at he
    · obtain rfl := Option.some.inj he
      rfl

theorem kind_of_mem_addTablists {trackDepth : Bool} {t : Text} {c : Change}
    (h : c ∈ (addTablists trackDepth t).changes) : c.kind = .addedTablist := by
  obtain ⟨tag, rfl⟩ := exists_tag_of_mem_addTablists h
  rfl

/-! ## The entries of a run -/

/-- What holds of the log so far and of all that a pass may add holds afterwards. -/
theorem Result.forall_changes_andThenIf {P : Change → Prop} {r : Result} {pass : Text → Result}
    (h : ∀ c ∈ r.changes, P c) (wanted : Bool) (hpass : ∀ t, ∀ c ∈ (pass t).changes, P c) :
    ∀ c ∈ (r.andThenIf wanted pass).changes, P c := by
  cases wanted with
  | false => exact h
  | true =>
    intro c hc
    rcases List.mem_append.1 hc with hc | hc
    · exact h c hc
    · exact hpass _ c hc

/-- A pass whose entries are of other kinds leaves those of a kind as they are. -/
theorem Result.filter_changes_andThenIf {k : Kind} (r : Result) (wanted : Bool)
    {pass : Text → Result} (hpass : ∀ t, ∀ c ∈ (pass t).changes, c.kind ≠ k) :
    (r.andThenIf wanted pass).changes.filter (·.kind = k) = r.changes.filter (·.kind = k) := by
  cases wanted with
  | false => rfl
  | true =>
    have hnone : (pass r.text).changes.filter (·.kind = k) = [] :=
      List.filter_eq_nil_iff.2 fun c hc => by simpa using hpass r.text c hc
    show (r.changes ++ (pass r.text).changes).filter _ = _
    rw [List.filter_append, hnone, List.append_nil]

/-- The entries about redundant roles are those of the first pass. -/
theorem filter_changes_apply {o : Options} (ho : o.removeRedundantRoles = true) (s : Text) :
    (apply o s).changes.filter (·.kind = .removedRedundantRole) =
      (editTags removeRedundantRole? s).changes := by
  unfold apply
  rw [Result.filter_changes_andThenIf, Result.filter_changes_andThenIf,
    Result.filter_changes_andThenIf, ho]
  · exact List.filter_eq_self.2 fun c hc => by
      rw [kind_of_mem_removeRedundantRoles hc]
      rfl
  · intro t c hc
    rw [kind_of_mem_addChecked hc]
    decide
  · intro t c hc
    rw [kind_of_mem_addValueRange hc]
    decide
  · intro t c hc
    rw [kind_of_mem_addTablists hc]
    decide

end AriaLint.Fix
