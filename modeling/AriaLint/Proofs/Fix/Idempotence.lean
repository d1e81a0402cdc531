import AriaLint.Proofs.Fix.Controls
import AriaLint.Proofs.Fix.FirstClose

/-!
# Running the fixes twice

A second run should find nothing left to do.  Of the four passes three meet this: controls have the
attributes that their roles ask for (`tells_apply`), and containers of tabs have a role.  The first
pass does not.  It takes out one role of a tag, and when the tag has another one behind it that is
redundant as well, the next run takes out that one.

So the exact condition is about the first pass alone (`apply_default_twice_iff`): the second run
changes nothing if and only if no tag of the fixed text carries a redundant role.
-/

namespace AriaLint
namespace Fix

open Tag

/-! ## Nothing left to do -/

/-- A pass that edits no tag of the text leaves it as it is. -/
theorem editTags_of_forall {edit? : Tag → Option Edit} {t : Text}
    (h : ∀ tag ∈ all t, edit? tag = none) : editTags edit? t = ⟨t, []⟩ := by
  have htext : (editTags edit? t).text = t := by
    have hsame : (pieces t).map (editPiece edit?) = pieces t := by
      conv => rhs; rw [← List.map_id (pieces t)]
      refine List.map_congr_left fun p hp => ?_
      cases p with
      | char c => rfl
      | item tag =>
        rw [editPiece, edited_of_none (h tag (mem_all_iff.2 hp))]
        rfl
    rw [text_editTags, hsame, textOf_pieces]
  have hchanges : (editTags edit? t).changes = [] := by
    refine List.filterMap_eq_nil_iff.2 fun tag htag => ?_
    rw [h tag htag]
    rfl
  calc editTags edit? t = ⟨(editTags edit? t).text, (editTags edit? t).changes⟩ := rfl
    _ = ⟨t, []⟩ := by rw [htext, hchanges]

theorem forall_of_editTags {edit? : Tag → Option Edit} {t : Text}
    (h : (editTags edit? t).changes = []) : ∀ tag ∈ all t, edit? tag = none := by
  intro tag htag
  exact Option.map_eq_none_iff.1 (List.filterMap_eq_nil_iff.1 h tag htag)

/-! ## The second run -/

/-- The controls of a fixed text tell all that their roles ask for. -/
theorem tells_apply_default (s : Text) :
    ∀ t ∈ all (apply .default s).text, TellsChecked t ∧ TellsRange t :=
  tells_apply (by decide) (by decide) rfl rfl s

/-- **When a second run changes nothing.**  The fixes are idempotent at a snippet if and only if no
tag of the fixed text carries a role that its element has anyway. -/
theorem apply_default_twice_iff (s : Text) :
    apply .default (apply .default s).text = ⟨(apply .default s).text, []⟩ ↔
      ∀ t ∈ all (apply .default s).text, ∀ role,
        Role.implicit? t.name t.attrs = some role → t.role? ≠ some role := by
  constructor
  · intro h t ht
    rw [← removeRedundantRole?_eq_none_iff]
    have hchanges : (apply .default (apply .default s).text).changes = [] := by rw [h]
    have hfirst : (editTags removeRedundantRole? (apply .default s).text).changes = [] := by
      have hsplit : (apply .default (apply .default s).text).changes =
          [] ++ (editTags removeRedundantRole? (apply .default s).text).changes ++ _ ++ _ ++ _ :=
        rfl
      rw [hsplit, List.append_eq_nil_iff, List.append_eq_nil_iff, List.append_eq_nil_iff]
        at hchanges
      exact hchanges.1.1.1
    exact forall_of_editTags hfirst t ht
  · intro h
    have hroles := editTags_of_forall fun t ht => removeRedundantRole?_eq_none_iff.2 (h t ht)
    have hchecked : editTags (addChecked? Options.default.checked) (apply .default s).text =
        ⟨(apply .default s).text, []⟩ := editTags_of_forall fun t ht =>
      addChecked?_eq_none_iff.2 (tells_apply_default s t ht).1
    have hranges : editTags (addValueRange? (rangeDefaults .default)) (apply .default s).text =
        ⟨(apply .default s).text, []⟩ := editTags_of_forall fun t ht =>
      addValueRange?_eq_none_iff.2 (tells_apply_default s t ht).2
    have htablists : addTablistsByFirstClose (apply .default s).text =
        ⟨(apply .default s).text, []⟩ := addTablistsByFirstClose_idempotent (withRanges s)
    have hrun : ∀ u, apply .default u =
        ((((Result.mk u []).andThen (editTags removeRedundantRole?)).andThen
          (editTags (addChecked? Options.default.checked))).andThen
          (editTags (addValueRange? (rangeDefaults .default)))).andThen addTablistsByFirstClose :=
      fun u => rfl
    rw [hrun]
    simp only [Result.andThen, hroles, hchecked, hranges, htablists, List.append_nil]

/-- A tag with its redundant role twice loses one in each run. -/
theorem apply_default_twice_ne :
    apply .default (apply .default "<button role=\"button\" role=\"button\">").text ≠
      ⟨(apply .default "<button role=\"button\" role=\"button\">").text, []⟩ := by
  decide +kernel

end Fix
end AriaLint
