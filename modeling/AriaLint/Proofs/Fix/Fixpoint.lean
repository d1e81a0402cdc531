import AriaLint.Proofs.Fix.Idempotence

/-!
# One run of the additions is enough

The pass that takes roles out is what a second run can still have work for
(`Proofs.Fix.Idempotence`).  Without it, and with containers that end at the first closing tag of
their name, the fixes reach a fixpoint in one run, whichever of the three additions are wanted
(`apply_apply_of_additions`).

For each addition that is wanted there is a property of the fixed text that leaves it nothing to do:
`TellsChecked` and `TellsRange` hold of each tag, and the containers are settled.  The passes
that come later keep these, so in the second run every pass starts from the fixed text itself.
-/

namespace AriaLint
namespace Fix

open Tag

/-- A pass that has nothing to do. -/
theorem Result.andThenIf_eq_self {r : Result} {wanted : Bool} {pass : Text → Result}
    (h : wanted = true → pass r.text = ⟨r.text, []⟩) : r.andThenIf wanted pass = r := by
  cases wanted with
  | false => rfl
  | true =>
    show (⟨(pass r.text).text, r.changes ++ (pass r.text).changes⟩ : Result) = r
    rw [h rfl, List.append_nil]

section Additions

variable {o : Options} (hcloses : o.ClosesNothing) (hquotes : o.QuotesNothing)

include hcloses hquotes in
theorem editTags_addChecked_apply (hchecked : o.addChecked = true) (s : Text) :
    editTags (addChecked? o.checked) (apply o s).text = ⟨(apply o s).text, []⟩ :=
  editTags_of_forall fun t ht =>
    addChecked?_eq_none_iff.2 (tellsChecked_apply hcloses hquotes hchecked s t ht)

include hcloses hquotes in
theorem editTags_addValueRange_apply (hrange : o.addValueRange = true) (s : Text) :
    editTags (addValueRange? (rangeDefaults o)) (apply o s).text = ⟨(apply o s).text, []⟩ :=
  editTags_of_forall fun t ht =>
    addValueRange?_eq_none_iff.2 (tellsRange_apply hcloses hquotes hrange s t ht)

/-- The pass over containers comes last, so its own output is what it finds. -/
theorem addTablists_apply (hdepth : o.trackDepth = false) (htablists : o.addTablists = true)
    (s : Text) : addTablists o.trackDepth (apply o s).text = ⟨(apply o s).text, []⟩ := by
  unfold apply
  rw [hdepth, htablists]
  exact addTablistsByFirstClose_idempotent _

end Additions

/-- **The additions reach a fixpoint in one run.**  When no roles are taken out, containers end at
the first closing tag of their name, and the values that are filled in hold neither quotes nor a
closing bracket, a second run with the same options changes nothing, and logs nothing. -/
theorem apply_apply_of_additions (o : Options) (hroles : o.removeRedundantRoles = false)
    (hdepth : o.trackDepth = false)
    (hvalues : ∀ value ∈ [o.checked, o.valueMin, o.valueMax, o.valueNow],
      ∀ c ∈ value, c ≠ '"' ∧ c ≠ '\x27' ∧ c ≠ '>')
    (s : Text) : apply o (apply o s).text = ⟨(apply o s).text, []⟩ := by
  have hcloses := Options.closesNothing_of_values hvalues
  have hquotes := Options.quotesNothing_of_values hvalues
  have hfirst : (Result.mk (apply o s).text []).andThenIf o.removeRedundantRoles
      (editTags removeRedundantRole?) = ⟨(apply o s).text, []⟩ :=
    Result.andThenIf_eq_self fun h => absurd (hroles.symm.trans h) (by decide)
  have hchecked := Result.andThenIf_eq_self (r := ⟨(apply o s).text, []⟩)
    fun h => editTags_addChecked_apply hcloses hquotes h s
  have hrange := Result.andThenIf_eq_self (r := ⟨(apply o s).text, []⟩)
    fun h => editTags_addValueRange_apply hcloses hquotes h s
  have htablists := Result.andThenIf_eq_self (r := ⟨(apply o s).text, []⟩)
    fun h => addTablists_apply hdepth h s
  generalize (apply o s).text = u at hfirst hchecked hrange htablists ⊢
  unfold apply
  rw [hfirst, hchecked, hrange, htablists]

/-- A container that starts within the attributes of another tag, a closing tag that runs into a
slider, and other values than usual. -/
theorem apply_apply_of_additions_overlapping :
    (∀ value ∈ ["mixed", "1", "", "= /"], ∀ c ∈ (value : Text),
        c ≠ '"' ∧ c ≠ '\x27' ∧ c ≠ '>') ∧
      (apply ⟨false, true, true, true, false, "mixed", "1", "", "= /"⟩
          "<a <p x='<b role=tab>' role=switch/></p <i role='slider' ></p>").text =
        "<a <p x='<b role=tab>' role=switch/></p <i role='slider' aria-valuemin=\"1\" " ++
          "aria-valuemax=\"\" aria-valuenow=\"= /\" ></p>" ∧
      apply ⟨false, true, true, true, false, "mixed", "1", "", "= /"⟩
          (apply ⟨false, true, true, true, false, "mixed", "1", "", "= /"⟩
            "<a <p x='<b role=tab>' role=switch/></p <i role='slider' ></p>").text =
        ⟨(apply ⟨false, true, true, true, false, "mixed", "1", "", "= /"⟩
            "<a <p x='<b role=tab>' role=switch/></p <i role='slider' ></p>").text, []⟩ :=
  ⟨by decide, by decide +kernel, apply_apply_of_additions _ rfl rfl (by decide) _⟩

end Fix
end AriaLint
