import AriaLint.Proofs.Fix.Additions
import AriaLint.Proofs.Fix.Log
import AriaLint.Proofs.Smell.Options

/-!
# Passes over single tags are local

The passes that edit or judge each tag for itself can be run on the two halves of a text, as long as
no tag reaches from the first half into the second one.  The fixed text of both halves is their fixed
texts in a row, and so are the log and the findings, taken kind by kind or category by category
(`tagPasses_append`).

One pass is local since the pieces of two texts in a row are their pieces in a row (`pieces_append`).
For the next pass the text that it leaves must again close its brackets in its first half.  It does,
whatever is written into the tags, because a tag ends with a bracket before and after an edit
(`bracketsClose_editTags`).  In the log the passes take turns, and the entries of a kind come from
one pass; that is why the kinds have to be told apart (`Result.Joins`).
-/

namespace AriaLint

/-- The inner two of four lists change places when one of them is empty. -/
theorem append_exchange {α : Type} {a b c d : List α} (h : b = [] ∨ c = []) :
    (a ++ b) ++ (c ++ d) = (a ++ c) ++ (b ++ d) := by
  rcases h with rfl | rfl
  · simp
  · simp

/-! ## Fixes -/

namespace Fix

open Tag

section Pass

variable (edit? : Tag → Option Edit)

theorem text_editTags_append {a : Text} (h : BracketsClose a) (b : Text) :
    (editTags edit? (a ++ b)).text = (editTags edit? a).text ++ (editTags edit? b).text := by
  rw [text_editTags, text_editTags, text_editTags, pieces_append h, List.map_append, textOf_append]

theorem changes_editTags_append {a : Text} (h : BracketsClose a) (b : Text) :
    (editTags edit? (a ++ b)).changes = (editTags edit? a).changes ++ (editTags edit? b).changes := by
  show (all (a ++ b)).filterMap _ = _
  rw [all_append h, List.filterMap_append]
  rfl

/-- Editing tags takes no closing bracket away for good. -/
theorem close_mem_editTags {t : Text} (h : '>' ∈ t) : '>' ∈ (editTags edit? t).text := by
  rw [text_editTags]
  induction t using piecesInduction with
  | nil => exact absurd h (by simp)
  | char c t hread ih =>
    rw [pieces_of_not_read hread, List.map_cons, editPiece, textOf_char]
    rcases List.mem_cons.1 h with rfl | h
    · exact List.mem_cons_self
    · exact List.mem_cons_of_mem c (ih h)
  | item t tag rest hread _ =>
    rw [pieces_of_read hread, List.map_cons, editPiece, textOf_item]
    simp [source]

/-- **Editing tags leaves no bracket open.** -/
theorem bracketsClose_editTags {t : Text} (h : BracketsClose t) :
    BracketsClose (editTags edit? t).text := by
  induction t using piecesInduction with
  | nil =>
    rw [text_editTags, pieces_nil]
    trivial
  | char c t hread ih =>
    have hclose : c = '<' → '>' ∈ (editTags edit? t).text := fun hc =>
      close_mem_editTags edit? (h.1 hc)
    have hrest := ih h.2
    rw [text_editTags] at hclose hrest ⊢
    rw [pieces_of_not_read hread]
    exact ⟨hclose, hrest⟩
  | item t tag rest hread ih =>
    rw [← source_append_of_read? hread] at h
    have hrest := ih (bracketsClose_of_append h)
    rw [text_editTags] at hrest ⊢
    rw [pieces_of_read hread]
    exact bracketsClose_append (bracketsClose_append_close _) hrest

end Pass

/-- The first result is that of the other two in a row: its text is theirs, and so are the entries of
each kind.  The first half leaves no bracket open, and the log of the second one holds entries of the
given kinds only. -/
structure Result.Joins (seen : List Kind) (r s t : Result) : Prop where
  text : r.text = s.text ++ t.text
  closes : BracketsClose s.text
  changes : ∀ k, r.changes.filter (·.kind = k) =
    s.changes.filter (·.kind = k) ++ t.changes.filter (·.kind = k)
  kinds : ∀ c ∈ t.changes, c.kind ∈ seen

/-- **A pass over single tags whose entries are of a new kind** keeps the halves apart. -/
theorem Result.Joins.andThenIf {seen : List Kind} {r s t : Result} (h : Joins seen r s t)
    (wanted : Bool) {edit? : Tag → Option Edit} {kind : Kind}
    (hkind : ∀ u, ∀ c ∈ (editTags edit? u).changes, c.kind = kind) (hnew : kind ∉ seen) :
    Joins (kind :: seen) (r.andThenIf wanted (editTags edit?)) (s.andThenIf wanted (editTags edit?))
      (t.andThenIf wanted (editTags edit?)) where
  text := by
    cases wanted with
    | false => exact h.text
    | true =>
      show (editTags edit? r.text).text = _
      rw [h.text, text_editTags_append edit? h.closes]
      rfl
  closes := by
    cases wanted with
    | false => exact h.closes
    | true => exact bracketsClose_editTags edit? h.closes
  changes k := by
    cases wanted with
    | false => exact h.changes k
    | true =>
      -- the first half of the pass stands behind the second half of the log so far
      have hapart : t.changes.filter (·.kind = k) = [] ∨
          (editTags edit? s.text).changes.filter (·.kind = k) = [] := by
        by_cases hk : kind = k
        · refine Or.inl (List.filter_eq_nil_iff.2 fun c hc => ?_)
          have hne : c.kind ≠ k := by
            rintro rfl
            exact hnew (hk ▸ h.kinds c hc)
          simpa using hne
        · refine Or.inr (List.filter_eq_nil_iff.2 fun c hc => ?_)
          rw [hkind _ c hc]
          simpa using hk
      show (r.changes ++ (editTags edit? r.text).changes).filter _ =
        (s.changes ++ (editTags edit? s.text).changes).filter _ ++
          (t.changes ++ (editTags edit? t.text).changes).filter _
      rw [h.text, changes_editTags_append edit? h.closes, List.filter_append, List.filter_append,
        List.filter_append, List.filter_append, h.changes k, append_exchange hapart]
  kinds :=
    Result.forall_changes_andThenIf (P := fun c => c.kind ∈ kind :: seen)
      (fun c hc => List.mem_cons_of_mem kind (h.kinds c hc)) wanted
      fun u c hc => by rw [hkind u c hc]; exact List.mem_cons_self

/-- **The fixes of two texts in a row**, when no container is made. -/
theorem apply_append {o : Options} (ho : o.addTablists = false) {a : Text} (h : BracketsClose a)
    (b : Text) :
    (apply o (a ++ b)).text = (apply o a).text ++ (apply o b).text ∧
      ∀ k, (apply o (a ++ b)).changes.filter (·.kind = k) =
        (apply o a).changes.filter (·.kind = k) ++ (apply o b).changes.filter (·.kind = k) := by
  have hstart : Result.Joins [] ⟨a ++ b, []⟩ ⟨a, []⟩ ⟨b, []⟩ := ⟨rfl, h, fun _ => rfl, by simp⟩
  have hroles := hstart.andThenIf o.removeRedundantRoles
    (fun _ _ => kind_of_mem_removeRedundantRoles) (by decide)
  have hchecked := hroles.andThenIf o.addChecked
    (fun _ _ => @kind_of_mem_addChecked o.checked _ _) (by decide)
  have hrange := hchecked.andThenIf o.addValueRange
    (fun _ _ => @kind_of_mem_addValueRange (rangeDefaults o) _ _) (by decide)
  unfold apply
  rw [ho]
  exact ⟨hrange.text, hrange.changes⟩

end Fix

/-! ## Findings -/

namespace Smell

/-- The passes over single tags are on, and no others. -/
def Options.JudgesTags (d : Options) : Prop :=
  ∀ c, d.isEnabled c = true ↔ c = .roleSemantics ∨ c = .attributes

/-- What the passes over single tags find, with all caps lifted. -/
theorem detect_of_judgesTags {d : Options} (hpasses : d.JudgesTags) (hcaps : ∀ k, d.cap k = none)
    (t : Text) :
    detect d t =
      .ok ((Tag.all t).flatMap Smell.roleSemantics ++ (Tag.all t).flatMap attributeUse) := by
  by_cases hblank : Text.trim t = []
  · rw [detect, if_pos hblank, Tag.all_of_not_mem (Tag.not_mem_of_blank hblank)]
    rfl
  · have hoff : ∀ c, c ≠ .roleSemantics → c ≠ .attributes → d.isEnabled c = false :=
      fun c hroles hattributes => Bool.eq_false_iff.2 fun hon =>
        ((hpasses c).1 hon).elim hroles hattributes
    have hon : Category.all.filter d.isEnabled = [.roleSemantics, .attributes] := by
      simp [Category.all, (hpasses .roleSemantics).2, (hpasses .attributes).2,
        hoff .interaction, hoff .accessibleName, hoff .containment]
    have hfindings : (Category.all.filter d.isEnabled).mapM (Category.findings t) =
        .ok [(Tag.all t).flatMap Smell.roleSemantics, (Tag.all t).flatMap attributeUse] := by
      rw [hon]
      rfl
    have hkeep : (fun k => (d.cap k).map Int.toNat) = fun _ => none := by
      funext k
      rw [hcaps k]
      rfl
    rw [detect_eq hblank hfindings, hkeep, keepFirst_none]
    simp

/-- **The findings of two texts in a row**, category by category. -/
theorem detect_append {d : Options} (hpasses : d.JudgesTags) (hcaps : ∀ k, d.cap k = none)
    {a : Text} (h : Tag.BracketsClose a) (b : Text) :
    ∃ ds da db, detect d (a ++ b) = .ok ds ∧ detect d a = .ok da ∧ detect d b = .ok db ∧
      ∀ c : Category, ds.filter (·.category = c) =
        da.filter (·.category = c) ++ db.filter (·.category = c) := by
  refine ⟨_, _, _, detect_of_judgesTags hpasses hcaps _, detect_of_judgesTags hpasses hcaps _,
    detect_of_judgesTags hpasses hcaps _, fun c => ?_⟩
  have hapart : ((Tag.all b).flatMap Smell.roleSemantics).filter (·.category = c) = [] ∨
      ((Tag.all a).flatMap attributeUse).filter (·.category = c) = [] := by
    by_cases hc : c = .attributes
    · refine Or.inl (List.filter_eq_nil_iff.2 fun e he => ?_)
      obtain ⟨t, -, he⟩ := List.mem_flatMap.1 he
      rw [category_of_mem_roleSemantics he, hc]
      decide
    · refine Or.inr (List.filter_eq_nil_iff.2 fun e he => ?_)
      obtain ⟨t, -, he⟩ := List.mem_flatMap.1 he
      rw [category_of_mem_attributeUse he]
      simpa using Ne.symm hc
  simp only [Tag.all_append h, List.flatMap_append, List.filter_append]
  exact append_exchange hapart

end Smell

/-! ## Both -/

/-- **Passes over single tags are local.**  When the first of two texts leaves no bracket open, then
without new containers the fixed text of both is their fixed texts in a row, and the entries of each
kind are theirs in a row; and with only the passes over single tags and no caps, so are the findings
of each category. -/
theorem tagPasses_append {a : Text} (h : Tag.BracketsClose a) (b : Text) :
    (∀ o : Fix.Options, o.addTablists = false →
        (Fix.apply o (a ++ b)).text = (Fix.apply o a).text ++ (Fix.apply o b).text ∧
        ∀ k, (Fix.apply o (a ++ b)).changes.filter (·.kind = k) =
          (Fix.apply o a).changes.filter (·.kind = k) ++
            (Fix.apply o b).changes.filter (·.kind = k)) ∧
      ∀ d : Smell.Options, d.JudgesTags → (∀ k, d.cap k = none) →
        ∃ ds da db, Smell.detect d (a ++ b) = .ok ds ∧ Smell.detect d a = .ok da ∧
          Smell.detect d b = .ok db ∧
          ∀ c : Smell.Category, ds.filter (·.category = c) =
            da.filter (·.category = c) ++ db.filter (·.category = c) :=
  ⟨fun _ ho => Fix.apply_append ho h b, fun _ hpasses hcaps => Smell.detect_append hpasses hcaps h b⟩

/-- A role that goes and a state that comes, in a text whose second half is no tag to its end. -/
theorem tagPasses_append_twoTags :
    let a : Text := "<li role='listitem'>"
    let b : Text := "</li><p role='switch'><b"
    let o : Fix.Options := { Fix.Options.default with addTablists := false }
    let d : Smell.Options :=
      ⟨fun c => c == .roleSemantics || c == .attributes, Smell.Kind.all.map fun k => (k, none)⟩
    (Fix.apply o (a ++ b)).text = "<li></li><p role='switch' aria-checked=\"false\"><b" ∧
      ∃ ds da db, Smell.detect d (a ++ b) = .ok ds ∧ Smell.detect d a = .ok da ∧
        Smell.detect d b = .ok db ∧
        ds.filter (·.category = .attributes) =
          da.filter (·.category = .attributes) ++ db.filter (·.category = .attributes) := by
  intro a b o d
  obtain ⟨hfix, hdetect⟩ := tagPasses_append (show Tag.BracketsClose a by decide) b
  have hpasses : d.JudgesTags := by
    intro c
    cases c <;> simp [d]
  have hcaps : ∀ k, d.cap k = none := by
    intro k
    cases k <;> rfl
  obtain ⟨ds, da, db, hds, hda, hdb, hcategories⟩ := hdetect d hpasses hcaps
  refine ⟨?_, ds, da, db, hds, hda, hdb, hcategories .attributes⟩
  rw [(hfix o rfl).1]
  decide +kernel

end AriaLint
