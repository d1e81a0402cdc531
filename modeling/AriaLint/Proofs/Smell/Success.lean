import AriaLint.Proofs.Markup.Refusals
import AriaLint.Proofs.Smell.Options
import AriaLint.Proofs.Tag.Pieces
import AriaLint.Report.Analysis

/-!
# When detection has a result

Only the pass on accessible names reads markup for its text, and it does so for certain stretches of
the snippet alone: between a tag whose element is named by its content and the first closing tag of
that name.  `namingTexts` collects them.  Detection has a result if and only if that pass is off, or
each of these stretches has a visible text; an analysis has one under the same condition
(`detect_and_analyze_iff`).

The stretches that have none are described by `Proofs.Markup.Refusals`.  They can be reached: the
content of a button need only hold a marked section with an unknown keyword.
-/

namespace AriaLint

open Markup (MarkupError visibleText)

/-! ## The stretches that are read -/

/-- What stands between a tag and the first closing tag of its name. -/
def Occurrence.inner? (o : Occurrence) (t : Text) : Option Text :=
  if o.tag.isSelfClosing then none else (Closing.first? o.tag.name (o.after t)).map Found.before

theorem Occurrence.innerText_of_none {o : Occurrence} {t : Text} (h : o.inner? t = none) :
    o.innerText t = .ok none := by
  unfold innerText
  unfold inner? at h
  by_cases hself : o.tag.isSelfClosing = true
  · rw [if_pos hself]
  · rw [if_neg hself] at h ⊢
    rw [Option.map_eq_none_iff] at h
    rw [h]

theorem Occurrence.innerText_of_some {o : Occurrence} {t inner : Text}
    (h : o.inner? t = some inner) : o.innerText t = (visibleText inner).map some := by
  unfold innerText
  unfold inner? at h
  by_cases hself : o.tag.isSelfClosing = true
  · rw [if_pos hself] at h
    exact absurd h (by simp)
  · rw [if_neg hself] at h ⊢
    obtain ⟨f, hf, rfl⟩ := Option.map_eq_some_iff.1 h
    rw [hf]

namespace Smell

/-- The element is named by what it contains: it has no attribute that names it, and it is a button,
or no control by itself and has the role of one. -/
def isNamedByContent (t : Tag) : Bool :=
  !hasNameAttribute t && (t.name == "button" || t.role?.any fun role =>
    rolesNeedingName.contains role && !nativeInteractiveElements.contains t.name)

/-- The stretches of a snippet whose visible text is asked for. -/
def namingTexts (snippet : Text) : List Text :=
  ((Occurrence.all snippet).filter fun o => isNamedByContent o.tag).filterMap
    (Occurrence.inner? · snippet)

example : namingTexts "<button>a</button><b role='tab'><a role='tab'>c</a></b><button/>d" =
    ["a", "<a role='tab'>c</a>"] := by decide +kernel

/-! ## Rules and passes -/

theorem exists_ok_map_iff {ε α β : Type} {x : Except ε α} {f : α → β} :
    (∃ b, x.map f = .ok b) ↔ ∃ a, x = .ok a := by
  cases x with
  | error e => simp [Except.map]
  | ok a => simp [Except.map]

/-- A walk succeeds when each step does. -/
theorem exists_ok_mapM_iff {ε α β : Type} {rule : α → Except ε β} {as : List α} :
    (∃ bs, as.mapM rule = .ok bs) ↔ ∀ a ∈ as, ∃ b, rule a = .ok b := by
  induction as with
  | nil => exact ⟨fun _ _ ha => absurd ha List.not_mem_nil, fun _ => ⟨[], rfl⟩⟩
  | cons a as ih =>
    rw [List.forall_mem_cons, ← ih]
    constructor
    · rintro ⟨bs, h⟩
      obtain ⟨b, cs, hb, hcs, -⟩ := eq_cons_of_mapM_cons h
      exact ⟨⟨b, hb⟩, cs, hcs⟩
    · rintro ⟨⟨b, hb⟩, cs, hcs⟩
      refine ⟨b :: cs, ?_⟩
      rw [List.mapM_cons, hb, hcs]
      rfl

/-- The text inside an element can be told. -/
theorem exists_ok_innerText_iff {o : Occurrence} {snippet : Text} :
    (∃ inner, o.innerText snippet = .ok inner) ↔
      ∀ inner ∈ o.inner? snippet, ∃ text, visibleText inner = .ok text := by
  cases h : o.inner? snippet with
  | none =>
    rw [Occurrence.innerText_of_none h]
    exact ⟨fun _ _ hmem => absurd hmem (by simp), fun _ => ⟨none, rfl⟩⟩
  | some inner =>
    rw [Occurrence.innerText_of_some h, exists_ok_map_iff]
    simp only [Option.mem_some_iff, forall_eq']

theorem exists_ok_namelessButton_iff {o : Occurrence} {snippet : Text} :
    (∃ ds, namelessButton snippet o = .ok ds) ↔
      (o.tag.name = "button" ∧ hasNameAttribute o.tag = false →
        ∃ inner, o.innerText snippet = .ok inner) := by
  unfold namelessButton
  by_cases h : o.tag.name ≠ "button" ∨ hasNameAttribute o.tag = true
  · rw [if_pos h]
    refine ⟨fun _ hbutton => ?_, fun _ => ⟨[], rfl⟩⟩
    rcases h with hname | hattribute
    · exact absurd hbutton.1 hname
    · exact absurd hbutton.2 (by simp [hattribute])
  · rw [if_neg h, exists_ok_map_iff]
    rw [not_or, ne_eq, not_not, Bool.not_eq_true] at h
    exact ⟨fun hinner _ => hinner, fun hinner => hinner h⟩

theorem exists_ok_namelessControl_iff {o : Occurrence} {snippet : Text} :
    (∃ ds, namelessControl snippet o = .ok ds) ↔
      ((o.tag.role?.any fun role =>
          rolesNeedingName.contains role && !nativeInteractiveElements.contains o.tag.name) = true ∧
        hasNameAttribute o.tag = false → ∃ inner, o.innerText snippet = .ok inner) := by
  unfold namelessControl
  cases hrole : o.tag.role? with
  | none => exact ⟨fun _ h => absurd h.1 (by simp), fun _ => ⟨[], rfl⟩⟩
  | some role =>
    dsimp only
    rw [Option.any_some]
    split
    · next h =>
      refine ⟨fun _ hnamed => ?_, fun _ => ⟨[], rfl⟩⟩
      obtain ⟨hneeds, hattribute⟩ := hnamed
      rw [Bool.and_eq_true, Bool.not_eq_true'] at hneeds
      rw [hneeds.1, hneeds.2, hattribute] at h
      exact absurd h (by decide)
    · next h =>
      simp only [Bool.or_eq_true, not_or, Bool.not_eq_true, Bool.not_eq_false'] at h
      rw [exists_ok_map_iff, h.1.1, h.1.2, h.2]
      exact ⟨fun hinner _ => hinner, fun hinner => hinner ⟨rfl, rfl⟩⟩

/-- The pass on accessible names succeeds when all that it reads has a visible text. -/
theorem exists_ok_nameFindings_iff {snippet : Text} :
    (∃ ds, nameFindings snippet = .ok ds) ↔
      ∀ inner ∈ namingTexts snippet, ∃ text, visibleText inner = .ok text := by
  have hsteps : (∃ ds, nameFindings snippet = .ok ds) ↔
      ∀ o ∈ Occurrence.all snippet,
        (∃ ds, namelessButton snippet o = .ok ds) ∧ ∃ ds, namelessControl snippet o = .ok ds := by
    rw [forall₂_and, ← exists_ok_mapM_iff, ← exists_ok_mapM_iff]
    constructor
    · rintro ⟨ds, h⟩
      obtain ⟨buttons, hbuttons, h⟩ := eq_ok_of_bind_eq_ok h
      obtain ⟨controls, hcontrols, -⟩ := eq_ok_of_bind_eq_ok h
      exact ⟨⟨buttons, hbuttons⟩, controls, hcontrols⟩
    · rintro ⟨⟨buttons, hbuttons⟩, controls, hcontrols⟩
      unfold nameFindings
      dsimp only
      rw [hbuttons, hcontrols]
      exact ⟨_, rfl⟩
  rw [hsteps]
  constructor
  · intro h inner hmem
    obtain ⟨o, ho, hinner⟩ := List.mem_filterMap.1 hmem
    obtain ⟨hall, hnamed⟩ := List.mem_filter.1 ho
    obtain ⟨hbutton, hcontrol⟩ := h o hall
    rw [exists_ok_namelessButton_iff, exists_ok_innerText_iff] at hbutton
    rw [exists_ok_namelessControl_iff, exists_ok_innerText_iff] at hcontrol
    unfold isNamedByContent at hnamed
    rw [Bool.and_eq_true, Bool.not_eq_true', Bool.or_eq_true, beq_iff_eq] at hnamed
    obtain ⟨hattribute, hname | hrole⟩ := hnamed
    · exact hbutton ⟨hname, hattribute⟩ inner hinner
    · exact hcontrol ⟨hrole, hattribute⟩ inner hinner
  · intro h o hall
    have htext : isNamedByContent o.tag = true → ∃ inner, o.innerText snippet = .ok inner := by
      intro hnamed
      refine exists_ok_innerText_iff.2 fun inner hinner => h inner ?_
      exact List.mem_filterMap.2 ⟨o, List.mem_filter.2 ⟨hall, hnamed⟩, hinner⟩
    rw [exists_ok_namelessButton_iff, exists_ok_namelessControl_iff]
    refine ⟨fun hbutton => htext ?_, fun hcontrol => htext ?_⟩
    · unfold isNamedByContent
      rw [hbutton.1, hbutton.2]
      rfl
    · unfold isNamedByContent
      rw [hcontrol.1, hcontrol.2, Bool.or_true]
      rfl

/-! ## Detection -/

/-- All passes but one always succeed. -/
theorem exists_ok_findings_iff {snippet : Text} {c : Category} :
    (∃ ds, c.findings snippet = .ok ds) ↔
      (c = .accessibleName → ∃ ds, nameFindings snippet = .ok ds) := by
  cases c with
  | accessibleName => exact ⟨fun h _ => h, fun h => h rfl⟩
  | _ => exact ⟨fun _ h => absurd h (by decide), fun _ => ⟨_, rfl⟩⟩

/-- A blank snippet has no tag, so nothing in it is read. -/
theorem namingTexts_of_blank {snippet : Text} (h : Text.trim snippet = []) :
    namingTexts snippet = [] := by
  have hall : Occurrence.all snippet = [] := by
    have htags := Occurrence.map_tag_all snippet
    rw [Tag.all_of_not_mem (Tag.not_mem_of_blank h), List.map_eq_nil_iff] at htags
    exact htags
  unfold namingTexts
  rw [hall]
  rfl

/-- **Detection has a result** when the pass on accessible names is off, or all that it reads has a
visible text. -/
theorem exists_ok_detect_iff {o : Options} {snippet : Text} :
    (∃ ds, detect o snippet = .ok ds) ↔
      (o.isEnabled .accessibleName = true →
        ∀ inner ∈ namingTexts snippet, ∃ text, visibleText inner = .ok text) := by
  unfold detect
  by_cases hblank : Text.trim snippet = []
  · rw [if_pos hblank, namingTexts_of_blank hblank]
    exact ⟨fun _ _ _ hmem => absurd hmem List.not_mem_nil, fun _ => ⟨[], rfl⟩⟩
  · rw [if_neg hblank, exists_ok_map_iff, runAll_eq, exists_ok_map_iff, exists_ok_mapM_iff,
      ← exists_ok_nameFindings_iff]
    constructor
    · intro h henabled
      exact h .accessibleName (List.mem_filter.2 ⟨by decide, henabled⟩)
    · intro h c hc
      refine exists_ok_findings_iff.2 ?_
      rintro rfl
      exact h (List.mem_filter.1 hc).2

/-- **When detection and analysis have a result.**  Both do if and only if the pass on accessible
names is off or each stretch that it reads has a visible text.  A stretch without one holds a marked
section with an unknown keyword, or a reference whose number is too long; and an unknown section
behind plain text leaves it without one. -/
theorem detect_and_analyze_iff (o : Options) (snippet source : Text) (fixes : Fix.Options) :
    ((∃ ds, detect o snippet = .ok ds) ↔
      (o.isEnabled .accessibleName = true →
        ∀ inner ∈ namingTexts snippet, ∃ text, visibleText inner = .ok text)) ∧
    ((∃ r, Report.analyze snippet source o fixes = .ok r) ↔
      (o.isEnabled .accessibleName = true →
        ∀ inner ∈ namingTexts snippet, ∃ text, visibleText inner = .ok text)) ∧
    (∀ inner, (∃ text, visibleText inner = .ok text) ∨
      ∃ e : MarkupError, visibleText inner = .error e ∧ e.HasCause inner) ∧
    ∀ before t, (∀ c ∈ before, Markup.isPlain c = true) → Markup.IsUnknownSection t →
      visibleText (before ++ '<' :: '!' :: '[' :: t) = .error .unknownSection := by
  refine ⟨exists_ok_detect_iff, ?_, fun inner => ?_, fun before t hplain ht =>
    Markup.visibleText_plain_section hplain ht⟩
  · unfold Report.analyze
    rw [exists_ok_map_iff, exists_ok_detect_iff]
  · cases h : visibleText inner with
    | ok text => exact Or.inl ⟨text, rfl⟩
    | error e => exact Or.inr ⟨e, rfl, Markup.hasCause_of_visibleText h⟩

/-- A button whose content opens a marked section with an unknown keyword: neither detection nor
analysis has a result. -/
theorem detect_unknownSection :
    (¬ ∃ ds, detect .default "<button>x<![foo]></button>" = .ok ds) ∧
      ¬ ∃ r, Report.analyze "<button>x<![foo]></button>" "inline" .default .default = .ok r := by
  have hdetect : (detect .default "<button>x<![foo]></button>").toOption = none := by
    decide +kernel
  have hno : ¬ ∃ ds, detect .default "<button>x<![foo]></button>" = .ok ds := by
    rintro ⟨ds, h⟩
    rw [h] at hdetect
    exact absurd hdetect (by simp [Except.toOption])
  exact ⟨hno, fun hreport => hno (exists_ok_map_iff.1 hreport)⟩

end Smell
end AriaLint
