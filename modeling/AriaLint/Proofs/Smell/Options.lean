import AriaLint.Proofs.Smell.Selection

/-!
# The options of the detector are filters

With all passes on and all caps lifted the detector reports everything that can be found.
`detect_eq_keepFirst` gets the report under any other options from that one: leave out the findings
of the passes that are off, and of each kind with a cap keep the first ones.  Neither the order nor
a field of a finding depends on the options.

Two facts about passes carry the proof.  A pass adds what it finds, whatever was gathered before it
(`Category.run_eq`), and what it finds belongs to its own category (`category_of_mem_findings`), so
leaving out a pass is the same as leaving out a category.
-/

namespace AriaLint.Smell

/-- All passes, with every cap lifted. -/
def Options.uncapped : Options := ⟨fun _ => true, Kind.all.map fun k => (k, none)⟩

theorem Options.cap_uncapped : Options.uncapped.cap = fun _ => none := by
  funext k
  cases k <;> rfl

/-! ## Every finding belongs to the pass that made it -/

/-- A sequence succeeds when its first step does and the rest does on the result. -/
theorem eq_ok_of_bind_eq_ok {ε α β : Type} {x : Except ε α} {f : α → Except ε β} {b : β}
    (h : x >>= f = .ok b) : ∃ a, x = .ok a ∧ f a = .ok b := by
  cases x with
  | error e => exact absurd h (by simp [bind, Except.bind])
  | ok a => exact ⟨a, rfl, h⟩

/-- A walk succeeds when its first step does and the walk over the rest does. -/
theorem eq_cons_of_mapM_cons {α β ε : Type} {rule : α → Except ε β} {a : α} {as : List α}
    {bs : List β} (h : (a :: as).mapM rule = .ok bs) :
    ∃ b cs, rule a = .ok b ∧ as.mapM rule = .ok cs ∧ bs = b :: cs := by
  rw [List.mapM_cons] at h
  obtain ⟨b, hb, h⟩ := eq_ok_of_bind_eq_ok h
  obtain ⟨cs, hcs, h⟩ := eq_ok_of_bind_eq_ok h
  exact ⟨b, cs, hb, hcs, (Except.ok.inj h).symm⟩

/-- What a walk finds is found at one of its steps. -/
theorem exists_of_mem_flatten_mapM {α ε : Type} {rule : α → Except ε (List Diagnostic)}
    {as : List α} {dss : List (List Diagnostic)} {d : Diagnostic} (h : as.mapM rule = .ok dss)
    (hd : d ∈ dss.flatten) : ∃ a ∈ as, ∃ ds, rule a = .ok ds ∧ d ∈ ds := by
  induction as generalizing dss with
  | nil =>
    rw [List.mapM_nil] at h
    obtain rfl := Except.ok.inj h
    simp at hd
  | cons a as ih =>
    obtain ⟨ds, ess, hds, hess, rfl⟩ := eq_cons_of_mapM_cons h
    rw [List.flatten_cons, List.mem_append] at hd
    rcases hd with hd | hd
    · exact ⟨a, List.mem_cons_self, ds, hds, hd⟩
    · obtain ⟨b, hb, es, hes, hmem⟩ := ih hess hd
      exact ⟨b, List.mem_cons_of_mem a hb, es, hes, hmem⟩

theorem category_of_mem_roleSemantics {t : Tag} {d : Diagnostic}
    (h : d ∈ Smell.roleSemantics t) : d.category = .roleSemantics := by
  unfold Smell.roleSemantics at h
  split at h
  · simp at h
  · rcases List.mem_append.1 h with h | h
    · unfold nativeRole at h
      split at h
      · simp at h
      · split at h <;> rw [List.mem_singleton.1 h] <;> rfl
    · unfold hiddenFocusable at h
      split at h
      · rw [List.mem_singleton.1 h]; rfl
      · simp at h

theorem category_of_mem_interactionFindings {ts : List Tag} {d : Diagnostic}
    (h : d ∈ interactionFindings ts) : d.category = .interaction := by
  rw [interactionFindings] at h
  simp only [List.mem_append] at h
  rcases h with (((h | h) | h) | h) | h
  · obtain ⟨t, -, h⟩ := List.mem_flatMap.1 h
    rw [Diagnostic.category, kind_of_mem_mouseOnly h]
    rfl
  · obtain ⟨t, -, h⟩ := List.mem_flatMap.1 h
    rw [Diagnostic.category, kind_of_mem_uncontrolledDisclosure h]
    rfl
  · unfold expandedTab at h
    split at h
    · rw [List.mem_singleton.1 h]; rfl
    · simp at h
  · unfold dialogModality at h
    split at h
    · rw [List.mem_singleton.1 h]; rfl
    · simp at h
  · unfold switchState at h
    split at h
    · rw [List.mem_singleton.1 h]; rfl
    · simp at h

theorem category_of_mem_labelSources {t : Tag} {d : Diagnostic} (h : d ∈ labelSources t) :
    d.category = .accessibleName := by
  unfold labelSources at h
  rcases List.mem_append.1 h with h | h
  · split at h
    · rw [List.mem_singleton.1 h]; rfl
    · simp at h
  · split at h
    · rw [List.mem_singleton.1 h]; rfl
    · simp at h

/-- A rule that looks at the text inside an element finds its one finding or nothing. -/
theorem mem_map_inner {x : Except Markup.MarkupError (Option Text)} {p : Option Text → Prop}
    [DecidablePred p] {d e : Diagnostic} {ds : List Diagnostic}
    (h : (x.map fun inner => if p inner then [e] else []) = .ok ds) (hd : d ∈ ds) : d = e := by
  obtain ⟨inner, -, rfl⟩ := Markup.eq_ok_of_map_eq_ok h
  split at hd
  · exact List.mem_singleton.1 hd
  · simp at hd

theorem category_of_mem_namelessButton {snippet : Text} {o : Occurrence} {ds : List Diagnostic}
    {d : Diagnostic} (h : namelessButton snippet o = .ok ds) (hd : d ∈ ds) :
    d.category = .accessibleName := by
  unfold namelessButton at h
  split at h
  · obtain rfl := Except.ok.inj h
    simp at hd
  · rw [mem_map_inner h hd]
    rfl

theorem category_of_mem_namelessControl {snippet : Text} {o : Occurrence}
    {ds : List Diagnostic} {d : Diagnostic} (h : namelessControl snippet o = .ok ds)
    (hd : d ∈ ds) : d.category = .accessibleName := by
  unfold namelessControl at h
  split at h
  · obtain rfl := Except.ok.inj h
    simp at hd
  · split at h
    · obtain rfl := Except.ok.inj h
      simp at hd
    · rw [mem_map_inner h hd]
      rfl

theorem category_of_mem_nameFindings {snippet : Text} {ds : List Diagnostic} {d : Diagnostic}
    (h : nameFindings snippet = .ok ds) (hd : d ∈ ds) : d.category = .accessibleName := by
  obtain ⟨buttons, hbuttons, h⟩ := eq_ok_of_bind_eq_ok h
  obtain ⟨controls, hcontrols, h⟩ := eq_ok_of_bind_eq_ok h
  obtain rfl := Except.ok.inj h
  simp only [List.mem_append] at hd
  rcases hd with ((hd | hd) | hd) | hd
  · obtain ⟨t, -, hd⟩ := List.mem_flatMap.1 hd
    exact category_of_mem_labelSources hd
  · obtain ⟨o, -, es, hes, hd⟩ := exists_of_mem_flatten_mapM hbuttons hd
    exact category_of_mem_namelessButton hes hd
  · obtain ⟨o, -, es, hes, hd⟩ := exists_of_mem_flatten_mapM hcontrols hd
    exact category_of_mem_namelessControl hes hd
  · obtain ⟨a, -, rfl⟩ := List.mem_map.1 hd
    rfl

theorem category_of_mem_attributeUse {t : Tag} {d : Diagnostic} (h : d ∈ attributeUse t) :
    d.category = .attributes := by
  unfold attributeUse at h
  split at h
  · simp at h
  · simp only [List.mem_append, List.mem_map] at h
    rcases h with (⟨n, -, rfl⟩ | ⟨n, -, rfl⟩) | ⟨a, -, rfl⟩ <;> rfl

theorem category_of_mem_containment {roles : List Text} {d : Diagnostic}
    (h : d ∈ Smell.containment roles) : d.category = .containment := by
  obtain ⟨rule, hrule, hd⟩ := List.mem_filterMap.1 h
  unfold ContainmentRule.finding? at hd
  split at hd
  · simp at hd
  · split at hd
    · simp at hd
    · obtain rfl := Option.some.inj hd
      have all : ∀ r ∈ containmentRules, r.kind.category = .containment := by decide
      exact all rule hrule

/-- **A pass finds smells of its own category only.** -/
theorem category_of_mem_findings {snippet : Text} {c : Category} {ds : List Diagnostic}
    {d : Diagnostic} (h : c.findings snippet = .ok ds) (hd : d ∈ ds) : d.category = c := by
  cases c with
  | roleSemantics =>
    obtain rfl := Except.ok.inj h
    obtain ⟨t, -, hd⟩ := List.mem_flatMap.1 hd
    exact category_of_mem_roleSemantics hd
  | interaction =>
    obtain rfl := Except.ok.inj h
    exact category_of_mem_interactionFindings hd
  | accessibleName => exact category_of_mem_nameFindings h hd
  | attributes =>
    obtain rfl := Except.ok.inj h
    obtain ⟨t, -, hd⟩ := List.mem_flatMap.1 hd
    exact category_of_mem_attributeUse hd
  | containment =>
    obtain rfl := Except.ok.inj h
    exact category_of_mem_containment hd

/-! ## Leaving out passes -/

/-- Leaving out passes leaves out the findings of their categories. -/
theorem findings_filter {snippet : Text} (p : Category → Bool) {cs : List Category}
    {dss : List (List Diagnostic)} (h : cs.mapM (Category.findings snippet) = .ok dss) :
    ∃ ess, (cs.filter p).mapM (Category.findings snippet) = .ok ess ∧
      ess.flatten = dss.flatten.filter fun d => p d.category := by
  induction cs generalizing dss with
  | nil =>
    obtain rfl := Except.ok.inj h
    exact ⟨[], rfl, rfl⟩
  | cons c cs ih =>
    obtain ⟨ds, dss, hds, hdss, rfl⟩ := eq_cons_of_mapM_cons h
    obtain ⟨ess, hess, hflat⟩ := ih hdss
    have own : ∀ d ∈ ds, p d.category = p c := fun d hd => by
      rw [category_of_mem_findings hds hd]
    by_cases hp : p c = true
    · refine ⟨ds :: ess, ?_, ?_⟩
      · rw [List.filter_cons_of_pos hp, List.mapM_cons, hds, hess]
        rfl
      · have hkept : ds.filter (fun d => p d.category) = ds :=
          List.filter_eq_self.2 fun d hd => by rw [own d hd, hp]
        rw [List.flatten_cons, List.flatten_cons, List.filter_append, hkept, hflat]
    · refine ⟨ess, ?_, ?_⟩
      · rw [List.filter_cons_of_neg hp, hess]
      · have hdropped : ds.filter (fun d => p d.category) = [] :=
          List.filter_eq_nil_iff.2 fun d hd => by rw [own d hd]; exact hp
        rw [List.flatten_cons, List.filter_append, hdropped, hflat, List.nil_append]

/-- The report is what the passes that are on find, each kind up to its cap. -/
theorem detect_eq {o : Options} {snippet : Text} {dss : List (List Diagnostic)}
    (hblank : Text.trim snippet ≠ [])
    (h : (Category.all.filter o.isEnabled).mapM (Category.findings snippet) = .ok dss) :
    detect o snippet = .ok (keepFirst (fun k => (o.cap k).map Int.toNat) dss.flatten) := by
  rw [detect, if_neg hblank, runAll_eq, h]
  show Except.ok _ = Except.ok _
  rw [Findings.inOrder_addAll, Findings.room_start]
  rfl

/-- A report comes from the findings of the passes that are on. -/
theorem exists_findings_of_detect {o : Options} {snippet : Text} {ds : List Diagnostic}
    (hblank : Text.trim snippet ≠ []) (h : detect o snippet = .ok ds) :
    ∃ dss, (Category.all.filter o.isEnabled).mapM (Category.findings snippet) = .ok dss ∧
      ds = keepFirst (fun k => (o.cap k).map Int.toNat) dss.flatten := by
  have hrun := h
  rw [detect, if_neg hblank, runAll_eq] at hrun
  obtain ⟨f, hf, -⟩ := Markup.eq_ok_of_map_eq_ok hrun
  obtain ⟨dss, hdss, -⟩ := Markup.eq_ok_of_map_eq_ok hf
  exact ⟨dss, hdss, Except.ok.inj (h.symm.trans (detect_eq hblank hdss))⟩

/-- **The options of the detector are filters.**  When the passes find `R`, nobody counting, then
under any options the report is `R` without the findings of the passes that are off, and of each
kind whose cap is a number no more than that many of the first. -/
theorem detect_eq_keepFirst {snippet : Text} {R : List Diagnostic}
    (h : detect .uncapped snippet = .ok R) (o : Options) :
    detect o snippet =
      .ok (keepFirst (fun k => (o.cap k).map Int.toNat)
        (R.filter fun d => o.isEnabled d.category)) := by
  by_cases hblank : Text.trim snippet = []
  · rw [detect, if_pos hblank] at h ⊢
    obtain rfl := Except.ok.inj h
    rfl
  · rw [detect, if_neg hblank, runAll_eq] at h
    obtain ⟨f, hf, rfl⟩ := Markup.eq_ok_of_map_eq_ok h
    obtain ⟨dss, hall, rfl⟩ := Markup.eq_ok_of_map_eq_ok hf
    have hR : ((Findings.start Options.uncapped.cap).addAll dss.flatten).inOrder =
        dss.flatten := by
      rw [Findings.inOrder_addAll, Findings.room_start, Options.cap_uncapped]
      exact keepFirst_none _
    obtain ⟨ess, hess, hflat⟩ := findings_filter o.isEnabled hall
    rw [hR, detect_eq hblank hess, hflat]

/-- Two tabs that handle clicks around a button without a name.  Of eight findings four are left
when one pass is off and one cap is zero: the second mouse handler goes by its default cap. -/
theorem detect_twoTabs :
    ∃ R, detect .uncapped
        "<i role='tab' onclick='a'></i><button></button><i role='tab' onclick='b'>" = .ok R ∧
      R.length = 8 ∧
      ∃ ds, detect ⟨fun c => c != .attributes, [(.tabWithoutTablist, some 0)]⟩
          "<i role='tab' onclick='a'></i><button></button><i role='tab' onclick='b'>" = .ok ds ∧
        ds = keepFirst
          (fun k => (Options.cap ⟨fun c => c != .attributes, [(.tabWithoutTablist, some 0)]⟩
            k).map Int.toNat)
          (R.filter fun d => d.category != .attributes) ∧
        ds.map (·.kind) = [.mouseOnlyHandler, .buttonWithoutName, .interactiveWithoutName,
          .interactiveWithoutName] := by
  have hR : (detect .uncapped
      "<i role='tab' onclick='a'></i><button></button><i role='tab' onclick='b'>").toOption.map
        List.length = some 8 := by decide +kernel
  have hkinds : (detect ⟨fun c => c != .attributes, [(.tabWithoutTablist, some 0)]⟩
      "<i role='tab' onclick='a'></i><button></button><i role='tab' onclick='b'>").toOption.map
        (List.map (·.kind)) = some [.mouseOnlyHandler, .buttonWithoutName,
          .interactiveWithoutName, .interactiveWithoutName] := by decide +kernel
  cases h : detect .uncapped
      "<i role='tab' onclick='a'></i><button></button><i role='tab' onclick='b'>" with
  | error e =>
    rw [h] at hR
    exact absurd hR (by simp [Except.toOption])
  | ok R =>
    have hlimited := detect_eq_keepFirst h
      ⟨fun c => c != .attributes, [(.tabWithoutTablist, some 0)]⟩
    rw [h] at hR
    rw [hlimited] at hkinds
    exact ⟨R, rfl, Option.some.inj hR, _, hlimited, rfl, Option.some.inj hkinds⟩

end AriaLint.Smell
