import AriaLint.Proofs.Quotes.Tags
import AriaLint.Proofs.Smell.Selection

/-!
# Findings do not depend on the kind of quotes

Every rule about single tags asks for the tag's name, for attributes of given names, and for their
values, so it finds the same in a tag whose quotes have been exchanged (`roleSemantics_singleQuoted`,
`mouseOnly_singleQuoted`, `attributeUse_singleQuoted`).  One rule looks behind an equals sign for
itself, where a quote may stand or not: it skips a quote of either kind (`startsWithInteger`).  The
rules about a snippet as a whole ask the same of all its tags, or for its roles.

The pass on accessible names is left out.  It reads the text content of markup, and quotes that stand
in a text belong to what is read.
-/

namespace AriaLint.Smell

open Attribute (isQuote IsQuoteless)

/-! ## Rules about tags -/

/-- A quote before the integer is skipped, of whichever kind it is. -/
theorem startsWithInteger_singleQuoted (t : Text) :
    startsWithInteger t.singleQuoted = startsWithInteger t := by
  have hquote : (Text.singleQuoted t).head?.any isQuote = t.head?.any isQuote := by
    cases t with
    | nil => rfl
    | cons c t => exact isQuote_singleQuote c
  have hminus : ∀ u : Text, (Text.singleQuoted u).head? = some '-' ↔ u.head? = some '-' := by
    intro u
    cases u with
    | nil => exact Iff.rfl
    | cons c u =>
      rw [Text.singleQuoted_cons, List.head?_cons, List.head?_cons, Option.some.injEq,
        Option.some.injEq]
      exact singleQuote_eq_iff (by decide)
  have hdigit : ∀ u : Text, (Text.singleQuoted u).head?.any isDigit = u.head?.any isDigit := by
    intro u
    cases u with
    | nil => rfl
    | cons c u => exact isDigit_singleQuote c
  have htail : ∀ u : Text, (Text.singleQuoted u).tail = Text.singleQuoted u.tail :=
    fun u => List.map_tail.symm
  have hbehind : ∀ u : Text,
      (if (Text.singleQuoted u).head? = some '-' then (Text.singleQuoted u).tail
        else Text.singleQuoted u) =
      Text.singleQuoted (if u.head? = some '-' then u.tail else u) := by
    intro u
    rw [htail]
    by_cases hu : u.head? = some '-'
    · rw [if_pos hu, if_pos ((hminus u).2 hu)]
    · rw [if_neg hu, if_neg fun h => hu ((hminus u).1 h)]
  unfold startsWithInteger
  rw [hquote, htail]
  cases t.head?.any isQuote <;> simp only [Bool.false_eq_true, if_false, if_true, hbehind, hdigit]

theorem isFocusable_singleQuoted (t : Tag) : isFocusable t.singleQuoted = isFocusable t := by
  rw [isFocusable, isFocusable, Tag.name_singleQuoted, Tag.attrs_singleQuoted,
    Attribute.isAssigned_singleQuoted (by decide) startsWithInteger_singleQuoted,
    Attribute.hasFilled_singleQuoted (by decide)]

theorem roleSemantics_singleQuoted (t : Tag) :
    roleSemantics t.singleQuoted = roleSemantics t := by
  have hnative : ∀ role, nativeRole t.singleQuoted role = nativeRole t role := fun role => by
    rw [nativeRole, nativeRole, Tag.name_singleQuoted, Tag.attrs_singleQuoted,
      Role.implicit?_singleQuoted]
  have hhidden : ∀ role, hiddenFocusable t.singleQuoted role = hiddenFocusable t role :=
    fun role => by
      rw [hiddenFocusable, hiddenFocusable, Tag.name_singleQuoted, isFocusable_singleQuoted]
  simp only [roleSemantics, Tag.role?_singleQuoted, hnative, hhidden]

theorem hasKeyboardSupport_singleQuoted (t : Tag) :
    hasKeyboardSupport t.singleQuoted = hasKeyboardSupport t := by
  rw [hasKeyboardSupport, hasKeyboardSupport, Tag.name_singleQuoted, Tag.role?_singleQuoted,
    Tag.attrs_singleQuoted, Attribute.value?_singleQuoted (by decide),
    Attribute.isAssigned_singleQuoted (by decide) fun _ => rfl]

theorem mouseOnly_singleQuoted (t : Tag) : mouseOnly t.singleQuoted = mouseOnly t := by
  rw [mouseOnly, mouseOnly, Tag.attrs_singleQuoted, Attribute.firstOf?_singleQuoted (by decide),
    hasKeyboardSupport_singleQuoted, Tag.name_singleQuoted]

theorem tellsBoolean_singleQuoted {name : Text} (h : IsQuoteless (Text.lower name)) (t : Tag) :
    tellsBoolean name t.singleQuoted = tellsBoolean name t := by
  rw [tellsBoolean, tellsBoolean, Tag.attrs_singleQuoted, Attribute.value?_singleQuoted h]

theorem uncontrolledDisclosure_singleQuoted (t : Tag) :
    uncontrolledDisclosure t.singleQuoted = uncontrolledDisclosure t := by
  rw [uncontrolledDisclosure, uncontrolledDisclosure, tellsBoolean_singleQuoted (by decide),
    Tag.attrs_singleQuoted, Attribute.hasFilled_singleQuoted (by decide), Tag.name_singleQuoted]

theorem attributeUse_singleQuoted (t : Tag) : attributeUse t.singleQuoted = attributeUse t := by
  unfold attributeUse
  rw [Tag.role?_singleQuoted, Tag.attrs_singleQuoted, Attribute.ariaAttributes_singleQuoted]
  rfl

/-! ## Passes -/

/-- What all tags of a snippet say together. -/
theorem interactionFindings_singleQuoted (ts : List Tag) :
    interactionFindings (ts.map Tag.singleQuoted) = interactionFindings ts := by
  have hany : ∀ {p : Tag → Bool}, (∀ t : Tag, p t.singleQuoted = p t) →
      (ts.map Tag.singleQuoted).any p = ts.any p := by
    intro p hp
    rw [List.any_map]
    exact congrArg (ts.any ·) (funext hp)
  have hexpanded : expandedTab (ts.map Tag.singleQuoted) = expandedTab ts := by
    rw [expandedTab, expandedTab, hany fun t => by
      rw [Tag.role?_singleQuoted, tellsBoolean_singleQuoted (by decide)]]
  have hdialog : dialogModality (ts.map Tag.singleQuoted) = dialogModality ts := by
    rw [dialogModality, dialogModality, hany fun t => by rw [Tag.role?_singleQuoted],
      hany (tellsBoolean_singleQuoted (by decide))]
  have hswitch : switchState (ts.map Tag.singleQuoted) = switchState ts := by
    rw [switchState, switchState, hany fun t => by rw [Tag.role?_singleQuoted],
      hany (tellsBoolean_singleQuoted (by decide))]
  simp only [interactionFindings, List.flatMap_map, mouseOnly_singleQuoted,
    uncontrolledDisclosure_singleQuoted, hexpanded, hdialog, hswitch]

/-- **A pass that does not read text content finds the same.** -/
theorem Category.findings_singleQuoted {c : Category} (h : c ≠ .accessibleName) (s : Text) :
    c.findings s.singleQuoted = c.findings s := by
  cases c with
  | accessibleName => exact absurd rfl h
  | roleSemantics =>
    simp only [Category.findings, Tag.all_singleQuoted, List.flatMap_map, roleSemantics_singleQuoted]
  | interaction =>
    simp only [Category.findings, Tag.all_singleQuoted, interactionFindings_singleQuoted]
  | attributes =>
    simp only [Category.findings, Tag.all_singleQuoted, List.flatMap_map, attributeUse_singleQuoted]
  | containment => simp only [Category.findings, Tag.roles_singleQuoted]

theorem runAll_singleQuoted {passes : List Category} (h : .accessibleName ∉ passes) (s : Text)
    (f : Findings) : runAll passes s.singleQuoted f = runAll passes s f := by
  have hfindings : passes.mapM (Category.findings s.singleQuoted) =
      passes.mapM (Category.findings s) := by
    induction passes with
    | nil => rfl
    | cons c passes ih =>
      have hc : c ≠ .accessibleName := fun heq => h (heq ▸ List.mem_cons_self)
      rw [List.mapM_cons, List.mapM_cons, Category.findings_singleQuoted hc,
        ih fun hmem => h (List.mem_cons_of_mem c hmem)]
  rw [runAll_eq, runAll_eq, hfindings]

/-- **Without the pass on accessible names, the kind of quotes makes no difference to what is
found.** -/
theorem detect_singleQuoted {o : Options} (h : o.isEnabled .accessibleName = false) (s : Text) :
    detect o s.singleQuoted = detect o s := by
  have hpasses : .accessibleName ∉ Category.all.filter o.isEnabled := by
    rw [List.mem_filter, h]
    simp
  simp only [detect, Text.trim_singleQuoted, Text.singleQuoted_eq_nil_iff,
    runAll_singleQuoted hpasses]

end AriaLint.Smell
