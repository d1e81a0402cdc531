import AriaLint.Proofs.Attribute.Forms
import AriaLint.Proofs.Message.Fragment
import AriaLint.Proofs.Smell.Options
import AriaLint.Proofs.Tag.Lowered
import AriaLint.Proofs.Text.Seam

/-!
# What the messages of findings say

Every finding is told by a message whose parts are solid, and the message names what the finding is
about: the tag, the role and the attribute, as far as its kind names them, and the value that an
attribute does not admit (`exists_tells`).  So the text of the fragment is the sentence, and what was
taken from the snippet stands in it as it is (`Diagnostic.Quotes`).

There is one lemma for each rule; the run adds nothing, since it only selects among what the rules
find (`keepFirst_sublist`).
-/

namespace AriaLint

open Message

/-! ## Solid parts -/

theorem Inline.isSolid_tagCode (name : Text) : (tagCode name).IsSolid :=
  ⟨'<', by simp [tagCode, inlinePlain], rfl⟩

theorem Inline.isSolid_attributeCode (name value : Text) : (attributeCode name value).IsSolid :=
  ⟨'=', by simp [attributeCode, inlinePlain], rfl⟩

/-! A message is solid part by part.  What the rules write out themselves is looked at, character by
character; what they quote stands between characters of their own. -/

namespace Message.IsSolid

variable {m : Message}

theorem nil : IsSolid [] := List.forall_mem_nil _

theorem cons {i : Inline} (hi : i.IsSolid) (hm : IsSolid m) : IsSolid (i :: m) :=
  List.forall_mem_cons.2 ⟨hi, hm⟩

theorem append {n : Message} (hm : IsSolid m) (hn : IsSolid n) : IsSolid (m ++ n) :=
  List.forall_mem_append.2 ⟨hm, hn⟩

theorem words {l : List Char} (h : l.any (!Markup.State.isAsciiBlank ·) = true) (hm : IsSolid m) :
    IsSolid (.words (String.ofList l).toList :: m) :=
  cons (Markup.isSolid_literal h) hm

theorem name {l : List Char} (h : l.any (!Markup.State.isAsciiBlank ·) = true) (hm : IsSolid m) :
    IsSolid (.code (String.ofList l).toList :: m) :=
  cons (Markup.isSolid_literal h) hm

theorem tag {name : Text} (hm : IsSolid m) : IsSolid (tagCode name :: m) :=
  cons (Inline.isSolid_tagCode name) hm

theorem assigned {name value : Text} (hm : IsSolid m) :
    IsSolid (attributeCode name value :: m) :=
  cons (Inline.isSolid_attributeCode name value) hm

theorem role {name : Text} (hm : IsSolid m) : IsSolid (roleCode name :: m) := assigned hm

end Message.IsSolid

namespace Markup

theorem isAsciiBlank_of_isBlank {c : Char} (h : isBlank c = false) :
    State.isAsciiBlank c = false := by
  rw [Bool.eq_false_iff]
  intro hc
  have hall : ∀ d ∈ ([' ', '\n', '\t', '\x0C', '\r'] : List Char), isBlank d = true := by decide
  rw [hall c (List.contains_iff_mem.1 hc)] at h
  exact Bool.noConfusion h

/-- A text that is not blank is solid. -/
theorem isSolid_of_normalize {t : Text} (h : Role.normalize t ≠ []) : IsSolid t := by
  by_contra hnot
  have hblank : ∀ c ∈ t, isBlank c = true := by
    intro c hc
    by_contra hsolid
    exact hnot ⟨c, hc, isAsciiBlank_of_isBlank (Bool.eq_false_iff.2 hsolid)⟩
  refine h ?_
  have htrim : Text.trimLeft t = [] := List.dropWhile_eq_nil_iff.2 hblank
  rw [Role.normalize, Text.trim, htrim]
  rfl

/-- A name that begins with a character of names is solid in lower case. -/
theorem isSolid_lower {c : Char} (hc : Tag.isNameChar c = true) (t : Text) :
    IsSolid (Text.lower (c :: t)) := by
  obtain ⟨d, u, hd⟩ : ∃ d u, Text.lowerAt [] c t = d :: u := by
    unfold Text.lowerAt
    split
    · exact ⟨_, _, rfl⟩
    · split
      · exact ⟨_, _, rfl⟩
      · exact ⟨_, _, rfl⟩
  have hblank := (Tag.lowerAt_of_isNameChar hc [] t d (by rw [hd]; exact List.mem_cons_self)).1
  refine ⟨d, ?_, isAsciiBlank_of_isBlank hblank⟩
  rw [Text.lower, Text.lowerAfter, hd]
  exact List.mem_append_left _ List.mem_cons_self

end Markup

namespace Smell

/-! ## What the messages name -/

/-- Kinds whose message names the tag. -/
def tagKinds : List Kind :=
  [.redundantRole, .roleOverridesNative, .labelWithoutRole, .conflictingNameSources,
   .buttonWithoutName, .interactiveWithoutName]

/-- Kinds whose message names the role.  The one about items of menus gives an example instead. -/
def roleKinds : List Kind :=
  [.redundantRole, .roleOverridesNative, .tabWithExpanded, .switchWithoutChecked,
   .interactiveWithoutName, .missingRequiredAttribute, .discouragedAttribute, .tabWithoutTablist,
   .tabpanelWithoutTab, .optionWithoutListbox, .treeitemWithoutTree, .rowWithoutTable,
   .cellWithoutRow]

/-- Kinds whose message names the attribute.  The one about mouse handlers does not tell which
handler it has seen. -/
def attributeKinds : List Kind :=
  [.expandedWithoutControls, .tabWithExpanded, .dialogWithoutModal, .switchWithoutChecked,
   .labelWithoutRole, .conflictingNameSources, .emptyName, .missingRequiredAttribute,
   .discouragedAttribute, .invalidAttributeValue]

/-- What a finding takes from the snippet `s` is shown, as far as its kind names it. -/
structure Diagnostic.Quotes (s : Text) (d : Diagnostic) (shown : Inline → Prop) : Prop where
  tagName : d.kind ∈ tagKinds → ∃ t ∈ Tag.all s, d.tagName = some t.name ∧ shown (tagCode t.name)
  roleName : d.kind ∈ roleKinds →
    ∃ t ∈ Tag.all s, ∃ r, t.role? = some r ∧ d.roleName = some r ∧ shown (roleCode r)
  attributeName : d.kind ∈ attributeKinds → ∃ n, d.attributeName = some n ∧ shown (.code n)
  value : d.kind = .invalidAttributeValue →
    ∃ t ∈ Tag.all s, ∃ a ∈ Attribute.ariaAttributes t.attrs, d.attributeName = some a.name ∧
      shown (.code ('"' :: a.value ++ ['"']))

/-- Nothing has to be told of a finding whose kind is not listed. -/
theorem told_of_unlisted {k : Kind} {kinds : List Kind} {told : Prop} (h : kinds.contains k = false)
    (hk : k ∈ kinds) : told := by
  rw [List.contains_iff_mem.2 hk] at h
  exact Bool.noConfusion h

theorem Diagnostic.Quotes.mono {s : Text} {d : Diagnostic} {shown shown' : Inline → Prop}
    (h : d.Quotes s shown) (himp : ∀ i, shown i → shown' i) : d.Quotes s shown' where
  tagName hd := by
    obtain ⟨t, ht, hname, hshown⟩ := h.tagName hd
    exact ⟨t, ht, hname, himp _ hshown⟩
  roleName hd := by
    obtain ⟨t, ht, r, hr, hname, hshown⟩ := h.roleName hd
    exact ⟨t, ht, r, hr, hname, himp _ hshown⟩
  attributeName hd := by
    obtain ⟨n, hn, hshown⟩ := h.attributeName hd
    exact ⟨n, hn, himp _ hshown⟩
  value hd := by
    obtain ⟨t, ht, a, ha, hname, hshown⟩ := h.value hd
    exact ⟨t, ht, a, ha, hname, himp _ hshown⟩

/-- The finding is told by the message, which has solid parts and names what it should. -/
structure Diagnostic.Tells (s : Text) (d : Diagnostic) (m : Message) : Prop where
  message_eq : d.message = m.html
  isSolid : m.IsSolid
  quotes : d.Quotes s (· ∈ m)

section Rules

-- What a message shows is found in it by `simp only`: the full `simp` would first spell out all the
-- texts of the message.
variable {s : Text} {t : Tag} {d : Diagnostic}

theorem exists_tells_nativeRole (ht : t ∈ Tag.all s) {role : Text} (hrole : t.role? = some role)
    (hd : d ∈ nativeRole t role) : ∃ m, d.Tells s m := by
  unfold nativeRole at hd
  split at hd
  · simp at hd
  · next native hnative =>
    have hsolid : (Inline.code native).IsSolid := by
      have hall : ∀ r ∈ Role.implicitRoles, (Inline.code r).IsSolid := by decide
      exact hall native (Role.implicit?_mem hnative)
    split at hd
    · next heq =>
      obtain rfl := List.mem_singleton.1 hd
      exact ⟨_, rfl, .words rfl <| .tag <| .words rfl <| .cons hsolid <| .words rfl <| .role <|
          .words rfl .nil, {
          tagName := fun _ => ⟨t, ht, rfl, by simp only [List.mem_cons, true_or, or_true]⟩
          roleName := fun _ => ⟨t, ht, role, hrole, rfl,
            by simp only [List.mem_cons, true_or, or_true]⟩
          attributeName := told_of_unlisted rfl
          value := fun h => Kind.noConfusion h }⟩
    · obtain rfl := List.mem_singleton.1 hd
      exact ⟨_, rfl, .words rfl <| .tag <| .words rfl <| .cons hsolid <| .words rfl <| .role <|
          .words rfl <| .words rfl .nil, {
          tagName := fun _ => ⟨t, ht, rfl, by simp only [List.mem_cons, true_or, or_true]⟩
          roleName := fun _ => ⟨t, ht, role, hrole, rfl,
            by simp only [List.mem_cons, true_or, or_true]⟩
          attributeName := told_of_unlisted rfl
          value := fun h => Kind.noConfusion h }⟩

theorem exists_tells_hiddenFocusable {role : Text} (hd : d ∈ hiddenFocusable t role) :
    ∃ m, d.Tells s m := by
  unfold hiddenFocusable at hd
  split at hd
  · obtain rfl := List.mem_singleton.1 hd
    exact ⟨_, rfl, .words rfl <| .role <| .words rfl <| .role <| .words rfl .nil,
      ⟨told_of_unlisted rfl, told_of_unlisted rfl, told_of_unlisted rfl,
        fun h => Kind.noConfusion h⟩⟩
  · simp at hd

theorem exists_tells_roleSemantics (ht : t ∈ Tag.all s) (hd : d ∈ Smell.roleSemantics t) :
    ∃ m, d.Tells s m := by
  unfold Smell.roleSemantics at hd
  split at hd
  · simp at hd
  · next role hrole =>
    rcases List.mem_append.1 hd with hd | hd
    · exact exists_tells_nativeRole ht hrole hd
    · exact exists_tells_hiddenFocusable hd

theorem exists_tells_mouseOnly (hd : d ∈ mouseOnly t) : ∃ m, d.Tells s m := by
  unfold mouseOnly at hd
  split at hd
  · simp at hd
  · split at hd
    · simp at hd
    · obtain rfl := List.mem_singleton.1 hd
      exact ⟨_, rfl, .words rfl <| .tag <| .words rfl <| .assigned <| .words rfl .nil,
        ⟨told_of_unlisted rfl, told_of_unlisted rfl, told_of_unlisted rfl,
          fun h => Kind.noConfusion h⟩⟩

theorem exists_tells_uncontrolledDisclosure (hd : d ∈ uncontrolledDisclosure t) :
    ∃ m, d.Tells s m := by
  unfold uncontrolledDisclosure at hd
  split at hd
  · obtain rfl := List.mem_singleton.1 hd
    exact ⟨_, rfl, .words rfl <| .name rfl <| .words rfl <| .name rfl <| .words rfl <| .name rfl <|
        .words rfl .nil, {
        tagName := told_of_unlisted rfl
        roleName := told_of_unlisted rfl
        attributeName := fun _ => ⟨_, rfl, by simp only [List.mem_cons, true_or, or_true]⟩
        value := fun h => Kind.noConfusion h }⟩
  · simp at hd

/-- The rules that look at all tags together. -/
theorem exists_tells_interaction (hd : d ∈ interactionFindings (Tag.all s)) :
    ∃ m, d.Tells s m := by
  simp only [interactionFindings, List.mem_append, List.mem_flatMap] at hd
  rcases hd with (((⟨t, -, hd⟩ | ⟨t, -, hd⟩) | hd) | hd) | hd
  · exact exists_tells_mouseOnly hd
  · exact exists_tells_uncontrolledDisclosure hd
  · unfold expandedTab at hd
    split at hd
    · next htab =>
      obtain ⟨t, ht, hrole⟩ := List.any_eq_true.1 htab
      have hrole : t.role? = some "tab" := eq_of_beq (Bool.and_eq_true_iff.1 hrole).1
      obtain rfl := List.mem_singleton.1 hd
      exact ⟨_, rfl, .words rfl <| .name rfl <| .words rfl <| .role <| .words rfl <| .name rfl <|
          .words rfl .nil, {
          tagName := told_of_unlisted rfl
          roleName := fun _ => ⟨t, ht, "tab", hrole, rfl,
            by simp only [List.mem_cons, true_or, or_true]⟩
          attributeName := fun _ => ⟨_, rfl, by simp only [List.mem_cons, true_or, or_true]⟩
          value := fun h => Kind.noConfusion h }⟩
    · simp at hd
  · unfold dialogModality at hd
    split at hd
    · obtain rfl := List.mem_singleton.1 hd
      exact ⟨_, rfl, .words rfl <| .name rfl <| .words rfl <| .assigned <| .words rfl .nil, {
          tagName := told_of_unlisted rfl
          roleName := told_of_unlisted rfl
          attributeName := fun _ => ⟨_, rfl, by simp only [List.mem_cons, true_or, or_true]⟩
          value := fun h => Kind.noConfusion h }⟩
    · simp at hd
  · unfold switchState at hd
    split at hd
    · next hswitch =>
      obtain ⟨t, ht, hrole⟩ := List.any_eq_true.1 (Bool.and_eq_true_iff.1 hswitch).1
      obtain rfl := List.mem_singleton.1 hd
      exact ⟨_, rfl, .words rfl <| .role <| .words rfl <| .name rfl <| .words rfl .nil, {
          tagName := told_of_unlisted rfl
          roleName := fun _ => ⟨t, ht, "switch", eq_of_beq hrole, rfl,
            by simp only [List.mem_cons, true_or, or_true]⟩
          attributeName := fun _ => ⟨_, rfl, by simp only [List.mem_cons, true_or, or_true]⟩
          value := fun h => Kind.noConfusion h }⟩
    · simp at hd

theorem exists_tells_labelSources (ht : t ∈ Tag.all s) (hd : d ∈ labelSources t) :
    ∃ m, d.Tells s m := by
  unfold labelSources at hd
  rcases List.mem_append.1 hd with hd | hd
  · split at hd
    · obtain rfl := List.mem_singleton.1 hd
      refine ⟨_, rfl, .words rfl <| .tag <| .words rfl <| .name rfl <| .words rfl <| .name rfl <|
          .words rfl <| .words rfl <| .tag <| .words rfl <| .tag <| .words rfl <| .tag <|
          .words rfl .nil, {
          tagName := fun _ => ⟨t, ht, rfl, by simp only [List.mem_cons, true_or, or_true]⟩
          roleName := told_of_unlisted rfl
          attributeName := fun _ => ⟨_, rfl, ?_⟩
          value := fun h => Kind.noConfusion h }⟩
      split <;> simp only [List.mem_cons, true_or, or_true]
    · simp at hd
  · split at hd
    · obtain rfl := List.mem_singleton.1 hd
      exact ⟨_, rfl, .words rfl <| .tag <| .words rfl <| .name rfl <| .words rfl <| .name rfl <|
          .words rfl <| .words rfl .nil, {
          tagName := fun _ => ⟨t, ht, rfl, by simp only [List.mem_cons, true_or, or_true]⟩
          roleName := told_of_unlisted rfl
          attributeName := fun _ => ⟨_, rfl, by simp only [List.mem_cons, true_or, or_true]⟩
          value := fun h => Kind.noConfusion h }⟩
    · simp at hd

theorem exists_tells_namelessButton {o : Occurrence} {ds : List Diagnostic}
    (ht : o.tag ∈ Tag.all s) (h : namelessButton s o = .ok ds) (hd : d ∈ ds) :
    ∃ m, d.Tells s m := by
  unfold namelessButton at h
  split at h
  · obtain rfl := Except.ok.inj h
    simp at hd
  · next hbutton =>
    have hname : o.tag.name = "button" := not_not.1 (not_or.1 hbutton).1
    obtain rfl := mem_map_inner h hd
    refine ⟨_, rfl, .words rfl <| .tag <| .words rfl <| .words rfl <| .name rfl <| .words rfl <|
        .name rfl <| .words rfl <| .name rfl <| .words rfl .nil, {
        tagName := fun _ => ⟨o.tag, ht, rfl, ?_⟩
        roleName := told_of_unlisted rfl
        attributeName := told_of_unlisted rfl
        value := fun h => Kind.noConfusion h }⟩
    rw [hname]
    simp only [List.mem_cons, true_or, or_true]

theorem exists_tells_namelessControl {o : Occurrence} {ds : List Diagnostic}
    (ht : o.tag ∈ Tag.all s) (h : namelessControl s o = .ok ds) (hd : d ∈ ds) :
    ∃ m, d.Tells s m := by
  unfold namelessControl at h
  split at h
  · obtain rfl := Except.ok.inj h
    simp at hd
  · next role hrole =>
    split at h
    · obtain rfl := Except.ok.inj h
      simp at hd
    · obtain rfl := mem_map_inner h hd
      exact ⟨_, rfl, .words rfl <| .tag <| .words rfl <| .role <| .words rfl <| .name rfl <|
          .words rfl <| .name rfl <| .words rfl .nil, {
          tagName := fun _ => ⟨o.tag, ht, rfl, by simp only [List.mem_cons, true_or, or_true]⟩
          roleName := fun _ => ⟨o.tag, ht, role, hrole, rfl,
            by simp only [List.mem_cons, true_or, or_true]⟩
          attributeName := told_of_unlisted rfl
          value := fun h => Kind.noConfusion h }⟩

/-- The names of empty attributes are taken from the snippet, where they are spelled in any case. -/
theorem exists_tells_emptyNames (hd : d ∈ emptyNames s) : ∃ m, d.Tells s m := by
  obtain ⟨a, ha, rfl⟩ := List.mem_map.1 hd
  have hforms : ∀ form ∈ (["aria-label", "aria-labelledby"] : List Text).map
      Attribute.NameForm.exactly, form.IsProper := by decide
  obtain ⟨c, u, -, -, rest, hread⟩ := ((Attribute.endsAt_reader hforms).filter
    fun a => a.value.all isBlank).exists_read?_of_mem_itemsAfter ha
  obtain ⟨-, ⟨form, hform, hnames⟩, -⟩ :=
    Attribute.exists_of_read? (Option.filter_eq_some_iff.1 hread).1
  have hsolid : (Inline.code (Text.lower a.name)).IsSolid := by
    have hfirst : ∃ w, form = .exactly ('a' :: w) := by
      simp only [List.map_cons, List.map_nil, List.mem_cons, List.not_mem_nil, or_false] at hform
      rcases hform with rfl | rfl <;> exact ⟨_, rfl⟩
    obtain ⟨w, rfl⟩ := hfirst
    obtain ⟨c, u, hc, -, hname⟩ := List.forall₂_cons_left_iff.1 hnames
    have hletter : Tag.isNameChar c = true := by
      have hfold : fold c = 'a' := (eq_of_beq hc).symm
      unfold Tag.isNameChar
      rw [hfold]
      rfl
    rw [hname]
    exact Markup.isSolid_lower hletter u
  exact ⟨_, rfl, .words rfl <| .cons hsolid <| .words rfl <| .words rfl .nil, {
      tagName := told_of_unlisted rfl
      roleName := told_of_unlisted rfl
      attributeName := fun _ => ⟨_, rfl, by simp only [List.mem_cons, true_or, or_true]⟩
      value := fun h => Kind.noConfusion h }⟩

theorem exists_tells_names {ds : List Diagnostic} (h : nameFindings s = .ok ds) (hd : d ∈ ds) :
    ∃ m, d.Tells s m := by
  obtain ⟨buttons, hbuttons, h⟩ := eq_ok_of_bind_eq_ok h
  obtain ⟨controls, hcontrols, h⟩ := eq_ok_of_bind_eq_ok h
  obtain rfl := Except.ok.inj h
  have htag : ∀ o ∈ Occurrence.all s, o.tag ∈ Tag.all s := fun o ho => by
    rw [← Occurrence.map_tag_all]
    exact List.mem_map_of_mem ho
  simp only [List.mem_append] at hd
  rcases hd with ((hd | hd) | hd) | hd
  · obtain ⟨t, ht, hd⟩ := List.mem_flatMap.1 hd
    rw [Occurrence.map_tag_all] at ht
    exact exists_tells_labelSources ht hd
  · obtain ⟨o, ho, es, hes, hd⟩ := exists_of_mem_flatten_mapM hbuttons hd
    exact exists_tells_namelessButton (htag o ho) hes hd
  · obtain ⟨o, ho, es, hes, hd⟩ := exists_of_mem_flatten_mapM hcontrols hd
    exact exists_tells_namelessControl (htag o ho) hes hd
  · exact exists_tells_emptyNames hd

theorem exists_tells_attributeUse (ht : t ∈ Tag.all s) (hd : d ∈ attributeUse t) :
    ∃ m, d.Tells s m := by
  have hlisted : ∀ table : List (Text × List Text),
      (∀ p ∈ table, ∀ n ∈ p.2, (Inline.code n).IsSolid) → ∀ role n,
      n ∈ (table.lookup role).getD [] → (Inline.code n).IsSolid := by
    intro table htable role n hn
    cases hlook : table.lookup role with
    | none =>
      rw [hlook] at hn
      simp at hn
    | some names =>
      rw [hlook] at hn
      exact htable _ (Role.mem_of_lookup hlook) n hn
  unfold attributeUse at hd
  split at hd
  · simp at hd
  · next role hrole =>
    simp only [List.mem_append, List.mem_map] at hd
    rcases hd with (⟨n, hn, rfl⟩ | ⟨n, hn, rfl⟩) | ⟨a, ha, rfl⟩
    · have hsolid : (Inline.code n).IsSolid :=
        hlisted Role.required (by decide) _ n (List.mem_filter.1 hn).1
      unfold missingAttribute
      exact ⟨_, rfl, .words rfl <| .role <| .words rfl <| .cons hsolid <| .words rfl .nil, {
          tagName := told_of_unlisted rfl
          roleName := fun _ => ⟨t, ht, role, hrole, rfl,
            by simp only [List.mem_cons, true_or, or_true]⟩
          attributeName := fun _ => ⟨n, rfl, by simp only [List.mem_cons, true_or, or_true]⟩
          value := fun h => Kind.noConfusion h }⟩
    · have hsolid : (Inline.code n).IsSolid :=
        hlisted Role.discouraged (by decide) _ n (List.mem_filter.1 hn).1
      unfold Smell.discouragedAttribute
      exact ⟨_, rfl, .words rfl <| .cons hsolid <| .words rfl <| .role <| .words rfl .nil, {
          tagName := told_of_unlisted rfl
          roleName := fun _ => ⟨t, ht, role, hrole, rfl,
            by simp only [List.mem_cons, true_or, or_true]⟩
          attributeName := fun _ => ⟨n, rfl, by simp only [List.mem_cons, true_or, or_true]⟩
          value := fun h => Kind.noConfusion h }⟩
    · obtain ⟨hmem, hadmits⟩ := List.mem_filter.1 ha
      have hname : (Inline.code a.name).IsSolid := by
        refine Markup.isSolid_of_normalize (t := a.name) fun hnil => ?_
        rw [Role.admits, hnil, show Role.allowedValues.lookup [] = none by decide] at hadmits
        exact Bool.noConfusion hadmits
      have hvalue : (Inline.code ('"' :: a.value ++ ['"'])).IsSolid :=
        ⟨'"', List.mem_cons_self, rfl⟩
      unfold invalidValue
      exact ⟨_, rfl, .words rfl <| .cons hname <| .words rfl <| .cons hvalue <| .words rfl .nil, {
          tagName := told_of_unlisted rfl
          roleName := told_of_unlisted rfl
          attributeName := fun _ => ⟨a.name, rfl, by simp only [List.mem_cons, true_or, or_true]⟩
          value := fun _ => ⟨t, ht, a, hmem, rfl, by simp only [List.mem_cons, true_or, or_true]⟩ }⟩

theorem exists_tells_containment (hd : d ∈ Smell.containment (Tag.roles s)) :
    ∃ m, d.Tells s m := by
  obtain ⟨rule, hrule, hd⟩ := List.mem_filterMap.1 hd
  unfold ContainmentRule.finding? at hd
  split at hd
  · simp at hd
  · next role hrole =>
    split at hd
    · simp at hd
    · obtain rfl := Option.some.inj hd
      have hsolid : ∀ r ∈ containmentRules, r.message.IsSolid := by
        simp only [containmentRules, List.forall_mem_cons]
        and_intros
        all_goals
          first
          | exact List.forall_mem_nil _
          | repeat' first | exact .nil | refine .role ?_ | refine .words rfl ?_
      have hnamed : ∀ r ∈ containmentRules, r.kind ∈ roleKinds →
          ∀ o ∈ r.owned, roleCode o ∈ r.message := by decide
      have hkinds : ∀ r ∈ containmentRules, r.kind ∉ tagKinds ∧ r.kind ∉ attributeKinds ∧
          r.kind ≠ .invalidAttributeValue := by decide
      obtain ⟨htag, hattribute, hvalue⟩ := hkinds rule hrule
      obtain ⟨t, ht, htrole⟩ :=
        List.mem_filterMap.1 (List.contains_iff_mem.1 (List.find?_some hrole))
      exact ⟨rule.message, rfl, hsolid rule hrule, {
          tagName := fun h => absurd h htag
          roleName := fun h => ⟨t, ht, role, htrole, rfl,
            hnamed rule hrule h role (List.mem_of_find?_eq_some hrole)⟩
          attributeName := fun h => absurd h hattribute
          value := fun h => absurd h hvalue }⟩

/-- **Every finding is told** by a message with solid parts that names what it should. -/
theorem exists_tells {o : Options} {ds : List Diagnostic} (h : detect o s = .ok ds) (hd : d ∈ ds) :
    ∃ m, d.Tells s m := by
  by_cases hblank : Text.trim s = []
  · rw [detect, if_pos hblank] at h
    obtain rfl := Except.ok.inj h
    simp at hd
  · obtain ⟨dss, hdss, rfl⟩ := exists_findings_of_detect hblank h
    obtain ⟨c, -, es, hes, hd⟩ :=
      exists_of_mem_flatten_mapM hdss ((keepFirst_sublist _ _).subset hd)
    cases c with
    | roleSemantics =>
      obtain rfl := Except.ok.inj hes
      obtain ⟨t, ht, hd⟩ := List.mem_flatMap.1 hd
      exact exists_tells_roleSemantics ht hd
    | interaction =>
      obtain rfl := Except.ok.inj hes
      exact exists_tells_interaction hd
    | accessibleName => exact exists_tells_names hes hd
    | attributes =>
      obtain rfl := Except.ok.inj hes
      obtain ⟨t, ht, hd⟩ := List.mem_flatMap.1 hd
      exact exists_tells_attributeUse ht hd
    | containment =>
      obtain rfl := Except.ok.inj hes
      exact exists_tells_containment hd

end Rules
end Smell
end AriaLint
