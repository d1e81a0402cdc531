import AriaLint.Proofs.Fix.Log
import AriaLint.Proofs.Message.Findings

/-!
# Messages are faithful

The entries of the log are told in the same way as findings: by messages with solid parts that name
what was changed (`exists_tells_apply`).  With that, `messages_faithful` covers both.  Every message
is a fragment whose only markup is code, its text can be read, and the text is the fragment without
the marks and the escapes.  Tags, roles, attributes and values stand in it as they are, whatever
characters the snippet or the options put into them.
-/

namespace AriaLint

open Message

namespace Fix

/-- What an entry of the log is about is shown. -/
structure Change.Quotes (o : Options) (c : Change) (shown : Inline → Prop) : Prop where
  roleName : shown (roleCode c.roleName)
  tagName : c.kind = .removedRedundantRole ∨ c.kind = .addedTablist → shown (tagCode c.tagName)
  checked : c.kind = .addedAriaChecked → shown (attributeCode "aria-checked" o.checked)
  names : c.kind = .addedValueRange → ∀ n ∈ c.attributeNames, shown (.code n)

theorem Change.Quotes.mono {o : Options} {c : Change} {shown shown' : Inline → Prop}
    (h : c.Quotes o shown) (himp : ∀ i, shown i → shown' i) : c.Quotes o shown' where
  roleName := himp _ h.roleName
  tagName hc := himp _ (h.tagName hc)
  checked hc := himp _ (h.checked hc)
  names hc n hn := himp _ (h.names hc n hn)

/-- The entry is told by the message, which has solid parts and names what it should. -/
structure Change.Tells (o : Options) (c : Change) (m : Message) : Prop where
  message_eq : c.message = m.html
  isSolid : m.IsSolid
  quotes : c.Quotes o (· ∈ m)

section Entries

variable {o : Options} {t : Tag} {e : Edit}

theorem exists_tells_removeRedundantRole? (h : removeRedundantRole? t = some e) :
    ∃ m, e.change.Tells o m := by
  unfold removeRedundantRole? at h
  split at h
  · simp at h
  · split at h
    · obtain rfl := Option.some.inj h
      exact ⟨_, rfl, .words rfl <| .role <| .words rfl <| .tag <| .words rfl .nil, {
          roleName := by simp only [List.mem_cons, true_or, or_true]
          tagName := fun _ => by simp only [List.mem_cons, true_or, or_true]
          checked := fun h => absurd h (by simp)
          names := fun h => absurd h (by simp) }⟩
    · simp at h

theorem exists_tells_addChecked? (h : addChecked? o.checked t = some e) :
    ∃ m, e.change.Tells o m := by
  unfold addChecked? at h
  split at h
  · simp at h
  · split at h
    · simp at h
    · obtain rfl := Option.some.inj h
      exact ⟨_, rfl, .words rfl <| .assigned <| .words rfl <| .role <| .words rfl .nil, {
          roleName := by simp only [List.mem_cons, true_or, or_true]
          tagName := fun h => absurd h (by simp)
          checked := fun _ => by simp only [List.mem_cons, true_or, or_true]
          names := fun h => absurd h (by simp) }⟩

/-- A list of names consists of the names and the commas between them. -/
theorem mem_listed_iff {names : List Text} {i : Inline} :
    i ∈ listed names ↔
      (∃ n ∈ names, i = .code n) ∨ 2 ≤ names.length ∧ i = .words ", " := by
  induction names with
  | nil => simp [listed]
  | cons n names ih =>
    cases names with
    | nil => simp [listed]
    | cons n' names =>
      have hsplit : listed (n :: n' :: names) =
          .code n :: .words ", " :: listed (n' :: names) := rfl
      rw [hsplit, List.mem_cons, List.mem_cons, ih]
      simp only [List.mem_cons, List.length_cons]
      constructor
      · rintro (rfl | rfl | ⟨m, hm, rfl⟩ | ⟨-, rfl⟩)
        · exact Or.inl ⟨n, Or.inl rfl, rfl⟩
        · exact Or.inr ⟨by omega, rfl⟩
        · exact Or.inl ⟨m, Or.inr hm, rfl⟩
        · exact Or.inr ⟨by omega, rfl⟩
      · rintro (⟨m, rfl | hm, rfl⟩ | ⟨-, rfl⟩)
        · exact Or.inl rfl
        · exact Or.inr (Or.inr (Or.inl ⟨m, hm, rfl⟩))
        · exact Or.inr (Or.inl rfl)

theorem exists_tells_addValueRange? (h : addValueRange? (rangeDefaults o) t = some e) :
    ∃ m, e.change.Tells o m := by
  have hsolid : ∀ n ∈ Role.valueRange, (Inline.code n).IsSolid := by decide
  unfold addValueRange? at h
  split at h
  · simp at h
  · dsimp only at h
    split at h
    · simp at h
    · obtain rfl := Option.some.inj h
      refine ⟨_, rfl, .words rfl (.append (fun i hi => ?_) <| .words rfl <| .role <|
          .words rfl .nil), {
          roleName := ?_
          tagName := fun h => absurd h (by simp)
          checked := fun h => absurd h (by simp)
          names := fun _ n hn => ?_ }⟩
      · rcases mem_listed_iff.1 hi with ⟨n, hn, rfl⟩ | ⟨-, rfl⟩
        · obtain ⟨d, hd, rfl⟩ := List.mem_map.1 hn
          exact hsolid d.1 (List.of_mem_zip (List.mem_filter.1 hd).1).1
        · decide
      · exact List.mem_append_right _ (List.mem_cons_of_mem _ List.mem_cons_self)
      · exact List.mem_append_left _ (List.mem_cons_of_mem _
          (mem_listed_iff.2 (Or.inl ⟨n, hn, rfl⟩)))

theorem exists_tells_addTablist (t : Tag) : ∃ m, (addTablist t).change.Tells o m := by
  unfold addTablist
  exact ⟨_, rfl, .words rfl <| .role <| .words rfl <| .tag <| .words rfl <| .role <|
      .words rfl .nil, {
      roleName := by simp only [List.mem_cons, true_or, or_true]
      tagName := fun _ => by simp only [List.mem_cons, true_or, or_true]
      checked := fun h => absurd h (by simp)
      names := fun h => absurd h (by simp) }⟩

/-! ## The log -/

/-- **Every entry of the log is told** by a message with solid parts that names what it should. -/
theorem exists_tells_apply {s : Text} {c : Change} (h : c ∈ (apply o s).changes) :
    ∃ m, c.Tells o m := by
  refine Result.forall_changes_andThenIf (P := fun c => ∃ m, c.Tells o m)
    (Result.forall_changes_andThenIf (Result.forall_changes_andThenIf
      (Result.forall_changes_andThenIf ?_ _ ?_) _ ?_) _ ?_) _ ?_ c h
  · simp
  · intro t c hc
    obtain ⟨tag, e, he, rfl⟩ := exists_edit_of_mem_changes hc
    exact exists_tells_removeRedundantRole? he
  · intro t c hc
    obtain ⟨tag, e, he, rfl⟩ := exists_edit_of_mem_changes hc
    exact exists_tells_addChecked? he
  · intro t c hc
    obtain ⟨tag, e, he, rfl⟩ := exists_edit_of_mem_changes hc
    exact exists_tells_addValueRange? he
  · intro t c hc
    obtain ⟨tag, rfl⟩ := exists_tag_of_mem_addTablists hc
    exact exists_tells_addTablist tag

end Entries
end Fix

/-! ## Findings and entries of the log -/

/-- **Messages are faithful.**  The message of a finding, and of an entry of the log, has no markup
but pairs of code marks and the three escapes.  Its text can always be read: it is the message
without the marks, with the escapes undone, and what the message quotes stands in it as it is. -/
theorem messages_faithful (s : Text) :
    (∀ o ds, Smell.detect o s = .ok ds → ∀ d ∈ ds,
      IsFragment false d.message ∧ d.text = .ok (unescaped (withoutMarks d.message)) ∧
        d.Quotes s fun i => inlinePlain i <:+: unescaped (withoutMarks d.message)) ∧
    ∀ o, ∀ c ∈ (Fix.apply o s).changes,
      IsFragment false c.message ∧ c.text = .ok (unescaped (withoutMarks c.message)) ∧
        c.Quotes o fun i => inlinePlain i <:+: unescaped (withoutMarks c.message) := by
  constructor
  · intro o ds h d hd
    obtain ⟨m, hmessage, hsolid, hquotes⟩ := Smell.exists_tells h hd
    rw [Smell.Diagnostic.text, hmessage, unescaped_withoutMarks_html]
    exact ⟨isFragment_html m, content_html hsolid,
      hquotes.mono fun i hi => infix_plain_of_mem hi⟩
  · intro o c hc
    obtain ⟨m, hmessage, hsolid, hquotes⟩ := Fix.exists_tells_apply hc
    rw [Fix.Change.text, hmessage, unescaped_withoutMarks_html]
    exact ⟨isFragment_html m, content_html hsolid,
      hquotes.mono fun i hi => infix_plain_of_mem hi⟩

/-- A value that looks like markup, with an escape of its own, on a button that says it is one. -/
theorem messages_faithful_markup :
    let s : Text := "<button role='button' aria-hidden='&lt;<code'>"
    let redundant : Text :=
      "Native <button> already has the implicit button role. " ++
        "You usually don't need role=\"button\" on semantic elements."
    let invalid : Text :=
      "Attribute aria-hidden has value \"&lt;<code\", " ++
        "which is not a valid value for this ARIA attribute."
    let removed : Text :=
      "Removed redundant role=\"button\" from <button> " ++
        "because the element already has that implicit role."
    (∃ ds, Smell.detect .default s = .ok ds ∧ ds.map (·.text) = [.ok redundant, .ok invalid]) ∧
      (Fix.apply .default s).changes.map (·.text) = [.ok removed] := by
  intro s redundant invalid removed
  have hmessages : (Smell.detect .default s).toOption.map
      (List.map fun d => unescaped (withoutMarks d.message)) = some [redundant, invalid] := by
    decide +kernel
  have hchanges : (Fix.apply .default s).changes.map (fun c => unescaped (withoutMarks c.message)) =
      [removed] := by decide +kernel
  obtain ⟨hfindings, hlog⟩ := messages_faithful s
  constructor
  · cases h : Smell.detect .default s with
    | error e =>
      rw [h] at hmessages
      exact absurd hmessages (by simp [Except.toOption])
    | ok ds =>
      rw [h] at hmessages
      refine ⟨ds, rfl, ?_⟩
      rw [List.map_congr_left fun d hd => (hfindings _ ds h d hd).2.1]
      have hall := congrArg (List.map (@Except.ok Markup.MarkupError Text))
        (Option.some.inj hmessages)
      rwa [List.map_map] at hall
  · rw [List.map_congr_left fun c hc => (hlog _ c hc).2.1]
    have hall := congrArg (List.map (@Except.ok Markup.MarkupError Text)) hchanges
    rwa [List.map_map] at hall

end AriaLint
