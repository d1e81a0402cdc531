import AriaLint.Proofs.Attribute.Edits
import AriaLint.Proofs.Fix.Confinement
import AriaLint.Proofs.Report.Roles
import AriaLint.Proofs.Smell.Reports
import AriaLint.Proofs.Tag.Lowered
import AriaLint.Proofs.Tag.Scan

/-!
# Reading a whole tag

Attributes are read from what stands behind the name of a tag.  They may as well be read from the tag
as it stands in the markup, with its bracket and its name in front: the same attribute is found at the
same place (`Attribute.find?_source`).  So an implicit role can be told from a whole tag, too
(`Role.implicit?_source`), and nothing that is found or fixed depends on which of the two was read.

The name that comes in front could do harm at either end.

* At its head the name of an attribute can start.  That attribute is named like the tag: it cannot
  end earlier, where name characters follow and no sign, and it cannot end later, because the name
  of a tag is the longest that there is.
* Behind the name of the tag no other name can start, whereas one can at the head of the attribute
  text.  No attribute stands there, since the name of the tag would go on with the name of the
  attribute, and so would not be the longest.

Both times the argument is about names that end with a word character, so that a sign behind them
ends them (`Tag.not_isWordName_of_readName?`).  A tag that is named like the attribute does make a
difference, and is none of those that have an implicit role.
-/

namespace AriaLint

/-! ## Where the name of a tag ends -/

namespace Tag

/-- Characters of names, of which the last one is a word character. -/
structure IsWordName (n : Text) : Prop where
  chars : ∀ c ∈ n, isNameChar c = true
  last : n.getLast?.any isWord = true

instance (n : Text) : Decidable (IsWordName n) :=
  decidable_of_iff ((∀ c ∈ n, isNameChar c = true) ∧ n.getLast?.any isWord = true)
    ⟨fun h => ⟨h.1, h.2⟩, fun h => ⟨h.chars, h.last⟩⟩

namespace IsWordName

variable {n m : Text}

theorem ne_nil (h : IsWordName n) : n ≠ [] := by
  rintro rfl
  exact absurd h.last (by simp)

/-- An end of such a name is such a name. -/
theorem of_append (h : IsWordName (n ++ m)) (hm : m ≠ []) : IsWordName m where
  chars c hc := h.chars c (List.mem_append_right n hc)
  last := by rw [← List.getLast?_append_of_ne_nil n hm]; exact h.last

/-- Whatever is like such a name is such a name. -/
theorem of_like (h : IsWordName n)
    (hlike : List.Forall₂ (fun w c => sameLetter w c = true) n m) : IsWordName m := by
  have hfold : n.map fold = m.map fold := Attribute.map_fold_eq hlike
  constructor
  · intro c hc
    obtain ⟨w, hw, hwc⟩ := List.mem_map.1 (hfold ▸ List.mem_map_of_mem hc : fold c ∈ n.map fold)
    exact (isNameChar_of_fold_eq (h.chars w hw) hwc).1
  · obtain ⟨w, hw, hword⟩ := (Option.any_eq_true _ _).1 h.last
    have hends : m.getLast?.map fold = some (fold w) := by
      rw [← List.getLast?_map, ← hfold, List.getLast?_map, hw, Option.map_some]
    obtain ⟨c, hc, hwc⟩ := Option.map_eq_some_iff.1 hends
    refine (Option.any_eq_true _ _).2 ⟨c, hc, ?_⟩
    rw [(isNameChar_of_fold_eq (h.chars w (List.mem_of_getLast? hw)) hwc.symm).2, hword]

end IsWordName

theorem continuesName_of_isNameChar {c : Char} (h : isNameChar c = true) :
    Attribute.continuesName c = true :=
  forall_isNameChar (P := fun c => Attribute.continuesName c = true) (by decide +kernel)
    (by decide +kernel) h

/-- **The name of a tag is the longest.**  With more characters of names behind it, up to a sign, it
would have been read with them. -/
theorem not_isWordName_of_readName? {u name m w : Text} (h : readName? u = some (name, m ++ w))
    (hw : Delimits w) : ¬ IsWordName m := by
  intro hm
  obtain ⟨hname, -, hlongest⟩ := isNameOf_of_readName? h
  have hchars : ∀ c ∈ name ++ m, isNameChar c = true :=
    List.forall_mem_append.2 ⟨fun c hc => isNameChar_of_readName? h hc, hm.chars⟩
  have hu : u = (name ++ m) ++ w := by rw [List.append_assoc, append_of_readName? h]
  have hlonger : IsNameOf (name ++ m) u := by
    refine ⟨by simp [hm.ne_nil], ?_, ?_⟩
    · rw [hu, List.takeWhile_append_of_pos hchars]
      exact List.prefix_append _ _
    · have hsign : w.head?.any isWord = false := by
        cases w with
        | nil => rfl
        | cons c w => exact isWord_eq_false (hw c rfl)
      rw [hu, List.drop_left, List.getLast?_append_of_ne_nil name hm.ne_nil, isBoundary, hm.last,
        hsign]
      rfl
  have hle := hlongest _ hlonger
  rw [List.length_append] at hle
  exact hm.ne_nil (List.length_eq_zero_iff.1 (by omega))

end Tag

/-! ## Attributes -/

namespace Attribute

/-- Blanks and an equals sign end a name. -/
theorem delimits_sign {b : Text} (hb : Text.IsBlankText b) (v : Text) : Delimits (b ++ '=' :: v) := by
  cases b with
  | nil => exact delimits_cons (by decide)
  | cons c b => exact delimits_cons (delimitsName_of_isBlank (hb c List.mem_cons_self))

section Source

variable {name u rest : Text} {tag : Tag} (hname : Tag.IsWordName (Text.lower name))
  (hread : Tag.read? u = some (tag, rest)) (filled : Bool)

include hname in
/-- Where an attribute is read, a name that is like the given one stands, and then a sign. -/
theorem exists_of_named {before : Option Char} {t after : Text} {a : Attribute}
    (h : (named name filled).read? before t = some (a, after)) :
    canStartAfter before = true ∧ Tag.IsWordName a.name ∧
      (NameForm.exactly (Text.lower name)).Names a.name ∧
      ∃ b v, t = a.name ++ (b ++ '=' :: v) ∧ Text.IsBlankText b := by
  obtain ⟨hfound, -⟩ := Option.filter_eq_some_iff.1 h
  obtain ⟨hstart, ⟨form, hform, hlike⟩, b, b', p, q, ht, hb, -⟩ := exists_of_read? hfound
  obtain rfl := List.mem_singleton.1 hform
  exact ⟨hstart, hname.of_like hlike, hlike, b, _, ht, hb⟩

include hname hread in
/-- Nothing is read at the head of the attribute text. -/
theorem read?_attrs (before : Option Char) : (named name filled).read? before tag.attrs = none := by
  rw [Option.eq_none_iff_forall_ne_some]
  rintro ⟨a, after⟩ h
  obtain ⟨-, hword, -, b, v, hattrs, hb⟩ := exists_of_named hname filled h
  obtain ⟨-, w, -, hcut⟩ := Tag.read?_eq_some_iff.1 hread
  have hbehind : tag.attrs ++ '>' :: rest = a.name ++ (b ++ '=' :: (v ++ '>' :: rest)) := by
    rw [hattrs]
    simp
  rw [hbehind] at hcut
  exact Tag.not_isWordName_of_readName? hcut (delimits_sign hb _) hword

include hname hread in
/-- Nothing is read at the head of the name of the tag, unless the tag is named like the
attribute. -/
theorem read?_rawName (hother : ¬ (NameForm.exactly (Text.lower name)).Names tag.rawName)
    (before : Option Char) :
    (named name filled).read? before (tag.rawName ++ (tag.attrs ++ ['>'])) = none := by
  rw [Option.eq_none_iff_forall_ne_some]
  rintro ⟨a, after⟩ h
  obtain ⟨-, hword, hlike, b, v, hsplit, hb⟩ := exists_of_named hname filled h
  obtain ⟨-, w, -, hcut⟩ := Tag.read?_eq_some_iff.1 hread
  have hdiffers : a.name ≠ tag.rawName := fun heq => hother (heq ▸ hlike)
  rcases List.append_eq_append_iff.1 hsplit with ⟨m, hm, hrest⟩ | ⟨m, hm, hrest⟩
  · -- the name of the attribute goes on behind that of the tag
    have hne : m ≠ [] := by
      rintro rfl
      exact hdiffers (by rw [hm, List.append_nil])
    rw [hm] at hword
    have hbehind : tag.attrs ++ '>' :: rest = m ++ (b ++ '=' :: (v ++ rest)) := by
      calc tag.attrs ++ '>' :: rest = (tag.attrs ++ ['>']) ++ rest := by simp
        _ = m ++ (b ++ '=' :: (v ++ rest)) := by rw [hrest]; simp
    rw [hbehind] at hcut
    exact Tag.not_isWordName_of_readName? hcut (delimits_sign hb _) (hword.of_append hne)
  · -- the name of the attribute ends within that of the tag
    cases m with
    | nil => exact hdiffers (by rw [hm, List.append_nil])
    | cons c m =>
      have hsign : delimitsName c = true := delimits_sign hb v c (by rw [hrest]; rfl)
      have hchar := Tag.isNameChar_of_read? hread c (by rw [hm]; simp)
      rw [isNameChar_eq_false hsign] at hchar
      exact Bool.noConfusion hchar

include hname hread in
/-- **An attribute is found in the whole tag where it is found in the attribute text**, unless the
tag itself is named like the attribute. -/
theorem find?_source (hother : ¬ (NameForm.exactly (Text.lower name)).Names tag.rawName) :
    find? name filled tag.source = (find? name filled tag.attrs).map fun f =>
      { f with before := '<' :: tag.rawName ++ f.before, after := f.after ++ ['>'] } := by
  have hchars := Tag.isNameChar_of_read? hread
  have hquoteless : IsQuoteless (Text.lower name) := by
    intro c hc
    exact Tag.forall_isNameChar (P := fun c => isQuote (fold c) = false) (by decide +kernel)
      (by decide +kernel) (hname.chars c hc)
  have hfront : ∀ x c z, '<' :: tag.rawName = x ++ c :: z →
      (named name filled).read? (Reader.beforeAt none x) (c :: (z ++ (tag.attrs ++ ['>']))) =
        none := by
    intro x c z hsplit
    cases x with
    | nil =>
      obtain ⟨rfl, rfl⟩ := List.cons.inj hsplit
      rw [Option.eq_none_iff_forall_ne_some]
      rintro ⟨a, after⟩ h
      obtain ⟨-, hword, -, b, v, ht, -⟩ := exists_of_named hname filled h
      obtain ⟨d, n, hn⟩ := List.exists_cons_of_ne_nil hword.ne_nil
      rw [hn] at ht hword
      obtain ⟨rfl, -⟩ := List.cons.inj ht
      exact absurd (hword.chars '<' List.mem_cons_self) (by decide)
    | cons d x =>
      obtain ⟨rfl, hraw⟩ := List.cons.inj hsplit
      rcases List.eq_nil_or_concat x with rfl | ⟨x, e, rfl⟩
      · have hhead := read?_rawName hname hread filled hother (some '<')
        rwa [hraw] at hhead
      · -- within the name of the tag no other name starts
        have hgoes : continuesName e = true :=
          Tag.continuesName_of_isNameChar (hchars e (by rw [hraw]; simp))
        rw [Option.eq_none_iff_forall_ne_some]
        rintro ⟨a, after⟩ h
        obtain ⟨hstart, -⟩ := exists_of_named hname filled h
        rw [List.concat_eq_append, ← List.cons_append, Reader.beforeAt_concat] at hstart
        simp [canStartAfter, hgoes] at hstart
  have hsource : tag.source = ('<' :: tag.rawName) ++ (tag.attrs ++ ['>']) := by simp [Tag.source]
  have hattrs : ∀ before, (named name filled).find? before (tag.attrs ++ ['>']) =
      (find? name filled tag.attrs).map fun f => { f with after := f.after ++ ['>'] } := by
    intro before
    rw [(endsAt_named hquoteless filled).find?_append_of_forall (by decide), find?_eq]
    refine congrArg _ (Reader.find?_congr ?_)
    rw [read?_attrs hname hread, read?_attrs hname hread]
  rw [find?_eq, hsource, Reader.find?_append_of_forall hfront, hattrs, Option.map_map]
  rfl

include hname hread in
theorem filledValue?_source
    (hother : ¬ (NameForm.exactly (Text.lower name)).Names tag.rawName) :
    filledValue? name tag.source = filledValue? name tag.attrs := by
  rw [filledValue?, filledValue?, find?_source hname hread true hother, Option.map_map]
  rfl

/-- The name of a tag can be read as that of an attribute. -/
example : filledValue? "href" (Tag.mk "href" "='x'").source = some ("x" : Text) ∧
    filledValue? "href" (Tag.mk "href" "='x'").attrs = none := by decide +kernel

end Source

end Attribute

/-! ## Implicit roles -/

namespace Role

open Attribute

variable {s : Text} {t : Tag}

/-- A tag whose name has another length than that of an attribute is not named like it. -/
theorem not_names_of_length {u rest name : Text} (hread : Tag.read? u = some (t, rest))
    (h : (Text.lower name).length ≠ (t.name.filter (· ≠ '\u0307')).length) :
    ¬ (NameForm.exactly (Text.lower name)).Names t.rawName := by
  intro hlike
  rw [Tag.name, Tag.filter_lower (Tag.isNameChar_of_read? hread), List.length_map] at h
  exact h hlike.length_eq

/-- **The implicit role of an element can be told from its whole tag.** -/
theorem implicit?_source (h : t ∈ Tag.all s) :
    implicit? t.name t.source = implicit? t.name t.attrs := by
  obtain ⟨u, rest, hread⟩ := Tag.exists_read?_of_mem_pieces (Tag.mem_all_iff.1 h)
  unfold implicit?
  rw [Tag.normalize_name (Tag.isNameChar_of_read? hread)]
  dsimp only
  -- the table of elements does not ask for attributes
  cases elementRoles.lookup t.name with
  | some role => rfl
  | none =>
    dsimp only
    by_cases hlink : t.name = "a"
    · have hvalue : filledValue? "href" t.source = filledValue? "href" t.attrs :=
        filledValue?_source (by decide +kernel) hread
          (not_names_of_length hread (by rw [hlink]; decide))
      rw [if_pos hlink, if_pos hlink, hasFilled, hasFilled, hvalue]
    · rw [if_neg hlink, if_neg hlink]
      by_cases hinput : t.name = "input"
      · have hvalue : filledValue? "type" t.source = filledValue? "type" t.attrs :=
          filledValue?_source (by decide +kernel) hread
            (not_names_of_length hread (by rw [hinput]; decide))
        rw [if_pos hinput, if_pos hinput, hvalue]
      · rw [if_neg hinput, if_neg hinput]

/-- All that is made of the implicit role of a tag: an explicit role beside it repeats or overrides
it, a label needs one of the two, and a role that repeats it is taken off. -/
structure Governs (native : Option Text) (t : Tag) : Prop where
  repeated : (∃ d ∈ Smell.roleSemantics t, d.kind = .redundantRole) ↔
    ∃ role, t.role? = some role ∧ native = some role
  overridden : (∃ d ∈ Smell.roleSemantics t, d.kind = .roleOverridesNative) ↔
    ∃ role own, t.role? = some role ∧ native = some own ∧ own ≠ role
  bare : (∃ d ∈ Smell.labelSources t, d.kind = .labelWithoutRole) ↔
    (t.has "aria-label" = true ∨ t.has "aria-labelledby" = true) ∧ t.role? = none ∧ native = none
  removed : (Fix.removeRedundantRole? t).isSome = true ↔
    ∃ role, t.role? = some role ∧ native = some role

theorem governs_implicit (t : Tag) : Governs (implicit? t.name t.attrs) t where
  repeated := by simp [Smell.exists_kind_roleOf_iff]
  overridden := by simp [Smell.exists_kind_roleOf_iff]
  bare := by simp [Smell.exists_kind_labelSources_iff]
  removed := by
    rw [← Option.ne_none_iff_isSome, Ne, Fix.removeRedundantRole?_eq_none_iff]
    push Not
    exact exists_congr fun role => and_comm

/-- **An implicit role can be told from the whole tag**, in every snippet: it is the one that governs
what is found and fixed, and the one that a summary of the roles tells. -/
theorem implicitOf?_source (s : Text) :
    (∀ t ∈ Tag.all s, implicit? t.name t.source = implicit? t.name t.attrs ∧
      Governs (implicitOf? t.source t.name) t) ∧
    (RoleSummary.ofSnippet s).implicitRoles =
      if Tag.roles s = [] then distinct ((Tag.all s).filterMap fun t => implicitOf? t.source t.name)
      else [] := by
  refine ⟨fun t ht => ⟨implicit?_source ht, ?_⟩, ?_⟩
  · rw [implicitOf?, implicit?_source ht]
    exact governs_implicit t
  · have hsame : (Tag.all s).filterMap (fun t => implicitOf? t.source t.name) =
        RoleSummary.implicitRolesOf s :=
      List.filterMap_congr fun t ht => implicit?_source ht
    rw [hsame]
    unfold RoleSummary.ofSnippet
    cases hroles : Tag.roles s with
    | nil => rfl
    | cons role roles => rfl

/-- The slash before the name of an attribute, and a type that is given twice. -/
theorem implicitOf?_source_field :
    let s : Text := "<A/href='x' role='link'>next</A><input type='' TYPE=' CheckBox '>"
    let link : Tag := ⟨"A", "/href='x' role='link'"⟩
    let field : Tag := ⟨"input", " type='' TYPE=' CheckBox '"⟩
    (link ∈ Tag.all s ∧ implicitOf? link.source link.name = some "link" ∧
      (Fix.removeRedundantRole? link).isSome = true) ∧
    (field ∈ Tag.all s ∧ implicitOf? field.source field.name = some "checkbox") := by
  intro s link field
  have hlink : link ∈ Tag.all s := by decide +kernel
  have hfield : field ∈ Tag.all s := by decide +kernel
  have htold := (implicitOf?_source s).1
  have hnative : implicitOf? link.source link.name = some "link" := by
    rw [implicitOf?, (htold link hlink).1]
    decide +kernel
  refine ⟨⟨hlink, hnative, ?_⟩, hfield, ?_⟩
  · exact (htold link hlink).2.removed.2 ⟨"link", by decide +kernel, hnative⟩
  · rw [implicitOf?, (htold field hfield).1]
    decide +kernel

end Role
end AriaLint
