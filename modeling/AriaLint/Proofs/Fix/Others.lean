import AriaLint.Proofs.Attribute.Edits
import AriaLint.Proofs.Fix.Controls

/-!
# Names of tags and unrelated attributes

A fix is meant to leave the name of a tag alone, and every attribute but the ones that it is about.
It does so when the tags that it edits are tidy (`others_apply_default`): their attribute text ends
with no open value, and a redundant role stands apart from its neighbours.

Without this it does not.  When a redundant role goes, its neighbours meet, and where nothing else
separates them they run together: the name of the tag with the name of the next attribute, or two
names of attributes (`pieces_apply_gluedRole`).

`KeepsOthers E t u` says that `u` can be read for `t` as far as names other than the ones in `E` are
concerned.  Each pass keeps this for its own names, and tidy tags stay closed for the passes that
follow.  After the first three passes each tag is `prepared t`, and the last pass may add a role to
it (`pieces_apply_default`).
-/

namespace AriaLint

open Attribute

/-! ## Other names -/

/-- The form stands for proper names, none of them like one of the given names. -/
structure Attribute.NameForm.IsOther (E : List Text) (form : NameForm) : Prop where
  proper : form.IsProper
  avoids : ∀ name ∈ E, form.Avoids name

theorem Attribute.NameForm.IsOther.mono {E E' : List Text} {form : NameForm} (h : form.IsOther E')
    (hE : E ⊆ E') : form.IsOther E :=
  ⟨h.proper, fun name hname => h.avoids name (hE hname)⟩

namespace Tag

/-- The second tag has the name of the first one, and what is read of it under other names than the
given ones is what is read of the first one, whatever stands in front. -/
structure KeepsOthers (E : List Text) (t u : Tag) : Prop where
  rawName : u.rawName = t.rawName
  first : ∀ forms : List NameForm, (∀ form ∈ forms, form.IsOther E) →
    ∀ (keep : Attribute → Bool) (pre : Text) (before : Option Char), '=' ∉ pre →
      ((Attribute.reader forms).filter keep).first? before (pre ++ u.attrs) =
        ((Attribute.reader forms).filter keep).first? before (pre ++ t.attrs)

namespace KeepsOthers

variable {E E' : List Text} {t u v : Tag}

theorem refl (t : Tag) : KeepsOthers E t t := ⟨rfl, fun _ _ _ _ _ _ => rfl⟩

theorem trans (h : KeepsOthers E t u) (h' : KeepsOthers E u v) : KeepsOthers E t v where
  rawName := h'.rawName.trans h.rawName
  first forms hforms keep pre before hpre :=
    (h'.first forms hforms keep pre before hpre).trans (h.first forms hforms keep pre before hpre)

theorem mono (h : KeepsOthers E t u) (hE : E ⊆ E') : KeepsOthers E' t u where
  rawName := h.rawName
  first forms hforms := h.first forms fun form hform => (hforms form hform).mono hE

/-- **An attribute of another name** has its value, or is not there, as before. -/
theorem item_eq (h : KeepsOthers E t u) {name : Text}
    (hname : (NameForm.exactly (Text.lower name)).IsOther E) (filled : Bool) :
    (find? name filled u.attrs).map Found.item = (find? name filled t.attrs).map Found.item :=
  h.first [.exactly (Text.lower name)] (by simpa using hname) _ [] none (by simp)

theorem value?_eq (h : KeepsOthers E t u) {name : Text}
    (hname : (NameForm.exactly (Text.lower name)).IsOther E) :
    value? name u.attrs = value? name t.attrs := by
  have hitem := congrArg (Option.map Attribute.value) (h.item_eq hname false)
  simpa [value?, Function.comp_def] using hitem

theorem filledValue?_eq (h : KeepsOthers E t u) {name : Text}
    (hname : (NameForm.exactly (Text.lower name)).IsOther E) :
    filledValue? name u.attrs = filledValue? name t.attrs := by
  have hitem := congrArg (Option.map Attribute.value) (h.item_eq hname true)
  simpa [filledValue?, Function.comp_def] using hitem

theorem has_eq (h : KeepsOthers E t u) {name : Text}
    (hname : (NameForm.exactly (Text.lower name)).IsOther E) : u.has name = t.has name := by
  rw [Tag.has, Tag.has, Attribute.has, Attribute.has, h.value?_eq hname]

end KeepsOthers
end Tag

namespace Fix

open Tag

/-! ## The passes -/

/-- The tag can be fixed without side effects: its attribute text ends with no open value, and its
redundant role, if it has one, stands apart. -/
def isTidy (t : Tag) : Bool :=
  !endsOpen t.attrs &&
    ((removeRedundantRole? t).isNone || (find? "role" true t.attrs).all standsApart)

theorem exists_role_of_removeRedundantRole? {t : Tag} {e : Edit}
    (h : removeRedundantRole? t = some e) :
    ∃ native, Role.implicit? t.name t.attrs = some native ∧ t.role? = some native ∧
      e.tag = { t with attrs := withoutRole t.attrs } := by
  unfold removeRedundantRole? at h
  split at h
  · exact absurd h (by simp)
  · next native hnative =>
    split at h
    · next hrole =>
      obtain rfl := Option.some.inj h
      exact ⟨native, hnative, hrole, rfl⟩
    · exact absurd h (by simp)

/-- The place of a redundant role, whose value is a plain word. -/
theorem exists_found_of_redundant {t : Tag} {native : Text}
    (hnative : Role.implicit? t.name t.attrs = some native) (hrole : t.role? = some native) :
    ∃ f, find? "role" true t.attrs = some f ∧ '=' ∉ f.item.value := by
  obtain ⟨value, hvalue, hlower⟩ := exists_filledValue?_of_role? hrole
  obtain ⟨f, hf, rfl⟩ := Option.map_eq_some_iff.1 hvalue
  refine ⟨f, hf, fun hmem => ?_⟩
  have hall : ∀ role ∈ Role.implicitRoles, '=' ∉ role := by decide
  refine hall native (Role.implicit?_mem hnative) ?_
  rw [hlower]
  exact Text.mem_lower_of_equals (Text.mem_trim hmem (by decide))

section Removal

variable {t : Tag} {e : Edit} (h : removeRedundantRole? t = some e) (htidy : isTidy t = true)

include h htidy

/-- The redundant role of a tidy tag can be cut out. -/
theorem exists_isRoleCut_of_isTidy :
    ∃ x w r z m, IsRoleCut t.attrs x w r z m ∧ endsOpen t.attrs = false ∧
      e.tag = { t with attrs := withoutRole t.attrs } := by
  obtain ⟨native, hnative, hrole, htag⟩ := exists_role_of_removeRedundantRole? h
  obtain ⟨f, hf, hvalue⟩ := exists_found_of_redundant hnative hrole
  simp only [isTidy, h, hf, Bool.and_eq_true, Bool.not_eq_true', Option.isNone_some,
    Bool.false_or, Option.all_some] at htidy
  obtain ⟨x, w, r, z, hcut⟩ := exists_isRoleCut hf hvalue htidy.2
  exact ⟨x, w, r, z, f.item, hcut, htidy.1, htag⟩

theorem keepsOthers_removeRedundantRole : KeepsOthers ["role"] t e.tag := by
  obtain ⟨x, w, r, z, m, hcut, -, htag⟩ := exists_isRoleCut_of_isTidy h htidy
  rw [htag]
  refine ⟨rfl, fun forms hforms keep pre before hpre => ?_⟩
  exact first?_withoutRole (fun form hform => (hforms form hform).proper) keep hpre before
    (fun form hform => (hforms form hform).avoids "role" (by simp)) hcut

theorem endsOpen_removeRedundantRole : endsOpen e.tag.attrs = false := by
  obtain ⟨x, w, r, z, m, hcut, hopen, htag⟩ := exists_isRoleCut_of_isTidy h htidy
  rw [htag]
  exact endsOpen_withoutRole hcut hopen

end Removal

/-- The name of a tag ends where it ended when a role is taken out that stands apart. -/
theorem readName?_withoutRole {name attrs rest x w r z : Text} {m : Attribute}
    (hread : readName? (name ++ (attrs ++ '>' :: rest)) = some (name, attrs ++ '>' :: rest))
    (hcut : IsRoleCut attrs x w r z m) (rest' : Text) :
    readName? (name ++ (withoutRole attrs ++ '>' :: rest')) =
      some (name, withoutRole attrs ++ '>' :: rest') := by
  rw [hcut.without]
  rw [hcut.split] at hread
  -- either way the cuts of the name are settled by `x`
  have hcuts : readName? ((name ++ x) ++ (w ++ (r ++ z) ++ '>' :: rest)) =
        (readName? (name ++ x)).map (extendCut (w ++ (r ++ z) ++ '>' :: rest)) ∧
      readName? ((name ++ x) ++ (z ++ '>' :: rest')) =
        (readName? (name ++ x)).map (extendCut (z ++ '>' :: rest')) := by
    rcases hcut.apart with happart | ⟨hne, hanew⟩
    · have hmem : ∃ c ∈ name ++ x, isNameChar c = false := by
        rcases List.eq_nil_or_concat x with rfl | ⟨i, c, rfl⟩
        · exact absurd happart (by decide)
        · refine ⟨c, by simp, ?_⟩
          rw [List.concat_eq_append, endsApart, List.getLast?_concat, Option.any_some,
            Bool.or_eq_true, beq_iff_eq] at happart
          rcases happart with hquote | rfl
          · rcases eq_of_isQuote hquote with rfl | rfl
            · decide
            · decide
          · decide
      exact ⟨readName?_append_of_mem hmem _, readName?_append_of_mem hmem _⟩
    · obtain ⟨c, w, rfl⟩ := List.exists_cons_of_ne_nil hne
      refine ⟨readName?_append_of_delimits _ ?_, readName?_append_of_delimits _ ?_⟩
      · exact delimits_cons (delimitsName_of_isBlank (hcut.blank c List.mem_cons_self))
      · cases z with
        | nil => exact delimits_cons delimitsName_close
        | cons d z =>
          rw [opensAnew, Bool.and_eq_true] at hanew
          have hd : isBlank d = true ∨ d = '/' := by simpa using hanew.1
          rcases hd with hd | rfl
          · exact delimits_cons (delimitsName_of_isBlank hd)
          · exact delimits_cons delimitsName_slash
  have hold : (name ++ x) ++ (w ++ (r ++ z) ++ '>' :: rest) =
      name ++ (x ++ (w ++ (r ++ z)) ++ '>' :: rest) := by simp
  have hnew : name ++ (x ++ z ++ '>' :: rest') = (name ++ x) ++ (z ++ '>' :: rest') := by simp
  rw [hold, hread] at hcuts
  obtain ⟨⟨n, y⟩, hn, heq⟩ := Option.map_eq_some_iff.1 hcuts.1.symm
  obtain ⟨rfl, hy⟩ := Prod.mk.inj heq
  have hyx : y = x := by
    have hy' : y ++ (w ++ (r ++ z) ++ '>' :: rest) = x ++ (w ++ (r ++ z) ++ '>' :: rest) := by
      rw [show y ++ _ = _ from hy]
      simp
    exact List.append_cancel_right hy'
  rw [hnew, hcuts.2, hn, hyx]
  simp [extendCut]

/-- A tidy tag without its redundant role is read as a whole. -/
theorem replaces_removeRedundantRole {s rest : Text} {t : Tag} {e : Edit}
    (hread : read? s = some (t, rest)) (h : removeRedundantRole? t = some e)
    (htidy : isTidy t = true) : Replaces t e.tag := by
  obtain ⟨hclose, u, rfl, hname⟩ := read?_eq_some_iff.1 hread
  have hraw : '>' ∉ t.rawName := not_mem_of_readName? hname delimitsName_close
  refine ⟨standsFor_removeRedundantRole hraw hclose h, fun rest' => ?_⟩
  obtain ⟨x, w, r, z, m, hcut, -, htag⟩ := exists_isRoleCut_of_isTidy h htidy
  rw [← append_of_readName? hname] at hname
  rw [htag]
  refine read?_eq_some_iff.2 ⟨fun hmem => hclose (mem_of_mem_withoutRole hmem),
    t.rawName ++ (withoutRole t.attrs ++ '>' :: rest'), by simp [source], ?_⟩
  exact readName?_withoutRole hname hcut rest'

section Addition

variable {ds : List (Text × Text)} (hds : ∀ d ∈ ds, IsPlainPair d) {t u : Tag}
  (hext : Extends (ds.flatMap fun d => written d.1 d.2) t u) (hclosed : endsOpen t.attrs = false)

include hds hext hclosed

theorem keepsOthers_of_extends : KeepsOthers (ds.map Prod.fst) t u := by
  obtain ⟨hraw, x, y, hx, hu, htail, -⟩ := hext
  rw [hx, endsOpen_append_of_isUnquoted _ (isUnquoted_of_isTail htail)] at hclosed
  refine ⟨hraw, fun forms hforms keep pre before hpre => ?_⟩
  rw [hx, hu]
  exact first?_extended (fun form hform => (hforms form hform).proper) keep hpre before hds
    (fun form hform d hd => (hforms form hform).avoids d.1 (List.mem_map_of_mem hd)) htail hclosed

theorem endsOpen_of_extends : endsOpen u.attrs = false := by
  obtain ⟨-, x, y, hx, hu, htail, -⟩ := hext
  rw [hx, endsOpen_append_of_isUnquoted _ (isUnquoted_of_isTail htail)] at hclosed
  rw [hu]
  exact endsOpen_extended hds htail hclosed

end Addition

/-! ## A default run -/

/-- The names of the attributes that fixes edit. -/
def editedNames : List Text :=
  ["role", "aria-checked", "aria-valuemin", "aria-valuemax", "aria-valuenow"]

/-- The attributes that a run with the default options may add. -/
def addedPairs : List (Text × Text) :=
  (("aria-checked" : Text), Options.default.checked) ::
    (rangeDefaults .default ++ [(("role" : Text), ("tablist" : Text))])

theorem isPlainPair_of_mem_addedPairs : ∀ d ∈ addedPairs, IsPlainPair d := by decide

/-- The second tag is the first one with some of these attributes. -/
def Gains (t u : Tag) : Prop :=
  ∃ ds ⊆ addedPairs, Extends (ds.flatMap fun d => written d.1 d.2) t u

theorem Gains.refl (t : Tag) : Gains t t :=
  ⟨[], by simp, extends_nil t⟩

theorem gains_addChecked (t : Tag) : Gains t (edited (addChecked? Options.default.checked) t) := by
  cases h : addChecked? Options.default.checked t with
  | none =>
    rw [edited_of_none h]
    exact Gains.refl t
  | some e =>
    obtain ⟨add, rfl, hext⟩ := adds_addChecked _ t e h
    rw [edited_of_some h]
    exact ⟨[(("aria-checked" : Text), Options.default.checked)], by decide, by simpa using hext⟩

theorem gains_addValueRange (t : Tag) :
    Gains t (edited (addValueRange? (rangeDefaults .default)) t) := by
  cases h : addValueRange? (rangeDefaults .default) t with
  | none =>
    rw [edited_of_none h]
    exact Gains.refl t
  | some e =>
    obtain ⟨add, ⟨ds, -, hsub, rfl⟩, hext⟩ := adds_addValueRange _ t e h
    rw [edited_of_some h]
    exact ⟨ds, fun d hd => List.mem_cons_of_mem _ (List.mem_append_left _ (hsub hd)), hext⟩

theorem gains_tablist {t u : Tag} (h : Extends tablistRole t u) : Gains t u := by
  exact ⟨[(("role" : Text), ("tablist" : Text))], by decide, by simpa [tablistRole] using h⟩

theorem Gains.keepsOthers {t u : Tag} (h : Gains t u) (hclosed : endsOpen t.attrs = false) :
    KeepsOthers editedNames t u := by
  obtain ⟨ds, hsub, hext⟩ := h
  have hplain : ∀ d ∈ ds, IsPlainPair d := fun d hd => isPlainPair_of_mem_addedPairs d (hsub hd)
  refine (keepsOthers_of_extends hplain hext hclosed).mono ?_
  have hedited : addedPairs.map Prod.fst ⊆ editedNames := by decide
  exact List.Subset.trans (List.map_subset Prod.fst hsub) hedited

theorem Gains.endsOpen {t u : Tag} (h : Gains t u) (hclosed : endsOpen t.attrs = false) :
    endsOpen u.attrs = false := by
  obtain ⟨ds, hsub, hext⟩ := h
  exact endsOpen_of_extends (fun d hd => isPlainPair_of_mem_addedPairs d (hsub hd)) hext hclosed

/-- A tag after all passes but the last one. -/
def prepared (t : Tag) : Tag :=
  edited (addValueRange? (rangeDefaults .default))
    (edited (addChecked? Options.default.checked) (edited removeRedundantRole? t))

/-- What a tag becomes: the prepared tag, or that tag as a tablist. -/
def Becomes (t u : Tag) : Prop := u = prepared t ∨ Extends tablistRole (prepared t) u

/-- All passes but the first one only add attributes. -/
theorem exists_gains_of_becomes {t u : Tag} (h : Becomes t u) :
    ∃ v w, Gains (edited removeRedundantRole? t) v ∧ Gains v w ∧ Gains w u := by
  refine ⟨_, prepared t, gains_addChecked _, gains_addValueRange _, ?_⟩
  rcases h with rfl | hext
  · exact Gains.refl _
  · exact gains_tablist hext

theorem keepsOthers_edited {t : Tag} (htidy : isTidy t = true) :
    KeepsOthers ["role"] t (edited removeRedundantRole? t) ∧
      endsOpen (edited removeRedundantRole? t).attrs = false := by
  cases h : removeRedundantRole? t with
  | none =>
    rw [edited_of_none h]
    simp only [isTidy, Bool.and_eq_true, Bool.not_eq_true'] at htidy
    exact ⟨KeepsOthers.refl t, htidy.1⟩
  | some e =>
    rw [edited_of_some h]
    exact ⟨keepsOthers_removeRedundantRole h htidy, endsOpen_removeRedundantRole h htidy⟩

/-- A tidy tag keeps its name and its other attributes. -/
theorem keepsOthers_of_becomes {t u : Tag} (htidy : isTidy t = true) (h : Becomes t u) :
    KeepsOthers editedNames t u := by
  obtain ⟨v, w, hv, hw, hu⟩ := exists_gains_of_becomes h
  obtain ⟨hrole, hclosed⟩ := keepsOthers_edited htidy
  have hclosed' := hv.endsOpen hclosed
  exact (((hrole.mono (by decide)).trans (hv.keepsOthers hclosed)).trans
    (hw.keepsOthers hclosed')).trans (hu.keepsOthers (hw.endsOpen hclosed'))

section Pieces

variable {s : Text}
  (hs : ∀ t ∈ all s, (removeRedundantRole? t).isSome = true → isTidy t = true)

include hs in
theorem pieces_withoutRedundantRoles :
    pieces (withoutRedundantRoles s) = (pieces s).map (editPiece removeRedundantRole?) := by
  rw [withoutRedundantRoles, text_editTags]
  refine pieces_textOf_of_replaces (t := s) ?_
  rw [List.forall₂_map_right_iff, List.forall₂_same]
  intro p hp
  cases p with
  | char c => exact .char c
  | item t =>
    obtain ⟨u, rest, hread⟩ := exists_read?_of_mem_pieces hp
    cases h : removeRedundantRole? t with
    | none =>
      rw [editPiece, edited_of_none h]
      exact .item (Replaces.refl hread)
    | some e =>
      rw [editPiece, edited_of_some h]
      exact .item (replaces_removeRedundantRole hread h
        (hs t (mem_all_iff.2 hp) (by rw [h]; rfl)))

include hs in
/-- **The tags of the fixed text** are the tags of the snippet, each with its edits. -/
theorem pieces_apply_default :
    List.Forall₂ (Piecewise Becomes) (pieces s) (pieces (apply .default s).text) := by
  obtain ⟨ps, hps, htext⟩ := exists_extended_addTablists false (withRanges s)
  rw [text_apply_default, htext, pieces_textOf_of_extended isAddition_tablistRole hps]
  have hranges : pieces (withRanges s) = (pieces s).map fun p =>
      editPiece (addValueRange? (rangeDefaults .default))
        (editPiece (addChecked? Options.default.checked) (editPiece removeRedundantRole? p)) := by
    have hcloses : Options.default.ClosesNothing := by decide
    rw [withRanges, pieces_editTags (isAddition_range hcloses) (adds_addValueRange _), withChecked,
      pieces_editTags (isAddition_checked hcloses) (adds_addChecked _),
      pieces_withoutRedundantRoles hs, List.map_map, List.map_map]
    rfl
  rw [hranges, List.forall₂_map_left_iff] at hps
  refine hps.imp fun p q hpq => ?_
  cases p with
  | char c =>
    cases hpq
    exact .char c
  | item t =>
    cases hpq with
    | kept => exact .item (Or.inl rfl)
    | added hadd hext =>
      obtain rfl := hadd
      exact .item (Or.inr hext)

end Pieces

/-- The name is a proper name of an attribute that no fix edits, in any case. -/
def IsUnrelated (name : Text) : Prop :=
  (NameForm.exactly (Text.lower name)).IsProper ∧ (Text.lower name).map fold ∉ editedNames

instance (name : Text) : Decidable (IsUnrelated name) := inferInstanceAs (Decidable (_ ∧ _))

theorem IsUnrelated.isOther {name : Text} (h : IsUnrelated name) :
    (NameForm.exactly (Text.lower name)).IsOther editedNames where
  proper := h.1
  avoids other hother := by
    have hall : ∀ n ∈ editedNames, n.map fold = n := by decide
    refine avoids_exactly fun heq => h.2 ?_
    rw [heq, hall other hother]
    exact hother

/-- Names that are unrelated and in lower case, as the forms of a reader. -/
theorem isOther_of_mem_map {names : List Text}
    (h : ∀ name ∈ names, IsUnrelated name ∧ Text.lower name = name) :
    ∀ form ∈ names.map NameForm.exactly, form.IsOther editedNames := by
  intro form hform
  obtain ⟨name, hname, rfl⟩ := List.mem_map.1 hform
  obtain ⟨hunrelated, hlower⟩ := h name hname
  have hother := hunrelated.isOther
  rwa [hlower] at hother

/-- The implicit role stays with the unrelated attributes. -/
theorem implicit?_of_keepsOthers {t u : Tag} (h : KeepsOthers editedNames t u) :
    Role.implicit? u.name u.attrs = Role.implicit? t.name t.attrs := by
  have hname : u.name = t.name := congrArg Text.lower h.rawName
  have hhref : hasFilled "href" u.attrs = hasFilled "href" t.attrs := by
    rw [hasFilled, hasFilled, h.filledValue?_eq (IsUnrelated.isOther (by decide))]
  have htype : filledValue? "type" u.attrs = filledValue? "type" t.attrs :=
    h.filledValue?_eq (IsUnrelated.isOther (by decide))
  rw [Role.implicit?, Role.implicit?, hname, hhref, htype]

/-- The second tag has the name of the first one and the same unrelated attributes. -/
def SameOthers (t u : Tag) : Prop :=
  u.rawName = t.rawName ∧ ∀ name, IsUnrelated name → value? name u.attrs = value? name t.attrs

/-- The run edits tidy tags only: the tags that have a redundant role are tidy, and so is every tag
that comes out as another one.  Of the other tags nothing is asked. -/
def EditsTidily (s : Text) : Prop :=
  (∀ t ∈ all s, (removeRedundantRole? t).isSome = true → isTidy t = true) ∧
    ∀ p ∈ (all s).zip (all (apply .default s).text), p.2 ≠ p.1 → isTidy p.1 = true

instance (s : Text) : Decidable (EditsTidily s) := inferInstanceAs (Decidable (_ ∧ _))

/-- A tag that is not edited is the same tag, and an edited one has become what it is from a tidy
one. -/
theorem pieces_apply_of_editsTidily {s : Text} (hs : EditsTidily s) :
    List.Forall₂ (Piecewise fun t u => u = t ∨ isTidy t = true ∧ Becomes t u) (pieces s)
      (pieces (apply .default s).text) := by
  refine Piecewise.forall₂_of_zip (pieces_apply_default hs.1) fun p hp hbecomes => ?_
  rcases eq_or_ne p.2 p.1 with heq | hne
  · exact Or.inl heq
  · exact Or.inr ⟨hs.2 p hp hne, hbecomes⟩

/-- **Fixes leave names and unrelated attributes alone** where the tags that they edit are tidy: each
tag of the snippet has become one tag of the same name, and every attribute that no fix is about has
the value that it had, or is missing as before. -/
theorem others_apply_default (s : Text) (hs : EditsTidily s) :
    List.Forall₂ (Piecewise SameOthers) (pieces s) (pieces (apply .default s).text) := by
  refine Piecewise.forall₂_imp (pieces_apply_of_editsTidily hs) fun t _ u hedit => ?_
  rcases hedit with rfl | ⟨htidy, hbecomes⟩
  · exact ⟨rfl, fun _ _ => rfl⟩
  · have hkeeps := keepsOthers_of_becomes htidy hbecomes
    exact ⟨hkeeps.rawName, fun name hname => hkeeps.value?_eq hname.isOther⟩

/-- A list item without its redundant role, next to a link that is left alone and not tidy. -/
theorem others_apply_listitem :
    EditsTidily "<li role=\"listitem\" id=\"a\"><a href=\"/?q=\">x</a>" ∧
      (apply .default "<li role=\"listitem\" id=\"a\"><a href=\"/?q=\">x</a>").text =
        "<li id=\"a\"><a href=\"/?q=\">x</a>" ∧
      isTidy ⟨"a", " href=\"/?q=\""⟩ = false ∧
      List.Forall₂ (Piecewise SameOthers)
        (pieces "<li role=\"listitem\" id=\"a\"><a href=\"/?q=\">x</a>")
        (pieces (apply .default "<li role=\"listitem\" id=\"a\"><a href=\"/?q=\">x</a>").text) :=
  ⟨by decide +kernel, by decide +kernel, by decide +kernel,
    others_apply_default _ (by decide +kernel)⟩

/-- The name of a tag runs into the attribute behind a role that stood in between. -/
theorem pieces_apply_gluedRole :
    ¬ List.Forall₂ (Piecewise SameOthers) (pieces "<li role=\"listitem\"id=\"a\">")
      (pieces (apply .default "<li role=\"listitem\"id=\"a\">").text) := by
  have hold : pieces "<li role=\"listitem\"id=\"a\">" =
      [.item ⟨"li", " role=\"listitem\"id=\"a\""⟩] := by decide +kernel
  have hnew : pieces (apply .default "<li role=\"listitem\"id=\"a\">").text =
      [.item ⟨"liid", "=\"a\""⟩] := by decide +kernel
  rw [hold, hnew]
  intro h
  cases h with
  | cons hpq _ =>
    cases hpq with
    | item hsame => exact absurd hsame.1 (by decide)

end Fix
end AriaLint
