import AriaLint.Fix.Apply
import AriaLint.Proofs.Document.Tablists
import AriaLint.Proofs.Fix.Containers
import AriaLint.Proofs.Quotes.Detection

/-!
# Fixes do not depend on the kind of quotes

The passes write double quotes of their own, so the texts of two runs, one of them on single quotes,
are not equal.  They agree but for quotes (`Result.SameButQuotes`), and this is carried from one pass
to the next: a pass that ignores quotes does the same to both texts as to the text with single quotes
only (`Result.SameButQuotes.andThenIf`).

That a pass ignores quotes is shown by what it reads.  The passes over single tags decide by roles and
attributes.  The passes over containers also look for tabs and closing tags; in a container up to its
own closing tag these are positions, which the exchange does not move.
-/

namespace AriaLint

open Attribute (isQuote IsQuoteless)

namespace Fix

/-! ## Results -/

/-- The edit with the quotes of its tag exchanged. -/
def Edit.singleQuoted (e : Edit) : Edit := { e with tag := e.tag.singleQuoted }

/-- The results have one log, and texts that agree but for quotes. -/
structure Result.SameButQuotes (r r' : Result) : Prop where
  changes : r.changes = r'.changes
  text : r.text.singleQuoted = r'.text.singleQuoted

/-- The pass comes to the same with single quotes for double ones. -/
def IgnoresQuotes (pass : Text → Result) : Prop :=
  ∀ t, (pass t.singleQuoted).SameButQuotes (pass t)

namespace Result.SameButQuotes

variable {r r' r'' : Result}

theorem symm (h : r.SameButQuotes r') : r'.SameButQuotes r := ⟨h.changes.symm, h.text.symm⟩

theorem trans (h : r.SameButQuotes r') (h' : r'.SameButQuotes r'') : r.SameButQuotes r'' :=
  ⟨h.changes.trans h'.changes, h.text.trans h'.text⟩

/-- **A further pass keeps the agreement**, because it comes to the same on both texts as on the one
with single quotes only. -/
theorem andThenIf (h : r.SameButQuotes r') {pass : Text → Result} (hpass : IgnoresQuotes pass)
    (wanted : Bool) : (r.andThenIf wanted pass).SameButQuotes (r'.andThenIf wanted pass) := by
  cases wanted with
  | false => exact h
  | true =>
    have hright : (pass r.text.singleQuoted).SameButQuotes (pass r'.text) := by
      rw [h.text]
      exact hpass r'.text
    have hpasses := (hpass r.text).symm.trans hright
    refine ⟨?_, hpasses.text⟩
    show r.changes ++ (pass r.text).changes = r'.changes ++ (pass r'.text).changes
    rw [h.changes, hpasses.changes]

end Result.SameButQuotes

/-! ## Passes over single tags -/

/-- Tags that take the place of others agree when their edits do. -/
theorem singleQuoted_getD {e e' : Option Edit}
    (h : e.map Edit.singleQuoted = e'.map Edit.singleQuoted) {t t' : Tag}
    (ht : t.singleQuoted = t'.singleQuoted) :
    ((e.map Edit.tag).getD t).singleQuoted = ((e'.map Edit.tag).getD t').singleQuoted := by
  cases e with
  | none =>
    cases e' with
    | none => exact ht
    | some f' => exact absurd h (by simp)
  | some f =>
    cases e' with
    | none => exact absurd h (by simp)
    | some f' => exact congrArg Edit.tag (Option.some.inj h)

theorem map_change_singleQuoted (e : Option Edit) :
    (e.map Edit.singleQuoted).map Edit.change = e.map Edit.change := by
  cases e <;> rfl

/-- A pass over single tags ignores quotes when its edits do. -/
theorem ignoresQuotes_editTags {edit? : Tag → Option Edit}
    (h : ∀ t : Tag, (edit? t.singleQuoted).map Edit.singleQuoted =
      (edit? t).map Edit.singleQuoted) : IgnoresQuotes (editTags edit?) := by
  refine fun t => ⟨?_, ?_⟩
  · show (Tag.all t.singleQuoted).filterMap _ = (Tag.all t).filterMap _
    rw [Tag.all_singleQuoted, List.filterMap_map]
    refine List.filterMap_congr fun tag _ => ?_
    show (edit? tag.singleQuoted).map Edit.change = (edit? tag).map Edit.change
    rw [← map_change_singleQuoted, h, map_change_singleQuoted]
  · refine Tag.ignoresQuotes_reader.rewrite_eq
      (fun tag => ?_) t
    exact Tag.source_congr (singleQuoted_getD (h tag) tag.singleQuoted_singleQuoted)

/-- Attributes are appended at the same place. -/
theorem appendAttributes_singleQuoted (t : Tag) (add : Text) :
    (appendAttributes t.singleQuoted add).singleQuoted = (appendAttributes t add).singleQuoted := by
  have hdrop : ∀ u : Text, u.singleQuoted.dropLast = Text.singleQuoted u.dropLast :=
    fun u => List.map_dropLast.symm
  unfold appendAttributes
  rw [Tag.isSelfClosing_singleQuoted]
  cases t.isSelfClosing <;>
    simp [Tag.singleQuoted, hdrop]

theorem withoutRole_singleQuoted (attrs : Text) :
    withoutRole attrs.singleQuoted = (withoutRole attrs).singleQuoted := by
  rw [withoutRole, withoutRole, Attribute.find?_singleQuoted (by decide)]
  cases Attribute.find? "role" true attrs with
  | none => rfl
  | some f => simp [Found.singleQuoted]

theorem removeRedundantRole?_singleQuoted (t : Tag) :
    (removeRedundantRole? t.singleQuoted).map Edit.singleQuoted =
      (removeRedundantRole? t).map Edit.singleQuoted := by
  rw [removeRedundantRole?, removeRedundantRole?, Tag.name_singleQuoted, Tag.attrs_singleQuoted,
    Role.implicit?_singleQuoted, Tag.role?_singleQuoted]
  cases Role.implicit? t.name t.attrs with
  | none => rfl
  | some native =>
    dsimp only
    split
    · simp [Edit.singleQuoted, Tag.singleQuoted, withoutRole_singleQuoted]
    · rfl

theorem addChecked?_singleQuoted (value : Text) (t : Tag) :
    (addChecked? value t.singleQuoted).map Edit.singleQuoted =
      (addChecked? value t).map Edit.singleQuoted := by
  rw [addChecked?, addChecked?, Tag.role?_singleQuoted, Tag.has_singleQuoted (by decide)]
  cases t.role? with
  | none => rfl
  | some role =>
    dsimp only
    split
    · rfl
    · simp [Edit.singleQuoted, appendAttributes_singleQuoted]

theorem addValueRange?_singleQuoted {defaults : List (Text × Text)}
    (h : ∀ d ∈ defaults, IsQuoteless (Text.lower d.1)) (t : Tag) :
    (addValueRange? defaults t.singleQuoted).map Edit.singleQuoted =
      (addValueRange? defaults t).map Edit.singleQuoted := by
  have hmissing : defaults.filter (fun d => !t.singleQuoted.has d.1) =
      defaults.filter fun d => !t.has d.1 :=
    List.filter_congr fun d hd => by rw [Tag.has_singleQuoted (h d hd)]
  rw [addValueRange?, addValueRange?, Tag.role?_singleQuoted, hmissing]
  cases t.role? with
  | none => rfl
  | some role =>
    dsimp only
    split
    · rfl
    · simp [Edit.singleQuoted, appendAttributes_singleQuoted]

theorem isQuoteless_rangeDefaults (o : Options) :
    ∀ d ∈ rangeDefaults o, IsQuoteless (Text.lower d.1) := by
  have hnames : ∀ name ∈ Role.valueRange, IsQuoteless (Text.lower name) := by decide
  exact fun d hd => hnames d.1 (List.of_mem_zip hd).1

/-! ## Containers up to the first closing tag -/

theorem addTablist_singleQuoted (t : Tag) :
    (addTablist t.singleQuoted).singleQuoted = (addTablist t).singleQuoted := by
  simp [addTablist, Edit.singleQuoted, appendAttributes_singleQuoted]

theorem ignoresQuotes_tabRole : tabRole.IgnoresQuotes id :=
  (Attribute.ignoresQuotes_reader fun form hform => by
    rw [List.mem_singleton.1 hform]
    exact isQuoteless_role).filter fun _ => rfl

namespace Container

/-- The container with its quotes exchanged. -/
def singleQuoted (c : Container) : Container := ⟨c.tag.singleQuoted, c.content.singleQuoted⟩

theorem afterTabs?_singleQuoted {name : Text} (h : ∀ c ∈ name, Tag.isNameChar c = true) (t : Text) :
    afterTabs? name t.singleQuoted = (afterTabs? name t).map Text.singleQuoted := by
  have hclose : (Closing.reader sameSmall name).IgnoresQuotes id :=
    Closing.ignoresQuotes_reader fun w hw c hc =>
      Closing.sameSmall_eq_false (h w hw) (Attribute.fold_of_isQuote hc)
        (Tag.isNameChar_of_isQuote hc)
  show (tabRole.find? ((some '>').map singleQuote) t.singleQuoted).bind _ =
    ((tabRole.find? (some '>') t).bind _).map _
  rw [ignoresQuotes_tabRole.find?_eq]
  cases tabRole.find? (some '>') t with
  | none => rfl
  | some tab =>
    show ((Closing.reader sameSmall name).find? (none.map singleQuote)
        tab.after.singleQuoted).bind _ =
      (((Closing.reader sameSmall name).find? none tab.after).bind _).map _
    rw [hclose.find?_eq]
    cases (Closing.reader sameSmall name).find? none tab.after with
    | none => rfl
    | some close => rfl

/-- **Containers are read with the same names**, and with their quotes exchanged. -/
theorem ignoresQuotes_reader : reader.IgnoresQuotes singleQuoted := by
  intro before t
  show read? t.singleQuoted = (read? t).map _
  cases t with
  | nil => rfl
  | cons c u =>
    by_cases hc : c = '<'
    · subst hc
      show (Tag.nameCuts (Text.singleQuoted u)).findSome? _ = ((Tag.nameCuts u).findSome? _).map _
      rw [Tag.nameCuts_singleQuoted, List.findSome?_map]
      refine Attribute.findSome?_eq_map fun cut hcut => ?_
      obtain ⟨name, v⟩ := cut
      show (Text.upTo? '>' v.singleQuoted).bind _ = ((Text.upTo? '>' v).bind _).map _
      rw [Text.upTo?_singleQuoted (by decide)]
      cases Text.upTo? '>' v with
      | none => rfl
      | some r =>
        obtain ⟨attrs, w⟩ := r
        show (afterTabs? name w.singleQuoted).bind _ = ((afterTabs? name w).bind _).map _
        rw [afterTabs?_singleQuoted fun c hc => Tag.isNameChar_of_mem_nameCuts hcut hc]
        cases afterTabs? name w with
        | none => rfl
        | some rest =>
          simp [singleQuoted, Tag.singleQuoted, Text.take_singleQuoted]
    · have hc' : singleQuote c ≠ '<' := fun heq => hc ((singleQuote_eq_iff (by decide)).1 heq)
      rw [read?_cons_of_ne hc, Text.singleQuoted_cons, read?_cons_of_ne hc']
      rfl

theorem edit?_singleQuoted (c : Container) :
    c.singleQuoted.edit?.map Edit.singleQuoted = c.edit?.map Edit.singleQuoted := by
  have hhas : c.singleQuoted.tag.has "role" = c.tag.has "role" := Tag.has_singleQuoted (by decide) _
  rw [edit?, edit?, hhas]
  split
  · rfl
  · exact congrArg some (addTablist_singleQuoted c.tag)

end Container

theorem ignoresQuotes_addTablistsByFirstClose : IgnoresQuotes addTablistsByFirstClose := by
  refine fun t => ⟨?_, ?_⟩
  · show (Container.reader.items t.singleQuoted).filterMap _ =
      (Container.reader.items t).filterMap _
    rw [Container.ignoresQuotes_reader.items_eq, List.filterMap_map]
    refine List.filterMap_congr fun c _ => ?_
    show c.singleQuoted.edit?.map Edit.change = c.edit?.map Edit.change
    rw [← map_change_singleQuoted, c.edit?_singleQuoted, map_change_singleQuoted]
  · refine Container.ignoresQuotes_reader.rewrite_eq (fun c => ?_) t
    have hsource := Tag.source_congr
      (singleQuoted_getD c.edit?_singleQuoted c.tag.singleQuoted_singleQuoted)
    show Text.singleQuoted (_ ++ c.content.singleQuoted) = Text.singleQuoted (_ ++ c.content)
    rw [Text.singleQuoted_append, Text.singleQuoted_append, Text.singleQuoted_singleQuoted]
    exact congrArg (· ++ c.content.singleQuoted) hsource

/-! ## Containers up to their own closing tag -/

/-- The names of the tags hold no quotes, as they stand and in lower case. -/
def HasPlainNames (ps : List (Piece Tag)) : Prop :=
  ∀ t, .item t ∈ ps → Text.singleQuoted t.rawName = t.rawName ∧ IsQuoteless t.name

theorem hasPlainNames_pieces (t : Text) : HasPlainNames (Tag.pieces t) := by
  intro tag htag
  have hname := Tag.isNameChar_of_mem_pieces htag
  refine ⟨Text.singleQuoted_of_isUnquoted fun c hc => Tag.isQuote_of_isNameChar (hname c hc),
    fun w hw => ?_⟩
  rcases Tag.isNameChar_or_dot_of_mem_name hname w hw with hchar | rfl
  · exact Tag.forall_isNameChar (P := fun c => isQuote (fold c) = false) (by decide +kernel)
      (by decide +kernel) hchar
  · decide +kernel

/-- The pieces with their quotes exchanged. -/
def singleQuotedPieces (ps : List (Piece Tag)) : List (Piece Tag) :=
  ps.map (Piece.singleQuoted Tag.singleQuoted)

theorem singleQuotedPieces_cons_congr {p q : Piece Tag} {ps qs : List (Piece Tag)}
    (h : p.singleQuoted Tag.singleQuoted = q.singleQuoted Tag.singleQuoted)
    (hs : singleQuotedPieces ps = singleQuotedPieces qs) :
    singleQuotedPieces (p :: ps) = singleQuotedPieces (q :: qs) := by
  show p.singleQuoted Tag.singleQuoted :: singleQuotedPieces ps =
    q.singleQuoted Tag.singleQuoted :: singleQuotedPieces qs
  rw [h, hs]

theorem textOf_singleQuotedPieces {ps : List (Piece Tag)} (h : HasPlainNames ps) :
    Tag.textOf (singleQuotedPieces ps) = (Tag.textOf ps).singleQuoted := by
  induction ps with
  | nil => rfl
  | cons p ps ih =>
    have hrest := ih fun t ht => h t (List.mem_cons_of_mem p ht)
    cases p with
    | char c => exact congrArg (singleQuote c :: ·) hrest
    | item t =>
      have hraw := (h t List.mem_cons_self).1
      show t.singleQuoted.source ++ Tag.textOf (singleQuotedPieces ps) = _
      rw [hrest, Tag.textOf_item, Text.singleQuoted_append]
      refine congrArg (· ++ _) ?_
      simp only [Tag.source, Tag.rawName_singleQuoted, Tag.attrs_singleQuoted, List.cons_append,
        Text.singleQuoted_cons, Text.singleQuoted_append, hraw]
      rfl

theorem closeAroundTabs?_singleQuoted {tag : Tag} (h : IsQuoteless tag.name) (t : Text) :
    closeAroundTabs? tag.singleQuoted t.singleQuoted = closeAroundTabs? tag t := by
  have htab : ∀ u : Text,
      (tabRole.find? none u.singleQuoted).isSome = (tabRole.find? none u).isSome := fun u => by
    rw [← Option.map_none (f := singleQuote), ignoresQuotes_tabRole.find?_eq, Option.isSome_map]
    rfl
  simp only [closeAroundTabs?, Tag.isSelfClosing_singleQuoted, Tag.name_singleQuoted,
    Closing.matching?_singleQuoted h, Text.take_singleQuoted, htab]

/-- **The walk over the pieces of a text is the same**: it makes the same tags tablists, and goes on
at the same places. -/
theorem tablistPieces_singleQuoted {ps : List (Piece Tag)} (h : HasPlainNames ps) (skip : Nat) :
    singleQuotedPieces (tablistPieces skip (singleQuotedPieces ps)).1 =
        singleQuotedPieces (tablistPieces skip ps).1 ∧
      (tablistPieces skip (singleQuotedPieces ps)).2 = (tablistPieces skip ps).2 := by
  induction ps generalizing skip with
  | nil => exact ⟨rfl, rfl⟩
  | cons p ps ih =>
    have hps : HasPlainNames ps := fun t ht => h t (List.mem_cons_of_mem p ht)
    cases p with
    | char c =>
      obtain ⟨hpieces, hchanges⟩ := ih hps (skip - 1)
      exact ⟨singleQuotedPieces_cons_congr (congrArg Piece.char (singleQuote_singleQuote c)) hpieces,
        hchanges⟩
    | item t =>
      have hsame : (Piece.item t.singleQuoted).singleQuoted Tag.singleQuoted =
          (Piece.item t).singleQuoted Tag.singleQuoted :=
        congrArg Piece.item t.singleQuoted_singleQuoted
      have hkept : ∀ skip, singleQuotedPieces
            (.item t.singleQuoted :: (tablistPieces skip (singleQuotedPieces ps)).1) =
          singleQuotedPieces (.item t :: (tablistPieces skip ps).1) :=
        fun skip => singleQuotedPieces_cons_congr hsame (ih hps skip).1
      have hcons : singleQuotedPieces (.item t :: ps) =
          .item t.singleQuoted :: singleQuotedPieces ps := rfl
      rw [hcons]
      cases skip with
      | succ n =>
        have hlength : t.singleQuoted.source.length = t.source.length := by
          simp [Tag.source]
        rw [tablistPieces, tablistPieces, hlength]
        exact ⟨hkept _, (ih hps _).2⟩
      | zero =>
        have hclose : closeAroundTabs? t.singleQuoted (Tag.textOf (singleQuotedPieces ps)) =
            closeAroundTabs? t (Tag.textOf ps) := by
          rw [textOf_singleQuotedPieces hps,
            closeAroundTabs?_singleQuoted (h t List.mem_cons_self).2]
        have hhas : t.singleQuoted.has "role" = t.has "role" := Tag.has_singleQuoted (by decide) t
        cases hcase : closeAroundTabs? t (Tag.textOf ps) with
        | none =>
          rw [tablistPieces_of_none hcase, tablistPieces_of_none (hclose.trans hcase)]
          exact ⟨hkept 0, (ih hps 0).2⟩
        | some close =>
          cases hrole : t.has "role" with
          | false =>
            rw [tablistPieces_of_new hcase hrole,
              tablistPieces_of_new (hclose.trans hcase) (hhas.trans hrole)]
            obtain ⟨hpieces, hchanges⟩ := ih hps close.stop
            have htag := congrArg Edit.tag (addTablist_singleQuoted t)
            have hchange := congrArg Edit.change (addTablist_singleQuoted t)
            exact ⟨singleQuotedPieces_cons_congr (congrArg Piece.item htag) hpieces,
              congrArg₂ List.cons hchange hchanges⟩
          | true =>
            have hleaves : t.singleQuoted.leavesTabs = t.leavesTabs := by
              rw [Tag.leavesTabs, Tag.leavesTabs, hhas, Tag.role?_singleQuoted]
            rw [tablistPieces_of_has hcase hrole,
              tablistPieces_of_has (hclose.trans hcase) (hhas.trans hrole), hleaves]
            exact ⟨hkept _, (ih hps _).2⟩

theorem singleQuoted_textOf (ps : List (Piece Tag)) :
    (Tag.textOf (singleQuotedPieces ps)).singleQuoted = (Tag.textOf ps).singleQuoted := by
  rw [Tag.textOf, Tag.textOf, Text.singleQuoted_flatMap, Text.singleQuoted_flatMap,
    singleQuotedPieces, List.flatMap_map]
  refine List.flatMap_congr fun p _ => ?_
  cases p with
  | char c => exact Text.singleQuoted_singleQuoted [c]
  | item t => exact Tag.source_congr t.singleQuoted_singleQuoted

theorem ignoresQuotes_addTablistsByDepth : IgnoresQuotes addTablistsByDepth := by
  intro t
  obtain ⟨hpieces, hchanges⟩ := tablistPieces_singleQuoted (hasPlainNames_pieces t) 0
  have hcut : Tag.pieces t.singleQuoted = singleQuotedPieces (Tag.pieces t) :=
    Tag.pieces_singleQuoted t
  rw [← hcut] at hpieces hchanges
  refine ⟨hchanges, ?_⟩
  show (Tag.textOf (tablistPieces 0 (Tag.pieces t.singleQuoted)).1).singleQuoted =
    (Tag.textOf (tablistPieces 0 (Tag.pieces t)).1).singleQuoted
  rw [← singleQuoted_textOf, hpieces, singleQuoted_textOf]

/-! ## Runs -/

/-- **A run comes to the same with single quotes for double ones**, under all options. -/
theorem ignoresQuotes_apply (o : Options) : IgnoresQuotes (apply o) := by
  have hstart : ∀ t : Text, (Result.mk t.singleQuoted []).SameButQuotes ⟨t, []⟩ :=
    fun t => ⟨rfl, Text.singleQuoted_singleQuoted t⟩
  have htablists : IgnoresQuotes (addTablists o.trackDepth) := by
    cases o.trackDepth with
    | true => exact ignoresQuotes_addTablistsByDepth
    | false => exact ignoresQuotes_addTablistsByFirstClose
  have hrange := addValueRange?_singleQuoted (isQuoteless_rangeDefaults o)
  exact fun t =>
    (((hstart t).andThenIf (ignoresQuotes_editTags removeRedundantRole?_singleQuoted) _).andThenIf
      (ignoresQuotes_editTags (addChecked?_singleQuoted o.checked)) _).andThenIf
      (ignoresQuotes_editTags hrange) _ |>.andThenIf htablists _

end Fix

/-- **The kind of quotes makes no difference.**  With a single quote for every double one, the fixes
log the same changes and come to the same text but for quotes, under all options; and the detector
finds the same when it is not asked for accessible names. -/
theorem apply_and_detect_singleQuoted (s : Text) :
    (∀ o : Fix.Options,
      (Fix.apply o s.singleQuoted).changes = (Fix.apply o s).changes ∧
      (Fix.apply o s.singleQuoted).text.singleQuoted = (Fix.apply o s).text.singleQuoted) ∧
    ∀ o : Smell.Options, o.isEnabled .accessibleName = false →
      Smell.detect o s.singleQuoted = Smell.detect o s :=
  ⟨fun o => ⟨(Fix.ignoresQuotes_apply o s).changes, (Fix.ignoresQuotes_apply o s).text⟩,
    fun _ h => Smell.detect_singleQuoted h s⟩

/-- A tab and a switch in a container, with a value that one kind of quotes opens and the other one
closes. -/
theorem apply_and_detect_mixedQuotes :
    let s : Text := "<div><b role=\"tab' onclick=\"go\">x</b></div>"
    let o : Smell.Options := ⟨(· ≠ .accessibleName), []⟩
    s.singleQuoted = "<div><b role='tab' onclick='go'>x</b></div>" ∧
      o.isEnabled .accessibleName = false ∧
      (Fix.apply .default s.singleQuoted).changes = (Fix.apply .default s).changes ∧
      (Fix.apply .default s.singleQuoted).text.singleQuoted =
        (Fix.apply .default s).text.singleQuoted ∧
      Smell.detect o s.singleQuoted = Smell.detect o s := by
  intro s o
  have ho : o.isEnabled .accessibleName = false := by decide
  obtain ⟨hfixes, hfindings⟩ := apply_and_detect_singleQuoted s
  exact ⟨by decide +kernel, ho, (hfixes .default).1, (hfixes .default).2, hfindings o ho⟩

end AriaLint
