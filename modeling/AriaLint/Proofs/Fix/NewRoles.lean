import AriaLint.Proofs.Fix.Additions

/-!
# New roles bring no containers

The pass that makes tablists looks for tabs and for closing tags, and it puts new text into the one
it looks at.  If that text could bring another tab or another closing tag, a second run might find
containers that the first one did not.

It cannot.  `Inserted t u` says that `u` is `t` with roles of tablists put in front of tails.  A new
role starts with a blank and an `r`, and this pair stands in no role of a tab; and it holds an
equals sign, which stands in no closing tag.  So a tab of `u` lies between new roles and is a tab of
`t` (`exists_find?_tabRole_of_inserted`), and where `u` has a closing tag, `t` has one
(`isSome_find?_closing_of_inserted`).

The converse holds for tabs but not for closing tags: one that stands inside an opening tag may be
torn apart by a new role.
-/

namespace AriaLint
namespace Fix

open Tag (IsTail Extended)
open Attribute

/-! ## The relation -/

/-- The second text is the first one with roles of tablists put in front of tails. -/
inductive Inserted : Text → Text → Prop
  | nil : Inserted [] []
  | cons (c : Char) {t u : Text} (h : Inserted t u) : Inserted (c :: t) (c :: u)
  | role {y t u : Text} (hy : IsTail y) (h : Inserted t u) :
      Inserted (y ++ '>' :: t) (tablistRole ++ (y ++ '>' :: u))

namespace Inserted

theorem append_left (a : Text) {t u : Text} (h : Inserted t u) : Inserted (a ++ t) (a ++ u) := by
  induction a with
  | nil => exact h
  | cons c a ih => exact ih.cons c

theorem refl (t : Text) : Inserted t t := by
  have h := nil.append_left t
  rwa [List.append_nil] at h

/-- Pieces with roles added. -/
theorem of_extended {ps qs : List (Piece Tag)}
    (h : List.Forall₂ (Extended (· = tablistRole)) ps qs) :
    Inserted (Tag.textOf ps) (Tag.textOf qs) := by
  induction h with
  | nil => exact nil
  | @cons p q ps qs hpq _ ih =>
    cases hpq with
    | char c => exact ih.cons c
    | kept t => exact ih.append_left t.source
    | @added t u add hadd hext =>
      obtain rfl := hadd
      obtain ⟨hraw, x, y, hx, hu, htail, -⟩ := hext
      have hins := (Inserted.role htail ih).append_left ('<' :: t.rawName ++ x)
      have ht : Tag.textOf (.item t :: ps) =
          '<' :: t.rawName ++ x ++ (y ++ '>' :: Tag.textOf ps) := by
        simp [Tag.source, hx]
      have hu' : Tag.textOf (.item u :: qs) =
          '<' :: t.rawName ++ x ++ (tablistRole ++ (y ++ '>' :: Tag.textOf qs)) := by
        simp [Tag.source, hraw, hu]
      rw [ht, hu']
      exact hins

/-- The first new role of a text. -/
theorem eq_or_exists {t u : Text} (h : Inserted t u) :
    t = u ∨ ∃ g y t' u', IsTail y ∧ Inserted t' u' ∧ t = g ++ (y ++ '>' :: t') ∧
      u = g ++ (tablistRole ++ (y ++ '>' :: u')) := by
  induction h with
  | nil => exact Or.inl rfl
  | cons c _ ih =>
    rcases ih with rfl | ⟨g, y, t', u', hy, h', rfl, rfl⟩
    · exact Or.inl rfl
    · exact Or.inr ⟨c :: g, y, t', u', hy, h', rfl, rfl⟩
  | @role y t u hy h => exact Or.inr ⟨[], y, t, u, hy, h, rfl, rfl⟩

/-- A text and what is inserted into it start with the same character, or with two that delimit
names. -/
theorem head_delimits {t u : Text} (h : Inserted t u) :
    t.head? = u.head? ∨ Delimits t ∧ Delimits u := by
  cases h with
  | nil => exact Or.inl rfl
  | cons c h => exact Or.inl rfl
  | @role y t u hy h =>
    refine Or.inr ⟨hy.delimits t, ?_⟩
    exact (isAddition_tablistRole _ rfl).delimits _

end Inserted

/-! ## Reading where something is inserted -/

/-- No end of the text starts a new role, and no new role stands in it. -/
def AvoidsRole (c : Text) : Prop :=
  ∀ g e z, c = g ++ e :: z → ¬ (e :: z) <+: tablistRole ∧ ¬ tablistRole <+: (e :: z)

section Transfer

variable {α : Type} {read : Reader α} {stop : Char → Bool} {n : Nat} {before : Option Char}
  {t u rest : Text} {a : α}

/-- What is read between new roles is read without them. -/
theorem read?_of_inserted (hends : read.EndsAt stop n) (hins : Inserted t u)
    (hread : read.read? before u = some (a, rest))
    (havoids : ∀ k d, u = k ++ d :: rest → AvoidsRole (k ++ [d])) :
    ∃ rest', read.read? before t = some (a, rest') ∧ Inserted rest' rest := by
  obtain ⟨k, d, hu, hd, -, hlocal⟩ := hends.reading hread
  rcases hins.eq_or_exists with rfl | ⟨g, y, t', u', hy, hins', rfl, hu'⟩
  · exact ⟨rest, hread, Inserted.refl rest⟩
  · have hsplit : (k ++ [d]) ++ rest = g ++ (tablistRole ++ (y ++ '>' :: u')) := by
      rw [← hu', hu]
      simp
    have before_role : ∀ z, g = k ++ [d] ++ z → rest = z ++ (tablistRole ++ (y ++ '>' :: u')) →
        ∃ rest', read.read? before (g ++ (y ++ '>' :: t')) = some (a, rest') ∧
          Inserted rest' rest := by
      rintro z rfl rfl
      refine ⟨z ++ (y ++ '>' :: t'), ?_, (Inserted.role hy hins').append_left z⟩
      rw [List.append_assoc, List.append_assoc]
      exact hlocal _
    rcases List.append_eq_append_iff.1 hsplit with ⟨z, hg, hrest⟩ | ⟨z, hz, hrole⟩
    · exact before_role z hg hrest
    · cases z with
      | nil => exact before_role [] (by simpa using hz.symm) (by simpa using hrole.symm)
      | cons e z =>
        -- the reading would have to run into the new role
        obtain ⟨hstart, hwhole⟩ := havoids k d hu g e z hz
        rcases List.append_eq_append_iff.1 hrole with ⟨w, hw, -⟩ | ⟨w, hw, -⟩
        · exact absurd ⟨w, hw.symm⟩ hwhole
        · exact absurd ⟨w, hw.symm⟩ hstart

theorem prefix_of_not_mem {w y v : Text} {c : Char} {z : Text} (h : y ++ c :: v = w ++ z)
    (hw : c ∉ w) : w <+: y := by
  rcases List.append_eq_append_iff.1 h with ⟨x, rfl, hx⟩ | ⟨x, rfl, -⟩
  · cases x with
    | nil => exact ⟨[], by simp⟩
    | cons d x =>
      obtain ⟨rfl, -⟩ := List.cons.inj hx
      exact absurd (by simp) hw
  · exact ⟨x, rfl⟩

/-- What is read without closing a bracket is read with new roles between. -/
theorem read?_inserted (hends : read.EndsAt stop n)
    (hstop : ∀ c, stop c = true → isBlank c = false ∧ c ≠ '/') (hins : Inserted t u)
    (hread : read.read? before t = some (a, rest))
    (hopen : ∀ k d, t = k ++ d :: rest → '>' ∉ k ++ [d]) :
    ∃ rest', read.read? before u = some (a, rest') := by
  obtain ⟨k, d, ht, hd, -, hlocal⟩ := hends.reading hread
  rcases hins.eq_or_exists with rfl | ⟨g, y, t', u', hy, -, ht', rfl⟩
  · exact ⟨rest, hread⟩
  · have hsplit : (k ++ [d]) ++ rest = g ++ (y ++ '>' :: t') := by
      rw [← ht', ht]
      simp
    have before_role : ∀ z, g = k ++ [d] ++ z →
        ∃ rest', read.read? before (g ++ (tablistRole ++ (y ++ '>' :: u'))) = some (a, rest') := by
      rintro z rfl
      refine ⟨z ++ (tablistRole ++ (y ++ '>' :: u')), ?_⟩
      rw [List.append_assoc, List.append_assoc]
      exact hlocal _
    rcases List.append_eq_append_iff.1 hsplit with ⟨z, hg, -⟩ | ⟨z, hz, htail⟩
    · exact before_role z hg
    · rcases List.eq_nil_or_concat z with rfl | ⟨z, e, rfl⟩
      · exact before_role [] (by simpa using hz.symm)
      · -- the reading would have to end within the tail
        have hde : d = e := by
          rw [List.concat_eq_append, ← List.append_assoc] at hz
          exact List.singleton_inj.1 (List.append_inj' hz rfl).2
        subst hde
        have hz' : '>' ∉ z ++ [d] := fun hmem =>
          hopen k d ht (by rw [hz, List.concat_eq_append]; exact List.mem_append_right g hmem)
        obtain ⟨hblank, hslash⟩ := hstop d hd
        rw [List.concat_eq_append] at htail
        have hmem : d ∈ y := (prefix_of_not_mem htail hz').subset (by simp)
        rcases hy d hmem with hb | hs
        · rw [hblank] at hb
          exact absurd hb (by simp)
        · exact absurd hs hslash

end Transfer

/-! ## Tabs -/

/-- **The role of a tab in full**: a character like an `r`, and then none of the characters that are
neither letters of the words, blanks, the equals sign nor quotes. -/
theorem exists_of_read?_tabRole {before : Option Char} {t rest : Text} {a : Attribute}
    (h : tabRole.read? before t = some (a, rest)) {k : Text} {d : Char} (hk : t = k ++ d :: rest) :
    isQuote d = true ∧ ∃ c l, k = c :: l ∧ sameLetter 'r' c = true ∧
      ∀ p, (∀ w ∈ "oletab".toList, sameLetter w p = false) → isBlank p = false → p ≠ '=' →
        isQuote p = false → p ∉ l := by
  obtain ⟨hread, htab⟩ := Option.filter_eq_some_iff.1 h
  rw [reader_exactly] at hread
  split at hread
  · obtain ⟨hlike, m, q, hsplit, hq, b, b', q', rfl, hb, hb', hq', -⟩ :=
      readAs?_exactly_iff.1 hread
    have hletters : List.Forall₂ (fun w c => sameLetter w c = true) ['r', 'o', 'l', 'e'] a.name :=
      hlike
    obtain ⟨c, n, hc, hn, hname⟩ := List.forall₂_cons_left_iff.1 hletters
    have heq : (k ++ [d]) ++ rest =
        (c :: (n ++ (b ++ '=' :: (b' ++ q' :: a.value))) ++ [q]) ++ rest := by
      rw [hname] at hsplit
      rw [List.append_assoc, List.singleton_append, ← hk, hsplit]
      simp
    obtain ⟨rfl, hqd⟩ := List.append_inj' (List.append_cancel_right heq) rfl
    obtain rfl := List.singleton_inj.1 hqd
    refine ⟨hq, c, _, rfl, hc, fun p hp hblank hsign hquote => ?_⟩
    have hword : p ∉ n := by
      have hsub : ∀ w ∈ ['o', 'l', 'e'], w ∈ "oletab".toList := by decide
      exact Closing.not_mem_of_forall₂ (fun w hw => hp w (hsub w hw)) hn
    have hvalue : p ∉ a.value := by
      have hsub : ∀ w ∈ "tab".toList, w ∈ "oletab".toList := by decide
      obtain ⟨⟨m, r⟩, hm, hr⟩ := (Option.any_eq_true _ _).1 htab
      obtain ⟨hmatch, htrim⟩ := Text.readWord?_eq_some_iff.1 hm
      obtain rfl : r = [] := List.isEmpty_iff.1 hr
      intro hmem
      have hmem' := Text.mem_trim hmem hblank
      rw [htrim, List.append_nil] at hmem'
      exact Closing.not_mem_of_forall₂ (fun w hw => hp w (hsub w hw)) hmatch hmem'
    have hne : p ≠ q' := by
      rintro rfl
      rw [hq'] at hquote
      exact absurd hquote (by simp)
    simp only [List.mem_append, List.mem_cons, not_or]
    exact ⟨hword, Closing.not_mem_of_isBlankText hb hblank, hsign,
      Closing.not_mem_of_isBlankText hb' hblank, hne, hvalue⟩
  · exact absurd hread (by simp)

theorem tablistRole_eq : tablistRole = ' ' :: 'r' :: "ole=\"tablist\"".toList := by decide

/-- A new role stands in no role of a tab, not even in part. -/
theorem avoidsRole_tab {before : Option Char} {t rest : Text} {a : Attribute}
    (h : tabRole.read? before t = some (a, rest)) {k : Text} {d : Char} (hk : t = k ++ d :: rest) :
    AvoidsRole (k ++ [d]) := by
  obtain ⟨hd, c, l, rfl, hc, hfree⟩ := exists_of_read?_tabRole h hk
  have hr : 'r' ∉ l := hfree 'r' (by decide) (by decide) (by decide) (by decide)
  -- a blank with an `r` behind it stands nowhere
  have hpair : ∀ g z, c :: l ++ [d] = g ++ ' ' :: 'r' :: z → False := by
    intro g z hg
    have hmem : 'r' ∈ l ++ [d] := by
      cases g with
      | nil =>
        obtain ⟨rfl, -⟩ := List.cons.inj hg
        exact absurd hc (by decide)
      | cons e g =>
        obtain ⟨-, hg⟩ := List.cons.inj hg
        rw [show l ++ [d] = g ++ ' ' :: 'r' :: z from hg]
        simp
    rcases List.mem_append.1 hmem with hmem | hmem
    · exact hr hmem
    · rw [← List.mem_singleton.1 hmem] at hd
      exact absurd hd (by decide)
  intro g e z hg
  refine ⟨fun hstart => ?_, fun hwhole => ?_⟩
  · rw [tablistRole_eq] at hstart
    obtain ⟨rfl, hz⟩ := List.cons_prefix_cons.1 hstart
    cases z with
    | nil =>
      have hlast : d = ' ' := List.singleton_inj.1 (List.append_inj' hg rfl).2
      rw [hlast] at hd
      exact absurd hd (by decide)
    | cons f z =>
      obtain ⟨rfl, -⟩ := List.cons_prefix_cons.1 hz
      exact hpair g z hg
  · rw [tablistRole_eq] at hwhole
    obtain ⟨rfl, hz⟩ := List.cons_prefix_cons.1 hwhole
    obtain ⟨w, rfl⟩ := hz
    exact hpair g _ hg

theorem not_mem_tab {before : Option Char} {t rest : Text} {a : Attribute}
    (h : tabRole.read? before t = some (a, rest)) {k : Text} {d : Char} (hk : t = k ++ d :: rest) :
    '>' ∉ k ++ [d] := by
  obtain ⟨hd, c, l, rfl, hc, hfree⟩ := exists_of_read?_tabRole h hk
  have hl : '>' ∉ l := hfree '>' (by decide) (by decide) (by decide) (by decide)
  intro hmem
  rcases List.mem_append.1 hmem with hmem | hmem
  · rcases List.mem_cons.1 hmem with rfl | hmem
    · exact absurd hc (by decide)
    · exact hl hmem
  · rw [← List.mem_singleton.1 hmem] at hd
    exact absurd hd (by decide)

/-- No tab is read where no `r` stands. -/
theorem tabRole_read?_eq_none {c : Char} (hc : sameLetter 'r' c = false) (before : Option Char)
    (t : Text) : tabRole.read? before (c :: t) = none := by
  cases h : tabRole.read? before (c :: t) with
  | none => rfl
  | some r =>
    obtain ⟨a, rest⟩ := r
    obtain ⟨k, d, hk, -, -, -⟩ := endsAt_tabRole.reading h
    obtain ⟨-, e, l, rfl, he, -⟩ := exists_of_read?_tabRole h hk
    obtain rfl : c = e := (List.cons.inj hk).1
    rw [hc] at he
    exact absurd he (by simp)

/-- A new role is not the role of a tab. -/
theorem tabRole_read?_role (before : Option Char) (t : Text) :
    tabRole.read? before ('r' :: ("ole=\"tablist\"".toList ++ t)) = none := by
  have hread : readAs? (.exactly "role") ("role".toList ++ ("=\"" ++ "tablist" ++ "\"" ++ t)) =
      some (⟨"role", "tablist"⟩, t) := readAs?_written (by decide) t
  show ((reader [.exactly "role"]).read? before _).filter _ = none
  rw [reader_exactly]
  split
  · show (readAs? (.exactly "role")
      ("role".toList ++ ("=\"" ++ "tablist" ++ "\"" ++ t))).filter _ = _
    have htab : isTab "tablist" = false := by decide
    rw [hread]
    exact Option.filter_some_neg htab
  · rfl

theorem sameLetter_r_of_delimitsName {c : Char} (h : delimitsName c = true) :
    sameLetter 'r' c = false := by
  cases hc : sameLetter 'r' c with
  | false => rfl
  | true =>
    have hfold : fold c = 'r' := (eq_of_beq hc).symm
    have hname : Tag.isNameChar c = true := by
      simp only [Tag.isNameChar, hfold]
      rfl
    rw [isNameChar_eq_false h] at hname
    exact absurd hname (by simp)

/-- No tab is found in a tail. -/
theorem tabRole_find?_tail {y : Text} (hy : IsTail y) (before : Option Char) (t : Text) :
    tabRole.find? before (y ++ '>' :: t) =
      (tabRole.find? (some '>') t).map fun f => { f with before := y ++ ['>'] ++ f.before } := by
  have hnone : ∀ c ∈ y ++ ['>'], ∀ b v, tabRole.read? b (c :: v) = none := fun c hc b v =>
    tabRole_read?_eq_none (sameLetter_r_of_delimitsName (hy.delimitsName_of_mem_append hc)) b v
  rw [show y ++ '>' :: t = (y ++ ['>']) ++ t by simp, Reader.find?_append_of_not_read hnone,
    Reader.beforeAt_concat]

/-- No tab is found in a new role. -/
theorem tabRole_find?_tablistRole (before : Option Char) (t : Text) :
    tabRole.find? before (tablistRole ++ t) =
      (tabRole.find? (some '"') t).map fun f => { f with before := tablistRole ++ f.before } := by
  have hr : ∀ c ∈ "ole=\"tablist\"".toList, sameLetter 'r' c = false := by decide
  have hletters : ∀ c ∈ "ole=\"tablist\"".toList, ∀ b v, tabRole.read? b (c :: v) = none :=
    fun c hc b v => tabRole_read?_eq_none (hr c hc) b v
  rw [tablistRole_eq, List.cons_append, List.cons_append,
    Reader.find?_of_not_read (tabRole_read?_eq_none (by decide) _ _),
    Reader.find?_of_not_read (tabRole_read?_role _ t),
    Reader.find?_append_of_not_read hletters, Option.map_map, Option.map_map]
  rfl

/-- Where no tab is read between new roles, none is read without them. -/
theorem tabRole_read?_eq_none_of_inserted {t u : Text} (h : Inserted t u) {before : Option Char}
    (hu : tabRole.read? before u = none) : tabRole.read? before t = none := by
  cases ht : tabRole.read? before t with
  | none => rfl
  | some r =>
    obtain ⟨a, rest⟩ := r
    have hstop : ∀ c, isQuote c = true → isBlank c = false ∧ c ≠ '/' := by
      intro c hc
      refine ⟨isBlank_of_isQuote hc, ?_⟩
      rintro rfl
      exact absurd hc (by decide)
    obtain ⟨rest', hrest'⟩ := read?_inserted endsAt_tabRole hstop h ht
      fun k d hk => not_mem_tab ht hk
    rw [hu] at hrest'
    exact absurd hrest' (by simp)

/-- **Tabs between new roles.**  The first tab that is found is a tab without the roles. -/
theorem exists_find?_tabRole_of_inserted {t u : Text} (h : Inserted t u) {before : Option Char}
    {f : Found Attribute} (hf : tabRole.find? before u = some f) :
    ∃ g, tabRole.find? before t = some g ∧ Inserted g.after f.after := by
  induction h generalizing before f with
  | nil => exact absurd hf (by simp [Reader.find?])
  | @cons c t u h ih =>
    cases hread : tabRole.read? before (c :: u) with
    | some r =>
      obtain ⟨a, rest⟩ := r
      rw [Reader.find?_of_read hread] at hf
      obtain rfl := Option.some.inj hf
      obtain ⟨rest', hrest', hins⟩ := read?_of_inserted endsAt_tabRole (h.cons c) hread
        fun k d hk => avoidsRole_tab hread hk
      exact ⟨_, Reader.find?_of_read hrest', hins⟩
    | none =>
      have hnone := tabRole_read?_eq_none_of_inserted (h.cons c) hread
      rw [Reader.find?_of_not_read hread] at hf
      obtain ⟨f', hf', rfl⟩ := Option.map_eq_some_iff.1 hf
      obtain ⟨g, hg, hins⟩ := ih hf'
      refine ⟨{ g with before := c :: g.before }, ?_, hins⟩
      rw [Reader.find?_of_not_read hnone, hg]
      rfl
  | @role y t u hy h ih =>
    rw [tabRole_find?_tablistRole, tabRole_find?_tail hy, Option.map_map] at hf
    obtain ⟨f', hf', rfl⟩ := Option.map_eq_some_iff.1 hf
    obtain ⟨g, hg, hins⟩ := ih hf'
    refine ⟨{ g with before := y ++ ['>'] ++ g.before }, ?_, hins⟩
    rw [tabRole_find?_tail hy, hg]
    rfl

/-- **New roles neither bring tabs nor take them away.** -/
theorem isSome_find?_tabRole_of_inserted {t u : Text} (h : Inserted t u) (before : Option Char) :
    (tabRole.find? before u).isSome = (tabRole.find? before t).isSome := by
  refine Bool.eq_iff_iff.2 ⟨fun hu => ?_, fun ht => ?_⟩
  · obtain ⟨f, hf⟩ := Option.isSome_iff_exists.1 hu
    obtain ⟨g, hg, -⟩ := exists_find?_tabRole_of_inserted h hf
    rw [hg]
    rfl
  · induction h generalizing before with
    | nil => exact ht
    | @cons c t u h ih =>
      cases hread : tabRole.read? before (c :: u) with
      | some r =>
        rw [Reader.find?_of_read hread]
        rfl
      | none =>
        have hnone := tabRole_read?_eq_none_of_inserted (h.cons c) hread
        rw [Reader.find?_of_not_read hnone, Option.isSome_map] at ht
        exact Reader.isSome_find?_cons (ih _ ht)
    | @role y t u hy h ih =>
      rw [tabRole_find?_tail hy, Option.isSome_map] at ht
      rw [tabRole_find?_tablistRole, tabRole_find?_tail hy, Option.isSome_map, Option.isSome_map]
      exact ih _ ht

/-! ## Closing tags -/

section Closes

variable {name : Text} (hname : ∀ p ∈ ['>', '='], ∀ w ∈ name, sameSmall w p = false)
include hname

theorem avoidsRole_closing {before : Option Char} {t rest : Text}
    (h : (Closing.reader sameSmall name).read? before t = some ((), rest)) {k : Text} {d : Char}
    (hk : t = k ++ d :: rest) : AvoidsRole (k ++ [d]) := by
  obtain ⟨r, hread, heq⟩ := Option.map_eq_some_iff.1 h
  obtain ⟨-, rfl⟩ := Prod.mk.inj heq
  obtain ⟨n, b, ht, hlike, hb⟩ := Closing.read?_eq_some_iff.1 hread
  have hsplit : k ++ [d] = '<' :: '/' :: (n ++ b) ++ ['>'] := by
    have happ : (k ++ [d]) ++ r = ('<' :: '/' :: (n ++ b) ++ ['>']) ++ r := by
      rw [List.append_assoc, List.singleton_append, ← hk, ht]
      simp
    exact List.append_cancel_right happ
  have hsign : '=' ∉ k ++ [d] := by
    have hn : '=' ∉ n := Closing.not_mem_of_forall₂ (hname '=' (by simp)) hlike
    have hblank : '=' ∉ b := Closing.not_mem_of_isBlankText hb (by decide)
    rw [hsplit]
    simp [hn, hblank]
  intro g e z hg
  refine ⟨fun hstart => ?_, fun hwhole => ?_⟩
  · have hclose : '>' ∈ e :: z := by
      have hlast : (e :: z).getLast? = some '>' := by
        have h1 : (k ++ [d]).getLast? = some '>' := by rw [hsplit, List.getLast?_concat]
        rwa [hg, List.getLast?_append_of_ne_nil _ (by simp)] at h1
      exact List.mem_of_getLast? hlast
    exact (isAddition_tablistRole _ rfl).unclosed (hstart.subset hclose)
  · refine hsign ?_
    rw [hg]
    exact List.mem_append_right g (hwhole.subset (by decide))

omit hname in
/-- No closing tag is read where no bracket opens. -/
theorem closing_read?_eq_none {c : Char} (hc : c ≠ '<') (before : Option Char) (t : Text) :
    (Closing.reader sameSmall name).read? before (c :: t) = none := by
  cases hread : (Closing.reader sameSmall name).read? before (c :: t) with
  | none => rfl
  | some r =>
    obtain ⟨r, hread, -⟩ := Option.map_eq_some_iff.1 hread
    obtain ⟨n, b, ht, -⟩ := Closing.read?_eq_some_iff.1 hread
    exact absurd (List.cons.inj ht).1 hc

omit hname in
/-- No closing tag is found through a text that opens no bracket and closes one at its end. -/
theorem closing_isSome_find?_append {z : Text} (hz : '<' ∉ z) (before : Option Char) (t : Text) :
    ((Closing.reader sameSmall name).find? before (z ++ '>' :: t)).isSome =
      ((Closing.reader sameSmall name).find? (some '>') t).isSome := by
  have hnone : ∀ c ∈ z ++ ['>'], ∀ b v,
      (Closing.reader sameSmall name).read? b (c :: v) = none := by
    refine fun c hc b v => closing_read?_eq_none ?_ b v
    rintro rfl
    rcases List.mem_append.1 hc with hc | hc
    · exact hz hc
    · exact absurd (List.mem_singleton.1 hc) (by decide)
  rw [show z ++ '>' :: t = (z ++ ['>']) ++ t by simp, Reader.find?_append_of_not_read hnone,
    Reader.beforeAt_concat, Option.isSome_map]

/-- **New roles bring no closing tag.** -/
theorem isSome_find?_closing_of_inserted {t u : Text} (h : Inserted t u) {before : Option Char}
    (hf : ((Closing.reader sameSmall name).find? before u).isSome = true) :
    ((Closing.reader sameSmall name).find? before t).isSome = true := by
  have hends := Closing.endsAt_reader (hname '>' (by simp))
  induction h generalizing before with
  | nil => exact hf
  | @cons c t u h ih =>
    cases hread : (Closing.reader sameSmall name).read? before (c :: u) with
    | some r =>
      obtain ⟨⟨⟩, rest⟩ := r
      obtain ⟨rest', hrest', -⟩ := read?_of_inserted hends (h.cons c) hread
        fun k d hk => avoidsRole_closing hname hread hk
      rw [Reader.find?_of_read hrest']
      rfl
    | none =>
      rw [Reader.find?_of_not_read hread, Option.isSome_map] at hf
      exact Reader.isSome_find?_cons (ih hf)
  | @role y t u hy h ih =>
    have htail : '<' ∉ y := by
      intro hmem
      rcases hy '<' hmem with hb | hs
      · exact absurd hb (by decide)
      · exact absurd hs (by decide)
    have hrole : '<' ∉ tablistRole ++ y := by
      rw [List.mem_append, not_or]
      exact ⟨by decide, htail⟩
    rw [← List.append_assoc, closing_isSome_find?_append hrole] at hf
    rw [closing_isSome_find?_append htail]
    exact ih hf

/-- **New roles bring no container.** -/
theorem afterTabs?_eq_none_of_inserted {t u : Text} (h : Inserted t u)
    (hnone : Container.afterTabs? name t = none) : Container.afterTabs? name u = none := by
  cases htab : tabRole.find? (some '>') u with
  | none => rw [Container.afterTabs?, htab]; rfl
  | some f =>
    obtain ⟨g, hg, hins⟩ := exists_find?_tabRole_of_inserted h htab
    cases hclose : (Closing.reader sameSmall name).find? none f.after with
    | none =>
      rw [Container.afterTabs?, htab]
      show ((Closing.reader sameSmall name).find? none f.after).bind _ = none
      rw [hclose]
      rfl
    | some e =>
      have hsome := isSome_find?_closing_of_inserted hname hins (by rw [hclose]; rfl)
      obtain ⟨e', he'⟩ := Option.isSome_iff_exists.1 hsome
      rw [Container.afterTabs?, hg] at hnone
      have hfound : ((Closing.reader sameSmall name).find? none g.after).bind
          (fun close => some close.after) = none := hnone
      rw [he'] at hfound
      exact absurd hfound (by simp)

end Closes

end Fix
end AriaLint
