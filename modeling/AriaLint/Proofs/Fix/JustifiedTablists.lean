import AriaLint.Proofs.Attribute.Forms
import AriaLint.Proofs.Closing.Inserted
import AriaLint.Proofs.Fix.Containers
import AriaLint.Proofs.Document.Tablists
import AriaLint.Proofs.Text.Readings
import Mathlib.Data.List.Perm.Subperm

/-!
# Tablists are justified by distinct tabs

A tablist that is made rests on a tab behind the container's tag and before the closing tag that was
chosen for the container.  Can two tablists rest on the same tab?  Elements need not be closed
properly, containers may overlap, and the two ways of matching containers go through a text in
different ways.

`MadeTablist` is a tablist with what it rests on, and `MadeTablist.JustifiedIn` says that all of it
is found in the text.  Both passes move on behind the closing tag of a container once they have made
a tablist of it, the one since it reads from there, the other since it skips up to there.  So the
stretches from tags to closing tags follow one another (`Justifies.cons`), and their tabs are
distinct (`tablists_justified`).

A tab that is found in a part of the text is one of the tabs of the whole text, since no role of a
tab starts within another one: its first letter does not occur in it again (`read?_tabRole`).
-/

namespace AriaLint
namespace Fix

open Attribute

/-- What follows a place, when more stands in front of the text. -/
theorem drop_shift_stop {α : Type} {x y k : Text} {f : Found α} (h : y = k ++ f.after) :
    (x ++ y).drop ((f.span y).shift x.length).stop = f.after := by
  have hstop : (f.span y).stop = k.length := by simp [Found.span, h]
  rw [Span.shift, hstop, List.drop_length_add_append, h, List.drop_left]

/-! ## The tabs of a text -/

/-- The places of the role attributes that make a tab. -/
def tabs (s : Text) : List Span := (tabRole.readings none s).map (Found.span s)

theorem sameLetter_r_of_mem {name n : Text}
    (h : List.Forall₂ (fun w c => sameLetter w c = true) name n)
    (hname : ∀ w ∈ name, sameLetter 'r' w = false) : ∀ c ∈ n, sameLetter 'r' c = false := by
  induction h with
  | nil => simp
  | @cons w c name n hwc _ ih =>
    intro d hd
    rcases List.mem_cons.1 hd with rfl | hd
    · have hw := hname w List.mem_cons_self
      rwa [sameLetter, eq_of_beq hwc] at hw
    · exact ih (fun v hv => hname v (List.mem_cons_of_mem w hv)) d hd

theorem sameLetter_r_of_not_isNamePart {c : Char} (h : isNamePart c = false) :
    sameLetter 'r' c = false := by
  rw [sameLetter, fold_of_not_isNamePart h]
  refine beq_eq_false_iff_ne.2 fun heq => ?_
  rw [← heq] at h
  exact absurd h (by decide)

/-- **The role of a tab starts with a letter that does not occur in it again.** -/
theorem read?_tabRole {before : Option Char} {t rest : Text} {a : Attribute}
    (h : tabRole.read? before t = some (a, rest)) :
    ∃ c k, t = c :: (k ++ rest) ∧ sameLetter 'r' c = true ∧ ∀ d ∈ k, sameLetter 'r' d = false := by
  obtain ⟨hread, htab⟩ := Option.filter_eq_some_iff.1 h
  rw [reader_exactly] at hread
  split at hread
  · obtain ⟨hlike, k, q, rfl, hq, b, b', p, rfl, hb, hb', hp, -⟩ := readAs?_exactly_iff.1 hread
    obtain ⟨c, n, hc, hn, hname⟩ := List.forall₂_cons_left_iff.1 hlike
    have hblank : ∀ {b : Text}, Text.IsBlankText b → ∀ d ∈ b, sameLetter 'r' d = false :=
      fun hb d hd => sameLetter_r_of_not_isNamePart (isNamePart_of_isBlank (hb d hd))
    have hquote : ∀ {q : Char}, isQuote q = true → sameLetter 'r' q = false :=
      fun hq => sameLetter_r_of_not_isNamePart (isNamePart_of_isQuote hq)
    have hvalue : ∀ d ∈ a.value, sameLetter 'r' d = false := by
      intro d hd
      cases hdb : isBlank d with
      | true => exact sameLetter_r_of_not_isNamePart (isNamePart_of_isBlank hdb)
      | false =>
        obtain ⟨⟨w, z⟩, hw, hz⟩ := Option.any_eq_true _ _ |>.1 htab
        obtain rfl : z = [] := List.isEmpty_iff.1 hz
        obtain ⟨hlike, hw⟩ := Text.readWord?_eq_some_iff.1 hw
        rw [List.append_nil] at hw
        exact sameLetter_r_of_mem hlike (by decide) d (hw ▸ Text.mem_trim hd hdb)
    refine ⟨c, n ++ (b ++ '=' :: (b' ++ p :: a.value)) ++ [q], by rw [hname]; simp, hc, ?_⟩
    intro d hd
    simp only [List.mem_append, List.mem_cons, List.not_mem_nil, or_false] at hd
    rcases hd with (hd | hd | rfl | hd | rfl | hd) | rfl
    · exact sameLetter_r_of_mem hn (by decide) d hd
    · exact hblank hb d hd
    · decide
    · exact hblank hb' d hd
    · exact hquote hp
    · exact hvalue d hd
    · exact hquote hq
  · exact absurd hread (by simp)

/-- Roles of tabs do not start within one another. -/
theorem not_startsInside_tabRole {before : Option Char} {s : Text} {f g : Found Attribute}
    (hf : tabRole.ReadsAt before s f) (hg : tabRole.ReadsAt before s g) : ¬ f.StartsInside s g := by
  obtain ⟨u, hu, hreadu⟩ := hf
  obtain ⟨v, hv, hreadv⟩ := hg
  obtain ⟨c, k, rfl, hc, -⟩ := read?_tabRole hreadu
  obtain ⟨c', k', rfl, -, hk'⟩ := read?_tabRole hreadv
  have hlength := congrArg List.length hv
  simp only [List.length_append, List.length_cons] at hlength
  rintro ⟨hstart, hstop⟩
  simp only [Found.span] at hstart hstop
  -- the first letter of the one would stand within the other
  obtain ⟨i, hi⟩ := Nat.exists_eq_add_of_lt hstart
  have hchar : s[f.before.length]? = some c := by
    rw [hu, List.getElem?_append_right (Nat.le_refl _), Nat.sub_self]
    rfl
  rw [hi, hv, List.getElem?_append_right (by omega), show g.before.length + i + 1 -
    g.before.length = i + 1 by omega, List.getElem?_cons_succ,
    List.getElem?_append_left (by omega)] at hchar
  rw [hk' c (List.mem_of_getElem? hchar)] at hc
  exact Bool.noConfusion hc

/-- What makes a tab at its place is a tab of the text. -/
theorem mem_tabs_iff {s : Text} {p : Span} :
    p ∈ tabs s ↔ ∃ f, tabRole.ReadsAt none s f ∧ f.span s = p := by
  constructor
  · intro h
    obtain ⟨f, hf, rfl⟩ := List.mem_map.1 h
    exact ⟨f, endsAt_tabRole.readsAt_of_mem hf, rfl⟩
  · rintro ⟨f, hf, rfl⟩
    refine List.mem_map_of_mem (endsAt_tabRole.mem_readings_iff.2 ⟨hf, fun g hg => ?_⟩)
    exact not_startsInside_tabRole hf (endsAt_tabRole.readsAt_of_mem hg)

theorem start_lt_stop_of_readsAt {s : Text} {f : Found Attribute} (h : tabRole.ReadsAt none s f) :
    (f.span s).start < (f.span s).stop := by
  obtain ⟨u, rfl, hread⟩ := h
  have hlt := tabRole.shortens hread
  simp only [Found.span, List.length_append]
  omega

/-! ## The first tab behind a tag -/

/-- A bracket counts for no more than the beginning of a text. -/
theorem find?_tabRole_bracket (t : Text) : tabRole.find? (some '>') t = tabRole.find? none t := by
  cases t with
  | nil => rfl
  | cons c t =>
    have hread : tabRole.read? (some '>') (c :: t) = tabRole.read? none (c :: t) := rfl
    rw [Reader.find?, Reader.find?, hread]

/-- The first tab behind a tag, as a place in the whole text. -/
theorem first_tab_behind {g u : Text} {t : Tag} {f : Found Attribute}
    (h : tabRole.find? (some '>') u = some f) :
    (f.span u).shift (g ++ t.source).length ∈ tabs (g ++ (t.source ++ u)) ∧
      ∀ p ∈ tabs (g ++ (t.source ++ u)), (g ++ t.source).length ≤ p.start →
        ((f.span u).shift (g ++ t.source).length).start ≤ p.start := by
  have hbefore : Reader.beforeAt none (g ++ t.source) = some '>' := by
    rw [Tag.source, ← List.append_assoc, Reader.beforeAt_concat]
  have hspan : ∀ q : Found Attribute, tabRole.ReadsAt (some '>') u q →
      (q.behind (g ++ t.source)).span (g ++ t.source ++ u) =
        (q.span u).shift (g ++ t.source).length := by
    rintro q ⟨v, rfl, hread⟩
    have hlt := tabRole.shortens hread
    simp only [Found.span, Found.behind, Span.shift, List.length_append, Span.mk.injEq, true_and]
    omega
  obtain ⟨v, hv, hread, -⟩ := Reader.find?_eq_some_iff.1 h
  have hreads : tabRole.ReadsAt (some '>') u f := ⟨v, hv, hread⟩
  rw [← List.append_assoc]
  constructor
  · refine mem_tabs_iff.2 ⟨f.behind (g ++ t.source), Reader.readsAt_behind_iff.2 ?_, hspan f hreads⟩
    rwa [hbefore]
  · intro p hp hle
    obtain ⟨q, hq, rfl⟩ := mem_tabs_iff.1 hp
    rcases Reader.lt_or_exists_behind hq with hlt | ⟨q, rfl⟩
    · exact absurd hle (Nat.not_le_of_lt hlt)
    · have hq' := Reader.readsAt_behind_iff.1 hq
      rw [hbefore] at hq'
      rw [hspan q hq']
      obtain ⟨w, rfl, hw⟩ := hq'
      obtain ⟨f', hf', hfirst⟩ := Reader.exists_find?_append (Option.isSome_iff_exists.2 ⟨_, hw⟩)
      obtain rfl := Option.some.inj (h.symm.trans hf')
      exact Nat.add_le_add_left hfirst _

/-! ## What a tablist rests on -/

/-- A tablist that is made: the container, the tab it rests on, and the closing tag chosen for it. -/
structure MadeTablist where
  container : Occurrence
  tab : Span
  close : Span

namespace MadeTablist

/-- The entry of the log. -/
def change (m : MadeTablist) : Change := (addTablist m.container.tag).change

/-- The closing tag that is chosen for a container with this tab: the matching one when containers
are matched by depth, and otherwise the first one of the container's name behind the tab. -/
def chosenClose? (trackDepth : Bool) (s : Text) (o : Occurrence) (tab : Span) : Option Span :=
  if trackDepth then o.matchingClose? s
  else
    ((Closing.reader sameSmall o.tag.rawName).find? none (s.drop tab.stop)).map fun f =>
      (f.span (s.drop tab.stop)).shift tab.stop

/-- All that the tablist rests on is found in the text. -/
structure JustifiedIn (trackDepth : Bool) (s : Text) (m : MadeTablist) : Prop where
  /-- The container's tag stands in the text, -/
  stands : ∃ a b, s = a ++ (m.container.tag.source ++ b) ∧ m.container.start = a.length
  /-- without a role. -/
  vacant : m.container.tag.has "role" = false
  /-- The tab is one of the text's, -/
  isTab : m.tab ∈ tabs s
  /-- and the first one behind the tag. -/
  behind : m.container.stop ≤ m.tab.start
  first : ∀ p ∈ tabs s, m.container.stop ≤ p.start → m.tab.start ≤ p.start
  /-- The closing tag is the one that is chosen, and it stands behind the tab. -/
  chosen : chosenClose? trackDepth s m.container m.tab = some m.close
  before : m.tab.stop ≤ m.close.start
  closes : m.close.start < m.close.stop

section Places

variable {trackDepth : Bool} {s : Text} {m : MadeTablist} (h : m.JustifiedIn trackDepth s)
include h

theorem JustifiedIn.start_le_tab : m.container.start ≤ m.tab.start :=
  (Nat.le_add_right _ _).trans h.behind

theorem JustifiedIn.tab_lt_close : m.tab.start < m.close.stop := by
  obtain ⟨f, hf, htab⟩ := mem_tabs_iff.1 h.isTab
  have hlt := start_lt_stop_of_readsAt hf
  rw [htab] at hlt
  exact (hlt.trans_le h.before).trans h.closes

end Places

/-- A tag without a role, the first tab behind it and the closing tag chosen for it justify a
tablist. -/
theorem JustifiedIn.of_find? {trackDepth : Bool} {g u : Text} {t : Tag} {f : Found Attribute}
    {close : Span} (hrole : t.has "role" = false) (hfind : tabRole.find? (some '>') u = some f)
    (hchosen : chosenClose? trackDepth (g ++ (t.source ++ u)) ⟨t, g.length⟩
      ((f.span u).shift (g ++ t.source).length) = some (close.shift (g ++ t.source).length))
    (hbefore : (f.span u).stop ≤ close.start) (hcloses : close.start < close.stop) :
    JustifiedIn trackDepth (g ++ (t.source ++ u))
      ⟨⟨t, g.length⟩, (f.span u).shift (g ++ t.source).length,
        close.shift (g ++ t.source).length⟩ where
  stands := ⟨g, u, rfl, rfl⟩
  vacant := hrole
  isTab := (first_tab_behind hfind).1
  behind := by
    rw [Occurrence.stop, List.length_append]
    exact Nat.le_add_right _ _
  first p hp hle := (first_tab_behind hfind).2 p hp (by rwa [List.length_append])
  chosen := hchosen
  before := Nat.add_le_add_left hbefore _
  closes := Nat.add_lt_add_left hcloses _

/-- What the pass by depth finds around a tab. -/
theorem exists_justifiedIn_of_closeAroundTabs? {t : Tag} {u : Text} {close : Span}
    (h : closeAroundTabs? t u = some close) (hrole : t.has "role" = false) (g : Text) :
    ∃ tab, JustifiedIn true (g ++ (t.source ++ u))
      ⟨⟨t, g.length⟩, tab, close.shift (g ++ t.source).length⟩ := by
  unfold closeAroundTabs? at h
  split at h
  · exact absurd h (by simp)
  · next hself =>
    obtain ⟨hmatch, htabs⟩ := Option.filter_eq_some_iff.1 h
    obtain ⟨f, hf⟩ := Option.isSome_iff_exists.1 htabs
    obtain ⟨k, rest, hsplit, hstop, -, hcloses⟩ := exists_append_of_closeFrom hmatch
    -- the tab is found before the closing tag, and so it is found in all that follows the tag
    have hfind : tabRole.find? (some '>') u =
        some { f with after := f.after ++ u.drop close.start } := by
      have happ := endsAt_tabRole.find?_append hf (u.drop close.start)
      rwa [List.take_append_drop, ← find?_tabRole_bracket] at happ
    refine ⟨_, JustifiedIn.of_find? hrole hfind ?_ ?_ hcloses⟩
    · rw [chosenClose?, if_pos rfl, Occurrence.matchingClose?, if_neg hself,
        Document.after_append, hmatch, Option.map_some, Occurrence.stop, List.length_append]
    · have hlen := congrArg List.length hsplit
      simp only [List.length_append, List.length_cons, List.length_nil] at hlen hstop
      simp only [Found.span, List.length_append, List.length_drop]
      omega

/-- What the pass by first closing tags reads as a container. -/
theorem exists_justifiedIn_of_read? {v rest : Text} {c : Container}
    (h : Container.read? v = some (c, rest)) (hrole : c.tag.has "role" = false) (g : Text) :
    ∃ tab close, JustifiedIn false (g ++ v) ⟨⟨c.tag, g.length⟩, tab, close⟩ ∧
      close.stop = (g ++ c.source).length := by
  obtain ⟨u, k, -, -, -, hcut, hlocal⟩ := Container.read?_eq_some h
  obtain ⟨f, hf, hclose⟩ := Option.bind_eq_some_iff.1 (hlocal rest)
  obtain ⟨e, he, hrest⟩ := Option.bind_eq_some_iff.1 hclose
  obtain rfl := Option.some.inj hrest
  obtain ⟨l, d, htab, -⟩ := endsAt_tabRole.find?_eq_some hf
  obtain ⟨l', d', hend, -⟩ := (Closing.endsAt_reader
    (sameSmall_of_mem_nameCuts hcut (by simp))).find?_eq_some he
  have hv : v = c.tag.source ++ (c.content ++ e.after) := by
    rw [← Container.source_append_of_read? h, Container.source, List.append_assoc]
  -- the closing tag is looked for behind the tab
  have hafter := drop_shift_stop (x := g ++ c.tag.source) (f := f)
    (show c.content ++ e.after = (f.before ++ l ++ [d]) ++ f.after by rw [htab]; simp)
  rw [List.append_assoc] at hafter
  have hlen := congrArg List.length htab
  have hlen' := congrArg List.length hend
  simp only [List.length_append, List.length_cons] at hlen hlen'
  have hchosen : chosenClose? false (g ++ (c.tag.source ++ (c.content ++ e.after)))
      ⟨c.tag, g.length⟩ ((f.span (c.content ++ e.after)).shift (g ++ c.tag.source).length) =
        some (((e.span f.after).shift (f.span (c.content ++ e.after)).stop).shift
          (g ++ c.tag.source).length) := by
    rw [chosenClose?, if_neg (by simp), hafter, he]
    simp only [Option.map_some, Span.shift, Nat.add_assoc]
  rw [hv]
  refine ⟨_, _, JustifiedIn.of_find? hrole hf hchosen (Nat.le_add_right _ _) ?_, ?_⟩
  · simp only [Span.shift, Found.span]
    omega
  · simp only [Span.shift, Found.span, Container.source, List.length_append]
    omega

end MadeTablist

/-! ## What a run of a pass rests on -/

/-- These entries of the log are for tablists that are justified in the text, none of which starts
before the position `n`, and whose stretches from tags to closing tags follow one another. -/
def Justifies (trackDepth : Bool) (s : Text) (n : Nat) (cs : List Change) : Prop :=
  ∃ ms : List MadeTablist, cs = ms.map MadeTablist.change ∧
    (∀ m ∈ ms, m.JustifiedIn trackDepth s ∧ n ≤ m.container.start) ∧
    ms.Pairwise fun m m' => m.close.stop ≤ m'.container.start

namespace Justifies

variable {trackDepth : Bool} {s : Text} {n : Nat} {cs : List Change}

theorem nil : Justifies trackDepth s n [] := ⟨[], rfl, by simp, List.Pairwise.nil⟩

theorem mono {n' : Nat} (h : Justifies trackDepth s n' cs) (hle : n ≤ n') :
    Justifies trackDepth s n cs := by
  obtain ⟨ms, rfl, hms, hpairs⟩ := h
  exact ⟨ms, rfl, fun m hm => ⟨(hms m hm).1, hle.trans (hms m hm).2⟩, hpairs⟩

/-- **The pass goes on behind the closing tag of a tablist that it has made.** -/
theorem cons {m : MadeTablist} (hm : m.JustifiedIn trackDepth s)
    (h : Justifies trackDepth s m.close.stop cs) :
    Justifies trackDepth s m.container.start (m.change :: cs) := by
  obtain ⟨ms, rfl, hms, hpairs⟩ := h
  have hspan : m.container.start ≤ m.close.stop := hm.start_le_tab.trans hm.tab_lt_close.le
  refine ⟨m :: ms, rfl, ?_, List.pairwise_cons.2 ⟨fun m' hm' => (hms m' hm').2, hpairs⟩⟩
  intro m' hm'
  rcases List.mem_cons.1 hm' with rfl | hm'
  · exact ⟨hm, Nat.le_refl _⟩
  · exact ⟨(hms m' hm').1, hspan.trans (hms m' hm').2⟩

end Justifies

/-- **The pass by depth** skips what belongs to a container that it has dealt with. -/
theorem justifies_tablistPieces (skip : Nat) (g : Text) (ps : List (Piece Tag)) :
    Justifies true (g ++ Tag.textOf ps) (g.length + skip) (tablistPieces skip ps).2 := by
  fun_induction tablistPieces skip ps generalizing g with
  | case1 => exact .nil
  | case2 skip c ps qs cs hrest ih =>
    have h := ih (g ++ [c])
    rw [hrest, ← List.append_cons] at h
    refine h.mono ?_
    rw [List.length_append, List.length_singleton]
    omega
  | case3 skip t ps qs cs hrest ih | case4 t ps hclose qs cs hrest ih
  | case6 t ps close hclose hrole qs cs hrest ih =>
    have h := ih (g ++ t.source)
    rw [hrest, List.append_assoc] at h
    refine h.mono ?_
    rw [List.length_append]
    omega
  | case5 t ps close hclose hnew qs cs hrest ih =>
    have h := ih (g ++ t.source)
    rw [hrest, List.append_assoc] at h
    have hrole : t.has "role" = false := by simpa using hnew
    obtain ⟨tab, hm⟩ := MadeTablist.exists_justifiedIn_of_closeAroundTabs? hclose hrole g
    have hcons := Justifies.cons hm h
    rwa [MadeTablist.change] at hcons

/-- **The pass by first closing tags** reads on behind a container. -/
theorem justifies_containers (before : Option Char) (g t : Text) :
    Justifies false (g ++ t) g.length
      (((Container.reader.pieces before t).filterMap Piece.item?).filterMap fun c =>
        c.edit?.map Edit.change) := by
  fun_induction Reader.pieces Container.reader before t generalizing g with
  | case1 => exact .nil
  | case2 before d tail c rest hread ih =>
    have h := ih (g ++ c.source)
    rw [List.append_assoc, Container.source_append_of_read? hread] at h
    cases hrole : c.tag.has "role" with
    | true =>
      have hnone : c.edit? = none := by rw [Container.edit?, hrole, if_pos rfl]
      rw [List.filterMap_cons_some (by rfl), List.filterMap_cons_none (by rw [hnone]; rfl)]
      exact h.mono (by rw [List.length_append]; omega)
    | false =>
      have hedit : c.edit? = some (addTablist c.tag) := by
        rw [Container.edit?, hrole, if_neg (by simp)]
      rw [List.filterMap_cons_some (by rfl), List.filterMap_cons_some (by rw [hedit]; rfl)]
      obtain ⟨tab, close, hm, hstop⟩ :=
        MadeTablist.exists_justifiedIn_of_read? hread hrole g
      rw [← hstop] at h
      have hcons := Justifies.cons hm h
      rwa [MadeTablist.change] at hcons
  | case3 before c tail hread ih =>
    have h := ih (g ++ [c])
    rw [← List.append_cons] at h
    exact h.mono (by rw [List.length_append]; omega)

theorem justifies_addTablists (trackDepth : Bool) (s : Text) :
    Justifies trackDepth s 0 (addTablists trackDepth s).changes := by
  cases trackDepth with
  | true =>
    have h := justifies_tablistPieces 0 [] (Tag.pieces s)
    rwa [List.nil_append, Tag.textOf_pieces] at h
  | false => exact justifies_containers none [] s

/-- Tablists whose stretches follow one another rest on distinct tabs. -/
theorem nodup_tabs_of_pairwise {trackDepth : Bool} {s : Text} {ms : List MadeTablist}
    (hms : ∀ m ∈ ms, m.JustifiedIn trackDepth s)
    (hpairs : ms.Pairwise fun m m' => m.close.stop ≤ m'.container.start) :
    (ms.map MadeTablist.tab).Nodup := by
  refine List.pairwise_map.2 (hpairs.imp_of_mem fun {m m'} hm hm' hle heq => ?_)
  have hlt : m.tab.start < m'.tab.start :=
    (hms m hm).tab_lt_close.trans_le (hle.trans (hms m' hm').start_le_tab)
  rw [heq] at hlt
  exact absurd hlt (Nat.lt_irrefl _)

/-- **Tablists are justified by distinct tabs.**  With the pass over containers of tabs alone, in
either mode and on any text, each entry of the log is for a container without a role that has a tab
behind its tag and before the closing tag chosen for it.  The stretches from the containers' tags to
their closing tags follow one another, and no two tablists rest on the same tab; so there are no more
of them than tabs. -/
theorem tablists_justified (o : Options) (trackDepth : Bool) (s : Text) :
    (∃ ms : List MadeTablist,
      (apply (o.onlyTablists trackDepth) s).changes = ms.map MadeTablist.change ∧
      (∀ m ∈ ms, m.JustifiedIn trackDepth s) ∧
      (ms.Pairwise fun m m' => m.close.stop ≤ m'.container.start) ∧
      (ms.map MadeTablist.tab).Nodup) ∧
    (apply (o.onlyTablists trackDepth) s).changes.length ≤ (tabs s).length := by
  obtain ⟨ms, hlog, hms, hpairs⟩ := justifies_addTablists trackDepth s
  rw [apply_onlyTablists, hlog]
  have hjustified := fun m hm => (hms m hm).1
  have hdistinct := nodup_tabs_of_pairwise hjustified hpairs
  have hsub : ms.map MadeTablist.tab ⊆ tabs s := by
    intro p hp
    obtain ⟨m, hm, rfl⟩ := List.mem_map.1 hp
    exact (hjustified m hm).isTab
  refine ⟨⟨ms, rfl, hjustified, hpairs, hdistinct⟩, ?_⟩
  calc (ms.map MadeTablist.change).length = (ms.map MadeTablist.tab).length := by
        rw [List.length_map, List.length_map]
    _ ≤ (tabs s).length := (List.subperm_of_subset hdistinct hsub).length_le

/-- Of two containers that overlap around one tab, the first becomes a tablist. -/
example : ∀ trackDepth, (apply (Options.default.onlyTablists trackDepth)
    "<a><b><i role='tab'></a></b>").changes.map Change.tagName = [("a" : Text)] := by
  decide +kernel

end Fix
end AriaLint
