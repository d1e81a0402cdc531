import AriaLint.Proofs.Closing.Counting
import AriaLint.Proofs.Document.Edits
import AriaLint.Proofs.Fix.NewRoles

/-!
# Matching closing tags and new roles

A container is judged by its own closing tag and by the tabs before it.  Do the roles that a run has
put into the tags of a text move that closing tag, or hide it?

They do not.  `Roled t u` says that `u` is `t` with roles of tablists in tags that do not close
themselves.  The relation is told along the stretches of a text that end with a closing bracket, since
such a stretch acts on the count for what follows by a depth alone (`closeFrom_append`).  A stretch
with a new role has the same closing and opening tags in it: a name that is counted ends before the
role, which starts with a blank, and the tag did not close itself before and does not now
(`stretchCounts`).  Hence the same closing tag matches, and what stands before it differs by new
roles only (`closedAlike_of_roled`), which is all that it takes for the same containers of tabs
(`isSome_closeAroundTabs?_of_roled`).

What stands behind the closing tag has no part in any of this (`closeAroundTabs?_local`).
-/

namespace AriaLint
namespace Fix

open Closing
open Text (IsBlankText)

/-! ## The relation -/

/-- The text does not end with a blank or a slash. -/
def EndsFirm (x : Text) : Prop := ∀ c ∈ x.getLast?, isBlank c = false ∧ c ≠ '/'

theorem EndsFirm.of_append {a b : Text} (h : EndsFirm (a ++ b)) : EndsFirm b := by
  intro c hc
  refine h c ?_
  rw [List.getLast?_append, Option.mem_def.1 hc]
  rfl

/-- The second text is the first one with roles of tablists in tags that do not close themselves. -/
inductive Roled : Text → Text → Prop
  | last {t : Text} (ht : '>' ∉ t) : Roled t t
  | kept {g t u : Text} (hg : '>' ∉ g) (h : Roled t u) : Roled (g ++ '>' :: t) (g ++ '>' :: u)
  | role {x y t u : Text} (hx : '>' ∉ x) (hne : x ≠ []) (hfirm : EndsFirm x) (hy : IsBlankText y)
      (h : Roled t u) :
      Roled (x ++ (y ++ '>' :: t)) (x ++ (tablistRole ++ (y ++ '>' :: u)))

namespace Roled

theorem cons (c : Char) {t u : Text} (h : Roled t u) : Roled (c :: t) (c :: u) := by
  by_cases hc : c = '>'
  · subst hc
    exact kept (g := []) (by simp) h
  · have hmem : ∀ {g : Text}, '>' ∉ g → '>' ∉ c :: g := fun hg => by
      simp [Ne.symm hc, hg]
    cases h with
    | last ht => exact last (hmem ht)
    | @kept g t u hg h => exact kept (g := c :: g) (hmem hg) h
    | @role x y t u hx hne hfirm hy h =>
      refine role (x := c :: x) (hmem hx) (by simp) (fun d hd => hfirm d ?_) hy h
      rwa [List.getLast?_cons_of_ne_nil hne] at hd

theorem append_left (a : Text) {t u : Text} (h : Roled t u) : Roled (a ++ t) (a ++ u) := by
  induction a with
  | nil => exact h
  | cons c a ih => exact ih.cons c

end Roled

/-! ## A stretch and what its tag ends with -/

/-- What may stand at the end of a tag that does not close itself, behind a text that ends with no
slash. -/
structure StaysOpen (w : Text) : Prop where
  head : ∀ c ∈ w.head?, isBlank c = true
  opens : '<' ∉ w
  closes : '>' ∉ w
  slash : ∀ z, EndsFirm z → Tag.endsWithSlash (z ++ w) = false

theorem staysOpen_of_isBlankText {y : Text} (hy : IsBlankText y) : StaysOpen y where
  head c hc := hy c (List.mem_of_mem_head? hc)
  opens := not_mem_of_isBlankText hy (by decide)
  closes := not_mem_of_isBlankText hy (by decide)
  slash z hz := by
    rcases List.eq_nil_or_concat z with rfl | ⟨z, c, rfl⟩
    · have htrim : Text.trimRight y = [] := by
        rw [Text.trimRight, List.reverse_eq_nil_iff, List.dropWhile_eq_nil_iff]
        exact fun c hc => hy c (List.mem_reverse.1 hc)
      rw [List.nil_append, Tag.endsWithSlash, htrim]
      rfl
    · rw [List.concat_eq_append] at hz ⊢
      obtain ⟨hblank, hslash⟩ := hz c (by simp)
      rw [List.append_assoc, List.singleton_append, endsWithSlash_append_cons hblank hy]
      exact beq_eq_false_iff_ne.2 hslash

theorem staysOpen_tablistRole {y : Text} (hy : IsBlankText y) : StaysOpen (tablistRole ++ y) where
  head c hc := by
    obtain rfl : ' ' = c := Option.some.inj hc
    decide
  opens := by
    rw [List.mem_append, not_or]
    exact ⟨by decide, (staysOpen_of_isBlankText hy).opens⟩
  closes := by
    rw [List.mem_append, not_or]
    exact ⟨by decide, (staysOpen_of_isBlankText hy).closes⟩
  slash z _ := by
    have hend : EndsFirm (z ++ tablistRole) := by
      intro c hc
      have hlast : tablistRole.getLast? = some '"' := by decide
      rw [List.getLast?_append, hlast] at hc
      obtain rfl : '"' = c := Option.some.inj hc
      decide
    rw [← List.append_assoc]
    exact (staysOpen_of_isBlankText hy).slash _ hend

theorem StaysOpen.head_append {w : Text} (h : StaysOpen w) (v : Text) :
    ∀ c ∈ (w ++ '>' :: v).head?, endsTagName c = true ∧ c ≠ '/' := by
  intro c hc
  cases w with
  | nil =>
    obtain rfl : '>' = c := Option.some.inj hc
    decide
  | cons d w =>
    obtain rfl : d = c := Option.some.inj hc
    have hblank := h.head d rfl
    refine ⟨by simp [endsTagName, hblank], ?_⟩
    rintro rfl
    exact absurd hblank (by decide)

/-- What starts at a bracket is an opening or a closing tag, whatever its tag ends with. -/
theorem exists_readRest? (x name : Text) :
    ∃ isClosing raw, x = (if isClosing then ['/'] else []) ++ raw ∧
      ∀ w v, StaysOpen w → Turn.read? name ('<' :: (x ++ (w ++ '>' :: v))) =
        Turn.readRest? name isClosing (raw ++ (w ++ '>' :: v)) := by
  by_cases hx : x.head? = some '/'
  · obtain ⟨raw, rfl⟩ := List.head?_eq_some_iff.1 hx
    exact ⟨true, raw, rfl, fun _ _ _ => rfl⟩
  · refine ⟨false, x, rfl, fun w v hw => Turn.read?_of_head? fun hhead => ?_⟩
    cases x with
    | nil => exact (hw.head_append v '/' hhead).2 rfl
    | cons c x => exact hx hhead

/-- The count over a stretch, whatever its tag ends with: it ends at a place before that, or it goes
on behind the stretch from some depth. -/
inductive StretchCounts (name x : Text) (depth start : Nat) : Prop
  | ends {p q : Text} (hx : x = p ++ q)
      (h : ∀ w v, StaysOpen w → ∃ stop,
        closeFrom name depth start (x ++ (w ++ '>' :: v)) = some ⟨start + p.length, stop⟩)
  | goesOn (depth' : Nat)
      (h : ∀ w v, StaysOpen w → closeFrom name depth start (x ++ (w ++ '>' :: v)) =
        closeFrom name depth' (start + (x ++ (w ++ ['>'])).length) v)

/-- A character at which nothing is read leaves the rest of the stretch. -/
theorem StretchCounts.cons {name x : Text} {c : Char} {depth start : Nat}
    (hnone : ∀ w v, StaysOpen w → Turn.read? name (c :: (x ++ (w ++ '>' :: v))) = none)
    (h : StretchCounts name x depth (start + 1)) : StretchCounts name (c :: x) depth start := by
  cases h with
  | @ends p q hx h =>
    refine ends (p := c :: p) (q := q) (by rw [hx]; rfl) fun w v hw => ?_
    obtain ⟨stop, hstop⟩ := h w v hw
    have hplace : start + 1 + p.length = start + (c :: p).length := by
      rw [List.length_cons]
      omega
    exact ⟨stop, by rw [List.cons_append, closeFrom_of_not_read (hnone w v hw), hstop, hplace]⟩
  | goesOn depth' h =>
    refine goesOn depth' fun w v hw => ?_
    have hplace : start + 1 + (x ++ (w ++ ['>'])).length =
        start + (c :: x ++ (w ++ ['>'])).length := by
      rw [List.cons_append, List.length_cons]
      omega
    rw [List.cons_append, closeFrom_of_not_read (hnone w v hw), h w v hw, hplace]

section Stretch

variable {name : Text} (hname : IsNameWord name)
include hname

/-- **What is read at the bracket of a stretch**, whatever its tag ends with: nothing, or a tag that
goes on to the end of the stretch and does not close itself. -/
theorem read?_stretch {x : Text} (hx : '>' ∉ x) (hfirm : EndsFirm x) :
    (∀ w v, StaysOpen w → Turn.read? name ('<' :: (x ++ (w ++ '>' :: v))) = none) ∨
      ∃ isClosing, ∀ w v, StaysOpen w → ∃ u,
        Turn.read? name ('<' :: (x ++ (w ++ '>' :: v))) = some (u, v) ∧
          u.isClosing = isClosing ∧ Tag.endsWithSlash u.attrs = false := by
  obtain ⟨isClosing, raw, rfl, hread⟩ := exists_readRest? x name
  have hraw : '>' ∉ raw := fun hmem => hx (List.mem_append_right _ hmem)
  have hends : ∀ {w v}, StaysOpen w → ∀ c ∈ (w ++ '>' :: v).head?, endsTagName c = true :=
    fun hw c hc => (hw.head_append _ c hc).1
  cases hstarts : startsWithWord name raw with
  | false =>
    refine Or.inl fun w v hw => ?_
    rw [hread w v hw]
    exact readRest?_eq_none hname (hends hw) hstarts
  | true =>
    refine Or.inr ⟨isClosing, fun w v hw => ?_⟩
    obtain ⟨n, z, rfl, hsome⟩ :=
      readRest?_eq_some hname isClosing hraw hw.closes (hends hw) hstarts
    exact ⟨_, (hread w v hw).trans hsome, rfl, hw.slash z hfirm.of_append.of_append⟩

/-- **A stretch counts by what stands before the end of its tag.** -/
theorem stretchCounts {x : Text} (hx : '>' ∉ x) (hfirm : EndsFirm x) (depth start : Nat) :
    StretchCounts name x depth start := by
  induction x generalizing start with
  | nil =>
    refine .goesOn depth fun w v hw => ?_
    have hopen : '<' ∉ w ++ ['>'] := by simp [hw.opens]
    have happ : [] ++ (w ++ '>' :: v) = (w ++ ['>']) ++ v := by simp
    rw [happ, closeFrom_append_of_not_mem hopen]
    rfl
  | cons c x ih =>
    have hx' : '>' ∉ x := fun hmem => hx (List.mem_cons_of_mem c hmem)
    have hfirm' : EndsFirm x := hfirm.of_append (a := [c])
    have hrest := ih hx' hfirm' (start + 1)
    by_cases hc : c = '<'
    · subst hc
      have happ : ∀ w v : Text, '<' :: (x ++ (w ++ '>' :: v)) =
          ('<' :: (x ++ (w ++ ['>']))) ++ v := fun w v => by simp
      rcases read?_stretch hname hx' hfirm' with hnone | ⟨isClosing, hturn⟩
      · exact hrest.cons hnone
      · cases isClosing with
        | false =>
          refine .goesOn (depth + 1) fun w v hw => ?_
          obtain ⟨u, hu, hopening, hslash⟩ := hturn w v hw
          rw [happ] at hu
          rw [List.cons_append, happ, closeFrom_of_opening hu hopening, hslash]
          rfl
        | true =>
          cases depth with
          | zero =>
            refine .ends (p := []) rfl fun w v hw => ?_
            obtain ⟨u, hu, hclose, -⟩ := hturn w v hw
            rw [happ] at hu
            rw [List.cons_append, happ, (closeFrom_of_closing hu hclose 0 start).2]
            exact ⟨_, rfl⟩
          | succ depth =>
            refine .goesOn depth fun w v hw => ?_
            obtain ⟨u, hu, hclose, -⟩ := hturn w v hw
            rw [happ] at hu
            rw [List.cons_append, happ, (closeFrom_of_closing hu hclose depth start).1]
            rfl
    · exact hrest.cons fun w v _ => Turn.read?_cons_of_ne hc

end Stretch

/-! ## The same closing tag -/

/-- Closing tags of which none is there or both are, with the same text before them but for new
roles. -/
inductive ClosedAlike : Text → Text → Option Span → Option Span → Prop
  | none (t u : Text) : ClosedAlike t u none none
  | some {p p' : Text} (h : Inserted p p') (q q' : Text) (stop stop' : Nat) :
      ClosedAlike (p ++ q) (p' ++ q') (some ⟨p.length, stop⟩) (some ⟨p'.length, stop'⟩)

theorem ClosedAlike.append_left {a a' t u : Text} {s s' : Option Span} (h : ClosedAlike t u s s')
    (ha : ∀ {p p'}, Inserted p p' → Inserted (a ++ p) (a' ++ p')) :
    ClosedAlike (a ++ t) (a' ++ u) (s.map (Span.shift a.length)) (s'.map (Span.shift a'.length)) := by
  cases h with
  | none => exact ClosedAlike.none _ _
  | @some p p' h q q' stop stop' =>
    have hsome := ClosedAlike.some (ha h) q q' (a.length + stop) (a'.length + stop')
    rw [List.length_append, List.length_append, List.append_assoc, List.append_assoc] at hsome
    exact hsome

section Closes

variable {name : Text} (hname : IsNameWord name)
include hname

theorem closeFrom_of_unclosed {t : Text} (ht : '>' ∉ t) (depth start : Nat) :
    closeFrom name depth start t = none := by
  induction t generalizing start with
  | nil => exact closeFrom_nil depth start
  | cons c t ih =>
    have hnone : Turn.read? name (c :: t) = none := by
      cases hread : Turn.read? name (c :: t) with
      | none => rfl
      | some r =>
        obtain ⟨u, rest⟩ := r
        have hreader : (Turn.reader name).read? none (c :: t) = some (u, rest) := hread
        obtain ⟨k, d, hk, hd, -, -⟩ := (Turn.endsAt_reader hname).reading hreader
        obtain rfl : d = '>' := eq_of_beq hd
        exact absurd (by rw [hk]; simp) ht
    rw [closeFrom_of_not_read hnone]
    exact ih (fun hmem => ht (List.mem_cons_of_mem c hmem)) (start + 1)

omit hname in
/-- Behind a stretch, the count goes on as from the head of a text. -/
theorem ClosedAlike.behind {a a' t u : Text} {depth depth' : Nat}
    (h : ClosedAlike t u (closeFrom name depth' 0 t) (closeFrom name depth' 0 u))
    (ha : ∀ {p p'}, Inserted p p' → Inserted (a ++ p) (a' ++ p'))
    (ht : closeFrom name depth 0 (a ++ t) = closeFrom name depth' (0 + a.length) t)
    (hu : closeFrom name depth 0 (a' ++ u) = closeFrom name depth' (0 + a'.length) u) :
    ClosedAlike (a ++ t) (a' ++ u) (closeFrom name depth 0 (a ++ t))
      (closeFrom name depth 0 (a' ++ u)) := by
  rw [ht, hu, Nat.add_comm 0, Nat.add_comm 0, closeFrom_add, closeFrom_add]
  exact h.append_left ha

/-- **New roles leave the count as it is.** -/
theorem closedAlike_of_roled {t u : Text} (h : Roled t u) (depth : Nat) :
    ClosedAlike t u (closeFrom name depth 0 t) (closeFrom name depth 0 u) := by
  induction h generalizing depth with
  | @last t ht =>
    rw [closeFrom_of_unclosed hname ht]
    exact ClosedAlike.none t t
  | @kept g t u hg h ih =>
    have happ : ∀ v : Text, g ++ '>' :: v = (g ++ ['>']) ++ v := fun v => by simp
    rw [happ t, happ u]
    rcases closeFrom_append hname (Tag.bracketsClose_append_close g) depth 0 with
      ⟨s, hs, hclosed⟩ | ⟨depth', hopen⟩
    · rw [hclosed, hclosed]
      have hplace : ((g ++ ['>']).take s.start).length = s.start := by
        rw [List.length_take]
        omega
      have hsplit : ∀ v : Text, g ++ ['>'] ++ v =
          (g ++ ['>']).take s.start ++ ((g ++ ['>']).drop s.start ++ v) := fun v => by
        rw [← List.append_assoc, List.take_append_drop]
      have hsome := ClosedAlike.some (Inserted.refl ((g ++ ['>']).take s.start))
        ((g ++ ['>']).drop s.start ++ t) ((g ++ ['>']).drop s.start ++ u) s.stop s.stop
      rw [← hsplit, ← hsplit, hplace] at hsome
      exact hsome
    · exact (ih depth').behind (fun h => h.append_left _) (hopen t) (hopen u)
  | @role x y t u hx hne hfirm hy h ih =>
    have hplain := staysOpen_of_isBlankText hy
    have hroled := staysOpen_tablistRole hy
    have happ : ∀ w v : Text, x ++ (w ++ '>' :: v) = (x ++ (w ++ ['>'])) ++ v := fun w v => by simp
    have hassoc : ∀ v : Text, tablistRole ++ (y ++ '>' :: v) = (tablistRole ++ y) ++ '>' :: v :=
      fun v => by simp
    rw [hassoc]
    rcases stretchCounts hname hx hfirm depth 0 with ⟨rfl, hends⟩ | ⟨depth', hon⟩
    · obtain ⟨stop, hstop⟩ := hends y t hplain
      obtain ⟨stop', hstop'⟩ := hends (tablistRole ++ y) u hroled
      rw [hstop, hstop', Nat.zero_add, List.append_assoc, List.append_assoc]
      exact ClosedAlike.some (Inserted.refl _) _ _ stop stop'
    · have ht := hon y t hplain
      have hu := hon (tablistRole ++ y) u hroled
      rw [happ y t] at ht
      rw [happ (tablistRole ++ y) u] at hu
      rw [happ y t, happ (tablistRole ++ y) u]
      refine (ih depth').behind (fun {p p'} h => ?_) ht hu
      have hins := (Inserted.role (isTail_of_isBlankText hy) h).append_left x
      rwa [hassoc, happ y p, happ (tablistRole ++ y) p'] at hins

end Closes

/-! ## What stands behind a closing tag -/

/-- A closing tag that is found ends with a bracket, and starts before it. -/
theorem exists_append_of_closeFrom {name t : Text} {depth start : Nat} {s : Span}
    (h : closeFrom name depth start t = some s) :
    ∃ k rest, t = k ++ '>' :: rest ∧ s.stop = start + (k ++ ['>']).length ∧ start ≤ s.start ∧
      s.start < s.stop := by
  induction t using Turn.textInduction name generalizing depth start with
  | nil =>
    rw [closeFrom_nil] at h
    exact absurd h (by simp)
  | char c t hread ih =>
    rw [closeFrom_of_not_read hread] at h
    obtain ⟨k, rest, rfl, hstop, hstart, hspan⟩ := ih h
    refine ⟨c :: k, rest, rfl, ?_, Nat.le_of_succ_le hstart, hspan⟩
    rw [hstop, List.cons_append, List.length_cons]
    omega
  | turn u t hread ih =>
    have hpos : 0 < u.source.length := by simp [Turn.source]
    -- what is found behind the tag is found in the text
    have behind : ∀ {depth'}, closeFrom name depth' (start + u.source.length) t = some s →
        ∃ k rest, u.source ++ t = k ++ '>' :: rest ∧ s.stop = start + (k ++ ['>']).length ∧
          start ≤ s.start ∧ s.start < s.stop := by
      intro depth' ht
      obtain ⟨k, rest, rfl, hstop, hstart, hspan⟩ := ih ht
      refine ⟨u.source ++ k, rest, (List.append_assoc _ _ _).symm, ?_, by omega, hspan⟩
      rw [hstop]
      simp only [List.length_append]
      omega
    cases hclosing : u.isClosing with
    | false =>
      rw [closeFrom_of_opening hread hclosing] at h
      exact behind h
    | true =>
      cases depth with
      | succ depth =>
        rw [(closeFrom_of_closing hread hclosing depth start).1] at h
        exact behind h
      | zero =>
        rw [(closeFrom_of_closing hread hclosing 0 start).2] at h
        obtain rfl := Option.some.inj h
        refine ⟨'<' :: ((if u.isClosing then ['/'] else []) ++ u.rawName ++ u.attrs), t, ?_, rfl,
          Nat.le_refl _, Nat.lt_add_of_pos_right hpos⟩
        simp [Turn.source]

/-- **The matching closing tag is settled** by what stands up to its end. -/
theorem matching?_local {name t : Text} (hname : IsNameWord name) {s : Span}
    (h : matching? name t = some s) :
    ∃ k rest, t = k ++ rest ∧ k.length = s.stop ∧ s.start < s.stop ∧
      ∀ rest', matching? name (k ++ rest') = some s := by
  have hfrom : closeFrom name 0 0 t = some s := h
  obtain ⟨k, rest, rfl, hstop, -, hspan⟩ := exists_append_of_closeFrom hfrom
  have hlen : (k ++ ['>']).length = s.stop := by rw [hstop, Nat.zero_add]
  have happ : k ++ '>' :: rest = (k ++ ['>']) ++ rest := by simp
  refine ⟨k ++ ['>'], rest, happ, hlen, hspan, ?_⟩
  rw [happ] at hfrom
  rcases closeFrom_append hname (Tag.bracketsClose_append_close k) 0 0 with
    ⟨s', -, hclosed⟩ | ⟨depth', hopen⟩
  · rw [hclosed] at hfrom
    obtain rfl := Option.some.inj hfrom
    exact hclosed
  · -- the closing tag would start behind its own end
    rw [hopen] at hfrom
    obtain ⟨-, -, -, -, hle, -⟩ := exists_append_of_closeFrom hfrom
    omega

/-! ## The same containers -/

section Containers

variable {tag : Tag} (hname : IsNameWord tag.name)
include hname

/-- **New roles neither make containers of tabs nor undo any.** -/
theorem isSome_closeAroundTabs?_of_roled {t u : Text} (h : Roled t u) :
    (closeAroundTabs? tag u).isSome = (closeAroundTabs? tag t).isSome := by
  unfold closeAroundTabs?
  split
  · rfl
  · have halike : ClosedAlike t u (matching? tag.name t) (matching? tag.name u) :=
      closedAlike_of_roled hname h 0
    generalize matching? tag.name t = s at halike ⊢
    generalize matching? tag.name u = s' at halike ⊢
    cases halike with
    | none => rfl
    | @some p p' hins q q' stop stop' =>
      have htabs := isSome_find?_tabRole_of_inserted hins none
      simp only [Option.filter_some, List.take_left, htabs]
      split <;> rfl

/-- **A container of tabs is settled** by what stands up to the end of its closing tag. -/
theorem closeAroundTabs?_local {t : Text} {close : Span} (h : closeAroundTabs? tag t = some close) :
    ∃ k rest, t = k ++ rest ∧ k.length = close.stop ∧
      ∀ rest', closeAroundTabs? tag (k ++ rest') = some close := by
  unfold closeAroundTabs? at h ⊢
  split at h
  · exact absurd h (by simp)
  · next hself =>
    obtain ⟨hmatch, htabs⟩ := Option.filter_eq_some_iff.1 h
    obtain ⟨k, rest, rfl, hlen, hspan, hlocal⟩ := matching?_local hname hmatch
    refine ⟨k, rest, rfl, hlen, fun rest' => ?_⟩
    rw [if_neg hself, hlocal, Option.filter_some]
    have htake : ∀ v : Text, (k ++ v).take close.start = k.take close.start := fun v =>
      List.take_append_of_le_length (by omega)
    rw [htake] at htabs ⊢
    rw [if_pos htabs]

end Containers

end Fix
end AriaLint
