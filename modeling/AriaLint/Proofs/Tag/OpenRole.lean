import AriaLint.Proofs.Attribute.Assigned
import AriaLint.Proofs.Fix.Additions

/-!
# Roles that are left open

A tag without a role attribute is made a tablist by a role that is put behind its attributes.  Is this
the role that is read?

The reading takes the first role that is given a value.  A tag may give a role an opening quote and
never close it: then it has no role, but the quote of the new role closes that value, which now reads
as what stood there with ` role=` behind it.  This is the only way to miss the new role
(`role?_eq_tablist_iff`).
-/

namespace AriaLint
namespace Attribute

/-- Something is assigned at some place where a name can start. -/
theorem isAssignedAfter_iff {names : List Text} {accepts : Text → Bool} {before : Option Char}
    {t : Text} :
    isAssignedAfter names accepts before t = true ↔
      ∃ a b, t = a ++ b ∧ canStartAfter (Reader.beforeAt before a) = true ∧
        startsAssigned names accepts b = true := by
  induction t generalizing before with
  | nil =>
    refine iff_of_false (by simp [isAssignedAfter]) ?_
    rintro ⟨a, b, hsplit, -, hstarts⟩
    obtain ⟨-, rfl⟩ := List.append_eq_nil_iff.1 hsplit.symm
    obtain ⟨n, c, v, hnil, -⟩ := startsAssigned_iff.1 hstarts
    exact absurd hnil (by simp)
  | cons c t ih =>
    rw [isAssignedAfter, Bool.or_eq_true, Bool.and_eq_true, ih]
    constructor
    · rintro (⟨hbefore, hstarts⟩ | ⟨a, b, rfl, hbefore, hstarts⟩)
      · exact ⟨[], c :: t, rfl, hbefore, hstarts⟩
      · exact ⟨c :: a, b, rfl, by rwa [Reader.beforeAt_cons], hstarts⟩
    · rintro ⟨a, b, hsplit, hbefore, hstarts⟩
      cases a with
      | nil =>
        obtain rfl : c :: t = b := hsplit
        exact Or.inl ⟨hbefore, hstarts⟩
      | cons d a =>
        obtain ⟨rfl, rfl⟩ := List.cons.inj hsplit
        rw [Reader.beforeAt_cons] at hbefore
        exact Or.inr ⟨a, b, rfl, hbefore, hstarts⟩

/-- The text starts with a quote. -/
def startsWithQuote (t : Text) : Bool := t.head?.any isQuote

/-- **A role is given an opening quote at some place.** -/
theorem isAssigned_startsWithQuote_iff {name t : Text} :
    isAssigned [name] startsWithQuote t = true ↔
      ∃ a n b b' p w, t = a ++ (n ++ (b ++ '=' :: (b' ++ p :: w))) ∧
        canStartAfter (Reader.beforeAt none a) = true ∧
        List.Forall₂ (fun w c => sameLetter w c = true) name n ∧ Text.IsBlankText b ∧
        Text.IsBlankText b' ∧ isQuote p = true := by
  rw [isAssigned, isAssignedAfter_iff]
  constructor
  · rintro ⟨a, u, rfl, hbefore, hstarts⟩
    obtain ⟨n, b, v, rfl, ⟨m, hm, hlike⟩, hb, hquote⟩ := startsAssigned_iff.1 hstarts
    obtain rfl := List.mem_singleton.1 hm
    obtain ⟨p, hp, hq⟩ := (Option.any_eq_true _ _).1 hquote
    obtain ⟨w, hw⟩ := List.head?_eq_some_iff.1 hp
    obtain ⟨b', rfl, hb', -⟩ := Text.trimLeft_eq_cons_iff.1 hw
    exact ⟨a, n, b, b', p, w, rfl, hbefore, hlike, hb, hb', hq⟩
  · rintro ⟨a, n, b, b', p, w, rfl, hbefore, hlike, hb, hb', hp⟩
    refine ⟨a, _, rfl, hbefore, startsAssigned_iff.2 ⟨n, b, b' ++ p :: w, rfl,
      ⟨name, List.mem_singleton_self name, hlike⟩, hb, ?_⟩⟩
    rw [Text.trimLeft_append_cons hb' (isBlank_of_isQuote hp)]
    exact hp

/-- What is not found with any value is not found with one that is not empty. -/
theorem find?_eq_none_of_has {name t : Text} (h : has name t = false) (filled : Bool) :
    find? name filled t = none := by
  cases hf : find? name filled t with
  | none => rfl
  | some f =>
    obtain ⟨a, b, rfl, hb⟩ := Reader.isSome_find?_iff.1 (Option.isSome_iff_exists.2 ⟨f, hf⟩)
    obtain ⟨r, hr⟩ := Option.isSome_iff_exists.1 hb
    have hread : ((named name false).read? (Reader.beforeAt none a) b).isSome = true := by
      refine Option.isSome_iff_exists.2 ⟨r, ?_⟩
      exact Option.filter_eq_some_iff.2 ⟨(Option.filter_eq_some_iff.1 hr).1, rfl⟩
    have hfound : (find? name false (a ++ b)).isSome = true :=
      Reader.isSome_find?_iff.2 ⟨a, b, rfl, hread⟩
    rw [has, value?, Option.isSome_map, hfound] at h
    exact Bool.noConfusion h

theorem exists_of_not_isUnquoted {w : Text} (h : ¬ IsUnquoted w) :
    ∃ v q z, w = v ++ q :: z ∧ IsUnquoted v ∧ isQuote q = true := by
  induction w with
  | nil => exact absurd (by simp [IsUnquoted]) h
  | cons c w ih =>
    cases hc : isQuote c with
    | true => exact ⟨[], c, w, rfl, by simp [IsUnquoted], hc⟩
    | false =>
      have hw : ¬ IsUnquoted w := fun hw => h fun d hd => by
        rcases List.mem_cons.1 hd with rfl | hd
        · exact hc
        · exact hw d hd
      obtain ⟨v, q, z, rfl, hv, hq⟩ := ih hw
      refine ⟨c :: v, q, z, rfl, fun d hd => ?_, hq⟩
      rcases List.mem_cons.1 hd with rfl | hd
      · exact hc
      · exact hv d hd

end Attribute

namespace Tag

open Attribute

/-- An attribute text gives a role an opening quote, in front of `w`. -/
structure QuotesRole (attrs a k w : Text) : Prop where
  split : attrs = a ++ (k ++ w)
  starts : canStartAfter (Reader.beforeAt none a) = true
  assigned : ∃ n b b' p, k = n ++ (b ++ '=' :: (b' ++ [p])) ∧
    List.Forall₂ (fun w c => sameLetter w c = true) "role" n ∧ Text.IsBlankText b ∧
    Text.IsBlankText b' ∧ isQuote p = true

/-- A closing quote behind a value makes it a role. -/
theorem QuotesRole.read? {attrs a k v z : Text} {q : Char} (h : QuotesRole attrs a k (v ++ q :: z))
    (hv : IsUnquoted v) (hq : isQuote q = true) (filled : Bool)
    (hfilled : filled = true → v ≠ []) :
    ((named "role" filled).read? (Reader.beforeAt none a) (k ++ (v ++ q :: z))).isSome = true := by
  obtain ⟨n, b, b', p, rfl, hlike, hb, hb', hp⟩ := h.assigned
  refine Option.isSome_iff_exists.2 ⟨(⟨n, v⟩, z), Option.filter_eq_some_iff.2 ⟨?_, ?_⟩⟩
  · have hread : readAs? (.exactly "role")
        (n ++ (b ++ '=' :: (b' ++ [p])) ++ (v ++ q :: z)) = some (⟨n, v⟩, z) :=
      readAs?_exactly_iff.2 ⟨hlike, b ++ '=' :: (b' ++ p :: v), q, by simp, hq,
        b, b', p, rfl, hb, hb', hp, hv⟩
    show (Attribute.reader [.exactly (Text.lower "role")]).read? _ _ = _
    rw [show Text.lower "role" = "role".toList by decide, reader_exactly, if_pos h.starts, hread]
  · cases filled with
    | false => rfl
    | true => simpa using hfilled rfl

/-- The tag has no role, but gives one an opening quote. -/
def leavesRoleOpen (t : Tag) : Bool :=
  !t.has "role" && isAssigned ["role"] startsWithQuote t.attrs

theorem QuotesRole.exists_quote {attrs a k w : Text} (h : QuotesRole attrs a k w) :
    ∃ l p, k = l ++ [p] ∧ isQuote p = true := by
  obtain ⟨n, b, b', p, rfl, -, -, -, hp⟩ := h.assigned
  exact ⟨n ++ (b ++ '=' :: b'), p, by simp, hp⟩

/-- The opening quote stands in front of a text without quotes. -/
theorem QuotesRole.of_append {x y a k w : Text} (h : QuotesRole (x ++ y) a k w)
    (hy : IsUnquoted y) : ∃ w', w = w' ++ y ∧ QuotesRole x a k w' := by
  obtain ⟨l, p, rfl, hp⟩ := h.exists_quote
  have hsplit := h.split
  rw [← List.append_assoc] at hsplit
  rcases List.append_eq_append_iff.1 hsplit with ⟨z, hz, rfl⟩ | ⟨z, rfl, hw⟩
  · rcases List.eq_nil_or_concat z with rfl | ⟨z, c, rfl⟩
    · refine ⟨[], rfl, ?_, h.starts, h.assigned⟩
      rw [List.append_nil] at hz
      rw [List.append_nil, ← hz]
    · -- the quote would stand behind
      rw [List.concat_eq_append, ← List.append_assoc, ← List.append_assoc] at hz
      obtain rfl : p = c := List.singleton_inj.1 (List.append_inj' hz rfl).2
      exact absurd (hy p (by simp)) (by simp [hp])
  · exact ⟨z, hw, by simp, h.starts, h.assigned⟩

theorem leavesRoleOpen_iff {t : Tag} (hnone : t.has "role" = false) :
    t.leavesRoleOpen = true ↔ ∃ a k w, QuotesRole t.attrs a k w ∧ IsUnquoted w := by
  rw [leavesRoleOpen, hnone, Bool.not_false, Bool.true_and, isAssigned_startsWithQuote_iff]
  constructor
  · rintro ⟨a, n, b, b', p, w, hsplit, hbefore, hlike, hb, hb', hp⟩
    have hquotes : QuotesRole t.attrs a (n ++ (b ++ '=' :: (b' ++ [p]))) w :=
      ⟨by rw [hsplit]; simp, hbefore, n, b, b', p, rfl, hlike, hb, hb', hp⟩
    refine ⟨a, _, w, hquotes, ?_⟩
    by_contra hquoted
    obtain ⟨v, q, z, rfl, hv, hq⟩ := exists_of_not_isUnquoted hquoted
    have hfound : (Attribute.find? "role" false t.attrs).isSome = true :=
      Reader.isSome_find?_iff.2 ⟨a, _, hquotes.split, hquotes.read? hv hq false (by simp)⟩
    rw [find?_eq_none_of_has hnone] at hfound
    exact Bool.noConfusion hfound
  · rintro ⟨a, k, w, ⟨hsplit, hbefore, n, b, b', p, rfl, hlike, hb, hb', hp⟩, -⟩
    exact ⟨a, n, b, b', p, w, by rw [hsplit]; simp, hbefore, hlike, hb, hb', hp⟩

/-- A role that is found in a tag with a role left open starts no later than that one: the quote of
the new role closes it. -/
theorem QuotesRole.length_before_le {x a k w : Text} (h : QuotesRole x a k w) (hw : IsUnquoted w)
    {f : Found Attribute} (hf : Attribute.find? "role" true (x ++ Fix.tablistRole) = some f) :
    f.before.length ≤ a.length := by
  have hadd : Fix.tablistRole = " role=" ++ '"' :: ("tablist" ++ ['"']) := by decide
  have hrun : IsUnquoted (w ++ " role=") := List.forall_mem_append.2 ⟨hw, by decide⟩
  have hlonger : QuotesRole (x ++ Fix.tablistRole) a k
      ((w ++ " role=") ++ '"' :: ("tablist" ++ ['"'])) :=
    ⟨by rw [h.split, hadd]; simp, h.starts, h.assigned⟩
  have hread := hlonger.read? hrun (by decide) true (by simp)
  obtain ⟨g, hg, hle⟩ := Reader.exists_find?_append hread
  rw [← hlonger.split] at hg
  obtain rfl : f = g := Option.some.inj (hf.symm.trans hg)
  exact hle

/-- The opening quote of a role lies behind every place up to its start. -/
theorem QuotesRole.exists_mem_quote {x z a k w p n : Text} (h : QuotesRole x a k w)
    (hsplit : p ++ n = x ++ z) (hle : p.length ≤ a.length) : ∃ r ∈ n, isQuote r = true := by
  obtain ⟨l, r, rfl, hr⟩ := h.exists_quote
  refine ⟨r, ?_, hr⟩
  rw [h.split, List.append_assoc] at hsplit
  rcases List.append_eq_append_iff.1 hsplit with ⟨c, -, hc⟩ | ⟨c, hc, hc'⟩
  · rw [hc]
    simp
  · have hnil : c = [] := by
      rw [hc, List.length_append] at hle
      exact List.eq_nil_of_length_eq_zero (by omega)
    rw [hnil, List.nil_append] at hc'
    rw [← hc']
    simp

variable {t u : Tag}

/-- **The role of a tag that is made a tablist is read as one exactly when no role was left open.** -/
theorem role?_eq_tablist_iff (h : Extends Fix.tablistRole t u) (hnone : t.has "role" = false) :
    u.role? = some "tablist" ↔ t.leavesRoleOpen = false := by
  obtain ⟨-, x, y, hx, hu, htail, -⟩ := h
  have hy := isUnquoted_of_isTail htail
  have hadd : Fix.tablistRole = " role=" ++ '"' :: ("tablist" ++ ['"']) := by decide
  have hxnone : Attribute.find? "role" true x = none := by
    have hattrs := find?_eq_none_of_has hnone true
    rw [hx, find?_append_unquoted isQuoteless_lower_role hy, Option.map_eq_none_iff] at hattrs
    exact hattrs
  -- the role that is read ends with one of the quotes of the new one
  obtain ⟨f, hf⟩ : ∃ f, Attribute.find? "role" true (x ++ Fix.tablistRole) = some f := by
    have hsome : (Attribute.find? "role" true (x ++ Fix.tablistRole ++ [])).isSome = true :=
      isSome_find?_written (by decide) (by decide) (by decide) x []
    rw [List.append_nil] at hsome
    exact Option.isSome_iff_exists.1 hsome
  have hvalue : filledValue? "role" u.attrs = some f.item.value := by
    rw [filledValue?, hu, find?_append_unquoted isQuoteless_lower_role hy, hf]
    rfl
  obtain ⟨b, b', p, q, hsplit, hstart, hlike, hb, hb', hp, hq, hunquoted, hfind⟩ :=
    find?_eq_some isQuoteless_lower_role hf
  rw [hadd] at hsplit
  rcases value_of_appended (r := '"') (by decide) (by decide) hunquoted hp hq (by decide)
    hsplit.symm with ⟨z, rfl⟩ | ⟨w, hw, hopen⟩ | ⟨htablist, hplace⟩
  · rw [hfind z] at hxnone
    exact absurd hxnone (by simp)
  · -- the first one closes a value that was left open
    refine iff_of_false (fun hrole => ?_) ?_
    · obtain ⟨v, hv, hlower⟩ := exists_filledValue?_of_role? hrole
      obtain rfl := Option.some.inj (hvalue.symm.trans hv)
      have hmem : '=' ∈ Text.lower (Text.trim f.item.value) := by
        refine Text.mem_lower_of_equals (Text.mem_trim ?_ (by decide))
        rw [hw]
        exact List.mem_append_right _ (by decide)
      rw [← hlower] at hmem
      exact absurd hmem (by decide)
    · rw [Bool.not_eq_false, leavesRoleOpen_iff hnone]
      have hwy : IsUnquoted (w ++ y) := by
        rw [hw] at hunquoted
        exact List.forall_mem_append.2 ⟨(List.forall_mem_append.1 hunquoted).1, hy⟩
      refine ⟨f.before, f.item.name ++ (b ++ '=' :: (b' ++ [p])), w ++ y, ⟨?_, hstart, ?_⟩, hwy⟩
      · rw [hx, hopen]
        simp
      · exact ⟨f.item.name, b, b', p, rfl, hlike, hb, hb', hp⟩
  · -- the second one closes the new role itself
    refine iff_of_true ?_ ?_
    · unfold role? Attribute.role?
      rw [hvalue, htablist]
      decide
    · refine Bool.eq_false_iff.2 fun hleft => ?_
      obtain ⟨a, k, w, hquotes, hw⟩ := (leavesRoleOpen_iff hnone).1 hleft
      rw [hx] at hquotes
      obtain ⟨w', rfl, hfront⟩ := hquotes.of_append hy
      have hle := hfront.length_before_le (List.forall_mem_append.1 hw).1 hf
      obtain ⟨r, hr, hquote⟩ := hfront.exists_mem_quote hplace hle
      have hname : IsUnquoted (f.item.name ++ (b ++ '=' :: b')) :=
        List.forall_mem_append.2 ⟨isUnquoted_of_sameLetter isQuoteless_lower_role hlike,
          List.forall_mem_append.2 ⟨isUnquoted_of_isBlankText hb,
            List.forall_mem_cons.2 ⟨by decide, isUnquoted_of_isBlankText hb'⟩⟩⟩
      rw [hname r hr] at hquote
      exact Bool.noConfusion hquote

end Tag
end AriaLint
