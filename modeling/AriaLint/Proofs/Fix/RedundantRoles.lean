import AriaLint.Proofs.Attribute.Edits
import AriaLint.Proofs.Fix.Additions
import AriaLint.Proofs.Fix.Log
import AriaLint.Proofs.Fix.Others
import AriaLint.Proofs.Smell.Reports

/-!
# Redundant roles, found and removed

The detector and the fixer judge a role by the same two readings of a tag, so what one reports the
other removes, tag by tag and in order (`redundantRole?`, `redundantRoles_agree`).

Which attribute goes is another matter.  The explicit role is read from the first role attribute
with a value.  The removal, told by itself, reads more: a run of blanks and the attribute behind it
(`spacedRole`), wherever such a stretch comes first.  The two cannot differ, because a stretch that
begins with blanks can be read at each of them, and so the first place is the one where the run
begins (`find?_spacedRole`).
-/

namespace AriaLint

namespace Text

/-- What is left when the blanks at the end are gone does not end with one. -/
theorem exists_getLast?_trimRight {t x z : Text} {c : Char} (h : trimRight t = x ++ c :: z) :
    ∃ y d, c :: z = y ++ [d] ∧ isBlank d = false := by
  obtain ⟨y, d, hyd⟩ := List.eq_nil_or_concat (c :: z) |>.resolve_left (by simp)
  refine ⟨y, d, by rw [hyd, List.concat_eq_append], ?_⟩
  have hrev : t.reverse.dropWhile isBlank = d :: (x ++ y).reverse := by
    have hback := congrArg List.reverse h
    rw [trimRight, List.reverse_reverse, hyd] at hback
    rw [hback]
    simp
  have hhead := List.head?_dropWhile_not isBlank t.reverse
  rw [hrev] at hhead
  simpa using hhead

/-- The blanks at the head of a text end where something else stands, whatever follows. -/
theorem blanks_append {t w : Text} {g : Char} (h : t.dropWhile isBlank = g :: w) (s : Text) :
    (t ++ s).takeWhile isBlank = t.takeWhile isBlank ∧
      (t ++ s).dropWhile isBlank = g :: (w ++ s) := by
  have hlength : (t.takeWhile isBlank).length ≠ t.length := by
    intro heq
    have hwhole := congrArg List.length (List.takeWhile_append_dropWhile (p := isBlank) (l := t))
    rw [List.length_append, h, List.length_cons] at hwhole
    omega
  rw [List.takeWhile_append, if_neg hlength, List.dropWhile_append, h]
  exact ⟨rfl, rfl⟩

end Text

namespace Attribute

open Reader

/-! ## The attribute that goes -/

/-- Where a role is read there is no blank. -/
theorem exists_cons_of_role {before : Option Char} {u rest : Text} {a : Attribute}
    (h : (named "role" true).read? before u = some (a, rest)) :
    ∃ c v, u = c :: v ∧ isBlank c = false := by
  obtain ⟨hread, -⟩ := Option.filter_eq_some_iff.1 h
  obtain ⟨-, ⟨form, hform, hnames⟩, b, b', p, q, hu, -⟩ := exists_of_read? hread
  obtain rfl := List.mem_singleton.1 hform
  have hlower : Text.lower "role" = 'r' :: ['o', 'l', 'e'] := by decide
  rw [NameForm.Names, hlower] at hnames
  obtain ⟨c, v, hc, -, hname⟩ := List.forall₂_cons_left_iff.1 hnames
  refine ⟨c, _, by rw [hu, hname]; rfl, ?_⟩
  cases hblank : isBlank c with
  | false => rfl
  | true =>
    have hfold : fold 'r' = fold c := eq_of_beq hc
    rw [fold_of_isBlank hblank] at hfold
    rw [← hfold] at hblank
    exact absurd hblank (by decide)

/-- The reader of a role attribute with a value, together with all blanks before it. -/
def spacedRole : Reader (Text × Attribute) where
  read? before t :=
    ((named "role" true).read? (beforeAt before (t.takeWhile isBlank)) (t.dropWhile isBlank)).map
      fun r => ((t.takeWhile isBlank, r.1), r.2)
  shortens h := by
    obtain ⟨r, hr, heq⟩ := Option.map_eq_some_iff.1 h
    obtain ⟨-, rfl⟩ := Prod.mk.inj heq
    exact Nat.lt_of_lt_of_le ((named "role" true).shortens hr)
      (List.dropWhile_sublist _).length_le

/-- **The blanks do not change the place.**  The first role with the blanks before it is the first
role, and the blanks are all that stand before it. -/
theorem find?_spacedRole (t : Text) :
    spacedRole.find? none t = (find? "role" true t).map fun f =>
      ⟨Text.trimRight f.before, (Text.trailingBlanks f.before, f.item), f.after⟩ := by
  cases hf : find? "role" true t with
  | none =>
    rw [Option.map_none, ← Option.not_isSome_iff_eq_none]
    intro hsome
    obtain ⟨a, b, rfl, hb⟩ := isSome_find?_iff.1 hsome
    have hplace : ((named "role" true).find? none
        ((a ++ b.takeWhile isBlank) ++ b.dropWhile isBlank)).isSome = true := by
      refine isSome_find?_iff.2 ⟨_, _, rfl, ?_⟩
      rw [beforeAt_append]
      exact (Option.isSome_map ▸ hb :)
    rw [List.append_assoc, List.takeWhile_append_dropWhile, ← find?_eq, hf] at hplace
    exact Bool.noConfusion hplace
  | some f =>
    rw [find?_eq] at hf
    obtain ⟨u, hsplit, hread, hfirst⟩ := find?_eq_some_iff.1 hf
    obtain ⟨c, v, rfl, hc⟩ := exists_cons_of_role hread
    have hcut := Text.trimRight_append_trailingBlanks f.before
    have hblanks := Text.isBlankText_trailingBlanks f.before
    rw [Option.map_some]
    refine find?_eq_some_iff.2 ⟨Text.trailingBlanks f.before ++ c :: v, ?_, ?_, ?_⟩
    · rw [← List.append_assoc, hcut]
      exact hsplit
    · have htake : (Text.trailingBlanks f.before ++ c :: v).takeWhile isBlank =
          Text.trailingBlanks f.before := by
        rw [List.takeWhile_append_of_pos hblanks, List.takeWhile_cons_of_neg (by simp [hc]),
          List.append_nil]
      have hdrop : (Text.trailingBlanks f.before ++ c :: v).dropWhile isBlank = c :: v := by
        rw [List.dropWhile_append_of_pos hblanks, List.dropWhile_cons_of_neg (by simp [hc])]
      show Option.map _ ((named "role" true).read? _ _) = _
      rw [htake, hdrop, ← beforeAt_append, hcut, hread]
      rfl
    · -- a reading that began earlier would have read the role at an earlier place
      intro x e z hx
      obtain ⟨y, d, hy, hd⟩ := Text.exists_getLast?_trimRight hx
      obtain ⟨g, w, hg⟩ : ∃ g w, (e :: z).dropWhile isBlank = g :: w := by
        refine List.exists_cons_of_ne_nil fun hnil => ?_
        have hall := List.dropWhile_eq_nil_iff.1 hnil d (by simp [hy])
        rw [hd] at hall
        exact Bool.noConfusion hall
      obtain ⟨htake, hdrop⟩ := Text.blanks_append hg (Text.trailingBlanks f.before ++ c :: v)
      have hearlier : f.before =
          (x ++ (e :: z).takeWhile isBlank) ++ g :: (w ++ Text.trailingBlanks f.before) := by
        have hwhole : (e :: z).takeWhile isBlank ++ g :: w = e :: z := by
          rw [← hg, List.takeWhile_append_dropWhile]
        calc f.before = Text.trimRight f.before ++ Text.trailingBlanks f.before := hcut.symm
          _ = (x ++ e :: z) ++ Text.trailingBlanks f.before := congrArg (· ++ _) hx
          _ = (x ++ ((e :: z).takeWhile isBlank ++ g :: w)) ++ Text.trailingBlanks f.before := by
            rw [hwhole]
          _ = _ := by simp only [List.append_assoc, List.cons_append]
      have hnone := hfirst _ _ _ hearlier
      show Option.map _ ((named "role" true).read? _ _) = none
      rw [← List.cons_append, htake, hdrop, ← beforeAt_append, Option.map_eq_none_iff]
      rw [List.append_assoc] at hnone
      exact hnone

/-- **The removal, told by itself**: the first role with a value goes, with the blanks before it. -/
theorem withoutRole_eq (attrs : Text) :
    Fix.withoutRole attrs = match spacedRole.find? none attrs with
      | some f => f.before ++ f.after
      | none => attrs := by
  rw [find?_spacedRole, Fix.withoutRole]
  cases find? "role" true attrs with
  | none => rfl
  | some f => rfl

end Attribute

namespace Fix

open Tag

/-- The role that a tag has anyway, when it also says so. -/
def redundantRole? (t : Tag) : Option Text :=
  match Role.implicit? t.name t.attrs with
  | none => none
  | some native => if t.role? = some native then some native else none

theorem redundantRole?_eq_some_iff {t : Tag} {role : Text} :
    redundantRole? t = some role ↔
      Role.implicit? t.name t.attrs = some role ∧ t.role? = some role := by
  unfold redundantRole?
  cases Role.implicit? t.name t.attrs with
  | none => simp
  | some native =>
    dsimp only
    split
    · next h =>
      rw [h]
      simp
    · next h =>
      simp only [reduceCtorEq, Option.some.injEq, false_iff, not_and]
      rintro rfl
      exact h

/-- The tags with a redundant role, each by its name and the role. -/
def redundantRoles (s : Text) : List (Text × Text) :=
  (all s).filterMap fun t => (redundantRole? t).map fun role => (t.name, role)

/-- Only the fix of redundant roles, whatever the other options are. -/
def Options.onlyRoles (o : Options) : Options :=
  { o with
    removeRedundantRoles := true, addChecked := false, addValueRange := false, addTablists := false }

/-- The tag `u` is `t` without the attribute that its explicit role is read from, and without the
blanks before it.  This is one role attribute, written out, with a value between quotes, and it is
the one that the removal, told by itself, comes upon first. -/
structure LosesRole (role : Text) (t u : Tag) (front blanks written back : Text) (a : Attribute) :
    Prop where
  split : t.attrs = front ++ (blanks ++ (written ++ back))
  cut : u = { t with attrs := front ++ back }
  blank : Text.IsBlankText blanks
  solid : ∀ c ∈ front.getLast?, isBlank c = false
  named : List.Forall₂ (fun w c => sameLetter w c = true) "role" a.name
  spelled : a.IsSpelledBy written
  first : Attribute.find? "role" true t.attrs = some ⟨front ++ blanks, a, back⟩
  removed : Attribute.spacedRole.find? none t.attrs = some ⟨front, (blanks, a), back⟩
  explicit : t.role? = some role
  value : role = Text.lower (Text.trim a.value)

/-- A tag loses its redundant role, or it stays as it is. -/
def RoleRemoved (t u : Tag) : Prop :=
  match redundantRole? t with
  | none => u = t
  | some role => ∃ front blanks written back a, LosesRole role t u front blanks written back a

/-! ## What is removed -/

theorem exists_losesRole {t : Tag} {role : Text} (h : redundantRole? t = some role) :
    ∃ front blanks written back a,
      LosesRole role t { t with attrs := withoutRole t.attrs } front blanks written back a := by
  obtain ⟨-, hrole⟩ := redundantRole?_eq_some_iff.1 h
  obtain ⟨value, hvalue, hlower⟩ := exists_filledValue?_of_role? hrole
  obtain ⟨f, hf, rfl⟩ := Option.map_eq_some_iff.1 hvalue
  obtain ⟨written, hsplit, hspelled, hnamed⟩ := Attribute.exists_spelled_role hf
  have hcut := Text.trimRight_append_trailingBlanks f.before
  refine ⟨Text.trimRight f.before, Text.trailingBlanks f.before, written, f.after, f.item, ?_, ?_,
    Text.isBlankText_trailingBlanks f.before, ?_, hnamed, hspelled, ?_, ?_, hrole, hlower⟩
  · rw [← List.append_assoc, hcut]
    exact hsplit
  · rw [withoutRole, hf]
  · intro c hc
    obtain ⟨x, hx⟩ := List.getLast?_eq_some_iff.1 hc
    obtain ⟨y, d, hyd, hd⟩ := Text.exists_getLast?_trimRight (z := []) hx
    have hcd : [c] = [d] := (List.append_inj' (show [] ++ [c] = y ++ [d] from hyd) rfl).2
    rwa [(List.cons.inj hcd).1]
  · rw [hcut]
    exact hf
  · rw [Attribute.find?_spacedRole, hf]
    rfl

theorem removeRedundantRole?_of_none {t : Tag} (h : redundantRole? t = none) :
    removeRedundantRole? t = none := by
  refine removeRedundantRole?_eq_none_iff.2 fun role himplicit hrole => ?_
  rw [redundantRole?_eq_some_iff.2 ⟨himplicit, hrole⟩] at h
  exact absurd h (by simp)

/-- The edit of a tag with a redundant role. -/
theorem exists_edit_of_redundantRole? {t : Tag} {role : Text} (h : redundantRole? t = some role) :
    ∃ e, removeRedundantRole? t = some e ∧ e.tag = { t with attrs := withoutRole t.attrs } ∧
      e.change.kind = .removedRedundantRole ∧ e.change.tagName = t.name ∧
      e.change.roleName = role := by
  obtain ⟨himplicit, hrole⟩ := redundantRole?_eq_some_iff.1 h
  unfold removeRedundantRole?
  rw [himplicit]
  dsimp only
  rw [if_pos hrole]
  exact ⟨_, rfl, rfl, rfl, rfl, rfl⟩

/-- **The pass alone**: the tags with a redundant role lose it, and all else stays. -/
theorem text_editTags_removeRedundantRole (s : Text) :
    ∃ ps, (editTags removeRedundantRole? s).text = textOf ps ∧
      List.Forall₂ (Piecewise RoleRemoved) (pieces s) ps := by
  refine ⟨_, text_editTags removeRedundantRole? s, ?_⟩
  rw [List.forall₂_map_right_iff]
  refine List.forall₂_same.2 fun p _ => ?_
  cases p with
  | char c => exact .char c
  | item t =>
    refine .item ?_
    unfold RoleRemoved
    cases h : redundantRole? t with
    | none => exact edited_of_none (removeRedundantRole?_of_none h)
    | some role =>
      obtain ⟨e, he, htag, -⟩ := exists_edit_of_redundantRole? h
      rw [edited_of_some he, htag]
      exact exists_losesRole h

theorem changes_editTags_removeRedundantRole (s : Text) :
    ((editTags removeRedundantRole? s).changes.map fun c => (c.tagName, c.roleName)) =
      redundantRoles s := by
  show ((all s).filterMap _).map _ = _
  rw [List.map_filterMap, redundantRoles]
  congr 1
  funext t
  cases h : redundantRole? t with
  | none =>
    rw [removeRedundantRole?_of_none h]
    rfl
  | some role =>
    obtain ⟨e, he, -, -, hname, hrole⟩ := exists_edit_of_redundantRole? h
    rw [he]
    show some (e.change.tagName, e.change.roleName) = _
    rw [hname, hrole]
    rfl

/-! ## Detector and fixer -/

open Smell in
/-- The rule on roles finds a redundant one where there is one. -/
theorem filter_roleSemantics (t : Tag) :
    ((Smell.roleSemantics t).filter (·.kind = .redundantRole)).map
        (fun d => (d.tagName, d.roleName)) =
      ((redundantRole? t).map fun role => (some t.name, some role)).toList := by
  have hhidden : ∀ role, (hiddenFocusable t role).filter (·.kind = .redundantRole) = [] := by
    intro role
    refine List.filter_eq_nil_iff.2 fun d hd => ?_
    unfold hiddenFocusable at hd
    split at hd
    · obtain rfl := List.mem_singleton.1 hd
      simp
    · simp at hd
  unfold Smell.roleSemantics redundantRole?
  cases hrole : t.role? with
  | none =>
    cases Role.implicit? t.name t.attrs with
    | none => rfl
    | some native => simp
  | some role =>
    rw [List.filter_append, hhidden, List.append_nil, nativeRole]
    cases Role.implicit? t.name t.attrs with
    | none => rfl
    | some native =>
      dsimp only
      by_cases heq : native = role
      · subst heq
        rw [if_pos rfl, if_pos rfl]
        rfl
      · rw [if_neg heq, if_neg fun h => heq (Option.some.inj h).symm]
        rfl

/-- The findings about redundant roles are about the tags that have one. -/
theorem filter_redundantRole_eq {s : Text} {ds : List Smell.Diagnostic}
    (h : Smell.detect .default s = .ok ds) :
    (ds.filter (·.kind = .redundantRole)).map (fun d => (d.tagName, d.roleName)) =
      (redundantRoles s).map fun p => (some p.1, some p.2) := by
  by_cases hblank : Text.trim s = []
  · rw [Smell.detect, if_pos hblank] at h
    obtain rfl := Except.ok.inj h
    rw [redundantRoles, all_of_not_mem (not_mem_of_blank hblank)]
    rfl
  · obtain ⟨es, hes, heq⟩ := Smell.exists_filter_kind_eq hblank h (k := .redundantRole) rfl
    obtain rfl := Except.ok.inj hes
    rw [heq, List.filter_flatMap, List.map_flatMap, redundantRoles, List.map_filterMap]
    rw [List.filterMap_eq_flatMap_toList]
    congr 1
    funext t
    rw [filter_roleSemantics, Option.map_map]
    rfl

/-- **Detector and fixer agree on redundant roles.**  The tags and roles reported are those in the
log of the fixes, in the same order.  The pass alone makes the same entries, and each tag with a
redundant role loses the attribute that says so, with the blanks before it, while all else stays. -/
theorem redundantRoles_agree {s : Text} {ds : List Smell.Diagnostic}
    (h : Smell.detect .default s = .ok ds) :
    (ds.filter (·.kind = .redundantRole)).map (fun d => (d.tagName, d.roleName)) =
        ((apply .default s).changes.filter (·.kind = .removedRedundantRole)).map
          (fun c => (some c.tagName, some c.roleName)) ∧
      (apply (.onlyRoles .default) s).changes =
        (apply .default s).changes.filter (·.kind = .removedRedundantRole) ∧
      (apply (.onlyRoles .default) s).changes.map (fun c => (c.tagName, c.roleName)) =
        redundantRoles s ∧
      ∃ ps, (apply (.onlyRoles .default) s).text = textOf ps ∧
        List.Forall₂ (Piecewise RoleRemoved) (pieces s) ps := by
  have hall := filter_changes_apply (o := .default) rfl s
  have halone : apply (.onlyRoles .default) s = editTags removeRedundantRole? s := rfl
  have hlog := changes_editTags_removeRedundantRole s
  rw [halone, hall]
  refine ⟨?_, rfl, hlog, text_editTags_removeRedundantRole s⟩
  rw [filter_redundantRole_eq h, ← hlog, List.map_map]
  rfl

/-- Of three role attributes the second one is read, and goes: the first is empty. -/
theorem redundantRoles_agree_threeRoles :
    ∃ ds, Smell.detect .default "<Button role='' \n ROLE = \" button'role='tab'>go</button>" =
        .ok ds ∧
      (ds.filter (·.kind = .redundantRole)).map (fun d => (d.tagName, d.roleName)) =
        [(some ("button" : Text), some ("button" : Text))] ∧
      (apply (.onlyRoles .default)
        "<Button role='' \n ROLE = \" button'role='tab'>go</button>").text =
        "<Button role=''role='tab'>go</button>" ∧
      ∃ ps, textOf ps = "<Button role=''role='tab'>go</button>" ∧
        List.Forall₂ (Piecewise RoleRemoved)
          (pieces "<Button role='' \n ROLE = \" button'role='tab'>go</button>") ps := by
  have hok : (Smell.detect .default
      "<Button role='' \n ROLE = \" button'role='tab'>go</button>").toOption.isSome = true := by
    decide +kernel
  have hlisted : redundantRoles "<Button role='' \n ROLE = \" button'role='tab'>go</button>" =
      [(("button" : Text), ("button" : Text))] := by decide +kernel
  have htext : (apply (.onlyRoles .default)
      "<Button role='' \n ROLE = \" button'role='tab'>go</button>").text =
        "<Button role=''role='tab'>go</button>" := by decide +kernel
  cases h : Smell.detect .default
      "<Button role='' \n ROLE = \" button'role='tab'>go</button>" with
  | error e =>
    rw [h] at hok
    exact absurd hok (by simp [Except.toOption])
  | ok ds =>
    obtain ⟨hagree, hsame, hlog, ps, hps, hpieces⟩ := redundantRoles_agree h
    refine ⟨ds, rfl, ?_, htext, ps, hps.symm.trans htext, hpieces⟩
    rw [hagree, ← hsame]
    have hpairs := congrArg (List.map fun p : Text × Text => (some p.1, some p.2))
      (hlog.trans hlisted)
    rwa [List.map_map] at hpairs

end Fix
end AriaLint
