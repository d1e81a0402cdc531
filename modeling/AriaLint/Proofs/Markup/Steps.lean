import AriaLint.Proofs.Markup.Refusals
import AriaLint.Proofs.Message.Fragment
import Mathlib.Computability.StateTransition

/-!
# The walk step by step

The first walk over a fragment gathers plain characters and takes constructs as a whole.  `step?` is
one of these steps, and there is none where the walk halts or is refused.  What a walk has read when
it comes to a certain place of the fragment is then told by `StateTransition.Reaches step?`.

Steps may be left out of a walk (`walk_eq_of_reaches`), and each of them leaves less of the fragment
than there was (`length_of_step?`).  So of two places that a walk comes to, it comes to the one with
less text left from the other one (`reaches_of_length_le`).
-/

namespace AriaLint.Markup

open StateTransition (Reaches reaches_total)
open Relation (ReflTransGen)

/-- How a walk goes on behind a construct or a reference, if it does. -/
def next? : Except MarkupError Step → Option (State × Text)
  | .ok (.next s rest) => some (s, rest)
  | _ => none

/-- One step of the first walk: a plain character is gathered, a construct or a reference is read.
Raw content is gathered in one go, together with the closing tag that ends it; only some elements
have any. -/
def step? : State × Text → Option (State × Text)
  | (_, []) => none
  | (s, c :: t) =>
    match s.rawElement with
    | some name =>
      if rawElements.contains name then
        (splitAt? (readRawClose? name) (c :: t)).bind fun (before, _) =>
          next? (construct (s.append before) ((c :: t).drop (before.length + 1)))
      else none
    | none =>
      if c = '<' then next? (construct s t)
      else if c = '&' then next? (reference false s t)
      else some (s.append [c], t)

variable {s s' : State} {t rest : Text}

theorem next?_eq_some_iff {x : Except MarkupError Step} :
    next? x = some (s, rest) ↔ x = .ok (.next s rest) := by
  unfold next?
  constructor
  · intro h
    split at h
    · rw [(Prod.mk.inj (Option.some.inj h)).1, (Prod.mk.inj (Option.some.inj h)).2]
    · exact absurd h (by simp)
  · rintro rfl
    rfl

/-- A closing tag of raw content begins with a bracket. -/
theorem exists_cons_of_readRawClose? {name u after : Text}
    (h : readRawClose? name u = some after) : ∃ v, u = '<' :: '/' :: v := by
  unfold readRawClose? at h
  split at h
  · next v => exact ⟨v, rfl⟩
  · exact absurd h (by simp)

/-- **What a step can be.** -/
theorem step?_eq_some_iff :
    step? (s, t) = some (s', rest) ↔
      (∃ name ∈ rawElements, ∃ before u after, s.rawElement = some name ∧
        t = before ++ '<' :: u ∧ splitAt? (readRawClose? name) t = some (before, after) ∧
          construct (s.append before) u = .ok (.next s' rest)) ∨
      (s.rawElement = none ∧ ∃ u, t = '<' :: u ∧ construct s u = .ok (.next s' rest)) ∨
      (s.rawElement = none ∧ ∃ u, t = '&' :: u ∧ reference false s u = .ok (.next s' rest)) ∨
      s.rawElement = none ∧ ∃ c, isPlain c = true ∧ t = c :: rest ∧ s' = s.append [c] := by
  cases t with
  | nil => simp [step?]
  | cons c t =>
    cases hraw : s.rawElement with
    | some name =>
      simp only [step?, hraw, Option.some.injEq, reduceCtorEq, false_and, or_false]
      constructor
      · intro h
        split at h
        case isFalse => exact absurd h (by simp)
        case isTrue hname =>
        obtain ⟨⟨before, after⟩, hsplit, hnext⟩ := Option.bind_eq_some_iff.1 h
        obtain ⟨u, hu, hclose⟩ := eq_append_of_splitAt? hsplit
        obtain ⟨v, rfl⟩ := exists_cons_of_readRawClose? hclose
        rw [hu, List.drop_append, List.drop_eq_nil_of_le (Nat.le_succ _), Nat.add_sub_cancel_left,
          List.nil_append] at hnext
        exact ⟨name, List.contains_iff_mem.1 hname, before, '/' :: v, after, rfl, hu, hsplit,
          next?_eq_some_iff.1 hnext⟩
      · rintro ⟨_, hname, before, u, after, rfl, hu, hsplit, hconstruct⟩
        rw [if_pos (List.contains_iff_mem.2 hname)]
        refine Option.bind_eq_some_iff.2 ⟨(before, after), hsplit, next?_eq_some_iff.2 ?_⟩
        rwa [hu, List.drop_append, List.drop_eq_nil_of_le (Nat.le_succ _), Nat.add_sub_cancel_left,
          List.nil_append]
    | none =>
      simp only [step?, hraw, reduceCtorEq, false_and, and_false, exists_false, false_or, true_and,
        List.cons.injEq]
      by_cases hless : c = '<'
      · subst hless
        simp [next?_eq_some_iff, isPlain]
      · by_cases hand : c = '&'
        · subst hand
          simp [next?_eq_some_iff, isPlain]
        · have hplain : isPlain c = true := by simp [isPlain, hless, hand]
          rw [if_neg hless, if_neg hand]
          constructor
          · intro h
            obtain ⟨rfl, rfl⟩ := Prod.mk.inj (Option.some.inj h)
            exact Or.inr (Or.inr ⟨c, hplain, ⟨rfl, rfl⟩, rfl⟩)
          · rintro (⟨u, ⟨rfl, -⟩, -⟩ | ⟨u, ⟨rfl, -⟩, -⟩ | ⟨d, -, ⟨rfl, rfl⟩, rfl⟩)
            · exact absurd rfl hless
            · exact absurd rfl hand
            · rfl

theorem suffix_of_step? (h : step? (s, t) = some (s', rest)) : rest <:+ t := by
  rcases step?_eq_some_iff.1 h with ⟨name, -, before, u, after, -, rfl, -, hc⟩ | ⟨-, u, rfl, hc⟩ |
    ⟨-, u, rfl, hc⟩ | ⟨-, c, -, rfl, -⟩
  · exact (suffix_of_construct hc).trans ((List.suffix_cons _ u).trans (List.suffix_append before _))
  · exact (suffix_of_construct hc).trans (List.suffix_cons _ u)
  · exact (suffix_of_reference hc).trans (List.suffix_cons _ u)
  · exact List.suffix_cons c rest

/-- A step leaves less text than there was. -/
theorem length_of_step? (h : step? (s, t) = some (s', rest)) : rest.length < t.length := by
  rcases step?_eq_some_iff.1 h with ⟨name, -, before, u, after, -, rfl, -, hc⟩ | ⟨-, u, rfl, hc⟩ |
    ⟨-, u, rfl, hc⟩ | ⟨-, c, -, rfl, -⟩
  · have := (suffix_of_construct hc).length_le
    rw [List.length_append, List.length_cons]
    omega
  · exact Nat.lt_succ_of_le (suffix_of_construct hc).length_le
  · exact Nat.lt_succ_of_le (suffix_of_reference hc).length_le
  · exact Nat.lt_succ_self _

/-- The walk goes on from where a step has led. -/
theorem walk_of_step? (h : step? (s, t) = some (s', rest)) :
    walk false s t = walk false s' rest := by
  rcases step?_eq_some_iff.1 h with ⟨name, -, before, u, after, hraw, rfl, hsplit, hc⟩ |
    ⟨hraw, u, rfl, hc⟩ | ⟨hraw, u, rfl, hc⟩ | ⟨hraw, c, hplain, rfl, rfl⟩
  · have hrun : plainRun s (before ++ '<' :: u) = some (before, '<' :: u) := by
      rw [plainRun, hraw]
      dsimp only
      rw [hsplit, Option.map_some, List.drop_left]
    rw [walk_of_run_cons hrun, walkAt, if_pos rfl, hc]
  · exact walk_of_construct hraw hc
  · exact walk_of_reference hraw hc
  · exact walk_plain hraw hplain

/-! ## Several steps -/

theorem suffix_of_reaches {c d : State × Text} (h : Reaches step? c d) : d.2 <:+ c.2 := by
  induction h with
  | refl => exact List.suffix_refl _
  | tail _ hstep ih => exact (suffix_of_step? hstep).trans ih

/-- **Steps may be left out of a walk.** -/
theorem walk_eq_of_reaches {c d : State × Text} (h : Reaches step? c d) :
    walk false c.1 c.2 = walk false d.1 d.2 := by
  induction h with
  | refl => rfl
  | tail _ hstep ih => exact ih.trans (walk_of_step? hstep)

/-- The walk comes to the place with less text left from the one with more. -/
theorem reaches_of_length_le {c d e : State × Text} (hd : Reaches step? c d)
    (he : Reaches step? c e) (h : e.2.length ≤ d.2.length) : Reaches step? d e := by
  rcases reaches_total hd he with hde | hed
  · exact hde
  · rcases hed.cases_head with rfl | ⟨f, hstep, hfd⟩
    · exact .refl
    · have hle := (suffix_of_reaches hfd).length_le
      have hlt := length_of_step? hstep
      omega

end AriaLint.Markup
