import AriaLint.Smell.Detect
import Mathlib.Logic.Function.Basic

/-!
# Options only select findings

The detector counts its findings while it runs: a finding of a full kind is dropped, and two rules
stop as soon as their kind is full.  Seen from outside none of this is visible.  `findings` is what
a pass finds in a snippet when nobody counts, and

    `runAll_eq`        a run adds to the findings gathered so far all that its passes find,
    `inOrder_addAll`   of what is added, the first findings of each kind are kept, as many as its
                       cap leaves room for.

The number of a kind that still fits is `Findings.room`; adding a finding takes one from the room
of its own kind and leaves that of all others, which is why no kind can influence another.
-/

namespace AriaLint.Smell

/-! ## Keeping the first findings of each kind -/

/-- The findings of which, for each kind with a number, only so many of the first are kept. -/
def keepFirst (room : Kind → Option Nat) : List Diagnostic → List Diagnostic
  | [] => []
  | d :: ds =>
    match room d.kind with
    | none => d :: keepFirst room ds
    | some 0 => keepFirst room ds
    | some (n + 1) => d :: keepFirst (Function.update room d.kind (some n)) ds

/-- Without numbers everything is kept. -/
theorem keepFirst_none (ds : List Diagnostic) : keepFirst (fun _ => none) ds = ds := by
  induction ds with
  | nil => rfl
  | cons d ds ih => rw [keepFirst, ih]

/-- Nothing is added, and the order stays. -/
theorem keepFirst_sublist (room : Kind → Option Nat) (ds : List Diagnostic) :
    (keepFirst room ds).Sublist ds := by
  induction ds generalizing room with
  | nil => exact List.Sublist.slnil
  | cons d ds ih =>
    unfold keepFirst
    split
    · exact (ih _).cons_cons d
    · exact (ih _).cons d
    · exact (ih _).cons_cons d

/-- Of a kind without a number all findings are kept. -/
theorem filter_keepFirst {room : Kind → Option Nat} {k : Kind} (h : room k = none)
    (ds : List Diagnostic) :
    (keepFirst room ds).filter (·.kind = k) = ds.filter (·.kind = k) := by
  induction ds generalizing room with
  | nil => rfl
  | cons d ds ih =>
    unfold keepFirst
    split
    · rw [List.filter_cons, List.filter_cons, ih h]
    · next hroom =>
      have hd : d.kind ≠ k := by
        rintro rfl
        exact absurd (h.symm.trans hroom) (by simp)
      rw [ih h, List.filter_cons_of_neg (by simp [hd])]
    · next n hroom =>
      have hd : k ≠ d.kind := by
        rintro rfl
        exact absurd (h.symm.trans hroom) (by simp)
      have hupdate : Function.update room d.kind (some n) k = none := by
        rw [Function.update_of_ne hd, h]
      rw [List.filter_cons, List.filter_cons, ih hupdate]

namespace Findings

/-- How many findings of a kind still fit; none for no limit. -/
def room (f : Findings) (k : Kind) : Option Nat := 
  (f.cap k).map fun c : Int => (c - (f.count k : Int)).toNat

theorem room_start (cap : Kind → Option Int) :
    (start cap).room = fun k => (cap k).map Int.toNat := by
  funext k
  simp [room, start, count]

/-- A kind is full when nothing more of it fits. -/
theorem isFull_iff (f : Findings) (k : Kind) : f.isFull k = true ↔ f.room k = some 0 := by
  rw [isFull, room]
  cases f.cap k with
  | none => simp
  | some c =>
    simp only [decide_eq_true_eq, Option.map_some, Option.some.injEq]
    omega

/-- A finding of a full kind is dropped. -/
theorem add_of_isFull {f : Findings} {d : Diagnostic} (h : f.isFull d.kind = true) :
    f.add d = f := by
  rw [add, if_pos h]

theorem inOrder_add_of_not_isFull {f : Findings} {d : Diagnostic}
    (h : f.isFull d.kind = false) : (f.add d).inOrder = f.inOrder ++ [d] := by
  rw [add, if_neg (by simp [h]), inOrder, inOrder, List.reverse_cons]

theorem lookup_filter_ne {counts : List (Kind × Nat)} {k l : Kind} (h : l ≠ k) :
    (counts.filter (·.1 ≠ k)).lookup l = counts.lookup l := by
  induction counts with
  | nil => rfl
  | cons p counts ih =>
    obtain ⟨m, n⟩ := p
    by_cases hm : m = k
    · have hlm : (l == m) = false := beq_false_of_ne fun e => h (e.trans hm)
      rw [List.filter_cons_of_neg (by simp [hm]), ih, List.lookup_cons, hlm]
    · rw [List.filter_cons_of_pos (by simp [hm]), List.lookup_cons, List.lookup_cons, ih]

/-- **A new finding counts for its own kind only.** -/
theorem count_add_of_not_isFull {f : Findings} {d : Diagnostic} (h : f.isFull d.kind = false)
    (k : Kind) : (f.add d).count k = f.count k + if k = d.kind then 1 else 0 := by
  rw [add, if_neg (by simp [h])]
  by_cases hk : k = d.kind
  · subst hk
    simp [count]
  · have hkd : (k == d.kind) = false := beq_false_of_ne hk
    rw [count, List.lookup_cons, hkd, lookup_filter_ne hk, if_neg hk]
    rfl

/-- A new finding takes one from the room of its kind. -/
theorem room_add {f : Findings} {d : Diagnostic} {n : Nat} (h : f.room d.kind = some (n + 1)) :
    (f.add d).room = Function.update f.room d.kind (some n) := by
  have hfull : f.isFull d.kind = false := by
    rw [Bool.eq_false_iff, Ne, isFull_iff, h]
    simp
  have hcap : (f.add d).cap = f.cap := by
    rw [add, if_neg (by simp [hfull])]
  funext k
  rw [room, hcap, count_add_of_not_isFull hfull]
  by_cases hk : k = d.kind
  · subst hk
    rw [Function.update_self, if_pos rfl]
    rw [room] at h
    obtain ⟨c, hc, hn⟩ := Option.map_eq_some_iff.1 h
    rw [hc, Option.map_some, Option.some.injEq]
    omega
  · rw [Function.update_of_ne hk, if_neg hk]
    rfl

/-- A new finding of a kind without limit leaves the room of every kind. -/
theorem room_add_of_none {f : Findings} {d : Diagnostic} (h : f.room d.kind = none) :
    (f.add d).room = f.room := by
  have hcap : f.cap d.kind = none := by
    rw [room, Option.map_eq_none_iff] at h
    exact h
  have hfull : f.isFull d.kind = false := by rw [isFull, hcap]
  funext k
  have hadd : (f.add d).cap = f.cap := by
    rw [add, if_neg (by simp [hfull])]
  rw [room, hadd, count_add_of_not_isFull hfull]
  by_cases hk : k = d.kind
  · rw [hk, room, hcap]
    rfl
  · rw [if_neg hk]
    rfl

/-- **What is kept of the findings that are added**: the first of each kind, as many as fit. -/
theorem inOrder_addAll (f : Findings) (ds : List Diagnostic) :
    (f.addAll ds).inOrder = f.inOrder ++ keepFirst f.room ds := by
  induction ds generalizing f with
  | nil => rw [keepFirst, List.append_nil]; rfl
  | cons d ds ih =>
    have step : f.addAll (d :: ds) = (f.add d).addAll ds := rfl
    rw [step, ih, keepFirst]
    rcases hroom : f.room d.kind with _ | _ | n
    · have hfull : f.isFull d.kind = false := by
        rw [Bool.eq_false_iff, Ne, isFull_iff, hroom]
        simp
      rw [inOrder_add_of_not_isFull hfull, room_add_of_none hroom, List.append_assoc]
      rfl
    · rw [add_of_isFull ((isFull_iff f d.kind).2 hroom)]
    · have hfull : f.isFull d.kind = false := by
        rw [Bool.eq_false_iff, Ne, isFull_iff, hroom]
        simp
      rw [inOrder_add_of_not_isFull hfull, room_add hroom, List.append_assoc]
      rfl

/-! ## Passes add what they find -/

theorem addAll_append (f : Findings) (ds es : List Diagnostic) :
    f.addAll (ds ++ es) = (f.addAll ds).addAll es := List.foldl_append

theorem addEach_eq (rule : Tag → List Diagnostic) (f : Findings) (ts : List Tag) :
    f.addEach rule ts = f.addAll (ts.flatMap rule) := by
  induction ts generalizing f with
  | nil => rfl
  | cons t ts ih =>
    rw [List.flatMap_cons, addAll_append, ← ih]
    rfl

/-- Nothing can be added of a kind that is full. -/
theorem addAll_of_isFull {f : Findings} {k : Kind} {ds : List Diagnostic}
    (h : f.isFull k = true) (hds : ∀ d ∈ ds, d.kind = k) : f.addAll ds = f := by
  induction ds with
  | nil => rfl
  | cons d ds ih =>
    have hd : f.add d = f := add_of_isFull (by rw [hds d List.mem_cons_self, h])
    rw [addAll, List.foldl_cons, hd]
    exact ih fun e he => hds e (List.mem_cons_of_mem d he)

/-- **Stopping early changes nothing** for a rule that finds one kind only. -/
theorem addUntilFull_eq {k : Kind} {rule : Tag → List Diagnostic}
    (hrule : ∀ t, ∀ d ∈ rule t, d.kind = k) (f : Findings) (ts : List Tag) :
    f.addUntilFull k rule ts = f.addAll (ts.flatMap rule) := by
  induction ts generalizing f with
  | nil => rfl
  | cons t ts ih =>
    rw [addUntilFull]
    split
    · next hfull =>
      refine (addAll_of_isFull hfull fun d hd => ?_).symm
      obtain ⟨u, -, hu⟩ := List.mem_flatMap.1 hd
      exact hrule u d hu
    · rw [ih, List.flatMap_cons, addAll_append]

/-- A walk that may fail adds what it finds at each step. -/
theorem foldlM_addAll {α ε : Type} (rule : α → Except ε (List Diagnostic)) (f : Findings)
    (as : List α) :
    as.foldlM (fun f a => (rule a).map f.addAll) f =
      (as.mapM rule).map fun dss => f.addAll dss.flatten := by
  induction as generalizing f with
  | nil => rfl
  | cons a as ih =>
    rw [List.foldlM_cons, List.mapM_cons]
    cases rule a with
    | error e => rfl
    | ok ds =>
      show as.foldlM _ (f.addAll ds) = _
      rw [ih]
      cases as.mapM rule with
      | error e => rfl
      | ok dss =>
        show Except.ok ((f.addAll ds).addAll dss.flatten) =
          Except.ok (f.addAll (ds :: dss).flatten)
        rw [List.flatten_cons, addAll_append]

end Findings

/-! ## What a pass finds -/

/-- All that the pass on interaction finds. -/
def interactionFindings (ts : List Tag) : List Diagnostic :=
  ts.flatMap mouseOnly ++ ts.flatMap uncontrolledDisclosure ++ expandedTab ts ++
    dialogModality ts ++ switchState ts

/-- All that the pass on accessible names finds. -/
def nameFindings (snippet : Text) : Except Markup.MarkupError (List Diagnostic) := do
  let os := Occurrence.all snippet
  let buttons ← os.mapM (namelessButton snippet)
  let controls ← os.mapM (namelessControl snippet)
  return (os.map (·.tag)).flatMap labelSources ++ buttons.flatten ++ controls.flatten ++
    emptyNames snippet

/-- All that a pass finds in a snippet. -/
def Category.findings (snippet : Text) : Category → Except Markup.MarkupError (List Diagnostic)
  | .roleSemantics => .ok ((Tag.all snippet).flatMap Smell.roleSemantics)
  | .interaction => .ok (interactionFindings (Tag.all snippet))
  | .accessibleName => nameFindings snippet
  | .attributes => .ok ((Tag.all snippet).flatMap attributeUse)
  | .containment => .ok (Smell.containment (Tag.roles snippet))

theorem kind_of_mem_mouseOnly {t : Tag} {d : Diagnostic} (h : d ∈ mouseOnly t) :
    d.kind = .mouseOnlyHandler := by
  unfold mouseOnly at h
  split at h
  · simp at h
  · split at h
    · simp at h
    · rw [List.mem_singleton.1 h]

theorem kind_of_mem_uncontrolledDisclosure {t : Tag} {d : Diagnostic}
    (h : d ∈ uncontrolledDisclosure t) : d.kind = .expandedWithoutControls := by
  unfold uncontrolledDisclosure at h
  split at h
  · rw [List.mem_singleton.1 h]
  · simp at h

theorem interaction_eq (ts : List Tag) (f : Findings) :
    interaction ts f = f.addAll (interactionFindings ts) := by
  simp only [interaction, interactionFindings, Findings.addAll_append,
    Findings.addUntilFull_eq (fun _ _ => kind_of_mem_mouseOnly),
    Findings.addUntilFull_eq (fun _ _ => kind_of_mem_uncontrolledDisclosure)]

theorem accessibleName_eq (snippet : Text) (f : Findings) :
    accessibleName snippet f = (nameFindings snippet).map f.addAll := by
  simp only [accessibleName, nameFindings, Findings.foldlM_addAll, Findings.addEach_eq]
  cases (Occurrence.all snippet).mapM (namelessButton snippet) with
  | error e => rfl
  | ok buttons =>
    cases (Occurrence.all snippet).mapM (namelessControl snippet) with
    | error e => rfl
    | ok controls =>
      show Except.ok _ = Except.ok _
      simp only [Findings.addAll_append]

/-- **A pass adds what it finds**, whatever has been gathered before. -/
theorem Category.run_eq (snippet : Text) (f : Findings) (c : Category) :
    c.run snippet f = (c.findings snippet).map f.addAll := by
  cases c with
  | roleSemantics => exact congrArg Except.ok (Findings.addEach_eq _ f _)
  | interaction => exact congrArg Except.ok (interaction_eq _ f)
  | accessibleName => exact accessibleName_eq snippet f
  | attributes => exact congrArg Except.ok (Findings.addEach_eq _ f _)
  | containment => rfl

/-- A run adds what its passes find, in their order. -/
theorem runAll_eq (passes : List Category) (snippet : Text) (f : Findings) :
    runAll passes snippet f =
      (passes.mapM (Category.findings snippet)).map fun dss => f.addAll dss.flatten := by
  have hrun : Category.run snippet = fun f c => (c.findings snippet).map f.addAll := by
    funext f c
    exact Category.run_eq snippet f c
  rw [runAll, hrun, Findings.foldlM_addAll]

end AriaLint.Smell
