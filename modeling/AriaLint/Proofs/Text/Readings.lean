import AriaLint.Proofs.Text.Seam

/-!
# What a walk reads, and what it misses

A walk over a text (`pieces`) reads from the left and goes on behind what it has read.  So it comes
by a construct at some place only if that place is not taken up by an earlier one.  Here the walk is
told with its places (`readings`), and this is proved to be the only reason for missing anything:
what is read are the constructs that can be read at their place, apart from those that start inside
of another one that is read (`EndsAt.mem_readings_iff`).
-/

namespace AriaLint

variable {α β : Type}

/-- The same place in a text with more in front. -/
def Found.behind (x : Text) (f : Found α) : Found α := { f with before := x ++ f.before }

/-- In the text `t`, the first construct starts within the second one, behind its first character. -/
def Found.StartsInside (t : Text) (f : Found α) (g : Found β) : Prop :=
  (g.span t).start < (f.span t).start ∧ (f.span t).start < (g.span t).stop

instance (t : Text) (f : Found α) (g : Found β) : Decidable (f.StartsInside t g) :=
  inferInstanceAs (Decidable (_ ∧ _))

theorem Found.startsInside_behind_iff {x t : Text} {f : Found α} {g : Found β} :
    (f.behind x).StartsInside (x ++ t) (g.behind x) ↔ f.StartsInside t g := by
  simp only [StartsInside, span, behind, List.length_append]
  omega

namespace Reader

variable (read : Reader α)

/-- The construct can be read at its place in a text that follows the given character. -/
def ReadsAt (before : Option Char) (t : Text) (f : Found α) : Prop :=
  ∃ u, t = f.before ++ u ∧ read.read? (beforeAt before f.before) u = some (f.item, f.after)

/-- What was consumed when `rest` is left of `t`. -/
def consumed (t rest : Text) : Text := t.take (t.length - rest.length)

/-- The constructs of a text with their places, from the left. -/
def readings (before : Option Char) (t : Text) : List (Found α) :=
  match t with
  | [] => []
  | c :: tail =>
    match _h : read.read? before (c :: tail) with
    | some (a, rest) =>
      ⟨[], a, rest⟩ :: (readings (lastConsumed (c :: tail) rest) rest).map
        (Found.behind (consumed (c :: tail) rest))
    | none => (readings (some c) tail).map (Found.behind [c])
termination_by t.length
decreasing_by
  · exact read.shortens ‹_›
  · simp

variable {read} {before : Option Char} {t : Text}

theorem consumed_append (x rest : Text) : consumed (x ++ rest) rest = x := by
  simp [consumed]

/-- Without their places, these are the constructs of the text. -/
theorem map_item_readings (before : Option Char) (t : Text) :
    (read.readings before t).map Found.item = read.itemsAfter before t := by
  have hbehind : ∀ x : Text, Found.item ∘ Found.behind x = (Found.item : Found α → α) :=
    fun _ => rfl
  fun_induction readings read before t with
  | case1 before => simp [itemsAfter]
  | case2 before c tail a rest hread ih =>
    rw [itemsAfter_of_read hread, List.map_cons, List.map_map, hbehind, ih]
  | case3 before c tail hread ih =>
    rw [itemsAfter_of_not_read hread, List.map_map, hbehind, ih]

/-! ## Places that can be read -/

theorem readsAt_of_read {a : α} {rest : Text} (h : read.read? before t = some (a, rest)) :
    read.ReadsAt before t ⟨[], a, rest⟩ := ⟨t, rfl, h⟩

theorem readsAt_behind_iff {x : Text} {f : Found α} :
    read.ReadsAt before (x ++ t) (f.behind x) ↔ read.ReadsAt (beforeAt before x) t f := by
  simp only [ReadsAt, Found.behind, List.append_assoc, List.append_cancel_left_eq, beforeAt_append]

theorem not_readsAt_nil {f : Found α} : ¬ read.ReadsAt before [] f := by
  rintro ⟨u, hsplit, hread⟩
  have hlt := read.shortens hread
  rw [(List.append_eq_nil_iff.1 hsplit.symm).2] at hlt
  exact absurd hlt (Nat.not_lt_zero _)

/-- A place within some part at the head of the text, or behind it. -/
theorem lt_or_exists_behind {x : Text} {f : Found α} (h : read.ReadsAt before (x ++ t) f) :
    f.before.length < x.length ∨ ∃ g : Found α, f = g.behind x := by
  obtain ⟨u, hsplit, -⟩ := h
  have hbehind : ∀ z, f.before = x ++ z → ∃ g : Found α, f = g.behind x := fun z hz =>
    ⟨⟨z, f.item, f.after⟩, by rw [Found.behind, ← hz]⟩
  rcases List.append_eq_append_iff.1 hsplit with ⟨z, hz, -⟩ | ⟨z, hz, -⟩
  · exact Or.inr (hbehind z hz)
  · cases z with
    | nil => exact Or.inr (hbehind [] (by rw [hz, List.append_nil, List.append_nil]))
    | cons c z =>
      left
      rw [hz, List.length_append, List.length_cons]
      omega

/-- At the head of a text nothing else is read than what the reader reads. -/
theorem eq_of_readsAt {a : α} {rest : Text} {f : Found α} (h : read.ReadsAt before t f)
    (hbefore : f.before = []) (hread : read.read? before t = some (a, rest)) :
    f = ⟨[], a, rest⟩ := by
  obtain ⟨x, b, after⟩ := f
  obtain rfl : x = [] := hbefore
  obtain ⟨u, rfl, hu⟩ := h
  obtain ⟨rfl, rfl⟩ := Prod.mk.inj (Option.some.inj (hread.symm.trans hu))
  rfl

/-! ## The walk -/

variable {stop : Char → Bool} {n : Nat} (hends : EndsAt read stop n)

include hends in
/-- What is consumed has a last character. -/
theorem EndsAt.exists_consumed {a : α} {rest : Text}
    (h : read.read? before t = some (a, rest)) :
    ∃ x, x ≠ [] ∧ t = x ++ rest ∧ consumed t rest = x ∧ lastConsumed t rest = beforeAt before x := by
  obtain ⟨k, d, rfl, -⟩ := hends.reading h
  have hsplit : k ++ d :: rest = (k ++ [d]) ++ rest := by simp
  refine ⟨k ++ [d], by simp, hsplit, ?_, ?_⟩
  · rw [hsplit, consumed_append]
  · rw [lastConsumed_eq, beforeAt_concat]

include hends in
/-- What the walk reads can be read at its place. -/
theorem EndsAt.readsAt_of_mem {f : Found α} (h : f ∈ read.readings before t) :
    read.ReadsAt before t f := by
  fun_induction readings read before t generalizing f with
  | case1 before => exact absurd h (by simp)
  | case2 before c tail a rest hread ih =>
    obtain ⟨x, -, hsplit, hx, hlast⟩ := hends.exists_consumed hread
    rcases List.mem_cons.1 h with rfl | h
    · exact readsAt_of_read hread
    · obtain ⟨g, hg, rfl⟩ := List.mem_map.1 h
      rw [hlast] at hg ih
      rw [hx, hsplit]
      exact readsAt_behind_iff.2 (ih hg)
  | case3 before c tail hread ih =>
    obtain ⟨g, hg, rfl⟩ := List.mem_map.1 h
    exact (readsAt_behind_iff (x := [c])).2 (ih hg)

include hends in
/-- What the walk reads does not overlap. -/
theorem EndsAt.not_startsInside_of_mem {f g : Found α} (hf : f ∈ read.readings before t)
    (hg : g ∈ read.readings before t) : ¬ f.StartsInside t g := by
  fun_induction readings read before t generalizing f g with
  | case1 before => exact absurd hf (by simp)
  | case2 before c tail a rest hread ih =>
    obtain ⟨x, -, hsplit, hx, -⟩ := hends.exists_consumed hread
    rw [hx] at hf hg
    rw [hsplit]
    rcases List.mem_cons.1 hf with rfl | hf
    · exact fun h => absurd h.1 (Nat.not_lt_zero _)
    · obtain ⟨f', hf', rfl⟩ := List.mem_map.1 hf
      rcases List.mem_cons.1 hg with rfl | hg
      · -- the first construct ends where the others start
        rintro ⟨-, hstop⟩
        simp only [Found.span, Found.behind, List.length_append] at hstop
        omega
      · obtain ⟨g', hg', rfl⟩ := List.mem_map.1 hg
        rw [Found.startsInside_behind_iff]
        exact ih hf' hg'
  | case3 before c tail hread ih =>
    obtain ⟨f', hf', rfl⟩ := List.mem_map.1 hf
    obtain ⟨g', hg', rfl⟩ := List.mem_map.1 hg
    exact fun h => ih hf' hg' ((Found.startsInside_behind_iff (x := [c])).1 h)

include hends in
/-- What can be read at a place is read there unless the place is taken up. -/
theorem EndsAt.mem_readings_of_readsAt {f : Found α} (h : read.ReadsAt before t f)
    (hfree : ∀ g ∈ read.readings before t, ¬ f.StartsInside t g) : f ∈ read.readings before t := by
  fun_induction readings read before t generalizing f with
  | case1 before => exact absurd h not_readsAt_nil
  | case2 before c tail a rest hread ih =>
    obtain ⟨x, hne, hsplit, hx, hlast⟩ := hends.exists_consumed hread
    rw [hlast] at hfree ih ⊢
    rw [hx] at hfree ⊢
    by_cases hbefore : f.before = []
    · rw [eq_of_readsAt h hbefore hread]
      exact List.mem_cons_self
    · have hhead := hfree _ List.mem_cons_self
      rw [hsplit] at h hfree hhead
      rcases lt_or_exists_behind h with hlt | ⟨f, rfl⟩
      · -- within the first construct, and not at its first character
        refine absurd ⟨List.length_pos_iff.2 hbefore, ?_⟩ hhead
        simp only [Found.span, List.length_append]
        omega
      · refine List.mem_cons_of_mem _ (List.mem_map_of_mem (ih (readsAt_behind_iff.1 h) ?_))
        intro g hg
        rw [← Found.startsInside_behind_iff (x := x)]
        exact hfree _ (List.mem_cons_of_mem _ (List.mem_map_of_mem hg))
  | case3 before c tail hread ih =>
    rcases lt_or_exists_behind (x := [c]) h with hlt | ⟨f, rfl⟩
    · have hbefore : f.before = [] := List.length_eq_zero_iff.1 (Nat.lt_one_iff.1 hlt)
      obtain ⟨u, hsplit, hu⟩ := h
      rw [hbefore, List.nil_append] at hsplit
      rw [hbefore, beforeAt_nil, ← hsplit, hread] at hu
      exact absurd hu (by simp)
    · refine List.mem_map_of_mem (ih ((readsAt_behind_iff (x := [c])).1 h) fun g hg => ?_)
      rw [← Found.startsInside_behind_iff (x := [c])]
      exact hfree _ (List.mem_map_of_mem hg)

include hends in
/-- **The walk misses what starts inside of something that it reads, and nothing else.** -/
theorem EndsAt.mem_readings_iff {f : Found α} :
    f ∈ read.readings before t ↔
      read.ReadsAt before t f ∧ ∀ g ∈ read.readings before t, ¬ f.StartsInside t g := by
  constructor
  · intro h
    exact ⟨hends.readsAt_of_mem h, fun g hg => hends.not_startsInside_of_mem h hg⟩
  · rintro ⟨h, hfree⟩
    exact hends.mem_readings_of_readsAt h hfree

end Reader
end AriaLint
