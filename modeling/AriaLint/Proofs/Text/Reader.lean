import AriaLint.Text.Reader

/-!
# Readers that know where they end

Attributes, opening tags and closing tags are read by different readers, and all of them share one
habit: the last character that is read is of a certain kind, and it is the `n`th of its kind.  A tag
ends with its first closing bracket, an attribute with its second quote.

`EndsAt` is this habit, together with the fact that nothing behind that character is looked at.  Its
single field is a check for a concrete reader, and everything about places follows from it:

* a reading is settled by a text with `n` such characters, whatever follows (`EndsAt.read?_append`);
* so is the first place where something is read (`EndsAt.find?_local`), and
* the place comes with its split of the text (`EndsAt.find?_eq_some`).

That a *failure* to read is settled is the point.  A longer text could let a reading succeed that
has come to the end of the shorter one, but such a reading would hold one of the characters too
many.
-/

namespace AriaLint

namespace Reader

variable {α : Type} {read : Reader α} {stop : Char → Bool} {n : Nat}

/-! ## Finding -/

theorem find?_of_read {before : Option Char} {t rest : Text} {a : α}
    (h : read.read? before t = some (a, rest)) : read.find? before t = some ⟨[], a, rest⟩ := by
  cases t with
  | nil => exact absurd (read.shortens h) (by simp)
  | cons c t =>
    unfold find?
    rw [h]

theorem find?_of_not_read {before : Option Char} {c : Char} {t : Text}
    (h : read.read? before (c :: t) = none) :
    read.find? before (c :: t) =
      (read.find? (some c) t).map fun f => { f with before := c :: f.before } := by
  rw [find?, h]

/-- The character before a place that is reached through `a`. -/
def beforeAt (before : Option Char) (a : Text) : Option Char := a.getLast?.or before

@[simp] theorem beforeAt_nil (before : Option Char) : beforeAt before [] = before := rfl

@[simp] theorem beforeAt_cons (before : Option Char) (c : Char) (a : Text) :
    beforeAt before (c :: a) = beforeAt (some c) a := by
  cases a with
  | nil => rfl
  | cons d a => simp [beforeAt, List.getLast?_eq_some_getLast]

@[simp] theorem beforeAt_concat (before : Option Char) (a : Text) (c : Char) :
    beforeAt before (a ++ [c]) = some c := by
  simp [beforeAt]

theorem beforeAt_append (before : Option Char) (a b : Text) :
    beforeAt before (a ++ b) = beforeAt (beforeAt before a) b := by
  rw [beforeAt, List.getLast?_append, Option.or_assoc]
  rfl

/-- **Something is found exactly when something is read at some place.** -/
theorem isSome_find?_iff {before : Option Char} {t : Text} :
    (read.find? before t).isSome = true ↔
      ∃ a b, t = a ++ b ∧ (read.read? (beforeAt before a) b).isSome = true := by
  constructor
  · intro h
    induction t generalizing before with
    | nil => simp [find?] at h
    | cons c t ih =>
      cases hread : read.read? before (c :: t) with
      | some r => exact ⟨[], c :: t, rfl, by simp [hread]⟩
      | none =>
        rw [find?_of_not_read hread, Option.isSome_map] at h
        obtain ⟨a, b, rfl, hb⟩ := ih h
        exact ⟨c :: a, b, rfl, by rwa [beforeAt_cons]⟩
  · rintro ⟨a, b, rfl, hb⟩
    induction a generalizing before with
    | nil =>
      rw [beforeAt_nil] at hb
      obtain ⟨⟨x, rest⟩, hx⟩ := Option.isSome_iff_exists.1 hb
      rw [List.nil_append, find?_of_read hx]
      rfl
    | cons c a ih =>
      cases hread : read.read? before (c :: (a ++ b)) with
      | some r =>
        rw [List.cons_append, find?_of_read hread]
        rfl
      | none =>
        rw [List.cons_append, find?_of_not_read hread, Option.isSome_map]
        refine ih ?_
        rwa [beforeAt_cons] at hb

theorem isSome_find?_cons {before : Option Char} {c : Char} {t : Text}
    (h : (read.find? (some c) t).isSome = true) : (read.find? before (c :: t)).isSome = true := by
  obtain ⟨a, b, rfl, hb⟩ := isSome_find?_iff.1 h
  exact isSome_find?_iff.2 ⟨c :: a, b, rfl, by rwa [beforeAt_cons]⟩

/-- What is read at some place is not missed: something is found there or before. -/
theorem exists_find?_append {before : Option Char} {a b : Text}
    (hb : (read.read? (beforeAt before a) b).isSome = true) :
    ∃ f, read.find? before (a ++ b) = some f ∧ f.before.length ≤ a.length := by
  induction a generalizing before with
  | nil =>
    obtain ⟨⟨x, rest⟩, hx⟩ := Option.isSome_iff_exists.1 hb
    exact ⟨_, find?_of_read hx, Nat.le_refl _⟩
  | cons c a ih =>
    rw [beforeAt_cons] at hb
    cases hread : read.read? before (c :: (a ++ b)) with
    | some r =>
      obtain ⟨x, rest⟩ := r
      exact ⟨_, find?_of_read hread, Nat.zero_le _⟩
    | none =>
      obtain ⟨f, hf, hle⟩ := ih hb
      refine ⟨{ f with before := c :: f.before }, ?_, Nat.succ_le_succ hle⟩
      rw [List.cons_append, find?_of_not_read hread, hf]
      rfl

/-- Nothing is found through a text in which nothing is read at any place. -/
theorem find?_append_of_forall {y t : Text} {before : Option Char}
    (hy : ∀ x c z, y = x ++ c :: z → read.read? (beforeAt before x) (c :: (z ++ t)) = none) :
    read.find? before (y ++ t) =
      (read.find? (beforeAt before y) t).map fun f => { f with before := y ++ f.before } := by
  induction y generalizing before with
  | nil => simp
  | cons c y ih =>
    have hrest := @ih (some c) fun x d z hsplit => by
      have hread := hy (c :: x) d z (by rw [hsplit]; rfl)
      rwa [beforeAt_cons] at hread
    have hhead : read.read? before (c :: (y ++ t)) = none := hy [] c y rfl
    rw [List.cons_append, find?_of_not_read hhead, hrest, beforeAt_cons, Option.map_map]
    rfl

/-- **What is found is the first that can be read**: it is read at its place, and nothing is read at
any place before. -/
theorem find?_eq_some_iff {before : Option Char} {t : Text} {f : Found α} :
    read.find? before t = some f ↔
      ∃ u, t = f.before ++ u ∧ read.read? (beforeAt before f.before) u = some (f.item, f.after) ∧
        ∀ x c z, f.before = x ++ c :: z → read.read? (beforeAt before x) (c :: (z ++ u)) = none := by
  constructor
  · intro h
    induction t generalizing before f with
    | nil => simp [find?] at h
    | cons c t ih =>
      cases hread : read.read? before (c :: t) with
      | some r =>
        rw [find?_of_read hread] at h
        obtain rfl := Option.some.inj h
        exact ⟨c :: t, rfl, hread, by simp⟩
      | none =>
        rw [find?_of_not_read hread] at h
        obtain ⟨g, hg, rfl⟩ := Option.map_eq_some_iff.1 h
        obtain ⟨u, rfl, hu, hfirst⟩ := ih hg
        refine ⟨u, rfl, by rwa [beforeAt_cons], fun x d z hsplit => ?_⟩
        cases x with
        | nil =>
          obtain ⟨rfl, rfl⟩ := List.cons.inj hsplit
          exact hread
        | cons e x =>
          obtain ⟨rfl, hx⟩ := List.cons.inj hsplit
          rw [beforeAt_cons]
          exact hfirst x d z hx
  · rintro ⟨u, rfl, hu, hfirst⟩
    rw [find?_append_of_forall hfirst, find?_of_read hu, Option.map_some, List.append_nil]

/-- Nothing is found through characters at which nothing is read. -/
theorem find?_append_of_not_read {z : Text}
    (hz : ∀ c ∈ z, ∀ before t, read.read? before (c :: t) = none) (before : Option Char)
    (t : Text) :
    read.find? before (z ++ t) =
      (read.find? (beforeAt before z) t).map fun f => { f with before := z ++ f.before } :=
  find?_append_of_forall fun _ c _ hsplit => hz c (by simp [hsplit]) _ _

/-! ## Readers that do not look back -/

variable (read) in
/-- What is read does not depend on the character before. -/
def IsBlind : Prop := ∀ before before' t, read.read? before t = read.read? before' t

/-- What stands before a text only counts for what is read at its head. -/
theorem pieces_congr {before before' : Option Char} {t : Text}
    (h : read.read? before t = read.read? before' t) :
    read.pieces before t = read.pieces before' t := by
  cases t with
  | nil => rw [pieces_nil, pieces_nil]
  | cons c t =>
    cases hread : read.read? before (c :: t) with
    | none =>
      rw [hread] at h
      rw [read.pieces_of_not_read hread, read.pieces_of_not_read h.symm]
    | some r =>
      obtain ⟨a, rest⟩ := r
      rw [hread] at h
      rw [read.pieces_of_read hread, read.pieces_of_read h.symm]

theorem find?_congr {before before' : Option Char} {t : Text}
    (h : read.read? before t = read.read? before' t) :
    read.find? before t = read.find? before' t := by
  cases t with
  | nil => rfl
  | cons c t => rw [find?, find?, h]

theorem IsBlind.pieces_eq (h : IsBlind read) (before before' : Option Char) (t : Text) :
    read.pieces before t = read.pieces before' t := pieces_congr (h before before' t)

/-! ## Reading up to a last character -/

variable (read stop n) in
/-- What is read ends with the `n`th character of a kind, and nothing behind it is looked at. -/
structure EndsAt : Prop where
  reading : ∀ {before t a rest}, read.read? before t = some (a, rest) →
    ∃ k d, t = k ++ d :: rest ∧ stop d = true ∧ k.countP stop + 1 = n ∧
      ∀ rest', read.read? before (k ++ d :: rest') = some (a, rest')

/-- Keeping only some of the constructs does not change where they end. -/
theorem EndsAt.filter (h : EndsAt read stop n) (keep : α → Bool) :
    EndsAt (read.filter keep) stop n where
  reading hread := by
    obtain ⟨hread, hkeep⟩ := Option.filter_eq_some_iff.1 hread
    obtain ⟨k, d, ht, hd, hk, hlocal⟩ := h.reading hread
    refine ⟨k, d, ht, hd, hk, fun rest' => Option.filter_eq_some_iff.2 ⟨hlocal rest', ?_⟩⟩
    exact hkeep

/-- **A reading is settled** once the text holds enough of the characters that end it. -/
theorem EndsAt.read?_append (h : EndsAt read stop n) {t : Text} (ht : n ≤ t.countP stop)
    (before : Option Char) (u : Text) :
    read.read? before (t ++ u) = (read.read? before t).map fun r => (r.1, r.2 ++ u) := by
  cases hread : read.read? before t with
  | some r =>
    obtain ⟨a, rest⟩ := r
    obtain ⟨k, d, rfl, -, -, hlocal⟩ := h.reading hread
    rw [List.append_assoc, List.cons_append, hlocal]
    rfl
  | none =>
    cases hread' : read.read? before (t ++ u) with
    | none => rfl
    | some r =>
      obtain ⟨a, rest⟩ := r
      obtain ⟨k, d, htu, hd, hk, hlocal⟩ := h.reading hread'
      rcases List.append_eq_append_iff.1 htu with ⟨z, rfl, -⟩ | ⟨z, rfl, hz⟩
      · -- the reading would go on behind `t`, which holds all the characters that may end it
        rw [List.countP_append] at hk
        omega
      · cases z with
        | nil =>
          rw [List.append_nil] at ht
          omega
        | cons e z =>
          obtain rfl : d = e := (List.cons.inj hz).1
          rw [hlocal z] at hread
          exact absurd hread (by simp)

/-- The text splits at the place where something is found. -/
theorem EndsAt.find?_eq_some (h : EndsAt read stop n) {before : Option Char} {t : Text}
    {f : Found α} (hf : read.find? before t = some f) :
    ∃ k d, t = f.before ++ (k ++ d :: f.after) ∧ stop d = true ∧ k.countP stop + 1 = n ∧
      ∀ rest', read.read? (beforeAt before f.before) (k ++ d :: rest') = some (f.item, rest') := by
  induction t generalizing before f with
  | nil => simp [find?] at hf
  | cons c t ih =>
    cases hread : read.read? before (c :: t) with
    | some r =>
      obtain ⟨a, rest⟩ := r
      rw [find?_of_read hread] at hf
      obtain rfl := Option.some.inj hf
      exact h.reading hread
    | none =>
      rw [find?_of_not_read hread] at hf
      obtain ⟨g, hg, rfl⟩ := Option.map_eq_some_iff.1 hf
      obtain ⟨k, d, rfl, hd, hk, hlocal⟩ := ih hg
      refine ⟨k, d, rfl, hd, hk, fun rest' => ?_⟩
      rw [beforeAt_cons]
      exact hlocal rest'

theorem EndsAt.le_countP (h : EndsAt read stop n) {before : Option Char} {t : Text} {f : Found α}
    (hf : read.find? before t = some f) : n ≤ t.countP stop := by
  obtain ⟨k, d, rfl, hd, hk, -⟩ := h.find?_eq_some hf
  rw [List.countP_append, List.countP_append, List.countP_cons, hd, if_pos rfl]
  omega

/-- **The first place is settled** by what stands up to its end. -/
theorem EndsAt.find?_local (h : EndsAt read stop n) {before : Option Char} {t : Text}
    {f : Found α} (hf : read.find? before t = some f) :
    ∃ k, t = k ++ f.after ∧
      ∀ rest', read.find? before (k ++ rest') = some { f with after := rest' } := by
  induction t generalizing before f with
  | nil => simp [find?] at hf
  | cons c t ih =>
    cases hread : read.read? before (c :: t) with
    | some r =>
      obtain ⟨a, rest⟩ := r
      rw [find?_of_read hread] at hf
      obtain rfl := Option.some.inj hf
      obtain ⟨k, d, ht, -, -, hlocal⟩ := h.reading hread
      refine ⟨k ++ [d], by rw [ht]; simp, fun rest' => ?_⟩
      rw [List.append_assoc]
      exact find?_of_read (hlocal rest')
    | none =>
      rw [find?_of_not_read hread] at hf
      obtain ⟨g, hg, rfl⟩ := Option.map_eq_some_iff.1 hf
      obtain ⟨k, rfl, hlocal⟩ := ih hg
      refine ⟨c :: k, rfl, fun rest' => ?_⟩
      -- what is found later ends within `k`, and so settles that nothing is read here
      have hcount : n ≤ (c :: k).countP stop := by
        have hk := h.le_countP (hlocal [])
        rw [List.append_nil] at hk
        rw [List.countP_cons]
        omega
      have hnone : read.read? before (c :: k) = none := by
        have happ := h.read?_append hcount before g.after
        rw [show c :: k ++ g.after = c :: (k ++ g.after) from rfl, hread] at happ
        exact Option.map_eq_none_iff.1 happ.symm
      have hnone' : read.read? before (c :: (k ++ rest')) = none := by
        have happ := h.read?_append hcount before rest'
        rw [hnone] at happ
        exact happ
      rw [List.cons_append, find?_of_not_read hnone', hlocal]
      rfl

theorem EndsAt.find?_append (h : EndsAt read stop n) {before : Option Char} {t : Text}
    {f : Found α} (hf : read.find? before t = some f) (u : Text) :
    read.find? before (t ++ u) = some { f with after := f.after ++ u } := by
  obtain ⟨k, hk, hlocal⟩ := h.find?_local hf
  have happ : t ++ u = k ++ (f.after ++ u) := by rw [← List.append_assoc, ← hk]
  rw [happ]
  exact hlocal _

/-- Nothing is found through a text that ends nothing. -/
theorem EndsAt.find?_append_of_forall (h : EndsAt read stop n) {y : Text}
    (hy : ∀ c ∈ y, stop c = false) (before : Option Char) (x : Text) :
    read.find? before (x ++ y) =
      (read.find? before x).map fun f => { f with after := f.after ++ y } := by
  cases hx : read.find? before x with
  | some f => exact h.find?_append hx y
  | none =>
    cases hxy : read.find? before (x ++ y) with
    | none => rfl
    | some f =>
      obtain ⟨k, d, hsplit, hd, -, hlocal⟩ := h.find?_eq_some hxy
      have hfound : (read.find? before x).isSome = true := by
        rw [← List.append_assoc] at hsplit
        rcases List.append_eq_append_iff.1 hsplit with ⟨z, -, rfl⟩ | ⟨z, rfl, hz⟩
        · exact absurd (hy d (by simp)) (by simp [hd])
        · cases z with
          | nil =>
            rw [List.nil_append] at hz
            exact absurd (hy d (by rw [← hz]; simp)) (by simp [hd])
          | cons e z =>
            obtain rfl := (List.cons.inj hz).1
            exact isSome_find?_iff.2 ⟨f.before, k ++ d :: z, by simp, by rw [hlocal z]; rfl⟩
      rw [hx] at hfound
      exact absurd hfound (by simp)

end Reader
end AriaLint
