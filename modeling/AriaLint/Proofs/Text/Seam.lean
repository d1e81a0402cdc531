import AriaLint.Proofs.Text.Reader

/-!
# Seams

Two texts in a row have a *seam* between them when whatever is read at a place of the first one is
read within the first one.  Then the two texts can be taken apart: the first construct of both is
the first one of the first text or, failing that, of the second one (`IsSeam.first?_append`), and
the pieces of both are their pieces in a row (`IsSeam.pieces_append`).

Editing a text in the middle means to exchange one part of it, and so a question about an edit
becomes a question about the seams around the part that goes and the part that comes.
-/

namespace AriaLint

namespace Reader

variable {α : Type} {read : Reader α}

variable (read) in
/-- The first construct of a text that follows the given character. -/
def first? (before : Option Char) (t : Text) : Option α := (read.find? before t).map Found.item

variable (read) in
/-- The constructs of a text that follows the given character. -/
def itemsAfter (before : Option Char) (t : Text) : List α :=
  (read.pieces before t).filterMap Piece.item?

variable (read) in
/-- What is read at a place of the first text is read within it. -/
def IsSeam (before : Option Char) (x z : Text) : Prop :=
  ∀ a b, x = a ++ b → b ≠ [] →
    read.read? (beforeAt before a) (b ++ z) =
      (read.read? (beforeAt before a) b).map fun r => (r.1, r.2 ++ z)

variable (read) in
/-- Keeping everything changes nothing. -/
theorem filter_true : (read.filter fun _ => true) = read := by
  obtain ⟨reads, shortens⟩ := read
  have hreads : (fun before t => (reads before t).filter fun _ => true) = reads := by
    funext before t
    cases reads before t <;> rfl
  simp only [filter, hreads]

theorem first?_nil (before : Option Char) : read.first? before [] = none := rfl

theorem first?_of_read {before : Option Char} {t rest : Text} {a : α}
    (h : read.read? before t = some (a, rest)) : read.first? before t = some a := by
  rw [first?, find?_of_read h]
  rfl

theorem first?_of_not_read {before : Option Char} {c : Char} {t : Text}
    (h : read.read? before (c :: t) = none) :
    read.first? before (c :: t) = read.first? (some c) t := by
  rw [first?, find?_of_not_read h, Option.map_map]
  rfl

/-- **Something is read at some place** where there is a first construct. -/
theorem exists_read?_of_first? {before : Option Char} {t : Text} {a : α}
    (h : read.first? before t = some a) :
    ∃ c d, t = c ++ d ∧ d ≠ [] ∧ ∃ rest, read.read? (beforeAt before c) d = some (a, rest) := by
  induction t generalizing before with
  | nil => exact absurd h (by simp [first?_nil])
  | cons c t ih =>
    cases hread : read.read? before (c :: t) with
    | some r =>
      obtain ⟨b, rest⟩ := r
      rw [first?_of_read hread] at h
      obtain rfl := Option.some.inj h
      exact ⟨[], c :: t, rfl, by simp, rest, hread⟩
    | none =>
      rw [first?_of_not_read hread] at h
      obtain ⟨a', d, rfl, hd, rest, hrest⟩ := ih h
      exact ⟨c :: a', d, rfl, hd, rest, by rwa [beforeAt_cons]⟩

/-- Nothing is read in a text that ends nothing. -/
theorem EndsAt.first?_eq_none {stop : Char → Bool} {n : Nat} (h : EndsAt read stop n) {t : Text}
    (ht : t.countP stop < n) (before : Option Char) : read.first? before t = none := by
  rw [first?, Option.map_eq_none_iff]
  cases hf : read.find? before t with
  | none => rfl
  | some f =>
    have hle := h.le_countP hf
    omega

namespace IsSeam

variable {before : Option Char} {x z : Text}

/-- The head of the first text is read within it. -/
theorem head {c : Char} (h : IsSeam read before (c :: x) z) :
    read.read? before (c :: (x ++ z)) =
      (read.read? before (c :: x)).map fun r => (r.1, r.2 ++ z) :=
  h [] (c :: x) rfl (by simp)

/-- A seam is the seam of what stands before it. -/
theorem of_append {a b : Text} (h : IsSeam read before (a ++ b) z) :
    IsSeam read (beforeAt before a) b z := by
  rintro c d rfl hd
  rw [← beforeAt_append]
  exact h (a ++ c) d (by rw [List.append_assoc]) hd

theorem tail {c : Char} (h : IsSeam read before (c :: x) z) : IsSeam read (some c) x z := by
  have h' : IsSeam read before ([c] ++ x) z := h
  exact h'.of_append

/-- **The first construct** of two texts in a row. -/
theorem first?_append (h : IsSeam read before x z) :
    read.first? before (x ++ z) =
      (read.first? before x).or (read.first? (beforeAt before x) z) := by
  induction x generalizing before with
  | nil => rfl
  | cons c x ih =>
    have hhead := h.head
    cases hread : read.read? before (c :: x) with
    | some r =>
      rw [hread] at hhead
      rw [List.cons_append, first?_of_read hhead, first?_of_read hread]
      rfl
    | none =>
      rw [hread] at hhead
      rw [List.cons_append, first?_of_not_read hhead, first?_of_not_read hread, ih h.tail,
        beforeAt_cons]

/-- Keeping only some of the constructs keeps the seam. -/
theorem filter (h : IsSeam read before x z) (keep : α → Bool) :
    IsSeam (read.filter keep) before x z := by
  intro a b hx hb
  show (read.read? (beforeAt before a) (b ++ z)).filter _ =
    ((read.read? (beforeAt before a) b).filter _).map _
  rw [h a b hx hb, Option.filter_map]
  rfl

end IsSeam

/-! ## Pieces -/

variable {stop : Char → Bool} {n : Nat}

theorem lastConsumed_eq (k : Text) (d : Char) (rest : Text) :
    lastConsumed (k ++ d :: rest) rest = some d := by
  have hlen : (k ++ d :: rest).length - rest.length = (k ++ [d]).length := by
    simp only [List.length_append, List.length_cons, List.length_nil]
    omega
  have hsplit : k ++ d :: rest = (k ++ [d]) ++ rest := by simp
  rw [lastConsumed, hlen, hsplit, List.take_left, List.getLast?_concat]

/-- **The pieces** of two texts in a row. -/
theorem IsSeam.pieces_append (hends : EndsAt read stop n) {before : Option Char} {x z : Text}
    (h : IsSeam read before x z) :
    read.pieces before (x ++ z) = read.pieces before x ++ read.pieces (beforeAt before x) z := by
  induction hlen : x.length using Nat.strongRecOn generalizing x before with
  | ind m ih =>
    subst hlen
    cases x with
    | nil => simp
    | cons c x =>
      have hhead := h.head
      cases hread : read.read? before (c :: x) with
      | none =>
        rw [hread] at hhead
        rw [List.cons_append, read.pieces_of_not_read hhead, read.pieces_of_not_read hread,
          ih x.length (Nat.lt_succ_self _) h.tail rfl, beforeAt_cons]
        rfl
      | some r =>
        obtain ⟨a, rest⟩ := r
        rw [hread] at hhead
        obtain ⟨k, d, hsplit, -, -, -⟩ := hends.reading hread
        have hlt : rest.length < (c :: x).length := read.shortens hread
        have hrest : c :: x = (k ++ [d]) ++ rest := by rw [hsplit]; simp
        have hseam : IsSeam read (some d) rest z := by
          rw [hrest] at h
          have hbehind := h.of_append
          rwa [beforeAt_concat] at hbehind
        have hbefore : beforeAt before (c :: x) = beforeAt (some d) rest := by
          rw [hrest, beforeAt_append, beforeAt_concat]
        have hlast : lastConsumed (c :: (x ++ z)) (rest ++ z) = some d := by
          rw [← List.cons_append, hsplit, List.append_assoc, List.cons_append]
          exact lastConsumed_eq k d _
        have hlast' : lastConsumed (c :: x) rest = some d := by
          rw [hsplit]
          exact lastConsumed_eq k d rest
        rw [List.cons_append, read.pieces_of_read hhead, read.pieces_of_read hread, hlast, hlast',
          ih rest.length hlt hseam rfl, hbefore]
        rfl

theorem IsSeam.itemsAfter_append (hends : EndsAt read stop n) {before : Option Char} {x z : Text}
    (h : IsSeam read before x z) :
    read.itemsAfter before (x ++ z) =
      read.itemsAfter before x ++ read.itemsAfter (beforeAt before x) z := by
  rw [itemsAfter, h.pieces_append hends, List.filterMap_append]
  rfl

theorem itemsAfter_of_read {before : Option Char} {t rest : Text} {a : α}
    (h : read.read? before t = some (a, rest)) :
    read.itemsAfter before t = a :: read.itemsAfter (lastConsumed t rest) rest := by
  rw [itemsAfter, read.pieces_of_read h]
  rfl

theorem itemsAfter_of_not_read {before : Option Char} {c : Char} {t : Text}
    (h : read.read? before (c :: t) = none) :
    read.itemsAfter before (c :: t) = read.itemsAfter (some c) t := by
  rw [itemsAfter, read.pieces_of_not_read h]
  rfl

/-- Nothing is read among characters at which nothing is read. -/
theorem itemsAfter_append_of_not_read {z : Text}
    (hz : ∀ c ∈ z, ∀ before t, read.read? before (c :: t) = none) (before : Option Char)
    (t : Text) : read.itemsAfter before (z ++ t) = read.itemsAfter (beforeAt before z) t := by
  induction z generalizing before with
  | nil => rfl
  | cons c z ih =>
    rw [List.cons_append, itemsAfter_of_not_read (hz c List.mem_cons_self before _),
      ih fun d hd => hz d (List.mem_cons_of_mem c hd), beforeAt_cons]

theorem head?_itemsAfter (before : Option Char) (t : Text) :
    (read.itemsAfter before t).head? = read.first? before t := by
  fun_induction pieces read before t with
  | case1 => simp [itemsAfter, first?_nil]
  | case2 before c t a rest hread ih => rw [itemsAfter_of_read hread, first?_of_read hread]; rfl
  | case3 before c t hread ih => rw [itemsAfter_of_not_read hread, first?_of_not_read hread, ih]

/-- Something is among the constructs when there is a first one. -/
theorem items_eq_nil_iff {t : Text} : read.items t = [] ↔ read.first? none t = none := by
  rw [← List.head?_eq_none_iff, ← head?_itemsAfter]
  rfl

/-- Every construct has been read at some place. -/
theorem EndsAt.exists_read?_of_mem_itemsAfter (hends : EndsAt read stop n) {before : Option Char}
    {t : Text} {a : α} (h : a ∈ read.itemsAfter before t) :
    ∃ c d, t = c ++ d ∧ d ≠ [] ∧ ∃ rest, read.read? (beforeAt before c) d = some (a, rest) := by
  induction hlen : t.length using Nat.strongRecOn generalizing t before with
  | ind m ih =>
    subst hlen
    cases t with
    | nil => exact absurd h (by simp [itemsAfter])
    | cons c t =>
      cases hread : read.read? before (c :: t) with
      | none =>
        rw [itemsAfter_of_not_read hread] at h
        obtain ⟨e, d, rfl, hd, rest, hrest⟩ := ih t.length (Nat.lt_succ_self _) h rfl
        exact ⟨c :: e, d, rfl, hd, rest, by rwa [beforeAt_cons]⟩
      | some r =>
        obtain ⟨b, rest⟩ := r
        obtain ⟨k, l, hsplit, -, -, -⟩ := hends.reading hread
        rw [itemsAfter_of_read hread, hsplit, lastConsumed_eq] at h
        rcases List.mem_cons.1 h with rfl | h
        · exact ⟨[], c :: t, rfl, by simp, rest, hread⟩
        · obtain ⟨e, d, rfl, hd, rest', hrest⟩ := ih rest.length (read.shortens hread) h rfl
          refine ⟨k ++ [l] ++ e, d, by rw [hsplit]; simp, hd, rest', ?_⟩
          rw [beforeAt_append, beforeAt_concat]
          exact hrest

/-! ## Characters that no construct holds -/

variable (read) in
/-- No construct holds the character, and none depends on what follows it. -/
def Spares (c : Char) : Prop :=
  ∀ {before t a rest}, read.read? before t = some (a, rest) →
    ∃ k, t = k ++ rest ∧ c ∉ k ∧ ∀ rest', read.read? before (k ++ rest') = some (a, rest')

namespace Spares

variable {c : Char}

theorem read?_cons (h : read.Spares c) (before : Option Char) (t : Text) :
    read.read? before (c :: t) = none := by
  rw [Option.eq_none_iff_forall_ne_some]
  rintro ⟨a, rest⟩ hread
  obtain ⟨k, hk, hc, -⟩ := h hread
  cases k with
  | nil =>
    have hlt := read.shortens hread
    rw [show c :: t = rest from hk] at hlt
    exact Nat.lt_irrefl _ hlt
  | cons d k =>
    obtain ⟨rfl, -⟩ := List.cons.inj hk
    exact hc List.mem_cons_self

/-- A text can be taken apart before the character. -/
theorem isSeam (h : read.Spares c) (before : Option Char) (x z : Text) :
    read.IsSeam before x (c :: z) := by
  intro a b hx hb
  cases hread : read.read? (beforeAt before a) b with
  | some r =>
    obtain ⟨d, rest⟩ := r
    obtain ⟨k, rfl, -, hlocal⟩ := h hread
    rw [List.append_assoc]
    exact hlocal _
  | none =>
    rw [Option.map_none, Option.eq_none_iff_forall_ne_some]
    rintro ⟨d, rest⟩ hread'
    obtain ⟨k, hk, hc, hlocal⟩ := h hread'
    have hwithin : ∃ u, b = k ++ u := by
      rcases List.append_eq_append_iff.1 hk with ⟨u, rfl, hz⟩ | ⟨u, hu, -⟩
      · cases u with
        | nil => exact ⟨[], by simp⟩
        | cons e u =>
          obtain ⟨rfl, -⟩ := List.cons.inj hz
          exact absurd (by simp) hc
      · exact ⟨u, hu⟩
    obtain ⟨u, rfl⟩ := hwithin
    rw [hlocal u] at hread
    exact absurd hread (by simp)

/-- **The first construct** on either side of the character. -/
theorem first?_append_cons (h : read.Spares c) (before : Option Char) (x z : Text) :
    read.first? before (x ++ c :: z) = (read.first? before x).or (read.first? (some c) z) := by
  rw [(h.isSeam before x z).first?_append, first?_of_not_read (h.read?_cons _ z)]

end Spares

end Reader
end AriaLint
