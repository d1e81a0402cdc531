import AriaLint.Files.Store
import Mathlib.Data.List.Infix

/-!
# Writing to a store

Writing a file changes what is at its own place and at no other, and a name that led somewhere before
leads to the same place afterwards.  So what has been written is what will be read
(`readBytes_write`), and a file can be written in the new store only if it could have been in the old
one (`exists_write_of_write`).

A store may hold a file above another one, so it is not enough to look at the entries.  What counts
is that everything above the place of a new file has been seen to be a directory (`IsBelow`), which
is so for every place that names lead to (`isBelow_of_follow`).
-/

namespace AriaLint.Store

variable {s s' : Store} {p q r : Place} {name : Text} {bytes : List UInt8}

/-! ## Places below directories -/

/-- Everything above the place is a directory. -/
def IsBelow (s : Store) (p : Place) : Prop :=
  ∀ q, q <+: p → q ≠ p → s.entry? q = some .directory

theorem isBelow_nil (s : Store) : s.IsBelow [] :=
  fun _ hq hne => absurd (List.prefix_nil.1 hq) hne

/-- A name in a directory. -/
theorem IsBelow.concat (h : s.IsBelow p) (hp : s.entry? p = some .directory) (name : Text) :
    s.IsBelow (p ++ [name]) := by
  intro q hq hne
  rcases List.prefix_concat_iff.1 hq with rfl | hq
  · exact absurd rfl hne
  · by_cases heq : q = p
    · rw [heq, hp]
    · exact h q hq heq

theorem IsBelow.of_prefix (h : s.IsBelow p) (hq : q <+: p) : s.IsBelow q := by
  intro r hr hne
  refine h r (hr.trans hq) ?_
  rintro rfl
  exact hne (hr.eq_of_length_le hq.length_le)

theorem IsBelow.parent (h : s.IsBelow p) (hp : s.entry? p = some .directory) :
    s.IsBelow (parent p) := by
  unfold Store.parent
  split
  · exact h
  · split
    · exact h.concat hp _
    · exact h.of_prefix (List.dropLast_prefix p)

/-- **Names lead to places below directories.** -/
theorem isBelow_of_follow {names : List Text} (h : s.follow p names = .ok r) (hp : s.IsBelow p) :
    s.IsBelow r := by
  induction names generalizing p with
  | nil =>
    obtain rfl := Except.ok.inj h
    exact hp
  | cons name names ih =>
    unfold follow at h
    split at h
    · simp at h
    · simp at h
    · next hentry =>
      split at h
      · exact ih h hp
      · split at h
        · exact ih h (hp.parent hentry)
        · split at h
          · simp at h
          · exact ih h (hp.concat hentry name)

theorem isBelow_of_followFrom {parts : List Text} (h : s.followFrom name parts = .ok p) :
    s.IsBelow p := by
  unfold followFrom at h
  split at h
  · simp at h
  · split at h
    · simp at h
    · split at h
      · simp at h
      · refine isBelow_of_follow h ?_
        split
        · exact (isBelow_nil s).concat rfl _
        · exact isBelow_nil s

/-- The place of a file to be written: names lead there, and there is no directory. -/
theorem target?_eq_ok_iff :
    s.target? name = .ok p ↔
      name.getLast? ≠ some '/' ∧ s.place? name = .ok p ∧ s.entry? p ≠ some .directory := by
  unfold target?
  split
  · next hslash =>
    constructor
    · intro h
      cases hfollow : s.followFrom name (directoryParts name) with
      | error e =>
        rw [hfollow] at h
        exact absurd h (by simp [Except.bind])
      | ok q =>
        rw [hfollow] at h
        exact absurd h (by simp [Except.bind])
    · exact fun h => absurd hslash h.1
  · next hslash =>
    cases hplace : s.place? name with
    | error e => simp [Except.bind]
    | ok q =>
      show (if s.entry? q = some .directory then Except.error Obstacle.isDirectory else .ok q) = _ ↔ _
      split
      · next hdirectory =>
        constructor
        · simp
        · rintro ⟨-, h, hnot⟩
          obtain rfl := Except.ok.inj h
          exact absurd hdirectory hnot
      · next hnot =>
        constructor
        · intro h
          obtain rfl := Except.ok.inj h
          exact ⟨hslash, rfl, hnot⟩
        · exact fun h => h.2.1

/-! ## The store with a new file -/

/-- The place can take a file. -/
structure Takes (s : Store) (p : Place) : Prop where
  below : s.IsBelow p
  free : s.entry? p ≠ some .directory

theorem takes_of_target? (h : s.target? name = .ok p) : s.Takes p := by
  obtain ⟨-, hplace, hfree⟩ := target?_eq_ok_iff.1 h
  exact ⟨isBelow_of_followFrom hplace, hfree⟩

namespace Takes

variable (h : s.Takes p)

include h

theorem isAncestor_eq_false : isAncestor p = false := by
  cases hp : isAncestor p with
  | false => rfl
  | true => exact absurd (if_pos hp) h.free

theorem entry_put_self (bytes : List UInt8) :
    Store.entry? (s.put p bytes) p = some (.file bytes) := by
  have hgone : (s.entries.filter (·.1 ≠ p)).lookup p = none := by
    rw [List.lookup_eq_none_iff]
    intro e he
    exact bne_iff_ne.2 (Ne.symm (of_decide_eq_true (List.mem_filter.1 he).2))
  have hfound : (s.put p bytes).entries.lookup p = some (.file bytes) := by
    rw [put, List.lookup_append, hgone]
    simp
  unfold Store.entry?
  rw [h.isAncestor_eq_false, hfound]
  rfl

/-- **All other places stay as they are.** -/
theorem entry_put_of_ne (bytes : List UInt8) (hq : q ≠ p) :
    Store.entry? (s.put p bytes) q = s.entry? q := by
  unfold Store.entry?
  rw [lookup_put_of_ne hq]
  cases hancestor : isAncestor q with
  | true => rfl
  | false =>
    cases hlookup : s.entries.lookup q with
    | some e => rfl
    | none =>
      have hany : ((s.put p bytes).entries.any fun e => q.isPrefixOf e.1) =
          s.entries.any fun e => q.isPrefixOf e.1 := by
        rw [put, List.any_append, List.any_filter]
        by_cases hprefix : q <+: p
        · have hdirectory := h.below q hprefix hq
          unfold Store.entry? at hdirectory
          rw [hancestor, hlookup] at hdirectory
          have hheld : (s.entries.any fun e => q.isPrefixOf e.1) = true := by
            by_contra hnone
            simp [hnone] at hdirectory
          rw [hheld]
          simp [List.isPrefixOf_iff_prefix.2 hprefix]
        · have hnot : q.isPrefixOf p = false := by
            rwa [Bool.eq_false_iff, ne_eq, List.isPrefixOf_iff_prefix]
          have hself : ([(p, Entry.file bytes)].any fun e => q.isPrefixOf e.1) = false := by
            simp [hnot]
          rw [hself, Bool.or_false]
          refine List.any_congr rfl fun e => ?_
          by_cases he : e.1 = p
          · simp [he, hnot]
          · simp [he]
      rw [hany]

/-- Nothing becomes a directory, and no directory is lost. -/
theorem entry_put_eq_directory_iff (bytes : List UInt8) :
    Store.entry? (s.put p bytes) q = some .directory ↔ s.entry? q = some .directory := by
  by_cases hq : q = p
  · subst hq
    rw [h.entry_put_self]
    exact iff_of_false (by simp) h.free
  · rw [h.entry_put_of_ne bytes hq]

/-- **Names lead where they led before.** -/
theorem follow_put_eq_ok_iff (bytes : List UInt8) {names : List Text} :
    (s.put p bytes).follow q names = .ok r ↔ s.follow q names = .ok r := by
  have hstep : ∀ (u : Store) (q : Place) (name : Text) (names : List Text),
      u.follow q (name :: names) = .ok r ↔ u.entry? q = some .directory ∧
        (if name = [] ∨ name = ['.'] then u.follow q names
          else if name = ['.', '.'] then u.follow (parent q) names
          else if nameLimit < (Utf8.encode name).length then .error .nameTooLong
          else u.follow (q ++ [name]) names) = .ok r := by
    intro u q name names
    conv_lhs => unfold follow
    cases u.entry? q with
    | none => simp
    | some e =>
      cases e with
      | file bytes => simp
      | directory => simp
  induction names generalizing q with
  | nil => rfl
  | cons name names ih =>
    rw [hstep, hstep, h.entry_put_eq_directory_iff]
    refine and_congr_right fun _ => ?_
    split
    · exact ih
    · split
      · exact ih
      · split
        · rfl
        · exact ih

theorem place?_put_eq_ok_iff (bytes : List UInt8) :
    (s.put p bytes).place? name = .ok q ↔ s.place? name = .ok q := by
  unfold place? followFrom
  split
  · rfl
  · split
    · rfl
    · split
      · rfl
      · exact h.follow_put_eq_ok_iff bytes

theorem target?_put_eq_ok_iff (bytes : List UInt8) :
    (s.put p bytes).target? name = .ok q ↔ s.target? name = .ok q := by
  rw [target?_eq_ok_iff, target?_eq_ok_iff, h.place?_put_eq_ok_iff, ne_eq, ne_eq,
    h.entry_put_eq_directory_iff]

/-- A file at another place is read as before. -/
theorem readBytes_put_of_ne (bytes : List UInt8) (hplace : s.place? name = .ok q) (hq : q ≠ p) :
    (s.put p bytes).readBytes name = s.readBytes name := by
  rw [readBytes, readBytes, (h.place?_put_eq_ok_iff bytes).2 hplace, hplace]
  dsimp only
  rw [h.entry_put_of_ne bytes hq]

end Takes

/-- A file that is read is at some place. -/
theorem exists_place_of_read {t : Text} (h : s.read name = .ok t) :
    ∃ q, s.place? name = .ok q := by
  cases hplace : s.place? name with
  | error obstacle =>
    rw [read, readBytes, hplace] at h
    cases h
  | ok q => exact ⟨q, rfl⟩

/-! ## Writing -/

theorem write_eq_ok_iff {t : Text} :
    s.write name t = .ok s' ↔ ∃ p, s.target? name = .ok p ∧ s' = s.put p (Utf8.encode t) := by
  unfold write
  cases s.target? name with
  | error e => simp
  | ok p => simp [eq_comm]

/-- **What has been written is read.** -/
theorem readBytes_write {t : Text} (h : s.write name t = .ok s') :
    s'.readBytes name = .ok (Utf8.encode t) := by
  obtain ⟨p, htarget, rfl⟩ := write_eq_ok_iff.1 h
  have htakes := takes_of_target? htarget
  have hplace := (htakes.place?_put_eq_ok_iff (Utf8.encode t)).2 (target?_eq_ok_iff.1 htarget).2.1
  rw [readBytes, hplace]
  show (match Store.entry? (s.put p (Utf8.encode t)) p with | _ => _) = _
  rw [htakes.entry_put_self]

/-- **A file that can be written after another one could have been written before it.** -/
theorem exists_write_of_write {name' : Text} {t t' : Text} {s'' : Store}
    (h : s.write name t = .ok s') (h' : s'.write name' t' = .ok s'') :
    ∃ u, s.write name' t' = .ok u := by
  obtain ⟨p, htarget, rfl⟩ := write_eq_ok_iff.1 h
  obtain ⟨q, htarget', -⟩ := write_eq_ok_iff.1 h'
  exact ⟨_, write_eq_ok_iff.2
    ⟨q, ((takes_of_target? htarget).target?_put_eq_ok_iff _).1 htarget', rfl⟩⟩

end AriaLint.Store
