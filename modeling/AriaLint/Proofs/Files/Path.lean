import AriaLint.Proofs.Files.Store

/-!
# Paths that differ in their last name

The fixed text of a file goes to a path of its own unless it is told to go elsewhere.  That path
differs in its last name (`Path.fixed?_ne`), whatever the name looks like: a name without a dot, one
that begins or ends with dots, or one that is the name of a fixed file already.

Two different paths may lead to one place.  These two do not (`Path.place?_fixed?_ne`).  Both are
looked up by the same names but for the last one, so it is looked up in the same directory, where
another name is another place.  The one name that leads somewhere else is the double dot, and that
leads to the parent.
-/

namespace AriaLint

namespace Text

/-! ## Parts of a text -/

theorem splitOn_ne_nil (sep : Char) (t : Text) : splitOn sep t ≠ [] := by
  cases t with
  | nil => simp [splitOn]
  | cons c t =>
    rw [splitOn]
    split
    · simp
    · split <;> simp

/-- A separator cuts a text in two. -/
theorem splitOn_append_cons (sep : Char) (u v : Text) :
    splitOn sep (u ++ sep :: v) = splitOn sep u ++ splitOn sep v := by
  induction u with
  | nil =>
    obtain ⟨part, parts, hv⟩ := List.exists_cons_of_ne_nil (splitOn_ne_nil sep v)
    simp [splitOn, hv]
  | cons c u ih =>
    obtain ⟨part, parts, hu⟩ := List.exists_cons_of_ne_nil (splitOn_ne_nil sep u)
    rw [List.cons_append, splitOn, ih, splitOn, hu]
    by_cases hc : c = sep <;> simp [hc]

theorem splitOn_of_not_mem {sep : Char} {t : Text} (h : sep ∉ t) : splitOn sep t = [t] := by
  induction t with
  | nil => rfl
  | cons c t ih =>
    rw [List.mem_cons, not_or] at h
    rw [splitOn, ih h.2]
    exact if_neg (Ne.symm h.1)

/-- No part holds a separator. -/
theorem not_mem_of_mem_splitOn {sep : Char} {t part : Text} (h : part ∈ splitOn sep t) :
    sep ∉ part := by
  induction t generalizing part with
  | nil =>
    obtain rfl := List.mem_singleton.1 h
    exact List.not_mem_nil
  | cons c t ih =>
    obtain ⟨first, parts, ht⟩ := List.exists_cons_of_ne_nil (splitOn_ne_nil sep t)
    rw [ht] at ih
    rw [splitOn, ht] at h
    dsimp only at h
    split at h
    · rcases List.mem_cons.1 h with rfl | h
      · exact List.not_mem_nil
      · exact ih h
    · next hc =>
      rcases List.mem_cons.1 h with rfl | h
      · rw [List.mem_cons, not_or]
        exact ⟨Ne.symm hc, ih List.mem_cons_self⟩
      · exact ih (List.mem_cons_of_mem _ h)

/-- The last of some joined texts stands at the end. -/
theorem join_concat (sep : Text) (ts : List Text) (t : Text) :
    join sep (ts ++ [t]) = ts.flatMap (· ++ sep) ++ t := by
  induction ts with
  | nil => simp [join]
  | cons u ts ih =>
    obtain ⟨first, rest, hrest⟩ : ∃ first rest, ts ++ [t] = first :: rest :=
      List.exists_cons_of_ne_nil (by simp)
    have hcons : join sep (u :: (ts ++ [t])) = u ++ sep ++ join sep (ts ++ [t]) := by
      rw [hrest]
      simp [join]
    rw [List.cons_append, hcons, ih, List.flatMap_cons, List.append_assoc (u ++ sep)]

end Text

namespace Path

variable {p q : Path} {s : Store} {a b : Text}

/-! ## The last name -/

/-- A name with the extension of fixed files has lost the extension that it had. -/
theorem stem_append_fixed (name : Text) : stem (name ++ ".fixed.html") = name ++ ".fixed" := by
  simp [stem]

/-- The extension of fixed files makes another name of any name. -/
theorem stem_append_ne (name : Text) : stem name ++ ".fixed.html" ≠ name := by
  intro h
  have hstem := stem_append_fixed (stem name)
  rw [h] at hstem
  simpa using congrArg List.length hstem

/-- The path of a fixed file has another last name. -/
theorem exists_names_of_fixed? (h : p.fixed? = some q) :
    ∃ names name, p = ⟨p.root, names ++ [name]⟩ ∧
      q = ⟨p.root, names ++ [stem name ++ ".fixed.html"]⟩ := by
  obtain ⟨name, hname, rfl⟩ := Option.map_eq_some_iff.1 h
  obtain ⟨names, hnames⟩ := List.getLast?_eq_some_iff.1 hname
  refine ⟨names, name, ?_, ?_⟩
  · rw [← hnames]
  · rw [hnames, List.dropLast_concat]

theorem toText_concat (root : Text) (names : List Text) (name : Text) :
    toText ⟨root, names ++ [name]⟩ = root ++ names.flatMap (· ++ ['/']) ++ name := by
  rw [toText, if_neg (by simp), Text.join_concat, List.append_assoc]

/-- **The path of a fixed file is another path**, and is written in another way. -/
theorem fixed?_ne (h : p.fixed? = some q) : q ≠ p ∧ q.toText ≠ p.toText := by
  obtain ⟨names, name, hp, rfl⟩ := exists_names_of_fixed? h
  have htext : toText ⟨p.root, names ++ [stem name ++ ".fixed.html"]⟩ ≠ p.toText := by
    rw [hp, toText_concat, toText_concat]
    exact fun heq => stem_append_ne name (List.append_cancel_left heq)
  exact ⟨fun heq => htext (congrArg toText heq), htext⟩

/-! ## Names that a path has been read from -/

/-- A name that a path can hold. -/
structure IsName (name : Text) : Prop where
  ne_nil : name ≠ []
  ne_dot : name ≠ ['.']
  slash_not_mem : '/' ∉ name

theorem isName_of_mem_names {t name : Text} (h : name ∈ (ofText t).names) : IsName name := by
  obtain ⟨hpart, hname⟩ := List.mem_filter.1 h
  obtain ⟨hnil, hdot⟩ := of_decide_eq_true hname
  exact ⟨hnil, hdot, Text.not_mem_of_mem_splitOn hpart⟩

theorem rootOf_cases (t : Text) : rootOf t = [] ∨ ∃ u, rootOf t = u ++ ['/'] := by
  unfold rootOf
  split
  · exact Or.inl rfl
  · exact Or.inr ⟨['/'], rfl⟩
  · exact Or.inr ⟨[], rfl⟩

/-- What stands before the last name is nothing or ends with a slash. -/
theorem before_cases (t : Text) (names : List Text) :
    rootOf t ++ names.flatMap (· ++ ['/']) = [] ∨
      ∃ u, rootOf t ++ names.flatMap (· ++ ['/']) = u ++ ['/'] := by
  rcases List.eq_nil_or_concat names with rfl | ⟨names, name, rfl⟩
  · simpa using rootOf_cases t
  · exact Or.inr ⟨rootOf t ++ names.flatMap (· ++ ['/']) ++ name, by simp⟩

theorem mem_of_mem_stem {name : Text} {c : Char} (h : c ∈ stem name) : c ∈ name := by
  unfold stem at h
  dsimp only at h
  split at h
  · exact h
  · exact List.mem_reverse.1 (List.mem_of_mem_drop (List.mem_of_mem_tail (List.mem_reverse.1 h)))

theorem IsName.fixed {name : Text} (h : IsName name) : IsName (stem name ++ ".fixed.html") where
  ne_nil := by simp
  ne_dot heq := by simpa using congrArg List.length heq
  slash_not_mem hmem := by
    rcases List.mem_append.1 hmem with hmem | hmem
    · exact h.slash_not_mem (mem_of_mem_stem hmem)
    · exact absurd hmem (by decide)

end Path

namespace Store

variable {s : Store} {p q r : Place} {a b u : Text}

/-! ## The place of the last name -/

theorem follow_append (s : Store) (p : Place) (names names' : List Text) :
    s.follow p (names ++ names') = (s.follow p names).bind fun q => s.follow q names' := by
  induction names generalizing p with
  | nil => rfl
  | cons name names ih =>
    rw [List.cons_append, follow, follow]
    split
    · rfl
    · rfl
    · split
      · exact ih p
      · split
        · exact ih _
        · split
          · rfl
          · exact ih _

/-- A name is looked up in a directory: the double dot leads to its parent, all others below it. -/
theorem eq_of_follow_singleton (ha : Path.IsName a) (h : s.follow r [a] = .ok q) :
    q = if a = ['.', '.'] then parent r else r ++ [a] := by
  rw [follow] at h
  split at h
  · simp at h
  · simp at h
  · rw [if_neg (not_or.2 ⟨ha.ne_nil, ha.ne_dot⟩)] at h
    split at h
    · next hdots =>
      rw [if_pos hdots]
      exact (Except.ok.inj h).symm
    · next hdots =>
      rw [if_neg hdots]
      split at h
      · simp at h
      · exact (Except.ok.inj h).symm

theorem parent_ne_concat (hb : b ≠ ['.', '.']) : parent r ≠ r ++ [b] := by
  unfold parent
  split
  · simp
  · split
    · simpa using hb.symm
    · exact fun h => by simpa using congrArg List.length h

/-- Names that differ at the end only are looked up in one directory. -/
theorem exists_directory (s : Store) (hu : u = [] ∨ ∃ v, u = v ++ ['/']) :
    ∃ d : Except Obstacle Place, ∀ {a q}, '/' ∉ a → s.place? (u ++ a) = .ok q →
      ∃ r, d = .ok r ∧ s.follow r [a] = .ok q := by
  have hparts : ∃ parts, ∀ a, '/' ∉ a → Text.splitOn '/' (u ++ a) = parts ++ [a] := by
    rcases hu with rfl | ⟨v, rfl⟩
    · exact ⟨[], fun a ha => Text.splitOn_of_not_mem ha⟩
    · refine ⟨Text.splitOn '/' v, fun a ha => ?_⟩
      rw [List.append_assoc, List.singleton_append, Text.splitOn_append_cons,
        Text.splitOn_of_not_mem ha]
  obtain ⟨parts, hparts⟩ := hparts
  refine ⟨s.follow (if u.head? = some '/' then [['/']] else []) parts, fun {a q} ha h => ?_⟩
  have hhead : (u ++ a).head? = some '/' ↔ u.head? = some '/' := by
    rw [List.head?_append]
    cases u with
    | nil => simpa using fun h : a.head? = some '/' => ha (List.mem_of_mem_head? h)
    | cons c u => rfl
  rw [place?, hparts a ha, followFrom] at h
  split at h
  · simp at h
  · split at h
    · simp at h
    · split at h
      · simp at h
      · simp only [follow_append, hhead] at h
        cases hd : s.follow (if u.head? = some '/' then [['/']] else []) parts with
        | error e =>
          rw [hd] at h
          exact absurd h (by simp [Except.bind])
        | ok r =>
          rw [hd] at h
          exact ⟨r, rfl, h⟩

/-- **Another last name is another place**, unless it is the double dot. -/
theorem place?_ne (hu : u = [] ∨ ∃ v, u = v ++ ['/']) (ha : Path.IsName a) (hb : Path.IsName b)
    (hdots : b ≠ ['.', '.']) (hne : b ≠ a) (hq : s.place? (u ++ a) = .ok q)
    (hp : s.place? (u ++ b) = .ok p) : p ≠ q := by
  obtain ⟨d, hd⟩ := exists_directory s hu
  obtain ⟨r, rfl, hfollow⟩ := hd ha.slash_not_mem hq
  obtain ⟨r', hr, hfollow'⟩ := hd hb.slash_not_mem hp
  obtain rfl := Except.ok.inj hr
  rw [eq_of_follow_singleton ha hfollow, eq_of_follow_singleton hb hfollow', if_neg hdots]
  split
  · exact (parent_ne_concat hdots).symm
  · exact fun h => hne (List.singleton_inj.1 (List.append_cancel_left h))

/-- **The fixed text of a file goes to another place.** -/
theorem place?_fixed?_ne {name : Text} {path : Path} (h : (Path.ofText name).fixed? = some path)
    (hq : s.place? (Path.ofText name).toText = .ok q) (hp : s.place? path.toText = .ok p) :
    p ≠ q := by
  obtain ⟨names, last, hinput, rfl⟩ := Path.exists_names_of_fixed? h
  have hlast : Path.IsName last := by
    refine Path.isName_of_mem_names (t := name) ?_
    rw [hinput]
    simp
  have hdots : Path.stem last ++ ".fixed.html" ≠ ['.', '.'] :=
    fun heq => by simpa using congrArg List.length heq
  rw [hinput, Path.toText_concat] at hq
  rw [Path.toText_concat] at hp
  exact place?_ne (Path.before_cases name names) hlast hlast.fixed hdots
    (Path.stem_append_ne last) hq hp

end Store
end AriaLint
