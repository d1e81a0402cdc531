import AriaLint.Tag

/-!
# Where the name of a tag ends

A name is cut out of the run of name characters behind an opening bracket, and which cuts there are
depends on that run and on the one character behind it.  So a text may be exchanged behind a name
without a trace: `nameCuts_append_of_delimits` says so when the new text starts with a character
that neither goes on with a name nor is a word character, and `nameCuts_append_of_mem` when the run
has come to its end before.

Blanks, slashes and brackets all delimit a name.  That a blank is no name character is not obvious,
since a name is read without regard to case and so admits a few characters beyond ASCII: the tables
of capitals and of word characters have to avoid the stretches of blanks.
-/

namespace AriaLint

/-! ## Blanks are not part of names -/

/-- What holds of each ASCII character can be looked up. -/
theorem forall_ascii {P : Char → Prop} (h : ∀ n < 128, P (Char.ofNat n)) {c : Char}
    (hc : c.toNat < 128) : P c := by
  have hn := h c.toNat hc
  rwa [Char.ofNat_toNat] at hn

theorem exists_stretch_of_isBlank {c : Char} (h : isBlank c = true) :
    ∃ p ∈ blankStretches, p.1 ≤ c.toNat ∧ c.toNat ≤ p.2 := by
  obtain ⟨p, hp, hc⟩ := List.any_eq_true.1 h
  simp only [Bool.and_eq_true, decide_eq_true_eq] at hc
  exact ⟨p, hp, hc⟩

/-- No stretch of the set meets a stretch of blanks. -/
def Stretches.avoidsBlanks (s : Stretches) : Bool :=
  s.all fun q => blankStretches.all fun p => Nat.blt q.2 p.1 || Nat.blt p.2 q.1

theorem Stretches.has_eq_false {s : Stretches} (hs : s.avoidsBlanks = true) {c : Char}
    (h : isBlank c = true) : s.has c = false := by
  obtain ⟨p, hp, hlow, hhigh⟩ := exists_stretch_of_isBlank h
  rw [Stretches.has, List.any_eq_false]
  intro q hq hc
  have hapart := List.all_eq_true.1 (List.all_eq_true.1 hs q hq) p hp
  simp only [Bool.and_eq_true, Bool.or_eq_true, decide_eq_true_eq, Nat.blt_eq] at hc hapart
  omega

/-- A blank is like no other character. -/
theorem fold_of_isBlank {c : Char} (h : isBlank c = true) : fold c = c := by
  by_cases hascii : c.toNat < 128
  · have hall : ∀ n < 128, isBlank (Char.ofNat n) = true → fold (Char.ofNat n) = Char.ofNat n := by
      decide
    exact forall_ascii (P := fun c => isBlank c = true → fold c = c) hall hascii h
  · have hruns : Stretches.avoidsBlanks (capitalRuns.map fun r => (r.first, r.last)) = true := by
      decide
    have hshared : ∀ p ∈ sharedCapitals, isBlank p.1 = false := by decide
    have hfind : capitalRuns.find? (·.has c) = none := by
      rw [List.find?_eq_none]
      intro r hr hc
      have hnot := List.any_eq_false.1 (Stretches.has_eq_false hruns h) (r.first, r.last)
        (List.mem_map.2 ⟨r, hr, rfl⟩)
      simp only [CapitalRun.has, Bool.and_eq_true] at hc
      exact hnot (Bool.and_eq_true_iff.2 hc.1)
    have hlower : lowerChar c = c := by rw [lowerChar, if_neg hascii, hfind]
    have hlookup : sharedCapitals.lookup c = none := by
      rw [List.lookup_eq_none_iff]
      intro p hp
      refine bne_iff_ne.2 ?_
      rintro rfl
      rw [hshared p hp] at h
      exact Bool.false_ne_true h
    unfold fold
    rw [hlower, if_neg hascii, hlookup]
    rfl

/-- A name cannot hold this character, and a word boundary lies before it whenever a word ends
there. -/
def delimitsName (c : Char) : Bool := !Tag.isNameChar c && !isWord c

theorem delimitsName_of_isBlank {c : Char} (h : isBlank c = true) : delimitsName c = true := by
  by_cases hascii : c.toNat < 128
  · have hall : ∀ n < 128, isBlank (Char.ofNat n) = true → delimitsName (Char.ofNat n) = true := by
      decide
    exact forall_ascii (P := fun c => isBlank c = true → delimitsName c = true) hall hascii h
  · have hwords : Stretches.avoidsBlanks wordStretches = true := by decide +kernel
    have hword : isWord c = false := by
      rw [isWord, if_neg hascii]
      exact Stretches.has_eq_false hwords h
    have hle : ∀ d : Char, d.toNat < 128 → ¬ c ≤ d := by
      intro d hd hcd
      exact hascii (Nat.lt_of_le_of_lt hcd hd)
    have hname : Tag.isNameChar c = false := by
      simp only [Tag.isNameChar, fold_of_isBlank h, Bool.or_eq_false_iff, Bool.and_eq_false_iff,
        decide_eq_false_iff_not, beq_eq_false_iff_ne]
      refine ⟨⟨⟨Or.inr (hle 'z' (by decide)), Or.inr (hle '9' (by decide))⟩, ?_⟩, ?_⟩
      · rintro rfl
        exact hascii (by decide)
      · rintro rfl
        exact hascii (by decide)
    rw [delimitsName, hword, hname]
    rfl

theorem delimitsName_slash : delimitsName '/' = true := by decide

theorem delimitsName_close : delimitsName '>' = true := by decide

theorem delimitsName_open : delimitsName '<' = true := by decide

theorem isNameChar_eq_false {c : Char} (h : delimitsName c = true) :
    Tag.isNameChar c = false := by
  have h' := (Bool.and_eq_true_iff.1 h).1
  simpa using h'

theorem isWord_eq_false {c : Char} (h : delimitsName c = true) : isWord c = false := by
  have h' := (Bool.and_eq_true_iff.1 h).2
  simpa using h'

/-- The text is empty or starts with a character that delimits a name. -/
def Delimits (t : Text) : Prop := ∀ c ∈ t.head?, delimitsName c = true

theorem delimits_cons {c : Char} {t : Text} (h : delimitsName c = true) : Delimits (c :: t) := by
  intro d hd
  rw [List.head?_cons] at hd
  obtain rfl := Option.some.inj hd
  exact h

namespace Tag

/-! ## The cuts of a name -/

/-- Every character of a name is a name character. -/
theorem isNameChar_of_mem_nameCuts {t name rest : Text} (h : (name, rest) ∈ nameCuts t) {c : Char}
    (hc : c ∈ name) : isNameChar c = true := by
  induction t generalizing name with
  | nil => simp [nameCuts] at h
  | cons d t ih =>
    unfold nameCuts at h
    split at h
    · next hd =>
      rcases List.mem_append.1 h with h | h
      · obtain ⟨⟨n, r⟩, hn, heq⟩ := List.mem_map.1 h
        simp only [Prod.mk.injEq] at heq
        obtain ⟨rfl, rfl⟩ := heq
        rcases List.mem_cons.1 hc with rfl | hc
        · exact hd
        · exact ih hn hc
      · split at h
        · obtain ⟨rfl, rfl⟩ := Prod.mk.inj (List.mem_singleton.1 h)
          rw [List.mem_singleton.1 hc]
          exact hd
        · simp at h
    · simp at h

/-- What is exchanged behind a name. -/
def extendCut (b : Text) (cut : Text × Text) : Text × Text := (cut.1, cut.2 ++ b)

/-- The cuts of a name do not depend on what follows a delimiter. -/
theorem nameCuts_append_of_delimits (a : Text) {b : Text} (h : Delimits b) :
    nameCuts (a ++ b) = (nameCuts a).map (extendCut b) := by
  induction a with
  | nil =>
    cases b with
    | nil => rfl
    | cons c b =>
      have hc : isNameChar c = false := isNameChar_eq_false (h c rfl)
      show nameCuts (c :: b) = []
      rw [nameCuts, if_neg (by simp [hc])]
  | cons c a ih =>
    have hboundary : isBoundary (some c) (a ++ b).head? = isBoundary (some c) a.head? := by
      cases a with
      | cons d a => rfl
      | nil =>
        cases b with
        | nil => rfl
        | cons d b =>
          have hd : isWord d = false := isWord_eq_false (h d rfl)
          simp [isBoundary, hd]
    rw [List.cons_append, nameCuts, nameCuts, ih, hboundary]
    by_cases hc : isNameChar c = true
    · rw [if_pos hc, if_pos hc, List.map_append, List.map_map, List.map_map]
      by_cases hb : isBoundary (some c) a.head? = true
      · rw [if_pos hb, if_pos hb]
        rfl
      · rw [if_neg hb, if_neg hb]
        rfl
    · rw [if_neg hc, if_neg hc]
      rfl

/-- The cuts of a name do not depend on what follows the end of its run. -/
theorem nameCuts_append_of_mem {a : Text} (h : ∃ c ∈ a, isNameChar c = false) (b : Text) :
    nameCuts (a ++ b) = (nameCuts a).map (extendCut b) := by
  induction a with
  | nil => simp at h
  | cons c a ih =>
    rw [List.cons_append, nameCuts, nameCuts]
    by_cases hc : isNameChar c = true
    · obtain ⟨d, hd, hname⟩ := h
      have hda : d ∈ a := by
        rcases List.mem_cons.1 hd with rfl | hd
        · exact absurd hc (by simp [hname])
        · exact hd
      have hhead : (a ++ b).head? = a.head? := by
        obtain ⟨e, a', rfl⟩ := List.exists_cons_of_ne_nil (List.ne_nil_of_mem hda)
        rfl
      rw [if_pos hc, if_pos hc, ih ⟨d, hda, hname⟩, hhead, List.map_append, List.map_map,
        List.map_map]
      by_cases hb : isBoundary (some c) a.head? = true
      · rw [if_pos hb, if_pos hb]
        rfl
      · rw [if_neg hb, if_neg hb]
        rfl
    · rw [if_neg hc, if_neg hc]
      rfl

theorem readName?_append_of_delimits (a : Text) {b : Text} (h : Delimits b) :
    readName? (a ++ b) = (readName? a).map (extendCut b) := by
  rw [← head?_nameCuts, ← head?_nameCuts, nameCuts_append_of_delimits a h, List.head?_map]

theorem readName?_append_of_mem {a : Text} (h : ∃ c ∈ a, isNameChar c = false) (b : Text) :
    readName? (a ++ b) = (readName? a).map (extendCut b) := by
  rw [← head?_nameCuts, ← head?_nameCuts, nameCuts_append_of_mem h b, List.head?_map]

theorem isNameChar_of_readName? {t name rest : Text} (h : readName? t = some (name, rest))
    {c : Char} (hc : c ∈ name) : isNameChar c = true := by
  rw [← head?_nameCuts] at h
  exact isNameChar_of_mem_nameCuts (List.mem_of_head? h) hc

/-- A delimiter does not occur among name characters. -/
theorem not_mem_of_delimitsName {name : Text} (h : ∀ c ∈ name, isNameChar c = true) {c : Char}
    (hc : delimitsName c = true) : c ∉ name := by
  intro hmem
  have hchar := h c hmem
  rw [isNameChar_eq_false hc] at hchar
  exact Bool.false_ne_true hchar

/-- A delimiter does not occur in a name. -/
theorem not_mem_of_readName? {t name rest : Text} (h : readName? t = some (name, rest)) {c : Char}
    (hc : delimitsName c = true) : c ∉ name :=
  not_mem_of_delimitsName (fun _ => isNameChar_of_readName? h) hc

end Tag
end AriaLint
