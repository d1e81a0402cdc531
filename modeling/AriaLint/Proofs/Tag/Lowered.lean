import AriaLint.Proofs.Tag.Name
import AriaLint.Proofs.Text.Words
import AriaLint.Role.Implicit

/-!
# Names of tags in lower case

The name of a tag, in lower case, is in the form in which names are compared (`normalize_name`):
it has no blanks, and lowering it again changes nothing.

Most characters of names are ASCII.  The others are the four that a comparison without regard to
case takes for ASCII letters (`isNameChar_cases`).

One of them, the dotted capital, becomes two characters.  The second one, the dot, is the small letter
of no name character, so that the letters of a name can still be read off its lower case form
(`filter_lower`).
-/

namespace AriaLint

/-- Characters beyond ASCII that pass for letters of a name. -/
def foreignNameChars : List Char := ['\u212A', '\u017F', '\u0130', '\u0131']

/-- The run is one of the two capitals beyond ASCII whose small letter is in ASCII. -/
def CapitalRun.isForeign (r : CapitalRun) : Bool :=
  Nat.beq r.first r.last && (Nat.beq r.first 0x212A || Nat.beq r.first 0x130)

/-- None of the small letters of the run is in ASCII or a foreign name character. -/
def CapitalRun.staysAway (r : CapitalRun) : Bool :=
  Nat.ble 128 r.small && foreignNameChars.all fun d =>
    Nat.blt d.toNat r.small || Nat.blt (r.small + (r.last - r.first)) d.toNat

/-- Beyond ASCII, a character that is no foreign name character has a small letter of that sort. -/
theorem lowerChar_cases {c : Char} (hascii : ¬ c.toNat < 128) (hc : c ∉ foreignNameChars) :
    lowerChar c ∉ foreignNameChars ∧ (128 ≤ (lowerChar c).toNat ∨ lowerChar c = '\x00') := by
  have hruns : ∀ r ∈ capitalRuns,
      CapitalRun.isForeign r = true ∨ CapitalRun.staysAway r = true := by decide +kernel
  rw [lowerChar, if_neg hascii]
  split
  · next r hr =>
    have hhas := List.find?_some hr
    simp only [CapitalRun.has, Bool.and_eq_true, decide_eq_true_eq] at hhas
    rcases hruns r (List.mem_of_find?_eq_some hr) with hforeign | haway
    · simp only [CapitalRun.isForeign, Bool.and_eq_true, Bool.or_eq_true, Nat.beq_eq] at hforeign
      have hfirst : c.toNat = r.first := by omega
      have hofNat := Char.ofNat_toNat c
      rw [hfirst] at hofNat
      rcases hforeign.2 with hcode | hcode
      · rw [hcode] at hofNat
        exact absurd (by rw [← hofNat]; decide) hc
      · rw [hcode] at hofNat
        exact absurd (by rw [← hofNat]; decide) hc
    · simp only [CapitalRun.staysAway, Bool.and_eq_true, Nat.ble_eq, List.all_eq_true,
        Bool.or_eq_true, Nat.blt_eq] at haway
      by_cases hvalid : Nat.isValidChar (r.small + (c.toNat - r.first))
      · rw [Char.ofNat, dif_pos hvalid]
        have hnat : (Char.ofNatAux _ hvalid).toNat = r.small + (c.toNat - r.first) := rfl
        refine ⟨fun hmem => ?_, Or.inl (by omega)⟩
        have hout := haway.2 _ hmem
        omega
      · rw [Char.ofNat, dif_neg hvalid]
        exact ⟨by decide, Or.inr rfl⟩
  · exact ⟨hc, Or.inl (Nat.not_lt.1 hascii)⟩

/-- Beyond ASCII, a character that is no foreign name character is like none in ASCII. -/
theorem fold_cases {c : Char} (hascii : ¬ c.toNat < 128) (hc : c ∉ foreignNameChars) :
    128 ≤ (fold c).toNat ∨ fold c = '\x00' := by
  obtain ⟨hsmall, hrange⟩ := lowerChar_cases hascii hc
  rw [fold]
  split
  · next hlt => exact hrange.imp (fun hge => absurd hlt (Nat.not_lt.2 hge)) id
  · next hge =>
    refine Or.inl ?_
    cases hlook : sharedCapitals.lookup (lowerChar c) with
    | none => exact Nat.not_lt.1 hge
    | some d =>
      have hshared : ∀ p ∈ sharedCapitals, p.1 ∈ foreignNameChars ∨ 128 ≤ p.2.toNat := by decide
      exact (hshared _ (Role.mem_of_lookup hlook)).resolve_left hsmall

/-- A test that all foreign name characters pass is passed by what is like an ASCII character that
passes it. -/
theorem holds_of_fold {P : Char → Bool}
    (hascii : ∀ n < 128, P (fold (Char.ofNat n)) = true → P (Char.ofNat n) = true)
    (hforeign : ∀ e ∈ foreignNameChars, P e = true) (hzero : P '\x00' = false) {c : Char}
    (hlt : (fold c).toNat < 128) (h : P (fold c) = true) : P c = true := by
  by_cases hc : c.toNat < 128
  · exact forall_ascii (P := fun c => P (fold c) = true → P c = true) hascii hc h
  · by_cases hmem : c ∈ foreignNameChars
    · exact hforeign c hmem
    · rcases fold_cases hc hmem with hge | hnull
      · omega
      · rw [hnull, hzero] at h
        exact Bool.noConfusion h

namespace Tag

/-- **The characters of names** are in ASCII but for four. -/
theorem isNameChar_cases {c : Char} (h : isNameChar c = true) :
    c.toNat < 128 ∨ c ∈ foreignNameChars := by
  by_contra hnot
  obtain ⟨hascii, hc⟩ := not_or.1 hnot
  have hfold := fold_cases hascii hc
  have hrest : ∀ d : Char, d.toNat < 128 → ¬ c ≤ d := fun d hd hcd =>
    hascii (Nat.lt_of_le_of_lt hcd hd)
  simp only [isNameChar, Bool.or_eq_true, Bool.and_eq_true, decide_eq_true_eq, beq_iff_eq] at h
  rcases h with ((⟨hlow, hhigh⟩ | ⟨-, hdigit⟩) | rfl) | rfl
  · rcases hfold with hge | hzero
    · have hle : (fold c).toNat ≤ 122 := hhigh
      omega
    · rw [hzero] at hlow
      exact absurd hlow (by decide)
  · exact hrest '9' (by decide) hdigit
  · exact hascii (by decide)
  · exact hascii (by decide)

/-- A character of a name becomes characters that are no blanks and stay as they are. -/
theorem lowerAt_of_isNameChar {c : Char} (h : isNameChar c = true) (left right : Text) :
    ∀ d ∈ Text.lowerAt left c right, isBlank d = false ∧ ∀ l r, Text.lowerAt l d r = [d] := by
  have hsettled : ∀ d : Char, d ≠ 'Σ' → d ≠ 'İ' → lowerChar d = d →
      ∀ l r, Text.lowerAt l d r = [d] := by
    intro d hsigma hdot hsmall l r
    rw [Text.lowerAt, if_neg hsigma, if_neg hdot, hsmall]
  rcases isNameChar_cases h with hascii | hmem
  · have hall : ∀ n < 128, isNameChar (Char.ofNat n) = true →
        Char.ofNat n ≠ 'Σ' ∧ Char.ofNat n ≠ 'İ' ∧
        isBlank (lowerChar (Char.ofNat n)) = false ∧ lowerChar (Char.ofNat n) ≠ 'Σ' ∧
        lowerChar (Char.ofNat n) ≠ 'İ' ∧
        lowerChar (lowerChar (Char.ofNat n)) = lowerChar (Char.ofNat n) := by decide +kernel
    obtain ⟨hsigma, hdot, hblank, hsigma', hdot', hsmall⟩ := forall_ascii
      (P := fun c => isNameChar c = true → c ≠ 'Σ' ∧ c ≠ 'İ' ∧
        isBlank (lowerChar c) = false ∧ lowerChar c ≠ 'Σ' ∧ lowerChar c ≠ 'İ' ∧
        lowerChar (lowerChar c) = lowerChar c) hall hascii h
    rw [Text.lowerAt, if_neg hsigma, if_neg hdot]
    intro d hd
    obtain rfl := List.mem_singleton.1 hd
    exact ⟨hblank, hsettled _ hsigma' hdot' hsmall⟩
  · have hall : ∀ e ∈ foreignNameChars, e ≠ 'Σ' ∧ ∀ d ∈ (if e = '\u0130' then ['i', '\u0307'] else
        [lowerChar e]), isBlank d = false ∧ d ≠ 'Σ' ∧ d ≠ '\u0130' ∧ lowerChar d = d := by
      decide +kernel
    obtain ⟨hsigma, hchars⟩ := hall c hmem
    rw [Text.lowerAt, if_neg hsigma]
    intro d hd
    obtain ⟨hblank, hsigma', hdot, hsmall⟩ := hchars d hd
    exact ⟨hblank, hsettled d hsigma' hdot hsmall⟩

theorem lower_of_settled {t : Text} (h : ∀ d ∈ t, ∀ l r, Text.lowerAt l d r = [d]) :
    Text.lower t = t := by
  have hafter : ∀ left, Text.lowerAfter left t = t := by
    induction t with
    | nil => exact fun _ => rfl
    | cons d t ih =>
      intro left
      rw [Text.lowerAfter, h d List.mem_cons_self, ih fun e he => h e (List.mem_cons_of_mem d he)]
      rfl
  exact hafter []

theorem trim_of_no_blank {t : Text} (h : ∀ c ∈ t, isBlank c = false) : Text.trim t = t := by
  have hleft : ∀ u : Text, (∀ c ∈ u, isBlank c = false) → u.dropWhile isBlank = u := by
    intro u hu
    cases u with
    | nil => rfl
    | cons c u => exact List.dropWhile_cons_of_neg (by simp [hu c List.mem_cons_self])
  rw [Text.trim, Text.trimLeft, hleft t h, Text.trimRight,
    hleft _ fun c hc => h c (List.mem_reverse.1 hc), List.reverse_reverse]

/-- **The name of a tag is in the form in which names are compared.** -/
theorem normalize_name {t : Tag} (h : ∀ c ∈ t.rawName, isNameChar c = true) :
    Role.normalize t.name = t.name := by
  have hafter : ∀ raw : Text, (∀ c ∈ raw, isNameChar c = true) → ∀ left,
      ∀ d ∈ Text.lowerAfter left raw, isBlank d = false ∧ ∀ l r, Text.lowerAt l d r = [d] := by
    intro raw
    induction raw with
    | nil => simp [Text.lowerAfter]
    | cons c raw ih =>
      intro hraw left d hd
      rw [Text.lowerAfter, List.mem_append] at hd
      rcases hd with hd | hd
      · exact lowerAt_of_isNameChar (hraw c List.mem_cons_self) _ _ d hd
      · exact ih (fun e he => hraw e (List.mem_cons_of_mem c he)) _ d hd
  have hname : ∀ d ∈ t.name, isBlank d = false ∧ ∀ l r, Text.lowerAt l d r = [d] :=
    hafter t.rawName h []
  rw [Role.normalize, trim_of_no_blank fun c hc => (hname c hc).1]
  exact lower_of_settled fun d hd => (hname d hd).2

/-! ## Reading the letters off -/

/-- The lower case form of a name character, whatever stands around it. -/
def smallOf (c : Char) : Text := if c = '\u0130' then ['i', '\u0307'] else [lowerChar c]

theorem lowerAt_eq_smallOf {c : Char} (h : isNameChar c = true) (left right : Text) :
    Text.lowerAt left c right = smallOf c := by
  have hsigma : c ≠ 'Σ' := by
    rintro rfl
    exact absurd h (by decide +kernel)
  rw [Text.lowerAt, if_neg hsigma, smallOf]

/-- A name is put in lower case character by character. -/
theorem lower_eq_flatMap_smallOf {raw : Text} (h : ∀ c ∈ raw, isNameChar c = true) :
    Text.lower raw = raw.flatMap smallOf := by
  have after : ∀ left, Text.lowerAfter left raw = raw.flatMap smallOf := by
    induction raw with
    | nil => exact fun _ => rfl
    | cons c raw ih =>
      intro left
      rw [Text.lowerAfter, lowerAt_eq_smallOf (h c List.mem_cons_self),
        ih fun d hd => h d (List.mem_cons_of_mem c hd)]
      rfl
  exact after []

/-- What holds of the ASCII name characters and of the four others holds of all. -/
theorem forall_isNameChar {P : Char → Prop}
    (hascii : ∀ n < 128, isNameChar (Char.ofNat n) = true → P (Char.ofNat n))
    (hforeign : ∀ c ∈ foreignNameChars, P c) {c : Char} (h : isNameChar c = true) : P c := by
  rcases isNameChar_cases h with hlt | hmem
  · exact forall_ascii (P := fun c => isNameChar c = true → P c) hascii hlt h
  · exact hforeign c hmem

/-- What is like a name character is one, and a word character if that is one. -/
theorem isNameChar_of_fold_eq {w c : Char} (hw : isNameChar w = true) (h : fold w = fold c) :
    isNameChar c = true ∧ isWord c = isWord w := by
  have hword : ∀ {c}, isNameChar c = true → isWord (fold c) = isWord c :=
    forall_isNameChar (P := fun c => isWord (fold c) = isWord c) (by decide +kernel)
      (by decide +kernel)
  have hsmall : (fold w).toNat < 128 ∧ isNameChar (fold w) = true :=
    forall_isNameChar (P := fun c => (fold c).toNat < 128 ∧ isNameChar (fold c) = true)
      (by decide +kernel) (by decide +kernel) hw
  rw [h] at hsmall
  have hc : isNameChar c = true :=
    holds_of_fold (P := isNameChar) (by decide +kernel) (by decide +kernel) (by decide) hsmall.1
      hsmall.2
  exact ⟨hc, by rw [← hword hc, ← h, hword hw]⟩

/-- The lower case form of a name holds name characters, and dots that capitals left behind. -/
theorem isNameChar_or_dot_of_mem_name {t : Tag} (h : ∀ c ∈ t.rawName, isNameChar c = true) :
    ∀ w ∈ t.name, isNameChar w = true ∨ w = '\u0307' := by
  have hsmall : ∀ {c}, isNameChar c = true →
      ∀ w ∈ smallOf c, isNameChar w = true ∨ w = '\u0307' :=
    forall_isNameChar (P := fun c => ∀ w ∈ smallOf c, isNameChar w = true ∨ w = '\u0307')
      (by decide +kernel) (by decide +kernel)
  intro w hw
  rw [name, lower_eq_flatMap_smallOf h] at hw
  obtain ⟨c, hc, hw⟩ := List.mem_flatMap.1 hw
  exact hsmall (h c hc) w hw

/-- The letters of a name in lower case can be read off its lower case form: the dot that a capital
leaves behind is none of them. -/
theorem filter_lower {raw : Text} (h : ∀ c ∈ raw, isNameChar c = true) :
    (Text.lower raw).filter (· ≠ '\u0307') = raw.map lowerChar := by
  have hsmall : ∀ {c}, isNameChar c = true → (smallOf c).filter (· ≠ '\u0307') = [lowerChar c] :=
    forall_isNameChar (P := fun c => (smallOf c).filter (· ≠ '\u0307') = [lowerChar c])
      (by decide +kernel) (by decide +kernel)
  rw [lower_eq_flatMap_smallOf h, List.filter_flatMap, List.map_eq_flatMap]
  exact List.flatMap_congr fun c hc => hsmall (h c hc)

/-- Names with one lower case form have the same letters up to case. -/
theorem map_lowerChar_of_name_eq {t u : Tag} (ht : ∀ c ∈ t.rawName, isNameChar c = true)
    (hu : ∀ c ∈ u.rawName, isNameChar c = true) (h : t.name = u.name) :
    t.rawName.map lowerChar = u.rawName.map lowerChar := by
  rw [← filter_lower ht, ← filter_lower hu]
  exact congrArg _ h

end Tag
end AriaLint
