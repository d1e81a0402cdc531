import AriaLint.Text.Newline
import AriaLint.Text.Utf8

/-!
# Bytes that have been read are written again

Each character has one form in UTF-8, and `decode` takes no other one for it; so a text that has been
decoded is encoded as the bytes it came from (`encode_of_decode`).

Line ends are single bytes that are part of no other character.  So it makes no difference whether
they are unified in a text or in its bytes (`encode_unifyNewlines`).
-/

namespace AriaLint.Utf8

/-! ## The form of a character -/

/-- What a first byte says, by the number of bytes that have to follow. -/
theorem lead?_cases {b : Nat} {lead : Lead} (h : lead? b = some lead) :
    (b < 0x80 ∧ lead = ⟨b, []⟩) ∨
    (0xC2 ≤ b ∧ b < 0xE0 ∧ lead = ⟨b - 0xC0, [tail]⟩) ∨
    (∃ low high, 0xE0 ≤ b ∧ b < 0xF0 ∧ lead = ⟨b - 0xE0, [(low, high), tail]⟩ ∧ 0x80 ≤ low ∧
      high ≤ 0xBF ∧ (b = 0xE0 → 0xA0 ≤ low) ∧ (b = 0xED → high ≤ 0x9F)) ∨
    (∃ low high, 0xF0 ≤ b ∧ b < 0xF5 ∧ lead = ⟨b - 0xF0, [(low, high), tail, tail]⟩ ∧ 0x80 ≤ low ∧
      high ≤ 0xBF ∧ (b = 0xF0 → 0x90 ≤ low) ∧ (b = 0xF4 → high ≤ 0x8F)) := by
  unfold lead? at h
  split at h
  · obtain rfl := Option.some.inj h
    exact Or.inl ⟨by omega, rfl⟩
  split at h
  · simp at h
  split at h
  · obtain rfl := Option.some.inj h
    exact Or.inr (Or.inl ⟨by omega, by omega, rfl⟩)
  split at h
  · next hb =>
    subst hb
    obtain rfl := Option.some.inj h
    exact Or.inr (Or.inr (Or.inl ⟨0xA0, 0xBF, by omega, by omega, rfl, by omega⟩))
  split at h
  · next hb =>
    subst hb
    obtain rfl := Option.some.inj h
    exact Or.inr (Or.inr (Or.inl ⟨0x80, 0x9F, by omega, by omega, rfl, by omega⟩))
  split at h
  · obtain rfl := Option.some.inj h
    exact Or.inr (Or.inr (Or.inl ⟨0x80, 0xBF, by omega, by omega, rfl, by omega⟩))
  split at h
  · next hb =>
    subst hb
    obtain rfl := Option.some.inj h
    exact Or.inr (Or.inr (Or.inr ⟨0x90, 0xBF, by omega, by omega, rfl, by omega⟩))
  split at h
  · obtain rfl := Option.some.inj h
    exact Or.inr (Or.inr (Or.inr ⟨0x80, 0xBF, by omega, by omega, rfl, by omega⟩))
  split at h
  · next hb =>
    subst hb
    obtain rfl := Option.some.inj h
    exact Or.inr (Or.inr (Or.inr ⟨0x80, 0x8F, by omega, by omega, rfl, by omega⟩))
  · simp at h

theorem readTails_cons_eq_ok {low high : Nat} {ranges : List (Nat × Nat)} {bits code : Nat}
    {bytes rest : List UInt8} (h : readTails ((low, high) :: ranges) bits bytes = .ok (code, rest)) :
    ∃ b bytes', bytes = b :: bytes' ∧ low ≤ b.toNat ∧ b.toNat ≤ high ∧
      readTails ranges (bits * 64 + (b.toNat - 0x80)) bytes' = .ok (code, rest) := by
  cases bytes with
  | nil => simp [readTails] at h
  | cons b bytes' =>
    rw [readTails] at h
    split at h
    · next hb =>
      refine ⟨b, bytes', rfl, hb.1, hb.2, ?_⟩
      split at h
      · next done hdone => rw [hdone, h]
      · simp at h
    · simp at h

theorem toNat_ofNat {code : Nat} (h : code < 0xD800 ∨ 0xE000 ≤ code ∧ code < 0x110000) :
    (Char.ofNat code).val.toNat = code := by
  have hvalid : code.isValidChar := h.imp id fun h => ⟨by omega, h.2⟩
  rw [Char.ofNat, dif_pos hvalid]
  rfl

section Forms

variable {b c d e : UInt8}

theorem encodeChar_one (hb : b.toNat < 0x80) :
    String.utf8EncodeChar (Char.ofNat b.toNat) = [b] := by
  rw [String.utf8EncodeChar, toNat_ofNat (Or.inl (by omega)), if_pos (by omega), UInt8.ofNat_toNat]

theorem encodeChar_two (hb : 0xC2 ≤ b.toNat) (hb' : b.toNat < 0xE0)
    (hc : 0x80 ≤ c.toNat ∧ c.toNat ≤ 0xBF) :
    String.utf8EncodeChar (Char.ofNat ((b.toNat - 0xC0) * 64 + (c.toNat - 0x80))) = [b, c] := by
  generalize hcode : (b.toNat - 0xC0) * 64 + (c.toNat - 0x80) = code
  have hfirst : code / 64 % 0x20 + 0xC0 = b.toNat := by omega
  have hsecond : code % 0x40 + 0x80 = c.toNat := by omega
  rw [String.utf8EncodeChar, toNat_ofNat (Or.inl (by omega)), if_neg (by omega), if_pos (by omega),
    hfirst, hsecond, UInt8.ofNat_toNat, UInt8.ofNat_toNat]

/-- Overlong forms and surrogates are excluded by the second byte. -/
theorem encodeChar_three (hb : 0xE0 ≤ b.toNat) (hb' : b.toNat < 0xF0)
    (hc : 0x80 ≤ c.toNat ∧ c.toNat ≤ 0xBF) (hd : 0x80 ≤ d.toNat ∧ d.toNat ≤ 0xBF)
    (hlow : b.toNat = 0xE0 → 0xA0 ≤ c.toNat) (hhigh : b.toNat = 0xED → c.toNat ≤ 0x9F) :
    String.utf8EncodeChar (Char.ofNat
      (((b.toNat - 0xE0) * 64 + (c.toNat - 0x80)) * 64 + (d.toNat - 0x80))) = [b, c, d] := by
  generalize hcode : ((b.toNat - 0xE0) * 64 + (c.toNat - 0x80)) * 64 + (d.toNat - 0x80) = code
  have hfirst : code / 4096 % 0x10 + 0xE0 = b.toNat := by omega
  have hsecond : code / 64 % 0x40 + 0x80 = c.toNat := by omega
  have hthird : code % 0x40 + 0x80 = d.toNat := by omega
  rw [String.utf8EncodeChar, toNat_ofNat (by omega), if_neg (by omega), if_neg (by omega),
    if_pos (by omega), hfirst, hsecond, hthird, UInt8.ofNat_toNat, UInt8.ofNat_toNat,
    UInt8.ofNat_toNat]

/-- So are code points above U+10FFFF. -/
theorem encodeChar_four (hb : 0xF0 ≤ b.toNat) (hb' : b.toNat < 0xF5)
    (hc : 0x80 ≤ c.toNat ∧ c.toNat ≤ 0xBF) (hd : 0x80 ≤ d.toNat ∧ d.toNat ≤ 0xBF)
    (he : 0x80 ≤ e.toNat ∧ e.toNat ≤ 0xBF) (hlow : b.toNat = 0xF0 → 0x90 ≤ c.toNat)
    (hhigh : b.toNat = 0xF4 → c.toNat ≤ 0x8F) :
    String.utf8EncodeChar (Char.ofNat
      ((((b.toNat - 0xF0) * 64 + (c.toNat - 0x80)) * 64 + (d.toNat - 0x80)) * 64 +
        (e.toNat - 0x80))) = [b, c, d, e] := by
  generalize hcode : (((b.toNat - 0xF0) * 64 + (c.toNat - 0x80)) * 64 + (d.toNat - 0x80)) * 64 +
    (e.toNat - 0x80) = code
  have hfirst : code / 262144 % 0x08 + 0xF0 = b.toNat := by omega
  have hsecond : code / 4096 % 0x40 + 0x80 = c.toNat := by omega
  have hthird : code / 64 % 0x40 + 0x80 = d.toNat := by omega
  have hfourth : code % 0x40 + 0x80 = e.toNat := by omega
  rw [String.utf8EncodeChar, toNat_ofNat (by omega), if_neg (by omega), if_neg (by omega),
    if_neg (by omega), hfirst, hsecond, hthird, hfourth, UInt8.ofNat_toNat, UInt8.ofNat_toNat,
    UInt8.ofNat_toNat, UInt8.ofNat_toNat]

end Forms

/-- **A character is written in the form in which it has been read.** -/
theorem encodeChar_of_read {b : UInt8} {lead : Lead} {rest after : List UInt8} {code : Nat}
    (hlead : lead? b.toNat = some lead)
    (h : readTails lead.tails lead.bits rest = .ok (code, after)) :
    String.utf8EncodeChar (Char.ofNat code) ++ after = b :: rest := by
  rcases lead?_cases hlead with ⟨hb, rfl⟩ | ⟨hb, hb', rfl⟩ |
    ⟨low, high, hb, hb', rfl, hlow, hhigh, hlow', hhigh'⟩ |
    ⟨low, high, hb, hb', rfl, hlow, hhigh, hlow', hhigh'⟩
  · obtain ⟨rfl, rfl⟩ := Prod.mk.inj (Except.ok.inj h)
    rw [encodeChar_one hb]
    rfl
  · obtain ⟨c, bytes, rfl, hc, hc', h⟩ := readTails_cons_eq_ok h
    obtain ⟨rfl, rfl⟩ := Prod.mk.inj (Except.ok.inj h)
    rw [encodeChar_two hb hb' ⟨hc, hc'⟩]
    rfl
  · obtain ⟨c, bytes, rfl, hc, hc', h⟩ := readTails_cons_eq_ok h
    obtain ⟨d, bytes, rfl, hd, hd', h⟩ := readTails_cons_eq_ok h
    obtain ⟨rfl, rfl⟩ := Prod.mk.inj (Except.ok.inj h)
    rw [encodeChar_three hb hb' ⟨by omega, by omega⟩ ⟨hd, hd'⟩
      (fun hE => Nat.le_trans (hlow' hE) hc)
      fun hE => Nat.le_trans hc' (hhigh' hE)]
    rfl
  · obtain ⟨c, bytes, rfl, hc, hc', h⟩ := readTails_cons_eq_ok h
    obtain ⟨d, bytes, rfl, hd, hd', h⟩ := readTails_cons_eq_ok h
    obtain ⟨e, bytes, rfl, he, he', h⟩ := readTails_cons_eq_ok h
    obtain ⟨rfl, rfl⟩ := Prod.mk.inj (Except.ok.inj h)
    rw [encodeChar_four hb hb' ⟨by omega, by omega⟩ ⟨hd, hd'⟩ ⟨he, he'⟩
      (fun hE => Nat.le_trans (hlow' hE) hc) fun hE => Nat.le_trans hc' (hhigh' hE)]
    rfl

/-! ## Texts -/

theorem encode_cons (c : Char) (t : Text) : encode (c :: t) = String.utf8EncodeChar c ++ encode t :=
  rfl

theorem encode_of_decodeFrom {position : Nat} {bytes : List UInt8} {t : Text}
    (h : decodeFrom position bytes = .ok t) : encode t = bytes := by
  fun_induction decodeFrom position bytes generalizing t with
  | case1 =>
    obtain rfl := Except.ok.inj h
    rfl
  | case2 => simp at h
  | case3 => simp at h
  | case4 position b rest lead hlead code after hread ih =>
    cases hafter : decodeFrom (position + 1 + lead.tails.length) after with
    | error e =>
      rw [hafter] at h
      simp [Except.map] at h
    | ok u =>
      rw [hafter] at h
      obtain rfl := Except.ok.inj h
      rw [encode_cons, ih hafter, encodeChar_of_read hlead hread]

/-- **A text that has been decoded is encoded as the bytes it came from.** -/
theorem encode_of_decode {bytes : List UInt8} {t : Text} (h : decode bytes = .ok t) :
    encode t = bytes := encode_of_decodeFrom h

/-! ## Line ends -/

/-- Every line end becomes a single line feed. -/
def unifyLineEnds : List UInt8 → List UInt8
  | 0x0D :: 0x0A :: rest => 0x0A :: unifyLineEnds rest
  | b :: rest => (if b = 0x0D then 0x0A else b) :: unifyLineEnds rest
  | [] => []

theorem not_mem_unifyLineEnds (bytes : List UInt8) : 0x0D ∉ unifyLineEnds bytes := by
  fun_induction unifyLineEnds bytes with
  | case1 rest ih => simp [ih]
  | case2 b rest _ ih =>
    rw [List.mem_cons, not_or]
    refine ⟨?_, ih⟩
    split
    · decide
    · next h => exact fun e => h e.symm
  | case3 => simp

theorem unifyLineEnds_append {a : List UInt8} (h : 0x0D ∉ a) (bytes : List UInt8) :
    unifyLineEnds (a ++ bytes) = a ++ unifyLineEnds bytes := by
  induction a with
  | nil => rfl
  | cons b a ih =>
    rw [List.mem_cons, not_or] at h
    have hb : ¬ b = 0x0D := fun e => h.1 e.symm
    rw [List.cons_append, unifyLineEnds, if_neg hb, ih h.2]
    · rfl
    · rintro rest rfl -
      exact hb rfl

/-- **Only carriage returns are touched.** -/
theorem unifyLineEnds_eq_self_iff {bytes : List UInt8} :
    unifyLineEnds bytes = bytes ↔ 0x0D ∉ bytes := by
  constructor
  · intro h hmem
    rw [← h] at hmem
    exact not_mem_unifyLineEnds bytes hmem
  · intro h
    simpa [unifyLineEnds] using unifyLineEnds_append h []

/-- A byte below 0x80 is a character of its own. -/
theorem eq_of_mem_encodeChar {c d : Char} (hd : d.toNat < 0x80)
    (h : UInt8.ofNat d.toNat ∈ String.utf8EncodeChar c) : c = d := by
  have hmod : ∀ n, (UInt8.ofNat n).toNat = n % 256 := fun n => UInt8.toNat_ofNat'
  suffices hnat : d.toNat = c.toNat from (Char.toNat_inj.1 hnat).symm
  rw [String.utf8EncodeChar] at h
  by_cases hone : c.val.toNat ≤ 0x7F
  · rw [if_pos hone, List.mem_singleton, ← UInt8.toNat_inj, hmod, hmod] at h
    change d.toNat % 256 = c.toNat % 256 at h
    change c.toNat ≤ 0x7F at hone
    omega
  -- every byte of a longer form is at least 0x80
  · rw [if_neg hone] at h
    split at h <;> try split at h
    all_goals
      simp only [List.mem_cons, List.not_mem_nil, or_false, ← UInt8.toNat_inj, hmod] at h
      omega

/-- A text whose bytes begin with a line feed begins with one. -/
theorem eq_lineFeed_of_encode_eq_cons {t : Text} {bytes : List UInt8}
    (h : encode t = 0x0A :: bytes) : ∃ rest, t = '\n' :: rest := by
  cases t with
  | nil => simp [encode] at h
  | cons c rest =>
    refine ⟨rest, congrArg (· :: rest) (eq_of_mem_encodeChar (by decide) ?_)⟩
    cases hform : String.utf8EncodeChar c with
    | nil => exact absurd hform String.utf8EncodeChar_ne_nil
    | cons b form =>
      rw [encode_cons, hform, List.cons_append] at h
      rw [(List.cons.inj h).1]
      exact List.mem_cons_self

/-- **Line ends can be unified before or after encoding.** -/
theorem encode_unifyNewlines (t : Text) :
    encode (Text.unifyNewlines t) = unifyLineEnds (encode t) := by
  fun_induction Text.unifyNewlines t with
  | case1 rest ih =>
    rw [encode_cons, ih]
    rfl
  | case2 c rest hnext ih =>
    rw [encode_cons, encode_cons, ih]
    by_cases hc : c = '\r'
    · subst hc
      show _ = unifyLineEnds (0x0D :: encode rest)
      rw [unifyLineEnds]
      · rfl
      · intro bytes _ hbytes
        obtain ⟨rest, rfl⟩ := eq_lineFeed_of_encode_eq_cons hbytes
        exact hnext rest rfl rfl
    · rw [if_neg hc, unifyLineEnds_append]
      exact fun hmem => hc (eq_of_mem_encodeChar (by decide) hmem)
  | case3 => rfl

end AriaLint.Utf8
