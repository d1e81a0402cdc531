/-!
# Texts

Markup, attribute values, messages and reports are all texts, and a text is the list of its
characters.  Lists rather than strings because every reader of this library walks a text from the
left, and because positions are counted in characters.

A reader takes the head of a text and returns what it read together with the rest.  `upTo?` is the
smallest of them; `upTo?_eq_some` says that it loses nothing.
-/

namespace AriaLint

/-- A text is the list of its characters. -/
abbrev Text := List Char

instance : Coe String Text := ⟨String.toList⟩

/-- A set of characters, given by the first and the last code point of each of its stretches. -/
abbrev Stretches := List (Nat × Nat)

/-- A character belongs to the set when one of the stretches covers it. -/
def Stretches.has (s : Stretches) (c : Char) : Bool :=
  s.any fun (first, last) => first ≤ c.toNat && c.toNat ≤ last

namespace Text

/-- What stands before the first `stop` and what follows it. -/
def upTo? (stop : Char) : Text → Option (Text × Text)
  | [] => none
  | c :: rest =>
    if c = stop then some ([], rest)
    else (upTo? stop rest).map fun (before, after) => (c :: before, after)

/-- The text splits at the first `stop`, and `stop` does not occur before it. -/
theorem upTo?_eq_some {stop : Char} {t before after : Text}
    (h : upTo? stop t = some (before, after)) :
    t = before ++ stop :: after ∧ stop ∉ before := by
  induction t generalizing before with
  | nil => simp [upTo?] at h
  | cons c rest ih =>
    unfold upTo? at h
    split at h
    · next hc => simp_all
    · next hc =>
      obtain ⟨⟨b, a⟩, hb, heq⟩ := Option.map_eq_some_iff.1 h
      simp only [Prod.mk.injEq] at heq
      obtain ⟨rfl, rfl⟩ := heq
      obtain ⟨rfl, hmem⟩ := ih hb
      simp [hmem, Ne.symm hc]

/-- What stands before the first `stop` is found. -/
theorem upTo?_append_cons {stop : Char} {before : Text} (h : stop ∉ before) (after : Text) :
    upTo? stop (before ++ stop :: after) = some (before, after) := by
  induction before with
  | nil => simp [upTo?]
  | cons c before ih =>
    rw [List.mem_cons, not_or] at h
    rw [List.cons_append, upTo?, if_neg (Ne.symm h.1), ih h.2]
    rfl

/-- There is no `stop` to read up to. -/
theorem upTo?_eq_none_iff {stop : Char} {t : Text} : upTo? stop t = none ↔ stop ∉ t := by
  constructor
  · intro h hmem
    obtain ⟨before, after, rfl, hbefore⟩ := List.eq_append_cons_of_mem hmem
    rw [upTo?_append_cons hbefore] at h
    exact absurd h (by simp)
  · intro h
    cases ht : upTo? stop t with
    | none => rfl
    | some r =>
      obtain ⟨before, after⟩ := r
      obtain ⟨rfl, -⟩ := upTo?_eq_some ht
      simp at h

/-- Where names are told apart, the first value of a name is the only one. -/
theorem find?_eq_of_nodup {α : Type} {name : α → Text} {as : List α} {a : α}
    (distinct : (as.map name).Nodup) (h : a ∈ as) : as.find? (name · = name a) = some a := by
  induction as with
  | nil => simp at h
  | cons b as ih =>
    rw [List.map_cons, List.nodup_cons] at distinct
    rw [List.find?_cons]
    by_cases hb : name b = name a
    · rcases List.mem_cons.1 h with rfl | ha
      · simp
      · exact absurd (hb ▸ List.mem_map_of_mem ha) distinct.1
    · have ha : a ∈ as := (List.mem_cons.1 h).resolve_left fun e => hb (e ▸ rfl)
      simp [hb, ih distinct.2 ha]

/-- Decimal digits of a number. -/
def ofNat (n : Nat) : Text := Nat.toDigits 10 n

/-- Texts joined with a separator between neighbours. -/
def join (separator : Text) (ts : List Text) : Text := (ts.intersperse separator).flatten

end Text
end AriaLint
