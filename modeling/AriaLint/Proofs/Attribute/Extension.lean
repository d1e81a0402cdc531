import AriaLint.Proofs.Attribute.Grammar
import AriaLint.Proofs.Fix.Additions

/-!
# Attributes of an extended tag

A tag keeps the attributes that it has when others are added in front of its tail: the first
attribute of a name ends with its second quote, there is no quote in a tail, and so that attribute
is settled by what stands before the addition (`find?_extended`).  In particular an explicit role
stays (`Tag.role?_of_extends`).

What the addition brings is found as well (`isSome_find?_written`), but not necessarily as it was
meant.  Behind an attribute whose value was never closed, its first quote closes that value.  Then
the value that is read holds the equals sign of the addition, and this is all that has to be known
about it: `Tag.role?_of_extends_tablistRole` lists what the role of a new tablist can be.
-/

namespace AriaLint

namespace Attribute

/-! ## What a tag had -/

theorem isQuote_slash : isQuote '/' = false := by decide

theorem isUnquoted_of_isTail {y : Text} (h : Tag.IsTail y) : IsUnquoted y := by
  intro c hc
  rcases h c hc with hb | rfl
  · exact isQuote_of_isBlank hb
  · exact isQuote_slash

/-- A text without quotes holds no attribute, and completes none. -/
theorem find?_append_unquoted {name : Text} (hname : IsQuoteless (Text.lower name)) {y : Text}
    (hy : IsUnquoted y) (filled : Bool) (x : Text) :
    find? name filled (x ++ y) =
      (find? name filled x).map fun f => { f with after := f.after ++ y } :=
  (endsAt_named hname filled).find?_append_of_forall hy none x

/-- **The attributes that are there stay** when others are put in front of a tail. -/
theorem find?_extended {name : Text} (hname : IsQuoteless (Text.lower name)) {filled : Bool}
    {x y : Text} (hy : IsUnquoted y) {f : Found Attribute}
    (h : find? name filled (x ++ y) = some f) (add : Text) :
    ∃ rest, find? name filled (x ++ add ++ y) = some { f with after := rest } := by
  rw [find?_append_unquoted hname hy] at h
  obtain ⟨g, hg, rfl⟩ := Option.map_eq_some_iff.1 h
  refine ⟨g.after ++ (add ++ y), ?_⟩
  rw [List.append_assoc]
  exact (endsAt_named hname filled).find?_append hg _

/-! ## What is added -/

/-- **An attribute that is written is found**, or another one of its name before it. -/
theorem isSome_find?_written {name value : Text} (hname : Text.lower name = name)
    (hvalue : IsUnquoted value) {filled : Bool} (hfilled : filled = true → value ≠ [])
    (x z : Text) : (find? name filled (x ++ Fix.written name value ++ z)).isSome = true := by
  rw [find?_eq]
  refine Reader.isSome_find?_iff.2
    ⟨x ++ [' '], name ++ ("=\"" ++ value ++ "\"" ++ z), by simp [Fix.written], ?_⟩
  have hread : (named name filled).read? (some ' ') (name ++ ("=\"" ++ value ++ "\"" ++ z)) =
      some (⟨name, value⟩, z) := by
    refine Option.filter_eq_some_iff.2 ⟨?_, ?_⟩
    · rw [hname, reader_exactly, if_pos (by decide)]
      exact readAs?_written hvalue z
    · cases filled with
      | false => rfl
      | true => simpa using hfilled rfl
  rw [Reader.beforeAt_concat, hread]
  rfl

/-! ## Quotes as places -/

/-- The first quote of a text, found in another split of it. -/
theorem split_at_quote {a b c d : Text} {p q : Char} (ha : IsUnquoted a)
    (hq : isQuote q = true) (h : a ++ p :: b = c ++ q :: d) :
    (c = a ∧ d = b) ∨ ∃ e, c = a ++ p :: e ∧ b = e ++ q :: d := by
  rcases List.append_eq_append_iff.1 h with ⟨z, rfl, hz⟩ | ⟨z, rfl, hz⟩
  · cases z with
    | nil =>
      obtain ⟨-, rfl⟩ := List.cons.inj hz
      exact Or.inl ⟨by simp, rfl⟩
    | cons e z =>
      obtain ⟨rfl, rfl⟩ := List.cons.inj hz
      exact Or.inr ⟨z, rfl, rfl⟩
  · cases z with
    | nil =>
      obtain ⟨-, rfl⟩ := List.cons.inj hz
      exact Or.inl ⟨by simp, rfl⟩
    | cons e z =>
      obtain ⟨rfl, -⟩ := List.cons.inj hz
      exact absurd (ha q (by simp)) (by simp [hq])

/-- A text splits at its last quote in one way. -/
theorem eq_of_append_quote {a b c d : Text} {p q : Char} (hb : IsUnquoted b) (hd : IsUnquoted d)
    (hp : isQuote p = true) (hq : isQuote q = true) (h : a ++ p :: b = c ++ q :: d) :
    a = c ∧ b = d := by
  rcases List.append_eq_append_iff.1 h with ⟨z, rfl, hz⟩ | ⟨z, rfl, hz⟩
  · cases z with
    | nil => exact ⟨(List.append_nil a).symm, (List.cons.inj hz).2⟩
    | cons e z =>
      obtain ⟨rfl, rfl⟩ := List.cons.inj hz
      exact absurd (hb q (by simp)) (by simp [hq])
  · cases z with
    | nil => exact ⟨List.append_nil c, ((List.cons.inj hz).2).symm⟩
    | cons e z =>
      obtain ⟨rfl, rfl⟩ := List.cons.inj hz
      exact absurd (hd p (by simp)) (by simp [hp])

/-- **Which value a quote of an appended attribute can close.**  Behind a text `x`, an attribute is
appended that consists of `assigned`, a quote, `value` and another quote.  A value with its quotes
lies in `x`, or it is opened in `x` and runs into `assigned`, or it is `value`. -/
theorem value_of_appended {x assigned value a v after : Text} {p q r : Char}
    (hassigned : IsUnquoted assigned) (hvalue : IsUnquoted value) (hv : IsUnquoted v)
    (hp : isQuote p = true) (hq : isQuote q = true) (hr : isQuote r = true)
    (h : a ++ p :: v ++ q :: after = x ++ (assigned ++ r :: (value ++ [r]))) :
    (∃ z, x = a ++ p :: v ++ q :: z) ∨ (∃ w, v = w ++ assigned ∧ x = a ++ p :: w) ∨
      v = value ∧ a = x ++ assigned := by
  rcases List.append_eq_append_iff.1 h with ⟨z, rfl, hz⟩ | ⟨z, hz, hclose⟩
  · cases z with
    | nil =>
      rcases split_at_quote (c := []) hassigned hq (by simpa using hz.symm) with
        ⟨hnil, -⟩ | ⟨e, hnil, -⟩
      · exact Or.inr (Or.inl ⟨v, by rw [← hnil]; simp⟩)
      · exact absurd hnil (by simp)
    | cons e z =>
      obtain ⟨rfl, -⟩ := List.cons.inj hz
      exact Or.inl ⟨z, rfl⟩
  · rcases split_at_quote hassigned hq hclose with ⟨rfl, -⟩ | ⟨e, rfl, he⟩
    · -- the first quote closes a value that begins before the attribute
      refine Or.inr (Or.inl ?_)
      rcases List.append_eq_append_iff.1 hz with ⟨w, hx, hw⟩ | ⟨w, -, hw⟩
      · cases w with
        | nil => exact absurd (hassigned p (by rw [← List.nil_append z, ← hw]; simp)) (by simp [hp])
        | cons c w =>
          obtain ⟨rfl, hvw⟩ := List.cons.inj hw
          exact ⟨w, hvw, hx⟩
      · exact absurd (hassigned p (by rw [hw]; simp)) (by simp [hp])
    · -- the second one closes the value of the attribute
      refine Or.inr (Or.inr ?_)
      have hend : e = value := by
        rcases split_at_quote (b := []) hvalue hq he with ⟨h, -⟩ | ⟨e', -, h⟩
        · exact h
        · exact absurd h (by simp)
      subst hend
      refine (eq_of_append_quote (a := a) (c := x ++ assigned) hv hvalue hp hr ?_).symm
      rw [hz]
      simp

/-- **The place of an attribute**: its name, where a name can start, and its value between quotes. -/
theorem find?_eq_some {name : Text} (hname : IsQuoteless (Text.lower name)) {filled : Bool}
    {t : Text} {f : Found Attribute} (h : find? name filled t = some f) :
    ∃ b b' p q, t = f.before ++ (f.item.name ++ (b ++ '=' :: b')) ++ p :: f.item.value ++
        q :: f.after ∧
      canStartAfter (Reader.beforeAt none f.before) = true ∧
      List.Forall₂ (fun w c => sameLetter w c = true) (Text.lower name) f.item.name ∧
      Text.IsBlankText b ∧ Text.IsBlankText b' ∧ isQuote p = true ∧ isQuote q = true ∧
      IsUnquoted f.item.value ∧
      ∀ rest, find? name filled (f.before ++ (f.item.name ++ (b ++ '=' :: b')) ++
        p :: f.item.value ++ q :: rest) = some { f with after := rest } := by
  obtain ⟨k, d, rfl, -, -, hlocal⟩ := (endsAt_named hname filled).find?_eq_some h
  obtain ⟨l, hl, hfind⟩ := (endsAt_named hname filled).find?_local h
  have hread := (Option.filter_eq_some_iff.1 (hlocal f.after)).1
  rw [reader_exactly] at hread
  split at hread
  · next hbefore =>
    obtain ⟨hlike, m, q, hsplit, hq, b, b', p, rfl, hb, hb', hp, hvalue⟩ :=
      readAs?_exactly_iff.1 hread
    refine ⟨b, b', p, q, ?_, hbefore, hlike, hb, hb', hp, hq, hvalue, fun rest => ?_⟩
    · rw [hsplit]
      simp
    · rw [find?_eq]
      have hkeep :
          l = f.before ++ (f.item.name ++ (b ++ '=' :: b')) ++ p :: f.item.value ++ [q] := by
        refine List.append_cancel_right (hl.symm.trans ?_)
        rw [hsplit]
        simp
      rw [← hfind rest, hkeep]
      simp
  · exact absurd hread (by simp)

end Attribute

namespace Tag

open Attribute

variable {t u : Tag} {add : Text}

theorem has_of_extends (h : Extends add t u) {name : Text}
    (hname : IsQuoteless (Text.lower name)) (hhas : t.has name = true) : u.has name = true := by
  obtain ⟨-, x, y, hx, hu, htail, -⟩ := h
  unfold has Attribute.has value? at hhas ⊢
  rw [Option.isSome_map] at hhas ⊢
  obtain ⟨f, hf⟩ := Option.isSome_iff_exists.1 hhas
  rw [hx] at hf
  obtain ⟨rest, hrest⟩ := find?_extended hname (isUnquoted_of_isTail htail) hf add
  rw [hu, hrest]
  rfl

theorem filledValue?_of_extends (h : Extends add t u) {name value : Text}
    (hname : IsQuoteless (Text.lower name)) (hvalue : filledValue? name t.attrs = some value) :
    filledValue? name u.attrs = some value := by
  obtain ⟨-, x, y, hx, hu, htail, -⟩ := h
  obtain ⟨f, hf, rfl⟩ := Option.map_eq_some_iff.1 hvalue
  rw [hx] at hf
  obtain ⟨rest, hrest⟩ := find?_extended hname (isUnquoted_of_isTail htail) hf add
  rw [filledValue?, hu, hrest]
  rfl

theorem isQuoteless_lower_role : IsQuoteless (Text.lower "role") := by decide

/-- The explicit role by the value it is read from. -/
theorem role?_eq_of_filledValue? (h : filledValue? "role" u.attrs = filledValue? "role" t.attrs) :
    u.role? = t.role? := by
  unfold role? Attribute.role?
  rw [h]

theorem exists_filledValue?_of_role? {role : Text} (h : t.role? = some role) :
    ∃ value, filledValue? "role" t.attrs = some value ∧ role = Text.lower (Text.trim value) := by
  obtain ⟨value, hvalue, h⟩ := Option.bind_eq_some_iff.1 h
  dsimp only at h
  split at h
  · exact absurd h (by simp)
  · exact ⟨value, hvalue, (Option.some.inj h).symm⟩

/-- **An explicit role stays.** -/
theorem role?_of_extends (h : Extends add t u) {role : Text} (hrole : t.role? = some role) :
    u.role? = some role := by
  obtain ⟨value, hvalue, -⟩ := exists_filledValue?_of_role? hrole
  rw [← hrole]
  refine role?_eq_of_filledValue? ?_
  rw [hvalue]
  exact filledValue?_of_extends h isQuoteless_lower_role hvalue

/-- What the role of a tag can be that had none and was made a tablist. -/
theorem value_of_find?_tablistRole {x : Text} (hx : find? "role" true x = none)
    {f : Found Attribute} (hf : find? "role" true (x ++ Fix.tablistRole) = some f) :
    f.item.value = "tablist" ∨ '=' ∈ f.item.value := by
  have hadd : Fix.tablistRole = " role=" ++ '"' :: ("tablist" ++ ['"']) := by decide
  obtain ⟨b, b', p, q, hsplit, -, -, -, -, hp, hq, hvalue, hfind⟩ :=
    find?_eq_some isQuoteless_lower_role hf
  rw [hadd] at hsplit
  rcases value_of_appended (r := '"') (by decide) (by decide) hvalue hp hq (by decide)
    hsplit.symm with ⟨z, rfl⟩ | ⟨w, hw, -⟩ | ⟨hvalue, -⟩
  · rw [hfind z] at hx
    exact absurd hx (by simp)
  · rw [hw]
    exact Or.inr (List.mem_append_right _ (by decide))
  · exact Or.inl hvalue

/-- **The role of a new tablist**: the one it had, a tablist, or one that holds an equals sign. -/
theorem role?_of_extends_tablistRole (h : Extends Fix.tablistRole t u) {role : Text}
    (hrole : u.role? = some role) :
    t.role? = some role ∨ role = "tablist" ∨ '=' ∈ role := by
  obtain ⟨value, hvalue, rfl⟩ := exists_filledValue?_of_role? hrole
  cases ht : filledValue? "role" t.attrs with
  | some v =>
    have hu := filledValue?_of_extends h isQuoteless_lower_role ht
    left
    rw [← hrole]
    exact (role?_eq_of_filledValue? (hu.trans ht.symm)).symm
  | none =>
    right
    obtain ⟨-, x, y, hx, hu, htail, -⟩ := h
    have hy := isUnquoted_of_isTail htail
    have hnone : find? "role" true x = none := by
      rw [filledValue?, hx, find?_append_unquoted isQuoteless_lower_role hy,
        Option.map_eq_none_iff, Option.map_eq_none_iff] at ht
      exact ht
    rw [filledValue?, hu, find?_append_unquoted isQuoteless_lower_role hy] at hvalue
    obtain ⟨f, hf, rfl⟩ := Option.map_eq_some_iff.1 hvalue
    obtain ⟨g, hg, rfl⟩ := Option.map_eq_some_iff.1 hf
    rcases value_of_find?_tablistRole hnone hg with heq | hmem
    · left
      show Text.lower (Text.trim g.item.value) = _
      rw [heq]
      decide
    · right
      exact Text.mem_lower_of_equals (Text.mem_trim hmem (by decide))

end Tag
end AriaLint
