import AriaLint.Proofs.Closing.Counting
import AriaLint.Proofs.Quotes.Readers

/-!
# Tags without regard to quotes

A tag is read with the same name when the quotes of a text are exchanged, and its attribute text is
exchanged (`Tag.ignoresQuotes_reader`).  Closing tags hold no quotes at all, so they are the same and
stand at the same places, and so do the tags that are counted on the way to a matching one
(`Closing.matching?_singleQuoted`).
-/

namespace AriaLint

open Attribute (isQuote IsQuoteless)

/-! ## Tags -/

namespace Tag

/-- The tag with its quotes exchanged. -/
def singleQuoted (t : Tag) : Tag := { t with attrs := t.attrs.singleQuoted }

theorem isNameChar_of_isQuote {c : Char} (h : isQuote c = true) : isNameChar c = false := by
  rcases Attribute.eq_of_isQuote h with rfl | rfl <;> decide

theorem isQuote_of_isNameChar {c : Char} (h : isNameChar c = true) : isQuote c = false :=
  Bool.eq_false_iff.2 fun hq => Bool.eq_false_iff.1 (isNameChar_of_isQuote hq) h

theorem nameCuts_singleQuoted (t : Text) :
    nameCuts t.singleQuoted = (nameCuts t).map fun cut => (cut.1, cut.2.singleQuoted) := by
  induction t with
  | nil => rfl
  | cons c t ih =>
    rw [Text.singleQuoted_cons, nameCuts, nameCuts, isNameChar_singleQuote, ih,
      Text.head?_singleQuoted]
    by_cases hc : isNameChar c = true
    · rw [singleQuote_of_not_isQuote (isQuote_of_isNameChar hc), isBoundary_singleQuote,
        if_pos hc, if_pos hc, List.map_append, List.map_map, List.map_map]
      congr 1
      split <;> rfl
    · rw [if_neg hc, if_neg hc]
      rfl

theorem readName?_singleQuoted (t : Text) :
    readName? t.singleQuoted = (readName? t).map fun cut => (cut.1, cut.2.singleQuoted) := by
  rw [← head?_nameCuts, ← head?_nameCuts, nameCuts_singleQuoted, List.head?_map]

theorem read?_singleQuoted (t : Text) :
    read? t.singleQuoted = (read? t).map fun r => (r.1.singleQuoted, r.2.singleQuoted) := by
  cases t with
  | nil => rfl
  | cons c u =>
    rw [Text.singleQuoted_cons]
    by_cases hc : c = '<'
    · subst hc
      show (readName? (Text.singleQuoted u)).bind _ = ((readName? u).bind _).map _
      rw [readName?_singleQuoted]
      cases readName? u with
      | none => rfl
      | some r =>
        obtain ⟨name, v⟩ := r
        show (Text.upTo? '>' v.singleQuoted).bind _ = ((Text.upTo? '>' v).bind _).map _
        rw [Text.upTo?_singleQuoted (by decide)]
        cases Text.upTo? '>' v with
        | none => rfl
        | some s => rfl
    · rw [read?_cons_of_ne hc, read?_cons_of_ne fun heq =>
        hc ((singleQuote_eq_iff (by decide)).1 heq)]
      rfl

/-- **Tags are read with the same names**, and with their attribute text exchanged. -/
theorem ignoresQuotes_reader : reader.IgnoresQuotes singleQuoted := fun _ t => read?_singleQuoted t

theorem pieces_singleQuoted (t : Text) :
    pieces t.singleQuoted = (pieces t).map (Piece.singleQuoted singleQuoted) :=
  ignoresQuotes_reader.pieces_eq none t

theorem all_singleQuoted (t : Text) : all t.singleQuoted = (all t).map singleQuoted :=
  ignoresQuotes_reader.items_eq t

@[simp] theorem singleQuoted_singleQuoted (t : Tag) :
    t.singleQuoted.singleQuoted = t.singleQuoted := by
  simp [singleQuoted]

@[simp] theorem attrs_singleQuoted (t : Tag) : t.singleQuoted.attrs = t.attrs.singleQuoted := rfl

@[simp] theorem rawName_singleQuoted (t : Tag) : t.singleQuoted.rawName = t.rawName := rfl

@[simp] theorem name_singleQuoted (t : Tag) : t.singleQuoted.name = t.name := rfl

@[simp] theorem role?_singleQuoted (t : Tag) : t.singleQuoted.role? = t.role? :=
  Attribute.role?_singleQuoted t.attrs

theorem has_singleQuoted {name : Text} (h : IsQuoteless (Text.lower name)) (t : Tag) :
    t.singleQuoted.has name = t.has name := Attribute.has_singleQuoted h t.attrs

/-- Tags that agree but for quotes are written alike. -/
theorem source_congr {t u : Tag} (h : t.singleQuoted = u.singleQuoted) :
    t.source.singleQuoted = u.source.singleQuoted := by
  have hraw : t.rawName = u.rawName := (Tag.mk.inj h).1
  have hattrs : t.attrs.singleQuoted = u.attrs.singleQuoted := (Tag.mk.inj h).2
  simp only [source, List.cons_append, Text.singleQuoted_cons, Text.singleQuoted_append, hraw, hattrs]

theorem endsWithSlash_singleQuoted (attrs : Text) :
    endsWithSlash attrs.singleQuoted = endsWithSlash attrs := by
  rw [endsWithSlash, endsWithSlash, Text.trimRight_singleQuoted, Text.getLast?_singleQuoted]
  cases (Text.trimRight attrs).getLast? with
  | none => rfl
  | some c =>
    rw [Bool.eq_iff_iff, beq_iff_eq, beq_iff_eq, Option.map_some, Option.some.injEq,
      Option.some.injEq]
    exact singleQuote_eq_iff (by decide)

@[simp] theorem isSelfClosing_singleQuoted (t : Tag) :
    t.singleQuoted.isSelfClosing = t.isSelfClosing := endsWithSlash_singleQuoted t.attrs

theorem roles_singleQuoted (t : Text) : roles t.singleQuoted = roles t := by
  rw [roles, roles, all_singleQuoted, List.filterMap_map]
  refine List.filterMap_congr fun tag _ => ?_
  exact role?_singleQuoted tag

end Tag

/-! ## Closing tags -/

namespace Closing

theorem read?_singleQuoted {alike : Char → Char → Bool} {name : Text}
    (h : ∀ w ∈ name, ∀ c, isQuote c = true → alike w c = false) (t : Text) :
    read? alike name t.singleQuoted = (read? alike name t).map Text.singleQuoted := by
  have hnot : ∀ {p : Char}, isQuote p = false → ∀ {c : Char}, c ≠ p → singleQuote c ≠ p :=
    fun hp _ hc heq => hc ((singleQuote_eq_iff hp).1 heq)
  have hbehind : ∀ v : Text, read? alike name ('<' :: '/' :: v.singleQuoted) =
      (read? alike name ('<' :: '/' :: v)).map Text.singleQuoted := by
    intro v
    show (Text.readWord? alike name v.singleQuoted).bind _ =
      ((Text.readWord? alike name v).bind _).map _
    rw [Text.readWord?_singleQuoted h]
    cases Text.readWord? alike name v with
    | none => rfl
    | some r =>
      obtain ⟨n, w⟩ := r
      simp only [Option.map_some, Option.bind_some, Text.trimLeft_singleQuoted]
      cases Text.trimLeft w with
      | nil => rfl
      | cons c u =>
        by_cases hc : c = '>'
        · subst hc
          rfl
        · split
          · next heq => exact absurd (List.cons.inj heq).1 (hnot (by decide) hc)
          · split
            · next heq => exact absurd (List.cons.inj heq).1 hc
            · rfl
  have hnone : ∀ u : Text, (∀ v, u ≠ '<' :: '/' :: v) → read? alike name u = none := by
    intro u hu
    unfold read?
    split
    · next v => exact absurd rfl (hu v)
    · rfl
  by_cases hopens : ∃ v, t = '<' :: '/' :: v
  · obtain ⟨v, rfl⟩ := hopens
    exact hbehind v
  · rw [hnone t fun v hv => hopens ⟨v, hv⟩, hnone]
    · rfl
    · intro v hv
      cases t with
      | nil => exact absurd hv (by simp)
      | cons c u =>
        cases u with
        | nil => exact absurd hv (by simp)
        | cons d u =>
          obtain ⟨hc, hu⟩ := List.cons.inj hv
          obtain ⟨hd, -⟩ := List.cons.inj hu
          rw [(singleQuote_eq_iff (by decide)).1 hc, (singleQuote_eq_iff (by decide)).1 hd] at hopens
          exact hopens ⟨u, rfl⟩

/-- **Closing tags of a name without quotes are the same.** -/
theorem ignoresQuotes_reader {alike : Char → Char → Bool} {name : Text}
    (h : ∀ w ∈ name, ∀ c, isQuote c = true → alike w c = false) :
    (reader alike name).IgnoresQuotes id := by
  intro before t
  show (read? alike name t.singleQuoted).map _ = ((read? alike name t).map _).map _
  rw [read?_singleQuoted h, Option.map_map, Option.map_map]
  rfl

namespace Turn

/-- The tag with its quotes exchanged. -/
def singleQuoted (u : Turn) : Turn := { u with attrs := u.attrs.singleQuoted }

theorem length_source_singleQuoted (u : Turn) : u.singleQuoted.source.length = u.source.length := by
  cases u with
  | mk isClosing rawName attrs => cases isClosing <;> simp [source, singleQuoted]

theorem readRest?_singleQuoted {name : Text} (h : IsQuoteless name) (isClosing : Bool) (t : Text) :
    readRest? name isClosing t.singleQuoted =
      (readRest? name isClosing t).map fun r => (r.1.singleQuoted, r.2.singleQuoted) := by
  show (Text.readWord? sameLetter name t.singleQuoted).bind _ =
    ((Text.readWord? sameLetter name t).bind _).map _
  rw [Attribute.readWord?_singleQuoted h]
  cases Text.readWord? sameLetter name t with
  | none => rfl
  | some r =>
    obtain ⟨raw, v⟩ := r
    show (if isBoundary raw.getLast? v.singleQuoted.head? = true then
        (Text.upTo? '>' v.singleQuoted).bind _ else none) =
      (if isBoundary raw.getLast? v.head? = true then (Text.upTo? '>' v).bind _ else none).map _
    rw [Text.head?_singleQuoted, isBoundary_singleQuote, Text.upTo?_singleQuoted (by decide)]
    split
    · cases Text.upTo? '>' v with
      | none => rfl
      | some s => rfl
    · rfl

theorem read?_singleQuoted {name : Text} (h : IsQuoteless name) (t : Text) :
    read? name t.singleQuoted =
      (read? name t).map fun r => (r.1.singleQuoted, r.2.singleQuoted) := by
  cases t with
  | nil => rfl
  | cons c u =>
    by_cases hc : c = '<'
    · subst hc
      by_cases hu : u.head? = some '/'
      · obtain ⟨v, rfl⟩ := List.head?_eq_some_iff.1 hu
        exact readRest?_singleQuoted h true v
      · have hu' : (Text.singleQuoted u).head? ≠ some '/' := by
          intro heq
          rw [Text.head?_singleQuoted] at heq
          obtain ⟨d, hd, hslash⟩ := Option.map_eq_some_iff.1 heq
          rw [(singleQuote_eq_iff (by decide)).1 hslash] at hd
          exact hu hd
        show read? name ('<' :: Text.singleQuoted u) = _
        rw [read?_of_head? hu, read?_of_head? hu']
        exact readRest?_singleQuoted h false u
    · rw [Text.singleQuoted_cons, read?_cons_of_ne hc, read?_cons_of_ne fun heq =>
        hc ((singleQuote_eq_iff (by decide)).1 heq)]
      rfl

theorem close?_singleQuoted (depth start : Nat) (ps : List (Piece Turn)) :
    close? depth start (ps.map (Piece.singleQuoted singleQuoted)) = close? depth start ps := by
  induction ps generalizing depth start with
  | nil => rfl
  | cons p ps ih =>
    cases p with
    | char c => exact ih depth (start + 1)
    | item u =>
      have hslash : Tag.endsWithSlash u.singleQuoted.attrs = Tag.endsWithSlash u.attrs :=
        Tag.endsWithSlash_singleQuoted u.attrs
      have hclosing : u.singleQuoted.isClosing = u.isClosing := rfl
      rw [List.map_cons]
      show close? depth start (.item u.singleQuoted :: ps.map _) = _
      unfold close?
      simp only [length_source_singleQuoted, hslash, hclosing, ih]

end Turn

/-- **The same closing tag matches.** -/
theorem matching?_singleQuoted {name : Text} (h : IsQuoteless name) (t : Text) :
    matching? name t.singleQuoted = matching? name t := by
  have hreader : (Turn.reader name).IgnoresQuotes Turn.singleQuoted :=
    fun _ t => Turn.read?_singleQuoted h t
  have hpieces := hreader.pieces_eq none t
  rw [Option.map_none] at hpieces
  rw [matching?, matching?, hpieces, Turn.close?_singleQuoted]

end Closing
end AriaLint
