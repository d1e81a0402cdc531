import AriaLint.Proofs.Attribute.Extension

/-!
# A tag with attributes appended

The passes that add attributes rebuild a tag and put it back into the text.  What they rebuild is
read as a tag again, and as that very tag: the name ends where it ended, because a space delimits
it; the tag closes itself or does not as before, because the addition ends with a quote and the
slash stays behind it; and no bracket is closed early (`all_appendAttributes`).

The explicit role is the point where one might doubt it.  The attribute text may leave a value open,
and then the addition closes that value.  But a role that the tag has ends with its second quote,
and this quote stands in front of the addition, so an open value comes too late to matter.
-/

namespace AriaLint
namespace Fix

open Tag

/-- **A tag with attributes appended is read as one tag**, of the same name and shape, that makes up
the whole text.  The addition stands in one place of the attribute text, with nothing but blanks and
at most one slash behind it, and an explicit role stays as it was. -/
theorem all_appendAttributes {s add : Text} {t : Tag} {q : Char} (ht : t ∈ Tag.all s)
    (hspace : add.head? = some ' ') (hlast : add.getLast? = some q)
    (hq : Attribute.isQuote q = true) (hclose : '>' ∉ add) :
    Occurrence.all (appendAttributes t add).source = [⟨appendAttributes t add, 0⟩] ∧
      (Occurrence.mk (appendAttributes t add) 0).stop = (appendAttributes t add).source.length ∧
      (appendAttributes t add).rawName = t.rawName ∧
      (appendAttributes t add).isSelfClosing = t.isSelfClosing ∧
      (∃ x gap slash ending, t.attrs = x ++ (gap ++ slash ++ ending) ∧
        (appendAttributes t add).attrs = x ++ add ++ (gap ++ slash ++ ending) ∧
        Text.IsBlankText gap ∧ (slash = [] ∨ slash = ['/']) ∧ Text.IsBlankText ending) ∧
      ∀ role, t.role? = some role → (appendAttributes t add).role? = some role := by
  have hext : Extends add t (appendAttributes t add) := extends_appendAttributes t add
  obtain ⟨u, rest, hread⟩ := exists_read?_of_mem_pieces (mem_all_iff.1 ht)
  have hagain : read? ((appendAttributes t add).source ++ []) = some (appendAttributes t add, []) :=
    read?_extended ⟨hspace, hclose⟩ hread hext []
  rw [List.append_nil] at hagain
  refine ⟨?_, Nat.zero_add _, rfl, ?_, ?_, fun role hrole => role?_of_extends hext hrole⟩
  · rw [Occurrence.all, pieces_of_read hagain, pieces_nil]
    rfl
  · have hslash : q ≠ '/' := by
      rintro rfl
      exact absurd hq (by decide)
    refine isSelfClosing_appendAttributes t hlast (Bool.eq_false_iff.2 fun hblank => ?_) hslash
    rw [Attribute.isQuote_of_isBlank hblank] at hq
    exact Bool.false_ne_true hq
  · obtain ⟨x, gap, slash, ending, hattrs, happended, hgap, hslash, hending⟩ :=
      attrs_appendAttributes t add
    refine ⟨x, gap, slash, ending, hattrs, happended, hgap, ?_, hending⟩
    rw [hslash]
    split
    · exact Or.inr rfl
    · exact Or.inl rfl

/-- A name that gives a hyphen back, a value that is left open, and an addition that closes it. -/
theorem all_appendAttributes_openTitle :
    let t : Tag := ⟨"Br", "- role='Tab' title=\"a / "⟩
    let add : Text := " aria-label=\"<b\""
    t ∈ Tag.all "<p><Br- role='Tab' title=\"a / >" ∧
      Occurrence.all "<Br- role='Tab' title=\"a aria-label=\"<b\" / >" =
        [⟨appendAttributes t add, 0⟩] ∧
      (appendAttributes t add).role? = some "tab" := by
  intro t add
  have ht : t ∈ Tag.all "<p><Br- role='Tab' title=\"a / >" := by decide +kernel
  have hlast : add.getLast? = some '"' := by decide
  obtain ⟨hall, -, -, -, -, hrole⟩ :=
    all_appendAttributes ht rfl hlast (by decide) (by decide)
  exact ⟨ht, hall, hrole "tab" (by decide +kernel)⟩

end Fix
end AriaLint
