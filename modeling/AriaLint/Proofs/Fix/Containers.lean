import AriaLint.Fix.Tablist
import AriaLint.Proofs.Attribute.Grammar
import AriaLint.Proofs.Closing.Grammar
import AriaLint.Proofs.Tag.Pieces

/-!
# Containers up to the first closing tag

What the reader of containers reads.  The bracket of a container is the bracket of a tag, and the
container's own tag covers the same stretch of text as that tag, even when its name is a shorter cut
(`Container.read?_eq_some`).  Its content ends with a closing bracket, and it is settled by itself:
whatever is put behind it, the first closing tag behind the first tab is still the one at its end.
-/

namespace AriaLint
namespace Fix

open Attribute

/-! ## Tabs and closing tags -/

theorem isQuoteless_role : IsQuoteless "role" := by decide

/-- The role of a tab ends with its second quote. -/
theorem endsAt_tabRole : tabRole.EndsAt isQuote 2 :=
  (endsAt_exactly isQuoteless_role).filter _

/-- A sign that delimits names occurs in no closing tag of a name. -/
theorem sameSmall_of_mem_nameCuts {u name v : Text} (h : (name, v) ∈ Tag.nameCuts u) {p : Char}
    (hp : p ∈ ['>', '=']) : ∀ w ∈ name, sameSmall w p = false := by
  intro w hw
  have hsigns : ∀ p ∈ ['>', '='], fold p = p ∧ Tag.isNameChar p = false := by decide
  exact Closing.sameSmall_eq_false (Tag.isNameChar_of_mem_nameCuts h hw) (hsigns p hp).1
    (hsigns p hp).2

namespace Container

/-- Nothing is read where no bracket opens. -/
theorem read?_cons_of_ne {c : Char} (hc : c ≠ '<') (t : Text) : read? (c :: t) = none := by
  unfold read?
  split
  · next heq => exact absurd (List.cons.inj heq).1 hc
  · rfl

/-- What is skipped to reach the end of a container ends with a closing bracket, and it is settled
by itself. -/
theorem afterTabs?_eq_some {name t rest : Text} (hname : ∀ w ∈ name, sameSmall w '>' = false)
    (h : afterTabs? name t = some rest) :
    ∃ k, t = k ++ '>' :: rest ∧ ∀ rest', afterTabs? name (k ++ '>' :: rest') = some rest' := by
  obtain ⟨tab, htab, h⟩ := Option.bind_eq_some_iff.1 h
  obtain ⟨close, hclose, h⟩ := Option.bind_eq_some_iff.1 h
  obtain rfl := Option.some.inj h
  obtain ⟨a, ha, halocal⟩ := endsAt_tabRole.find?_local htab
  obtain ⟨b, hb, hblocal⟩ := (Closing.endsAt_reader hname).find?_local hclose
  obtain ⟨k, d, hsplit, hd, -, -⟩ := (Closing.endsAt_reader hname).find?_eq_some hclose
  obtain rfl : d = '>' := eq_of_beq hd
  have hend : b = close.before ++ k ++ ['>'] := by
    refine List.append_cancel_right (hb.symm.trans ?_)
    rw [hsplit]
    simp
  refine ⟨a ++ (close.before ++ k), ?_, fun rest' => ?_⟩
  · rw [ha, hsplit]
    simp
  · have hkeep : a ++ (close.before ++ k) ++ '>' :: rest' = a ++ (b ++ rest') := by
      rw [hend]
      simp
    rw [hkeep, afterTabs?, halocal]
    show ((Closing.reader sameSmall name).find? none (b ++ rest')).bind _ = _
    rw [hblocal]
    rfl

/-- **What a container looks like.** -/
theorem read?_eq_some {t rest : Text} {c : Container} (h : read? t = some (c, rest)) :
    ∃ u k, t = '<' :: u ∧ c.content = k ++ ['>'] ∧ '>' ∉ c.tag.attrs ∧
      (c.tag.rawName, c.tag.attrs ++ '>' :: (c.content ++ rest)) ∈ Tag.nameCuts u ∧
      ∀ rest', afterTabs? c.tag.rawName (c.content ++ rest') = some rest' := by
  unfold read? at h
  split at h
  · next u =>
    obtain ⟨⟨name, v⟩, hv, h⟩ := List.exists_of_findSome?_eq_some h
    obtain ⟨⟨attrs, w⟩, hw, h⟩ := Option.bind_eq_some_iff.1 h
    obtain ⟨r, hr, h⟩ := Option.bind_eq_some_iff.1 h
    obtain ⟨rfl, rfl⟩ := Prod.mk.inj (Option.some.inj h)
    obtain ⟨hsplit, hattrs⟩ := Text.upTo?_eq_some hw
    obtain ⟨k, hk, hlocal⟩ := afterTabs?_eq_some (sameSmall_of_mem_nameCuts hv (by simp)) hr
    have hcontent : w.take (w.length - r.length) = k ++ ['>'] := by
      have hlen : (k ++ ['>']).length = w.length - r.length := by
        rw [hk]
        simp only [List.length_append, List.length_cons, List.length_nil]
        omega
      rw [hk, show k ++ '>' :: r = (k ++ ['>']) ++ r by simp] at hlen ⊢
      exact List.take_left' hlen
    refine ⟨u, k, rfl, hcontent, hattrs, ?_, fun rest' => ?_⟩
    · show (name, attrs ++ '>' :: (w.take (w.length - r.length) ++ r)) ∈ Tag.nameCuts u
      have hrest : w.take (w.length - r.length) ++ r = w := by
        rw [hcontent, hk]
        simp
      rw [hrest, ← show v = attrs ++ '>' :: w from hsplit]
      exact hv
    · show afterTabs? name (w.take (w.length - r.length) ++ rest') = some rest'
      rw [hcontent, List.append_assoc]
      exact hlocal rest'
  · exact absurd h (by simp)

/-- **A container starts where a tag starts**, and covers that tag. -/
theorem tagRead?_of_read? {t rest : Text} {c : Container} (h : read? t = some (c, rest)) :
    ∃ tag, Tag.read? t = some (tag, c.content ++ rest) ∧ tag.source = c.tag.source := by
  obtain ⟨u, -, rfl, -, hattrs, hcut, -⟩ := read?_eq_some h
  exact Tag.read?_of_mem_nameCuts hcut hattrs

/-- Nothing is lost: the container and the rest make up the text. -/
theorem source_append_of_read? {t rest : Text} {c : Container} (h : read? t = some (c, rest)) :
    c.source ++ rest = t := by
  obtain ⟨tag, hread, hsource⟩ := tagRead?_of_read? h
  rw [source, ← hsource, List.append_assoc]
  exact Tag.source_append_of_read? hread

end Container
end Fix
end AriaLint
