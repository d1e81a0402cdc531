import AriaLint.Proofs.Fix.Others
import AriaLint.Smell.AccessibleName

/-!
# Empty names stay where they are

Attributes with a blank value are looked for in the text of a snippet, not in its tags: they may
stand anywhere.  But such an attribute holds no bracket, so it stands between two tags or inside of
one (`spares_blank`).  Between the tags nothing changes, and within a tag the other attributes stay.
-/

namespace AriaLint
namespace Fix

open Attribute Tag

/-- A character that neither a blank attribute nor its name holds. -/
def IsApart (names : List Text) (c : Char) : Prop :=
  isNamePart c = true ∧ ∀ name ∈ names, fold c ∉ name.map fold

instance (names : List Text) (c : Char) : Decidable (IsApart names c) :=
  inferInstanceAs (Decidable (_ ∧ _))

theorem spares_blank {names : List Text} {c : Char}
    (hnames : ∀ name ∈ names, (NameForm.exactly name).IsProper) (hc : IsApart names c) :
    ((reader (names.map .exactly)).filter fun a => a.value.all isBlank).Spares c := by
  have hforms : ∀ form ∈ names.map NameForm.exactly, form.IsProper := by
    intro form hform
    obtain ⟨name, hname, rfl⟩ := List.mem_map.1 hform
    exact hnames name hname
  intro before t a rest hread
  obtain ⟨k, d, rfl, -, -, hlocal⟩ :=
    ((endsAt_reader hforms).filter fun a => a.value.all isBlank).reading hread
  refine ⟨k ++ [d], by simp, ?_, fun rest' => by simpa using hlocal rest'⟩
  obtain ⟨hread, hblank⟩ := Option.filter_eq_some_iff.1 hread
  obtain ⟨-, ⟨form, hform, hlike⟩, b, b', p, q, hsplit, hb, hb', hp, hq, -⟩ := exists_of_read? hread
  have hsame : (k ++ [d]) ++ rest =
      (a.name ++ (b ++ '=' :: (b' ++ p :: (a.value ++ [q])))) ++ rest := by simpa using hsplit
  have hkd := List.append_cancel_right hsame
  -- the character is neither in the name nor a blank, a quote or the sign
  obtain ⟨name, hname, rfl⟩ := List.mem_map.1 hform
  have hfold : c ∉ a.name := fun hmem => hc.2 name hname (by
    rw [map_fold_eq hlike]
    exact List.mem_map_of_mem hmem)
  have hpart := hc.1
  simp only [isNamePart, Bool.not_eq_true', Bool.or_eq_false_iff, beq_eq_false_iff_ne] at hpart
  have hnotBlank : ∀ {u : Text}, Text.IsBlankText u → c ∉ u := fun hu hmem => by
    rw [hu c hmem] at hpart
    exact Bool.noConfusion hpart.1.1.1
  have hnotQuote : ∀ {p : Char}, isQuote p = true → c ≠ p := by
    rintro _ hp rfl
    rw [hp] at hpart
    exact Bool.noConfusion hpart.1.1.2
  have hvalue : c ∉ a.value := hnotBlank fun e he => List.all_eq_true.1 hblank e he
  rw [hkd]
  simp [hfold, hnotBlank hb, hpart.1.2, hnotBlank hb', hnotQuote hp, hvalue, hnotQuote hq]

/-- What is read first in a text when its tags keep what is read in them. -/
theorem first?_textOf_of_keepsOthers {E : List Text} {forms : List NameForm}
    (hforms : ∀ form ∈ forms, form.IsOther E) {keep : Attribute → Bool}
    (hopen : ((reader forms).filter keep).Spares '<')
    (hclose : ((reader forms).filter keep).Spares '>') {ps qs : List (Piece Tag)}
    (h : List.Forall₂ (Piecewise (KeepsOthers E)) ps qs)
    (hraw : ∀ t, .item t ∈ ps → '=' ∉ t.rawName) (before : Option Char) (g : Text) :
    ((reader forms).filter keep).first? before (g ++ textOf qs) =
      ((reader forms).filter keep).first? before (g ++ textOf ps) := by
  induction h generalizing before g with
  | nil => rfl
  | @cons p q ps qs hpq _ ih =>
    have hrest := ih fun t ht => hraw t (List.mem_cons_of_mem p ht)
    cases hpq with
    | char c =>
      have happend : ∀ ps, g ++ textOf (.char c :: ps) = (g ++ [c]) ++ textOf ps := by simp
      rw [happend, happend, hrest]
    | @item t u hkeeps =>
      have hsource : ∀ (t : Tag) (rest : Text), g ++ (t.source ++ rest) =
          g ++ '<' :: ((t.rawName ++ t.attrs) ++ '>' :: rest) := by simp [source]
      rw [textOf_item, textOf_item, hsource, hsource, hopen.first?_append_cons,
        hopen.first?_append_cons, hclose.first?_append_cons, hclose.first?_append_cons,
        hkeeps.rawName, hkeeps.first forms hforms keep _ _ (hraw t List.mem_cons_self)]
      exact congrArg _ (congrArg _ (hrest (some '>') []))

/-- **Empty names** are found in the new text when they were found in the old one. -/
theorem blankOf_eq_nil_iff {ps qs : List (Piece Tag)}
    (h : List.Forall₂ (Piecewise (KeepsOthers editedNames)) ps qs)
    (hraw : ∀ t, .item t ∈ ps → '=' ∉ t.rawName) :
    blankOf ["aria-label", "aria-labelledby"] (textOf qs) = [] ↔
      blankOf ["aria-label", "aria-labelledby"] (textOf ps) = [] := by
  have hforms : ∀ form ∈ (["aria-label", "aria-labelledby"] : List Text).map NameForm.exactly,
      form.IsOther editedNames := isOther_of_mem_map (by decide)
  have hfirst := first?_textOf_of_keepsOthers hforms (spares_blank (by decide) (by decide))
    (spares_blank (by decide) (by decide)) h hraw none []
  rw [blankOf, blankOf, Reader.items_eq_nil_iff, Reader.items_eq_nil_iff]
  rw [List.nil_append, List.nil_append] at hfirst
  rw [hfirst]

end Fix
end AriaLint
