import AriaLint.Proofs.Attribute.Edits
import AriaLint.Proofs.Document.Elements

/-!
# Attribute text as a list of entries

The attributes of a well-formed tag are a list: blanks, a name, and behind it nothing or an equals
sign and a quoted value.  The names are told apart also when upper and lower case are not, and no
value ends with an equals sign, since its closing quote would then open a value.

The reader of attributes knows nothing of this list and tries every place of the text.  It turns out
to read entries only, each of them where it stands (`exists_entry_of_read?`).  So a role that is
found is an entry of its own, and without it the other entries are left, with no role among them
(`find?_withoutRole`).
-/

namespace AriaLint
namespace Attribute

/-! ## Entries -/

/-- What is assigned to an attribute: a value between quotes, with blanks around the equals
sign. -/
structure Assigned where
  left : Text
  right : Text
  opening : Char
  value : Text
  closing : Char
  leftBlank : Text.IsBlankText left
  rightBlank : Text.IsBlankText right
  opens : isQuote opening = true
  closes : isQuote closing = true
  unquoted : IsUnquoted value
  noBracket : '<' ∉ value ∧ '>' ∉ value
  settled : IsSettled value

/-- The assignment as it is written behind the name. -/
def Assigned.write (a : Assigned) : Text :=
  a.left ++ '=' :: (a.right ++ a.opening :: a.value) ++ [a.closing]

/-- A character of an entry's name. -/
def isEntryChar (c : Char) : Bool := isPlain c || c == '_'

theorem toNat_lt_of_isEntryChar {c : Char} (h : isEntryChar c = true) : c.toNat < 128 := by
  rcases Bool.or_eq_true_iff.1 h with h | h
  · exact toNat_lt_of_isPlain h
  · rw [eq_of_beq h]
    decide

/-- What holds of each character of an entry's name can be looked up. -/
theorem forall_entryChar {P : Char → Prop}
    (hascii : ∀ n < 128, isEntryChar (Char.ofNat n) = true → P (Char.ofNat n)) {c : Char}
    (h : isEntryChar c = true) : P c :=
  forall_ascii (P := fun c => isEntryChar c = true → P c) hascii (toNat_lt_of_isEntryChar h) h

/-- A name of ASCII letters, digits, colons, hyphens and underscores. -/
def IsEntryName (n : Text) : Prop := n ≠ [] ∧ ∀ c ∈ n, isEntryChar c = true

instance (n : Text) : Decidable (IsEntryName n) := inferInstanceAs (Decidable (_ ∧ _))

namespace IsEntryName

variable {n : Text}

theorem toNat_lt (h : IsEntryName n) : ∀ c ∈ n, c.toNat < 128 :=
  fun c hc => toNat_lt_of_isEntryChar (h.2 c hc)

theorem isNameText (h : IsEntryName n) : IsNameText n :=
  ⟨h.1, fun c hc => forall_entryChar (P := fun c => isNamePart c = true) (by decide) (h.2 c hc)⟩

/-- No name starts within such a name. -/
theorem continuesName (h : IsEntryName n) : ∀ c ∈ n, Attribute.continuesName c = true :=
  fun c hc => forall_entryChar (P := fun c => Attribute.continuesName c = true) (by decide) (h.2 c hc)

end IsEntryName

/-- An attribute with the blanks before it, bare or with a value. -/
structure Entry where
  gap : Text
  name : Text
  assigned : Option Assigned
  separated : gap ≠ []
  blank : Text.IsBlankText gap
  named : name ≠ []
  chars : ∀ c ∈ name, isEntryChar c = true

namespace Entry

/-- The entry as it is written. -/
def write (e : Entry) : Text := e.gap ++ (e.name ++ e.assigned.elim [] Assigned.write)

/-- The attribute that the entry is; none when it is bare. -/
def attribute? (e : Entry) : Option Attribute := e.assigned.map fun a => ⟨e.name, a.value⟩

theorem name_of_attribute? {e : Entry} {a : Attribute} (h : e.attribute? = some a) :
    e.name = a.name := by
  obtain ⟨v, -, rfl⟩ := Option.map_eq_some_iff.1 h
  rfl

/-- The entries as they are written one after the other. -/
def writeAll (es : List Entry) : Text := es.flatMap write

@[simp] theorem writeAll_nil : writeAll [] = [] := rfl

@[simp] theorem writeAll_cons (e : Entry) (es : List Entry) :
    writeAll (e :: es) = e.write ++ writeAll es := rfl

@[simp] theorem writeAll_append (es fs : List Entry) :
    writeAll (es ++ fs) = writeAll es ++ writeAll fs := List.flatMap_append

variable (e : Entry)

theorem isEntryName : IsEntryName e.name := ⟨e.named, e.chars⟩

theorem toNat_lt {c : Char} (hc : c ∈ e.name) : c.toNat < 128 := e.isEntryName.toNat_lt c hc

theorem isNameText : IsNameText e.name := e.isEntryName.isNameText

/-- No name starts within the name of an entry. -/
theorem continuesName {c : Char} (hc : c ∈ e.name) : Attribute.continuesName c = true :=
  e.isEntryName.continuesName c hc

/-- A bare entry holds no quote. -/
theorem isUnquoted_of_bare (h : e.assigned = none) : IsUnquoted e.write := by
  intro c hc
  rw [write, h, Option.elim_none, List.append_nil, List.mem_append] at hc
  rcases hc with hc | hc
  · exact isQuote_of_isBlank (e.blank c hc)
  · exact isUnquoted_of_isNameText e.isNameText c hc

/-- An entry with a value is spelled out behind its blanks. -/
theorem exists_spelled {a : Assigned} (h : e.assigned = some a) :
    ∃ r, e.write = e.gap ++ r ∧ Attribute.IsSpelledBy ⟨e.name, a.value⟩ r := by
  refine ⟨e.name ++ a.write, by rw [write, h, Option.elim_some], ?_⟩
  exact ⟨_, a.closing, rfl, a.closes, a.left, a.right, a.opening, rfl, a.leftBlank, a.rightBlank,
    a.opens, a.unquoted⟩

/-- The last character of an entry is no blank. -/
theorem exists_write_eq_concat : ∃ x c, e.write = x ++ [c] ∧ isBlank c = false := by
  cases h : e.assigned with
  | none =>
    obtain ⟨n, c, hn⟩ : ∃ n c, e.name = n ++ [c] :=
      ⟨_, _, (List.dropLast_append_getLast e.named).symm⟩
    have hpart := e.isNameText.2 c (by rw [hn]; simp)
    simp only [isNamePart, Bool.not_eq_true', Bool.or_eq_false_iff] at hpart
    refine ⟨e.gap ++ n, c, ?_, hpart.1.1.1⟩
    rw [write, h, hn]
    simp
  | some a =>
    refine ⟨e.gap ++ (e.name ++ (a.left ++ '=' :: (a.right ++ a.opening :: a.value))), a.closing,
      ?_, isBlank_of_isQuote a.closes⟩
    rw [write, h]
    simp [Assigned.write]

/-- An entry holds no bracket. -/
theorem not_mem_write {p : Char} (hp : p = '<' ∨ p = '>') : p ∉ e.write := by
  have hsign : isBlank p = false ∧ isEntryChar p = false ∧ isQuote p = false ∧ p ≠ '=' := by
    rcases hp with rfl | rfl
    · decide
    · decide
  obtain ⟨hblank, hentry, hquote, hequals⟩ := hsign
  have hblanks : ∀ {b : Text}, Text.IsBlankText b → p ∉ b := fun hb hmem => by
    rw [hb p hmem] at hblank
    exact Bool.noConfusion hblank
  have hquotes : ∀ {q : Char}, isQuote q = true → p ≠ q := by
    rintro _ hq rfl
    rw [hq] at hquote
    exact Bool.noConfusion hquote
  have hname : p ∉ e.name := fun hmem => by
    rw [e.chars p hmem] at hentry
    exact Bool.noConfusion hentry
  cases h : e.assigned with
  | none => simp [write, h, hblanks e.blank, hname]
  | some a =>
    have hvalue : p ∉ a.value := by
      rcases hp with rfl | rfl
      · exact a.noBracket.1
      · exact a.noBracket.2
    simp [write, h, Assigned.write, hblanks e.blank, hname, hblanks a.leftBlank,
      hblanks a.rightBlank, hquotes a.opens, hquotes a.closes, hvalue, hequals]

/-! ## Seams -/

/-- An entry leaves no value open. -/
theorem endsOpen_append_write {x : Text} (hx : endsOpen x = false) :
    endsOpen (x ++ e.write) = false := by
  cases h : e.assigned with
  | none => rw [endsOpen_append_of_isUnquoted x (e.isUnquoted_of_bare h), hx]
  | some a =>
    obtain ⟨r, hr, hspelled⟩ := e.exists_spelled h
    rw [hr, ← List.append_assoc]
    exact endsOpen_spelled hspelled a.settled

theorem endsOpen_append_writeAll {x : Text} (hx : endsOpen x = false) (es : List Entry) :
    endsOpen (x ++ writeAll es) = false := by
  induction es generalizing x with
  | nil => rwa [writeAll_nil, List.append_nil]
  | cons e es ih =>
    rw [writeAll_cons, ← List.append_assoc]
    exact ih (e.endsOpen_append_write hx)

theorem endsOpen_writeAll (es : List Entry) : endsOpen (writeAll es) = false :=
  endsOpen_append_writeAll (x := []) rfl es

/-- Entries in front of a tail open anew. -/
theorem opensAnew_writeAll (es : List Entry) {y : Text} (hy : Tag.IsTail y) :
    opensAnew (writeAll es ++ y) = true := by
  cases es with
  | nil => exact opensAnew_of_isTail hy
  | cons e es =>
    rw [writeAll_cons, write, List.append_assoc, List.append_assoc, List.append_assoc]
    exact opensAnew_named e.blank e.separated e.isNameText _

/-- The blanks behind entries are all the blanks at the end. -/
theorem trimRight_writeAll_append (es : List Entry) {b : Text} (hb : Text.IsBlankText b) :
    Text.trimRight (writeAll es ++ b) = writeAll es := by
  have hblank : ∀ c ∈ b.reverse, isBlank c = true := fun c hc => hb c (List.mem_reverse.1 hc)
  rw [Text.trimRight, List.reverse_append, List.dropWhile_append_of_pos hblank]
  rcases List.eq_nil_or_concat es with rfl | ⟨es, e, rfl⟩
  · rfl
  · obtain ⟨x, c, hx, hc⟩ := e.exists_write_eq_concat
    have hlast : writeAll (es.concat e) = (writeAll es ++ x) ++ [c] := by
      rw [List.concat_eq_append, writeAll_append, writeAll_cons, writeAll_nil, hx]
      simp
    rw [hlast, List.reverse_append, List.reverse_singleton, List.singleton_append,
      List.dropWhile_cons_of_neg (by simp [hc]), List.reverse_cons, List.reverse_reverse]

end Entry

/-! ## Readings are entries -/

section Readings

open Attribute.Entry

variable {forms : List NameForm} (hforms : ∀ form ∈ forms, form.IsProper)

include hforms

/-- Within an entry nothing but the entry is read. -/
theorem Entry.eq_of_read? (e : Entry) {before : Option Char} {a d rest : Text} {c : Attribute}
    (hsplit : e.write = a ++ d)
    (hread : (reader forms).read? (Reader.beforeAt before a) d = some (c, rest)) :
    e.attribute? = some c ∧ a = e.gap ∧ rest = [] := by
  cases h : e.assigned with
  | none =>
    obtain ⟨k, q, rfl, hq, -⟩ := (endsAt_reader hforms).reading hread
    have hquote := e.isUnquoted_of_bare h q (by rw [hsplit]; simp)
    rw [hq] at hquote
    exact absurd hquote (by simp)
  | some v =>
    obtain ⟨r, hr, hspelled⟩ := e.exists_spelled h
    rw [hr] at hsplit
    obtain ⟨rfl, ha, hrest⟩ := eq_of_read?_spelled hforms e.blank e.isNameText
      (fun _ hc => e.continuesName hc) hspelled hsplit hread
    exact ⟨by rw [attribute?, h, Option.map_some], ha, hrest⟩

/-- **What is read in front of a tail is an entry**, read where it stands. -/
theorem exists_entry_of_read? {es : List Entry} {y : Text} (hy : Tag.IsTail y)
    (before : Option Char) {a d rest : Text} {c : Attribute} (hsplit : writeAll es ++ y = a ++ d)
    (hread : (reader forms).read? (Reader.beforeAt before a) d = some (c, rest)) :
    ∃ es₁ e es₂, es = es₁ ++ e :: es₂ ∧ e.attribute? = some c ∧ a = writeAll es₁ ++ e.gap ∧
      rest = writeAll es₂ ++ y := by
  induction es generalizing before a with
  | nil =>
    obtain ⟨k, q, rfl, hq, -⟩ := (endsAt_reader hforms).reading hread
    have hmem : q ∈ y := by
      rw [writeAll_nil, List.nil_append] at hsplit
      simp [hsplit]
    rw [isUnquoted_of_isTail hy q hmem] at hq
    exact absurd hq (by decide)
  | cons e es ih =>
    rw [writeAll_cons, List.append_assoc] at hsplit
    have hbehind : ∀ a', a = e.write ++ a' → writeAll es ++ y = a' ++ d → ∃ es₁ e' es₂,
        e :: es = es₁ ++ e' :: es₂ ∧ e'.attribute? = some c ∧ a = writeAll es₁ ++ e'.gap ∧
          rest = writeAll es₂ ++ y := by
      rintro a' rfl hrest
      rw [Reader.beforeAt_append] at hread
      obtain ⟨es₁, e', es₂, rfl, hattr, rfl, hlast⟩ := ih _ hrest hread
      exact ⟨e :: es₁, e', es₂, rfl, hattr, by simp, hlast⟩
    rcases List.append_eq_append_iff.1 hsplit with ⟨a', ha, hd⟩ | ⟨d', he, hd⟩
    · exact hbehind a' ha hd
    · cases d' with
      | nil => exact hbehind [] (by simpa using he.symm) hd.symm
      | cons l d' =>
        -- the reading starts within the entry, and ends there
        have hseam : (reader forms).IsSeam before e.write (writeAll es ++ y) :=
          isSeam hforms (e.endsOpen_append_write (x := []) rfl)
            (Or.inr (opensAnew_writeAll es hy))
        rw [hd, hseam a (l :: d') he (by simp)] at hread
        obtain ⟨⟨c', rest'⟩, hread', heq⟩ := Option.map_eq_some_iff.1 hread
        obtain ⟨rfl, rfl⟩ := Prod.mk.inj heq
        obtain ⟨hattr, ha, rfl⟩ := e.eq_of_read? hforms he hread'
        exact ⟨[], e, es, rfl, hattr, by rw [ha, writeAll_nil, List.nil_append], rfl⟩

end Readings

/-! ## The role -/

section Role

open Attribute.Entry

/-- The role that is found is an entry. -/
theorem exists_entry_of_find?_role {es : List Entry} {y : Text} (hy : Tag.IsTail y)
    {f : Found Attribute} (hf : find? "role" true (writeAll es ++ y) = some f) :
    ∃ es₁ e es₂, es = es₁ ++ e :: es₂ ∧ e.attribute? = some f.item ∧
      f.before = writeAll es₁ ++ e.gap ∧ f.after = writeAll es₂ ++ y := by
  have hname : IsQuoteless (Text.lower "role") := by decide
  obtain ⟨k, d, hsplit, -, -, hlocal⟩ := (endsAt_named hname true).find?_eq_some hf
  exact exists_entry_of_read? (by decide) hy none hsplit
    (Option.filter_eq_some_iff.1 (hlocal f.after)).1

/-- A role that is found in a list of entries stands apart. -/
theorem standsApart_of_entries {es : List Entry} {y : Text} (hy : Tag.IsTail y)
    {f : Found Attribute} (hf : find? "role" true (writeAll es ++ y) = some f) :
    standsApart f = true := by
  obtain ⟨es₁, e, es₂, -, -, hbefore, hafter⟩ := exists_entry_of_find?_role hy hf
  have htrim : Text.trimRight f.before = writeAll es₁ := by
    rw [hbefore, trimRight_writeAll_append es₁ e.blank]
  have hgap : Text.trailingBlanks f.before = e.gap := by
    have hsplit := Text.trimRight_append_trailingBlanks f.before
    rw [htrim, hbefore] at hsplit
    rw [hbefore]
    exact List.append_cancel_left hsplit
  simp [standsApart, htrim, hgap, hafter, endsOpen_writeAll, opensAnew_writeAll es₂ hy,
    e.separated]

/-- Entries that are read as a role have the same name, upper and lower case aside. -/
theorem sameName_of_role {e e' : Entry}
    (he : List.Forall₂ (fun w c => sameLetter w c = true) "role" e.name)
    (he' : List.Forall₂ (fun w c => sameLetter w c = true) "role" e'.name) :
    SameName e.name e'.name := by
  have hlower : ∀ e : Entry, e.name.map Char.toLower = e.name.map fold := fun e =>
    List.map_congr_left fun c hc => (fold_of_ascii (e.toNat_lt hc)).symm
  rw [sameName_iff, hlower e, hlower e', ← map_fold_eq he, ← map_fold_eq he']

/-- **Without its role the other entries are left**, and no role among them. -/
theorem find?_withoutRole {es : List Entry} {y : Text} (hy : Tag.IsTail y)
    (hdistinct : es.Pairwise fun e e' => ¬ SameName e.name e'.name) {f : Found Attribute}
    (hf : find? "role" true (writeAll es ++ y) = some f) :
    find? "role" true (Fix.withoutRole (writeAll es ++ y)) = none := by
  obtain ⟨es₁, e, es₂, rfl, hattr, hbefore, hafter⟩ := exists_entry_of_find?_role hy hf
  obtain ⟨-, -, -, hrole⟩ := exists_spelled_role hf
  rw [← name_of_attribute? hattr] at hrole
  have hleft : Fix.withoutRole (writeAll (es₁ ++ e :: es₂) ++ y) =
      writeAll (es₁ ++ es₂) ++ y := by
    rw [Fix.withoutRole, hf]
    dsimp only
    rw [hbefore, hafter, trimRight_writeAll_append es₁ e.blank, writeAll_append,
      List.append_assoc]
  rw [hleft, Option.eq_none_iff_forall_ne_some]
  intro g hg
  obtain ⟨fs₁, e', fs₂, hsplit, hattr', -⟩ := exists_entry_of_find?_role hy hg
  obtain ⟨-, -, -, hrole'⟩ := exists_spelled_role hg
  rw [← name_of_attribute? hattr'] at hrole'
  rw [List.pairwise_append, List.pairwise_cons] at hdistinct
  obtain ⟨-, ⟨hbehind, -⟩, hahead⟩ := hdistinct
  have hmem : e' ∈ es₁ ++ es₂ := by simp [hsplit]
  rcases List.mem_append.1 hmem with hmem | hmem
  · exact hahead e' hmem e List.mem_cons_self (sameName_of_role hrole' hrole)
  · exact hbehind e' hmem (sameName_of_role hrole hrole')

end Role
end Attribute
end AriaLint
