import AriaLint.Proofs.Attribute.Forms
import AriaLint.Role.Implicit

/-!
# Single quotes for double ones

`Text.singleQuoted` puts a single quote for every double one.  Nothing that reads tags and attributes
tells the two apart: a value is opened and closed by either, neither is a blank, a word character or
a character of a name, and no name that is looked for is like one of them.

So a reader commutes with the exchange.  `Reader.IgnoresQuotes read g` says this of a reader, where `g`
is the exchange for what it reads, and it is all that the walks over a text ask for: what is found,
and the pieces that a text is cut into, are those of the text before, exchanged.

The reader of attributes is of this kind, and reads the *same* name and value, since neither can hold
a quote (`Attribute.ignoresQuotes_reader`).
-/

namespace AriaLint

open Attribute (isQuote IsUnquoted IsQuoteless)

/-! ## Characters -/

/-- A single quote for a double one, and any other character for itself. -/
def singleQuote (c : Char) : Char := if c = '"' then '\x27' else c

/-- What does not tell the quotes apart is not changed. -/
theorem apply_singleQuote {β : Type} {p : Char → β} (h : p '\x27' = p '"') (c : Char) :
    p (singleQuote c) = p c := by
  unfold singleQuote
  split
  · next hc => rw [hc, h]
  · rfl

theorem singleQuote_of_not_isQuote {c : Char} (h : isQuote c = false) : singleQuote c = c := by
  unfold singleQuote
  split
  · next hc =>
    rw [hc] at h
    exact absurd h (by decide)
  · rfl

theorem singleQuote_eq_iff {c p : Char} (hp : isQuote p = false) : singleQuote c = p ↔ c = p := by
  have hne : p ≠ '"' ∧ p ≠ '\x27' := by
    constructor
    · rintro rfl
      exact absurd hp (by decide)
    · rintro rfl
      exact absurd hp (by decide)
  unfold singleQuote
  split
  · next hc =>
    rw [hc]
    exact iff_of_false (Ne.symm hne.2) (Ne.symm hne.1)
  · rfl

/-- The exchange is done after one run. -/
theorem singleQuote_singleQuote (c : Char) : singleQuote (singleQuote c) = singleQuote c := by
  unfold singleQuote
  by_cases hc : c = '"' <;> simp [hc]

@[simp] theorem isQuote_singleQuote (c : Char) : isQuote (singleQuote c) = isQuote c :=
  apply_singleQuote (by decide) c

@[simp] theorem isBlank_singleQuote (c : Char) : isBlank (singleQuote c) = isBlank c :=
  apply_singleQuote (by decide) c

@[simp] theorem isWord_singleQuote (c : Char) : isWord (singleQuote c) = isWord c :=
  apply_singleQuote (by decide) c

@[simp] theorem isDigit_singleQuote (c : Char) : isDigit (singleQuote c) = isDigit c :=
  apply_singleQuote (by decide) c

@[simp] theorem isNameChar_singleQuote (c : Char) :
    Tag.isNameChar (singleQuote c) = Tag.isNameChar c :=
  apply_singleQuote (by decide) c

@[simp] theorem isAriaNameChar_singleQuote (c : Char) :
    Attribute.isAriaNameChar (singleQuote c) = Attribute.isAriaNameChar c :=
  apply_singleQuote (by decide) c

@[simp] theorem isBoundary_singleQuote (left right : Option Char) :
    isBoundary left (right.map singleQuote) = isBoundary left right := by
  cases right with
  | none => rfl
  | some c => simp [isBoundary]

@[simp] theorem canStartAfter_singleQuote (before : Option Char) :
    Attribute.canStartAfter (before.map singleQuote) = Attribute.canStartAfter before := by
  cases before with
  | none => rfl
  | some c => exact congrArg not (apply_singleQuote (p := Attribute.continuesName) (by decide) c)

/-! ## Texts -/

namespace Text

/-- The text with a single quote for every double one. -/
def singleQuoted (t : Text) : Text := t.map singleQuote

@[simp] theorem singleQuoted_nil : singleQuoted [] = [] := rfl

@[simp] theorem singleQuoted_cons (c : Char) (t : Text) :
    singleQuoted (c :: t) = singleQuote c :: singleQuoted t := rfl

@[simp] theorem singleQuoted_append (t u : Text) :
    singleQuoted (t ++ u) = singleQuoted t ++ singleQuoted u := List.map_append

@[simp] theorem length_singleQuoted (t : Text) : (singleQuoted t).length = t.length :=
  List.length_map _

@[simp] theorem singleQuoted_eq_nil_iff {t : Text} : singleQuoted t = [] ↔ t = [] :=
  List.map_eq_nil_iff

@[simp] theorem singleQuoted_singleQuoted (t : Text) :
    singleQuoted (singleQuoted t) = singleQuoted t := by
  rw [singleQuoted, singleQuoted, List.map_map]
  exact List.map_congr_left fun c _ => singleQuote_singleQuote c

theorem singleQuoted_of_isUnquoted {t : Text} (h : IsUnquoted t) : singleQuoted t = t := by
  rw [singleQuoted]
  conv => rhs; rw [← List.map_id t]
  exact List.map_congr_left fun c hc => singleQuote_of_not_isQuote (h c hc)

theorem singleQuoted_flatMap {β : Type} (f : β → Text) (l : List β) :
    Text.singleQuoted (l.flatMap f) = l.flatMap fun b => (f b).singleQuoted := List.map_flatMap

theorem head?_singleQuoted (t : Text) : (singleQuoted t).head? = t.head?.map singleQuote :=
  List.head?_map

theorem getLast?_singleQuoted (t : Text) : (singleQuoted t).getLast? = t.getLast?.map singleQuote :=
  List.getLast?_map

theorem take_singleQuoted (n : Nat) (t : Text) :
    (singleQuoted t).take n = singleQuoted (t.take n) := List.map_take.symm

theorem reverse_singleQuoted (t : Text) : (singleQuoted t).reverse = singleQuoted t.reverse :=
  List.map_reverse.symm

section Walks

variable {p : Char → Bool} (hp : ∀ c, p (singleQuote c) = p c)
include hp

theorem takeWhile_singleQuoted (t : Text) :
    (singleQuoted t).takeWhile p = singleQuoted (t.takeWhile p) := by
  rw [singleQuoted, List.takeWhile_map, show p ∘ singleQuote = p from funext hp]
  rfl

theorem dropWhile_singleQuoted (t : Text) :
    (singleQuoted t).dropWhile p = singleQuoted (t.dropWhile p) := by
  rw [singleQuoted, List.dropWhile_map, show p ∘ singleQuote = p from funext hp]
  rfl

end Walks

@[simp] theorem trimLeft_singleQuoted (t : Text) :
    trimLeft (singleQuoted t) = singleQuoted (trimLeft t) :=
  dropWhile_singleQuoted isBlank_singleQuote t

@[simp] theorem trimRight_singleQuoted (t : Text) :
    trimRight (singleQuoted t) = singleQuoted (trimRight t) := by
  rw [trimRight, trimRight, reverse_singleQuoted, dropWhile_singleQuoted isBlank_singleQuote,
    reverse_singleQuoted]

@[simp] theorem trailingBlanks_singleQuoted (t : Text) :
    trailingBlanks (singleQuoted t) = singleQuoted (trailingBlanks t) := by
  rw [trailingBlanks, trailingBlanks, reverse_singleQuoted,
    takeWhile_singleQuoted isBlank_singleQuote, reverse_singleQuoted]

@[simp] theorem trim_singleQuoted (t : Text) : trim (singleQuoted t) = singleQuoted (trim t) := by
  rw [trim, trim, trimLeft_singleQuoted, trimRight_singleQuoted]

theorem upTo?_singleQuoted {stop : Char} (h : isQuote stop = false) (t : Text) :
    upTo? stop (singleQuoted t) =
      (upTo? stop t).map fun r => (singleQuoted r.1, singleQuoted r.2) := by
  induction t with
  | nil => rfl
  | cons c t ih =>
    rw [singleQuoted_cons, upTo?, upTo?, ih]
    by_cases hc : c = stop
    · rw [if_pos ((singleQuote_eq_iff h).2 hc), if_pos hc]
      rfl
    · rw [if_neg fun heq => hc ((singleQuote_eq_iff h).1 heq), if_neg hc, Option.map_map,
        Option.map_map]
      rfl

/-- A word without quotes is read from the same characters. -/
theorem readWord?_singleQuoted {alike : Char → Char → Bool} {word : Text}
    (h : ∀ w ∈ word, ∀ c, isQuote c = true → alike w c = false) (t : Text) :
    readWord? alike word (singleQuoted t) =
      (readWord? alike word t).map fun r => (r.1, singleQuoted r.2) := by
  induction word generalizing t with
  | nil => rfl
  | cons w word ih =>
    cases t with
    | nil => rfl
    | cons c t =>
      have hw := h w List.mem_cons_self
      rw [singleQuoted_cons, readWord?, readWord?,
        ih fun v hv => h v (List.mem_cons_of_mem w hv)]
      cases hc : isQuote c with
      | true => rw [hw c hc, hw (singleQuote c) (by rw [isQuote_singleQuote, hc])]; rfl
      | false =>
        rw [singleQuote_of_not_isQuote hc]
        split
        · rw [Option.map_map, Option.map_map]
          rfl
        · rfl

end Text

/-! ## Readers -/

/-- The construct with its quotes exchanged, and the character too. -/
def Piece.singleQuoted {α : Type} (g : α → α) : Piece α → Piece α
  | .char c => .char (singleQuote c)
  | .item a => .item (g a)

/-- The place with the quotes around it exchanged. -/
def Found.singleQuoted {α : Type} (g : α → α) (f : Found α) : Found α :=
  ⟨f.before.singleQuoted, g f.item, f.after.singleQuoted⟩

namespace Reader

variable {α : Type} {read : Reader α} {g : α → α}

variable (read g) in
/-- The reader takes single quotes for double ones, and reads the same construct up to the exchange
`g`. -/
def IgnoresQuotes : Prop :=
  ∀ before t, read.read? (before.map singleQuote) (Text.singleQuoted t) =
    (read.read? before t).map fun r => (g r.1, r.2.singleQuoted)

namespace IgnoresQuotes

variable (h : read.IgnoresQuotes g)
include h

theorem filter {keep : α → Bool} (hkeep : ∀ a, keep (g a) = keep a) :
    (read.filter keep).IgnoresQuotes g := by
  intro before t
  show (read.read? (before.map singleQuote) t.singleQuoted).filter _ =
    ((read.read? before t).filter _).map _
  rw [h before t]
  cases read.read? before t with
  | none => rfl
  | some r =>
    obtain ⟨a, rest⟩ := r
    cases hk : keep a <;> simp [Option.filter, hk, hkeep]

/-- The same place is found. -/
theorem find?_eq (before : Option Char) (t : Text) :
    read.find? (before.map singleQuote) t.singleQuoted =
      (read.find? before t).map (Found.singleQuoted g) := by
  induction t generalizing before with
  | nil => rfl
  | cons c t ih =>
    have hread := h before (c :: t)
    cases hr : read.read? before (c :: t) with
    | some r =>
      obtain ⟨a, rest⟩ := r
      rw [hr] at hread
      rw [find?_of_read hr, find?_of_read hread]
      rfl
    | none =>
      rw [hr] at hread
      have hnone : read.read? (before.map singleQuote) (singleQuote c :: Text.singleQuoted t) =
          none := hread
      have hrest : read.find? (some (singleQuote c)) (Text.singleQuoted t) = _ := ih (some c)
      rw [Text.singleQuoted_cons, find?_of_not_read hnone, find?_of_not_read hr, hrest,
        Option.map_map, Option.map_map]
      rfl

omit h in
theorem lastConsumed_singleQuoted (t rest : Text) :
    lastConsumed t.singleQuoted rest.singleQuoted = (lastConsumed t rest).map singleQuote := by
  rw [lastConsumed, lastConsumed, Text.length_singleQuoted, Text.length_singleQuoted,
    Text.take_singleQuoted, Text.getLast?_singleQuoted]

/-- The text is cut into the same pieces. -/
theorem pieces_eq (before : Option Char) (t : Text) :
    read.pieces (before.map singleQuote) t.singleQuoted =
      (read.pieces before t).map (Piece.singleQuoted g) := by
  fun_induction pieces read before t with
  | case1 before => exact read.pieces_nil _
  | case2 before c tail a rest hr ih =>
    have hread := h before (c :: tail)
    rw [hr] at hread
    rw [read.pieces_of_read hread, lastConsumed_singleQuoted, ih]
    rfl
  | case3 before c tail hr ih =>
    have hread := h before (c :: tail)
    rw [hr] at hread
    have hnone : read.read? (before.map singleQuote) (singleQuote c :: Text.singleQuoted tail) =
        none := hread
    rw [Text.singleQuoted_cons, read.pieces_of_not_read hnone, List.map_cons, ← ih]
    rfl

/-- The same constructs are read. -/
theorem items_eq (t : Text) : read.items t.singleQuoted = (read.items t).map g := by
  have hpieces := h.pieces_eq none t
  rw [Option.map_none] at hpieces
  rw [items, items, hpieces, List.filterMap_map, List.map_filterMap]
  congr 1
  funext p
  cases p with
  | char c => rfl
  | item a => rfl

/-- Texts in which every construct is written anew agree but for quotes. -/
theorem rewrite_eq {write : α → Text}
    (hwrite : ∀ a, (write (g a)).singleQuoted = (write a).singleQuoted) (t : Text) :
    (read.rewrite write t.singleQuoted).singleQuoted = (read.rewrite write t).singleQuoted := by
  have hpieces := h.pieces_eq none t
  rw [Option.map_none] at hpieces
  rw [rewrite, rewrite, hpieces, List.flatMap_map, Text.singleQuoted_flatMap,
    Text.singleQuoted_flatMap]
  refine List.flatMap_congr fun p _ => ?_
  cases p with
  | char c => exact Text.singleQuoted_singleQuoted [c]
  | item a => exact hwrite a

end IgnoresQuotes
end Reader

/-! ## Attributes -/

namespace Attribute

/-- None of the names that the form stands for is like a text with a quote. -/
def NameForm.IsQuoteless : NameForm → Prop
  | exactly name => Attribute.IsQuoteless name
  | aria => True

theorem sameLetter_eq_false_of_isQuote {w c : Char} (hw : isQuote (fold w) = false)
    (hc : isQuote c = true) : sameLetter w c = false := by
  refine beq_eq_false_iff_ne.2 fun heq => ?_
  rw [heq, fold_of_isQuote hc, hc] at hw
  exact Bool.noConfusion hw

theorem readWord?_singleQuoted {word : Text} (h : IsQuoteless word) (t : Text) :
    Text.readWord? sameLetter word t.singleQuoted =
      (Text.readWord? sameLetter word t).map fun r => (r.1, r.2.singleQuoted) :=
  Text.readWord?_singleQuoted (fun w hw _ hc => sameLetter_eq_false_of_isQuote (h w hw) hc) t

/-- A value holds no quote, so it is read as it stands. -/
theorem readValue?_singleQuoted (t : Text) :
    readValue? t.singleQuoted = (readValue? t).map fun r => (r.1, r.2.singleQuoted) := by
  have hpred : ∀ c, (!isQuote (singleQuote c)) = !isQuote c := fun c => by
    rw [isQuote_singleQuote]
  have hvalue : Text.singleQuoted (t.takeWhile (!isQuote ·)) = t.takeWhile (!isQuote ·) := by
    refine Text.singleQuoted_of_isUnquoted fun c hc => ?_
    have hnot := List.mem_takeWhile_imp hc
    simpa using hnot
  rw [readValue?, readValue?, Text.dropWhile_singleQuoted hpred, Text.takeWhile_singleQuoted hpred,
    hvalue]
  cases t.dropWhile (!isQuote ·) with
  | nil => rfl
  | cons c u => rfl

theorem readAssignment?_singleQuoted (t : Text) :
    readAssignment? t.singleQuoted =
      (readAssignment? t).map fun r => (r.1, r.2.singleQuoted) := by
  have hnot : ∀ {c : Char}, c ≠ '=' → singleQuote c ≠ '=' := fun hc heq =>
    hc ((singleQuote_eq_iff (by decide)).1 heq)
  unfold readAssignment?
  rw [Text.trimLeft_singleQuoted]
  cases Text.trimLeft t with
  | nil => rfl
  | cons c u =>
    by_cases hc : c = '='
    · subst hc
      have hequals : singleQuote '=' = '=' := by decide
      simp only [Text.singleQuoted_cons, hequals, Text.trimLeft_singleQuoted]
      cases Text.trimLeft u with
      | nil => rfl
      | cons q v =>
        show (if isQuote (singleQuote q) then readValue? (Text.singleQuoted v) else none) =
          (if isQuote q then readValue? v else none).map _
        rw [isQuote_singleQuote, readValue?_singleQuoted]
        split <;> rfl
    · split
      · next heq => exact absurd (List.cons.inj heq).1 (hnot hc)
      · split
        · next heq => exact absurd (List.cons.inj heq).1 hc
        · rfl

theorem NameForm.read?_singleQuoted {form : NameForm} (h : form.IsQuoteless) (t : Text) :
    form.read? t.singleQuoted = (form.read? t).map fun r => (r.1, r.2.singleQuoted) := by
  cases form with
  | exactly name => exact readWord?_singleQuoted h t
  | aria =>
    show (Text.readWord? sameLetter "aria-" t.singleQuoted).bind _ =
      ((Text.readWord? sameLetter "aria-" t).bind _).map _
    rw [readWord?_singleQuoted (by decide)]
    cases Text.readWord? sameLetter "aria-" t with
    | none => rfl
    | some r =>
      obtain ⟨start, rest⟩ := r
      have hname : Text.singleQuoted (rest.takeWhile isAriaNameChar) =
          rest.takeWhile isAriaNameChar := by
        refine Text.singleQuoted_of_isUnquoted fun c hc => ?_
        have hchar := List.mem_takeWhile_imp hc
        cases hq : isQuote c with
        | false => rfl
        | true =>
          rcases eq_of_isQuote hq with rfl | rfl <;> exact absurd hchar (by decide)
      simp only [Option.map_some, Option.bind_some,
        Text.takeWhile_singleQuoted isAriaNameChar_singleQuote,
        Text.dropWhile_singleQuoted isAriaNameChar_singleQuote, hname]
      split <;> rfl

theorem readAs?_singleQuoted {form : NameForm} (h : form.IsQuoteless) (t : Text) :
    readAs? form t.singleQuoted = (readAs? form t).map fun r => (r.1, r.2.singleQuoted) := by
  show (form.read? t.singleQuoted).bind _ = ((form.read? t).bind _).map _
  rw [form.read?_singleQuoted h]
  cases form.read? t with
  | none => rfl
  | some r =>
    obtain ⟨name, u⟩ := r
    show (readAssignment? u.singleQuoted).bind _ = ((readAssignment? u).bind _).map _
    rw [readAssignment?_singleQuoted]
    cases readAssignment? u with
    | none => rfl
    | some s => rfl

/-- **Attributes are read with the same names and values.** -/
theorem ignoresQuotes_reader {forms : List NameForm} (h : ∀ form ∈ forms, form.IsQuoteless) :
    (reader forms).IgnoresQuotes id := by
  intro before t
  show (if canStartAfter (before.map singleQuote) then
      forms.findSome? (readAs? · t.singleQuoted) else none) =
    (if canStartAfter before then forms.findSome? (readAs? · t) else none).map _
  rw [canStartAfter_singleQuote]
  split
  · exact findSome?_eq_map fun form hform => readAs?_singleQuoted (h form hform) t
  · rfl

section Named

variable {name : Text} (hname : IsQuoteless (Text.lower name))
include hname

theorem find?_singleQuoted (filled : Bool) (t : Text) :
    find? name filled t.singleQuoted = (find? name filled t).map (Found.singleQuoted id) := by
  have hreader : (reader [.exactly (Text.lower name)]).IgnoresQuotes id :=
    ignoresQuotes_reader fun form hform => by
      rw [List.mem_singleton.1 hform]
      exact hname
  exact (hreader.filter fun _ => rfl).find?_eq none t

theorem value?_singleQuoted (t : Text) : value? name t.singleQuoted = value? name t := by
  rw [value?, value?, find?_singleQuoted hname, Option.map_map]
  rfl

theorem filledValue?_singleQuoted (t : Text) :
    filledValue? name t.singleQuoted = filledValue? name t := by
  rw [filledValue?, filledValue?, find?_singleQuoted hname, Option.map_map]
  rfl

theorem has_singleQuoted (t : Text) : has name t.singleQuoted = has name t := by
  rw [has, has, value?_singleQuoted hname]

theorem hasFilled_singleQuoted (t : Text) : hasFilled name t.singleQuoted = hasFilled name t := by
  rw [hasFilled, hasFilled, filledValue?_singleQuoted hname]

end Named

theorem firstOf?_singleQuoted {names : List Text} (h : ∀ name ∈ names, IsQuoteless name)
    (t : Text) : firstOf? names t.singleQuoted = firstOf? names t := by
  have hforms : ∀ form ∈ names.map NameForm.exactly, form.IsQuoteless := by
    intro form hform
    obtain ⟨name, hname, rfl⟩ := List.mem_map.1 hform
    exact h name hname
  have hfind := (ignoresQuotes_reader hforms).find?_eq none t
  rw [Option.map_none] at hfind
  rw [firstOf?, firstOf?, hfind, Option.map_map]
  rfl

@[simp] theorem ariaAttributes_singleQuoted (t : Text) :
    ariaAttributes t.singleQuoted = ariaAttributes t := by
  have hreader : (reader [.aria]).IgnoresQuotes id := ignoresQuotes_reader fun form hform => by
    rw [List.mem_singleton.1 hform]
    trivial
  rw [ariaAttributes, ariaAttributes, hreader.items_eq, List.map_id]

@[simp] theorem role?_singleQuoted (t : Text) : role? t.singleQuoted = role? t := by
  rw [role?, role?, filledValue?_singleQuoted (by decide)]

/-- An assignment that is judged without regard to the kind of quotes stays one. -/
theorem isAssigned_singleQuoted {names : List Text} (h : ∀ name ∈ names, IsQuoteless name)
    {accepts : Text → Bool} (haccepts : ∀ t : Text, accepts t.singleQuoted = accepts t) (t : Text) :
    isAssigned names accepts t.singleQuoted = isAssigned names accepts t := by
  have hstarts : ∀ t : Text,
      startsAssigned names accepts t.singleQuoted = startsAssigned names accepts t := by
    intro t
    unfold startsAssigned
    rw [Bool.eq_iff_iff, List.any_eq_true, List.any_eq_true]
    refine exists_congr fun name => and_congr_right fun hname => ?_
    rw [readWord?_singleQuoted (h name hname)]
    cases Text.readWord? sameLetter name t with
    | none => rfl
    | some r =>
      obtain ⟨n, u⟩ := r
      simp only [Option.map_some, Text.trimLeft_singleQuoted]
      cases Text.trimLeft u with
      | nil => rfl
      | cons c v =>
        rw [Text.singleQuoted_cons]
        by_cases hc : c = '='
        · subst hc
          show accepts (Text.trimLeft (Text.singleQuoted v)) = true ↔
            accepts (Text.trimLeft v) = true
          rw [Text.trimLeft_singleQuoted, haccepts]
        · have hc' : singleQuote c ≠ '=' := fun heq =>
            hc ((singleQuote_eq_iff (by decide)).1 heq)
          split
          · next heq => exact absurd (List.cons.inj heq).1 hc'
          · split
            · next heq => exact absurd (List.cons.inj heq).1 hc
            · rfl
  have hafter : ∀ before, isAssignedAfter names accepts (before.map singleQuote) t.singleQuoted =
      isAssignedAfter names accepts before t := by
    induction t with
    | nil => exact fun _ => rfl
    | cons c t ih =>
      intro before
      rw [Text.singleQuoted_cons, isAssignedAfter, isAssignedAfter, canStartAfter_singleQuote,
        ← Text.singleQuoted_cons, hstarts]
      exact congrArg (_ || ·) (ih (some c))
  exact hafter none

end Attribute

/-- The role that an element carries without being told does not depend on the kind of quotes. -/
theorem Role.implicit?_singleQuoted (element attrs : Text) :
    implicit? element attrs.singleQuoted = implicit? element attrs := by
  rw [implicit?, implicit?, Attribute.hasFilled_singleQuoted (by decide),
    Attribute.filledValue?_singleQuoted (by decide)]

end AriaLint
