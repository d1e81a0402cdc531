import AriaLint.Proofs.Attribute.Entries

/-!
# Reading what has been written

Attribute text can be written from a list: each attribute behind blanks, either its bare name, or
its name with an equals sign, blanks around the sign, and a value between quotes (`IsWritten`).  The
readers do not take the text apart in that way.  They try every place at which a name can start.

Still they give the list back (`read_of_written`).  The value of a name is that of the first
attribute of that name which has a value, and the ARIA attributes are those whose whole names are of
the family, in their order.  A name inside of another name is not read, since no name starts where
another one is running.  A name inside of a value is not read either: the quote that closes this
value would have to open one, and that takes an equals sign at the end of the value.
-/

namespace AriaLint
namespace Attribute

/-! ## Attribute text from a list -/

/-- The text is the list as attributes are written.  A bare attribute has no value. -/
inductive IsWritten : List (Text × Option Text) → Text → Prop
  | nil : IsWritten [] []
  | bare {gap name t : Text} {as : List (Text × Option Text)} (separated : gap ≠ [])
      (blank : Text.IsBlankText gap) (named : IsEntryName name) (rest : IsWritten as t) :
      IsWritten ((name, none) :: as) (gap ++ (name ++ t))
  | quoted {gap r t : Text} {a : Attribute} {as : List (Text × Option Text)} (separated : gap ≠ [])
      (blank : Text.IsBlankText gap) (named : IsEntryName a.name) (spelled : a.IsSpelledBy r)
      (settled : IsSettled a.value) (rest : IsWritten as t) :
      IsWritten ((a.name, some a.value) :: as) (gap ++ (r ++ t))

/-- The attributes of a list that have a value. -/
def quotedOf (as : List (Text × Option Text)) : List Attribute :=
  as.filterMap fun a => a.2.map (Attribute.mk a.1)

/-- The character can stand behind `aria-`, in either case. -/
def isAriaEnding (c : Char) : Bool := c.isAlphanum || c == '_' || c == '-'

/-- The whole name is `aria-` with something behind it, in either case. -/
def isAriaName (n : Text) : Bool :=
  SameName "aria-" (n.take 5) ∧ n.drop 5 ≠ [] ∧ (n.drop 5).all isAriaEnding = true

/-! ## Names -/

namespace IsEntryName

variable {n m : Text}

theorem isProper_lower (h : IsEntryName n) : (NameForm.exactly (Text.lower n)).IsProper := by
  rw [lower_eq_map h.toNat_lt]
  refine ⟨mt List.map_eq_nil_iff.1 h.1, fun c hc => ?_⟩
  obtain ⟨d, hd, rfl⟩ := List.mem_map.1 hc
  exact forall_entryChar (P := fun c => isNamePart (fold c.toLower) = true) (by decide) (h.2 d hd)

/-- Names are told apart by the reader as they are up to the case of their letters. -/
theorem names_exactly_iff (h : IsEntryName n) (hm : IsEntryName m) :
    (NameForm.exactly (Text.lower n)).Names m ↔ SameName n m :=
  Closing.forall₂_sameLetter_lower_iff h.toNat_lt hm.toNat_lt

/-- A name is of the family when its letters are, up to their case. -/
theorem names_aria_iff (h : IsEntryName n) : NameForm.aria.Names n ↔ isAriaName n = true := by
  have hstart : ∀ {start : Text}, (∀ c ∈ start, c.toNat < 128) →
      (List.Forall₂ (fun w c => sameLetter w c = true) "aria-" start ↔ SameName "aria-" start) := by
    intro start hascii
    have hiff := @Closing.forall₂_sameLetter_lower_iff "aria-" start (by decide) hascii
    rwa [show Text.lower "aria-" = "aria-" by decide] at hiff
  have hending : ∀ c ∈ n, isAriaNameChar c = true ↔ isAriaEnding c = true := fun c hc =>
    forall_entryChar (P := fun c => isAriaNameChar c = true ↔ isAriaEnding c = true) (by decide)
      (h.2 c hc)
  simp only [isAriaName, decide_eq_true_eq, List.all_eq_true]
  constructor
  · rintro ⟨start, ending, rfl, hlike, hne, hchars⟩
    have hfive : start.length = 5 := hlike.length_eq.symm
    rw [List.take_left' hfive, List.drop_left' hfive]
    exact ⟨(hstart fun c hc => h.toNat_lt c (by simp [hc])).1 hlike, hne,
      fun c hc => (hending c (by simp [hc])).1 (hchars c hc)⟩
  · rintro ⟨hlike, hne, hchars⟩
    have hsplit := List.take_append_drop 5 n
    exact ⟨n.take 5, n.drop 5, hsplit.symm,
      (hstart fun c hc => h.toNat_lt c (List.mem_of_mem_take hc)).2 hlike, hne,
      fun c hc => (hending c (List.mem_of_mem_drop hc)).2 (hchars c hc)⟩

end IsEntryName

/-! ## One attribute -/

section One

variable {forms : List NameForm} (hforms : ∀ form ∈ forms, form.IsProper) (keep : Attribute → Bool)

/-- A name can start behind blanks. -/
theorem canStartAfter_of_isBlankText {w : Text} (hw : Text.IsBlankText w) (hne : w ≠ [])
    (before : Option Char) : canStartAfter (Reader.beforeAt before w) = true := by
  obtain ⟨i, l, rfl⟩ := (List.eq_nil_or_concat w).resolve_left hne
  have hdelimits : delimitsName l = true := delimitsName_of_isBlank (hw l (by simp))
  have hword : isWord l = false := isWord_eq_false hdelimits
  have hname : l ≠ ':' ∧ l ≠ '-' := by
    constructor
    · rintro rfl
      exact absurd hdelimits (by decide)
    · rintro rfl
      exact absurd hdelimits (by decide)
  rw [List.concat_eq_append, Reader.beforeAt_concat]
  simp [canStartAfter, continuesName, hword, hname]

include hforms in
/-- **A bare attribute is passed over.** -/
theorem itemsAfter_unquoted_append {x z : Text} (hx : IsUnquoted x) (hz : opensAnew z = true)
    (before : Option Char) :
    ((reader forms).filter keep).itemsAfter before (x ++ z) =
      ((reader forms).filter keep).itemsAfter none z := by
  have hends := (endsAt_reader hforms).filter keep
  have hclosed : endsOpen x = false := endsOpen_append_of_isUnquoted [] hx
  have hseam : ((reader forms).filter keep).IsSeam before x z :=
    (isSeam hforms hclosed (Or.inr hz)).filter keep
  have hnone : ((reader forms).filter keep).itemsAfter before x = [] := by
    rw [← List.head?_eq_none_iff, Reader.head?_itemsAfter]
    refine hends.first?_eq_none ?_ before
    rw [hx.countP_eq_zero]
    decide
  rw [hseam.itemsAfter_append hends, hnone, List.nil_append]
  exact itemsAfter_of_opensAnew hforms keep hz _ _

include hforms in
/-- **An attribute with a value is read**, and nothing else, when its name is looked for and the
attribute is to be kept. -/
theorem itemsAfter_spelled {w r : Text} {m : Attribute} (hw : Text.IsBlankText w) (hne : w ≠ [])
    (hm : IsNameText m.name) (hgoes : ∀ c ∈ m.name, Attribute.continuesName c = true)
    (hr : m.IsSpelledBy r) (hnames : ∃ form ∈ forms, form.Names m.name) (hkeep : keep m = true)
    (before : Option Char) : ((reader forms).filter keep).itemsAfter before (w ++ r) = [m] := by
  have hblanks : ∀ c ∈ w, ∀ before t,
      ((reader forms).filter keep).read? before (c :: t) = none := by
    intro c hc before t
    show ((reader forms).read? before (c :: t)).filter _ = none
    rw [read?_eq_none_of_not_isNamePart hforms (isNamePart_of_isBlank (hw c hc))]
    rfl
  -- something is read behind the blanks, and it can be nothing but the attribute
  obtain ⟨⟨c, rest⟩, hread⟩ :
      ∃ x, (reader forms).read? (Reader.beforeAt before w) r = some x := by
    obtain ⟨form, hform, hlike⟩ := hnames
    obtain ⟨k, q, rfl, hq, hk⟩ := hr
    have hone : readAs? form (m.name ++ (k ++ [q])) = some (m, []) :=
      readAs?_iff.2 ⟨hlike, k, q, rfl, hq, hk⟩
    rw [reader_read?, if_pos (canStartAfter_of_isBlankText hw hne before),
      ← Option.isSome_iff_exists, List.findSome?_isSome_iff]
    exact ⟨form, hform, by rw [hone]; rfl⟩
  obtain ⟨rfl, -, rfl⟩ := eq_of_read?_spelled hforms hw hm hgoes hr rfl hread
  have hkept : ((reader forms).filter keep).read? (Reader.beforeAt before w) r = some (c, []) := by
    show ((reader forms).read? (Reader.beforeAt before w) r).filter _ = _
    rw [hread]
    exact Option.filter_some_pos hkeep
  rw [Reader.itemsAfter_append_of_not_read hblanks, Reader.itemsAfter_of_read hkept]
  simp [Reader.itemsAfter]

end One

/-! ## The list -/

/-- Written attributes open anew. -/
theorem opensAnew_of_written {as : List (Text × Option Text)} {t : Text} (h : IsWritten as t) :
    opensAnew t = true := by
  cases h with
  | nil => rfl
  | bare hne hblank hname _ => exact opensAnew_named hblank hne hname.isNameText _
  | quoted hne hblank hname hr _ _ => exact opensAnew_spelled hblank hne hname.isNameText hr _

/-- **What a reader finds in written attributes**: those with a value whose names it looks for and
which are to be kept, in their order. -/
theorem itemsAfter_of_written {forms : List NameForm} (hforms : ∀ form ∈ forms, form.IsProper)
    (keep : Attribute → Bool) {looksFor : Text → Bool}
    (hlooks : ∀ n, IsEntryName n → (looksFor n = true ↔ ∃ form ∈ forms, form.Names n))
    {as : List (Text × Option Text)} {t : Text} (h : IsWritten as t) (before : Option Char) :
    ((reader forms).filter keep).itemsAfter before t =
      (quotedOf as).filter fun a => looksFor a.name && keep a := by
  induction h generalizing before with
  | nil => simp [Reader.itemsAfter, quotedOf]
  | @bare gap name t as hne hblank hname ht ih =>
    have hunquoted : IsUnquoted (gap ++ name) := by
      intro c hc
      rcases List.mem_append.1 hc with hc | hc
      · exact isQuote_of_isBlank (hblank c hc)
      · exact isUnquoted_of_isNameText hname.isNameText c hc
    rw [← List.append_assoc,
      itemsAfter_unquoted_append hforms keep hunquoted (opensAnew_of_written ht), ih]
    rfl
  | @quoted gap r t a as hne hblank hname hr hvalue ht ih =>
    have hself : ((reader forms).filter keep).itemsAfter before (gap ++ r) =
        if looksFor a.name && keep a then [a] else [] := by
      split
      · next hfound =>
        obtain ⟨hlike, hkeep⟩ := Bool.and_eq_true_iff.1 hfound
        exact itemsAfter_spelled hforms keep hblank hne hname.isNameText hname.continuesName hr
          ((hlooks _ hname).1 hlike) hkeep before
      · next hmissed =>
        refine List.eq_nil_iff_forall_not_mem.2 fun c hc => hmissed ?_
        obtain ⟨-, hnames, hkeep⟩ := eq_of_mem_itemsAfter_spelled hforms keep hblank
          hname.isNameText hname.continuesName hr hc
        rw [(hlooks _ hname).2 hnames, hkeep]
        rfl
    rw [itemsAfter_append_spelled hforms keep hr hvalue, hself, ih]
    show _ = (a :: quotedOf as).filter _
    rw [List.filter_cons]
    split
    · rfl
    · rfl

/-- The first attribute of a name in written attributes. -/
theorem find?_of_written {as : List (Text × Option Text)} {t name : Text} (h : IsWritten as t)
    (hname : IsEntryName name) (filled : Bool) :
    (find? name filled t).map (·.item.value) =
      ((quotedOf as).find? fun a => SameName name a.name ∧ (filled = true → a.value ≠ [])).map
        Attribute.value := by
  have hforms : ∀ form ∈ [NameForm.exactly (Text.lower name)], form.IsProper := by
    simpa using hname.isProper_lower
  have hlooks : ∀ n, IsEntryName n → (decide (SameName name n) = true ↔
      ∃ form ∈ [NameForm.exactly (Text.lower name)], form.Names n) := by
    intro n hn
    simp [hname.names_exactly_iff hn]
  have hfirst : ((named name filled).first? none t) =
      (quotedOf as).find? fun a => SameName name a.name ∧ (filled = true → a.value ≠ []) := by
    rw [← Reader.head?_itemsAfter]
    show (((reader _).filter _).itemsAfter none t).head? = _
    rw [itemsAfter_of_written hforms _ hlooks h, List.head?_filter]
    refine congrArg (List.find? · _) (funext fun a => ?_)
    cases filled with
    | false => simp
    | true => simp
  rw [← hfirst, Reader.first?, Option.map_map]
  rfl

theorem isEntryName_of_mem_quotedOf {as : List (Text × Option Text)} {t : Text}
    (h : IsWritten as t) : ∀ a ∈ quotedOf as, IsEntryName a.name := by
  induction h with
  | nil => simp [quotedOf]
  | bare _ _ _ _ ih => exact ih
  | quoted _ _ hname _ _ _ ih => exact List.forall_mem_cons.2 ⟨hname, ih⟩

/-- The ARIA attributes of written attributes. -/
theorem ariaAttributes_of_written {as : List (Text × Option Text)} {t : Text}
    (h : IsWritten as t) :
    ariaAttributes t = ((quotedOf as).filter fun a => isAriaName a.name).map
      fun a => { a with name := a.name.map Char.toLower } := by
  have hlooks : ∀ n, IsEntryName n →
      (isAriaName n = true ↔ ∃ form ∈ [NameForm.aria], form.Names n) := by
    intro n hn
    simp [hn.names_aria_iff]
  have hitems : (reader [.aria]).items t = (quotedOf as).filter fun a => isAriaName a.name := by
    have hkept := itemsAfter_of_written (by simp [NameForm.IsProper]) (fun _ => true) hlooks h none
    rw [Reader.filter_true] at hkept
    refine Eq.trans hkept (List.filter_congr fun a _ => ?_)
    exact Bool.and_true _
  rw [ariaAttributes, hitems]
  refine List.map_congr_left fun a ha => ?_
  have hname := isEntryName_of_mem_quotedOf h a (List.mem_of_mem_filter ha)
  rw [lower_eq_map hname.toNat_lt]

/-- **Reading gives back what has been written.**  The value of a name is that of the first attribute
with a value, or with a value that is not empty, whose name is the same up to the case of its letters;
and the ARIA attributes are those with a value whose whole names are of the family, in their order and
with their names in lower case. -/
theorem read_of_written {as : List (Text × Option Text)} {t : Text} (h : IsWritten as t) :
    (∀ name, IsEntryName name →
        value? name t = ((quotedOf as).find? fun a => SameName name a.name).map Attribute.value ∧
        filledValue? name t =
          ((quotedOf as).find? fun a => SameName name a.name ∧ a.value ≠ []).map Attribute.value) ∧
      ariaAttributes t = ((quotedOf as).filter fun a => isAriaName a.name).map
        fun a => { a with name := a.name.map Char.toLower } := by
  refine ⟨fun name hname => ⟨?_, ?_⟩, ariaAttributes_of_written h⟩
  · have hvalue := find?_of_written h hname false
    simpa [value?] using hvalue
  · have hvalue := find?_of_written h hname true
    simpa [filledValue?] using hvalue

/-- A name at the end of another one and a name inside of a value are not read. -/
theorem read_of_written_nested :
    let t : Text := " hidden data-role = 'aria-busy=x'\tROLE=\"tab\" ARIA-Busy=''"
    value? "role" t = some "tab" ∧ filledValue? "aria-busy" t = none ∧
      ariaAttributes t = [⟨"aria-busy", ""⟩] := by
  intro t
  have hwritten : IsWritten [("hidden", none), ("data-role", some "aria-busy=x"),
      ("ROLE", some "tab"), ("ARIA-Busy", some "")] t := by
    have hbusy := @IsWritten.quoted " " "ARIA-Busy=''" [] ⟨"ARIA-Busy", ""⟩ [] (by decide) (by decide)
      (by decide) ⟨"='", '\x27', rfl, rfl, [], [], '\x27', rfl, by decide, by decide, rfl, by decide⟩
      (by decide) .nil
    have hrole := @IsWritten.quoted "\t" "ROLE=\"tab\"" _ ⟨"ROLE", "tab"⟩ _ (by decide) (by decide)
      (by decide) ⟨"=\"tab", '"', rfl, rfl, [], [], '"', rfl, by decide, by decide, rfl, by decide⟩
      (by decide) hbusy
    have hdata := @IsWritten.quoted " " "data-role = 'aria-busy=x'" _ ⟨"data-role", "aria-busy=x"⟩ _
      (by decide) (by decide) (by decide)
      ⟨" = 'aria-busy=x", '\x27', rfl, rfl, " ", " ", '\x27', rfl, by decide, by decide, rfl,
        by decide⟩ (by decide) hrole
    exact @IsWritten.bare " " "hidden" _ _ (by decide) (by decide) (by decide) hdata
  obtain ⟨hvalues, haria⟩ := read_of_written hwritten
  exact ⟨(hvalues "role" (by decide)).1.trans (by decide),
    (hvalues "aria-busy" (by decide)).2.trans (by decide), haria.trans (by decide)⟩

end Attribute
end AriaLint
