import AriaLint.Proofs.Document.Elements
import AriaLint.Proofs.Document.Tablists
import AriaLint.Proofs.Fix.FirstClose

/-!
# The two ways to end a container, compared

A container of tabs ends at its own closing tag, or at the first one of its name behind a tab.  Even
where no element holds another one of its name, the two ways do not come to the same.

* An element without tabs, or one that closes itself, is a container of the second kind when a tab
  and a closing tag of its name follow anywhere behind it (`strays`).
* A container of the second kind that has a role is passed over with all its content, while one of
  the first kind may leave its tabs to a container inside (`innerTablists`).

There is nothing else.  As long as no stray container has a role, the two ways give the same result
if and only if there are no stray containers and no inner tablists
(`addTablists_eq_iff`).

Both directions are an induction on the document with the text behind it free.  An element with tabs
is found as a container of the second kind, with its own closing tag at the end
(`Container.read?_element`): a closing tag of its name inside of it would belong to an element of
that name.
-/

namespace AriaLint

open AriaLint.Fix

/-! ## Closing tags up to lower case -/

namespace Closing

section Small

variable {raw : Text} (hraw : ∀ c ∈ raw, isPlain c = true)

include hraw

/-- A name with like small letters is a name with like letters, also when it is given in lower
case. -/
theorem forall₂_sameLetter_of_sameSmall {n : Text}
    (h : List.Forall₂ (fun w c => sameSmall w c = true) raw n) :
    List.Forall₂ (fun w c => sameLetter w c = true) (Text.lower raw) n := by
  have hascii : ∀ c ∈ raw, c.toNat < 128 := fun c hc => toNat_lt_of_isPlain (hraw c hc)
  rw [lower_eq_map hascii, List.forall₂_map_left_iff]
  induction h with
  | nil => exact List.Forall₂.nil
  | @cons w c raw n hwc _ ih =>
    have hw := hascii w List.mem_cons_self
    have hlike : fold w.toLower = fold w := by
      have hlow := toNat_lt_of_toLower_eq hw (toLower_toLower hw).symm
      rw [fold_of_ascii hlow, fold_of_ascii hw, toLower_toLower hw]
    refine List.Forall₂.cons ?_ (ih (fun d hd => hraw d (List.mem_cons_of_mem w hd))
      fun d hd => hascii d (List.mem_cons_of_mem w hd))
    have hletter := sameLetter_of_sameSmall hwc
    unfold sameLetter at hletter ⊢
    rwa [hlike]

theorem read?_sameLetter_of_sameSmall {t rest : Text} (h : read? sameSmall raw t = some rest) :
    read? sameLetter (Text.lower raw) t = some rest := by
  obtain ⟨n, b, rfl, hlike, hb⟩ := read?_eq_some_iff.1 h
  exact read?_eq_some_iff.2 ⟨n, b, rfl, forall₂_sameLetter_of_sameSmall hraw hlike, hb⟩

/-- The closing tag of an element is one for its name. -/
theorem read?_sameSmall_ownClosingTag {close gap : Text} (hsame : SameName raw close)
    (hgap : Text.IsBlankText gap) (rest : Text) :
    read? sameSmall raw (closingTag close gap ++ rest) = some rest := by
  refine read?_eq_some_iff.2 ⟨close, gap, closingTag_append close gap rest, ?_, hgap⟩
  have hlower : ∀ n < 128, lowerChar (Char.ofNat n) = (Char.ofNat n).toLower := by decide
  have hascii : ∀ {c : Char}, c.toNat < 128 → lowerChar c = c.toLower := fun hc =>
    forall_ascii (P := fun c => lowerChar c = c.toLower) hlower hc
  induction hsame with
  | nil => exact List.Forall₂.nil
  | @cons c d raw close hcd _ ih =>
    have hc := toNat_lt_of_isPlain (hraw c List.mem_cons_self)
    refine List.Forall₂.cons ?_ (ih fun e he => hraw e (List.mem_cons_of_mem c he))
    rw [sameSmall, hascii hc, hascii (toNat_lt_of_toLower_eq hc hcd), hcd]
    exact beq_self_eq_true _

omit hraw in
/-- Where a search passes over a text, there is no closing tag at any place of it. -/
theorem PassesOver.read?_eq_none {name x y : Text} {c : Char} (h : PassesOver name (x ++ c :: y))
    (t : Text) : read? sameLetter name (c :: (y ++ t)) = none := by
  rw [Option.eq_none_iff_forall_ne_some]
  intro rest hread
  have hfound : ((reader sameLetter name).read? (Reader.beforeAt none x)
      (c :: (y ++ t))).isSome = true := by
    show ((read? sameLetter name (c :: (y ++ t))).map _).isSome = true
    rw [hread]
    rfl
  obtain ⟨f, hf, hle⟩ := Reader.exists_find?_append hfound
  have hpass := h none t
  rw [List.append_assoc, List.cons_append, hf] at hpass
  obtain ⟨g, -, rfl⟩ := Option.map_eq_some_iff.1 hpass.symm
  simp only [List.length_append, List.length_cons] at hle
  omega

/-- **The first closing tag behind any place of the content** is the element's own, when the content
holds no element of that name. -/
theorem find?_sameSmall {close gap : Text} (hsame : SameName raw close)
    (hgap : Text.IsBlankText gap) {content : Document} (hnone : ¬ content.HasElement raw)
    {x y : Text} (hsplit : content.write = x ++ y) (rest : Text) :
    (reader sameSmall raw).find? none (y ++ (closingTag close gap ++ rest)) =
      some ⟨y, (), rest⟩ := by
  have hpass := passesOver_write hraw hnone
  have hown : (reader sameSmall raw).find? (Reader.beforeAt none y)
      (closingTag close gap ++ rest) = some ⟨[], (), rest⟩ := by
    refine Reader.find?_of_read ?_
    show (read? sameSmall raw (closingTag close gap ++ rest)).map _ = _
    rw [read?_sameSmall_ownClosingTag hraw hsame hgap, Option.map_some]
  rw [Reader.find?_append_of_forall, hown, Option.map_some, List.append_nil]
  intro u c v huv
  rw [hsplit, huv, ← List.append_assoc] at hpass
  have hnot := hpass.read?_eq_none (closingTag close gap ++ rest)
  show (read? sameSmall raw (c :: (v ++ (closingTag close gap ++ rest)))).map _ = none
  cases hread : read? sameSmall raw (c :: (v ++ (closingTag close gap ++ rest))) with
  | none => rfl
  | some r =>
    rw [read?_sameLetter_of_sameSmall hraw hread] at hnot
    exact absurd hnot (by simp)

end Small
end Closing

/-! ## Containers in documents -/

namespace Fix

/-- The name of a plain tag is the first of its cuts. -/
theorem nameCuts_of_isPlain {t : Tag} (ht : t.IsPlain) (rest : Text) :
    ∃ cuts, Tag.nameCuts (t.rawName ++ (t.attrs ++ '>' :: rest)) =
      (t.rawName, t.attrs ++ '>' :: rest) :: cuts := by
  obtain ⟨-, u, hu, hname⟩ := Tag.read?_eq_some_iff.1 (ht.read?_source rest)
  rw [t.source_append] at hu
  rw [← (List.cons.inj hu).2, ← Tag.head?_nameCuts] at hname
  obtain ⟨cuts, hcuts⟩ := List.head?_eq_some_iff.1 hname
  exact ⟨cuts, hcuts⟩

/-- Nothing that stands in front of a role has a say at the head of a text. -/
theorem tabRole_find?_close (u : Text) : tabRole.find? (some '>') u = tabRole.find? none u := by
  cases u with
  | nil => rfl
  | cons c u => rfl

/-- **An element with tabs is a container that ends at its own closing tag**, when its content holds
no element of its name. -/
theorem Container.read?_element {t : Tag} (ht : t.IsPlain) {close gap : Text}
    (hsame : SameName t.rawName close) (hgap : Text.IsBlankText gap) {content : Document}
    (htab : content.hasTab = true) (hnone : ¬ content.HasElement t.rawName) (rest : Text) :
    Container.read? (t.source ++ (content.write ++ (closingTag close gap ++ rest))) =
      some (⟨t, content.write ++ closingTag close gap⟩, rest) := by
  have hafter : afterTabs? t.rawName (content.write ++ (closingTag close gap ++ rest)) =
      some rest := by
    obtain ⟨f, hf⟩ := Option.isSome_iff_exists.1 htab
    rw [← tabRole_find?_close] at hf
    obtain ⟨x, hx, -⟩ := endsAt_tabRole.find?_local hf
    unfold afterTabs?
    rw [endsAt_tabRole.find?_append hf]
    show ((Closing.reader sameSmall t.rawName).find? none
      (f.after ++ (closingTag close gap ++ rest))).bind _ = _
    rw [Closing.find?_sameSmall ht.chars hsame hgap hnone hx]
    rfl
  obtain ⟨cuts, hcuts⟩ :=
    nameCuts_of_isPlain ht (content.write ++ (closingTag close gap ++ rest))
  have hup : Text.upTo? '>' (t.attrs ++ '>' :: (content.write ++ (closingTag close gap ++ rest))) =
      some (t.attrs, content.write ++ (closingTag close gap ++ rest)) :=
    Text.upTo?_append_cons ht.closes _
  have htake : (content.write ++ (closingTag close gap ++ rest)).take
      ((content.write ++ (closingTag close gap ++ rest)).length - rest.length) =
        content.write ++ closingTag close gap := by
    rw [← List.append_assoc, List.length_append, Nat.add_sub_cancel, List.take_left]
  rw [t.source_append, read?_open, hcuts, List.findSome?_cons, ofCut?_of_upTo? hup, hafter,
    Option.map_some, htake]

/-- Where no tag starts, no container starts. -/
theorem Container.read?_eq_none_of_tag {t : Text} (h : Tag.read? t = none) :
    Container.read? t = none := by
  rw [Option.eq_none_iff_forall_ne_some]
  rintro ⟨c, rest⟩ hread
  obtain ⟨tag, htag, -⟩ := tagRead?_of_read? hread
  rw [h] at htag
  exact absurd htag (by simp)

/-! ## A walk step by step -/

/-- The result behind a stretch that has been dealt with. -/
def Result.behind (r : Result) (u : Text) (cs : List Change) : Result :=
  ⟨u ++ r.text, cs ++ r.changes⟩

theorem Result.behind_behind (r : Result) (u v : Text) (cs ds : List Change) :
    (r.behind u cs).behind v ds = r.behind (v ++ u) (ds ++ cs) := by
  simp [Result.behind]

theorem addTablistsByFirstClose_of_read {t rest : Text} {c : Container}
    (h : Container.read? t = some (c, rest)) :
    addTablistsByFirstClose t = (addTablistsByFirstClose rest).behind c.edited
      (c.edit?.map Edit.change).toList := by
  have hpieces : Container.reader.pieces none t =
      .item c :: Container.reader.pieces none rest := by
    rw [Reader.pieces_of_read Container.reader h,
      Reader.IsBlind.pieces_eq (fun _ _ _ => rfl) _ none rest]
  unfold addTablistsByFirstClose Reader.rewrite Reader.items
  rw [hpieces, List.flatMap_cons, List.filterMap_cons]
  show (⟨_, (c :: (Container.reader.pieces none rest).filterMap Piece.item?).filterMap _⟩ :
    Result) = _
  rw [List.filterMap_cons]
  cases c.edit? with
  | none => rfl
  | some e => rfl

theorem addTablistsByFirstClose_of_not_read {c : Char} {t : Text}
    (h : Container.read? (c :: t) = none) :
    addTablistsByFirstClose (c :: t) = (addTablistsByFirstClose t).behind [c] [] := by
  have hpieces : Container.reader.pieces none (c :: t) =
      .char c :: Container.reader.pieces none t := by
    rw [Reader.pieces_of_not_read Container.reader h,
      Reader.IsBlind.pieces_eq (fun _ _ _ => rfl) _ none t]
  unfold addTablistsByFirstClose Reader.rewrite Reader.items
  rw [hpieces]
  rfl

/-- Characters that open no bracket stay. -/
theorem addTablistsByFirstClose_chars {u : Text} (h : '<' ∉ u) (z : Text) :
    addTablistsByFirstClose (u ++ z) = (addTablistsByFirstClose z).behind u [] := by
  induction u with
  | nil => rfl
  | cons c u ih =>
    rw [List.mem_cons, not_or] at h
    have hnone := Container.read?_cons_of_ne (Ne.symm h.1) (u ++ z)
    rw [List.cons_append, addTablistsByFirstClose_of_not_read hnone, ih h.2,
      Result.behind_behind]
    rfl

/-- A tag that starts no container stays. -/
theorem addTablistsByFirstClose_source {t : Tag} (ht : t.IsPlain) {z : Text}
    (h : Container.read? (t.source ++ z) = none) :
    addTablistsByFirstClose (t.source ++ z) = (addTablistsByFirstClose z).behind t.source [] := by
  have hopen : '<' ∉ t.rawName ++ t.attrs ++ ['>'] := by
    simp [ht.not_mem_rawName (p := '<') (by decide), ht.opens]
  have hcons : t.source ++ z = '<' :: (t.rawName ++ t.attrs ++ ['>'] ++ z) := by
    simp [Tag.source]
  rw [hcons] at h
  rw [hcons, addTablistsByFirstClose_of_not_read h, addTablistsByFirstClose_chars hopen,
    Result.behind_behind]
  rfl

/-- A closing tag stays. -/
theorem addTablistsByFirstClose_closingTag {close gap : Text} (hclose : '<' ∉ close)
    (hgap : '<' ∉ gap) (z : Text) :
    addTablistsByFirstClose (closingTag close gap ++ z) =
      (addTablistsByFirstClose z).behind (closingTag close gap) [] := by
  have hnone : Container.read? ('<' :: ('/' :: (close ++ gap) ++ ['>'] ++ z)) = none :=
    Container.read?_eq_none_of_tag (Tag.read?_closingTag close gap z)
  show addTablistsByFirstClose ('<' :: ('/' :: (close ++ gap) ++ ['>'] ++ z)) = _
  rw [addTablistsByFirstClose_of_not_read hnone,
    addTablistsByFirstClose_chars (by simp [hclose, hgap]), Result.behind_behind]
  rfl

end Fix

/-! ## What tells the two ways apart -/

namespace Document

/-- No element holds another element of its name that does not close itself. -/
def NamesApart : Document → Prop
  | nil => True
  | text _ _ rest => rest.NamesApart
  | leaf _ _ _ rest => rest.NamesApart
  | element t _ _ _ _ _ _ content rest =>
    ¬ content.HasElement t.rawName ∧ content.NamesApart ∧ rest.NamesApart

instance decidableNamesApart : (d : Document) → Decidable d.NamesApart
  | nil => inferInstanceAs (Decidable True)
  | text _ _ rest => decidableNamesApart rest
  | leaf _ _ _ rest => decidableNamesApart rest
  | element t _ _ _ _ _ _ content rest =>
    haveI := decidableNamesApart content
    haveI := decidableNamesApart rest
    inferInstanceAs
      (Decidable (¬ content.HasElement t.rawName ∧ content.NamesApart ∧ rest.NamesApart))

/-- The containers up to a first closing tag that start at an element without tabs, or at one that
closes itself, outside of all elements with tabs; the text `z` follows the document. -/
def strays (z : Text) : Document → List Container
  | nil => []
  | text _ _ rest => rest.strays z
  | leaf t _ _ rest =>
    ((Container.read? (t.source ++ (rest.write ++ z))).map Prod.fst).toList ++ rest.strays z
  | element t _ _ close gap _ _ content rest =>
    let behind := closingTag close gap ++ (rest.write ++ z)
    (if content.hasTab then []
      else ((Container.read? (t.source ++ (content.write ++ behind))).map Prod.fst).toList ++
        content.strays behind) ++ rest.strays z

/-- The tablists that are made inside of elements, when containers end at their own closing tags. -/
def innerTablists : Document → List Tag
  | nil => []
  | text _ _ rest => rest.innerTablists
  | leaf _ _ _ rest => rest.innerTablists
  | element t _ _ _ _ _ _ content rest => content.newTablists [t] ++ rest.innerTablists

/-! ## Where nothing is made -/

/-- A document without new tablists stays. -/
theorem withTablists_of_newTablists (d : Document) {above : List Tag}
    (h : d.newTablists above = []) : d.withTablists above = d.write := by
  induction d generalizing above with
  | nil => rfl
  | text t _ rest ih => exact congrArg (t ++ ·) (ih h)
  | leaf t _ _ rest ih => exact congrArg (t.source ++ ·) (ih h)
  | element t _ _ close gap _ _ content rest ihc ihr =>
    rw [newTablists, List.append_eq_nil_iff, List.append_eq_nil_iff] at h
    obtain ⟨hnew, hcontent, hrest⟩ := h
    have hnot : becomesTablist above t content = false := by
      cases hb : becomesTablist above t content with
      | false => rfl
      | true =>
        rw [hb] at hnew
        exact absurd hnew (by simp)
    rw [withTablists, hnot, if_neg Bool.false_ne_true, ihc hcontent, ihr hrest]
    rfl

/-- Where no element has tabs, no tablists are made. -/
theorem newTablists_of_tabless (d : Document) (above : List Tag) (h : d.Tabless) :
    d.newTablists above = [] := by
  induction d generalizing above with
  | nil => rfl
  | text t _ rest ih => exact ih above h
  | leaf t _ _ rest ih => exact ih above h
  | element t _ _ close gap _ _ content rest ihc ihr =>
    have hnot : becomesTablist above t content = false := by
      rw [becomesTablist, h.1, Bool.and_false, Bool.false_and]
    rw [newTablists, hnot, if_neg Bool.false_ne_true,
      ihc (t :: above) (tabless_of_hasTab h.1), ihr above h.2]
    rfl

theorem withTablists_of_tabless (d : Document) (above : List Tag) (h : d.Tabless) :
    d.withTablists above = d.write :=
  withTablists_of_newTablists d (newTablists_of_tabless d above h)

theorem innerTablists_of_tabless (d : Document) (h : d.Tabless) : d.innerTablists = [] := by
  induction d with
  | nil => rfl
  | text t _ rest ih => exact ih h
  | leaf t _ _ rest ih => exact ih h
  | element t _ _ close gap _ _ content rest _ ihr =>
    rw [innerTablists, newTablists_of_tabless content [t] (tabless_of_hasTab h.1), ihr h.2]
    rfl

/-! ## The same containers -/

/-- **An element with tabs is passed over** as one container, and becomes a tablist or not as when
it ends at its own closing tag. -/
theorem addTablistsByFirstClose_element {t : Tag} (ht : t.IsPlain) (hs : t.isSelfClosing = false)
    {close gap : Text} (hsame : SameName t.rawName close) (hgap : Text.IsBlankText gap)
    {content : Document} (htab : content.hasTab = true) (hnone : ¬ content.HasElement t.rawName)
    (z : Text) :
    addTablistsByFirstClose (t.source ++ (content.write ++ (closingTag close gap ++ z))) =
      (addTablistsByFirstClose z).behind
        ((if becomesTablist [] t content then t.asTablist else t).source ++
          (content.write ++ closingTag close gap))
        ((if becomesTablist [] t content then [t] else []).map fun t => (addTablist t).change) := by
  rw [addTablistsByFirstClose_of_read (Container.read?_element ht hsame hgap htab hnone z)]
  unfold Container.edited Container.edit? becomesTablist
  rw [htab, Bool.and_true]
  cases hrole : t.has "role" with
  | true => rfl
  | false =>
    rw [if_neg Bool.false_ne_true, Option.map_some, Option.getD_some, tag_addTablist hs]
    rfl

/-- **With neither stray containers nor inner tablists the two ways make the same tablists.** -/
theorem addTablistsByFirstClose_write (d : Document) (z : Text) (hnames : d.NamesApart)
    (hstrays : d.strays z = []) (hinner : d.innerTablists = []) :
    addTablistsByFirstClose (d.write ++ z) =
      (addTablistsByFirstClose z).behind (d.withTablists [])
        ((d.newTablists []).map fun t => (addTablist t).change) := by
  induction d generalizing z with
  | nil => rfl
  | text t ht rest ih =>
    rw [write, List.append_assoc, addTablistsByFirstClose_chars ht, ih z hnames hstrays hinner,
      Result.behind_behind]
    rfl
  | leaf t ht hs rest ih =>
    rw [strays, List.append_eq_nil_iff, Option.toList_eq_nil_iff, Option.map_eq_none_iff]
      at hstrays
    rw [write, List.append_assoc, addTablistsByFirstClose_source ht hstrays.1,
      ih z hnames hstrays.2 hinner, Result.behind_behind]
    rfl
  | element t ht hs close gap hsame hgap content rest ihc ihr =>
    obtain ⟨hnone, hcontent, hrest⟩ := hnames
    rw [innerTablists, List.append_eq_nil_iff] at hinner
    have hkept := withTablists_of_newTablists content hinner.1
    rw [write, withTablists, newTablists, hinner.1, hkept, List.append_assoc, List.append_assoc,
      List.append_assoc, List.nil_append, List.map_append]
    cases htab : content.hasTab with
    | true =>
      rw [strays, htab, if_pos rfl] at hstrays
      rw [addTablistsByFirstClose_element ht hs hsame hgap htab hnone, ihr z hrest hstrays hinner.2,
        Result.behind_behind, List.append_assoc, List.append_assoc]
    | false =>
      rw [strays, htab, if_neg Bool.false_ne_true, List.append_eq_nil_iff,
        List.append_eq_nil_iff, Option.toList_eq_nil_iff, Option.map_eq_none_iff] at hstrays
      obtain ⟨⟨hread, hinside⟩, hbehind⟩ := hstrays
      have htabless := tabless_of_hasTab htab
      have hclose : '<' ∉ close := not_mem_of_sameName ht.chars hsame (by decide)
      have hblank : '<' ∉ gap := Closing.not_mem_of_isBlankText hgap (by decide)
      have hnot : becomesTablist [] t content = false := by
        rw [becomesTablist, htab, Bool.and_false, Bool.false_and]
      rw [addTablistsByFirstClose_source ht hread,
        ihc _ hcontent hinside (innerTablists_of_tabless content htabless),
        addTablistsByFirstClose_closingTag hclose hblank, ihr z hrest hbehind hinner.2,
        newTablists_of_tabless content [] htabless,
        withTablists_of_tabless content [] htabless,
        Result.behind_behind, Result.behind_behind, Result.behind_behind, hnot]
      simp

/-! ## Other containers -/

/-- A tag and the tag as a tablist do not start the same text. -/
theorem addTablist_append_ne {t : Tag} (ht : '>' ∉ t.rawName ++ t.attrs) (x y : Text) :
    (addTablist t).tag.source ++ x ≠ t.source ++ y := by
  intro h
  obtain ⟨hraw, a, b, hattrs, hnew, -⟩ := extends_addTablist t
  have hunclosed : '>' ∉ (addTablist t).tag.rawName ++ (addTablist t).tag.attrs := by
    rw [hattrs] at ht
    rw [hraw, hnew]
    have hrole : '>' ∉ tablistRole := (isAddition_tablistRole _ rfl).unclosed
    simpa [hrole] using ht
  have hsplit : ((addTablist t).tag.rawName ++ (addTablist t).tag.attrs) ++ '>' :: x =
      (t.rawName ++ t.attrs) ++ '>' :: y := by
    rw [Tag.source_append, Tag.source_append] at h
    simpa using (List.cons.inj h).2
  have hlength := congrArg List.length (Tag.eq_of_append_close hunclosed ht hsplit).1
  rw [hraw, hnew, hattrs] at hlength
  simp only [List.length_append] at hlength
  have hpos : 0 < tablistRole.length := by decide
  omega

theorem unclosed_of_isPlain {t : Tag} (ht : t.IsPlain) : '>' ∉ t.rawName ++ t.attrs := by
  simp [ht.not_mem_rawName (p := '>') (by decide), ht.closes]

/-- Inside of elements nothing is made when the text stays. -/
theorem newTablists_of_append (d : Document) {above : List Tag} {x y : Text}
    (h : d.write ++ x = d.withTablists above ++ y) : d.newTablists above = [] := by
  induction d generalizing above x y with
  | nil => rfl
  | text t _ rest ih =>
    rw [write, withTablists, List.append_assoc, List.append_assoc] at h
    exact ih (List.append_cancel_left h)
  | leaf t _ _ rest ih =>
    rw [write, withTablists, List.append_assoc, List.append_assoc] at h
    exact ih (List.append_cancel_left h)
  | element t ht hs close gap _ _ content rest ihc ihr =>
    simp only [write, withTablists, List.append_assoc] at h
    cases hnew : becomesTablist above t content with
    | true =>
      rw [hnew, if_pos rfl, ← tag_addTablist hs] at h
      exact absurd h.symm (addTablist_append_ne (unclosed_of_isPlain ht) _ _)
    | false =>
      rw [hnew, if_neg Bool.false_ne_true] at h
      have hcontent := ihc (List.append_cancel_left h)
      have hinside := List.append_cancel_left h
      rw [withTablists_of_newTablists content hcontent] at hinside
      have hrest := ihr (List.append_cancel_left (List.append_cancel_left hinside))
      rw [newTablists, hnew, if_neg Bool.false_ne_true, hcontent, hrest]
      rfl

/-- **A tag that stays starts no container** without a role, whatever cut of its name that would
have. -/
theorem read?_eq_none_of_text {t : Tag} (ht : t.IsPlain) {z x : Text}
    (hroles : ∀ c rest, Container.read? (t.source ++ z) = some (c, rest) → c.tag.has "role" = false)
    (h : (addTablistsByFirstClose (t.source ++ z)).text = t.source ++ x) :
    Container.read? (t.source ++ z) = none ∧ (addTablistsByFirstClose z).text = x := by
  cases hread : Container.read? (t.source ++ z) with
  | none =>
    rw [addTablistsByFirstClose_source ht hread] at h
    exact ⟨rfl, List.append_cancel_left h⟩
  | some r =>
    obtain ⟨c, rest⟩ := r
    obtain ⟨tag, htag, hsource⟩ := Container.tagRead?_of_read? hread
    obtain ⟨rfl, -⟩ := Prod.mk.inj (Option.some.inj ((ht.read?_source z).symm.trans htag))
    have hunclosed : '>' ∉ c.tag.rawName ++ c.tag.attrs := by
      have hsame : t.rawName ++ t.attrs = c.tag.rawName ++ c.tag.attrs :=
        List.append_cancel_right (List.cons.inj hsource).2
      rw [← hsame]
      exact unclosed_of_isPlain ht
    have hedited : c.edited = (addTablist c.tag).tag.source ++ c.content := by
      unfold Container.edited Container.edit?
      rw [hroles c rest hread]
      rfl
    rw [addTablistsByFirstClose_of_read hread, hsource] at h
    change c.edited ++ _ = _ at h
    rw [hedited, List.append_assoc] at h
    exact absurd h (addTablist_append_ne hunclosed _ _)

/-- **When the two ways leave the same text**, there are neither stray containers nor inner
tablists. -/
theorem strays_of_text (d : Document) (z x : Text) (hnames : d.NamesApart)
    (hroles : ∀ c ∈ d.strays z, c.tag.has "role" = false)
    (h : (addTablistsByFirstClose (d.write ++ z)).text = d.withTablists [] ++ x) :
    d.strays z = [] ∧ d.innerTablists = [] := by
  induction d generalizing z x with
  | nil => exact ⟨rfl, rfl⟩
  | text t ht rest ih =>
    rw [write, withTablists, List.append_assoc, List.append_assoc,
      addTablistsByFirstClose_chars ht] at h
    exact ih z x hnames hroles (List.append_cancel_left h)
  | leaf t ht hs rest ih =>
    rw [write, withTablists, List.append_assoc, List.append_assoc] at h
    rw [strays] at hroles ⊢
    obtain ⟨hread, hrest⟩ :=
      read?_eq_none_of_text ht (fun c _ hread => hroles c (by rw [hread]; simp)) h
    rw [hread] at hroles ⊢
    exact ih z x hnames hroles hrest
  | element t ht hs close gap hsame hgap content rest ihc ihr =>
    obtain ⟨hnone, hcontent, hrest⟩ := hnames
    simp only [write, withTablists, List.append_assoc] at h
    rw [strays] at hroles ⊢
    rw [innerTablists]
    cases htab : content.hasTab with
    | true =>
      rw [addTablistsByFirstClose_element ht hs hsame hgap htab hnone] at h
      simp only [Result.behind, List.append_assoc] at h
      have hinside := List.append_cancel_left h
      have hinner := newTablists_of_append content hinside
      rw [withTablists_of_newTablists content hinner] at hinside
      rw [htab, if_pos rfl] at hroles
      have hbehind := ihr z x hrest hroles
        (List.append_cancel_left (List.append_cancel_left hinside))
      rw [if_pos rfl, hinner, hbehind.1, hbehind.2]
      exact ⟨rfl, rfl⟩
    | false =>
      have htabless := tabless_of_hasTab htab
      have hnot : becomesTablist [] t content = false := by
        rw [becomesTablist, htab, Bool.and_false, Bool.false_and]
      have hclose : '<' ∉ close := not_mem_of_sameName ht.chars hsame (by decide)
      have hblank : '<' ∉ gap := Closing.not_mem_of_isBlankText hgap (by decide)
      rw [htab, if_neg Bool.false_ne_true] at hroles
      rw [hnot, if_neg Bool.false_ne_true, withTablists_of_tabless content [t] htabless] at h
      obtain ⟨hread, hinside⟩ :=
        read?_eq_none_of_text ht (fun c _ hread => hroles c (by rw [hread]; simp)) h
      rw [hread] at hroles
      obtain ⟨hstrays, hinner⟩ := ihc (closingTag close gap ++ (rest.write ++ z)) _ hcontent
        (fun c hc => hroles c (List.mem_append_left _ hc))
        (by rw [withTablists_of_tabless content [] htabless]; exact hinside)
      rw [addTablistsByFirstClose_write content _ hcontent hstrays hinner,
        withTablists_of_tabless content [] htabless] at hinside
      have hbehind := List.append_cancel_left hinside
      rw [addTablistsByFirstClose_closingTag hclose hblank] at hbehind
      obtain ⟨hstrays', hinner'⟩ := ihr z x hrest
        (fun c hc => hroles c (List.mem_append_right _ hc)) (List.append_cancel_left hbehind)
      rw [if_neg Bool.false_ne_true, hread, hstrays, hstrays', hinner',
        newTablists_of_tabless content [t] htabless]
      exact ⟨rfl, rfl⟩

/-- **When the two ways come to the same.**  In a document in which no element holds another one of
its name, and no stray container has a role, containers may end at their own closing tags or at the
first ones of their names if and only if there are no stray containers and no inner tablists. -/
theorem addTablists_eq_iff (d : Document) (hnames : d.NamesApart)
    (hroles : ∀ c ∈ d.strays [], c.tag.has "role" = false) :
    addTablists true d.write = addTablists false d.write ↔
      d.strays [] = [] ∧ d.innerTablists = [] := by
  have hdepth : addTablists true d.write =
      ⟨d.withTablists [], (d.newTablists []).map fun t => (addTablist t).change⟩ :=
    addTablistsByDepth_write d
  have hfirst : addTablists false d.write = addTablistsByFirstClose (d.write ++ []) := by
    rw [List.append_nil]
    rfl
  rw [hdepth, hfirst]
  constructor
  · intro h
    refine strays_of_text d [] [] hnames hroles ?_
    rw [← h, List.append_nil]
  · rintro ⟨hstrays, hinner⟩
    rw [addTablistsByFirstClose_write d [] hnames hstrays hinner]
    have hend : addTablistsByFirstClose [] = ⟨[], []⟩ := by decide +kernel
    rw [hend]
    simp [Result.behind]

end Document

end AriaLint
