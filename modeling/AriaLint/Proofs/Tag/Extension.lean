import AriaLint.Proofs.Tag.Frame

/-!
# Tags with more attributes

Three of the four fixes add attributes to tags and do nothing else.  An *addition* is a text that
starts with a space and closes no bracket; it goes in front of the *tail* of a tag, the blanks and
the slash that its attribute text may end with.

Adding attributes does not change which tags there are:

    `pieces_textOf_of_extended`    the pieces of the new text are the old pieces, extended.

The name of a tag ends where it ended, since a tail and an addition both delimit it, so that the
extended tag replaces the tag (`Tag.Replaces`).
-/

namespace AriaLint
namespace Tag

/-- Attribute text that can be added to a tag. -/
structure IsAddition (add : Text) : Prop where
  space : add.head? = some ' '
  unclosed : '>' ∉ add

/-- Nothing but blanks and slashes. -/
def IsTail (y : Text) : Prop := ∀ c ∈ y, isBlank c = true ∨ c = '/'

instance (y : Text) : Decidable (IsTail y) :=
  inferInstanceAs (Decidable (∀ c ∈ y, isBlank c = true ∨ c = '/'))

theorem IsTail.delimitsName {y : Text} (h : IsTail y) {c : Char} (hc : c ∈ y) :
    delimitsName c = true := by
  rcases h c hc with hb | rfl
  · exact delimitsName_of_isBlank hb
  · exact delimitsName_slash

theorem IsTail.delimitsName_of_mem_append {y : Text} (h : IsTail y) {c : Char}
    (hc : c ∈ y ++ ['>']) : AriaLint.delimitsName c = true := by
  rcases List.mem_append.1 hc with hc | hc
  · exact h.delimitsName hc
  · rw [List.mem_singleton.1 hc]
    exact delimitsName_close

/-- A tail and a closing bracket delimit a name. -/
theorem IsTail.delimits {y : Text} (h : IsTail y) (rest : Text) : Delimits (y ++ '>' :: rest) := by
  cases y with
  | nil => exact delimits_cons delimitsName_close
  | cons c y => exact delimits_cons (h.delimitsName List.mem_cons_self)

/-- An addition delimits a name. -/
theorem IsAddition.delimits {add : Text} (h : IsAddition add) (rest : Text) :
    Delimits (add ++ rest) := by
  cases add with
  | nil => exact absurd h.space (by simp)
  | cons c add =>
    obtain rfl := Option.some.inj h.space
    exact delimits_cons (delimitsName_of_isBlank (by decide))

/-- The second tag is the first one with an addition in front of its tail, and in front of the slash
with which it closes itself. -/
def Extends (add : Text) (t u : Tag) : Prop :=
  u.rawName = t.rawName ∧
    ∃ x y, t.attrs = x ++ y ∧ u.attrs = x ++ add ++ y ∧ IsTail y ∧
      (t.isSelfClosing = true → '/' ∈ y)

/-- A piece before and after additions of a certain kind. -/
inductive Extended (A : Text → Prop) : Piece Tag → Piece Tag → Prop
  | char (c : Char) : Extended A (.char c) (.char c)
  | kept (t : Tag) : Extended A (.item t) (.item t)
  | added {t u : Tag} {add : Text} (hadd : A add) (h : Extends add t u) :
      Extended A (.item t) (.item u)

theorem Extended.refl {A : Text → Prop} (p : Piece Tag) : Extended A p p := by
  cases p with
  | char c => exact Extended.char c
  | item t => exact Extended.kept t

/-- Pieces may be extended by nothing. -/
theorem forall₂_extended_refl {A : Text → Prop} (ps : List (Piece Tag)) :
    List.Forall₂ (Extended A) ps ps :=
  List.forall₂_same.2 fun p _ => Extended.refl p

/-! ## The pieces stay -/

/-- **An extended tag is read as a whole.** -/
theorem read?_extended {t rest : Text} {tag u : Tag} {add : Text} (hadd : IsAddition add)
    (hread : read? t = some (tag, rest)) (hext : Extends add tag u) (rest' : Text) :
    read? (u.source ++ rest') = some (u, rest') := by
  obtain ⟨hclose, v, -, hname⟩ := read?_eq_some_iff.1 hread
  obtain ⟨hraw, x, y, hx, hu, htail, -⟩ := hext
  have hcut : readName? (tag.rawName ++ x) = some (tag.rawName, x) := by
    have hv : v = (tag.rawName ++ x) ++ (y ++ '>' :: rest) := by
      rw [← append_of_readName? hname, hx]
      simp
    rw [hv, readName?_append_of_delimits _ (htail.delimits rest), hx, List.append_assoc] at hname
    obtain ⟨⟨name, z⟩, hz, heq⟩ := Option.map_eq_some_iff.1 hname
    obtain ⟨rfl, hxz⟩ := Prod.mk.inj heq
    have hzx : z = x := List.append_cancel_right hxz
    rw [hz, hzx]
  refine read?_eq_some_iff.2 ⟨?_, tag.rawName ++ x ++ (add ++ (y ++ '>' :: rest')), ?_, ?_⟩
  · rw [hx, List.mem_append, not_or] at hclose
    rw [hu]
    simp [hclose, hadd.unclosed]
  · rw [source, hraw, hu]
    simp
  · rw [readName?_append_of_delimits _ (hadd.delimits _), hcut, hu, hraw]
    simp [extendCut]

/-- An extended tag can take the place of the tag. -/
theorem replaces_of_extends {t rest : Text} {tag u : Tag} {add : Text} (hadd : IsAddition add)
    (hread : read? t = some (tag, rest)) (hext : Extends add tag u) : Replaces tag u where
  reads := read?_extended hadd hread hext
  stands := by
    obtain ⟨hclose, v, -, hname⟩ := read?_eq_some_iff.1 hread
    have hraw : '>' ∉ tag.rawName := not_mem_of_readName? hname delimitsName_close
    obtain ⟨hsame, x, y, hx, hu, -⟩ := hext
    rw [hx, List.mem_append, not_or] at hclose
    have hstands : StandsFor u u.source :=
      standsFor_source (by rw [hu]; simp [hclose, hadd.unclosed]) (by rw [hsame]; exact hraw)
    refine ⟨?_, hstands.closes⟩
    rw [← hsame]
    exact hstands.opens

theorem piecewise_replaces_of_extended {A : Text → Prop} (hA : ∀ add, A add → IsAddition add)
    {ps qs : List (Piece Tag)}
    (hread : ∀ tag, .item tag ∈ ps → ∃ t rest, read? t = some (tag, rest))
    (h : List.Forall₂ (Extended A) ps qs) : List.Forall₂ (Piecewise Replaces) ps qs := by
  induction h with
  | nil => exact List.Forall₂.nil
  | @cons p q ps qs hpq _ ih =>
    refine List.Forall₂.cons ?_ (ih fun tag htag => hread tag (List.mem_cons_of_mem p htag))
    cases hpq with
    | char c => exact .char c
    | kept t =>
      obtain ⟨s, rest, ht⟩ := hread t List.mem_cons_self
      exact .item (Replaces.refl ht)
    | @added t u add hadd hext =>
      obtain ⟨s, rest, ht⟩ := hread t List.mem_cons_self
      exact .item (replaces_of_extends (hA add hadd) ht hext)

/-- An extended piece keeps its place. -/
theorem keepsPlace_of_extended {A : Text → Prop} (hA : ∀ add, A add → IsAddition add) {t : Text}
    {ps : List (Piece Tag)} (h : List.Forall₂ (Extended A) (pieces t) ps) :
    List.Forall₂ KeepsPlace (pieces t) (ps.map (Piece.write source)) :=
  keepsPlace_of_replaces
    (piecewise_replaces_of_extended hA (fun _ => exists_read?_of_mem_pieces) h)

/-- **Additions do not change which tags there are**: the pieces of the new text are the old pieces,
extended. -/
theorem pieces_textOf_of_extended {A : Text → Prop} (hA : ∀ add, A add → IsAddition add) {t : Text}
    {ps : List (Piece Tag)} (h : List.Forall₂ (Extended A) (pieces t) ps) :
    pieces (textOf ps) = ps :=
  pieces_textOf_of_replaces
    (piecewise_replaces_of_extended hA (fun _ => exists_read?_of_mem_pieces) h)

/-! ## Slashes at the end -/

/-- Whether a tag closes itself is not changed by a text in front that holds no slash. -/
theorem endsWithSlash_append {z : Text} (hz : '/' ∉ z) (attrs : Text) :
    endsWithSlash (z ++ attrs) = endsWithSlash attrs := by
  simp only [endsWithSlash, Text.trimRight, List.getLast?_reverse, List.reverse_append,
    List.dropWhile_append]
  cases h : attrs.reverse.dropWhile isBlank with
  | cons c u => simp
  | nil =>
    have hne : (z.reverse.dropWhile isBlank).head? ≠ some '/' := by
      intro hhead
      refine hz (List.mem_reverse.1 ?_)
      exact (List.dropWhile_sublist isBlank).subset (List.mem_of_head? hhead)
    simpa using hne

/-- Nor by a text in front that ends with another sign. -/
theorem endsWithSlash_append_cons_of_ne {c : Char} (hblank : isBlank c = false) (hne : c ≠ '/')
    (z attrs : Text) : endsWithSlash (z ++ c :: attrs) = endsWithSlash attrs := by
  simp only [endsWithSlash, Text.trimRight, List.getLast?_reverse, List.reverse_append,
    List.reverse_cons, List.append_assoc, List.dropWhile_append]
  cases h : attrs.reverse.dropWhile isBlank with
  | cons d u => simp
  | nil => simp [hblank, hne]

/-- A slash at the end stays there. -/
theorem endsWithSlash_append_of_endsWithSlash {attrs : Text} (h : endsWithSlash attrs = true)
    (z : Text) : endsWithSlash (z ++ attrs) = true := by
  simp only [endsWithSlash, Text.trimRight, List.getLast?_reverse, List.reverse_append,
    List.dropWhile_append] at h ⊢
  cases hdrop : attrs.reverse.dropWhile isBlank with
  | cons c u =>
    rw [hdrop] at h
    simpa using h
  | nil =>
    rw [hdrop] at h
    exact absurd h (by simp)

/-- A tail with a slash ends with it. -/
theorem IsTail.endsWithSlash {y : Text} (h : IsTail y) (hslash : '/' ∈ y) :
    Tag.endsWithSlash y = true := by
  have hsplit := List.takeWhile_append_dropWhile (p := isBlank) (l := y.reverse)
  have hhead := List.head?_dropWhile_not isBlank y.reverse
  rw [Tag.endsWithSlash, Text.trimRight, List.getLast?_reverse]
  cases hdrop : y.reverse.dropWhile isBlank with
  | nil =>
    have hblank := List.dropWhile_eq_nil_iff.1 hdrop '/' (List.mem_reverse.2 hslash)
    exact absurd hblank (by decide)
  | cons c u =>
    rw [hdrop] at hhead
    have hc : c ∈ y := by
      rw [← List.mem_reverse]
      exact (List.dropWhile_sublist isBlank).subset (by rw [hdrop]; exact List.mem_cons_self)
    obtain rfl : c = '/' := (h c hc).resolve_left fun hb => by simp [hb] at hhead
    rfl

/-- **A tag closes itself as before**, if the addition ends with neither a blank nor a slash. -/
theorem Extends.isSelfClosing_eq {t u : Tag} {add : Text} (h : Extends add t u) {c : Char}
    (hlast : add.getLast? = some c) (hblank : isBlank c = false) (hne : c ≠ '/') :
    u.isSelfClosing = t.isSelfClosing := by
  obtain ⟨-, x, y, hx, hu, htail, hslash⟩ := h
  obtain ⟨init, rfl⟩ := List.getLast?_eq_some_iff.1 hlast
  have hsplit : u.attrs = (x ++ init) ++ c :: y := by
    rw [hu]
    simp
  have hends : u.isSelfClosing = Tag.endsWithSlash y := by
    rw [isSelfClosing, hsplit, endsWithSlash_append_cons_of_ne hblank hne]
  rw [hends]
  cases hself : t.isSelfClosing with
  | true => exact htail.endsWithSlash (hslash hself)
  | false =>
    refine Bool.eq_false_iff.2 fun hy => ?_
    rw [isSelfClosing, hx, endsWithSlash_append_of_endsWithSlash hy] at hself
    exact absurd hself (by simp)

/-- A tag closes itself when its text ends with a slash, wherever its name is taken to end. -/
theorem endsWithSlash_rawName_append {t : Tag} (hname : ∀ c ∈ t.rawName, isNameChar c = true) :
    endsWithSlash (t.rawName ++ t.attrs) = t.isSelfClosing :=
  endsWithSlash_append (not_mem_of_delimitsName hname delimitsName_slash) t.attrs

/-! ## The places stay -/

/-- Two cuts of one text: what stands before the first cut stands before the second one too, unless
some of it lies in the second half. -/
theorem prefix_of_prefix_append {w x y : Text} (h : w <+: x ++ y) (hy : ∀ c ∈ y, c ∉ w) :
    w <+: x := by
  obtain ⟨s, hs⟩ := h
  rcases List.append_eq_append_iff.1 hs with ⟨z, rfl, -⟩ | ⟨z, rfl, hz⟩
  · exact ⟨z, rfl⟩
  · cases z with
    | nil => exact ⟨[], by simp⟩
    | cons c z => exact absurd (by simp) (hy c (by rw [hz]; simp))

/-- **An addition in front of a tail extends the tag**, wherever the name of the tag is taken to
end. -/
theorem exists_extends {t : Tag} (hname : ∀ c ∈ t.rawName, isNameChar c = true) {x y : Text}
    (htail : IsTail y) (hslash : endsWithSlash (x ++ y) = true → '/' ∈ y)
    (h : t.source = '<' :: x ++ y ++ ['>']) (add : Text) :
    ∃ u, Extends add t u ∧ u.source = '<' :: x ++ add ++ y ++ ['>'] := by
  have hsplit : t.rawName ++ t.attrs = x ++ y := by
    have h' : ('<' :: (t.rawName ++ t.attrs)) ++ ['>'] = ('<' :: (x ++ y)) ++ ['>'] := by
      simpa [source] using h
    exact (List.cons.inj (List.append_cancel_right h')).2
  have hprefix : t.rawName <+: x := by
    exact prefix_of_prefix_append ⟨t.attrs, hsplit⟩ fun c hc =>
      not_mem_of_delimitsName hname (htail.delimitsName hc)
  rw [← hsplit, endsWithSlash_rawName_append hname] at hslash
  obtain ⟨z, rfl⟩ := hprefix
  rw [List.append_assoc] at hsplit
  refine ⟨⟨t.rawName, z ++ add ++ y⟩, ⟨rfl, z, y, ?_, rfl, htail, hslash⟩, by simp [source]⟩
  exact List.append_cancel_left hsplit

/-- **What is added to the end of a tag** is added to the tag: there may be another tag within its
text, or its name may be taken to end before. -/
theorem Extends.behind {t c c' : Tag} {add g : Text}
    (hname : ∀ d ∈ t.rawName, isNameChar d = true) (hname' : ∀ d ∈ c.rawName, isNameChar d = true)
    (hsource : t.source = g ++ c.source) (h : Extends add c c') :
    ∃ u, Extends add t u ∧ u.source = g ++ c'.source := by
  obtain ⟨hraw, x, y, hx, hx', htail, hslash⟩ := h
  rw [← endsWithSlash_rawName_append hname', hx] at hslash
  have hc : c'.source = '<' :: c.rawName ++ x ++ add ++ y ++ ['>'] := by
    rw [source, hraw, hx']
    simp
  cases g with
  | nil =>
    have ht : t.source = '<' :: (c.rawName ++ x) ++ y ++ ['>'] := by
      rw [hsource, source, hx]
      simp
    rw [← List.append_assoc] at hslash
    obtain ⟨u, hext, hu⟩ := exists_extends hname htail hslash ht add
    exact ⟨u, hext, by rw [hu, hc]; simp⟩
  | cons d g =>
    obtain rfl : '<' = d := (List.cons.inj hsource).1
    have ht : t.source = '<' :: (g ++ '<' :: (c.rawName ++ x)) ++ y ++ ['>'] := by
      rw [hsource, source, hx]
      simp
    rw [← List.append_assoc, ← endsWithSlash_append_cons_of_ne (c := '<') (by decide) (by decide) g,
      ← List.cons_append, ← List.append_assoc] at hslash
    obtain ⟨u, hext, hu⟩ := exists_extends hname htail hslash ht add
    exact ⟨u, hext, by rw [hu, hc]; simp⟩

/-- Nothing stands behind the only closing bracket of a text. -/
theorem eq_nil_of_only_close {u w v : Text} (h : u ++ '>' :: w = v ++ ['>']) (hv : '>' ∉ v) :
    w = [] := by
  rcases List.eq_nil_or_concat w with rfl | ⟨w, c, rfl⟩
  · rfl
  · have h' : (u ++ '>' :: w) ++ [c] = v ++ ['>'] := by simpa using h
    obtain ⟨rfl, -⟩ := List.append_inj' h' rfl
    exact absurd (by simp) hv

/-- Where pieces make up a text with a single closing bracket at its end, only the last of them can
be a tag, and it is the one that is extended. -/
theorem textOf_extended {A : Text → Prop} {ps qs : List (Piece Tag)}
    (h : List.Forall₂ (Extended A) ps qs) {v : Text} (hv : textOf ps = v ++ ['>'])
    (hclose : '>' ∉ v) :
    textOf qs = textOf ps ∨ ∃ g t u add, .item t ∈ ps ∧ A add ∧ Extends add t u ∧
      textOf ps = g ++ t.source ∧ textOf qs = g ++ u.source := by
  have alone : ∀ {t : Tag} {ps : List (Piece Tag)} {v : Text},
      textOf (.item t :: ps) = v ++ ['>'] → '>' ∉ v → ps = [] := by
    intro t ps v hv hclose
    refine eq_nil_of_textOf_eq_nil
      (eq_nil_of_only_close (u := '<' :: t.rawName ++ t.attrs) ?_ hclose)
    rw [← hv]
    simp [source]
  induction h generalizing v with
  | nil => exact absurd hv (by simp)
  | @cons p q ps qs hpq hrest ih =>
    cases hpq with
    | char c =>
      rw [textOf_char] at hv
      cases v with
      | nil =>
        obtain ⟨rfl, hps⟩ := List.cons.inj hv
        obtain rfl := eq_nil_of_textOf_eq_nil hps
        cases hrest
        exact Or.inl rfl
      | cons d v =>
        obtain ⟨rfl, hps⟩ := List.cons.inj hv
        rw [List.mem_cons, not_or] at hclose
        rcases ih hps hclose.2 with heq | ⟨g, t, u, add, ht, hadd, hext, hg, hg'⟩
        · exact Or.inl (by rw [textOf_char, textOf_char, heq])
        · exact Or.inr ⟨c :: g, t, u, add, List.mem_cons_of_mem _ ht, hadd, hext, by simp [hg],
            by simp [hg']⟩
    | kept t =>
      obtain rfl := alone hv hclose
      cases hrest
      exact Or.inl rfl
    | @added t u add hadd hext =>
      obtain rfl := alone hv hclose
      cases hrest
      exact Or.inr ⟨[], t, u, add, List.mem_cons_self, hadd, hext, by simp, by simp⟩

theorem exists_pair_of_mem_right {α β : Type} {R : α → β → Prop} {l : List α} {m : List β}
    (h : List.Forall₂ R l m) {b : β} (hb : b ∈ m) : ∃ a ∈ l, (a, b) ∈ l.zip m ∧ R a b := by
  induction h with
  | nil => exact absurd hb (by simp)
  | @cons a b' l m hab _ ih =>
    rcases List.mem_cons.1 hb with rfl | hb
    · exact ⟨a, List.mem_cons_self, List.mem_cons_self, hab⟩
    · obtain ⟨a, ha, hpair, hrel⟩ := ih hb
      exact ⟨a, List.mem_cons_of_mem _ ha, List.mem_cons_of_mem _ hpair, hrel⟩

theorem exists_of_forall₂_right {α β : Type} {R : α → β → Prop} {l : List α} {m : List β}
    (h : List.Forall₂ R l m) {b : β} (hb : b ∈ m) : ∃ a ∈ l, R a b := by
  obtain ⟨a, ha, -, hab⟩ := exists_pair_of_mem_right h hb
  exact ⟨a, ha, hab⟩

theorem forall₂_append_inv {α β : Type} {R : α → β → Prop} {a b : List α} {u : List β}
    (h : List.Forall₂ R (a ++ b) u) :
    ∃ v w, u = v ++ w ∧ List.Forall₂ R a v ∧ List.Forall₂ R b w := by
  induction a generalizing u with
  | nil => exact ⟨[], u, rfl, List.Forall₂.nil, h⟩
  | cons x a ih =>
    cases h with
    | @cons _ y _ u hxy hrest =>
      obtain ⟨v, w, rfl, hv, hw⟩ := ih hrest
      exact ⟨y :: v, w, rfl, List.Forall₂.cons hxy hv, hw⟩

/-- **A character in front changes nothing**, even when it is the bracket of a tag: the text of that
tag is a text with a single closing bracket, and so the addition to it, if there is one, stands at
its end. -/
theorem exists_extended_cons {A : Text → Prop} (c : Char) {t : Text} {ps : List (Piece Tag)}
    (h : List.Forall₂ (Extended A) (pieces t) ps) :
    ∃ qs, List.Forall₂ (Extended A) (pieces (c :: t)) qs ∧ textOf qs = c :: textOf ps := by
  cases hread : read? (c :: t) with
  | none =>
    rw [pieces_of_not_read hread]
    exact ⟨.char c :: ps, List.Forall₂.cons (Extended.char c) h, rfl⟩
  | some r =>
    obtain ⟨tag, rest⟩ := r
    obtain ⟨hclose, u, hu, hcut⟩ := read?_eq_some_iff.1 hread
    obtain ⟨rfl, rfl⟩ := List.cons.inj hu
    have hsplit : t = (tag.rawName ++ tag.attrs ++ ['>']) ++ rest := by
      rw [← append_of_readName? hcut]
      simp
    have hname : '>' ∉ tag.rawName := not_mem_of_readName? hcut delimitsName_close
    rw [hsplit, pieces_append (bracketsClose_append_close _)] at h
    obtain ⟨ps₁, ps₂, rfl, h₁, h₂⟩ := forall₂_append_inv h
    rw [pieces_of_read hread]
    rcases textOf_extended h₁ (textOf_pieces _) (by simp [hname, hclose]) with
      heq | ⟨g, c, c', add, hc, hadd, hext, hg, hg'⟩
    · refine ⟨.item tag :: ps₂, List.Forall₂.cons (Extended.kept tag) h₂, ?_⟩
      rw [textOf_item, textOf_append, heq, textOf_pieces, source]
      simp
    · have hsource : tag.source = '<' :: g ++ c.source := by
        rw [textOf_pieces] at hg
        show '<' :: (tag.rawName ++ tag.attrs ++ ['>']) = '<' :: (g ++ c.source)
        rw [hg]
      obtain ⟨v, hext', hv⟩ := hext.behind (fun d hd => isNameChar_of_readName? hcut hd)
        (isNameChar_of_mem_pieces hc) hsource
      refine ⟨.item v :: ps₂, List.Forall₂.cons (Extended.added hadd hext') h₂, ?_⟩
      rw [textOf_item, textOf_append, hv, hg']
      simp

/-- **Additions keep a group in its place.** -/
theorem StandsFor.extended {A : Text → Prop} (hA : ∀ add, A add → IsAddition add) {t : Tag}
    (hname : ∀ c ∈ t.rawName, isNameChar c = true) {ps qs : List (Piece Tag)}
    (h : List.Forall₂ (Extended A) ps qs) (hps : StandsFor t (textOf ps)) :
    StandsFor t (textOf qs) := by
  obtain ⟨v, hv, hclose⟩ := hps.closes
  rcases textOf_extended h hv hclose with
    heq | ⟨g, c, c', add, -, hadd, ⟨hraw, z, y, hz, hz', htail, -⟩, hg, hg'⟩
  · rw [heq]
    exact hps
  · obtain ⟨x, hx, hx'⟩ : ∃ x, textOf ps = x ++ y ++ ['>'] ∧ textOf qs = x ++ add ++ y ++ ['>'] :=
      ⟨g ++ '<' :: c.rawName ++ z, by rw [hg, source, hz]; simp,
        by rw [hg', source, hraw, hz']; simp⟩
    have hopens : '<' :: t.rawName <+: x := by
      have h1 : '<' :: t.rawName <+: x ++ (y ++ ['>']) := by
        rw [← List.append_assoc, ← hx]
        exact hps.opens
      refine prefix_of_prefix_append h1 fun c hc hmem => ?_
      have hdel : AriaLint.delimitsName c = true := htail.delimitsName_of_mem_append hc
      rcases List.mem_cons.1 hmem with rfl | hmem
      · rcases List.mem_append.1 hc with hc | hc
        · rcases htail _ hc with hb | hs
          · exact absurd hb (by decide)
          · exact absurd hs (by decide)
        · exact absurd (List.mem_singleton.1 hc) (by decide)
      · exact not_mem_of_delimitsName hname hdel hmem
    have hxy : v = x ++ y := List.append_cancel_right (hv.symm.trans hx)
    rw [hxy, List.mem_append, not_or] at hclose
    rw [hx']
    refine ⟨?_, x ++ add ++ y, rfl, by simp [hclose, (hA add hadd).unclosed]⟩
    obtain ⟨s, hs⟩ := hopens
    exact ⟨s ++ add ++ y ++ ['>'], by rw [← hs]; simp⟩

end Tag
end AriaLint
