import AriaLint.Proofs.Fix.Additions
import AriaLint.Proofs.Fix.FirstClose
import AriaLint.Proofs.Tag.Lowered
import AriaLint.Proofs.Tag.Scan

/-!
# Whom the entries about tablists name

When containers end at the first closing tag of their name, the reader of containers looks for a
name of its own at each bracket: the longest cut behind which a tab and then a closing tag of that
cut follow.  So the name that an entry of the log tells need not be the name of a tag of the snippet.
Two things can go wrong.

* The cut is shorter than the name of the tag.  In `<div-x><b role="tab"></b></div>` the tag is named
  `div-x`, and the container `div`.
* The bracket is no bracket of a tag, but stands within the attributes of one.  In
  `<a <p><b role="tab"></b></p>` the tag is `<a <p>`, and the container `p`.

`TablistLog` tells the run along the pieces of the snippet.  Each entry stands for one edited tag of
the snippet, and behind that tag come a tab and a closing tag of the name that the entry tells.  The
entry tells the name of the tag itself *exactly when* behind the tag come a tab and a closing tag of
the tag's own name, and then only the tag's own name is looked for.

The induction is along the containers, as in `Proofs.Fix.Additions`.  Where no container starts at
the bracket of a tag, no cut of its name is closed behind a tab, and in particular not the whole
name; that is what decides the question for an entry that comes from within the tag
(`TablistLog.cons`).
-/

namespace AriaLint

/-! ## Names and their cuts -/

namespace Tag

/-- A name of word characters has no shorter cut: within it there is no word boundary. -/
theorem eq_of_mem_nameCuts {u raw rest name v : Text} (hread : readName? u = some (raw, rest))
    (hword : ∀ c ∈ raw, isWord c = true) (h : (name, v) ∈ nameCuts u) : name = raw := by
  induction u generalizing raw name with
  | nil => simp [nameCuts] at h
  | cons c u ih =>
    unfold nameCuts at h
    split at h
    · next hc =>
      rw [readName?, if_pos hc] at hread
      cases hu : readName? u with
      | none =>
        have hcuts : nameCuts u = [] := by
          rwa [← head?_nameCuts, List.head?_eq_none_iff] at hu
        rw [hu] at hread
        dsimp only at hread
        rw [hcuts] at h
        split at hread
        · next hb =>
          obtain ⟨rfl, -⟩ := Prod.mk.inj (Option.some.inj hread)
          rw [if_pos hb] at h
          exact (Prod.mk.inj (List.mem_singleton.1 h)).1
        · exact absurd hread (by simp)
      | some r =>
        obtain ⟨raw', rest'⟩ := r
        rw [hu] at hread
        obtain ⟨rfl, rfl⟩ := Prod.mk.inj (Option.some.inj hread)
        rcases List.mem_append.1 h with h | h
        · obtain ⟨⟨n, w⟩, hn, heq⟩ := List.mem_map.1 h
          obtain ⟨rfl, rfl⟩ := Prod.mk.inj heq
          rw [ih hu (fun d hd => hword d (List.mem_cons_of_mem c hd)) hn]
        · -- a boundary between two characters of the name
          have hc' : isWord c = true := hword c List.mem_cons_self
          have hhead : u.head?.any isWord = true := by
            have happ : raw' ++ rest' = u := append_of_readName? hu
            cases raw' with
            | nil =>
              rw [← head?_nameCuts] at hu
              exact absurd rfl
                (mem_nameCuts_iff.1 (List.mem_of_head? hu)).1.nonempty
            | cons d raw' =>
              rw [← happ]
              exact hword d (by simp)
          rw [if_neg (by simp [isBoundary, hc', hhead])] at h
          exact absurd h (by simp)
    · simp at h

end Tag

theorem readWord?_sameSmall_congr {a b : Text} (h : a.map lowerChar = b.map lowerChar) (t : Text) :
    Text.readWord? sameSmall a t = Text.readWord? sameSmall b t := by
  induction a generalizing b t with
  | nil =>
    obtain rfl : b = [] := by simpa using h.symm
    rfl
  | cons c a ih =>
    cases b with
    | nil => exact absurd h (by simp)
    | cons d b =>
      obtain ⟨hcd, hab⟩ := List.cons.inj h
      cases t with
      | nil => rfl
      | cons e t =>
        have halike : sameSmall c e = sameSmall d e := by rw [sameSmall, hcd]; rfl
        rw [Text.readWord?, Text.readWord?, halike, ih hab]

namespace Fix

open Tag

/-- Names with the same letters up to case close the same containers. -/
theorem afterTabs?_congr {a b : Text} (h : a.map lowerChar = b.map lowerChar) (t : Text) :
    Container.afterTabs? a t = Container.afterTabs? b t := by
  have hread : ∀ u, Closing.read? sameSmall a u = Closing.read? sameSmall b u := by
    intro u
    unfold Closing.read?
    split
    · rw [readWord?_sameSmall_congr h]
    · rfl
  have hreader : Closing.reader sameSmall a = Closing.reader sameSmall b := by
    unfold Closing.reader
    congr 1
    funext before u
    rw [hread]
  rw [Container.afterTabs?, hreader]
  rfl

/-! ## The log along the pieces of the snippet -/

/-- Behind a tag come a tab and then a closing tag of the name; `t` is what stands behind the
tag. -/
def ClosesTabs (name t : Text) : Prop := (Container.afterTabs? name t).isSome = true

/-- The tag `k` covers the tag `t` or the end of it. -/
structure CoversEnd (k t : Tag) : Prop where
  letters : ∀ c ∈ k.rawName, isNameChar c = true
  suffix : k.source <:+ t.source

/-- The pieces of a snippet, those of the text in which containers have become tablists, and the log
of that. -/
inductive TablistLog : List (Piece Tag) → List (Piece Tag) → List Change → Prop
  | nil : TablistLog [] [] []
  /-- A piece that stays and makes no entry. -/
  | kept (p : Piece Tag) {ps qs : List (Piece Tag)} {cs : List Change} (h : TablistLog ps qs cs) :
      TablistLog (p :: ps) (p :: qs) cs
  /-- A tag of the snippet that becomes a tablist, with the entry that names the container `k`. -/
  | made {t u k : Tag} {ps qs : List (Piece Tag)} {cs : List Change}
      (extends_role : Extends tablistRole t u)
      (covers : CoversEnd k t)
      (no_role : k.has "role" = false)
      (closes : ClosesTabs k.rawName (textOf ps))
      (named : k.name = t.name ↔ ClosesTabs t.rawName (textOf ps))
      (named_of_plain : '<' ∉ t.attrs → (∀ c ∈ t.rawName, isWord c = true) → k.name = t.name)
      (h : TablistLog ps qs cs) :
      TablistLog (.item t :: ps) (.item u :: qs) ((addTablist k).change :: cs)

namespace TablistLog

theorem extended {ps qs : List (Piece Tag)} {cs : List Change} (h : TablistLog ps qs cs) :
    List.Forall₂ (Extended (· = tablistRole)) ps qs := by
  induction h with
  | nil => exact List.Forall₂.nil
  | kept p _ ih => exact List.Forall₂.cons (Extended.refl p) ih
  | made hext _ _ _ _ _ _ ih => exact List.Forall₂.cons (Extended.added rfl hext) ih

theorem append_left (ps : List (Piece Tag)) {qs rs : List (Piece Tag)} {cs : List Change}
    (h : TablistLog qs rs cs) : TablistLog (ps ++ qs) (ps ++ rs) cs := by
  induction ps with
  | nil => exact h
  | cons p ps ih => exact ih.kept p

/-- Where the first pieces make up a text with a single closing bracket at its end, they stay, or
the last of them is a tag that becomes a tablist. -/
theorem append_inv {ps bs qs : List (Piece Tag)} {cs : List Change}
    (h : TablistLog (ps ++ bs) qs cs) {v : Text} (hv : textOf ps = v ++ ['>']) (hclose : '>' ∉ v) :
    (∃ rs, qs = ps ++ rs ∧ TablistLog bs rs cs) ∨
      ∃ g t u k rs ds, .item t ∈ ps ∧ textOf ps = g ++ t.source ∧ Extends tablistRole t u ∧
        CoversEnd k t ∧ k.has "role" = false ∧ ClosesTabs k.rawName (textOf bs) ∧
        textOf qs = g ++ u.source ++ textOf rs ∧ cs = (addTablist k).change :: ds ∧
        TablistLog bs rs ds := by
  induction ps generalizing v qs with
  | nil => exact absurd hv (by simp)
  | cons p ps ih =>
    cases p with
    | char c =>
      obtain ⟨qs', rfl, h'⟩ : ∃ qs', qs = .char c :: qs' ∧ TablistLog (ps ++ bs) qs' cs := by
        cases h with
        | kept p h' => exact ⟨_, rfl, h'⟩
      rw [textOf_char] at hv
      cases v with
      | nil =>
        obtain rfl := eq_nil_of_textOf_eq_nil (List.cons.inj hv).2
        exact Or.inl ⟨qs', rfl, h'⟩
      | cons d v =>
        rw [List.mem_cons, not_or] at hclose
        rcases ih h' (List.cons.inj hv).2 hclose.2 with
          ⟨rs, rfl, hrs⟩ | ⟨g, t, u, k, rs, ds, ht, hg, hext, hk, hrole, hcl, hqs, hcs, hrs⟩
        · exact Or.inl ⟨rs, rfl, hrs⟩
        · refine Or.inr ⟨c :: g, t, u, k, rs, ds, List.mem_cons_of_mem _ ht, ?_, hext, hk, hrole,
            hcl, ?_, hcs, hrs⟩
          · rw [textOf_char, hg, List.cons_append]
          · rw [textOf_char, hqs, List.cons_append, List.cons_append]
    | item t =>
      -- a tag has the closing bracket, and nothing stands behind it
      obtain rfl : ps = [] := by
        refine eq_nil_of_textOf_eq_nil
          (eq_nil_of_only_close (u := '<' :: t.rawName ++ t.attrs) ?_ hclose)
        rw [← hv]
        simp [source]
      cases h with
      | kept p h' => exact Or.inl ⟨_, rfl, h'⟩
      | @made _ u k _ qs ds hext hk hrole hcl _ _ h' =>
        exact Or.inr ⟨[], t, u, k, qs, ds, List.mem_cons_self, by simp, hext, hk, hrole, hcl,
          by simp, rfl, h'⟩

end TablistLog

/-! ## The run -/

/-- **The name of a container** is the name of the tag that it covers exactly when that name is
closed behind a tab. -/
theorem name_eq_iff_of_read? {t rest : Text} {c : Container} {tag : Tag}
    (hc : Container.read? t = some (c, rest)) (htag : Tag.read? t = some (tag, c.content ++ rest)) :
    (c.tag.name = tag.name ↔ ClosesTabs tag.rawName (c.content ++ rest)) ∧
      ((∀ d ∈ tag.rawName, isWord d = true) → c.tag.name = tag.name) := by
  obtain ⟨u, k, rfl, -, -, hcut, hlocal⟩ := Container.read?_eq_some hc
  obtain ⟨hattrs, v, hv, hname⟩ := read?_eq_some_iff.1 htag
  obtain rfl := (List.cons.inj hv).2
  refine ⟨⟨fun heq => ?_, fun hcloses => ?_⟩, fun hword => ?_⟩
  · have hmap := map_lowerChar_of_name_eq (fun d hd => isNameChar_of_mem_nameCuts hcut hd)
      (fun d hd => isNameChar_of_readName? hname hd) heq
    rw [ClosesTabs, ← afterTabs?_congr hmap, hlocal rest]
    rfl
  · -- the longest cut is tried first
    obtain ⟨rest', hrest'⟩ := Option.isSome_iff_exists.1 hcloses
    rw [Container.read?_open] at hc
    obtain ⟨cuts, hcuts⟩ : ∃ cuts,
        nameCuts u = (tag.rawName, tag.attrs ++ '>' :: (c.content ++ rest)) :: cuts := by
      rw [← head?_nameCuts] at hname
      exact List.head?_eq_some_iff.1 hname
    have hfirst : Container.ofCut? (tag.rawName, tag.attrs ++ '>' :: (c.content ++ rest)) = _ :=
      Container.ofCut?_of_upTo? (Text.upTo?_append_cons hattrs (c.content ++ rest))
    rw [hrest', Option.map_some] at hfirst
    rw [hcuts, List.findSome?_cons_of_isSome (by rw [hfirst]; rfl), hfirst] at hc
    rw [← (Prod.mk.inj (Option.some.inj hc)).1]
  · exact congrArg Text.lower (eq_of_mem_nameCuts hname hword hcut)

/-- **A character in front changes nothing**, unless it is the bracket of a tag.  Then an entry from
within that tag is an entry about the tag; it names another tag, because no container starts at the
bracket. -/
theorem TablistLog.cons {c : Char} {t : Text} (hnone : Container.read? (c :: t) = none)
    {qs : List (Piece Tag)} {cs : List Change} (h : TablistLog (pieces t) qs cs) :
    ∃ rs, TablistLog (pieces (c :: t)) rs cs ∧ textOf rs = c :: textOf qs := by
  cases hread : Tag.read? (c :: t) with
  | none =>
    rw [pieces_of_not_read hread]
    exact ⟨.char c :: qs, h.kept (.char c), rfl⟩
  | some r =>
    obtain ⟨tag, rest⟩ := r
    obtain ⟨hattrs, u, hu, hcut⟩ := read?_eq_some_iff.1 hread
    obtain ⟨rfl, rfl⟩ := List.cons.inj hu
    have hletters : ∀ d ∈ tag.rawName, isNameChar d = true := fun d hd =>
      isNameChar_of_readName? hcut hd
    have hname : '>' ∉ tag.rawName := not_mem_of_delimitsName hletters delimitsName_close
    have hsplit : t = (tag.rawName ++ tag.attrs ++ ['>']) ++ rest := by
      rw [← append_of_readName? hcut]
      simp
    rw [hsplit, pieces_append (bracketsClose_append_close _)] at h
    rw [pieces_of_read hread]
    rcases h.append_inv (textOf_pieces _) (by simp [hname, hattrs]) with
      ⟨rs, rfl, hrs⟩ | ⟨g, v, w, k, rs, ds, hv, hg, hext, hk, hrole, hcloses, hqs, rfl, hrs⟩
    · refine ⟨.item tag :: rs, hrs.kept (.item tag), ?_⟩
      rw [textOf_item, textOf_append, textOf_pieces, source]
      simp
    · rw [textOf_pieces] at hg hcloses
      have hsource : tag.source = '<' :: (g ++ v.source) := by
        rw [← hg, source]
        simp
      -- the tag with the role is the bracket and the edited tag within
      obtain ⟨z, hz, hzsource⟩ := hext.behind (g := '<' :: g) hletters
        (isNameChar_of_mem_pieces hv) hsource
      have hunclosed : ¬ ClosesTabs tag.rawName rest := by
        rw [Container.read?_open, List.findSome?_eq_none_iff] at hnone
        have hfirst := hnone _ (List.mem_of_head? ((head?_nameCuts t).trans hcut))
        rw [Container.ofCut?_of_upTo? (Text.upTo?_append_cons hattrs rest),
          Option.map_eq_none_iff] at hfirst
        rw [ClosesTabs, hfirst]
        simp
      have hother : k.name ≠ tag.name := by
        intro heq
        refine hunclosed ?_
        rwa [ClosesTabs, ← afterTabs?_congr (map_lowerChar_of_name_eq hk.letters hletters heq)]
      have hopen : '<' ∈ tag.attrs := by
        have hmem : '<' ∈ tag.rawName ++ tag.attrs ++ ['>'] := by
          rw [hg, source]
          simp
        have hnot : '<' ∉ tag.rawName := not_mem_of_delimitsName hletters delimitsName_open
        simpa [hnot] using hmem
      refine ⟨.item z :: rs, .made hz ⟨hk.letters, ?_⟩ hrole ?_ ?_ ?_ hrs, ?_⟩
      · rw [hsource]
        exact hk.suffix.trans ⟨'<' :: g, by simp⟩
      · rwa [textOf_pieces]
      · rw [textOf_pieces]
        exact iff_of_false hother hunclosed
      · exact fun hno => absurd hopen hno
      · rw [textOf_item, hzsource, hqs]
        simp

/-- The log of the pass, and the text that it leaves. -/
theorem exists_tablistLog_containers (before : Option Char) (t : Text) :
    ∃ qs, TablistLog (pieces t) qs
        (((Container.reader.pieces before t).filterMap Piece.item?).filterMap
          fun c => c.edit?.map Edit.change) ∧
      (Container.reader.pieces before t).flatMap (Piece.write Container.edited) = textOf qs := by
  fun_induction Reader.pieces Container.reader before t with
  | case1 before =>
    rw [pieces_nil]
    exact ⟨[], .nil, rfl⟩
  | case2 before c tail container rest h ih =>
    obtain ⟨qs, hqs, htext⟩ := ih
    obtain ⟨tag, hread, hsource⟩ := Container.tagRead?_of_read? h
    obtain ⟨v, k, -, hcontent, -, hcut, hlocal⟩ := Container.read?_eq_some h
    obtain ⟨hnamed, hplain⟩ := name_eq_iff_of_read? h hread
    have hclosed : BracketsClose container.content := by
      rw [hcontent]
      exact bracketsClose_append_close k
    have hbehind : textOf (pieces container.content ++ pieces rest) =
        container.content ++ rest := by
      rw [textOf_append, textOf_pieces, textOf_pieces]
    rw [pieces_of_read hread, pieces_append hclosed, List.flatMap_cons, htext]
    have hrest := hqs.append_left (pieces container.content)
    cases hrole : container.tag.has "role" with
    | true =>
      have hedit : container.edit? = none := by rw [Container.edit?, if_pos hrole]
      refine ⟨.item tag :: (pieces container.content ++ qs), ?_, ?_⟩
      · show TablistLog _ _ ((container :: List.filterMap Piece.item? _).filterMap _)
        rw [List.filterMap_cons, hedit]
        exact hrest.kept (.item tag)
      · show container.edited ++ _ = _
        rw [Container.edited, hedit, textOf_item, hsource, textOf_append, textOf_pieces]
        simp
    | false =>
      have hedit : container.edit? = some (addTablist container.tag) := by
        rw [Container.edit?, hrole]
        rfl
      obtain ⟨u, hext, hu⟩ := (extends_addTablist container.tag).behind (g := [])
        (isNameChar_of_read? hread) (fun d hd => isNameChar_of_mem_nameCuts hcut hd) hsource
      refine ⟨.item u :: (pieces container.content ++ qs), ?_, ?_⟩
      · show TablistLog _ _ ((container :: List.filterMap Piece.item? _).filterMap _)
        rw [List.filterMap_cons, hedit]
        refine .made hext ⟨fun d hd => isNameChar_of_mem_nameCuts hcut hd, ?_⟩ hrole ?_ ?_ ?_ hrest
        · exact hsource ▸ List.suffix_rfl
        · rw [hbehind, ClosesTabs, hlocal rest, Option.isSome_some]
        · rwa [hbehind]
        · exact fun _ => hplain
      · show container.edited ++ _ = _
        rw [Container.edited, hedit, textOf_item, hu, textOf_append, textOf_pieces]
        simp
  | case3 before c tail h ih =>
    obtain ⟨qs, hqs, htext⟩ := ih
    obtain ⟨rs, hrs, hrtext⟩ := hqs.cons h
    refine ⟨rs, hrs, ?_⟩
    rw [List.flatMap_cons, htext, hrtext]
    rfl

/-- **With the pass over containers of tabs alone, and containers that end at the first closing tag
of their name, each entry of the log stands for one tag of the snippet**, which has gained the role
of a tablist and has a tab and a closing tag of the entry's name behind it.  The entry names that
tag exactly when a tab and a closing tag of the tag's own name stand behind the tag. -/
theorem tablistLog_apply (o : Options) (s : Text) :
    TablistLog (pieces s) (pieces (apply (o.onlyTablists false) s).text)
      (apply (o.onlyTablists false) s).changes := by
  obtain ⟨qs, hqs, htext⟩ := exists_tablistLog_containers none s
  have hpieces : pieces (addTablistsByFirstClose s).text = qs := by
    show pieces ((Container.reader.pieces none s).flatMap (Piece.write Container.edited)) = qs
    rw [htext]
    exact pieces_textOf_of_extended isAddition_tablistRole hqs.extended
  rw [apply_onlyTablists]
  show TablistLog (pieces s) (pieces (addTablistsByFirstClose s).text)
    (addTablistsByFirstClose s).changes
  rw [hpieces]
  exact hqs

/-- A `div-x` is made a tablist and logged as a `div`, and neither tag nor closing tag of the text
has that name. -/
theorem apply_onlyTablists_cutName :
    apply (Options.default.onlyTablists false) "<div-x><b role=\"tab\"></b></div>" =
        ⟨"<div-x role=\"tablist\"><b role=\"tab\"></b></div>", [(addTablist ⟨"div", "-x"⟩).change]⟩ ∧
      (all "<div-x><b role=\"tab\"></b></div>").map Tag.name = [("div-x" : Text), "b"] := by
  decide +kernel

end Fix
end AriaLint
