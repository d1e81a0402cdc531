import AriaLint.Proofs.Tag.Pieces
import AriaLint.Proofs.Text.Readings

/-!
# The scan for tags is exact

A scan for tags goes over a text from the left, gives name characters back until a word ends where
the name does, and goes on behind the closing bracket.  What it yields can be said without it
(`all_exact`).  A tag starts at an opening bracket when some stretch of the name characters behind it
ends at a word boundary, and a closing bracket follows (`StartsTag`).  Its name is the longest of
these stretches, and its attribute text goes on to the first closing bracket.  The tags that are
found do not overlap, and an opening bracket that is in none of them starts no tag.

Names first: `nameCuts` lists all stretches that could be the name (`mem_nameCuts_iff`), longest
first (`pairwise_nameCuts`).  The places come from the walk of a reader, `Reader.readings`, which
misses nothing but what starts inside of something else.
-/

namespace AriaLint
namespace Tag

/-! ## Names -/

/-- The name is a stretch of name characters at the head of the text, and there is a word boundary
where it ends. -/
structure IsNameOf (name u : Text) : Prop where
  nonempty : name ≠ []
  run : name <+: u.takeWhile isNameChar
  boundary : isBoundary name.getLast? (u.drop name.length).head? = true

/-- A tag starts with an opening bracket in front of the text. -/
def StartsTag (u : Text) : Prop := ∃ name, IsNameOf name u ∧ '>' ∈ u.drop name.length

theorem isNameOf_cons_iff {c : Char} {name u : Text} (hc : isNameChar c = true) :
    IsNameOf (c :: name) (c :: u) ↔
      IsNameOf name u ∨ name = [] ∧ isBoundary (some c) u.head? = true := by
  constructor
  · rintro ⟨-, hrun, hboundary⟩
    rw [List.takeWhile_cons_of_pos hc, List.cons_prefix_cons] at hrun
    cases name with
    | nil => exact Or.inr ⟨rfl, hboundary⟩
    | cons d name =>
      rw [List.getLast?_cons_cons] at hboundary
      exact Or.inl ⟨by simp, hrun.2, hboundary⟩
  · rintro (⟨hne, hrun, hboundary⟩ | ⟨rfl, hboundary⟩)
    · refine ⟨by simp, ?_, ?_⟩
      · rw [List.takeWhile_cons_of_pos hc, List.cons_prefix_cons]
        exact ⟨rfl, hrun⟩
      · obtain ⟨d, name, rfl⟩ := List.exists_cons_of_ne_nil hne
        rw [List.getLast?_cons_cons]
        exact hboundary
    · refine ⟨by simp, ?_, hboundary⟩
      rw [List.takeWhile_cons_of_pos hc, List.cons_prefix_cons]
      exact ⟨rfl, List.nil_prefix⟩

theorem exists_of_isNameOf_cons {c : Char} {name u : Text} (h : IsNameOf name (c :: u)) :
    isNameChar c = true ∧ ∃ rest, name = c :: rest := by
  obtain ⟨d, rest, rfl⟩ := List.exists_cons_of_ne_nil h.nonempty
  have hrun := h.run
  by_cases hc : isNameChar c = true
  · rw [List.takeWhile_cons_of_pos hc, List.cons_prefix_cons] at hrun
    exact ⟨hc, rest, by rw [hrun.1]⟩
  · rw [List.takeWhile_cons_of_neg hc, List.prefix_nil] at hrun
    exact absurd hrun (by simp)

/-- **The cuts of a text are its possible names**, each with what follows it. -/
theorem mem_nameCuts_iff {name rest u : Text} :
    (name, rest) ∈ nameCuts u ↔ IsNameOf name u ∧ rest = u.drop name.length := by
  induction u generalizing name with
  | nil =>
    refine iff_of_false (by simp [nameCuts]) fun h => h.1.nonempty ?_
    exact List.prefix_nil.1 h.1.run
  | cons c u ih =>
    by_cases hc : isNameChar c = true
    · rw [nameCuts, if_pos hc, List.mem_append]
      constructor
      · rintro (h | h)
        · obtain ⟨⟨n, r⟩, hn, heq⟩ := List.mem_map.1 h
          obtain ⟨rfl, rfl⟩ := Prod.mk.inj heq
          obtain ⟨hname, hrest⟩ := ih.1 hn
          exact ⟨(isNameOf_cons_iff hc).2 (Or.inl hname), hrest⟩
        · split at h
          · next hboundary =>
            obtain ⟨rfl, rfl⟩ := Prod.mk.inj (List.mem_singleton.1 h)
            exact ⟨(isNameOf_cons_iff hc).2 (Or.inr ⟨rfl, hboundary⟩), rfl⟩
          · exact absurd h (by simp)
      · rintro ⟨hname, rfl⟩
        obtain ⟨-, n, rfl⟩ := exists_of_isNameOf_cons hname
        rcases (isNameOf_cons_iff hc).1 hname with hn | ⟨rfl, hboundary⟩
        · exact Or.inl (List.mem_map.2 ⟨(n, u.drop n.length), ih.2 ⟨hn, rfl⟩, rfl⟩)
        · rw [if_pos hboundary]
          exact Or.inr (List.mem_singleton.2 rfl)
    · rw [nameCuts, if_neg hc]
      exact iff_of_false (by simp) fun h => hc (exists_of_isNameOf_cons h.1).1

/-- Longer names come first. -/
theorem pairwise_nameCuts (u : Text) :
    (nameCuts u).Pairwise fun cut cut' => cut'.1.length < cut.1.length := by
  induction u with
  | nil => exact .nil
  | cons c u ih =>
    unfold nameCuts
    split
    · rw [List.pairwise_append, List.pairwise_map]
      refine ⟨ih.imp fun h => Nat.succ_lt_succ h, ?_, ?_⟩
      · split
        · exact List.pairwise_singleton _ _
        · exact .nil
      · intro cut hcut cut' hcut'
        obtain ⟨⟨n, r⟩, hn, rfl⟩ := List.mem_map.1 hcut
        have hpos := List.length_pos_iff.2 (mem_nameCuts_iff.1 hn).1.nonempty
        split at hcut'
        · rw [List.mem_singleton.1 hcut']
          simpa using hpos
        · exact absurd hcut' (by simp)
    · exact .nil

/-- **The name of a tag** is the longest of the possible names. -/
theorem isNameOf_of_readName? {u name rest : Text} (h : readName? u = some (name, rest)) :
    IsNameOf name u ∧ rest = u.drop name.length ∧
      ∀ name', IsNameOf name' u → name'.length ≤ name.length := by
  rw [← head?_nameCuts] at h
  obtain ⟨cuts, hcuts⟩ := List.head?_eq_some_iff.1 h
  obtain ⟨hname, hrest⟩ := mem_nameCuts_iff.1 (List.mem_of_head? h)
  refine ⟨hname, hrest, fun name' hname' => ?_⟩
  have hmem : (name', u.drop name'.length) ∈ nameCuts u := mem_nameCuts_iff.2 ⟨hname', rfl⟩
  have hsorted := pairwise_nameCuts u
  rw [hcuts] at hmem hsorted
  rcases List.mem_cons.1 hmem with heq | hmem
  · rw [(Prod.mk.inj heq).1]
  · exact Nat.le_of_lt (List.rel_of_pairwise_cons hsorted hmem)

/-! ## Tags -/

/-- **A tag is read where one starts.** -/
theorem isSome_read?_open_iff {u : Text} : (read? ('<' :: u)).isSome = true ↔ StartsTag u := by
  rw [Option.isSome_iff_ne_none, ne_eq, read?_open_eq_none_iff, not_or, not_not]
  constructor
  · rintro ⟨hname, hclose⟩
    obtain ⟨⟨name, rest⟩, hread⟩ := Option.ne_none_iff_exists'.1 hname
    obtain ⟨hof, hrest, -⟩ := isNameOf_of_readName? hread
    refine ⟨name, hof, ?_⟩
    rw [← append_of_readName? hread, List.mem_append] at hclose
    rw [← hrest]
    exact hclose.resolve_left (not_mem_of_readName? hread delimitsName_close)
  · rintro ⟨name, hname, hclose⟩
    refine ⟨fun hnone => ?_, List.mem_of_mem_drop hclose⟩
    have hmem : (name, u.drop name.length) ∈ nameCuts u := mem_nameCuts_iff.2 ⟨hname, rfl⟩
    rw [← head?_nameCuts, List.head?_eq_none_iff] at hnone
    rw [hnone] at hmem
    exact absurd hmem (by simp)

/-- A tag ends with its first closing bracket. -/
theorem endsAt_reader : reader.EndsAt (· == '>') 1 where
  reading {before t tag rest} h := by
    have hread : read? t = some (tag, rest) := h
    obtain ⟨hattrs, u, -, hcut⟩ := read?_eq_some_iff.1 hread
    have hname : '>' ∉ tag.rawName := not_mem_of_readName? hcut delimitsName_close
    have hnone : '>' ∉ '<' :: tag.rawName ++ tag.attrs := by simp [hname, hattrs]
    refine ⟨'<' :: tag.rawName ++ tag.attrs, '>', ?_, rfl, ?_, fun rest' => ?_⟩
    · rw [← source_append_of_read? hread]
      simp [source]
    · rw [Nat.add_eq_right, List.countP_eq_zero]
      exact fun c hc heq => hnone (eq_of_beq heq ▸ hc)
    · have happ := read?_source_append hread rest'
      rw [source, List.append_assoc] at happ
      exact happ

end Tag

/-! ## Places -/

namespace Occurrence

open Reader

/-- The tag covers its stretch of the text: behind the opening bracket stands the longest possible
name, and behind the name all that comes before the first closing bracket. -/
structure IsExact (t : Text) (o : Occurrence) : Prop where
  span : (t.take o.stop).drop o.start = '<' :: o.tag.rawName ++ o.tag.attrs ++ ['>']
  name : Tag.IsNameOf o.tag.rawName (t.drop (o.start + 1))
  longest : ∀ name, Tag.IsNameOf name (t.drop (o.start + 1)) → name.length ≤ o.tag.rawName.length
  closed : '>' ∉ o.tag.attrs

/-- The tag that has been read at a place. -/
def ofFound (f : Found Tag) : Occurrence := ⟨f.item, f.before.length⟩

theorem ofPieces_eq_map_readings (start : Nat) (before : Option Char) (t : Text) :
    ofPieces start (Tag.reader.pieces before t) =
      (Tag.reader.readings before t).map fun f => ⟨f.item, start + f.before.length⟩ := by
  fun_induction Reader.readings Tag.reader before t generalizing start with
  | case1 before => simp [ofPieces]
  | case2 before c tail tag rest hread ih =>
    have hsource : tag.source ++ rest = c :: tail := Tag.source_append_of_read? hread
    have hconsumed : consumed (c :: tail) rest = tag.source := by
      rw [← hsource, consumed_append]
    rw [Tag.reader.pieces_of_read hread, ofPieces, ih, List.map_cons, List.map_map, hconsumed]
    simp [Function.comp_def, Found.behind, Nat.add_assoc]
  | case3 before c tail hread ih =>
    rw [Tag.reader.pieces_of_not_read hread, ofPieces, ih, List.map_map]
    refine List.map_congr_left fun f _ => ?_
    simp only [Function.comp_apply, Found.behind, List.length_append, List.length_singleton,
      Nat.add_assoc]

/-- **The tags of a text are those that the walk reads**, with their places. -/
theorem all_eq_map_readings (t : Text) : all t = (Tag.reader.readings none t).map ofFound := by
  rw [all, Tag.pieces, ofPieces_eq_map_readings]
  simp [ofFound]

/-- A tag that can be read stands in the text with all its characters. -/
theorem append_of_readsAt {t : Text} {f : Found Tag} (h : Tag.reader.ReadsAt none t f) :
    t = f.before ++ (f.item.source ++ f.after) ∧
      Tag.read? (f.item.source ++ f.after) = some (f.item, f.after) := by
  obtain ⟨u, hsplit, hread⟩ := h
  have hsource : f.item.source ++ f.after = u := Tag.source_append_of_read? hread
  exact ⟨by rw [hsource, hsplit], by rw [hsource]; exact hread⟩

theorem span_of_readsAt {t : Text} {f : Found Tag} (h : Tag.reader.ReadsAt none t f) :
    f.span t = ⟨(ofFound f).start, (ofFound f).stop⟩ := by
  have hlength := congrArg List.length (append_of_readsAt h).1
  simp only [List.length_append] at hlength
  simp only [Found.span, ofFound, stop, Span.mk.injEq, true_and]
  omega

theorem isExact_of_readsAt {t : Text} {f : Found Tag} (h : Tag.reader.ReadsAt none t f) :
    IsExact t (ofFound f) := by
  obtain ⟨hsplit, hread⟩ := append_of_readsAt h
  obtain ⟨hclosed, u, hu, hcut⟩ := Tag.read?_eq_some_iff.1 hread
  obtain ⟨hname, -, hlongest⟩ := Tag.isNameOf_of_readName? hcut
  have hbehind : t.drop (f.before.length + 1) = u := by
    have hhead : t = (f.before ++ ['<']) ++ u := by
      rw [hsplit, hu]
      simp
    rw [hhead, List.drop_left' (by simp)]
  have hstretch : (t.take (ofFound f).stop).drop f.before.length = f.item.source := by
    have hstop : (f.before ++ f.item.source).length = (ofFound f).stop := List.length_append
    rw [hsplit, ← List.append_assoc, ← hstop, List.take_left, List.drop_left]
  refine ⟨hstretch, ?_, ?_, hclosed⟩
  · rwa [← hbehind] at hname
  · rwa [← hbehind] at hlongest

/-! ## The scan -/

theorem start_le_of_mem_ofPieces {start : Nat} {ps : List (Piece Tag)} {o : Occurrence}
    (h : o ∈ ofPieces start ps) : start ≤ o.start := by
  induction ps generalizing start with
  | nil => exact absurd h (by simp [ofPieces])
  | cons p ps ih =>
    cases p with
    | char c => exact Nat.le_of_succ_le (ih h)
    | item tag =>
      rcases List.mem_cons.1 h with rfl | h
      · exact Nat.le_refl _
      · exact Nat.le_trans (Nat.le_add_right _ _) (ih h)

/-- Each tag ends before the next one starts. -/
theorem pairwise_ofPieces (start : Nat) (ps : List (Piece Tag)) :
    (ofPieces start ps).Pairwise fun o o' => o.stop ≤ o'.start := by
  induction ps generalizing start with
  | nil => exact .nil
  | cons p ps ih =>
    cases p with
    | char c => exact ih (start + 1)
    | item tag => exact .cons (fun o' ho' => start_le_of_mem_ofPieces ho') (ih _)

/-- A tag is found at an opening bracket, outside of all tags before it, exactly when one starts
there. -/
theorem exists_start_iff {t u : Text} {i : Nat} (hopen : t.drop i = '<' :: u)
    (hfree : ∀ o ∈ all t, o.start < i → o.stop ≤ i) :
    (∃ o ∈ all t, o.start = i) ↔ Tag.StartsTag u := by
  have hsplit : t = t.take i ++ '<' :: u := by rw [← hopen, List.take_append_drop]
  have hi : (t.take i).length = i := by
    have hlength := congrArg List.length hopen
    rw [List.length_drop, List.length_cons] at hlength
    rw [List.length_take]
    omega
  rw [all_eq_map_readings] at hfree ⊢
  rw [← Tag.isSome_read?_open_iff]
  constructor
  · rintro ⟨o, ho, hstart⟩
    obtain ⟨f, hf, rfl⟩ := List.mem_map.1 ho
    obtain ⟨v, hv, hread⟩ := Tag.endsAt_reader.readsAt_of_mem hf
    have hlength : f.before.length = (t.take i).length := hstart.trans hi.symm
    obtain ⟨-, rfl⟩ := List.append_inj (hv.symm.trans hsplit) hlength
    rw [show Tag.read? ('<' :: u) = some (f.item, f.after) from hread]
    rfl
  · intro hsome
    obtain ⟨⟨tag, rest⟩, hread⟩ := Option.isSome_iff_exists.1 hsome
    have hplace : Tag.reader.ReadsAt none t ⟨t.take i, tag, rest⟩ := ⟨_, hsplit, hread⟩
    refine ⟨_, List.mem_map_of_mem (Tag.endsAt_reader.mem_readings_of_readsAt hplace ?_), hi⟩
    -- a tag that takes up the place would start before it and end behind it
    rintro g hg ⟨hbehind, hwithin⟩
    rw [span_of_readsAt (Tag.endsAt_reader.readsAt_of_mem hg)] at hbehind hwithin
    have hstart : (ofFound g).start < i := hi ▸ hbehind
    have hlt : i < (ofFound g).stop := hi ▸ hwithin
    have hstop := hfree (ofFound g) (List.mem_map_of_mem hg) hstart
    omega

/-- **The scan for tags is exact.**  The tags stand one behind the other, each with all that it
covers; a tag is found at an opening bracket outside of the tags before exactly when one starts
there; and a bracket outside of all tags starts none. -/
theorem all_exact (t : Text) :
    (all t).Pairwise (fun o o' => o.stop ≤ o'.start) ∧
      (∀ o ∈ all t, o.start < o.stop ∧ IsExact t o) ∧
      (∀ i u, t.drop i = '<' :: u → (∀ o ∈ all t, o.start < i → o.stop ≤ i) →
        ((∃ o ∈ all t, o.start = i) ↔ Tag.StartsTag u)) ∧
      ∀ i u, t.drop i = '<' :: u → (∀ o ∈ all t, ¬ (o.start ≤ i ∧ i < o.stop)) →
        ¬ Tag.StartsTag u := by
  have hpositive : ∀ o : Occurrence, o.start < o.stop := by
    intro o
    simp [stop, Tag.source]
  refine ⟨pairwise_ofPieces 0 _, fun o ho => ⟨hpositive o, ?_⟩, fun i u => exists_start_iff, ?_⟩
  · rw [all_eq_map_readings] at ho
    obtain ⟨f, hf, rfl⟩ := List.mem_map.1 ho
    exact isExact_of_readsAt (Tag.endsAt_reader.readsAt_of_mem hf)
  · intro i u hopen houtside hstarts
    have hfree : ∀ o ∈ all t, o.start < i → o.stop ≤ i := fun o ho hlt =>
      Nat.le_of_not_lt fun hstop => houtside o ho ⟨Nat.le_of_lt hlt, hstop⟩
    obtain ⟨o, ho, rfl⟩ := (exists_start_iff hopen hfree).2 hstarts
    exact houtside o ho ⟨Nat.le_refl _, hpositive o⟩

/-- A hyphen alone is no name, and behind a name it is given back. -/
theorem all_exact_hyphens :
    let t : Text := "<-><a-><b"
    ¬ Tag.StartsTag "-><a-><b" ∧ Tag.StartsTag "a-><b" ∧ ¬ Tag.StartsTag "b" ∧
      all t = [⟨⟨"a", "-"⟩, 3⟩] := by
  intro t
  have hall : all t = [⟨⟨"a", "-"⟩, 3⟩] := by decide +kernel
  obtain ⟨-, -, hstarts, hnone⟩ := all_exact t
  rw [hall] at hstarts hnone
  refine ⟨hnone 0 _ rfl (by simp), (hstarts 3 _ rfl (by simp)).1 (by simp), ?_, hall⟩
  exact hnone 7 _ rfl (by simp [stop, Tag.source])

end Occurrence
end AriaLint
