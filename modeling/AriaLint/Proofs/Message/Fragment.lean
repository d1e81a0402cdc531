import AriaLint.Markup.Content
import AriaLint.Message
import AriaLint.Proofs.Text.Words

/-!
# Messages as fragments of markup

The markup of a message is plain: characters, three escapes, and pairs of code marks, none inside
another (`IsFragment`).  So there are two ways to get back to the sentence.  One is to delete the
marks and to undo the escapes (`withoutMarks`, `unescaped`), which needs no reader of markup; the
other is to ask for the text content of the fragment.  Both give the sentence itself:

    `unescaped_withoutMarks_html`   for every message,
    `content_html`                  for every message whose parts are solid.

The condition comes from white space.  The text content of markup is gathered between tags, and a
stretch that is white space alone shrinks to one character.  A part is *solid* when it holds anything
else, and then so does each stretch that it is in (`exists_walk_html`).
-/

namespace AriaLint
namespace Message

/-! ## Fragments -/

/-- Characters, escapes and pairs of code marks, none inside another; the flag tells whether a pair
is open at the head. -/
inductive IsFragment : (inCode : Bool) → Text → Prop
  | nil : IsFragment false []
  | char {b : Bool} {c : Char} {t : Text} (hc : c ≠ '&' ∧ c ≠ '<' ∧ c ≠ '>')
      (ht : IsFragment b t) : IsFragment b (c :: t)
  | ampersand {b : Bool} {t : Text} (ht : IsFragment b t) : IsFragment b ("&amp;" ++ t)
  | less {b : Bool} {t : Text} (ht : IsFragment b t) : IsFragment b ("&lt;" ++ t)
  | greater {b : Bool} {t : Text} (ht : IsFragment b t) : IsFragment b ("&gt;" ++ t)
  | openCode {t : Text} (ht : IsFragment true t) : IsFragment false ("<code>" ++ t)
  | closeCode {t : Text} (ht : IsFragment false t) : IsFragment true ("</code>" ++ t)

/-- The text without its code marks. -/
def withoutMarks : Text → Text
  | '<' :: 'c' :: 'o' :: 'd' :: 'e' :: '>' :: t => withoutMarks t
  | '<' :: '/' :: 'c' :: 'o' :: 'd' :: 'e' :: '>' :: t => withoutMarks t
  | c :: t => c :: withoutMarks t
  | [] => []

/-- The text with its escapes undone. -/
def unescaped : Text → Text
  | '&' :: 'a' :: 'm' :: 'p' :: ';' :: t => '&' :: unescaped t
  | '&' :: 'l' :: 't' :: ';' :: t => '<' :: unescaped t
  | '&' :: 'g' :: 't' :: ';' :: t => '>' :: unescaped t
  | c :: t => c :: unescaped t
  | [] => []

theorem withoutMarks_cons {c : Char} (h : c ≠ '<') (t : Text) :
    withoutMarks (c :: t) = c :: withoutMarks t := by
  conv_lhs => unfold withoutMarks
  split <;> simp_all

theorem unescaped_cons {c : Char} (h : c ≠ '&') (t : Text) :
    unescaped (c :: t) = c :: unescaped t := by
  conv_lhs => unfold unescaped
  split <;> simp_all

/-! ## Escapes -/

/-- A character stands for itself, or it has one of the three escapes. -/
theorem escape_cases (c : Char) :
    (c ≠ '&' ∧ c ≠ '<' ∧ c ≠ '>') ∧ escape c = [c] ∨ c = '&' ∧ escape c = "&amp;" ∨
      c = '<' ∧ escape c = "&lt;" ∨ c = '>' ∧ escape c = "&gt;" := by
  unfold escape
  by_cases hand : c = '&'
  · exact Or.inr (Or.inl ⟨hand, if_pos hand⟩)
  · by_cases hless : c = '<'
    · exact Or.inr (Or.inr (Or.inl ⟨hless, by rw [if_neg hand, if_pos hless]⟩))
    · by_cases hgreater : c = '>'
      · exact Or.inr (Or.inr (Or.inr ⟨hgreater, by
          rw [if_neg hand, if_neg hless, if_pos hgreater]⟩))
      · exact Or.inl ⟨⟨hand, hless, hgreater⟩, by rw [if_neg hand, if_neg hless, if_neg hgreater]⟩

theorem isFragment_escaped {b : Bool} {rest : Text} (h : IsFragment b rest) (t : Text) :
    IsFragment b (t.flatMap escape ++ rest) := by
  induction t with
  | nil => exact h
  | cons c t ih =>
    rw [List.flatMap_cons, List.append_assoc]
    rcases escape_cases c with ⟨hc, he⟩ | ⟨-, he⟩ | ⟨-, he⟩ | ⟨-, he⟩
    · rw [he]
      exact .char hc ih
    · rw [he]
      exact .ampersand ih
    · rw [he]
      exact .less ih
    · rw [he]
      exact .greater ih

theorem inlineHtml_words (t : Text) : inlineHtml (.words t) = t.flatMap escape := rfl

theorem inlineHtml_code (t : Text) :
    inlineHtml (.code t) = "<code>" ++ t.flatMap escape ++ "</code>" := rfl

/-- **The markup of a message is a fragment.** -/
theorem isFragment_html (m : Message) : IsFragment false (html m) := by
  induction m with
  | nil => exact .nil
  | cons i m ih =>
    have hsplit : html (i :: m) = inlineHtml i ++ html m := rfl
    rw [hsplit]
    cases i with
    | words t => exact isFragment_escaped ih t
    | code t =>
      rw [inlineHtml_code, List.append_assoc, List.append_assoc]
      exact .openCode (isFragment_escaped (.closeCode ih) t)

/-! ## Reading the marks and the escapes back -/

/-- No mark begins in escaped text. -/
theorem withoutMarks_escaped (t rest : Text) :
    withoutMarks (t.flatMap escape ++ rest) = t.flatMap escape ++ withoutMarks rest := by
  have hkeep : ∀ u : Text, '<' ∉ u → ∀ rest, withoutMarks (u ++ rest) = u ++ withoutMarks rest := by
    intro u hu rest
    induction u with
    | nil => rfl
    | cons c u ih =>
      rw [List.mem_cons, not_or] at hu
      rw [List.cons_append, withoutMarks_cons (Ne.symm hu.1), ih hu.2, List.cons_append]
  refine hkeep _ (fun hmem => ?_) rest
  obtain ⟨c, -, hc⟩ := List.mem_flatMap.1 hmem
  rcases escape_cases c with ⟨hplain, he⟩ | ⟨-, he⟩ | ⟨-, he⟩ | ⟨-, he⟩
  · rw [he, List.mem_singleton] at hc
    exact hplain.2.1 hc.symm
  · rw [he] at hc
    exact absurd hc (by decide)
  · rw [he] at hc
    exact absurd hc (by decide)
  · rw [he] at hc
    exact absurd hc (by decide)

theorem unescaped_escaped (t : Text) : unescaped (t.flatMap escape) = t := by
  induction t with
  | nil => rfl
  | cons c t ih =>
    rw [List.flatMap_cons]
    rcases escape_cases c with ⟨hc, he⟩ | ⟨rfl, he⟩ | ⟨rfl, he⟩ | ⟨rfl, he⟩
    · rw [he, List.singleton_append, unescaped_cons hc.1, ih]
    · rw [he]
      exact congrArg ('&' :: ·) ih
    · rw [he]
      exact congrArg ('<' :: ·) ih
    · rw [he]
      exact congrArg ('>' :: ·) ih

/-- What a message has besides its marks is the escaped sentence. -/
theorem withoutMarks_html (m : Message) : withoutMarks (html m) = (plain m).flatMap escape := by
  induction m with
  | nil => rfl
  | cons i m ih =>
    have hsplit : html (i :: m) = inlineHtml i ++ html m := rfl
    have hplain : plain (i :: m) = inlinePlain i ++ plain m := rfl
    rw [hsplit, hplain, List.flatMap_append]
    cases i with
    | words t => rw [inlineHtml_words, withoutMarks_escaped, ih, inlinePlain]
    | code t =>
      rw [inlineHtml_code, List.append_assoc, List.append_assoc]
      show withoutMarks (t.flatMap escape ++ ("</code>" ++ html m)) = _
      rw [withoutMarks_escaped]
      show t.flatMap escape ++ withoutMarks (html m) = _
      rw [ih, inlinePlain]

/-- **The sentence is the markup without its marks, with its escapes undone.** -/
theorem unescaped_withoutMarks_html (m : Message) : unescaped (withoutMarks (html m)) = plain m := by
  rw [withoutMarks_html, unescaped_escaped]

/-- A part of a message stands in its sentence as it is. -/
theorem infix_plain_of_mem {m : Message} {i : Inline} (h : i ∈ m) : inlinePlain i <:+: plain m := by
  obtain ⟨l, r, rfl⟩ := List.append_of_mem h
  rw [plain_append]
  exact ⟨plain l, plain r, by simp [plain]⟩

end Message

/-! ## The text content of a message -/

namespace Markup

open Message

/-- The walk from a construct on, with all that stands before it gathered. -/
def walkAt (isLast : Bool) (s : State) (c : Char) (t : Text) : Except MarkupError (State × Text) :=
  if c = '<' then
    match construct s t with
    | .error e => .error e
    | .ok (.next s rest) => walk isLast s rest
    | .ok (.halt s rest) => .ok (s, rest)
    | .ok .incomplete =>
      if isLast then walk isLast (s.append (recover t).1) (recover t).2 else .ok (s, c :: t)
  else
    match reference isLast s t with
    | .error e => .error e
    | .ok (.next s rest) => walk isLast s rest
    | .ok (.halt s rest) => .ok (s, rest)
    | .ok .incomplete => .ok (s, c :: t)

section Walk

variable {isLast : Bool} {s s' : State} {t rest before : Text}

theorem walk_of_run_nil (h : plainRun s t = some (before, [])) :
    walk isLast s t = .ok (s.append before, []) := by
  conv_lhs => unfold walk
  split
  · next hnone => exact absurd (h.symm.trans hnone) (by simp)
  · next b hb =>
    obtain ⟨rfl, -⟩ := Prod.mk.inj (Option.some.inj (h.symm.trans hb))
    rfl
  · next b c u hb => exact absurd (h.symm.trans hb) (by simp)

theorem walk_of_run_cons {c : Char} (h : plainRun s t = some (before, c :: rest)) :
    walk isLast s t = walkAt isLast (s.append before) c rest := by
  conv_lhs => unfold walk
  split
  · next hnone => exact absurd (h.symm.trans hnone) (by simp)
  · next b hb => exact absurd (h.symm.trans hb) (by simp)
  · next b d u hb =>
    obtain ⟨rfl, hdu⟩ := Prod.mk.inj (Option.some.inj (h.symm.trans hb))
    obtain ⟨rfl, rfl⟩ := List.cons.inj hdu
    unfold walkAt
    dsimp only
    split
    · split <;> simp_all
    · split <;> simp_all

/-- Outside of raw content, text is walked over up to the next construct. -/
theorem plainRun_of_markup (h : s.rawElement = none) :
    plainRun s t = some (t.takeWhile isPlain, t.dropWhile isPlain) := by
  rw [plainRun, h]

theorem append_nil (s : State) : s.append [] = s := by rw [State.append, List.append_nil]

theorem walk_nil (h : s.rawElement = none) : walk isLast s [] = .ok (s, []) := by
  have hwalk : walk isLast s [] = .ok (s.append [], []) := walk_of_run_nil (plainRun_of_markup h)
  rwa [append_nil] at hwalk

/-- A character that begins no construct is gathered. -/
theorem walk_plain {c : Char} (h : s.rawElement = none) (hc : isPlain c = true) :
    walk isLast s (c :: t) = walk isLast (s.append [c]) t := by
  have hrun : plainRun s (c :: t) = some (c :: t.takeWhile isPlain, t.dropWhile isPlain) := by
    rw [plainRun_of_markup h, List.takeWhile_cons_of_pos hc, List.dropWhile_cons_of_pos hc]
  have hrun' := plainRun_of_markup (s := s.append [c]) (t := t) h
  have hsame : s.append (c :: t.takeWhile isPlain) =
      (s.append [c]).append (t.takeWhile isPlain) := by simp [State.append]
  cases hrest : t.dropWhile isPlain with
  | nil =>
    rw [hrest] at hrun hrun'
    rw [walk_of_run_nil hrun, walk_of_run_nil hrun', hsame]
  | cons d u =>
    rw [hrest] at hrun hrun'
    rw [walk_of_run_cons hrun, walk_of_run_cons hrun', hsame]

/-- A construct behind a bracket. -/
theorem walk_of_construct (h : s.rawElement = none) (hc : construct s t = .ok (.next s' rest)) :
    walk isLast s ('<' :: t) = walk isLast s' rest := by
  have hrun : plainRun s ('<' :: t) = some ([], '<' :: t) := plainRun_of_markup h
  rw [walk_of_run_cons hrun, append_nil, walkAt, if_pos rfl, hc]

/-- A reference behind an ampersand. -/
theorem walk_of_reference (h : s.rawElement = none)
    (hc : reference isLast s t = .ok (.next s' rest)) :
    walk isLast s ('&' :: t) = walk isLast s' rest := by
  have hrun : plainRun s ('&' :: t) = some ([], '&' :: t) := plainRun_of_markup h
  rw [walk_of_run_cons hrun, append_nil, walkAt, if_neg (by decide), hc]

/-- Escaped text is gathered as the text that it stands for. -/
theorem walk_escaped (h : s.rawElement = none) (t rest : Text) :
    walk isLast s (t.flatMap escape ++ rest) = walk isLast (s.append t) rest := by
  induction t generalizing s with
  | nil => rw [append_nil]; rfl
  | cons c t ih =>
    have hstep : walk isLast s (escape c ++ (t.flatMap escape ++ rest)) =
        walk isLast (s.append [c]) (t.flatMap escape ++ rest) := by
      rcases escape_cases c with ⟨hc, he⟩ | ⟨rfl, he⟩ | ⟨rfl, he⟩ | ⟨rfl, he⟩
      · rw [he]
        exact walk_plain h (by simp [isPlain, hc])
      · rw [he]
        exact walk_of_reference h rfl
      · rw [he]
        exact walk_of_reference h rfl
      · rw [he]
        exact walk_of_reference h rfl
    have hsame : (s.append [c]).append t = s.append (c :: t) := by simp [State.append]
    rw [List.flatMap_cons, List.append_assoc, hstep, ih (s := s.append [c]) h, hsame]

/-- Where no attribute begins, none is read. -/
theorem readAttributes_of_none {c : Cursor} (h : readAttribute? c = none) :
    readAttributes c = ([], c) := by
  unfold readAttributes
  split
  · next hsome => exact absurd (h.symm.trans hsome) (by simp)
  · rfl

/-- A start tag without attributes opens an element. -/
theorem construct_of_tag {c : Char} {name : Text} (hc : c.isAlpha = true)
    (hread : StartTag.read c t = .tag name false [] rest) :
    construct s (c :: t) = .ok (.next (s.openTag name false) rest) := by
  unfold construct
  split
  case h_6 d u _ _ _ _ _ heq =>
    obtain ⟨rfl, rfl⟩ := List.cons.inj heq
    rw [if_pos hc, hread]
    rfl
  case h_7 heq => exact absurd heq (List.cons_ne_nil c t)
  all_goals
    next heq =>
      obtain ⟨rfl, -⟩ := List.cons.inj heq
      exact absurd hc (by decide)

/-- The opening mark of code. -/
theorem walk_openCode (h : s.rawElement = none) :
    walk isLast s ("<code>" ++ rest) = walk isLast (s.openTag "code" false) rest := by
  have hname : Cursor.skip isElementNameChar 'c' ('o' :: 'd' :: 'e' :: '>' :: rest) =
      ⟨'e', '>' :: rest⟩ := rfl
  have hblanks : Cursor.skip (fun c => isBlank c || c == '/') 'e' ('>' :: rest) =
      ⟨'e', '>' :: rest⟩ := rfl
  have hattributes : readAttributes ⟨'e', '>' :: rest⟩ = ([], ⟨'e', '>' :: rest⟩) :=
    readAttributes_of_none rfl
  have hlower : Text.lower ('c' :: ('o' :: 'd' :: 'e' :: '>' :: rest).takeWhile isElementNameChar) =
      "code" := rfl
  have hstart : StartTag.read 'c' ('o' :: 'd' :: 'e' :: '>' :: rest) = .tag "code" false [] rest := by
    unfold StartTag.read
    rw [hname, hlower]
    dsimp only
    rw [hblanks, hattributes]
    show StartTag.tag "code" (_ && ('e' == '/')) [] rest = _
    rw [show ('e' == '/') = false from rfl, Bool.and_false]
  exact walk_of_construct h (construct_of_tag (by decide) hstart)

/-- The closing mark of code. -/
theorem walk_closeCode (h : s.rawElement = none) :
    walk isLast s ("</code>" ++ rest) = walk isLast (s.closeTag "code") rest := by
  have hnone : { s with rawElement := none } = s := by rw [← h]
  have hc : construct s ("/code>" ++ rest) =
      .ok (.next ({ s with rawElement := none }.closeTag "code") rest) := rfl
  rw [hnone] at hc
  exact walk_of_construct h hc

end Walk

/-! ## Solid parts -/

/-- The text holds something else than white space of ASCII. -/
def IsSolid (t : Text) : Prop := ∃ c ∈ t, State.isAsciiBlank c = false

instance (t : Text) : Decidable (IsSolid t) := List.decidableBEx _ t

/-- All that stands in a message stands in a text that shows, and is not white space alone. -/
theorem flush_of_shown {s : State} (hshown : s.openTags.any hiddenElements.contains = false)
    (hp : s.pending = [] ∨ IsSolid s.pending) :
    s.flush = { s with pending := [], output := s.output ++ s.pending } := by
  unfold State.flush
  rcases hp with hnil | ⟨c, hc, hblank⟩
  · rw [if_pos hnil, hnil, List.append_nil, ← hnil]
  · have hsolid : s.pending.all State.isAsciiBlank = false := by
      rw [List.all_eq_false]
      exact ⟨c, hc, by simp [hblank]⟩
    rw [if_neg (List.ne_nil_of_mem hc), hshown, if_neg (by decide), State.shrink, hsolid,
      Bool.and_false, if_neg (by decide)]

end Markup

/-- The part of a message holds something else than white space. -/
def Inline.IsSolid (i : Inline) : Prop := Markup.IsSolid (Message.inlinePlain i)

instance (i : Inline) : Decidable i.IsSolid :=
  inferInstanceAs (Decidable (Markup.IsSolid (Message.inlinePlain i)))

/-- A text written out in a rule is solid when one of its characters is.  They are taken as a list,
so that the kernel need not decode the literal. -/
theorem Markup.isSolid_literal {l : List Char} (h : l.any (!State.isAsciiBlank ·) = true) :
    IsSolid (String.ofList l).toList := by
  obtain ⟨c, hc, hblank⟩ := List.any_eq_true.1 h
  rw [String.toList_ofList]
  exact ⟨c, hc, Bool.not_eq_true' _ ▸ hblank⟩

namespace Message

open Markup

/-- All parts of the message are solid. -/
def IsSolid (m : Message) : Prop := ∀ i ∈ m, i.IsSolid

/-- The walk over a message outside of code: what it has gathered then is the sentence, and what is
still pending is solid. -/
theorem exists_walk_html {m : Message} (hm : m.IsSolid) (isLast : Bool)
    (out p : Text) (hp : p = [] ∨ Markup.IsSolid p) :
    ∃ out' p', walk isLast ⟨out, p, [], [], none⟩ (html m) = .ok (⟨out', p', [], [], none⟩, []) ∧
      (p' = [] ∨ Markup.IsSolid p') ∧ out' ++ p' = out ++ (p ++ plain m) := by
  induction m generalizing out p with
  | nil => exact ⟨out, p, walk_nil rfl, hp, by simp [plain]⟩
  | cons i m ih =>
    obtain ⟨hi, hm'⟩ := List.forall_mem_cons.1 hm
    have hsplit : html (i :: m) = inlineHtml i ++ html m := rfl
    have hplain : plain (i :: m) = inlinePlain i ++ plain m := rfl
    rw [hsplit, hplain]
    cases i with
    | words t =>
      obtain ⟨c, hc, hblank⟩ := hi
      obtain ⟨out', p', hwalk, hp', hall⟩ := ih hm' out (p ++ t)
        (Or.inr ⟨c, List.mem_append_right p hc, hblank⟩)
      refine ⟨out', p', ?_, hp', ?_⟩
      · rw [inlineHtml_words, walk_escaped rfl]
        exact hwalk
      · rw [hall, inlinePlain]
        simp
    | code t =>
      obtain ⟨out', p', hwalk, hp', hall⟩ := ih hm' (out ++ p ++ t) [] (Or.inl rfl)
      refine ⟨out', p', ?_, hp', ?_⟩
      · have hopen : (State.mk out p [] [] none).openTag "code" false =
            ⟨out ++ p, [], ["code"], [], none⟩ := by
          unfold State.openTag
          rw [flush_of_shown (s := State.mk out p [] [] none) rfl hp]
          rfl
        have hclose : (State.mk (out ++ p) t ["code"] [] none).closeTag "code" =
            ⟨out ++ p ++ t, [], [], [], none⟩ := by
          unfold State.closeTag
          rw [flush_of_shown (s := State.mk (out ++ p) t ["code"] [] none) rfl (Or.inr hi)]
          rfl
        rw [inlineHtml_code, List.append_assoc, List.append_assoc, walk_openCode rfl, hopen,
          walk_escaped rfl, walk_closeCode rfl]
        show walk isLast ((State.mk (out ++ p) t ["code"] [] none).closeTag "code") _ = _
        rw [hclose]
        exact hwalk
      · rw [hall, inlinePlain]
        simp

/-- **The text content of a message is its sentence.** -/
theorem content_html {m : Message} (hm : m.IsSolid) :
    content (html m) = .ok (plain m) := by
  obtain ⟨out, p, hwalk, hp, hall⟩ := exists_walk_html hm false [] [] (Or.inl rfl)
  have hagain : walk true ⟨out, p, [], [], none⟩ [] = .ok (⟨out, p, [], [], none⟩, []) :=
    walk_nil rfl
  have hflush := flush_of_shown (s := ⟨out, p, [], [], none⟩) rfl hp
  unfold content
  rw [show State.empty = ⟨[], [], [], [], none⟩ from rfl, hwalk]
  show (walk true ⟨out, p, [], [], none⟩ []).bind _ = _
  rw [hagain]
  show Except.ok ((State.mk out p [] [] none).append []).flush.output = _
  rw [append_nil, hflush]
  rw [List.nil_append, List.nil_append] at hall
  exact congrArg Except.ok hall

end Message
end AriaLint
