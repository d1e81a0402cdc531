import AriaLint.Text.Basic

/-!
# Reading at every place of a text

A reader recognises one construct at one place: it sees the text from there on and the character
just before, and returns what it read together with the rest.  It carries the proof that the rest
is shorter, so that reading on always comes to an end.

Two walks are built on it.  `find?` stops at the first place where the reader succeeds.  `pieces`
cuts the whole text, from the left and without overlap, into the constructs that were read and the
single characters between them.
-/

namespace AriaLint

/-- A reader of one construct. -/
structure Reader (α : Type) where
  /-- Reads at the head of a text that follows the given character, if any does. -/
  read? : Option Char → Text → Option (α × Text)
  /-- Something is always consumed. -/
  shortens : ∀ {before t a rest}, read? before t = some (a, rest) → rest.length < t.length

/-- A place in a text: what stands before it, what was read there, and what follows. -/
structure Found (α : Type) where
  before : Text
  item : α
  after : Text
  deriving DecidableEq, Repr

/-- Positions in a text: the first character, and the first one no longer included. -/
structure Span where
  start : Nat
  stop : Nat
  deriving DecidableEq, Repr

/-- The same stretch in a text with `n` more characters in front. -/
def Span.shift (n : Nat) (s : Span) : Span := ⟨n + s.start, n + s.stop⟩

/-- The stretch that was read, as positions in the text `t` it was found in. -/
def Found.span {α : Type} (t : Text) (f : Found α) : Span :=
  ⟨f.before.length, t.length - f.after.length⟩

/-- A single character, or a construct that was read. -/
inductive Piece (α : Type) where
  | char (c : Char)
  | item (a : α)
  deriving DecidableEq, Repr

namespace Piece

variable {α : Type}

/-- The construct, when the piece is one. -/
def item? : Piece α → Option α
  | char _ => none
  | item a => some a

/-- The text of a piece, when `write` gives the text of a construct. -/
def write (write : α → Text) : Piece α → Text
  | char c => [c]
  | item a => write a

end Piece

namespace Reader

variable {α : Type} (read : Reader α)

/-- The first place where the reader succeeds. -/
def find? (before : Option Char) : Text → Option (Found α)
  | [] => none
  | c :: t =>
    match read.read? before (c :: t) with
    | some (a, rest) => some ⟨[], a, rest⟩
    | none => (find? (some c) t).map fun f => { f with before := c :: f.before }

/-- The last character of what was consumed when `rest` is left of `t`. -/
def lastConsumed (t rest : Text) : Option Char := (t.take (t.length - rest.length)).getLast?

/-- The constructs of a text and the characters between them, from the left. -/
def pieces (before : Option Char) (t : Text) : List (Piece α) :=
  match t with
  | [] => []
  | c :: tail =>
    match _h : read.read? before (c :: tail) with
    | some (a, rest) => .item a :: pieces (lastConsumed (c :: tail) rest) rest
    | none => .char c :: pieces (some c) tail
termination_by t.length
decreasing_by
  · exact read.shortens ‹_›
  · simp

/-- The constructs of a text, from the left. -/
def items (t : Text) : List α := (read.pieces none t).filterMap Piece.item?

/-- The text in which every construct is written anew. -/
def rewrite (write : α → Text) (t : Text) : Text :=
  (read.pieces none t).flatMap (Piece.write write)

/-- The reader that keeps only the constructs of a certain kind, leaving the place to later
characters otherwise. -/
def filter (keep : α → Bool) : Reader α where
  read? before t := (read.read? before t).filter fun r => keep r.1
  shortens h := read.shortens (Option.filter_eq_some_iff.1 h).1

@[simp] theorem pieces_nil (before : Option Char) : read.pieces before [] = [] := by
  rw [pieces]

theorem pieces_of_read {before : Option Char} {t rest : Text} {a : α}
    (h : read.read? before t = some (a, rest)) :
    read.pieces before t = .item a :: read.pieces (lastConsumed t rest) rest := by
  cases t with
  | nil => have := read.shortens h; simp at this
  | cons c tail =>
    rw [pieces]
    split
    · next b r hb => simp_all
    · next hb => simp_all

theorem pieces_of_not_read {before : Option Char} {c : Char} {t : Text}
    (h : read.read? before (c :: t) = none) :
    read.pieces before (c :: t) = .char c :: read.pieces (some c) t := by
  rw [pieces]
  split
  · next b r hb => simp_all
  · rfl

/-- When `write` gives back what was consumed, the pieces make up the text: reading loses
nothing. -/
theorem flatMap_pieces {write : α → Text}
    (lossless : ∀ {before t a rest}, read.read? before t = some (a, rest) → write a ++ rest = t)
    (before : Option Char) (t : Text) :
    (read.pieces before t).flatMap (Piece.write write) = t := by
  fun_induction pieces read before t with
  | case1 => rfl
  | case2 before c tail a rest h ih =>
    rw [List.flatMap_cons, ih]
    exact lossless h
  | case3 before c tail h ih =>
    rw [List.flatMap_cons, ih]
    rfl

end Reader
end AriaLint
