import AriaLint.Files.Path
import AriaLint.Text.Newline
import AriaLint.Text.Utf8

/-!
# A store of files

The files and directories that a run can see, as a value.  A file makes all the directories on its
way exist.  Names are looked up from the current directory: every name but the last has to be a
directory, and a double dot leads to the parent.  Names are limited in length, each for itself and all
together; the limits count bytes.

Reading gives a text: bytes are read as UTF-8, and line ends are unified.  Writing replaces the whole
file.  It is told here for a text that can be written once its file is open.
-/

namespace AriaLint

/-- What a store holds at a place. -/
inductive Entry where
  | file (bytes : List UInt8)
  | directory
  deriving DecidableEq

/-- A place in a store, as the names that lead to it.  Leading double dots lead out of the current
directory, and a slash stands for the root. -/
abbrev Place := List Text

/-- Files and directories by place. -/
structure Store where
  entries : List (Place × Entry)
  deriving DecidableEq

/-- Why a file cannot be opened. -/
inductive Obstacle where
  | missing
  | isDirectory
  | notDirectory
  | nullByte
  | nameTooLong
  deriving DecidableEq, Repr

/-- Why a file cannot be read or written: it cannot be opened under the given name, its bytes are no
text, or the text for it has no bytes or finds no room. -/
inductive FileError where
  | cannotOpen (obstacle : Obstacle) (name : Text)
  | notText (refusal : Utf8.Refusal)
  | notEncodable (refusal : Utf8.EncodingRefusal)
  | noSpace
  deriving DecidableEq, Repr

/-- The wording of an error. -/
def FileError.message : FileError → Text
  | cannotOpen .missing name => "[Errno 2] No such file or directory: " ++ Text.quoted name
  | cannotOpen .isDirectory name => "[Errno 21] Is a directory: " ++ Text.quoted name
  | cannotOpen .notDirectory name => "[Errno 20] Not a directory: " ++ Text.quoted name
  | cannotOpen .nullByte _ => "embedded null byte"
  | cannotOpen .nameTooLong name => "[Errno 36] File name too long: " ++ Text.quoted name
  | notText refusal => refusal.message
  | notEncodable refusal => refusal.message
  | noSpace => "[Errno 28] No space left on device"

namespace Store

/-- A place outside the current directory that is one of its ancestors, or the current directory
itself. -/
def isAncestor (p : Place) : Bool := p.all fun name => name = ['.', '.'] ∨ name = ['/']

/-- What is at a place. -/
def entry? (s : Store) (p : Place) : Option Entry :=
  if isAncestor p then some .directory
  else match s.entries.lookup p with
    | some e => some e
    | none =>
      if s.entries.any fun e => p.isPrefixOf e.1 then some .directory else none

/-- The directory that holds a place. -/
def parent (p : Place) : Place :=
  if p = [['/']] then p else if isAncestor p then p ++ [['.', '.']] else p.dropLast

/-- The most bytes that a single name can have. -/
def nameLimit : Nat := 255

/-- The most bytes that a name with its whole path can have. -/
def pathLimit : Nat := 4095

/-- Follows names from a place.  A name is looked up in a directory only, and only there is its length
looked at. -/
def follow (s : Store) (p : Place) : List Text → Except Obstacle Place
  | [] => .ok p
  | name :: names =>
    match s.entry? p with
    | none => .error .missing
    | some (.file _) => .error .notDirectory
    | some .directory =>
      if name = [] ∨ name = ['.'] then follow s p names
      else if name = ['.', '.'] then follow s (parent p) names
      else if nameLimit < (Utf8.encode name).length then .error .nameTooLong
      else follow s (p ++ [name]) names

/-- Follows the parts of a name that can stand for a place at all, from the root or from the current
directory. -/
def followFrom (s : Store) (name : Text) (parts : List Text) : Except Obstacle Place :=
  if name.contains '\x00' then .error .nullByte
  else if name = [] then .error .missing
  else if pathLimit < (Utf8.encode name).length then .error .nameTooLong
  else s.follow (if name.head? = some '/' then [['/']] else []) parts

/-- The place that a name leads to; the last of its parts need not exist. -/
def place? (s : Store) (name : Text) : Except Obstacle Place :=
  s.followFrom name (Text.splitOn '/' name)

/-- The name leads to something.  Whether a name does that is too long, cannot be told. -/
def has (s : Store) (name : Text) : Except FileError Bool :=
  match s.place? name with
  | .ok p => .ok (s.entry? p).isSome
  | .error .nameTooLong => .error (.cannotOpen .nameTooLong name)
  | .error _ => .ok false

/-- The bytes of a file. -/
def readBytes (s : Store) (name : Text) : Except FileError (List UInt8) :=
  match s.place? name with
  | .error obstacle => .error (.cannotOpen obstacle name)
  | .ok p =>
    match s.entry? p with
    | some (.file bytes) => .ok bytes
    | some .directory => .error (.cannotOpen .isDirectory name)
    | none => .error (.cannotOpen .missing name)

/-- Bytes as a text with unified line ends. -/
def textOf (bytes : List UInt8) : Except FileError Text :=
  match Utf8.decode bytes with
  | .ok t => .ok (Text.unifyNewlines t)
  | .error refusal => .error (.notText refusal)

/-- The text of a file. -/
def read (s : Store) (name : Text) : Except FileError Text := (s.readBytes name).bind textOf

/-- The store in which a place holds a file with the given bytes. -/
def put (s : Store) (p : Place) (bytes : List UInt8) : Store :=
  ⟨s.entries.filter (·.1 ≠ p) ++ [(p, .file bytes)]⟩

/-- A name without slashes at its end. -/
def withoutSlashes (name : Text) : Text := (name.reverse.dropWhile (· == '/')).reverse

/-- The parts of a name that lead to the directory in which its last part is looked up. -/
def directoryParts (name : Text) : List Text :=
  (Text.splitOn '/' (withoutSlashes name)).dropLast ++ [['.']]

/-- The place of a file to be written.  A name with a slash at its end asks for a directory, which
is refused whatever is there. -/
def target? (s : Store) (name : Text) : Except Obstacle Place :=
  if name.getLast? = some '/' then
    (s.followFrom name (directoryParts name)).bind fun _ => .error .isDirectory
  else
    (s.place? name).bind fun p => if s.entry? p = some .directory then .error .isDirectory else .ok p

/-- Writes a text to a file that takes all of it. -/
def write (s : Store) (name : Text) (t : Text) : Except FileError Store :=
  match s.target? name with
  | .ok p => .ok (s.put p (Utf8.encode t))
  | .error obstacle => .error (.cannotOpen obstacle name)

theorem lookup_filter_ne {α β : Type} [BEq α] [LawfulBEq α] [DecidableEq α] {a b : α}
    (h : a ≠ b) (l : List (α × β)) : (l.filter (·.1 ≠ b)).lookup a = l.lookup a := by
  induction l with
  | nil => rfl
  | cons e l ih =>
    obtain ⟨x, y⟩ := e
    rw [List.filter_cons, List.lookup_cons]
    by_cases hx : x = b
    · have hax : (a == x) = false := beq_false_of_ne (hx ▸ h)
      rw [if_neg (by simpa using hx), ih]
      simp [hax]
    · rw [if_pos (by simpa using hx), List.lookup_cons, ih]

/-- Writing a place leaves the entries of all other places as they are. -/
theorem lookup_put_of_ne {s : Store} {p q : Place} {bytes : List UInt8} (h : q ≠ p) :
    (s.put p bytes).entries.lookup q = s.entries.lookup q := by
  have hqp : (q == p) = false := beq_false_of_ne h
  rw [put, List.lookup_append, lookup_filter_ne h, List.lookup_cons]
  simp [hqp]

/-- The place lies in the current directory or below it. -/
def isInside (p : Place) : Bool :=
  match p.head? with
  | none => false
  | some name => name ≠ ['.', '.'] ∧ name ≠ ['/']

/-- The files below the current directory that differ from what was there before, by name. -/
def changedFiles (before after : Store) : List (Text × List UInt8) :=
  after.entries.filterMap fun (place, entry) =>
    match entry with
    | .directory => none
    | .file bytes =>
      if !isInside place || before.entries.lookup place = some entry then none
      else some (Text.join ['/'] place, bytes)

end Store
end AriaLint
