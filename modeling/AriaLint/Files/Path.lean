import AriaLint.Text.Basic

/-!
# Paths

A path is a list of names below a root.  Empty names and single dots are dropped when a path is read,
double dots are kept, since what they mean depends on the file system.  A path without names stands
for the current directory.
-/

namespace AriaLint

namespace Text

/-- The parts of a text between separators. -/
def splitOn (separator : Char) : Text → List Text
  | [] => [[]]
  | c :: t =>
    match splitOn separator t with
    | [] => [[c]]
    | part :: parts => if c = separator then [] :: part :: parts else (c :: part) :: parts

end Text

/-- A path: its root, which is empty for a relative path, and its names. -/
structure Path where
  root : Text
  names : List Text
  deriving DecidableEq, Repr

namespace Path

/-- The root of a path.  Exactly two slashes are a root of their own. -/
def rootOf (t : Text) : Text :=
  match (t.takeWhile (· == '/')).length with
  | 0 => []
  | 2 => ['/', '/']
  | _ => ['/']

/-- Reads a path. -/
def ofText (t : Text) : Path :=
  ⟨rootOf t, (Text.splitOn '/' t).filter fun name => name ≠ [] ∧ name ≠ ['.']⟩

/-- The path as a text. -/
def toText (p : Path) : Text :=
  if p.root = [] ∧ p.names = [] then ['.'] else p.root ++ Text.join ['/'] p.names

/-- A name cut at its last dot, unless the dot stands at the head or at the end: the dot and what
follows it are the extension. -/
def stem (name : Text) : Text :=
  let extension := name.reverse.takeWhile (· != '.')
  let before := (name.reverse.drop extension.length).tail.reverse
  if extension = [] ∨ before = [] then name else before

/-- The path with its extension replaced, or appended where it has none; a path without names has
no extension to replace. -/
def withExtension? (p : Path) (extension : Text) : Option Path :=
  p.names.getLast?.map fun name => { p with names := p.names.dropLast ++ [stem name ++ extension] }

/-- Where the fixed text goes unless told otherwise. -/
def fixed? (p : Path) : Option Path := p.withExtension? ".fixed.html"

example : (ofText "./d//a.tar.gz").fixed?.map toText = some ("d/a.tar.fixed.html" : Text) := by
  decide +kernel

example :
    [".hidden", "noext", "a."].map (fun t : String => (ofText t).fixed?.map toText) =
      [some (".hidden.fixed.html" : Text), some "noext.fixed.html", some "a..fixed.html"] := by
  decide +kernel

end Path
end AriaLint
