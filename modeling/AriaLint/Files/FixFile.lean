import AriaLint.Files.Store
import AriaLint.Fix.Apply

/-!
# Fixing a file

The text of a file is fixed and written to another file, or to the same one.

This is the result where the fixed text can be written at all: everything else that can go wrong
happens before a store is changed, so a failure leaves the store as it was.
-/

namespace AriaLint

/-- Why a run ends without an answer. -/
inductive Failure where
  | file (error : FileError)
  /-- A path without names has no extension that could be replaced. -/
  | noName (path : Path)
  | markup (error : Markup.MarkupError)
  deriving DecidableEq, Repr

/-- The wording of a failure. -/
def Failure.message : Failure → Text
  | file error => error.message
  | noName path => "PosixPath(" ++ Text.quoted path.toText ++ ") has an empty name"
  | markup error => error.message

/-- The path that takes the fixed text of a file: the given one, or the file's own path with another
extension. -/
def outputPath (input : Path) : Option Path → Except Failure Path
  | some output => .ok output
  | none =>
    match input.fixed? with
    | some output => .ok output
    | none => .error (.noName input)

/-- Fixes the text of a file, and writes it: the path written to, and the store afterwards. -/
def fixFile (o : Fix.Options) (s : Store) (input : Path) (output : Option Path) :
    Except Failure (Path × Store) := do
  let output ← outputPath input output
  let snippet ← (s.read input.toText).mapError .file
  let store ← (s.write output.toText (Fix.apply o snippet).text).mapError .file
  return (output, store)

end AriaLint
