import AriaLint.Cli.Run

/-!
# The program

The outer layer takes a snapshot of the files that a check may open, runs the program on it, and
carries out what the run has decided.
-/

open AriaLint

/-- What is at a path, read from the file system. -/
def snapshotEntry (path : String) : IO (Option Entry) := do
  try
    let bytes ← IO.FS.readBinFile path
    return some (.file bytes.toList)
  catch _ =>
    try
      let _ ← IO.FS.readFile (path ++ "/.")
      return none
    catch
      | .noFileOrDirectory .. => return none
      | .inappropriateType .. => return some .directory
      | _ => return some .directory

/-- The paths that lead to a path, itself included, with their places. -/
def pathsTo (path : Text) : List (Place × Text) :=
  let names := Text.splitOn '/' path
  let start : Place := if path.head? = some '/' then [['/']] else []
  (List.range names.length).map fun n =>
    let taken := names.take (n + 1)
    (taken.foldl
      (fun p name =>
        if name = [] ∨ name = ['.'] then p
        else if name = ['.', '.'] then Store.parent p
        else p ++ [name]) start,
     Text.join ['/'] taken)

/-- The files and directories on the way to some names. -/
def snapshot (names : List Text) : IO Store := do
  let mut entries : List (Place × Entry) := []
  for name in names do
    for (place, path) in pathsTo name do
      if (entries.lookup place).isNone && !path.contains '\x00' && path ≠ [] then
        match ← snapshotEntry (String.ofList path) with
        | some entry => entries := entries ++ [(place, entry)]
        | none => pure ()
  return ⟨entries⟩

/-- All bytes of a stream. -/
partial def readAll (stream : IO.FS.Stream) (read : List UInt8) : IO (List UInt8) := do
  let bytes ← stream.read 65536
  if bytes.isEmpty then return read
  readAll stream (read ++ bytes.toList)

/-- Runs the program. -/
def main (args : List String) : IO UInt32 := do
  let words := args.map String.toList
  let (names, wantsStdin) := match Cli.parse words with
    | .ok (.check a) => (Cli.openedNames a, Cli.readsStdin a)
    | _ => ([], false)
  let store ← snapshot names
  let stdin ← if wantsStdin then readAll (← IO.getStdin) [] else pure []
  let outcome := Cli.run words store stdin
  for (place, entry) in outcome.store.entries do
    if store.entries.lookup place ≠ some entry then
      match entry with
      | .file bytes =>
        IO.FS.writeBinFile (String.ofList (Text.join ['/'] place)) ⟨bytes.toArray⟩
      | .directory => pure ()
  IO.print (String.ofList outcome.stdout)
  IO.eprint (String.ofList outcome.stderr)
  match outcome.ending with
  | .exit code => return code.toUInt32
  | .failure f =>
    IO.eprintln (String.ofList f.message)
    return 1
