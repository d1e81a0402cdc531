import AriaLint.Files.FixFile

/-!
# Fixing a file step by step

When a file is fixed, a path is computed, a file is read, another one is opened, and a text is
written.  Opening a file for writing empties it, and the text may still be refused then: it has no
bytes, or the device has no room for them.  So the steps are taken one by one on a store that every
step may change, and whatever has become of the store when a step fails is left behind.
-/

namespace AriaLint

/-- What a text has to pass on its way into a file: the encoding, which has no bytes for surrogates,
and the device, which may have room for so many bytes only. -/
structure Sink where
  surrogates : Utf8.Surrogates
  room : Option Nat

namespace Sink

/-- A sink that takes every text. -/
def unlimited : Sink := ⟨fun _ => none, none⟩

/-- The bytes that there is room for. -/
def take (k : Sink) (bytes : List UInt8) : List UInt8 :=
  match k.room with
  | none => bytes
  | some n => bytes.take n

/-- How writing a text into an empty file ends, and what the file holds then.  A text with a
surrogate is refused as a whole; of any other as much is written as there is room for. -/
def write (k : Sink) (t : Text) : Except FileError Unit × List UInt8 :=
  match Utf8.encode? k.surrogates t with
  | .error refusal => (.error (.notEncodable refusal), [])
  | .ok bytes => (if k.take bytes = bytes then .ok () else .error .noSpace, k.take bytes)

end Sink

/-- A run on a store, which it leaves behind whether it ends with a result or with a failure. -/
abbrev FileRun (α : Type) := ExceptT Failure (StateM Store) α

namespace FileRun

variable {α : Type}

/-- The result of a computation that needs no store. -/
def ofExcept : Except Failure α → FileRun α
  | .ok a => pure a
  | .error e => throw e

/-- Reads the text of a file. -/
def read (name : Text) : FileRun Text := do
  ofExcept (((← get).read name).mapError .file)

/-- Opens a file for writing: afterwards it exists and is empty. -/
def openEmpty (name : Text) : FileRun Place := do
  let place ← ofExcept
    (((← get).target? name).mapError fun obstacle => .file (.cannotOpen obstacle name))
  modify (·.put place [])
  return place

/-- Writes a text to a file that has been opened.  A failure leaves what has been written. -/
def write (k : Sink) (place : Place) (t : Text) : FileRun Unit := do
  modify (·.put place (k.write t).2)
  ofExcept ((k.write t).1.mapError .file)

end FileRun

/-- Fixes the text of a file, one step after the other. -/
def fixFileSteps (k : Sink) (o : Fix.Options) (input : Path) (output : Option Path) :
    FileRun Path := do
  let path ← .ofExcept (outputPath input output)
  let snippet ← .read input.toText
  let fixed := (Fix.apply o snippet).text
  let place ← .openEmpty path.toText
  .write k place fixed
  return path

end AriaLint
