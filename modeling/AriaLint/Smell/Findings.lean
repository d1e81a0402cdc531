import AriaLint.Smell.Diagnostic
import AriaLint.Tag

/-!
# Findings

The findings of a run, gathered one by one.  Caps are enforced while the passes run: a finding that
is added counts for its kind, and one of a kind that is full is dropped.  A pass that can find one
kind only may ask whether the kind is full and leave the tags that are left alone
(`Findings.addUntilFull`).
-/

namespace AriaLint.Smell

/-- The findings gathered so far, the newest first, with the caps in force and the number of
findings of each kind that has any. -/
structure Findings where
  cap : Kind → Option Int
  newestFirst : List Diagnostic
  counts : List (Kind × Nat)

namespace Findings

/-- No findings yet. -/
def start (cap : Kind → Option Int) : Findings := ⟨cap, [], []⟩

/-- The findings in the order in which they were made. -/
def inOrder (f : Findings) : List Diagnostic := f.newestFirst.reverse

/-- How many findings of a kind there are. -/
def count (f : Findings) (k : Kind) : Nat := (f.counts.lookup k).getD 0

/-- No further finding of the kind is taken. -/
def isFull (f : Findings) (k : Kind) : Bool :=
  match f.cap k with
  | some c => c ≤ f.count k
  | none => false

/-- The findings with one more, unless its kind is full. -/
def add (f : Findings) (d : Diagnostic) : Findings :=
  if f.isFull d.kind then f
  else
    { f with
      newestFirst := d :: f.newestFirst
      counts := (d.kind, f.count d.kind + 1) :: f.counts.filter (·.1 ≠ d.kind) }

/-- The findings with more of them, one after the other. -/
def addAll (f : Findings) (ds : List Diagnostic) : Findings := ds.foldl add f

/-- Adds what a rule finds in each tag. -/
def addEach (rule : Tag → List Diagnostic) (f : Findings) (ts : List Tag) : Findings :=
  ts.foldl (fun f t => f.addAll (rule t)) f

/-- Adds what a rule finds in tag after tag, up to the tag before which the kind is full. -/
def addUntilFull (k : Kind) (rule : Tag → List Diagnostic) (f : Findings) : List Tag → Findings
  | [] => f
  | t :: ts => if f.isFull k then f else addUntilFull k rule (f.addAll (rule t)) ts

end Findings
end AriaLint.Smell
