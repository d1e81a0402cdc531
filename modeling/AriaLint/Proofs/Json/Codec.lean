import AriaLint.Proofs.Json.RoundTrip

/-!
# Values as documents

How values of a type are written as documents, together with a way back that is known to be one
(`Codec`).  Records are written as objects.  A field is read by its key, wherever it stands, and
fields that are not asked for do not matter.
-/

namespace AriaLint.Json

variable {α : Type}

/-- Reads the field of an object. -/
def field? (key : Text) (read? : Json → Option α) : Json → Option α
  | object fields => (fields.lookup key).bind read?
  | _ => none

/-- Reads the items of a list. -/
def items? (read? : Json → Option α) : Json → Option (List α)
  | list items => items.mapM read?
  | _ => none

/-- A field is read wherever it stands. -/
theorem field?_object {fields : List (Text × Json)} {key : Text} {read? : Json → Option α}
    {j : Json} {a : α} (h : fields.lookup key = some j) (hread : read? j = some a) :
    field? key read? (object fields) = some a := by
  rw [field?, h]
  exact hread

/-- A way to write values as documents, and the way back. -/
structure Codec (α : Type) where
  write : α → Json
  read? : Json → Option α
  read?_write : ∀ a, read? (write a) = some a

namespace Codec

def text : Codec Text where
  write := .text
  read? | .text t => some t | _ => none
  read?_write _ := rfl

def bool : Codec Bool where
  write := .bool
  read? | .bool b => some b | _ => none
  read?_write _ := rfl

def count : Codec Nat where
  write := .count
  read? | .count n => some n | _ => none
  read?_write _ := rfl

/-- Values that have different names. -/
def named (all : List α) (name : α → Text) (mem_all : ∀ a, a ∈ all)
    (distinct : (all.map name).Nodup) : Codec α where
  write a := .text (name a)
  read? | .text t => all.find? (name · = t) | _ => none
  read?_write a := Text.find?_eq_of_nodup distinct (mem_all a)

/-- A value that may be missing, if no value is written as null. -/
def orNull (c : Codec α) (h : ∀ a, c.write a ≠ .null) : Codec (Option α) where
  write a := (a.map c.write).getD .null
  read? | .null => some none | j => (c.read? j).map some
  read?_write
    | none => rfl
    | some a => by
      have hread := c.read?_write a
      simp only [Option.map_some, Option.getD_some]
      split
      · next hnull => exact absurd hnull (h a)
      · rw [hread, Option.map_some]

def list (c : Codec α) : Codec (List α) where
  write as := .list (as.map c.write)
  read? := items? c.read?
  read?_write as := by
    rw [items?]
    induction as with
    | nil => rfl
    | cons a as ih =>
      rw [List.map_cons, List.mapM_cons, c.read?_write, ih]
      rfl

/-- A field is read as it was written. -/
theorem field?_write (c : Codec α) {fields : List (Text × Json)} {key : Text} {a : α}
    (h : fields.lookup key = some (c.write a)) : field? key c.read? (object fields) = some a :=
  field?_object h (c.read?_write a)

end Codec
end AriaLint.Json
