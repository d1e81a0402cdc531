import AriaLint.Role.Implicit
import AriaLint.Tag

/-!
# The roles of a snippet

Explicit roles count; only where there are none do the implicit ones.  The primary role is the first
that the reference knows, and the one that a report describes.
-/

namespace AriaLint

/-- The members of a list, each where it stands first. -/
def distinct {α : Type} [DecidableEq α] : List α → List α
  | [] => []
  | a :: l => a :: (distinct l).filter (· ≠ a)

/-- The same members. -/
theorem mem_distinct {α : Type} [DecidableEq α] {a : α} {l : List α} : a ∈ distinct l ↔ a ∈ l := by
  induction l with
  | nil => simp [distinct]
  | cons b l ih => by_cases h : a = b <;> simp [distinct, h, ih]

/-- No member twice. -/
theorem nodup_distinct {α : Type} [DecidableEq α] (l : List α) : (distinct l).Nodup := by
  induction l with
  | nil => simp [distinct]
  | cons b l ih =>
    rw [distinct, List.nodup_cons]
    exact ⟨by simp, ih.sublist List.filter_sublist⟩

/-- The roles of a snippet: the explicit ones, the primary one, those among the explicit ones that
the reference does not know, the implicit ones where they count, and whether the primary role is
one of these. -/
structure RoleSummary where
  explicitRoles : List Text
  primary : Option Role
  unknownRoles : List Text
  implicitRoles : List Text
  isImplicit : Bool
  deriving DecidableEq, Repr

namespace RoleSummary

/-- The roles of a snippet. -/
def ofSnippet (snippet : Text) : RoleSummary :=
  let explicitRoles := distinct (Tag.roles snippet)
  if explicitRoles = [] then
    let implicitRoles :=
      distinct ((Tag.all snippet).filterMap fun t => Role.implicit? t.name t.attrs)
    let primary := implicitRoles.findSome? Role.find?
    ⟨[], primary, [], implicitRoles, primary.isSome⟩
  else
    ⟨explicitRoles, explicitRoles.findSome? Role.find?,
      explicitRoles.filter fun r => (Role.find? r).isNone, [], false⟩

/-- One line about the roles. -/
def line (s : RoleSummary) : Text :=
  match s.primary with
  | some role =>
    (if s.isImplicit then "Implicit role: " else "Role: ") ++ role.name ++ " (" ++
      role.category.label ++ ") - " ++ role.description ++
      (match role.preferredElement with
        | some element => (" Prefer " : Text) ++ element ++ "."
        | none => []) ++
      (if role.isDeprecated then (" Deprecated." : Text) else [])
  | none =>
    if s.explicitRoles = [] then "No role attributes or implicit roles detected."
    else "Roles not in the ARIA reference: " ++ Text.join ", " s.unknownRoles

end RoleSummary
end AriaLint
