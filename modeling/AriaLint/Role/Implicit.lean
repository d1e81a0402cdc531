import AriaLint.Attribute
import AriaLint.Role.Catalogue

/-!
# Implicit roles

The role that a native element carries without being told.  A link has one only when it points
somewhere, an input field has the one of its type, which is a text field when none is given.

`find?_implicit` says that every implicit role is in the reference.
-/

namespace AriaLint.Role

/-- Elements whose role does not depend on attributes. -/
def elementRoles : List (Text × Text) :=
  [("button", "button"), ("nav", "navigation"), ("main", "main"), ("header", "banner"),
   ("footer", "contentinfo"), ("ul", "list"), ("ol", "list"), ("li", "listitem"),
   ("table", "table"), ("tr", "row"), ("td", "cell"), ("textarea", "textbox")]

/-- The roles of input fields, by type. -/
def inputTypeRoles : List (Text × Text) :=
  [("button", "button"), ("submit", "button"), ("reset", "button"), ("image", "button"),
   ("checkbox", "checkbox"), ("radio", "radio"), ("email", "textbox"), ("tel", "textbox"),
   ("url", "textbox"), ("text", "textbox"), ("password", "textbox"), ("search", "textbox"),
   ("number", "textbox")]

/-- The role that an element of that name carries, given its attribute text. -/
def implicit? (element attrs : Text) : Option Text :=
  let element := normalize element
  match elementRoles.lookup element with
  | some role => some role
  | none =>
    if element = "a" then if Attribute.hasFilled "href" attrs then some "link" else none
    else if element = "input" then
      inputTypeRoles.lookup (normalize ((Attribute.filledValue? "type" attrs).getD "text"))
    else none

/-- The role that an element of that name carries, given its tag as it stands in the markup. -/
def implicitOf? (source element : Text) : Option Text := implicit? element source

theorem mem_of_lookup {α β : Type} [BEq α] [LawfulBEq α] {a : α} {b : β} {l : List (α × β)}
    (h : l.lookup a = some b) : (a, b) ∈ l := by
  induction l with
  | nil => simp at h
  | cons p l ih =>
    obtain ⟨x, y⟩ := p
    rw [List.lookup_cons] at h
    by_cases hx : a == x
    · simp only [hx] at h
      simp only [Option.some.injEq] at h
      rw [eq_of_beq hx, h]
      exact List.mem_cons_self
    · simp only [hx] at h
      exact List.mem_cons_of_mem _ (ih h)

/-- The roles that an element can carry without being told. -/
def implicitRoles : List Text := "link" :: (elementRoles ++ inputTypeRoles).map Prod.snd

theorem implicit?_mem {element attrs role : Text} (h : implicit? element attrs = some role) :
    role ∈ implicitRoles := by
  have listed {e : Text} (he : (e, role) ∈ elementRoles ++ inputTypeRoles) :
      role ∈ implicitRoles := List.mem_cons_of_mem _ (List.mem_map_of_mem (f := Prod.snd) he)
  simp only [implicit?] at h
  split at h
  · next r hr =>
    obtain rfl := Option.some.inj h
    exact listed (List.mem_append_left _ (mem_of_lookup hr))
  · split at h
    · split at h
      · obtain rfl := Option.some.inj h
        exact List.mem_cons_self
      · simp at h
    · split at h
      · exact listed (List.mem_append_right _ (mem_of_lookup h))
      · simp at h

/-- Every implicit role is in the reference, under its own name. -/
theorem find?_implicit {element attrs role : Text} (h : implicit? element attrs = some role) :
    ∃ r, find? role = some r ∧ r.name = role := by
  have known : ∀ n ∈ implicitRoles, n ∈ all.map name := by decide +kernel
  obtain ⟨r, hr, rfl⟩ := List.mem_map.1 (known role (implicit?_mem h))
  exact ⟨r, find?_name hr, rfl⟩

end AriaLint.Role
