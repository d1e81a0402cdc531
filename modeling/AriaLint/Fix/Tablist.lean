import AriaLint.Closing
import AriaLint.Fix.Change

/-!
# Tablists

A container without a role that wraps tabs becomes a tablist.  Where the container ends can be judged
in two ways.

*By the first closing tag.*  A container is an opening tag, a tab somewhere behind it, and the first
closing tag of the same name behind that tab.  The name of a container is the longest possible one
for which these can be found, so it may be shorter than the tag's name.  A container that has a role
already is passed over with all its content.

*By depth.*  A container ends at its own closing tag.  One that is a tablist already is passed over
with all its content, while one with another role may still have a container inside.
-/

namespace AriaLint.Fix

open Message

/-- The value is the role of a tab. -/
def isTab (value : Text) : Bool :=
  (Text.readWord? sameLetter "tab" (Text.trim value)).any fun r => r.2.isEmpty

/-- The reader of role attributes that make a tab. -/
def tabRole : Reader Attribute := (Attribute.reader [.exactly "role"]).filter fun a => isTab a.value

/-- The tag as a tablist, with its log entry. -/
def addTablist (t : Tag) : Edit where
  tag := appendAttributes t (written "role" "tablist")
  change :=
    { kind := .addedTablist
      message := html
        ["Added ", roleCode "tablist", " to ", tagCode t.name, " that wraps elements with ",
         roleCode "tab", "."]
      tagName := t.name, roleName := "tablist", attributeNames := ["role"] }

/-! ## Containers up to the first closing tag -/

/-- An opening tag, and what follows it up to the closing tag, both included. -/
structure Container where
  tag : Tag
  content : Text
  deriving DecidableEq, Repr

namespace Container

/-- The container as it stands in the markup. -/
def source (c : Container) : Text := c.tag.source ++ c.content

/-- What follows the first closing tag of the name behind the first tab.  Here the name has to
recur in the same letters, upper and lower case aside. -/
def afterTabs? (name t : Text) : Option Text := do
  let tab ← tabRole.find? (some '>') t
  let close ← (Closing.reader sameSmall name).find? none tab.after
  some close.after

/-- A container at the head of a text. -/
def read? : Text → Option (Container × Text)
  | '<' :: t =>
    (Tag.nameCuts t).findSome? fun (name, t) => do
      let (attrs, t) ← Text.upTo? '>' t
      let rest ← afterTabs? name t
      some (⟨⟨name, attrs⟩, t.take (t.length - rest.length)⟩, rest)
  | _ => none

theorem length_of_find? {α : Type} {read : Reader α} {before : Option Char} {t : Text}
    {f : Found α} (h : read.find? before t = some f) : f.after.length < t.length := by
  induction t generalizing before f with
  | nil => simp [Reader.find?] at h
  | cons c t ih =>
    unfold Reader.find? at h
    split at h
    · next a rest hr =>
      obtain rfl := Option.some.inj h
      exact read.shortens hr
    · obtain ⟨g, hg, rfl⟩ := Option.map_eq_some_iff.1 h
      exact Nat.lt_succ_of_lt (ih (f := g) hg)

theorem length_of_afterTabs? {name t rest : Text} (h : afterTabs? name t = some rest) :
    rest.length < t.length := by
  simp only [afterTabs?, Option.bind_eq_bind] at h
  obtain ⟨tab, htab, h⟩ := Option.bind_eq_some_iff.1 h
  obtain ⟨close, hclose, h⟩ := Option.bind_eq_some_iff.1 h
  obtain rfl := Option.some.inj h
  exact Nat.lt_trans (length_of_find? hclose) (length_of_find? htab)

theorem length_of_read? {t rest : Text} {c : Container} (h : read? t = some (c, rest)) :
    rest.length < t.length := by
  unfold read? at h
  split at h
  · next u =>
    obtain ⟨⟨name, v⟩, hv, h⟩ := List.exists_of_findSome?_eq_some h
    simp only [Option.bind_eq_bind] at h
    obtain ⟨⟨attrs, w⟩, hw, h⟩ := Option.bind_eq_some_iff.1 h
    obtain ⟨r, hr, h⟩ := Option.bind_eq_some_iff.1 h
    simp only [Option.some.injEq, Prod.mk.injEq] at h
    obtain ⟨_, rfl⟩ := h
    have hname := congrArg List.length (Tag.append_of_mem_nameCuts hv)
    have hattrs := congrArg List.length (Text.upTo?_eq_some hw).1
    have hrest := length_of_afterTabs? hr
    simp only [List.length_append, List.length_cons] at *
    omega
  · simp at h

/-- The reader of containers. -/
def reader : Reader Container where
  read? _ t := read? t
  shortens := length_of_read?

/-- The edit of a container's tag; none for one that has a role. -/
def edit? (c : Container) : Option Edit :=
  if c.tag.has "role" then none else some (addTablist c.tag)

/-- The container with its tag edited. -/
def edited (c : Container) : Text := ((c.edit?.map Edit.tag).getD c.tag).source ++ c.content

end Container

/-- Makes tablists of containers that end at the first closing tag of their name. -/
def addTablistsByFirstClose (t : Text) : Result where
  text := Container.reader.rewrite Container.edited t
  changes := (Container.reader.items t).filterMap fun c => c.edit?.map Edit.change

/-! ## Containers up to their own closing tag -/

/-- The closing tag of a container of tabs, as positions in the text `t` behind its opening tag. -/
def closeAroundTabs? (tag : Tag) (t : Text) : Option Span :=
  if tag.isSelfClosing then none
  else
    (Closing.matching? tag.name t).filter fun close =>
      (tabRole.find? none (t.take close.start)).isSome

/-- Makes tablists among the pieces of a text; the first `skip` characters belong to a container
that has been dealt with.  Result: the pieces, with tags edited, and the log. -/
def tablistPieces : (skip : Nat) → List (Piece Tag) → List (Piece Tag) × List Change
  | _, [] => ([], [])
  | skip, .char c :: ps =>
    let (qs, cs) := tablistPieces (skip - 1) ps
    (.char c :: qs, cs)
  | skip + 1, .item t :: ps =>
    let (qs, cs) := tablistPieces (skip + 1 - t.source.length) ps
    (.item t :: qs, cs)
  | 0, .item t :: ps =>
    match closeAroundTabs? t (Tag.textOf ps) with
    | none =>
      let (qs, cs) := tablistPieces 0 ps
      (.item t :: qs, cs)
    | some close =>
      if !t.has "role" then
        let (qs, cs) := tablistPieces close.stop ps
        (.item (addTablist t).tag :: qs, (addTablist t).change :: cs)
      else
        let (qs, cs) := tablistPieces (if t.role? = some "tablist" then close.stop else 0) ps
        (.item t :: qs, cs)

/-- Makes tablists of containers that end at their own closing tag. -/
def addTablistsByDepth (t : Text) : Result :=
  let (ps, cs) := tablistPieces 0 (Tag.pieces t)
  ⟨Tag.textOf ps, cs⟩

end AriaLint.Fix
