import AriaLint.Fix.Apply
import AriaLint.Json
import AriaLint.Report.Roles
import AriaLint.Report.States

/-!
# Reports

A report brings together what can be said about a snippet: its smells, the fixes, its roles and its
states.  It is written as a JSON document for programs and as text for people.  A report holds its
findings once; the numbers in it are counted from them when it is written.
-/

namespace AriaLint

/-- What was found out about a snippet from the given source. -/
structure Report where
  source : Text
  timestamp : Text
  roles : RoleSummary
  states : List StateSummary
  diagnostics : List Smell.Diagnostic
  fixed : Fix.Result
  deriving DecidableEq, Repr

namespace Report

/-- The time that is reported where no clock is asked. -/
def noTime : Text := "2000-01-01T00:00:00"

/-- Detects the smells of a snippet, fixes it, and sums it up. -/
def analyze (snippet source : Text) (detection : Smell.Options) (fixes : Fix.Options) :
    Except Markup.MarkupError Report :=
  (Smell.detect detection snippet).map fun diagnostics =>
    { source := source
      timestamp := noTime
      roles := RoleSummary.ofSnippet snippet
      states := StateSummary.ofSnippet snippet diagnostics
      diagnostics := diagnostics
      fixed := Fix.apply fixes snippet }

/-- The snippet has smells. -/
def hasSmells (r : Report) : Bool := !r.diagnostics.isEmpty

/-- How often each label occurs, in the order of first occurrence. -/
def tally (labels : List Text) : List (Text × Nat) :=
  (distinct labels).map fun label => (label, labels.count label)

/-- The number of findings of each category. -/
def categoryCounts (r : Report) : List (Text × Nat) := tally (r.diagnostics.map (·.category.label))

/-- The number of findings of each kind. -/
def kindCounts (r : Report) : List (Text × Nat) := tally (r.diagnostics.map (·.kind.label))

/-! ## As a JSON document -/

/-- Counts by label. -/
def countsJson (counts : List (Text × Nat)) : Json :=
  .object (counts.map fun (label, n) => (label, .count n))

/-- A reference entry. -/
def roleJson (r : Role) : Json :=
  .object
    [("name", .text r.name), ("category", .text r.category.label),
     ("description", .text r.description), ("doc_url", .text r.docUrl),
     ("preferred_native_element", .textOrNull r.preferredElement),
     ("good_for", .texts r.goodFor), ("deprecated", .bool r.isDeprecated)]

/-- The roles of a snippet. -/
def rolesJson (s : RoleSummary) : Json :=
  .object
    [("explicit_roles", .texts s.explicitRoles),
     ("primary_role", (s.primary.map roleJson).getD .null),
     ("unknown_roles", .texts s.unknownRoles), ("implicit_roles", .texts s.implicitRoles),
     ("is_implicit", .bool s.isImplicit)]

/-- An attribute with its explanation. -/
def stateJson (s : StateSummary) : Json :=
  .object
    [("name", .text s.name), ("value", .text s.value), ("hint", .text s.hint),
     ("has_issue", .bool s.hasIssue)]

/-- A finding, with its message without markup. -/
def diagnosticJson (d : Smell.Diagnostic) : Except Markup.MarkupError Json :=
  d.text.map fun text =>
    .object
      [("kind", .text d.kind.label), ("message", .text d.message),
       ("subject_attribute", .textOrNull d.attributeName),
       ("subject_role", .textOrNull d.roleName), ("tag_name", .textOrNull d.tagName),
       ("category", .text d.category.label), ("text", .text text)]

/-- A change. -/
def changeJson (c : Fix.Change) : Json :=
  .object
    [("kind", .text c.kind.label), ("message", .text c.message), ("tag_name", .text c.tagName),
     ("role", .text c.roleName), ("attributes", .texts c.attributeNames)]

/-- The report as a document. -/
def json (r : Report) : Except Markup.MarkupError Json := do
  let diagnostics ← r.diagnostics.mapM diagnosticJson
  return .object
    [("source", .text r.source), ("timestamp", .text r.timestamp),
     ("total_smells", .count r.diagnostics.length),
     ("fixes_available", .count r.fixed.changes.length),
     ("category_counts", countsJson r.categoryCounts), ("kind_counts", countsJson r.kindCounts),
     ("roles", rolesJson r.roles), ("attributes", .list (r.states.map stateJson)),
     ("diagnostics", .list diagnostics), ("changes", .list (r.fixed.changes.map changeJson)),
     ("fixed_text", .text r.fixed.text)]

/-- The report as the text of a JSON document. -/
def renderJson (r : Report) : Except Markup.MarkupError Text := r.json.map Json.render

/-! ## As a text -/

/-- An attribute with its explanation. -/
def stateLine (s : StateSummary) : Text :=
  "  " ++ s.name ++ "=\"" ++ s.value ++ "\" - " ++ s.hint ++
    if s.hasIssue then ("  [potential issue]" : Text) else []

/-- A finding with its number. -/
def diagnosticLines (d : Smell.Diagnostic) (number : Nat) :
    Except Markup.MarkupError (List Text) :=
  d.text.map fun text =>
    [Text.ofNat number ++ ". [" ++ d.category.heading ++ "] " ++ d.kind.label, "   " ++ text, []]

/-- The lines about the attributes. -/
def stateLines (ss : List StateSummary) : List Text :=
  if ss.isEmpty then [] else "\nARIA STATES & PROPERTIES:\n" :: ss.map stateLine

/-- The lines about the findings. -/
def diagnosticsLines (ds : List Smell.Diagnostic) : Except Markup.MarkupError (List Text) :=
  if ds.isEmpty then .ok ["\nNo obvious ARIA issues detected."]
  else do
    let lines ← (ds.zipIdx 1).mapM fun (d, number) => diagnosticLines d number
    return "\nSMELLS FOUND:\n" :: lines.flatten

/-- The lines about the changes. -/
def changesLines (r : Fix.Result) : Except Markup.MarkupError (List Text) :=
  if r.changes.isEmpty then .ok []
  else do
    let texts ← r.changes.mapM Fix.Change.text
    let listed : List Text := texts.map fun text => "  - " ++ text
    return "\nSUGGESTED FIXES:\n" :: listed.append [[], "Fixed snippet:", r.text]

/-- A line across the page. -/
def divider (c : Char) : Text := List.replicate 70 c

/-- The lines that open a report. -/
def headLines (r : Report) : List Text :=
  [divider '=', "ARIA SNIPPET ANALYSIS REPORT", divider '=', "Source: " ++ r.source,
   "Timestamp: " ++ r.timestamp, divider '-',
   "Total Smells: " ++ Text.ofNat r.diagnostics.length]

/-- The lines that count. -/
def countLines (r : Report) : List Text :=
  r.categoryCounts.map fun (label, n) => "  " ++ label ++ ": " ++ Text.ofNat n

/-- The lines about the fixes and the roles. -/
def summaryLines (r : Report) : List Text :=
  ["Fixes Available: " ++ Text.ofNat r.fixed.changes.length, divider '-', r.roles.line]

/-- The report as a text. -/
def renderText (r : Report) : Except Markup.MarkupError Text := do
  let found ← diagnosticsLines r.diagnostics
  let changed ← changesLines r.fixed
  return Text.join "\n"
    (r.headLines ++ r.countLines ++ r.summaryLines ++ stateLines r.states ++ found ++ changed ++
      [divider '='])

end Report
end AriaLint
