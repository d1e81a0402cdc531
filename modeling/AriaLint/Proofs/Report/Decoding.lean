import AriaLint.Proofs.Json.Codec
import AriaLint.Proofs.Message.Findings
import AriaLint.Proofs.Smell.Success
import AriaLint.Report.Analysis

/-!
# Reports that are read back

A report is written for programs as the text of a JSON document.  Nothing is lost in it: the report
is read from the text (`renderJson_faithful`), whatever characters the snippet, the options and the
name of the source have put into it.

Some of what a document says is said twice.  The counts are those of the findings and the changes
that are listed, and a finding comes with the category of its kind and with the text of its message.
The reader takes nothing on trust here.  A document in which these do not agree is no report.

That there is a document at all is no matter of course, since the text of a message may be impossible
to tell.  For the findings of the detector it is not (`exists_text_of_mem`).
-/

namespace AriaLint.Report

open Json (Codec field? items?)

/-! ## The parts of a report -/

def categoryCodec : Codec Smell.Category :=
  .named Smell.Category.all Smell.Category.label (by rintro (_ | _) <;> decide) (by decide +kernel)

def kindCodec : Codec Smell.Kind :=
  .named Smell.Kind.all Smell.Kind.label Smell.Kind.mem_all (by decide +kernel)

def fixKindCodec : Codec Fix.Kind :=
  .named [.removedRedundantRole, .addedAriaChecked, .addedValueRange, .addedTablist] Fix.Kind.label
    (by rintro (_ | _) <;> decide) (by decide +kernel)

def roleCategoryCodec : Codec Role.Category :=
  .named Role.Category.all Role.Category.label (by rintro (_ | _) <;> decide) (by decide +kernel)

def textOrNullCodec : Codec (Option Text) where
  write := .textOrNull
  read? := (Codec.text.orNull fun _ => nofun).read?
  read?_write
    | none => rfl
    | some _ => rfl

/-- A reference entry. -/
def roleCodec : Codec Role where
  write := roleJson
  read? j := do
    return {
      name := ← field? "name" Codec.text.read? j
      category := ← field? "category" roleCategoryCodec.read? j
      description := ← field? "description" Codec.text.read? j
      docUrl := ← field? "doc_url" Codec.text.read? j
      preferredElement := ← field? "preferred_native_element" textOrNullCodec.read? j
      goodFor := ← field? "good_for" Codec.text.list.read? j
      isDeprecated := ← field? "deprecated" Codec.bool.read? j }
  read?_write r := by
    unfold roleJson
    rw [Codec.text.field?_write (a := r.name) rfl,
      roleCategoryCodec.field?_write (a := r.category) rfl,
      Codec.text.field?_write (a := r.description) rfl,
      Codec.text.field?_write (a := r.docUrl) rfl,
      textOrNullCodec.field?_write (a := r.preferredElement) rfl,
      Codec.text.list.field?_write (a := r.goodFor) rfl,
      Codec.bool.field?_write (a := r.isDeprecated) rfl]
    rfl

/-- The roles of a snippet. -/
def rolesCodec : Codec RoleSummary where
  write := rolesJson
  read? j := do
    return {
      explicitRoles := ← field? "explicit_roles" Codec.text.list.read? j
      primary := ← field? "primary_role" (roleCodec.orNull fun _ => nofun).read? j
      unknownRoles := ← field? "unknown_roles" Codec.text.list.read? j
      implicitRoles := ← field? "implicit_roles" Codec.text.list.read? j
      isImplicit := ← field? "is_implicit" Codec.bool.read? j }
  read?_write s := by
    unfold rolesJson
    rw [Codec.text.list.field?_write (a := s.explicitRoles) rfl,
      (roleCodec.orNull fun _ => nofun).field?_write (a := s.primary) rfl,
      Codec.text.list.field?_write (a := s.unknownRoles) rfl,
      Codec.text.list.field?_write (a := s.implicitRoles) rfl,
      Codec.bool.field?_write (a := s.isImplicit) rfl]
    rfl

/-- An attribute with its explanation. -/
def stateCodec : Codec StateSummary where
  write := stateJson
  read? j := do
    return {
      name := ← field? "name" Codec.text.read? j
      value := ← field? "value" Codec.text.read? j
      hint := ← field? "hint" Codec.text.read? j
      hasIssue := ← field? "has_issue" Codec.bool.read? j }
  read?_write s := by
    unfold stateJson
    rw [Codec.text.field?_write (a := s.name) rfl, Codec.text.field?_write (a := s.value) rfl,
      Codec.text.field?_write (a := s.hint) rfl, Codec.bool.field?_write (a := s.hasIssue) rfl]
    rfl

/-- A change. -/
def changeCodec : Codec Fix.Change where
  write := changeJson
  read? j := do
    return {
      kind := ← field? "kind" fixKindCodec.read? j
      message := ← field? "message" Codec.text.read? j
      tagName := ← field? "tag_name" Codec.text.read? j
      roleName := ← field? "role" Codec.text.read? j
      attributeNames := ← field? "attributes" Codec.text.list.read? j }
  read?_write c := by
    unfold changeJson
    rw [fixKindCodec.field?_write (a := c.kind) rfl, Codec.text.field?_write (a := c.message) rfl,
      Codec.text.field?_write (a := c.tagName) rfl, Codec.text.field?_write (a := c.roleName) rfl,
      Codec.text.list.field?_write (a := c.attributeNames) rfl]
    rfl

/-- Counts by label. -/
def countsCodec : Codec (List (Text × Nat)) where
  write := countsJson
  read?
    | .object fields => fields.mapM fun (label, j) => (Codec.count.read? j).map (label, ·)
    | _ => none
  read?_write counts := by
    rw [countsJson]
    dsimp only
    induction counts with
    | nil => rfl
    | cons entry counts ih =>
      rw [List.map_cons, List.mapM_cons, ih]
      rfl

/-! ## Findings -/

/-- Reads a finding, if its category and its text are those of its kind and its message. -/
def readDiagnostic? (j : Json) : Option Smell.Diagnostic := do
  let d : Smell.Diagnostic := {
    kind := ← field? "kind" kindCodec.read? j
    message := ← field? "message" Codec.text.read? j
    attributeName := ← field? "subject_attribute" textOrNullCodec.read? j
    roleName := ← field? "subject_role" textOrNullCodec.read? j
    tagName := ← field? "tag_name" textOrNullCodec.read? j }
  let category ← field? "category" categoryCodec.read? j
  let text ← field? "text" Codec.text.read? j
  if category = d.category ∧ d.text = .ok text then some d else none

theorem readDiagnostic?_of_ok {d : Smell.Diagnostic} {j : Json} (h : diagnosticJson d = .ok j) :
    readDiagnostic? j = some d := by
  obtain ⟨text, htext, rfl⟩ := Markup.eq_ok_of_map_eq_ok h
  rw [readDiagnostic?, kindCodec.field?_write (a := d.kind) rfl,
    Codec.text.field?_write (a := d.message) rfl,
    textOrNullCodec.field?_write (a := d.attributeName) rfl,
    textOrNullCodec.field?_write (a := d.roleName) rfl,
    textOrNullCodec.field?_write (a := d.tagName) rfl,
    categoryCodec.field?_write (a := d.category) rfl,
    Codec.text.field?_write (a := text) rfl]
  exact if_pos ⟨rfl, htext⟩

/-- What has been written one by one is read one by one. -/
theorem mapM_readDiagnostic? {ds : List Smell.Diagnostic} {js : List Json}
    (h : ds.mapM diagnosticJson = .ok js) : js.mapM readDiagnostic? = some ds := by
  induction ds generalizing js with
  | nil =>
    obtain rfl := Except.ok.inj h
    rfl
  | cons d ds ih =>
    obtain ⟨j, js, hj, hjs, rfl⟩ := Smell.eq_cons_of_mapM_cons h
    rw [List.mapM_cons, readDiagnostic?_of_ok hj, ih hjs]
    rfl

/-! ## Reports -/

/-- The counts are those of the findings and of the changes. -/
def Agrees (r : Report) (j : Json) : Prop :=
  field? "total_smells" Codec.count.read? j = some r.diagnostics.length ∧
    field? "fixes_available" Codec.count.read? j = some r.fixed.changes.length ∧
    field? "category_counts" countsCodec.read? j = some r.categoryCounts ∧
    field? "kind_counts" countsCodec.read? j = some r.kindCounts

instance (r : Report) (j : Json) : Decidable (r.Agrees j) :=
  inferInstanceAs (Decidable (_ ∧ _ ∧ _ ∧ _))

/-- Reads a report, if its counts are those of what is listed. -/
def ofJson? (j : Json) : Option Report := do
  let r : Report := {
    source := ← field? "source" Codec.text.read? j
    timestamp := ← field? "timestamp" Codec.text.read? j
    roles := ← field? "roles" rolesCodec.read? j
    states := ← field? "attributes" stateCodec.list.read? j
    diagnostics := ← field? "diagnostics" (items? readDiagnostic?) j
    fixed := {
      text := ← field? "fixed_text" Codec.text.read? j
      changes := ← field? "changes" changeCodec.list.read? j } }
  if r.Agrees j then some r else none

/-- Reads a report from the text of a document. -/
def ofText? (t : Text) : Option Report := (Json.parse? t).bind ofJson?

/-- **A report is read from its document.** -/
theorem ofJson?_of_json {r : Report} {j : Json} (h : r.json = .ok j) : ofJson? j = some r := by
  obtain ⟨js, hjs, h⟩ := Smell.eq_ok_of_bind_eq_ok h
  obtain rfl := Except.ok.inj h
  have hread : items? readDiagnostic? (.list js) = some r.diagnostics := mapM_readDiagnostic? hjs
  rw [ofJson?, Codec.text.field?_write (a := r.source) rfl,
    Codec.text.field?_write (a := r.timestamp) rfl,
    rolesCodec.field?_write (a := r.roles) rfl,
    stateCodec.list.field?_write (a := r.states) rfl, Json.field?_object rfl hread,
    Codec.text.field?_write (a := r.fixed.text) rfl,
    changeCodec.list.field?_write (a := r.fixed.changes) rfl]
  exact if_pos ⟨Codec.count.field?_write rfl, Codec.count.field?_write rfl,
    countsCodec.field?_write rfl, countsCodec.field?_write rfl⟩

/-- **A report is read from its text.** -/
theorem ofText?_of_renderJson {r : Report} {t : Text} (h : r.renderJson = .ok t) :
    ofText? t = some r := by
  obtain ⟨j, hj, rfl⟩ := Markup.eq_ok_of_map_eq_ok h
  rw [ofText?, Json.parse?_render]
  exact ofJson?_of_json hj

/-! ## Reports on snippets -/

/-- A report can be written if the texts of its findings can be told. -/
theorem exists_renderJson {r : Report} (h : ∀ d ∈ r.diagnostics, ∃ t, d.text = .ok t) :
    ∃ t, r.renderJson = .ok t := by
  obtain ⟨js, hjs⟩ : ∃ js, r.diagnostics.mapM diagnosticJson = .ok js :=
    Smell.exists_ok_mapM_iff.2 fun d hd => Smell.exists_ok_map_iff.2 (h d hd)
  rw [renderJson, Smell.exists_ok_map_iff, json, hjs]
  exact ⟨_, rfl⟩

/-- They can, if the findings are those of a snippet. -/
theorem exists_text_of_mem {o : Smell.Options} {snippet : Text} {ds : List Smell.Diagnostic}
    (h : Smell.detect o snippet = .ok ds) : ∀ d ∈ ds, ∃ t, d.text = .ok t := by
  intro d hd
  obtain ⟨m, hm⟩ := Smell.exists_tells h hd
  refine ⟨m.plain, ?_⟩
  rw [Smell.Diagnostic.text, hm.message_eq]
  exact Message.content_html hm.isSolid

/-- **Nothing is lost in a document.**  A report on a snippet, with any time on it, can be written,
and it is read from what has been written.  So a report with the same text is the same report. -/
theorem renderJson_faithful {snippet source : Text} {detection : Smell.Options}
    {fixes : Fix.Options} {r : Report} (h : analyze snippet source detection fixes = .ok r)
    (time : Text) :
    (∃ t, { r with timestamp := time }.renderJson = .ok t ∧
        ofText? t = some { r with timestamp := time }) ∧
      ∀ r' : Report, { r with timestamp := time }.renderJson = r'.renderJson →
        { r with timestamp := time } = r' := by
  obtain ⟨t, ht⟩ : ∃ t, { r with timestamp := time }.renderJson = .ok t := by
    obtain ⟨ds, hds, rfl⟩ := Markup.eq_ok_of_map_eq_ok h
    exact exists_renderJson (exists_text_of_mem hds)
  refine ⟨⟨t, ht, ofText?_of_renderJson ht⟩, fun r' heq => ?_⟩
  have hread := ofText?_of_renderJson (heq.symm.trans ht)
  rw [ofText?_of_renderJson ht] at hread
  exact Option.some.inj hread

/-- Quotes, backslashes, control characters, and characters of one and of two units. -/
theorem renderJson_faithful_unicode :
    let snippet : Text := "<tr role='row' aria-hidden='\\\t\x7fé😀'>"
    let time : Text := "2024-02-29T12:00:00"
    ∃ r t, analyze snippet "a\"b\\c" .default .default = .ok r ∧ r.diagnostics.length = 3 ∧
      { r with timestamp := time }.renderJson = .ok t ∧
        ofText? t = some { r with timestamp := time } := by
  intro snippet time
  have hcount : (analyze snippet "a\"b\\c" .default .default).toOption.map
      (·.diagnostics.length) = some 3 := by decide +kernel
  cases hr : analyze snippet "a\"b\\c" .default .default with
  | error e =>
    rw [hr] at hcount
    cases hcount
  | ok r =>
    rw [hr] at hcount
    obtain ⟨⟨t, ht, hread⟩, -⟩ := renderJson_faithful hr time
    exact ⟨r, t, rfl, Option.some.inj hcount, ht, hread⟩

end AriaLint.Report
