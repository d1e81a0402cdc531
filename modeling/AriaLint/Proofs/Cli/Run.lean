import AriaLint.Cli.Run
import AriaLint.Proofs.Files.FixFile

/-!
# A run and the functions behind it

A check finds its paths, reads and writes by itself, and writes a report in between.  Still, when it
comes to an answer, the answer is that of the functions for a single snippet and a single file: the
exit code tells whether the detector finds anything in the text of the input, and the fixed text is
the one that `fixFile` would have written, to the same path, had it been asked instead
(`run_agrees`).

A run that comes to an answer has gone through all its steps (`exists_steps_of_exit`).  The report may
have been written to any file, the input and the output of the fixes among them.  That does no harm:
the input has been read by then, the fixed text is written last, and a file that can be written after
the report could have been written before it.
-/

namespace AriaLint.Cli

variable {a : Arguments} {store : Store} {stdin : List UInt8} {code : Nat}

/-- What a check comes to on its way to an answer: the path for the fixed text, the input, the report,
and the output before and after the fixed text is written. -/
structure Steps where
  target : Option Path
  source : Text
  snippet : Text
  report : Report
  reported : Output
  done : Output

/-- The steps are those of a check, which then ends with an answer. -/
structure Steps.AreTaken (t : Steps) (a : Arguments) (store : Store) (stdin : List UInt8) : Prop where
  target : fixTarget a = .ok t.target
  input : readInput a store stdin = .ok (t.source, t.snippet)
  analyzed : Report.analyze t.snippet t.source .default (fixOptions a) = .ok t.report
  reported : ∃ rendered p, p.store = store ∧ writeReport a rendered p = .ok t.reported
  done : writeFixed t.target t.report t.reported = .ok t.done
  left : (check a store stdin).store = t.done.store
  ending : (check a store stdin).ending = .exit (exitCode t.report)

/-- An early end is none with an answer. -/
theorem ending_stopped_fixTarget {stop : Stop} (h : fixTarget a = .error stop) :
    stop.ending ≠ .exit 0 ∧ stop.ending ≠ .exit 2 := by
  unfold fixTarget at h
  split at h
  · simp at h
  · split at h
    · obtain rfl := Except.error.inj h
      simp [Stop.error]
    · split at h
      · simp at h
      · obtain rfl := Except.error.inj h
        simp [Stop.failure]
  · simp at h

theorem ending_stopped_readInput {stop : Stop} (h : readInput a store stdin = .error stop) :
    stop.ending ≠ .exit 0 ∧ stop.ending ≠ .exit 2 := by
  unfold readInput at h
  split at h
  · split at h
    · simp at h
    · obtain rfl := Except.error.inj h
      simp [Stop.failure]
  · dsimp only at h
    split at h
    · obtain rfl := Except.error.inj h
      simp [Stop.failure]
    · obtain rfl := Except.error.inj h
      simp [Stop.error]
    · split at h
      · simp at h
      · obtain rfl := Except.error.inj h
        simp [Stop.error]

/-- **A check that comes to an answer has taken all its steps.** -/
theorem exists_steps_of_exit (h : (check a store stdin).ending = .exit code)
    (hcode : code = 0 ∨ code = 2) :
    ∃ t : Steps, t.AreTaken a store stdin := by
  have hearly : ∀ {stop : Stop}, stop.ending ≠ .exit 0 ∧ stop.ending ≠ .exit 2 →
      stop.ending ≠ .exit code := by
    rintro stop ⟨hzero, htwo⟩
    rcases hcode with rfl | rfl
    · exact hzero
    · exact htwo
  cases htarget : fixTarget a with
  | error stop =>
    simp only [check, htarget] at h
    exact absurd h (hearly (ending_stopped_fixTarget htarget))
  | ok target =>
    cases hinput : readInput a store stdin with
    | error stop =>
      simp only [check, htarget, hinput] at h
      exact absurd h (hearly (ending_stopped_readInput hinput))
    | ok input =>
      obtain ⟨source, snippet⟩ := input
      have hcheck : check a store stdin = checkSnippet a target source snippet store := by
        simp only [check, htarget, hinput]
      rw [hcheck] at h
      cases hanalyzed : Report.analyze snippet source .default (fixOptions a) with
      | error e =>
        simp only [checkSnippet, hanalyzed] at h
        exact absurd h (by simp [Output.finish])
      | ok r =>
        cases hrendered : renderReport a.format r with
        | error e =>
          simp only [checkSnippet, hanalyzed, hrendered] at h
          exact absurd h (by simp [Output.finish])
        | ok rendered =>
          cases hreported : writeReport a rendered (Output.addLog
              ⟨[], [⟨.info, "Checking: " ++ source⟩], store⟩ (analysisLog source snippet r)) with
          | error e =>
            simp only [checkSnippet, hanalyzed, hrendered, hreported] at h
            exact absurd h (by simp [Output.finish])
          | ok reported =>
            cases hdone : writeFixed target r reported with
            | error e =>
              simp only [checkSnippet, hanalyzed, hrendered, hreported, hdone] at h
              exact absurd h (by simp [Output.finish])
            | ok done =>
              refine ⟨⟨target, source, snippet, r, reported, done⟩, htarget, hinput, hanalyzed,
                ⟨rendered, _, rfl, hreported⟩, hdone, ?_, ?_⟩
              · simp only [hcheck, checkSnippet, hanalyzed, hrendered, hreported, hdone]
                rfl
              · simp only [hcheck, checkSnippet, hanalyzed, hrendered, hreported, hdone]
                rfl

/-! ## The steps that touch files -/

/-- A report goes to no file, or to one. -/
theorem store_of_writeReport {rendered : Text} {p p' : Output}
    (h : writeReport a rendered p = .ok p') :
    p'.store = p.store ∨ ∃ name, p.store.write name rendered = .ok p'.store := by
  unfold writeReport at h
  split at h
  · obtain rfl := Except.ok.inj h
    exact Or.inl rfl
  · next name hname =>
    cases hwrite : p.store.write name rendered with
    | error e =>
      rw [hwrite] at h
      exact absurd h (by simp [Except.map])
    | ok s =>
      rw [hwrite] at h
      obtain rfl := Except.ok.inj h
      exact Or.inr ⟨name, hwrite⟩

theorem store_of_writeFixed {path : Path} {r : Report} {p p' : Output}
    (h : writeFixed (some path) r p = .ok p') :
    p.store.write path.toText r.fixed.text = .ok p'.store := by
  unfold writeFixed at h
  dsimp only at h
  cases hwrite : p.store.write path.toText r.fixed.text with
  | error e =>
    rw [hwrite] at h
    exact absurd h (by simp [Except.map])
  | ok s =>
    rw [hwrite] at h
    obtain rfl := Except.ok.inj h
    rfl

/-- Where the fixed text goes: to the path of `fixFile`. -/
theorem outputPath_of_fixTarget {word : Text} {target : Option Path} (hfix : a.fix = some word)
    (h : fixTarget a = .ok target) :
    ∃ path, target = some path ∧
      outputPath (.ofText a.input) (if word = [] then none else some (.ofText word)) = .ok path := by
  unfold fixTarget at h
  rw [hfix] at h
  cases word with
  | nil =>
    dsimp only at h
    split at h
    · simp at h
    · split at h
      · next path hpath =>
        obtain rfl := Except.ok.inj h
        exact ⟨path, rfl, hpath⟩
      · simp at h
  | cons c word =>
    obtain rfl := Except.ok.inj h
    exact ⟨_, rfl, rfl⟩

/-- The text of an input that is a file. -/
theorem snippet_of_readInput {source snippet text : Text} (hinput : a.input ≠ ['-'])
    (h : readInput a store stdin = .ok (source, text))
    (hread : store.read (Path.ofText a.input).toText = .ok snippet) : text = snippet := by
  have hfile : readsStdin a = false := beq_false_of_ne hinput
  unfold readInput at h
  rw [hfile, if_neg (by decide)] at h
  dsimp only at h
  split at h
  · simp at h
  · simp at h
  · rw [hread] at h
    exact (Prod.mk.inj (Except.ok.inj h)).2.symm

/-! ## The answer -/

/-- **A run agrees with the functions behind it.**  When a run on a readable file ends with exit code
0 or 2, the code is 2 exactly when the detector finds something in the text of the file.  Where the
fixed text is asked for, `fixFile` succeeds as well, from the files as they were before the run: it
would have written to the same path, and what it would have written is what the run has left there. -/
theorem run_agrees {words : List Text} {snippet : Text}
    (hparse : parse words = .ok (.check a)) (hinput : a.input ≠ ['-'])
    (hread : store.read (Path.ofText a.input).toText = .ok snippet)
    (hending : (run words store stdin).ending = .exit code) (hcode : code = 0 ∨ code = 2) :
    (∃ ds, Smell.detect .default snippet = .ok ds ∧ (code = 2 ↔ ds ≠ [])) ∧
      ∀ word, a.fix = some word → ∃ path s,
        fixFile { Fix.Options.default with trackDepth := a.trackDepth } store (.ofText a.input)
            (if word = [] then none else some (.ofText word)) = .ok (path, s) ∧
          fixTarget a = .ok (some path) ∧
          (run words store stdin).store.readBytes path.toText = s.readBytes path.toText ∧
          s.readBytes path.toText =
            .ok (Utf8.encode
              (Fix.apply { Fix.Options.default with trackDepth := a.trackDepth } snippet).text) := by
  have hrun : run words store stdin = check a store stdin := by
    unfold run
    rw [hparse]
  rw [hrun] at hending ⊢
  obtain ⟨t, ht⟩ := exists_steps_of_exit hending hcode
  have hsnippet : t.snippet = snippet := snippet_of_readInput hinput ht.input hread
  obtain ⟨ds, hds, hr⟩ := Markup.eq_ok_of_map_eq_ok ht.analyzed
  rw [hsnippet] at hds hr
  constructor
  · refine ⟨ds, hds, ?_⟩
    have hanswer : code = exitCode t.report := Ending.exit.inj (hending.symm.trans ht.ending)
    have hsmells : t.report.hasSmells = !ds.isEmpty := by rw [← hr]; rfl
    rw [hanswer, exitCode, hsmells]
    cases ds with
    | nil => simp
    | cons d ds => simp
  · intro word hfix
    obtain ⟨path, htarget, hpath⟩ := outputPath_of_fixTarget hfix ht.target
    have hfixed : t.report.fixed = Fix.apply (fixOptions a) snippet := by rw [← hr]
    have hdone := ht.done
    rw [htarget] at hdone
    have hwritten := store_of_writeFixed hdone
    -- the report may have been written in between, but to a file, so the path was open before
    obtain ⟨rendered, p, hp, hreport⟩ := ht.reported
    obtain ⟨s, hs⟩ : ∃ s, store.write path.toText t.report.fixed.text = .ok s := by
      rcases store_of_writeReport hreport with hsame | ⟨name, hwrite⟩
      · exact ⟨_, by rw [← hp, ← hsame]; exact hwritten⟩
      · rw [hp] at hwrite
        exact Store.exists_write_of_write hwrite hwritten
    have hleft : (check a store stdin).store.readBytes path.toText =
        .ok (Utf8.encode t.report.fixed.text) := by
      rw [ht.left]
      exact Store.readBytes_write hwritten
    have hthere := Store.readBytes_write hs
    refine ⟨path, s, ?_, htarget ▸ ht.target, hleft.trans hthere.symm, by rw [hthere, hfixed]; rfl⟩
    rw [hfixed] at hs
    exact (fixFile_eq_write hread hpath).trans (by rw [← fixOptions, hs]; rfl)

/-- The report and the fixed text go to the same file, which holds the fixed text in the end. -/
theorem run_agrees_sharedOutput :
    let words : List Text := ["a.html", "-o", "b.html", "--fix", "b.html"]
    let store : Store := ⟨[(["a.html"], .file (Utf8.encode "<tr role='row'>"))]⟩
    (run words store []).ending = .exit 2 ∧
      (∃ ds, Smell.detect .default "<tr role='row'>" = .ok ds ∧ ds ≠ []) ∧
      ∃ path s, fixFile .default store (.ofText "a.html") (some (.ofText "b.html")) = .ok (path, s) ∧
        path = .ofText "b.html" ∧
        (run words store []).store.readBytes path.toText = .ok (Utf8.encode "<tr>") := by
  intro words store
  have hparse : parse words = .ok (.check
      ⟨"a.html", some "b.html", .text, some "b.html", false, false⟩) := by decide +kernel
  have hending : (run words store []).ending = .exit 2 := by decide +kernel
  have hread : store.read (Path.ofText "a.html").toText = .ok "<tr role='row'>" := by decide +kernel
  obtain ⟨⟨ds, hds, hcode⟩, hfix⟩ := run_agrees hparse (by decide) hread hending (Or.inr rfl)
  obtain ⟨path, s, hfile, htarget, hleft, hthere⟩ := hfix "b.html" rfl
  refine ⟨hending, ⟨ds, hds, hcode.mp rfl⟩, path, s, hfile, ?_, ?_⟩
  · exact (Option.some.inj (Except.ok.inj htarget)).symm
  · rw [hleft, hthere]
    decide +kernel

end AriaLint.Cli
