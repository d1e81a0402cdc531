import AriaLint.Proofs.Cli.Run

/-!
# Inputs that cannot be read

A check whose input cannot be read stops before it prints or writes anything, whatever else it has
been asked to do.  There are two ways to stop: with one error in the log and exit code 1, or with a
failure that nothing handles (`run_of_unreadable`).

A file is looked at before it is opened, and what goes wrong when it is opened gets reported.  Three
inputs escape that.  The standard input is decoded outside of any report.  A path without names has
no extension, which is found out when the path for the fixed text is made, before the input is read.
Of a name that is too long it cannot even be told whether there is a file.
-/

namespace AriaLint.Cli

variable {a : Arguments} {store : Store} {stdin : List UInt8}

/-- The input cannot be read as a text. -/
def IsUnreadable (a : Arguments) (store : Store) (stdin : List UInt8) : Prop :=
  if readsStdin a then ∃ e, Store.textOf stdin = .error e
  else ∃ e, store.read (Path.ofText a.input).toText = .error e

/-- A run reports its input when that cannot be read.  Of the standard input only this is reported,
that the fixed text has no place to go. -/
def ReportsUnreadable (a : Arguments) (store : Store) : Prop :=
  if readsStdin a then a.fix = some []
  else
    (a.fix = some [] → (Path.ofText a.input).names ≠ []) ∧
      store.place? (Path.ofText a.input).toText ≠ .error .nameTooLong

/-! ## Where the fixed text goes -/

theorem fixTarget_ok_or_withoutPath (a : Arguments) :
    (∃ target, fixTarget a = .ok target) ∨ a.fix = some [] := by
  unfold fixTarget
  split
  · exact Or.inl ⟨_, rfl⟩
  · next hfix => exact Or.inr hfix
  · exact Or.inl ⟨_, rfl⟩

/-- The standard input has no path that could be changed. -/
theorem fixTarget_of_stdin (hstdin : readsStdin a = true) (hfix : a.fix = some []) :
    ∃ message, fixTarget a = .error (.error message) := by
  unfold fixTarget
  rw [hfix]
  exact ⟨_, if_pos hstdin⟩

/-- The path of the fixed text is that of the file with another extension, if it has a name. -/
theorem fixTarget_of_file (hfile : readsStdin a = false) (hfix : a.fix = some []) :
    ((Path.ofText a.input).names = [] →
        fixTarget a = .error (.failure (.noName (.ofText a.input)))) ∧
      ((Path.ofText a.input).names ≠ [] → ∃ target, fixTarget a = .ok target) := by
  constructor
  · intro hnames
    have hpath : outputPath (.ofText a.input) none = .error (.noName (.ofText a.input)) := by
      simp [outputPath, Path.fixed?, Path.withExtension?, hnames]
    simp [fixTarget, hfix, hfile, hpath]
  · intro hnames
    obtain ⟨path, hpath⟩ : ∃ path, outputPath (.ofText a.input) none = .ok path := by
      simp [outputPath, Path.fixed?, Path.withExtension?, List.getLast?_eq_some_getLast hnames]
    exact ⟨some path, by simp [fixTarget, hfix, hfile, hpath]⟩

/-! ## The input -/

theorem readInput_of_stdin {e : FileError} (hstdin : readsStdin a = true)
    (h : Store.textOf stdin = .error e) :
    readInput a store stdin = .error (.failure (.file e)) := by
  unfold readInput
  rw [if_pos hstdin, h]

/-- **A file that cannot be read is reported**, unless its name is too long. -/
theorem readInput_of_file {e : FileError} (stdin : List UInt8) (hfile : readsStdin a = false)
    (h : store.read (Path.ofText a.input).toText = .error e) :
    (store.place? (Path.ofText a.input).toText ≠ .error .nameTooLong →
        ∃ message, readInput a store stdin = .error (.error message)) ∧
      (store.place? (Path.ofText a.input).toText = .error .nameTooLong →
        ∃ f, readInput a store stdin = .error (.failure f)) := by
  unfold readInput
  rw [if_neg (by simp [hfile])]
  dsimp only
  rw [h]
  unfold Store.has
  constructor
  · intro hplace
    split
    · next heq =>
      -- whether there is a file is unknown only where the name is too long
      split at heq
      · simp at heq
      · next hlong => exact absurd hlong hplace
      · simp at heq
    · exact ⟨_, rfl⟩
    · exact ⟨_, rfl⟩
  · intro hplace
    rw [hplace]
    exact ⟨_, rfl⟩

/-! ## The run -/

/-- A check that stops early. -/
theorem check_of_stop {stop : Stop}
    (h : (fixTarget a).bind (fun _ => readInput a store stdin) = .error stop) :
    check a store stdin = Output.finish ⟨[], stop.log, store⟩ a.isVerbose stop.ending := by
  unfold check
  cases htarget : fixTarget a with
  | error s =>
    rw [htarget] at h
    obtain rfl := Except.error.inj h
    rfl
  | ok target =>
    rw [htarget] at h
    replace h : readInput a store stdin = .error stop := h
    dsimp only
    rw [h]

/-- An input that cannot be read ends the check early, with a report or with a failure. -/
theorem exists_stop_of_unreadable (h : IsUnreadable a store stdin) :
    ∃ stop, (fixTarget a).bind (fun _ => readInput a store stdin) = .error stop ∧
      (ReportsUnreadable a store → ∃ message, stop = .error message) ∧
      (¬ ReportsUnreadable a store → ∃ f, stop = .failure f) := by
  unfold IsUnreadable at h
  unfold ReportsUnreadable
  cases hsource : readsStdin a with
  | true =>
    rw [if_pos hsource] at h
    obtain ⟨e, he⟩ := h
    by_cases hfix : a.fix = some []
    · obtain ⟨message, hmessage⟩ := fixTarget_of_stdin hsource hfix
      exact ⟨.error message, by rw [hmessage]; rfl, fun _ => ⟨message, rfl⟩,
        fun hreports => absurd hfix hreports⟩
    · obtain ⟨target, htarget⟩ := (fixTarget_ok_or_withoutPath a).resolve_right hfix
      exact ⟨_, by rw [htarget]; exact readInput_of_stdin hsource he,
        fun hreports => absurd hreports hfix, fun _ => ⟨_, rfl⟩⟩
  | false =>
    rw [if_neg (by simp [hsource])] at h
    obtain ⟨e, he⟩ := h
    rw [if_neg (by simp)]
    by_cases hnoName : a.fix = some [] ∧ (Path.ofText a.input).names = []
    · obtain ⟨hfix, hnames⟩ := hnoName
      exact ⟨_, by rw [(fixTarget_of_file hsource hfix).1 hnames]; rfl,
        fun hreports => absurd hnames (hreports.1 hfix), fun _ => ⟨_, rfl⟩⟩
    · have hnames : a.fix = some [] → (Path.ofText a.input).names ≠ [] := not_and.1 hnoName
      obtain ⟨target, htarget⟩ : ∃ target, fixTarget a = .ok target := by
        rcases fixTarget_ok_or_withoutPath a with hok | hfix
        · exact hok
        · exact (fixTarget_of_file hsource hfix).2 (hnames hfix)
      rw [htarget]
      obtain ⟨hreport, hfailure⟩ := readInput_of_file stdin hsource he
      by_cases hplace : store.place? (Path.ofText a.input).toText = .error .nameTooLong
      · obtain ⟨f, hf⟩ := hfailure hplace
        exact ⟨_, hf, fun hreports => absurd hplace hreports.2, fun _ => ⟨f, rfl⟩⟩
      · obtain ⟨message, hmessage⟩ := hreport hplace
        exact ⟨_, hmessage, fun _ => ⟨message, rfl⟩, fun hreports => absurd ⟨hnames, hplace⟩ hreports⟩

/-- **A run on an input that cannot be read** prints nothing and leaves all files as they are.  Where
it reports the input, it logs one error and ends with exit code 1; otherwise it logs nothing and ends
with a failure. -/
theorem run_of_unreadable {words : List Text} (hparse : parse words = .ok (.check a))
    (h : IsUnreadable a store stdin) :
    (run words store stdin).stdout = [] ∧ (run words store stdin).store = store ∧
      (ReportsUnreadable a store →
        (run words store stdin).ending = .exit 1 ∧
          ∃ message, (run words store stdin).stderr = LogLine.render ⟨.error, message⟩) ∧
      (¬ ReportsUnreadable a store →
        (∃ f, (run words store stdin).ending = .failure f) ∧
          (run words store stdin).stderr = []) := by
  have hrun : run words store stdin = check a store stdin := by
    unfold run
    rw [hparse]
  obtain ⟨stop, hstop, hreport, hfailure⟩ := exists_stop_of_unreadable h
  rw [hrun, check_of_stop hstop]
  refine ⟨rfl, rfl, fun hreports => ?_, fun hreports => ?_⟩
  · obtain ⟨message, rfl⟩ := hreport hreports
    exact ⟨rfl, message, by simp [Output.finish, Stop.error]⟩
  · obtain ⟨f, rfl⟩ := hfailure hreports
    exact ⟨⟨f, rfl⟩, rfl⟩

/-- A directory is reported, also to a run that shall fix it, and all its files stay. -/
theorem run_of_unreadable_directory :
    let store : Store := ⟨[(["a", "b.html"], .file [])]⟩
    (run ["a", "--fix"] store []).ending = .exit 1 ∧ (run ["a", "--fix"] store []).stdout = [] ∧
      (run ["a", "--fix"] store []).store = store := by
  intro store
  have hparse : parse ["a", "--fix"] = .ok (.check ⟨"a", none, .text, some [], false, false⟩) := by
    decide +kernel
  have hread : store.read (Path.ofText "a").toText = .error (.cannotOpen .isDirectory "a") := by
    decide +kernel
  obtain ⟨hstdout, hstore, hreports, -⟩ :=
    run_of_unreadable hparse (show IsUnreadable _ store [] from ⟨_, hread⟩)
  exact ⟨(hreports ⟨by decide +kernel, by decide +kernel⟩).1, hstdout, hstore⟩

/-- Not every input that cannot be read is reported: a byte of the standard input that stands for no
character is not, and neither is the current directory where its fixed text has no place to go. -/
theorem run_unreported :
    ¬ (∀ (words : List Text) (a : Arguments) (store : Store) (stdin : List UInt8),
        parse words = .ok (.check a) → readsStdin a = true → IsUnreadable a store stdin →
          (run words store stdin).ending = .exit 1) ∧
      ¬ (∀ (words : List Text) (a : Arguments) (store : Store) (stdin : List UInt8),
        parse words = .ok (.check a) → readsStdin a = false → IsUnreadable a store stdin →
          (run words store stdin).ending = .exit 1) := by
  constructor
  · intro h
    have hread : IsUnreadable ⟨"-", none, .text, none, false, false⟩ ⟨[]⟩ [0xFF] :=
      ⟨.notText ⟨0, 1, 0xFF, .startByte⟩, by decide +kernel⟩
    exact absurd (h ["-"] _ ⟨[]⟩ [0xFF] (by decide +kernel) rfl hread) (by decide +kernel)
  · intro h
    have hread : IsUnreadable ⟨".", none, .text, some [], false, false⟩ ⟨[]⟩ [] :=
      ⟨.cannotOpen .isDirectory ".", by decide +kernel⟩
    exact absurd (h [".", "--fix"] _ ⟨[]⟩ [] (by decide +kernel) rfl hread) (by decide +kernel)

end AriaLint.Cli
