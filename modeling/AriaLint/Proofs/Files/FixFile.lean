import AriaLint.Files.FixFile
import AriaLint.Proofs.Files.Store
import AriaLint.Proofs.Fix.Balance
import AriaLint.Proofs.Text.Utf8

/-!
# A file with nothing to fix

A file whose text is left as it is, is still read and written.  Both go through the text, and that
does not keep every byte: line ends are unified when a file is read, and a line feed is written for
each of them.  All else is kept, whatever the characters are (`fixFile_of_changes_eq_nil`).  So such
a file is written as it was if it has no carriage return, and only then.

There is always a place for the text to go: a path that a file can be read under has a name
(`exists_outputPath`), so there is an extension to replace.
-/

namespace AriaLint

variable {o : Fix.Options} {s : Store} {name : Text} {input out : Path} {output : Option Path}
  {bytes : List UInt8} {t : Text}

/-! ## The path of the fixed text -/

/-- A path without names is the current directory or the root. -/
theorem place?_of_names_eq_nil (s : Store) (h : (Path.ofText name).names = []) :
    ∃ p, s.place? (Path.ofText name).toText = .ok p ∧ Store.isAncestor p = true := by
  have hroot : (Path.ofText name).root = [] ∨ (Path.ofText name).root = ['/', '/'] ∨
      (Path.ofText name).root = ['/'] := by
    show Path.rootOf name = _ ∨ Path.rootOf name = _ ∨ Path.rootOf name = _
    unfold Path.rootOf
    split
    · exact Or.inl rfl
    · exact Or.inr (Or.inl rfl)
    · exact Or.inr (Or.inr rfl)
  rcases hroot with hroot | hroot | hroot
  · refine ⟨[], ?_, rfl⟩
    rw [Path.toText, if_pos ⟨hroot, h⟩]
    rfl
  all_goals
    refine ⟨[['/']], ?_, rfl⟩
    rw [Path.toText, if_neg (by simp [hroot]), hroot, h]
    rfl

/-- **What can be read has a name**, so its extension can be replaced. -/
theorem exists_outputPath (h : s.readBytes (Path.ofText name).toText = .ok bytes)
    (output : Option Path) : ∃ out, outputPath (.ofText name) output = .ok out := by
  cases output with
  | some out => exact ⟨out, rfl⟩
  | none =>
    have hnames : (Path.ofText name).names ≠ [] := by
      intro hnames
      obtain ⟨p, hplace, hp⟩ := place?_of_names_eq_nil s hnames
      have hentry : s.entry? p = some .directory := if_pos hp
      rw [Store.readBytes, hplace] at h
      dsimp only at h
      rw [hentry] at h
      simp at h
    simp [outputPath, Path.fixed?, Path.withExtension?, List.getLast?_eq_some_getLast hnames]

/-! ## What is written -/

/-- A file is fixed by writing its text after the fixes. -/
theorem fixFile_eq_write (hread : s.read input.toText = .ok t)
    (hout : outputPath input output = .ok out) :
    fixFile o s input output =
      ((s.write out.toText (Fix.apply o t).text).mapError Failure.file).map (out, ·) := by
  rw [fixFile, hout, hread]
  rfl

/-- **A text that has been read is written as its bytes were, but for the line ends.** -/
theorem encode_of_textOf (h : Store.textOf bytes = .ok t) :
    Utf8.encode t = Utf8.unifyLineEnds bytes := by
  unfold Store.textOf at h
  cases hdecode : Utf8.decode bytes with
  | error refusal => simp [hdecode] at h
  | ok u =>
    rw [hdecode] at h
    obtain rfl := Except.ok.inj h
    rw [Utf8.encode_unifyNewlines, Utf8.encode_of_decode hdecode]

/-- **A file with nothing to fix is written with unified line ends.**  It is refused only where the
file to be written cannot be opened.  What is written has the bytes of the file that was read, except
that a carriage return, with or without a line feed after it, has become a line feed. -/
theorem fixFile_of_changes_eq_nil (output : Option Path)
    (hbytes : s.readBytes (Path.ofText name).toText = .ok bytes)
    (htext : Store.textOf bytes = .ok t) (hnone : (Fix.apply o t).changes = []) :
    ∃ out, outputPath (.ofText name) output = .ok out ∧
      (∀ obstacle, s.target? out.toText = .error obstacle →
        fixFile o s (.ofText name) output = .error (.file (.cannotOpen obstacle out.toText))) ∧
      ∀ p, s.target? out.toText = .ok p → ∃ s',
        fixFile o s (.ofText name) output = .ok (out, s') ∧
          s'.readBytes out.toText = .ok (Utf8.unifyLineEnds bytes) ∧
          (s'.readBytes out.toText = .ok bytes ↔ 0x0D ∉ bytes) := by
  obtain ⟨out, hout⟩ := exists_outputPath hbytes output
  have hread : s.read (Path.ofText name).toText = .ok t := by
    rw [Store.read, hbytes]
    exact htext
  refine ⟨out, hout, ?_, ?_⟩
  · intro obstacle htarget
    rw [fixFile_eq_write hread hout, Store.write, htarget]
    rfl
  · intro p htarget
    obtain ⟨s', hwrite⟩ : ∃ s', s.write out.toText (Fix.apply o t).text = .ok s' :=
      ⟨_, Store.write_eq_ok_iff.2 ⟨p, htarget, rfl⟩⟩
    have hwritten : s'.readBytes out.toText = .ok (Utf8.unifyLineEnds bytes) := by
      rw [Store.readBytes_write hwrite, Fix.apply_of_changes_eq_nil hnone, encode_of_textOf htext]
    refine ⟨s', ?_, hwritten, ?_⟩
    · rw [fixFile_eq_write hread hout, hwrite]
      rfl
    · rw [hwritten, ← Utf8.unifyLineEnds_eq_self_iff]
      exact ⟨Except.ok.inj, congrArg Except.ok⟩

/-- A byte order mark and characters of all lengths are kept. -/
theorem fixFile_unicode :
    let bytes := Utf8.encode "\ufeff<p>aé€😀</p>\n"
    ∃ s', fixFile .default ⟨[(["a.html"], .file bytes)]⟩ (.ofText "a.html") none =
        .ok (.ofText "a.fixed.html", s') ∧ s'.readBytes "a.fixed.html" = .ok bytes := by
  intro bytes
  have hbytes : Store.readBytes ⟨[(["a.html"], .file bytes)]⟩ (Path.ofText "a.html").toText =
      .ok bytes := by decide +kernel
  have htext : Store.textOf bytes = .ok ("\ufeff<p>aé€😀</p>\n" : Text) := by decide +kernel
  have hnone : (Fix.apply .default "\ufeff<p>aé€😀</p>\n").changes = [] := by decide +kernel
  obtain ⟨out, hout, -, hwritten⟩ := fixFile_of_changes_eq_nil none hbytes htext hnone
  obtain rfl : Path.ofText "a.fixed.html" = out := Except.ok.inj hout
  obtain ⟨s', hfix, -, hkept⟩ := hwritten [("a.fixed.html" : Text)] (by decide +kernel)
  exact ⟨s', hfix, hkept.2 (by decide +kernel)⟩

/-- Not every file with nothing to fix is written as it was: a carriage return before a line feed is
dropped. -/
theorem fixFile_not_kept :
    ¬ ∀ (s s' : Store) (name : Text) (out : Path) (bytes : List UInt8) (t : Text),
      s.readBytes (Path.ofText name).toText = .ok bytes → Store.textOf bytes = .ok t →
        (Fix.apply .default t).changes = [] →
          fixFile .default s (.ofText name) none = .ok (out, s') →
            s'.readBytes out.toText = .ok bytes := by
  intro h
  let s : Store := ⟨[(["a.html"], .file (Utf8.encode "<p>\r\n</p>"))]⟩
  have hfix : fixFile .default s (.ofText "a.html") none = .ok (.ofText "a.fixed.html",
      s.put ["a.fixed.html"] (Utf8.encode "<p>\n</p>")) := by decide +kernel
  exact absurd (h s _ "a.html" _ (Utf8.encode "<p>\r\n</p>") "<p>\n</p>" (by decide +kernel)
    (by decide +kernel) (by decide +kernel) hfix) (by decide +kernel)

end AriaLint
