import AriaLint.Files.Steps
import AriaLint.Proofs.Files.FixFile
import AriaLint.Proofs.Files.Path

/-!
# What fixing a file touches

A run that fixes a file touches no other file than the one of the output, however it ends
(`fixFileSteps_touches`).  A failure before that file is opened leaves every file as it was.

It would be nice to have this for every failure, and it is not so: opening the file has emptied it, and
if the text cannot be written then, what the file held is lost.  When a file is fixed in place, this
is the text that was to be fixed (`fixFileSteps_loses_text`).  A text is refused after all when an
option has brought a surrogate into it, or when the device is full.

Where the text can be written, all this is what `fixFile` tells in one go
(`run_fixFileSteps_unlimited`).
-/

namespace AriaLint

/-! ## Writing -/

namespace Sink

variable {k : Sink} {t : Text} {bytes : List UInt8}

theorem take_prefix (k : Sink) (bytes : List UInt8) : k.take bytes <+: bytes := by
  unfold take
  split
  · exact List.prefix_refl bytes
  · exact List.take_prefix _ bytes

/-- A text that is written is written as a whole. -/
theorem bytes_of_write_ok (h : k.write t = (.ok (), bytes)) : bytes = Utf8.encode t := by
  unfold write at h
  split at h
  · cases h
  · next whole hwhole =>
    obtain ⟨hresult, rfl⟩ := Prod.mk.inj h
    split at hresult
    · next htake => rw [htake, Utf8.eq_encode_of_encode? hwhole]
    · cases hresult

/-- A text that is refused leaves a beginning of it. -/
theorem prefix_of_write_error {e : FileError} (h : k.write t = (.error e, bytes)) :
    bytes <+: Utf8.encode t := by
  unfold write at h
  split at h
  · obtain ⟨-, rfl⟩ := Prod.mk.inj h
    exact List.nil_prefix
  · next whole hwhole =>
    obtain ⟨-, rfl⟩ := Prod.mk.inj h
    rw [← Utf8.eq_encode_of_encode? hwhole]
    exact k.take_prefix whole

theorem write_unlimited (t : Text) : unlimited.write t = (.ok (), Utf8.encode t) := by
  have hnone : (t.dropWhile fun c => (unlimited.surrogates c).isNone) = [] :=
    List.dropWhile_eq_nil_iff.2 fun _ _ => rfl
  have hencode : Utf8.encode? unlimited.surrogates t = .ok (Utf8.encode t) := by
    rw [Utf8.encode?, hnone]
  rw [write, hencode]
  show (if Utf8.encode t = Utf8.encode t then _ else _, _) = _
  rw [if_pos rfl]
  rfl

end Sink

/-! ## Steps on a store -/

namespace FileRun

variable {α : Type}

/-- A run that fails leaves behind what the step that failed has left. -/
theorem run_bind {β : Type} (x : FileRun α) (f : α → FileRun β) (s : Store) :
    (x >>= f).run.run s =
      match x.run.run s with
      | (.ok a, s') => (f a).run.run s'
      | (.error e, s') => (.error e, s') := by
  rw [ExceptT.run_bind, StateT.run_bind]
  obtain ⟨result, s'⟩ := x.run.run s
  cases result <;> rfl

theorem run_ofExcept (x : Except Failure α) (s : Store) : (ofExcept x).run.run s = (x, s) := by
  cases x <;> rfl

theorem run_read (name : Text) (s : Store) :
    (read name).run.run s = ((s.read name).mapError .file, s) :=
  run_ofExcept _ s

theorem run_openEmpty (name : Text) (s : Store) :
    (openEmpty name).run.run s =
      match s.target? name with
      | .ok place => (.ok place, s.put place [])
      | .error obstacle => (.error (.file (.cannotOpen obstacle name)), s) := by
  show (ofExcept _ >>= fun place => _).run.run s = _
  rw [run_bind, run_ofExcept]
  cases s.target? name <;> rfl

theorem run_write (k : Sink) (place : Place) (t : Text) (s : Store) :
    (write k place t).run.run s = ((k.write t).1.mapError .file, s.put place (k.write t).2) :=
  run_ofExcept _ _

end FileRun

/-- A file that is written twice holds what was written last. -/
theorem Store.put_put (s : Store) (p : Place) (bytes bytes' : List UInt8) :
    (s.put p bytes).put p bytes' = s.put p bytes' := by
  simp [put, List.filter_append]

section Runs

variable {k : Sink} {o : Fix.Options} {s : Store} {input out : Path} {output : Option Path}

theorem run_fixFileSteps_of_no_path {e : Failure} (h : outputPath input output = .error e) :
    (fixFileSteps k o input output).run.run s = (.error e, s) := by
  unfold fixFileSteps
  rw [FileRun.run_bind, FileRun.run_ofExcept, h]

theorem run_fixFileSteps_of_unreadable {e : FileError} (hout : outputPath input output = .ok out)
    (h : s.read input.toText = .error e) :
    (fixFileSteps k o input output).run.run s = (.error (.file e), s) := by
  unfold fixFileSteps
  rw [FileRun.run_bind, FileRun.run_ofExcept, hout]
  dsimp only
  rw [FileRun.run_bind, FileRun.run_read, h]
  rfl

theorem run_fixFileSteps_of_unopened {t : Text} {obstacle : Obstacle}
    (hout : outputPath input output = .ok out) (hread : s.read input.toText = .ok t)
    (h : s.target? out.toText = .error obstacle) :
    (fixFileSteps k o input output).run.run s =
      (.error (.file (.cannotOpen obstacle out.toText)), s) := by
  unfold fixFileSteps
  rw [FileRun.run_bind, FileRun.run_ofExcept, hout]
  dsimp only
  rw [FileRun.run_bind, FileRun.run_read, hread]
  show (FileRun.openEmpty out.toText >>= fun place => _).run.run s = _
  rw [FileRun.run_bind, FileRun.run_openEmpty, h]

/-- Once the file is open, it holds what could be written. -/
theorem run_fixFileSteps_of_opened {t : Text} {place : Place}
    (hout : outputPath input output = .ok out) (hread : s.read input.toText = .ok t)
    (h : s.target? out.toText = .ok place) :
    (fixFileSteps k o input output).run.run s =
      (((k.write (Fix.apply o t).text).1.mapError .file).map fun _ => out,
        s.put place (k.write (Fix.apply o t).text).2) := by
  unfold fixFileSteps
  rw [FileRun.run_bind, FileRun.run_ofExcept, hout]
  dsimp only
  rw [FileRun.run_bind, FileRun.run_read, hread]
  show (FileRun.openEmpty out.toText >>= fun place => _).run.run s = _
  rw [FileRun.run_bind, FileRun.run_openEmpty, h]
  dsimp only
  -- the file that has just been emptied is written
  rw [FileRun.run_bind, FileRun.run_write, Store.put_put]
  cases (k.write (Fix.apply o t).text).1 <;> rfl

/-- **Where every text is taken**, the steps leave the store that `fixFile` tells: the new one with a
result, the old one with a failure. -/
theorem run_fixFileSteps_unlimited (o : Fix.Options) (s : Store) (input : Path)
    (output : Option Path) :
    (fixFileSteps .unlimited o input output).run.run s =
      match fixFile o s input output with
      | .ok (path, s') => (.ok path, s')
      | .error e => (.error e, s) := by
  cases hout : outputPath input output with
  | error e =>
    rw [run_fixFileSteps_of_no_path hout, fixFile, hout]
    rfl
  | ok out =>
    cases hread : s.read input.toText with
    | error e =>
      rw [run_fixFileSteps_of_unreadable hout hread, fixFile, hout, hread]
      rfl
    | ok t =>
      rw [fixFile_eq_write hread hout, Store.write]
      cases htarget : s.target? out.toText with
      | error obstacle =>
        rw [run_fixFileSteps_of_unopened hout hread htarget]
        rfl
      | ok place =>
        rw [run_fixFileSteps_of_opened hout hread htarget, Sink.write_unlimited]
        rfl

end Runs

/-! ## What is touched -/

section Touched

variable {s : Store} {name : Text} {output : Option Path} {out : Path} {bytes : List UInt8}

theorem fixed?_of_outputPath {input : Path} (h : outputPath input none = .ok out) :
    input.fixed? = some out := by
  rw [outputPath] at h
  split at h
  · next output houtput => rw [houtput, Except.ok.inj h]
  · cases h

/-- Nothing but the file of the output is another one now: it holds the given bytes. -/
structure TouchesOnly (s s' : Store) (name : Text) (output : Option Path) (out : Path)
    (bytes : List UInt8) : Prop where
  path : outputPath (.ofText name) output = .ok out
  written : s'.readBytes out.toText = .ok bytes
  others : ∃ p, s.place? out.toText = .ok p ∧ ∀ q, q ≠ p → s'.entry? q = s.entry? q
  /-- The input is another file, unless an output has been named. -/
  input : output = none →
    s'.readBytes (Path.ofText name).toText = s.readBytes (Path.ofText name).toText

theorem touchesOnly_put {t : Text} {p : Place} (hout : outputPath (.ofText name) output = .ok out)
    (hread : s.read (Path.ofText name).toText = .ok t) (htarget : s.target? out.toText = .ok p) :
    TouchesOnly s (s.put p bytes) name output out bytes := by
  have hplace := (Store.target?_eq_ok_iff.1 htarget).2.1
  have htakes := Store.takes_of_target? htarget
  refine ⟨hout, ?_, ⟨p, hplace, fun q hq => htakes.entry_put_of_ne _ hq⟩, ?_⟩
  · rw [Store.readBytes, (htakes.place?_put_eq_ok_iff bytes).2 hplace]
    dsimp only
    rw [htakes.entry_put_self]
  · rintro rfl
    obtain ⟨q, hq⟩ := Store.exists_place_of_read hread
    exact htakes.readBytes_put_of_ne _ hq
      (Store.place?_fixed?_ne (fixed?_of_outputPath hout) hq hplace).symm

/-- **Only the file of the output is touched.**  A run may fail before it opens that file: there is no
name for it, the input cannot be read, or the file cannot be opened.  Then every file is as it was.
Otherwise all files but one are as they were.  That one holds the fixed text of the input, or, when
the run fails because the text cannot be written, a beginning of it.  It is another file than the
input unless an output has been named, since the path of a fixed file is never the path of the file
that is fixed. -/
theorem fixFileSteps_touches (k : Sink) (o : Fix.Options) (s : Store) (name : Text)
    (output : Option Path) :
    (∀ out, (Path.ofText name).fixed? = some out →
        out ≠ .ofText name ∧ out.toText ≠ (Path.ofText name).toText) ∧
      match (fixFileSteps k o (.ofText name) output).run.run s with
      | (.error e, s') =>
          (s' = s ∧ (outputPath (.ofText name) output = .error e ∨
            (∃ error, s.read (Path.ofText name).toText = .error error ∧ e = .file error) ∨
            ∃ out obstacle, outputPath (.ofText name) output = .ok out ∧
              s.target? out.toText = .error obstacle ∧
                e = .file (.cannotOpen obstacle out.toText))) ∨
          ∃ out t error bytes, s.read (Path.ofText name).toText = .ok t ∧
            k.write (Fix.apply o t).text = (.error error, bytes) ∧ e = .file error ∧
            bytes <+: Utf8.encode (Fix.apply o t).text ∧ TouchesOnly s s' name output out bytes
      | (.ok out, s') => ∃ t, s.read (Path.ofText name).toText = .ok t ∧
          TouchesOnly s s' name output out (Utf8.encode (Fix.apply o t).text) := by
  refine ⟨fun out hout => Path.fixed?_ne hout, ?_⟩
  cases hout : outputPath (.ofText name) output with
  | error e =>
    rw [run_fixFileSteps_of_no_path hout]
    exact Or.inl ⟨rfl, Or.inl rfl⟩
  | ok out =>
    cases hread : s.read (Path.ofText name).toText with
    | error error =>
      rw [run_fixFileSteps_of_unreadable hout hread]
      exact Or.inl ⟨rfl, Or.inr (Or.inl ⟨error, rfl, rfl⟩)⟩
    | ok t =>
      cases htarget : s.target? out.toText with
      | error obstacle =>
        rw [run_fixFileSteps_of_unopened hout hread htarget]
        exact Or.inl ⟨rfl, Or.inr (Or.inr ⟨out, obstacle, rfl, htarget, rfl⟩)⟩
      | ok p =>
        rw [run_fixFileSteps_of_opened hout hread htarget]
        cases hwrite : k.write (Fix.apply o t).text with
        | mk result bytes =>
        cases result with
        | error error =>
          exact Or.inr ⟨out, t, error, bytes, rfl, hwrite, rfl, Sink.prefix_of_write_error hwrite,
            touchesOnly_put hout hread htarget⟩
        | ok u =>
          obtain rfl := Sink.bytes_of_write_ok hwrite
          exact ⟨t, rfl, touchesOnly_put hout hread htarget⟩

/-- A surrogate in the value that a file is fixed with, or a device without room: the run fails, and
the file that was to be fixed in place is empty. -/
theorem fixFileSteps_loses_text :
    let s : Store := ⟨[(["a.html"], .file (Utf8.encode "<i role='switch'>"))]⟩
    let lost : Store := s.put ["a.html"] []
    let surrogates : Utf8.Surrogates := fun c => if c = '\uE000' then some 0xD800 else none
    let o : Fix.Options := { Fix.Options.default with checked := ['\uE000'] }
    s.readBytes "a.html" = .ok (Utf8.encode "<i role='switch'>") ∧
      lost.readBytes "a.html" = .ok [] ∧ lost ≠ s ∧
      (fixFileSteps ⟨surrogates, none⟩ o (.ofText "a.html") (some (.ofText "a.html"))).run.run s =
        (.error (.file (.notEncodable ⟨31, 1, 0xD800⟩)), lost) ∧
      (fixFileSteps ⟨fun _ => none, some 0⟩ .default (.ofText "a.html")
        (some (.ofText "a.html"))).run.run s = (.error (.file .noSpace), lost) := by
  refine ⟨by decide +kernel, by decide +kernel, by decide +kernel, ?_, ?_⟩
  · show @Eq (Except Failure Path × Store) _ _
    decide +kernel
  · show @Eq (Except Failure Path × Store) _ _
    decide +kernel

end Touched
end AriaLint
