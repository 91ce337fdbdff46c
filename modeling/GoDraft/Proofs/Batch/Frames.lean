import GoDraft.Proofs.Batch.Inputs

/-!
# GoDraft — what drafting a file changes

A file is read and drafted before anything is written. So drafting a file that cannot be read or drafted changes
nothing, and else nothing changes but the file that the Go text goes to and the missing folders above it. Where writing
fails, there may be new folders, but every file is as it was. A request that is refused changes nothing.

* `Batch.Ends`, `Batch.ends_draftFile` — how drafting a file ends;
* `TranslateRequest.folder_run_of_error` — requests that are refused;
* `draftFile_frame` — what drafting a file changes.
-/

namespace GoDraft

/-! ## The ends of a draft -/

namespace Batch

variable {b : Batch} {f g : Folder} {input : Path}

/-- How drafting a file ends: with what is read, drafted and written, the folder in the end and the outcome. -/
inductive Ends (b : Batch) (f : Folder) (input : Path) : Folder → Outcome → Prop
  | unread {e : FileError} (h : f.readText input = .error e) :
    Ends b f input f (.failure input ("reading file: " ++ e.message))
  | blank {source : Text} (hread : f.readText input = .ok source)
    (h : b.drafter.draft source = .error .nothingToTranslate) :
    Ends b f input f { input, status := .skipped, message? := some DraftError.nothingToTranslate.message }
  | refused {source : Text} {e : DraftError} (hread : f.readText input = .ok source)
    (h : b.drafter.draft source = .error e) : Ends b f input f (.failure input e.message)
  | printed {go : Text} (h : outputPath? b.base b.target input = none) :
    Ends b f input f { input, status := .translated, generated? := some go }
  | unwritten {output : Path} {go : Text} {e : FileError} {g : Folder} (h : b.written? f input = some (output, go))
    (hwrite : writeText f output go = (g, .error e)) :
    Ends b f input g (.failure input ("writing " ++ output ++ ": " ++ e.message))
  | written {output : Path} {go : Text} {g : Folder} (h : b.written? f input = some (output, go))
    (hwrite : writeText f output go = (g, .ok ())) :
    Ends b f input g { input, output? := some output, status := .translated }

theorem ends_draftFile (b : Batch) (f : Folder) (input : Path) :
    b.Ends f input (b.draftFile f input).folder (b.draftFile f input).result := by
  unfold draftFile
  cases hread : f.readText input with
  | error e => exact .unread hread
  | ok source =>
    dsimp only
    rcases hrun : b.drafter.run source with ⟨result, log⟩
    have hdraft : b.drafter.draft source = result := by rw [Drafter.draft, hrun]
    cases result with
    | error e =>
      cases e with
      | nothingToTranslate => exact .blank hread hdraft
      | failed message => exact .refused hread hdraft
    | ok go =>
      dsimp only
      cases houtput : outputPath? b.base b.target input with
      | none => exact .printed houtput
      | some output =>
        -- only here something is written
        have hwritten : b.written? f input = some (output, go) :=
          written?_eq_some_iff.mpr ⟨houtput, source, hread, hdraft⟩
        dsimp only
        rcases hwrite : writeText f output go with ⟨g, result⟩
        cases result with
        | error e => exact .unwritten hwritten hwrite
        | ok u => exact .written hwritten hwrite

/-- Nothing changes but the file that Go text goes to and the folders above it. -/
theorem Ends.tree {outcome : Outcome} (h : b.Ends f input g outcome) (loc : Location) : g.tree loc = f.tree loc ∨
    ∃ output go, b.written? f input = some (output, go) ∧
      (f.MadeFor g output loc ∨ f.tree loc ≠ some .folder ∧ g.locate output = .ok (loc, .file go.bytes)) := by
  cases h with
  | unread | blank | refused | printed => exact .inl rfl
  | @unwritten output go e g hwritten hwrite =>
    exact (tree_writeText_of_error hwrite loc).imp_right fun h => ⟨output, go, hwritten, .inl h⟩
  | @written output go g hwritten hwrite =>
    obtain ⟨loc', hno, hlocate, hmade⟩ := exists_locate_of_writeText hwrite
    by_cases hloc : loc = loc'
    · subst hloc
      exact .inr ⟨output, go, hwritten, .inr ⟨hno, hlocate⟩⟩
    · exact (hmade loc hloc).imp_right fun h => ⟨output, go, hwritten, .inl h⟩

theorem Ends.of_skipped {outcome : Outcome} (h : b.Ends f input g outcome) (hskipped : outcome.status = .skipped) :
    g = f := by
  cases h with
  | unread | refused | printed | unwritten | written => cases hskipped
  | blank => rfl

theorem Ends.of_stdout {outcome : Outcome} (h : b.Ends f input g outcome) (htarget : b.target = .stdout) : g = f := by
  have hnone : outputPath? b.base b.target input = none := by rw [htarget, outputPath?]
  cases h with
  | unread | blank | refused | printed => rfl
  | unwritten hwritten | written hwritten =>
    rw [outputPath?_of_written? hwritten] at hnone
    cases hnone

/-- A failure to read or to draft changes nothing, and a failure to write changes no file. -/
theorem Ends.of_failed {outcome : Outcome} (h : b.Ends f input g outcome) (hfailed : outcome.status = .failed) :
    (g = f ∧
      ((∃ e, f.readText input = .error e ∧ outcome.message? = some ("reading file: " ++ e.message)) ∨
        ∃ source e, f.readText input = .ok source ∧ b.drafter.draft source = .error e ∧
          outcome.message? = some e.message)) ∨
    (∀ loc content, g.tree loc = some (.file content) ↔ f.tree loc = some (.file content)) ∧
      ∃ output go, ∃ e : FileError, b.written? f input = some (output, go) ∧
        outcome.message? = some ("writing " ++ output ++ ": " ++ e.message) := by
  cases h with
  | blank | printed | written => cases hfailed
  | unread h => exact .inl ⟨rfl, .inl ⟨_, h, rfl⟩⟩
  | refused hread h => exact .inl ⟨rfl, .inr ⟨_, _, hread, h, rfl⟩⟩
  | @unwritten output go e g hwritten hwrite =>
    refine .inr ⟨?_, output, go, e, hwritten, rfl⟩
    intro loc content
    rcases tree_writeText_of_error hwrite loc with hkept | hmade
    · rw [hkept]
    · rw [hmade.tree, hmade.1]
      simp

/-- Where an outcome names an output, the Go text is there. -/
theorem Ends.of_output {outcome : Outcome} {output : Path} (h : b.Ends f input g outcome)
    (houtput : outcome.output? = some output) : outputPath? b.base b.target input = some output ∧
      ∃ source go, f.readText input = .ok source ∧ b.drafter.draft source = .ok go ∧
        g.stat output = .ok (.file go.bytes) := by
  cases h with
  | unread | blank | refused | printed | unwritten => cases houtput
  | @written output' go g hwritten hwrite =>
    cases houtput
    obtain ⟨hpath, source, hread, hdraft⟩ := written?_eq_some_iff.mp hwritten
    obtain ⟨loc, -, hlocate, -⟩ := exists_locate_of_writeText hwrite
    refine ⟨hpath, source, go, hread, hdraft, ?_⟩
    rw [Folder.stat, hlocate]
    rfl

end Batch

/-! ## Requests -/

namespace TranslateRequest

/-- Files that are drafted fail or not, but the request is carried out. -/
theorem exit_draftFiles_ne (q : TranslateRequest) (color : Bool) (f : Folder) (settings : Settings) (target : Target)
    (files : List Path) : (q.draftFiles color f settings target files).exit ≠ .error := by
  dsimp only [draftFiles]
  split <;> decide

/-- A request that is refused changes nothing. -/
theorem folder_run_of_error {q : TranslateRequest} {color : Bool} {f : Folder} (h : (q.run color f).exit = .error) :
    (q.run color f).folder = f := by
  unfold run at h ⊢
  split_ifs at h ⊢ with hformat
  · rfl
  · generalize q.settings f = found at h ⊢
    obtain ⟨settings, log⟩ := found
    dsimp only [Finish.after] at h ⊢
    cases settings with
    | error message => rfl
    | ok settings =>
      cases hstat : f.stat q.path with
      | error e => rfl
      | ok entry =>
        rw [hstat] at h
        dsimp only at h ⊢
        cases hfiles : q.files entry with
        | error message => rfl
        | ok files =>
          rw [hfiles] at h
          cases files with
          | nil => rfl
          | cons file files => exact absurd h (q.exit_draftFiles_ne color f settings _ _)

end TranslateRequest

end GoDraft
