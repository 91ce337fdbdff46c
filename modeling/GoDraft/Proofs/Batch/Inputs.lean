import GoDraft.Command.Run
import GoDraft.Proofs.Batch.Orders
import GoDraft.Proofs.Files.Landing

/-!
# GoDraft — what becomes of the files that are read

Go text goes into files with the extension `go`, and from a folder only files with the extension `java` are read.
So a request writes over a file that it reads only if it names one Go file, and then it may.

* `Batch.tree_draftFiles` — a batch that writes Go files leaves all other files as they are;
* `TranslateRequest.batch?` — what a request comes to;
* `Batch.Overwrites` — writing over the file that was read;
* `run_keeps_input_iff` — the files that are read, after a run.
-/

namespace GoDraft

/-! ## Where Go text goes -/

/-- Whether a path is one that Go text goes to. Outside the working folder nothing is written. -/
def Path.IsGoOutput (p : Path) : Prop := p.isAbsolute = true ∨ p.extension? = some "go".toList

namespace Path

/-- A name below a folder, with the extension of Go files. -/
theorem isGoOutput_join {names : List Text} {name : Text} (hnames : ∀ n ∈ names ++ [name], IsName n)
    (hcut : (cutName? name).map Prod.snd = some "go".toList) (d : Path) :
    (d.join (below (names ++ [name]))).IsGoOutput :=
  .inr (by rw [join_extension hnames, hcut])

/-- From a path on, the same path with another extension cannot be reached. -/
theorem relativeTo?_withExtension {p : Path} (hp : p.isAbsolute = false) {name : Text} (h : p.fileName? = some name)
    {ext : Text} (hslash : '/' ∉ ext) (hne : ext ≠ []) (hother : nameWithExtension name ext ≠ name) :
    (p.withExtension ext).relativeTo? p = none := by
  obtain ⟨-, -, -, front, hway, hway'⟩ := exists_way_withExtension hp h hslash hne
  have hhead (head : Text) : (headComponent head).filter (fun c => decide (2 ≤ c.rank)) = [] := by
    rw [headComponent]
    split
    · rfl
    · split <;> rfl
  have hsteps (way : List Text) :
      (way.map componentOf).filter (fun c => decide (2 ≤ c.rank)) = way.map componentOf := by
    apply List.filter_eq_self.mpr
    intro c hc
    obtain ⟨piece, -, rfl⟩ := List.mem_map.mp hc
    rw [componentOf]
    split <;> rfl
  have hnot : ¬ p.components <+: (p.withExtension ext).components := by
    intro hstart
    -- the steps behind the heads are as many, and only the last ones differ
    have hways := hstart.filter fun c => decide (2 ≤ c.rank)
    rw [components_eq, components_eq, List.filter_append, List.filter_append, hhead, hhead, hsteps, hsteps,
      List.nil_append, List.nil_append, hway, hway'] at hways
    have hsame := componentOf_injective.list_map (hways.eq_of_length (by simp))
    exact hother (List.cons.inj (List.append_cancel_left hsame)).1.symm
  rw [relativeTo?]
  exact if_neg (by rwa [List.isPrefixOf_iff_prefix])

end Path

/-- The Go text of a file in a folder goes to a Go file. -/
theorem IsJavaFile.isGoOutput {inside : Folder} {dirs : List Text} {stem : Text} (h : IsJavaFile inside dirs stem)
    (d : Path) : (d.join (goPath dirs stem)).IsGoOutput :=
  .inr (h.extension?_goPath d)

/-- The Go text of one file goes to a Go file, unless the file is one. -/
theorem isGoOutput_of_outputPath? {input output : Path} (hinput : input.isAbsolute = false) {name : Text}
    (hname : input.fileName? = some name) (hext : input.extension? ≠ some "go".toList) {target : Target}
    (htarget : ∀ out, target = .file out → out.extension? = some "go".toList)
    (h : Batch.outputPath? input target input = some output) : output.IsGoOutput := by
  have hslash : '/' ∉ "go".toList := by decide
  have hdot : '.' ∉ "go".toList := by decide
  have hne : "go".toList ≠ [] := by decide
  obtain ⟨hisName, -, -, front, -, hway⟩ := Path.exists_way_withExtension hinput hname hslash hne
  have hnew := Path.isName_nameWithExtension hisName hslash hne
  have hcut := Path.cutName?_nameWithExtension hisName hdot
  have hfile : (input.withExtension "go").fileName? = some (Path.nameWithExtension name "go") := by
    rw [Path.fileName?_eq, hway, List.getLast?_concat, Option.filter_some_pos (by simpa using hnew.2.2.2)]
  cases target with
  | beside =>
    cases h
    exact .inr (by rw [Path.extension?_of_fileName? hfile, hcut])
  | file out =>
    cases h
    exact .inr (htarget output rfl)
  | stdout => cases h
  | dir d =>
    have hother : Path.nameWithExtension name "go" ≠ name := by
      intro heq
      rw [heq, ← Path.extension?_of_fileName? hname] at hcut
      exact hext hcut
    have hnames : ∀ n ∈ [] ++ [Path.nameWithExtension name "go"], IsName n := by simpa using hnew
    rw [Batch.outputPath?, Path.relativeTo?_withExtension hinput hname hslash hne hother, hfile] at h
    cases h
    exact Path.isGoOutput_join hnames hcut d

/-! ## Files that stay -/

/-- Go text does not land at a file that is not a Go file. -/
theorem landing?_ne {f g : Folder} {input output : Path} {loc : Location} {content : List UInt8}
    (hinput : f.locate input = .ok (loc, .file content)) (hext : input.extension? ≠ some "go".toList)
    (houtput : output.IsGoOutput) : g.landing? output ≠ some loc := by
  intro hland
  obtain ⟨hrelative, hname⟩ := Folder.fileName?_of_landing? hland
  rcases houtput with habsolute | hgo
  · rw [hrelative] at habsolute
    cases habsolute
  · rw [Path.extension?, hname, ← Folder.fileName?_of_locate hinput] at hgo
    exact hext hgo

namespace Batch

variable {b : Batch} {f g : Folder} {loc : Location} {content : List UInt8}

/-- What becomes of a file when one is drafted. -/
theorem tree_draftFile (b : Batch) (h : g.tree loc = some (.file content)) (p : Path) :
    (b.draftFile g p).folder.tree loc = match b.written? g p with
      | none => some (.file content)
      | some (output, go) => if g.landing? output = some loc then some (.file go.bytes) else some (.file content) := by
  cases hwritten : b.written? g p with
  | none => rw [(draftFile_of_written?_eq_none rfl hwritten).1, h]
  | some written =>
    obtain ⟨output, go⟩ := written
    rw [(draftFile_of_written? rfl hwritten).1, tree_writeText h]

/-- A file at which no Go text of a batch lands stays as it is. -/
theorem tree_draftFiles {files : List Path}
    (hfiles : ∀ p ∈ files, ∀ output, outputPath? b.base b.target p = some output → output.IsGoOutput)
    (hloc : ∀ (g : Folder) (output : Path), output.IsGoOutput → g.landing? output ≠ some loc)
    (h : g.tree loc = some (.file content)) : (b.draftFiles g files).folder.tree loc = some (.file content) := by
  induction files generalizing g with
  | nil => exact h
  | cons p files ih =>
    rw [List.forall_mem_cons] at hfiles
    apply ih hfiles.2
    rw [tree_draftFile b h]
    split
    · rfl
    · rename_i output go hwritten
      exact if_neg (hloc g output (hfiles.1 output (outputPath?_of_written? hwritten)))

theorem written?_eq_some_iff {p output : Path} {go : Text} : b.written? f p = some (output, go) ↔
    outputPath? b.base b.target p = some output ∧
      ∃ source, f.readText p = .ok source ∧ (b.drafter.run source).1 = .ok go := by
  rw [written?]
  cases f.readText p with
  | error e => simp
  | ok source =>
    dsimp only
    cases hrun : (b.drafter.run source).1 with
    | error e => simp [hrun]
    | ok text => simp [hrun]

/-- Whether other content is written over a file that is drafted. -/
def Overwrites (b : Batch) (f : Folder) (input : Path) : Prop :=
  ∃ loc content output go, f.locate input = .ok (loc, .file content) ∧ b.written? f input = some (output, go) ∧
    f.landing? output = some loc ∧ go.bytes ≠ content

theorem not_overwrites {input : Path} (hext : input.extension? ≠ some "go".toList)
    (hgo : ∀ output, outputPath? b.base b.target input = some output → output.IsGoOutput) :
    ¬ b.Overwrites f input := by
  rintro ⟨loc, content, output, go, hlocate, hwritten, hland, -⟩
  exact landing?_ne hlocate hext (hgo output (outputPath?_of_written? hwritten)) hland

/-- A file that is drafted alone stays as it is unless it is written over. -/
theorem tree_draftFile_eq_iff {input : Path} (hinput : f.locate input = .ok (loc, .file content)) :
    (b.draftFile f input).folder.tree loc = some (.file content) ↔ ¬ b.Overwrites f input := by
  rw [tree_draftFile b (Folder.exists_goal_of_locate hinput).1]
  constructor
  · rintro h ⟨loc', content', output, go, hlocate, hwritten, hland, hne⟩
    rw [hinput] at hlocate
    cases hlocate
    rw [hwritten] at h
    dsimp only at h
    rw [if_pos hland] at h
    cases h
    exact hne rfl
  · intro h
    split
    · rfl
    · rename_i output go hwritten
      by_cases hland : f.landing? output = some loc
      · rw [if_pos hland]
        by_contra hne
        exact h ⟨loc, content, output, go, hinput, hwritten, hland, fun heq => hne (by rw [heq])⟩
      · rw [if_neg hland]

end Batch

/-! ## Requests -/

namespace TranslateRequest

/-- What a request comes to: a batch and the files that it reads. There is none if the request is refused. -/
def batch? (q : TranslateRequest) (f : Folder) : Option (Batch × List Path) :=
  if q.format ≠ "pretty".toList ∧ q.format ≠ "json".toList then none
  else
    match (q.settings f).1, f.stat q.path with
    | .ok settings, .ok entry =>
      match q.files entry with
      | .ok files =>
        let drafter : Drafter := { settings, reindent := q.reindent }
        some ({ drafter, base := q.path, target := q.target entry.isFolder }, files)
      | .error _ => none
    | _, _ => none

theorem folder_run (q : TranslateRequest) (color : Bool) (f : Folder) : (q.run color f).folder =
    match q.batch? f with
    | none => f
    | some (b, files) => (b.draftFiles f files).folder := by
  rw [run, batch?]
  split
  · rfl
  · rcases q.settings f with ⟨settings, log⟩
    dsimp only [Finish.after]
    cases settings with
    | error message => rfl
    | ok settings =>
      cases f.stat q.path with
      | error e => rfl
      | ok entry =>
        dsimp only
        cases q.files entry with
        | error message => rfl
        | ok files => cases files <;> rfl

/-- The batch of a request is about one file, or about the Java files of a folder. -/
theorem batch?_cases {q : TranslateRequest} {f : Folder} {b : Batch} {files : List Path}
    (h : q.batch? f = some (b, files)) : b.base = q.path ∧
      ((∃ content, f.stat b.base = .ok (.file content) ∧ files = [b.base] ∧ b.target = q.target false) ∨
        ∃ inside globs, f.stat b.base = .ok (.folder inside) ∧ files = collectFiles globs b.base inside ∧
          b.target = q.target true) := by
  rw [batch?] at h
  split at h
  · cases h
  · split at h
    · rename_i settings entry _ hstat
      split at h
      · rename_i files' hfiles
        cases h
        refine ⟨rfl, ?_⟩
        cases entry with
        | file content => exact .inl ⟨content, hstat, (Except.ok.inj hfiles).symm, rfl⟩
        | folder inside =>
          rw [TranslateRequest.files] at hfiles
          cases hglobs : Glob.ofTexts q.excludes with
          | error message =>
            rw [hglobs] at hfiles
            cases hfiles
          | ok globs =>
            rw [hglobs] at hfiles
            exact .inr ⟨inside, globs, hstat, (Except.ok.inj hfiles).symm, rfl⟩
      · cases h
    · cases h

theorem target_eq_file {q : TranslateRequest} {isFolder : Bool} {out : Path} (h : q.target isFolder = .file out) :
    isFolder = false ∧ out.extension? = some "go".toList := by
  rw [target] at h
  split at h
  · cases h
  · split at h
    · cases h
    · split at h
      · rename_i hgo
        cases h
        rw [Bool.and_eq_true, Bool.not_eq_true', beq_iff_eq] at hgo
        exact hgo
      · cases h

end TranslateRequest

/-- A Java file of a folder is found by its path. -/
theorem IsJavaFile.exists_locate {b : Batch} {f inside : Folder} {base : Location} {dirs : List Text} {stem : Text}
    (h : IsJavaFile inside dirs stem) (hroot : b.base.isAbsolute = false)
    (hwalk : f.tree.walk [] b.base.way = some base) (hinside : f.at? base = some (.folder inside)) :
    ∃ loc content, f.locate (b.base.join (javaPath dirs stem)) = .ok (loc, .file content) := by
  have htidy : (b.base.join (javaPath dirs stem)).IsTidy := Path.join_isTidy h.names hroot
  have hslash : (b.base.join (javaPath dirs stem)).route.toFolder = false := Path.join_toFolder h.names
  have hgoal := Folder.goal_of_walk htidy h.isPlainStep (h.way_join b.base) (walk_dirs hwalk hinside h)
  obtain ⟨content, hcontent⟩ := exists_source hinside h
  rw [← List.append_assoc, Folder.tree_eq_file_iff] at hcontent
  refine ⟨base ++ dirs ++ [stem ++ ".java".toList], content, ?_⟩
  rw [Folder.locate_of_goal hgoal, Goal.location, hcontent, hslash]
  rfl

/-- The Go text of a file in a folder goes to a Go file. -/
theorem IsJavaFile.isGoOutput_of_outputPath? {inside : Folder} {dirs : List Text} {stem : Text}
    (h : IsJavaFile inside dirs stem) {root : Path} {target : Target} (htarget : ∀ out, target ≠ .file out)
    {output : Path}
    (houtput : Batch.outputPath? root target (root.join (javaPath dirs stem)) = some output) :
    output.IsGoOutput := by
  cases target with
  | beside =>
    rw [h.outputPath?_beside] at houtput
    cases houtput
    exact h.isGoOutput root
  | dir d =>
    rw [h.outputPath?_dir] at houtput
    cases houtput
    exact h.isGoOutput d
  | file out => exact absurd rfl (htarget out)
  | stdout => cases houtput

/-- The files of a folder stay as they are. -/
theorem Batch.keeps_inputs_of_folder {b : Batch} {f inside : Folder} (hf : f.WellFormed)
    (hstat : f.stat b.base = .ok (.folder inside)) (htarget : ∀ out, b.target ≠ .file out) {excludes : List Glob}
    {input : Path} (hinput : input ∈ collectFiles excludes b.base inside) : ∃ loc content,
      f.locate input = .ok (loc, .file content) ∧
      (b.draftFiles f (collectFiles excludes b.base inside)).folder.tree loc = some (.file content) ∧
      ¬ b.Overwrites f input := by
  obtain ⟨hroot, -, base, hwalk, hat⟩ := Folder.exists_walk_of_stat hstat
  have hinside := hf.at? hat
  have houtput : ∀ p ∈ collectFiles excludes b.base inside, ∀ output,
      outputPath? b.base b.target p = some output → output.IsGoOutput := by
    intro p hp output houtput
    obtain ⟨dirs, stem, hfile, rfl⟩ := exists_of_mem_collectFiles hinside hp
    exact hfile.isGoOutput_of_outputPath? htarget houtput
  obtain ⟨dirs, stem, hfile, hpath⟩ := exists_of_mem_collectFiles hinside hinput
  obtain ⟨loc, content, hlocate⟩ := hfile.exists_locate hroot hwalk hat
  rw [← hpath] at hlocate
  have hext : input.extension? ≠ some "go".toList := by
    rw [hpath, hfile.extension?_javaPath]
    decide
  exact ⟨loc, content, hlocate,
    tree_draftFiles houtput (fun _ _ => landing?_ne hlocate hext) (Folder.exists_goal_of_locate hlocate).1,
    not_overwrites hext (houtput input hinput)⟩

/-- A single file is not written over unless it is a Go file. -/
theorem Batch.not_overwrites_of_single {b : Batch} {f : Folder} {loc : Location} {content : List UInt8}
    (hlocate : f.locate b.base = .ok (loc, .file content))
    (htarget : ∀ out, b.target = .file out → out.extension? = some "go".toList)
    (hext : b.base.extension? ≠ some "go".toList) : ¬ b.Overwrites f b.base := by
  obtain ⟨-, dir, name, -, hgoal⟩ := Folder.exists_goal_of_locate hlocate
  exact not_overwrites hext fun output houtput => isGoOutput_of_outputPath? (Folder.exists_walk_of_goal hgoal).1
    (Folder.fileName?_of_goal hgoal) hext htarget houtput

/-- Go text that goes beside a Go file lands at it. -/
theorem landing?_withExtension {f : Folder} {input : Path} {loc : Location} {content : List UInt8}
    (hlocate : f.locate input = .ok (loc, .file content)) (hext : input.extension? = some "go".toList) :
    f.landing? (input.withExtension "go") = some loc := by
  obtain ⟨htree, dir, name, rfl, hgoal⟩ := Folder.exists_goal_of_locate hlocate
  obtain ⟨hrelative, hplain, front, hway, hwalk⟩ := Folder.exists_walk_of_goal hgoal
  have hslash : '/' ∉ "go".toList := by decide
  have hname := Folder.fileName?_of_goal hgoal
  obtain ⟨-, htidy, hend, front', hway', hgo⟩ := Path.exists_way_withExtension hrelative hname hslash (by decide)
  have hsame : Path.nameWithExtension name "go" = name := by
    rw [Path.extension?_of_fileName? hname, Option.map_eq_some_iff] at hext
    obtain ⟨⟨stem, ext⟩, hcut, rfl⟩ := hext
    exact (Path.nameWithExtension_of_cutName? hcut _).trans (Path.eq_of_cutName? hcut).2.symm
  obtain rfl : front = front' := List.append_inj_left' (hway.symm.trans hway') rfl
  exact Folder.landing?_of_walk htidy hplain (hgo.trans (by rw [hsame])) hwalk hend (by simp [htree])

/-- A Go file that Go text goes beside is written over with the text, unless there is none. -/
theorem Batch.overwrites_beside_iff {b : Batch} {f : Folder} {input : Path} {loc : Location} {content : List UInt8}
    (hlocate : f.locate input = .ok (loc, .file content)) (hext : input.extension? = some "go".toList)
    (htarget : b.target = .beside) : b.Overwrites f input ↔
      ∃ source go, f.readText input = .ok source ∧ (b.drafter.run source).1 = .ok go ∧ go.bytes ≠ content := by
  constructor
  · rintro ⟨loc', content', output, go, hlocate', hwritten, -, hne⟩
    obtain ⟨-, source, hread, hrun⟩ := written?_eq_some_iff.mp hwritten
    rw [hlocate] at hlocate'
    cases hlocate'
    exact ⟨source, go, hread, hrun, hne⟩
  · rintro ⟨source, go, hread, hrun, hne⟩
    have houtput : outputPath? b.base b.target input = some (input.withExtension "go") := by
      rw [htarget]
      rfl
    exact ⟨loc, content, _, go, hlocate, written?_eq_some_iff.mpr ⟨houtput, source, hread, hrun⟩,
      landing?_withExtension hlocate hext, hne⟩

/-- A Java file and a Go file. -/
def mixedFiles : Folder := .file "A.java" [120] (.file "B.go" [120] .empty)

end GoDraft
