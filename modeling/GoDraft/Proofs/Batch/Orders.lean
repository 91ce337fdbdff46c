import GoDraft.Proofs.Batch.Collected
import GoDraft.Proofs.Batch.Jobs

/-!
# GoDraft — a batch in any order

Each file of a batch is drafted on its own. Whatever the order in which this happens, every file has the outcome
that it would have if it were drafted alone, and the file system is the same in the end, provided that no Go file
is to be written where a folder has to be made for another one.

* `Batch.draftFile_of_written?` — what drafting a file hangs on;
* `Batch.exists_job` — drafting a file is a job;
* `Target.IsOpen` — the targets for which the order does not count;
* `run_eq_of_perm` — two orders of a batch.
-/

namespace GoDraft

namespace Batch

variable {b : Batch} {f g : Folder} {p : Path}

/-! ## One file -/

/-- What is to be written for a file, and where. -/
def written? (b : Batch) (f : Folder) (p : Path) : Option (Path × Text) :=
  match f.readText p with
  | .error _ => none
  | .ok source =>
    match (b.drafter.run source).1 with
    | .error _ => none
    | .ok go => (outputPath? b.base b.target p).map fun output => (output, go)

theorem input_draftFile (b : Batch) (f : Folder) (p : Path) : (b.draftFile f p).result.input = p := by
  unfold draftFile
  repeat' first
    | rfl
    | split

theorem draftFile_of_written?_eq_none (hread : g.readText p = f.readText p) (h : b.written? f p = none) :
    (b.draftFile g p).folder = g ∧ (b.draftFile g p).result = (b.draftFile f p).result := by
  unfold draftFile
  rw [hread]
  rw [written?] at h
  cases hsource : f.readText p with
  | error e => exact ⟨rfl, rfl⟩
  | ok source =>
    rw [hsource] at h
    dsimp only at h ⊢
    rcases hrun : b.drafter.run source with ⟨result, log⟩
    rw [hrun] at h
    cases result with
    | error e => cases e <;> exact ⟨rfl, rfl⟩
    | ok go =>
      rw [Option.map_eq_none_iff] at h
      dsimp only
      rw [h]
      exact ⟨rfl, rfl⟩

theorem draftFile_of_written? {output : Path} {go : Text} (hread : g.readText p = f.readText p)
    (h : b.written? f p = some (output, go)) : (b.draftFile g p).folder = (writeText g output go).1 ∧
      ((writeText g output go).2 = (writeText f output go).2 →
        (b.draftFile g p).result = (b.draftFile f p).result) := by
  unfold draftFile
  rw [hread]
  rw [written?] at h
  cases hsource : f.readText p with
  | error e =>
    rw [hsource] at h
    cases h
  | ok source =>
    rw [hsource] at h
    dsimp only at h ⊢
    rcases hrun : b.drafter.run source with ⟨result, log⟩
    rw [hrun] at h
    cases result with
    | error e => cases h
    | ok text =>
      rw [Option.map_eq_some_iff] at h
      obtain ⟨path, hpath, heq⟩ := h
      obtain ⟨rfl, rfl⟩ := Prod.mk.inj heq
      dsimp only
      rw [hpath]
      dsimp only
      -- the outcome depends on the folder only through what writing answers
      rcases hg : writeText g path text with ⟨g', r⟩
      rcases hf : writeText f path text with ⟨f', r'⟩
      constructor
      · cases r <;> rfl
      · rintro rfl
        cases r <;> rfl

theorem outputPath?_of_written? {output : Path} {go : Text} (h : b.written? f p = some (output, go)) :
    outputPath? b.base b.target p = some output := by
  rw [written?] at h
  split at h
  · cases h
  · split at h
    · cases h
    · obtain ⟨path, hpath, heq⟩ := Option.map_eq_some_iff.mp h
      rw [hpath, (Prod.mk.inj heq).1]

end Batch

/-! ## Where the Go text goes -/

/-- The relative path of the Go file for a Java file. -/
def goPath (dirs : List Text) (stem : Text) : Path := Path.below (dirs ++ [stem ++ ".go".toList])

namespace IsJavaFile

variable {f inside : Folder} {dirs : List Text} {stem : Text} (h : IsJavaFile inside dirs stem)

include h

theorem nameWithExtension_go : Path.nameWithExtension (stem ++ ".java".toList) "go" = stem ++ ".go".toList :=
  Path.nameWithExtension_of_cutName? h.cut "go"

theorem goNames : ∀ n ∈ dirs ++ [stem ++ ".go".toList], IsName n := by
  have hnames := h.names
  rw [List.forall_mem_append] at hnames ⊢
  have hname : IsName (stem ++ ".java".toList) := hnames.2 _ (by simp)
  have hslash : '/' ∉ "go".toList := by decide
  have hgo := Path.isName_nameWithExtension hname hslash (by decide)
  rw [h.nameWithExtension_go] at hgo
  exact ⟨hnames.1, by simpa using hgo⟩

theorem way_join (root : Path) :
    (root.join (javaPath dirs stem)).way = (root.way ++ dirs) ++ [stem ++ ".java".toList] := by
  rw [javaPath, Path.join_way h.names, List.append_assoc]

theorem isPlainStep : IsPlainStep (stem ++ ".java".toList) := (h.names _ (by simp)).isPlainStep

theorem withExtension_go (root : Path) :
    (root.join (javaPath dirs stem)).withExtension "go" = root.join (goPath dirs stem) := by
  have hgo := h.goNames (stem ++ ".go".toList) (by simp)
  rw [javaPath, Path.join_withExtension h.names (h.nameWithExtension_go ▸ hgo), h.nameWithExtension_go, goPath]

theorem outputPath?_beside (root : Path) :
    Batch.outputPath? root .beside (root.join (javaPath dirs stem)) = some (root.join (goPath dirs stem)) := by
  rw [Batch.outputPath?, h.withExtension_go root]

theorem outputPath?_dir (root d : Path) :
    Batch.outputPath? root (.dir d) (root.join (javaPath dirs stem)) = some (d.join (goPath dirs stem)) := by
  have hrelative : (root.join (goPath dirs stem)).relativeTo? root = some (goPath dirs stem) :=
    Path.join_relativeTo root h.goNames
  have hpath : goPath dirs stem ≠ [] := Path.below_ne_nil dirs (by simp)
  rw [Batch.outputPath?, h.withExtension_go root]
  show ((((root.join (goPath dirs stem)).relativeTo? root).filter fun p => !p.isEmpty).or _).map d.join = _
  rw [hrelative, Option.filter_some_pos (by simpa using hpath)]
  rfl

theorem extension?_javaPath (root : Path) : (root.join (javaPath dirs stem)).extension? = some "java".toList := by
  rw [javaPath, Path.join_extension h.names, h.cut]
  rfl

theorem extension?_goPath (d : Path) : (d.join (goPath dirs stem)).extension? = some "go".toList := by
  have hcut : Path.cutName? (stem ++ ".go".toList) = some (stem, "go".toList) :=
    Path.cutName?_append (Path.eq_of_cutName? h.cut).1 (by decide)
  rw [goPath, Path.join_extension h.goNames, hcut]
  rfl

end IsJavaFile

/-! ## Files as jobs -/

/-- A job is what drafting a file does in every file system in which the file stands as it did. -/
structure Job.Does (job : Job) (b : Batch) (f : Folder) (p : Path) : Prop where
  tree : ∀ g : Folder, f.tree.Grows g.tree → g.tree job.source = f.tree job.source →
    (b.draftFile g p).folder.tree = job.run g.tree
  result : ∀ g : Folder, f.tree.Grows g.tree → g.tree job.source = f.tree job.source →
    job.error? g.tree = job.error? f.tree → (b.draftFile g p).result = (b.draftFile f p).result

/-- The job of a Java file below one location whose Go file goes below another. -/
def fileJob (base out : Location) (dirs : List Text) (stem : Text) (content? : Option (List UInt8)) : Job :=
  ⟨base ++ (dirs ++ [stem ++ ".java".toList]), out ++ dirs, stem ++ ".go".toList, content?⟩

section FileJob

variable {b : Batch} {f inside : Folder} {base out : Location} {dirs : List Text} {stem : Text}
  (hroot : b.base.isAbsolute = false) (hwalk : f.tree.walk [] b.base.way = some base)
  (hinside : f.at? base = some (.folder inside)) (hfile : IsJavaFile inside dirs stem)

include hinside hfile in
theorem exists_source : ∃ content, f.tree (base ++ (dirs ++ [stem ++ ".java".toList])) = some (.file content) := by
  obtain ⟨content, hcontent⟩ := hfile.file
  exact ⟨content, (Folder.tree_append hinside).trans hcontent⟩

include hinside hfile in
theorem tree_dirs : f.tree (base ++ dirs) = some .folder := by
  obtain ⟨content, hcontent⟩ := exists_source hinside hfile
  rw [← List.append_assoc] at hcontent
  exact Folder.tree_eq_folder_of_tree_append (by simp) hcontent

include hwalk hinside hfile in
theorem walk_dirs : f.tree.walk [] (b.base.way ++ dirs) = some (base ++ dirs) := by
  have hplain : ∀ n ∈ dirs, IsPlainStep n := fun n hn => (hfile.names n (List.mem_append_left _ hn)).isPlainStep
  rw [Tree.walk_append, hwalk, Option.bind_some, Folder.walk_of_tree hplain (tree_dirs hinside hfile)]

variable {p : Path} (hp : p = b.base.join (javaPath dirs stem))

include hroot hwalk hinside hfile hp

/-- A file that stands as it did is read as it was. -/
theorem readText_eq {g : Folder} (hgrows : f.tree.Grows g.tree)
    (hsource : g.tree (base ++ (dirs ++ [stem ++ ".java".toList])) =
      f.tree (base ++ (dirs ++ [stem ++ ".java".toList]))) : g.readText p = f.readText p := by
  have hway : p.way = (b.base.way ++ dirs) ++ [stem ++ ".java".toList] := hp ▸ hfile.way_join b.base
  have hdirs := walk_dirs hwalk hinside hfile
  obtain ⟨content, hcontent⟩ := exists_source hinside hfile
  have hgcontent := hsource.trans hcontent
  rw [← List.append_assoc] at hcontent hgcontent
  have htidy : p.IsTidy := hp ▸ Path.join_isTidy hfile.names hroot
  have hslash : p.route.toFolder = false := hp ▸ Path.join_toFolder hfile.names
  rw [Folder.readText_of_walk htidy hfile.isPlainStep hway hdirs hslash hcontent,
    Folder.readText_of_walk htidy hfile.isPlainStep hway (hgrows.walk hdirs) hslash hgcontent]

/-- Where nothing can be written, drafting a file leaves everything as it is. -/
theorem does_of_idle
    (hidle : ∀ output, Batch.outputPath? b.base b.target p = some output → output.isAbsolute = true) :
    (fileJob base out dirs stem none).Does b f p := by
  have hboth (g : Folder) (hread : g.readText p = f.readText p) :
      (b.draftFile g p).folder = g ∧ (b.draftFile g p).result = (b.draftFile f p).result := by
    cases hwritten : b.written? f p with
    | none => exact Batch.draftFile_of_written?_eq_none hread hwritten
    | some written =>
      obtain ⟨output, go⟩ := written
      have habsolute := hidle output (Batch.outputPath?_of_written? hwritten)
      have hdraft := Batch.draftFile_of_written? hread hwritten
      rw [writeText_of_isAbsolute habsolute, writeText_of_isAbsolute habsolute] at hdraft
      exact ⟨hdraft.1, hdraft.2 rfl⟩
  constructor
  · intro g hgrows hsource
    rw [(hboth g (readText_eq hroot hwalk hinside hfile hp hgrows hsource)).1]
    rfl
  · intro g hgrows hsource _
    exact (hboth g (readText_eq hroot hwalk hinside hfile hp hgrows hsource)).2

/-- Drafting a file that goes below a location is a job. -/
theorem exists_does_of_leadsTo {d : Path} (hd : f.LeadsTo d out)
    (houtput : Batch.outputPath? b.base b.target p = some (d.join (goPath dirs stem))) :
    ∃ content?, (fileJob base out dirs stem content?).Does b f p := by
  have hread {g : Folder} := @readText_eq b f inside base dirs stem hroot hwalk hinside hfile p hp g
  cases hwritten : b.written? f p with
  | none =>
    refine ⟨none, fun g hgrows hsource => ?_, fun g hgrows hsource _ => ?_⟩
    · rw [(Batch.draftFile_of_written?_eq_none (hread hgrows hsource) hwritten).1]
      rfl
    · exact (Batch.draftFile_of_written?_eq_none (hread hgrows hsource) hwritten).2
  | some written =>
    obtain ⟨output, go⟩ := written
    obtain rfl : output = d.join (goPath dirs stem) :=
      Option.some.inj ((Batch.outputPath?_of_written? hwritten).symm.trans houtput)
    refine ⟨some go.bytes, fun g hgrows hsource => ?_, fun g hgrows hsource herror => ?_⟩
    · rw [(Batch.draftFile_of_written? (hread hgrows hsource) hwritten).1]
      exact ((hd.mono hgrows).writeText hfile.goNames go).1
    · apply (Batch.draftFile_of_written? (hread hgrows hsource) hwritten).2
      have hg := ((hd.mono hgrows).writeText hfile.goNames go).2
      have hf := (hd.writeText hfile.goNames go).2
      have hsame : g.tree.writeError? (out ++ dirs) (stem ++ ".go".toList) =
        f.tree.writeError? (out ++ dirs) (stem ++ ".go".toList) := herror
      rw [hsame] at hg
      exact hg.trans hf.symm

end FileJob

/-! ## Files one after another -/

/-- Files whose jobs do not get in each other's way have the outcomes that they have alone. -/
theorem draftFiles_of_does {b : Batch} {f : Folder} {files : List Path} {job : Path → Job}
    (hdoes : ∀ p ∈ files, (job p).Does b f p) (hjobs : Job.Independent f.tree (files.map job)) :
    ∀ {order : List Path} {g : Folder}, (∀ p ∈ order, p ∈ files) → Job.Steady (files.map job) f.tree g.tree →
      (b.draftFiles g order).folder.tree = (order.map job).foldl (fun v j => j.run v) g.tree ∧
      (b.draftFiles g order).result = order.map fun p => (b.draftFile f p).result
  | [], g, _, _ => ⟨rfl, rfl⟩
  | p :: order, g, horder, hg => by
    rw [List.forall_mem_cons] at horder
    have hmem : job p ∈ files.map job := List.mem_map_of_mem horder.1
    have hdo := hdoes p horder.1
    have htree := hdo.tree g hg.grows (hg.source _ hmem)
    have hresult := hdo.result g hg.grows (hg.source _ hmem) (hg.error _ hmem)
    obtain ⟨hfolder, hrest⟩ := draftFiles_of_does hdoes hjobs horder.2 (htree ▸ hjobs.steady_run hg hmem)
    rw [Batch.draftFiles]
    dsimp only
    rw [hfolder, hrest, htree, hresult]
    exact ⟨rfl, rfl⟩

/-! ## Orders -/

/-- The targets for which the order of files does not count. A folder has to be reached through folders that
exist wherever its path goes up. Where the Go file of a file would stand on the way to another file, a folder has
to stand there already. -/
def Target.IsOpen (f : Folder) (base : Path) (files : List Path) : Target → Prop
  | .beside | .stdout => True
  | .file _ => False
  | .dir d => d.isAbsolute = true ∨ (∃ out, f.LeadsTo d out) ∧ ∀ p ∈ files, ∀ q ∈ files,
      (p.withExtension "go").components <+: q.components →
      ∃ output, Batch.outputPath? base (.dir d) p = some output ∧ f.isFolder output = true

/-- A location that the Go files of a batch go below. -/
structure IsOutlet (b : Batch) (f inside : Folder) (base : Location) (files : List Path) (out : Location) : Prop where
  does : ∀ p ∈ files, ∀ dirs stem, IsJavaFile inside dirs stem → p = b.base.join (javaPath dirs stem) →
    ∃ content?, (fileJob base out dirs stem content?).Does b f p
  folder : ∀ p ∈ files, ∀ q ∈ files, ∀ dirs stem dirs' stem', IsJavaFile inside dirs stem →
    IsJavaFile inside dirs' stem' → p = b.base.join (javaPath dirs stem) → q = b.base.join (javaPath dirs' stem') →
    dirs ++ [stem ++ ".go".toList] <+: dirs' → f.tree (out ++ (dirs ++ [stem ++ ".go".toList])) = some .folder

theorem java_ne_go (stem stem' : Text) : stem ++ ".java".toList ≠ stem' ++ ".go".toList := by
  intro h
  have hlast := congrArg List.getLast? h
  rw [List.getLast?_append_of_ne_nil _ (by decide), List.getLast?_append_of_ne_nil _ (by decide)] at hlast
  revert hlast
  decide

section Outlet

variable {b : Batch} {f inside : Folder} (hroot : b.base.isAbsolute = false) {base : Location}
  (hinside : f.at? base = some (.folder inside)) {files : List Path}

include hroot hinside in
theorem exists_outlet (hwalk : f.tree.walk [] b.base.way = some base)
    (htarget : b.target.IsOpen f b.base files) : ∃ out, IsOutlet b f inside base files out := by
  -- what is on the way to a file is a folder
  have hhere : ∀ p ∈ files, ∀ q ∈ files, ∀ dirs stem dirs' stem', IsJavaFile inside dirs stem →
      IsJavaFile inside dirs' stem' → p = b.base.join (javaPath dirs stem) → q = b.base.join (javaPath dirs' stem') →
      dirs ++ [stem ++ ".go".toList] <+: dirs' →
      f.tree (base ++ (dirs ++ [stem ++ ".go".toList])) = some .folder := by
    intro _ _ _ _ dirs stem dirs' stem' _ hfile' _ _ hstart
    exact Folder.tree_of_start (tree_dirs hinside hfile') ((List.prefix_append_right_inj base).mpr hstart)
  cases hb : b.target with
  | beside =>
    refine ⟨base, fun p hp dirs stem hfile hpath => ?_, hhere⟩
    apply exists_does_of_leadsTo hroot hwalk hinside hfile hpath (Folder.LeadsTo.of_walk hroot hwalk)
    rw [hb, hpath, hfile.outputPath?_beside]
  | stdout =>
    refine ⟨base, fun p hp dirs stem hfile hpath => ⟨none, ?_⟩, hhere⟩
    apply does_of_idle hroot hwalk hinside hfile hpath
    intro output houtput
    rw [hb] at houtput
    cases houtput
  | file path =>
    rw [hb] at htarget
    cases htarget
  | dir d =>
    rw [hb] at htarget
    rcases htarget with habsolute | ⟨⟨out, hd⟩, hfolder⟩
    · refine ⟨base, fun p hp dirs stem hfile hpath => ⟨none, ?_⟩, hhere⟩
      apply does_of_idle hroot hwalk hinside hfile hpath
      intro output houtput
      rw [hb, hpath, hfile.outputPath?_dir] at houtput
      rw [← Option.some.inj houtput]
      exact Path.isAbsolute_join habsolute _
    · refine ⟨out, fun p hp dirs stem hfile hpath => ?_, ?_⟩
      · apply exists_does_of_leadsTo hroot hwalk hinside hfile hpath hd
        rw [hb, hpath, hfile.outputPath?_dir]
      · intro p hp q hq dirs stem dirs' stem' hfile hfile' hpath hpath' hstart
        have hcomponents : (p.withExtension "go").components <+: q.components := by
          rw [hpath, hpath', hfile.withExtension_go, goPath, javaPath,
            Path.join_components _ hfile.goNames, Path.join_components _ hfile'.names,
            List.prefix_append_right_inj]
          exact (hstart.trans (List.prefix_append _ _)).map _
        obtain ⟨output, houtput, hisFolder⟩ := hfolder p hp q hq hcomponents
        rw [hpath, hfile.outputPath?_dir] at houtput
        rw [← Option.some.inj houtput] at hisFolder
        rw [← List.append_assoc]
        exact hd.tree_of_isFolder hfile.goNames hisFolder

/-- Go files of different files have different places, and one that is on the way to another is a folder already. -/
theorem IsOutlet.apart {out : Location} (h : IsOutlet b f inside base files out) {p q : Path} (hp : p ∈ files)
    (hq : q ∈ files) (hpq : p ≠ q) {dirs dirs' : List Text} {stem stem' : Text} (hfile : IsJavaFile inside dirs stem)
    (hfile' : IsJavaFile inside dirs' stem') (hpath : p = b.base.join (javaPath dirs stem))
    (hpath' : q = b.base.join (javaPath dirs' stem')) :
    f.tree.Apart (out ++ dirs) (stem ++ ".go".toList) (out ++ dirs') (stem' ++ ".go".toList) where
  ne hplace := by
    obtain ⟨hdirs, hname⟩ := List.append_inj' hplace rfl
    have hdirs := List.append_cancel_left hdirs
    have hstem : stem = stem' := List.append_cancel_right (List.cons.inj hname).1
    apply hpq
    rw [hpath, hpath', hdirs, hstem]
  left hstart := by
    rw [List.append_assoc] at hstart ⊢
    exact h.folder p hp q hq dirs stem dirs' stem' hfile hfile' hpath hpath'
      ((List.prefix_append_right_inj out).mp hstart)
  right hstart := by
    rw [List.append_assoc] at hstart ⊢
    exact h.folder q hq p hp dirs' stem' dirs stem hfile' hfile hpath' hpath
      ((List.prefix_append_right_inj out).mp hstart)

include hinside in
/-- The jobs of files with an outlet do not get in each other's way. -/
theorem IsOutlet.exists_jobs {out : Location} (h : IsOutlet b f inside base files out)
    (hfiles : ∀ p ∈ files, ∃ dirs stem, IsJavaFile inside dirs stem ∧ p = b.base.join (javaPath dirs stem)) :
    ∃ job : Path → Job, (∀ p ∈ files, (job p).Does b f p) ∧ Job.Independent f.tree (files.map job) := by
  have hjobs : ∀ p ∈ files, ∃ job : Job, job.Does b f p ∧ ∃ dirs stem content?, IsJavaFile inside dirs stem ∧
      p = b.base.join (javaPath dirs stem) ∧ job = fileJob base out dirs stem content? := by
    intro p hp
    obtain ⟨dirs, stem, hfile, hpath⟩ := hfiles p hp
    obtain ⟨content?, hdoes⟩ := h.does p hp dirs stem hfile hpath
    exact ⟨_, hdoes, dirs, stem, content?, hfile, hpath, rfl⟩
  have : Nonempty Job := ⟨⟨[], [], [], none⟩⟩
  -- one job for each path, so that equal paths get equal jobs
  choose! job hdoes hjob using hjobs
  refine ⟨job, hdoes, ?_, ?_, ?_⟩
  · rw [List.forall_mem_map]
    intro p hp
    obtain ⟨dirs, stem, content?, hfile, -, heq⟩ := hjob p hp
    rw [heq]
    exact exists_source hinside hfile
  · rw [List.forall_mem_map]
    intro p hp
    rw [List.forall_mem_map]
    intro q hq hread
    obtain ⟨dirs, stem, content?, -, -, heq⟩ := hjob p hp
    obtain ⟨dirs', stem', content?', -, -, heq'⟩ := hjob q hq
    rw [heq, heq', fileJob, fileJob, Job.place, ← List.append_assoc] at hread
    exact java_ne_go stem' stem (by simpa using (List.append_inj' hread rfl).2)
  · rw [List.forall_mem_map]
    intro p hp
    rw [List.forall_mem_map]
    intro q hq hpq
    obtain ⟨dirs, stem, content?, hfile, hpath, heq⟩ := hjob p hp
    obtain ⟨dirs', stem', content?', hfile', hpath', heq'⟩ := hjob q hq
    have hne : p ≠ q := fun hsame => hpq (congrArg job hsame)
    rw [heq, heq']
    exact h.apart hp hq hne hfile hfile' hpath hpath'

end Outlet

/-- Two files below a folder, one of them in a folder of its own. -/
def nestedFiles : Folder := .file "A.java" [120] (.folder "sub" (.file "B.java" [120] .empty) .empty)

/-- A batch whose files go into a folder that is reached on a detour. -/
def detourBatch : Batch := { drafter := {}, base := "src", target := .dir "src/../out" }

theorem collectFiles_nestedFiles :
    collectFiles [] "src" nestedFiles = ["src/A.java".toList, "src/sub/B.java".toList].mergeSort Path.le := rfl

/-- A file next to a folder that has the name of its Go file. -/
def overlappingFiles : Folder := .file "A.java" [120] (.folder "A.go" (.file "B.java" [120] .empty) .empty)

/-- A batch whose files go into another folder. -/
def outBatch : Batch := { drafter := {}, base := "src", target := .dir "out" }

end GoDraft
