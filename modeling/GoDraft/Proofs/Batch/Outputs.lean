import GoDraft.Proofs.Batch.Orders

/-!
# GoDraft — the Go files of a folder

The Go files for the Java files of a folder go below one folder, the same or another, each along the way of its Java
file. No two of them are one file, and none of them is a Java file of the folder: two paths are one if they have the
same components.

* `Target.folder?` — the folder that Go files go below;
* `IsJavaFile.eq_of_components_goPath` — two Go files below one folder;
* `exists_outputPath_apart` — the outputs of a folder are apart.
-/

namespace GoDraft

/-- The folder that the Go files for a folder go below. -/
def Target.folder? (root : Path) : Target → Option Path
  | .beside => some root
  | .dir d => some d
  | .file _ | .stdout => none

namespace IsJavaFile

variable {inside : Folder} {dirs dirs' : List Text} {stem stem' : Text} (h : IsJavaFile inside dirs stem)
  (h' : IsJavaFile inside dirs' stem')

include h

theorem relativeTo?_javaPath (root : Path) :
    (root.join (javaPath dirs stem)).relativeTo? root = some (javaPath dirs stem) :=
  Path.join_relativeTo root h.names

/-- The Go file of a Java file stands where the Java file stands, from whatever folder on. -/
theorem withExtension_javaPath : (javaPath dirs stem).withExtension "go" = goPath dirs stem := by
  have hgo := h.withExtension_go []
  rwa [javaPath, goPath, Path.join_nil, Path.join_nil] at hgo

theorem outputPath?_of_folder? {root d : Path} {target : Target} (hd : target.folder? root = some d) :
    Batch.outputPath? root target (root.join (javaPath dirs stem)) = some (d.join (goPath dirs stem)) := by
  cases target with
  | beside =>
    obtain rfl : root = d := Option.some.inj hd
    exact h.outputPath?_beside root
  | dir e =>
    obtain rfl : e = d := Option.some.inj hd
    exact h.outputPath?_dir root e
  | file out => cases hd
  | stdout => cases hd

include h'

theorem components_goPath_ne (d root : Path) :
    (d.join (goPath dirs stem)).components ≠ (root.join (javaPath dirs' stem')).components := by
  intro hsame
  rw [goPath, javaPath, Path.join_components d h.goNames, Path.join_components root h'.names] at hsame
  have hlast := congrArg List.getLast? hsame
  simp only [List.map_append, List.map_cons, List.map_nil, ← List.append_assoc, List.getLast?_concat] at hlast
  exact java_ne_go stem' stem (Path.componentOf_injective (Option.some.inj hlast)).symm

/-- Below one folder, a Go file is that of one Java file only. -/
theorem eq_of_components_goPath {d : Path}
    (hsame : (d.join (goPath dirs stem)).components = (d.join (goPath dirs' stem')).components) :
    dirs = dirs' ∧ stem = stem' := by
  rw [goPath, goPath, Path.join_components d h.goNames, Path.join_components d h'.goNames] at hsame
  have hnames := Path.componentOf_injective.list_map (List.append_cancel_left hsame)
  obtain ⟨hdirs, hname⟩ := List.append_inj' hnames rfl
  exact ⟨hdirs, List.append_cancel_right (List.singleton_inj.mp hname)⟩

end IsJavaFile

/-- Every Java file of a folder has a Go file below the folder of the target, on the same way as the Java file and with
the extension replaced; it is none of the Java files and no other Java file has it. -/
theorem exists_outputPath_apart (excludes : List Glob) {root d : Path} {target : Target} {inside : Folder}
    (hinside : inside.WellFormed) (hd : target.folder? root = some d) :
    ∀ p ∈ collectFiles excludes root inside, ∃ output, Batch.outputPath? root target p = some output ∧
      output.extension? = some "go".toList ∧
      (∃ way : Path, way ≠ [] ∧ p.relativeTo? root = some way ∧ p = root.join way ∧
        output = d.join (way.withExtension "go")) ∧
      ∀ q ∈ collectFiles excludes root inside, output.components ≠ q.components ∧
        ∀ output', Batch.outputPath? root target q = some output' → output'.components = output.components → q = p := by
  intro p hp
  obtain ⟨dirs, stem, hfile, rfl⟩ := exists_of_mem_collectFiles hinside hp
  refine ⟨_, hfile.outputPath?_of_folder? hd, hfile.extension?_goPath d, ⟨javaPath dirs stem, ?_, ?_⟩, ?_⟩
  · exact Path.below_ne_nil dirs (by simp)
  · exact ⟨hfile.relativeTo?_javaPath root, rfl, by rw [hfile.withExtension_javaPath]⟩
  · intro q hq
    obtain ⟨dirs', stem', hfile', rfl⟩ := exists_of_mem_collectFiles hinside hq
    refine ⟨hfile.components_goPath_ne hfile' d root, ?_⟩
    intro output' houtput' hsame
    obtain rfl : d.join (goPath dirs' stem') = output' :=
      Option.some.inj ((hfile'.outputPath?_of_folder? hd).symm.trans houtput')
    obtain ⟨rfl, rfl⟩ := hfile'.eq_of_components_goPath hfile hsame
    rfl

/-- A name with several dots, in a folder that is named as a Go file. -/
def dottedFiles : Folder := .folder "A.go" (.file "A.b.java" [120] .empty) (.file "A.java" [120] .empty)

/-- The Go files of two Java files below an absolute path are apart in another folder. -/
theorem exists_outputPath_apart_dottedFiles :
    dottedFiles.WellFormed ∧ Target.folder? "/src" (.dir "out") = some "out".toList ∧
      "/src/A.go/A.b.java".toList ∈ collectFiles [] "/src" dottedFiles ∧
      "/src/A.java".toList ∈ collectFiles [] "/src" dottedFiles ∧
      ∃ output, Batch.outputPath? "/src" (.dir "out") "/src/A.go/A.b.java" = some output ∧
        output.extension? = some "go".toList ∧ output.components ≠ Path.components "/src/A.java" ∧
        ∀ output', Batch.outputPath? "/src" (.dir "out") "/src/A.java" = some output' →
          output'.components ≠ output.components := by
  have hmem {p : Path} (hp : p ∈ (javaFiles [] [] dottedFiles).map (Path.join "/src")) :
      p ∈ collectFiles [] "/src" dottedFiles := List.mem_mergeSort.mpr hp
  have hdots : "/src/A.go/A.b.java".toList ∈ collectFiles [] "/src" dottedFiles := hmem (by decide)
  have hplain : "/src/A.java".toList ∈ collectFiles [] "/src" dottedFiles := hmem (by decide)
  have hnames : dottedFiles.WellFormed := by decide
  have hd : Target.folder? "/src" (.dir "out") = some "out".toList := rfl
  obtain ⟨output, houtput, hgo, -, hapart⟩ := exists_outputPath_apart [] hnames hd _ hdots
  obtain ⟨hinput, hother⟩ := hapart _ hplain
  refine ⟨hnames, hd, hdots, hplain, output, houtput, hgo, hinput, ?_⟩
  intro output' houtput' hsame
  exact absurd (hother output' houtput' hsame) (by decide)

end GoDraft
