import GoDraft.Batch.Collect
import GoDraft.Proofs.Files.Order
import GoDraft.Proofs.Files.Paths
import GoDraft.Proofs.Files.Tree

/-!
# GoDraft — the files that are collected

Every path that is collected below a folder leads to a file of that folder, by names alone. The names of a file
system are names indeed, and no folder has two entries of one name.

* `Folder.WellFormed` — what a folder of a file system is;
* `exists_of_mem_collectFiles` — what is collected;
* `mergeSort_eq_collectFiles` — collected files, sorted again.
-/

namespace GoDraft

/-! ## Folders of a file system -/

namespace Folder

/-- The names of the entries of a folder. -/
def names : Folder → List Text
  | .empty => []
  | .file name _ rest => name :: rest.names
  | .folder name _ rest => name :: rest.names

/-- Whether the entries of a folder, and of the folders in it, have names of their own. -/
def WellFormed : Folder → Prop
  | .empty => True
  | .file name _ rest => (IsName name ∧ name ∉ rest.names) ∧ rest.WellFormed
  | .folder name inside rest => (IsName name ∧ name ∉ rest.names) ∧ inside.WellFormed ∧ rest.WellFormed

instance decidableWellFormed : (f : Folder) → Decidable f.WellFormed
  | .empty => inferInstanceAs (Decidable True)
  | .file name _ rest =>
    have := decidableWellFormed rest
    inferInstanceAs (Decidable ((IsName name ∧ name ∉ rest.names) ∧ rest.WellFormed))
  | .folder name inside rest =>
    have := decidableWellFormed inside
    have := decidableWellFormed rest
    inferInstanceAs (Decidable ((IsName name ∧ name ∉ rest.names) ∧ inside.WellFormed ∧ rest.WellFormed))

theorem WellFormed.find? {name : Text} {inside : Folder} : ∀ {f : Folder}, f.WellFormed →
    f.find? name = some (.folder inside) → inside.WellFormed
  | .empty, _, h => by cases h
  | .file n content rest, hf, h => by
    rw [Folder.find?] at h
    split at h
    · cases h
    · exact hf.2.find? h
  | .folder n inside' rest, hf, h => by
    rw [Folder.find?] at h
    split at h
    · cases h
      exact hf.2.1
    · exact hf.2.2.find? h

/-- A folder in a folder of a file system is one. -/
theorem WellFormed.at? {inside : Folder} : ∀ {loc : Location} {f : Folder}, f.WellFormed →
    f.at? loc = some (.folder inside) → inside.WellFormed
  | [], f, hf, h => by
    cases h
    exact hf
  | [name], f, hf, h => hf.find? h
  | name :: next :: loc, f, hf, h => by
    rw [Folder.at?] at h
    · split at h
      · rename_i inside' hinside'
        exact (hf.find? hinside').at? h
      · cases h
    · simp

theorem mem_names_of_find? {name : Text} : ∀ {f : Folder}, f.find? name ≠ none → name ∈ f.names
  | .empty, h => absurd rfl h
  | .file n content rest, h => by
    rw [find?] at h
    split at h
    · rename_i hn
      exact hn ▸ List.mem_cons_self
    · exact List.mem_cons_of_mem n (mem_names_of_find? h)
  | .folder n inside rest, h => by
    rw [find?] at h
    split at h
    · rename_i hn
      exact hn ▸ List.mem_cons_self
    · exact List.mem_cons_of_mem n (mem_names_of_find? h)

/-- What stands behind the first entry of a folder is not hidden by it. -/
theorem tree_eq_of_find? {f rest : Folder} {name : Text} (hname : name ∉ rest.names)
    (hfind : ∀ other, other ≠ name → f.find? other = rest.find? other) {loc : Location} {kind : Kind} (hne : loc ≠ [])
    (h : rest.tree loc = some kind) : f.tree loc = some kind := by
  obtain ⟨other, loc, rfl⟩ := List.exists_cons_of_ne_nil hne
  rw [tree_cons] at h ⊢
  have hsome : rest.find? other ≠ none := by
    intro hnone
    rw [hnone] at h
    cases h
  have hother : other ≠ name := fun heq => hname (heq ▸ mem_names_of_find? hsome)
  rw [hfind other hother, h]

end Folder

/-! ## Java files -/

namespace Path

theorem below_concat {here : List Text} (hhere : ∀ n ∈ here, IsName n) {name : Text} (hname : IsName name) :
    (below here).join name = below (here ++ [name]) := by
  have habsolute : isAbsolute name = false := by
    rw [isAbsolute, beq_eq_false_iff_ne]
    exact fun hslash => hname.2.1 (List.mem_of_head? hslash)
  rcases List.eq_nil_or_concat here with rfl | ⟨front, last, rfl⟩
  · simp [join, below, Text.join]
  · rw [List.concat_eq_append] at hhere ⊢
    have hlast : IsName last := hhere last (by simp)
    obtain ⟨s, hs⟩ := Text.exists_join_concat ['/'] last front
    have hend : (below (front ++ [last])).getLast? ≠ some '/' := by
      rw [below, hs, List.getLast?_append_of_ne_nil _ hlast.1]
      exact fun hslash => hlast.2.1 (List.mem_of_getLast? hslash)
    have hne : below (front ++ [last]) ≠ [] := by
      rw [below, hs]
      simp [hlast.1]
    have hlong : below (front ++ [last] ++ [name]) = below (front ++ [last]) ++ ['/'] ++ name :=
      Text.join_concat (by simp)
    rw [join, if_neg (by simp [habsolute, hne]), if_neg hend, hlong]
    rfl

end Path

/-- A Java file below a folder: the names of the folders on its way, and its own without the extension. -/
structure IsJavaFile (f : Folder) (dirs : List Text) (stem : Text) : Prop where
  names : ∀ n ∈ dirs ++ [stem ++ ".java".toList], IsName n
  cut : Path.cutName? (stem ++ ".java".toList) = some (stem, "java".toList)
  file : ∃ content, f.tree (dirs ++ [stem ++ ".java".toList]) = some (.file content)

/-- The relative path of such a file. -/
def javaPath (dirs : List Text) (stem : Text) : Path := Path.below (dirs ++ [stem ++ ".java".toList])

theorem IsJavaFile.of_find? {f rest : Folder} {name : Text} (hname : name ∉ rest.names)
    (hfind : ∀ other, other ≠ name → f.find? other = rest.find? other) {dirs : List Text} {stem : Text}
    (h : IsJavaFile rest dirs stem) : IsJavaFile f dirs stem := by
  obtain ⟨content, hcontent⟩ := h.file
  exact ⟨h.names, h.cut, content, Folder.tree_eq_of_find? hname hfind (by simp) hcontent⟩

theorem exists_stem_of_extension? {here : List Text} {name : Text} (hnames : ∀ n ∈ here ++ [name], IsName n)
    (h : (Path.below (here ++ [name])).extension? = some "java".toList) :
    ∃ stem, name = stem ++ ".java".toList ∧ Path.cutName? name = some (stem, "java".toList) := by
  have hfile := @Path.join_fileName [] here name hnames
  rw [Path.join_nil] at hfile
  rw [Path.extension?, hfile, Option.bind_some] at h
  cases hcut : Path.cutName? name with
  | none =>
    rw [hcut] at h
    cases h
  | some cut =>
    obtain ⟨stem, ext⟩ := cut
    rw [hcut] at h
    obtain rfl : ext = "java".toList := Option.some.inj h
    exact ⟨stem, (Path.eq_of_cutName? hcut).2, rfl⟩

/-- What is collected below a folder is a Java file of it. -/
theorem exists_of_mem_javaFiles (excludes : List Glob) {p : Path} : ∀ {f : Folder} {here : List Text}, f.WellFormed →
    (∀ n ∈ here, IsName n) → p ∈ javaFiles excludes (Path.below here) f →
    ∃ dirs stem, IsJavaFile f dirs stem ∧ p = javaPath (here ++ dirs) stem
  | .empty, here, _, _, h => absurd h List.not_mem_nil
  | .file name content rest, here, hf, hhere, h => by
    obtain ⟨⟨hname, hfresh⟩, hrest⟩ := hf
    have hnames : ∀ n ∈ here ++ [name], IsName n := by
      rw [List.forall_mem_append]
      exact ⟨hhere, by simpa using hname⟩
    -- the entries behind this one, whose names are others
    have hothers (hp : p ∈ javaFiles excludes (Path.below here) rest) :
        ∃ dirs stem, IsJavaFile (.file name content rest) dirs stem ∧ p = javaPath (here ++ dirs) stem := by
      obtain ⟨dirs, stem, hfile, hpath⟩ := exists_of_mem_javaFiles excludes hrest hhere hp
      refine ⟨dirs, stem, hfile.of_find? hfresh fun other hother => ?_, hpath⟩
      rw [Folder.find?, if_neg hother.symm]
    rw [javaFiles, Path.below_concat hhere hname] at h
    split at h
    · rename_i hjava
      rw [Bool.and_eq_true, beq_iff_eq] at hjava
      rcases List.mem_cons.mp h with rfl | hp
      · obtain ⟨stem, rfl, hcut⟩ := exists_stem_of_extension? hnames hjava.2
        refine ⟨[], stem, ⟨by simpa using hname, hcut, content, ?_⟩, by rw [List.append_nil, javaPath]⟩
        rw [List.nil_append, Folder.tree_cons, Folder.find?, if_pos rfl]
        rfl
      · exact hothers hp
    · exact hothers h
  | .folder name inside rest, here, hf, hhere, h => by
    obtain ⟨⟨hname, hfresh⟩, hinside, hrest⟩ := hf
    have hnames : ∀ n ∈ here ++ [name], IsName n := by
      rw [List.forall_mem_append]
      exact ⟨hhere, by simpa using hname⟩
    have hothers (hp : p ∈ javaFiles excludes (Path.below here) rest) :
        ∃ dirs stem, IsJavaFile (.folder name inside rest) dirs stem ∧ p = javaPath (here ++ dirs) stem := by
      obtain ⟨dirs, stem, hfile, hpath⟩ := exists_of_mem_javaFiles excludes hrest hhere hp
      refine ⟨dirs, stem, hfile.of_find? hfresh fun other hother => ?_, hpath⟩
      rw [Folder.find?, if_neg hother.symm]
    rw [javaFiles, Path.below_concat hhere hname] at h
    split at h
    · exact hothers h
    · rcases List.mem_append.mp h with hp | hp
      · obtain ⟨dirs, stem, hfile, hpath⟩ := exists_of_mem_javaFiles excludes hinside hnames hp
        obtain ⟨content, hcontent⟩ := hfile.file
        refine ⟨name :: dirs, stem, ⟨?_, hfile.cut, content, ?_⟩, ?_⟩
        · rw [List.cons_append, List.forall_mem_cons]
          exact ⟨hname, hfile.names⟩
        · rw [List.cons_append, Folder.tree_cons, Folder.find?, if_pos rfl]
          exact hcontent
        · rw [hpath, List.append_assoc]
          rfl
      · exact hothers hp

theorem exists_of_mem_collectFiles {excludes : List Glob} {root : Path} {inside : Folder} (hinside : inside.WellFormed)
    {p : Path} (hp : p ∈ collectFiles excludes root inside) :
    ∃ dirs stem, IsJavaFile inside dirs stem ∧ p = root.join (javaPath dirs stem) := by
  rw [collectFiles] at hp
  split at hp
  · exact absurd hp List.not_mem_nil
  · obtain ⟨q, hq, rfl⟩ := List.mem_map.mp (List.mem_mergeSort.mp hp)
    have hnone : ∀ n ∈ ([] : List Text), IsName n := by simp
    obtain ⟨dirs, stem, hfile, rfl⟩ := exists_of_mem_javaFiles excludes hinside hnone hq
    exact ⟨dirs, stem, hfile, rfl⟩

/-! ## Their order -/

namespace Path

theorem componentOf_injective : Function.Injective componentOf := by
  intro a b h
  rw [componentOf, componentOf] at h
  split at h <;> split at h <;> simp_all

end Path

/-- The collected files in any order, sorted, are the collected files. -/
theorem mergeSort_eq_collectFiles {excludes : List Glob} {root : Path} {inside : Folder}
    (hinside : inside.WellFormed) {order : List Path}
    (h : order.Perm (collectFiles excludes root inside)) :
    order.mergeSort Path.le = collectFiles excludes root inside := by
  have hsorted (paths : List Path) : (paths.mergeSort Path.le).Pairwise fun p q => p.le q = true :=
    List.pairwise_mergeSort (fun p q r => @Path.le_trans p q r) Path.le_or_le paths
  have hfiles : (collectFiles excludes root inside).Pairwise fun p q => p.le q = true := by
    rw [collectFiles]
    split
    · exact List.Pairwise.nil
    · exact hsorted _
  refine ((List.mergeSort_perm order Path.le).trans h).eq_of_pairwise ?_ (hsorted order) hfiles
  intro p q hp hq hpq hqp
  -- what means the same is written the same, below one folder
  have hp' : p ∈ collectFiles excludes root inside := h.mem_iff.mp (List.mem_mergeSort.mp hp)
  obtain ⟨dirs, stem, hfile, rfl⟩ := exists_of_mem_collectFiles hinside hp'
  obtain ⟨dirs', stem', hfile', rfl⟩ := exists_of_mem_collectFiles hinside hq
  have hcomponents := Path.components_eq_of_le hpq hqp
  rw [javaPath, javaPath, Path.join_components root hfile.names, Path.join_components root hfile'.names] at hcomponents
  rw [javaPath, javaPath, Path.componentOf_injective.list_map (List.append_cancel_left hcomponents)]

end GoDraft
