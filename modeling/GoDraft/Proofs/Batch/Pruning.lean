import GoDraft.Proofs.Batch.Collected
import Mathlib.Data.List.Infix
import Mathlib.Data.List.Nodup

/-!
# GoDraft — what the search for files leaves out

The search for Java files does not look into a folder that is hidden or excluded. What it finds can be told without
the search: of everything below the folder, the Java files are kept whose way has nothing on it that is excluded and
no folder that is hidden.

* `Folder.mem_entries_iff`, `Folder.nodup_entries` — the whole listing of a folder;
* `isTaken` — what is kept of it, told by the whole way to a file;
* `javaFiles_eq_filter` — the search is the listing without the rest;
* `collectFiles_exact` — what is collected, in order and once.
-/

namespace GoDraft

/-! ## The listing of a folder -/

namespace Folder

/-- What is listed stands behind the path of the folder, under one of the names in it. -/
theorem exists_of_mem_entries {x : Location × Entry} : ∀ {f : Folder} {path : Location}, x ∈ f.entries path →
    ∃ name ∈ f.names, path ++ [name] <+: x.1
  | .empty, path, h => absurd h List.not_mem_nil
  | .file name content rest, path, h => by
    rcases List.mem_cons.mp h with rfl | h
    · exact ⟨name, List.mem_cons_self, List.prefix_rfl⟩
    · obtain ⟨n, hn, hway⟩ := exists_of_mem_entries h
      exact ⟨n, List.mem_cons_of_mem name hn, hway⟩
  | .folder name inside rest, path, h => by
    rcases List.mem_append.mp h with h | h
    · rcases List.mem_cons.mp h with rfl | h
      · exact ⟨name, List.mem_cons_self, List.prefix_rfl⟩
      · obtain ⟨n, -, hway⟩ := exists_of_mem_entries h
        exact ⟨name, List.mem_cons_self, (List.prefix_append (path ++ [name]) [n]).trans hway⟩
    · obtain ⟨n, hn, hway⟩ := exists_of_mem_entries h
      exact ⟨n, List.mem_cons_of_mem name hn, hway⟩

theorem mem_names_of_mem_entries {f : Folder} {path rest : Location} {name : Text} {entry : Entry}
    (h : (path ++ name :: rest, entry) ∈ f.entries path) : name ∈ f.names := by
  obtain ⟨n, hn, hway⟩ := exists_of_mem_entries h
  have hname : n = name := by
    rw [List.prefix_append_right_inj, List.cons_prefix_cons] at hway
    exact hway.1
  exact hname ▸ hn

theorem nil_notMem_entries {f : Folder} {path : Location} {entry : Entry} : (path, entry) ∉ f.entries path := by
  intro h
  obtain ⟨n, -, hway⟩ := exists_of_mem_entries h
  have hle : (path ++ [n]).length ≤ path.length := hway.length_le
  rw [List.length_append, List.length_singleton] at hle
  omega

-- The first name of a location tells which entry of the folder to look into; names are not met twice.
/-- The files that are listed are the files that stand below the folder. -/
theorem mem_entries_iff {content : List UInt8} : ∀ {f : Folder} {path loc : Location}, f.WellFormed →
    ((path ++ loc, .file content) ∈ f.entries path ↔ f.tree loc = some (.file content))
  | f, path, [], _ => by
    rw [List.append_nil]
    exact iff_of_false nil_notMem_entries (by simp)
  | .empty, path, first :: more, _ => iff_of_false List.not_mem_nil (by rw [tree_cons]; simp [find?])
  | .file name c rest, path, first :: more, hf => by
    have ih := @mem_entries_iff content rest path (first :: more) hf.2
    rw [entries, List.mem_cons, ih, Prod.mk.injEq, List.append_cancel_left_eq, List.cons.injEq, Entry.file.injEq,
      tree_cons, tree_cons, find?]
    by_cases hname : name = first
    · subst hname
      -- the name stands only once, so the rest of the folder does not have it
      have hnone : rest.find? name = none := by_contra fun h => hf.1.2 (mem_names_of_find? h)
      rw [if_pos rfl, hnone]
      simp [Entry.tree, eq_comm]
    · rw [if_neg hname]
      simp [Ne.symm hname]
  | .folder name inside rest, path, first :: more, hf => by
    have ih := @mem_entries_iff content rest path (first :: more) hf.2.2
    rw [entries, List.mem_append, List.mem_cons, ih, Prod.mk.injEq, tree_cons, tree_cons, find?]
    by_cases hname : name = first
    · subst hname
      have hnone : rest.find? name = none := by_contra fun h => hf.1.2 (mem_names_of_find? h)
      have hinside := @mem_entries_iff content inside (path ++ [name]) more hf.2.1
      rw [List.append_assoc, List.singleton_append] at hinside
      rw [if_pos rfl, hnone, hinside]
      simp [Entry.tree]
    · have hinside : (path ++ first :: more, Entry.file content) ∉ inside.entries (path ++ [name]) := by
        intro h
        obtain ⟨n, -, hway⟩ := exists_of_mem_entries h
        rw [List.append_assoc, List.prefix_append_right_inj, List.singleton_append, List.cons_prefix_cons] at hway
        exact hname hway.1
      rw [if_neg hname]
      simp [hinside]

/-- No location is listed twice. -/
theorem nodup_entries : ∀ {f : Folder}, f.WellFormed → ∀ path : Location, ((f.entries path).map Prod.fst).Nodup
  | .empty, _, path => List.nodup_nil
  | .file name content rest, hf, path => by
    rw [entries, List.map_cons, List.nodup_cons]
    refine ⟨fun h => ?_, nodup_entries hf.2 path⟩
    obtain ⟨⟨_, entry⟩, hentry, rfl⟩ := List.mem_map.mp h
    exact hf.1.2 (mem_names_of_mem_entries hentry)
  | .folder name inside rest, hf, path => by
    have hfresh {loc : Location} (hloc : loc ∈ (rest.entries path).map Prod.fst) : ¬ path ++ [name] <+: loc := by
      rintro ⟨more, rfl⟩
      obtain ⟨⟨_, entry⟩, hentry, hloc⟩ := List.mem_map.mp hloc
      rw [List.append_assoc, List.singleton_append] at hloc
      obtain rfl : _ = path ++ name :: more := hloc
      exact hf.1.2 (mem_names_of_mem_entries hentry)
    rw [entries, List.map_append, List.map_cons, List.nodup_append, List.nodup_cons]
    refine ⟨⟨fun h => ?_, nodup_entries hf.2.1 _⟩, nodup_entries hf.2.2 path, ?_⟩
    · obtain ⟨⟨_, entry⟩, hentry, rfl⟩ := List.mem_map.mp h
      exact nil_notMem_entries hentry
    · rintro loc hloc loc' hloc' rfl
      rcases List.mem_cons.mp hloc with rfl | hloc
      · exact hfresh hloc' List.prefix_rfl
      · obtain ⟨x, hx, rfl⟩ := List.mem_map.mp hloc
        obtain ⟨n, -, hway⟩ := exists_of_mem_entries hx
        exact hfresh hloc' ((List.prefix_append (path ++ [name]) [n]).trans hway)

end Folder

/-! ## What is kept of it -/

/-- Whether nothing on the way to a location is excluded, from the start of the search to the location itself. -/
def isKept (excludes : List Glob) (loc : Location) : Bool :=
  loc.inits.all fun way => !isExcluded excludes (Path.below way)

/-- Whether no folder on the way to a location is hidden. -/
def isShown (loc : Location) : Bool := loc.dropLast.all fun name => !isHidden name

/-- Whether what is listed is a Java file whose way is kept and shown. -/
def isTaken (excludes : List Glob) (x : Location × Entry) : Bool :=
  !x.2.isFolder && ((Path.below x.1).extension? == some "java".toList) && isKept excludes x.1 && isShown x.1

section Taken

variable {excludes : List Glob} {here : Location} {name : Text}

theorem isKept_iff {loc : Location} :
    isKept excludes loc = true ↔ ∀ way, way <+: loc → isExcluded excludes (Path.below way) = false := by
  simp [isKept]

theorem isTaken_iff {x : Location × Entry} : isTaken excludes x = true ↔
    ∃ content, x.2 = .file content ∧ (Path.below x.1).extension? = some "java".toList ∧
      (∀ way, way <+: x.1 → isExcluded excludes (Path.below way) = false) ∧
      ∀ name ∈ x.1.dropLast, isHidden name = false := by
  obtain ⟨loc, entry⟩ := x
  rw [isTaken, Bool.and_eq_true, Bool.and_eq_true, Bool.and_eq_true, isKept_iff, isShown, List.all_eq_true,
    beq_iff_eq]
  cases entry with
  | file content => simp [Entry.isFolder, and_assoc]
  | folder inside => simp [Entry.isFolder]

theorem isKept_concat : isKept excludes (here ++ [name]) =
    (isKept excludes here && !isExcluded excludes (Path.below (here ++ [name]))) := by
  rw [isKept, List.inits_append, List.all_append]
  simp [isKept]

/-- What is behind a folder that is hidden or excluded is not taken. -/
theorem isTaken_of_isPrefix {x : Location × Entry} {n : Text} (hway : here ++ [name] ++ [n] <+: x.1)
    (h : isHidden name = true ∨ isExcluded excludes (Path.below (here ++ [name])) = true) :
    isTaken excludes x = false := by
  obtain ⟨more, hmore⟩ := hway
  rw [isTaken, Bool.and_eq_false_iff, Bool.and_eq_false_iff]
  rcases h with hhidden | hexcluded
  · refine .inr ?_
    rw [isShown, List.all_eq_false]
    refine ⟨name, ?_, by simp [hhidden]⟩
    rw [← hmore, List.append_assoc, List.dropLast_append_of_ne_nil (by simp)]
    simp
  · refine .inl (.inr ?_)
    rw [Bool.eq_false_iff, Ne, isKept_iff]
    intro hkept
    have hprefix : here ++ [name] <+: x.1 := by
      rw [← hmore, List.append_assoc]
      exact List.prefix_append _ _
    rw [hkept _ hprefix] at hexcluded
    cases hexcluded

/-- A file right in a folder that is searched is taken for its own sake. -/
theorem isTaken_file {content : List UInt8} (hkept : isKept excludes here = true)
    (hshown : ∀ n ∈ here, isHidden n = false) :
    isTaken excludes (here ++ [name], .file content) = (!isExcluded excludes (Path.below (here ++ [name])) &&
      (Path.below (here ++ [name])).extension? == some "java".toList) := by
  have hall : isShown (here ++ [name]) = true := by
    rw [isShown, List.dropLast_concat, List.all_eq_true]
    intro n hn
    rw [hshown n hn]
    rfl
  rw [isTaken, isKept_concat, hkept, hall, Bool.true_and, Bool.and_true, Bool.and_comm]
  rfl

-- The induction is on the folder; `here` is the way to it, which is itself kept and shown.
/-- **The search is the listing without what is left out.** -/
theorem javaFiles_eq_filter : ∀ {f : Folder} {here : Location}, f.WellFormed → (∀ n ∈ here, IsName n) →
    isKept excludes here = true → (∀ n ∈ here, isHidden n = false) →
      javaFiles excludes (Path.below here) f =
        ((f.entries here).filter (isTaken excludes)).map fun x => Path.below x.1
  | .empty, here, _, _, _, _ => rfl
  | .file name content rest, here, hf, hhere, hkept, hshown => by
    have ih := javaFiles_eq_filter hf.2 hhere hkept hshown
    rw [javaFiles, Folder.entries, List.filter_cons, isTaken_file hkept hshown, Path.below_concat hhere hf.1.1, ih]
    split <;> rfl
  | .folder name inside rest, here, hf, hhere, hkept, hshown => by
    have ih := javaFiles_eq_filter hf.2.2 hhere hkept hshown
    have hfolder : isTaken excludes (here ++ [name], .folder inside) = false := rfl
    rw [javaFiles, Folder.entries, List.filter_append, List.filter_cons_of_neg (by simp [hfolder]), List.map_append,
      Path.below_concat hhere hf.1.1, ih]
    split
    · rename_i hout
      rw [Bool.or_eq_true] at hout
      -- what lies below a folder that is left out is left out with it
      have hnone : (inside.entries (here ++ [name])).filter (isTaken excludes) = [] := by
        rw [List.filter_eq_nil_iff]
        intro x hx
        obtain ⟨n, -, hway⟩ := Folder.exists_of_mem_entries hx
        simp [isTaken_of_isPrefix hway hout]
      rw [hnone]
      rfl
    · rename_i hin
      rw [Bool.not_eq_true, Bool.or_eq_false_iff] at hin
      have hnames : ∀ n ∈ here ++ [name], IsName n := by
        rw [List.forall_mem_append]
        exact ⟨hhere, by simpa using hf.1.1⟩
      have hopen : ∀ n ∈ here ++ [name], isHidden n = false := by
        rw [List.forall_mem_append]
        exact ⟨hshown, by simpa using hin.1⟩
      have hpath : isKept excludes (here ++ [name]) = true := by
        rw [isKept_concat, hkept, hin.2]
        rfl
      rw [javaFiles_eq_filter hf.2.1 hnames hpath hopen]

end Taken

/-! ## What is collected -/

/-- A listed location is made of names. -/
theorem isName_of_mem_entries : ∀ {f : Folder} {path : Location}, f.WellFormed → (∀ n ∈ path, IsName n) →
    ∀ x ∈ f.entries path, x.1 ≠ [] ∧ ∀ n ∈ x.1, IsName n
  | .empty, path, _, _ => by simp [Folder.entries]
  | .file name content rest, path, hf, hpath => by
    rw [Folder.entries, List.forall_mem_cons]
    refine ⟨⟨by simp, ?_⟩, isName_of_mem_entries hf.2 hpath⟩
    rw [List.forall_mem_append]
    exact ⟨hpath, by simpa using hf.1.1⟩
  | .folder name inside rest, path, hf, hpath => by
    have hnames : ∀ n ∈ path ++ [name], IsName n := by
      rw [List.forall_mem_append]
      exact ⟨hpath, by simpa using hf.1.1⟩
    rw [Folder.entries, List.forall_mem_append, List.forall_mem_cons]
    exact ⟨⟨⟨by simp, hnames⟩, isName_of_mem_entries hf.2.1 hnames⟩, isName_of_mem_entries hf.2.2 hpath⟩

/-- Locations with different names are written differently, below any folder. -/
theorem join_below_injective (root : Path) {loc loc' : Location} (hloc : loc ≠ [] ∧ ∀ n ∈ loc, IsName n)
    (hloc' : loc' ≠ [] ∧ ∀ n ∈ loc', IsName n) (h : root.join (Path.below loc) = root.join (Path.below loc')) :
    loc = loc' := by
  have hbelow : Path.below loc = Path.below loc' := by
    rw [Path.join, Path.join, Path.isAbsolute_below hloc.1 hloc.2, Path.isAbsolute_below hloc'.1 hloc'.2] at h
    split at h
    · exact h
    · split at h
      · exact List.append_cancel_left h
      · exact List.append_cancel_left h
  rw [← Path.pieces_below hloc.1 hloc.2, hbelow, Path.pieces_below hloc'.1 hloc'.2]

/-- **What is collected.** The paths are in the order of paths and none is there twice. They are the paths of the files
below the folder that have the extension `java`, such that nothing on the way is excluded, from the folder itself
(the empty path) to the file, and no folder on the way is hidden. -/
theorem collectFiles_exact (excludes : List Glob) (root : Path) {inside : Folder} (hinside : inside.WellFormed) :
    (collectFiles excludes root inside).Pairwise (fun p q => p.le q = true) ∧
      (collectFiles excludes root inside).Nodup ∧
      ∀ p, p ∈ collectFiles excludes root inside ↔
        ∃ loc, p = root.join (Path.below loc) ∧ (∃ content, inside.at? loc = some (.file content)) ∧
          (Path.below loc).extension? = some "java".toList ∧
          (∀ way, way <+: loc → isExcluded excludes (Path.below way) = false) ∧
          ∀ name ∈ loc.dropLast, isHidden name = false := by
  by_cases hroot : isExcluded excludes [] = true
  · rw [collectFiles, if_pos hroot]
    refine ⟨.nil, .nil, fun p => iff_of_false List.not_mem_nil ?_⟩
    rintro ⟨loc, -, -, -, hkept, -⟩
    rw [show isExcluded excludes [] = false from hkept [] List.nil_prefix] at hroot
    cases hroot
  · have hkept : isKept excludes [] = true := by simpa [isKept, Path.below, Text.join] using hroot
    have hfiles : javaFiles excludes [] inside =
        ((inside.entries []).filter (isTaken excludes)).map fun x => Path.below x.1 :=
      javaFiles_eq_filter hinside (by simp) hkept (by simp)
    have hnames : ∀ x ∈ inside.entries [], x.1 ≠ [] ∧ ∀ n ∈ x.1, IsName n := isName_of_mem_entries hinside (by simp)
    have hpaths : (javaFiles excludes [] inside).map root.join =
        (((inside.entries []).filter (isTaken excludes)).map Prod.fst).map fun loc => root.join (Path.below loc) := by
      rw [hfiles, List.map_map, List.map_map]
      rfl
    rw [collectFiles, if_neg hroot, hpaths]
    refine ⟨List.pairwise_mergeSort (fun p q r => @Path.le_trans p q r) Path.le_or_le _, ?_, fun p => ?_⟩
    · rw [(List.mergeSort_perm _ _).nodup_iff]
      have hlocs := ((inside.entries []).filter_sublist (p := isTaken excludes)).map Prod.fst
      refine List.Nodup.map_on ?_ ((Folder.nodup_entries hinside []).sublist hlocs)
      intro loc hloc loc' hloc' h
      obtain ⟨x, hx, rfl⟩ := List.mem_map.mp (hlocs.subset hloc)
      obtain ⟨y, hy, rfl⟩ := List.mem_map.mp (hlocs.subset hloc')
      exact join_below_injective root (hnames x hx) (hnames y hy) h
    · rw [List.mem_mergeSort, List.mem_map]
      constructor
      · rintro ⟨loc, hloc, rfl⟩
        obtain ⟨⟨loc, entry⟩, hx, rfl⟩ := List.mem_map.mp hloc
        obtain ⟨hlisted, htaken⟩ := List.mem_filter.mp hx
        obtain ⟨content, rfl, hjava, hkept, hshown⟩ := isTaken_iff.mp htaken
        exact ⟨loc, rfl, ⟨content, Folder.tree_eq_file_iff.mp ((Folder.mem_entries_iff hinside).mp hlisted)⟩, hjava,
          hkept, hshown⟩
      · rintro ⟨loc, rfl, ⟨content, hcontent⟩, hjava, hkept, hshown⟩
        refine ⟨loc, List.mem_map.mpr ⟨(loc, .file content), List.mem_filter.mpr ⟨?_, ?_⟩, rfl⟩, rfl⟩
        · have htree : inside.tree ([] ++ loc) = some (.file content) := Folder.tree_eq_file_iff.mpr hcontent
          exact (Folder.mem_entries_iff hinside).mpr htree
        · exact isTaken_iff.mpr ⟨content, rfl, hjava, hkept, hshown⟩

/-- A file in a plain folder, one in a hidden folder and one in a folder with generated code. -/
def sortedOutFiles : Folder :=
  .folder ".hidden" (.file "B.java" [120] .empty)
    (.folder "gen" (.file "C.java" [120] .empty) (.folder "app" (.file "A.java" [120] .empty) .empty))

/-- The globs that leave out generated code. -/
def generatedGlobs : List Glob := (Glob.ofTexts ["gen"]).toOption.getD []

/-- Of three files the one in the plain folder is collected. -/
theorem collectFiles_exact_sortedOutFiles :
    sortedOutFiles.WellFormed ∧ collectFiles generatedGlobs "src" sortedOutFiles = ["src/app/A.java".toList] ∧
      ∃ loc, "src/app/A.java".toList = Path.join "src" (Path.below loc) ∧
        (∃ content, sortedOutFiles.at? loc = some (.file content)) ∧
        (Path.below loc).extension? = some "java".toList ∧
        (∀ way, way <+: loc → isExcluded generatedGlobs (Path.below way) = false) ∧
        ∀ name ∈ loc.dropLast, isHidden name = false := by
  have hfiles : collectFiles generatedGlobs "src" sortedOutFiles = ["src/app/A.java".toList] := by decide +kernel
  have hnames : sortedOutFiles.WellFormed := by decide
  refine ⟨hnames, hfiles, ((collectFiles_exact generatedGlobs "src" hnames).2.2 _).mp ?_⟩
  rw [hfiles]
  exact List.mem_singleton_self _

end GoDraft
