import GoDraft.Batch.Run
import GoDraft.Proofs.Files.Walks
import Mathlib.Data.List.Infix

/-!
# GoDraft — writing by locations

Writing a text makes the missing folders on its way, unless a file is in the way. What it does to the tree of the
file system, and why it fails, hangs on the tree alone.

* `Tree.writeError?`, `Tree.write` — writing at a location;
* `Folder.makeFolders_of_walk` — making folders;
* `writeText_of_walk` — writing at a path is writing at the location it leads to;
* `Tree.writeError?_write`, `Tree.write_comm` — two writes that do not get in each other's way.
-/

namespace GoDraft

/-- Whether something is a file. -/
def Kind.isFile : Kind → Bool
  | .file _ => true
  | .folder => false

namespace Tree

/-- Whether a file stands on the way to a location, or there. -/
def blocks (v : Tree) (loc : Location) : Bool := loc.inits.any fun l => (v l).any Kind.isFile

/-- A tree with folders all the way to a location. -/
def fill (v : Tree) (dir : Location) : Tree := fun l => if l <+: dir then some .folder else v l

/-- Why no file can be written under a name in a folder that is made if it is missing. -/
def writeError? (v : Tree) (dir : Location) (name : Text) : Option FileError :=
  if v.blocks dir.dropLast then some .notAFolder
  else if v.blocks dir then some .alreadyExists
  else if v (dir ++ [name]) = some .folder then some .isAFolder
  else none

/-- A tree after a file is written, if it can be. -/
def write (v : Tree) (dir : Location) (name : Text) (content : List UInt8) : Tree :=
  if (v.writeError? dir name).isSome then v
  else Function.update (v.fill dir) (dir ++ [name]) (some (.file content))

variable {v : Tree} {dir loc : Location} {name : Text}

theorem blocks_eq_false_iff : v.blocks loc = false ↔ ∀ l, l <+: loc → (v l).any Kind.isFile = false := by
  simp [blocks]

theorem blocks_congr {v' : Tree} (h : ∀ l, l <+: loc → (v l).any Kind.isFile = (v' l).any Kind.isFile) :
    v.blocks loc = v'.blocks loc := by
  have hiff : v.blocks loc = false ↔ v'.blocks loc = false := by
    rw [blocks_eq_false_iff, blocks_eq_false_iff]
    exact forall₂_congr fun l hl => by rw [h l hl]
  rw [Bool.eq_iff_iff]
  simpa using not_congr hiff

theorem blocks_mono (h : loc <+: dir) (hdir : v.blocks dir = false) : v.blocks loc = false := by
  rw [blocks_eq_false_iff] at hdir ⊢
  exact fun l hl => hdir l (hl.trans h)

theorem blocks_concat : v.blocks (dir ++ [name]) = (v.blocks dir || (v (dir ++ [name])).any Kind.isFile) := by
  simp [blocks, List.inits_append, List.any_append]

theorem fill_apply_of_start (h : loc <+: dir) : v.fill dir loc = some .folder := if_pos h

theorem fill_apply_of_not_start (h : ¬ loc <+: dir) : v.fill dir loc = v loc := if_neg h

theorem not_concat_start : ¬ dir ++ [name] <+: dir := by
  intro h
  have hlength := h.length_le
  rw [List.length_append, List.length_singleton] at hlength
  omega

/-- Folders as far as they stand already change nothing. -/
theorem fill_eq_self (h : ∀ l, l <+: dir → v l = some .folder) : v.fill dir = v := by
  funext l
  by_cases hl : l <+: dir
  · rw [fill_apply_of_start hl, h l hl]
  · exact fill_apply_of_not_start hl

theorem grows_fill : v.Grows (v.fill dir) := by
  intro l hl
  by_cases hstart : l <+: dir
  · exact fill_apply_of_start hstart
  · rwa [fill_apply_of_not_start hstart]

theorem update_fill : Function.update (v.fill dir) (dir ++ [name]) (some .folder) = v.fill (dir ++ [name]) := by
  funext l
  rw [Function.update_apply]
  by_cases hl : l = dir ++ [name]
  · rw [if_pos hl, hl, fill_apply_of_start (List.prefix_refl _)]
  · simp [fill, List.prefix_concat_iff, hl]

end Tree

/-! ## Making folders -/

namespace Folder

variable {f : Folder} {loc dir base : Location} {name : Text}

theorem tree_of_start (hdir : f.tree dir = some .folder) (h : loc <+: dir) : f.tree loc = some .folder := by
  obtain ⟨rest, rfl⟩ := h
  by_cases hrest : rest = []
  · rwa [hrest, List.append_nil] at hdir
  · exact tree_eq_folder_of_tree_append hrest hdir

theorem blocks_of_tree (hdir : f.tree dir = some .folder) : f.tree.blocks dir = false := by
  rw [Tree.blocks_eq_false_iff]
  intro l hl
  rw [tree_of_start hdir hl]
  rfl

theorem fill_tree (hdir : f.tree dir = some .folder) : f.tree.fill dir = f.tree :=
  Tree.fill_eq_self fun _ hl => tree_of_start hdir hl

/-- Behind what is neither a file nor a folder no file stands in the way. -/
theorem blocks_append (hloc : f.tree loc ≠ some .folder) (hblocks : f.tree.blocks loc = false) (rest : Location) :
    f.tree.blocks (loc ++ rest) = false := by
  rw [Tree.blocks_eq_false_iff] at hblocks ⊢
  intro l hl
  rcases List.prefix_or_prefix_of_prefix hl (List.prefix_append loc rest) with hstart | ⟨r, rfl⟩
  · exact hblocks l hstart
  · by_cases hr : r = []
    · rw [hr, List.append_nil]
      exact hblocks loc (List.prefix_refl loc)
    · rw [tree_append_eq_none hr hloc]
      rfl

theorem walk_of_tree : ∀ {names : List Text} {base : Location}, (∀ n ∈ names, IsPlainStep n) →
    f.tree (base ++ names) = some .folder → f.tree.walk base names = some (base ++ names)
  | [], base, _, _ => by rw [List.append_nil]; rfl
  | n :: names, base, hplain, h => by
    rw [List.forall_mem_cons] at hplain
    rw [← List.singleton_append, ← List.append_assoc] at h ⊢
    rw [List.singleton_append, Tree.walk_cons_eq_some_iff]
    exact .inr (.inr ⟨hplain.1, tree_of_start h (List.prefix_append _ _), walk_of_tree hplain.2 h⟩)

/-- Names behind a folder are followed until one of them is missing or a file. -/
theorem follow_names (hname : IsPlainStep name) : ∀ {names : List Text} {base : Location},
    (∀ n ∈ names, IsPlainStep n) → f.tree base = some .folder → f.follow base (names ++ [name]) =
      if f.tree (base ++ names) = some .folder then .ok (.name (base ++ names) name)
      else if f.tree.blocks (base ++ names) then .error .notAFolder else .error .notFound
  | [], base, _, hbase => by
    rw [List.append_nil, if_pos hbase, List.nil_append, follow_last f base hname]
  | n :: names, base, hplain, hbase => by
    rw [List.forall_mem_cons] at hplain
    have hsplit : base ++ n :: names = base ++ [n] ++ names := by simp
    rw [List.cons_append, follow_cons f base hplain.1 (by simp), hsplit]
    cases hn : f.tree (base ++ [n]) with
    | none =>
      have hno : f.tree (base ++ [n]) ≠ some .folder := by simp [hn]
      have hblocks : f.tree.blocks (base ++ [n]) = false := by
        rw [Tree.blocks_concat, blocks_of_tree hbase, hn]
        rfl
      rw [if_neg (fun h => hno (tree_of_start h (List.prefix_append _ _))), blocks_append hno hblocks]
      rfl
    | some kind =>
      cases kind with
      | file content =>
        have hno : f.tree (base ++ [n]) ≠ some .folder := by simp [hn]
        have hblocks : f.tree.blocks (base ++ [n] ++ names) = true := by
          -- a free way would have no file on it
          by_contra hfree
          rw [Bool.not_eq_true] at hfree
          have hfile := Tree.blocks_eq_false_iff.mp hfree _ (List.prefix_append _ _)
          rw [hn] at hfile
          cases hfile
        rw [if_neg (fun h => hno (tree_of_start h (List.prefix_append _ _))), hblocks]
        rfl
      | folder => exact follow_names hname hplain.2 hn

theorem makeFolder_of_some {p : Path} {entry : Entry} (hgoal : f.goal p = .ok (.name dir name))
    (hentry : f.at? (dir ++ [name]) = some entry) : f.makeFolder p = .error .alreadyExists := by
  simp only [makeFolder, hgoal, bind, Except.bind, hentry]

/-- Where there is a folder, none can be made, and none has to be. -/
theorem ensureFolder_of_walk {p : Path} (hrelative : p.isAbsolute = false) (hne : p ≠ [])
    (h : f.tree.walk [] p.way = some dir) :
    f.makeFolder p = .error .alreadyExists ∧ f.ensureFolder p = (f, .ok ()) := by
  have hmake : f.makeFolder p = .error .alreadyExists := by
    have hsteps := h
    rw [Path.way_eq_filter_steps hrelative, Tree.walk_filter] at hsteps
    obtain ⟨g, hg, rfl⟩ := follow_of_walk hsteps
    obtain ⟨inside, hinside⟩ := tree_eq_folder_iff.mp (tree_of_walk (tree_nil f) hsteps)
    have hgoal : f.goal p = .ok g := by
      rw [Folder.goal, if_neg (by simp [hne, hrelative]), hg]
    cases g with
    | folder loc =>
      rw [makeFolder, hgoal]
      rfl
    | name dir last => exact makeFolder_of_some hgoal hinside
  obtain ⟨inside, -, hstat⟩ := stat_of_walk hrelative hne h
  refine ⟨hmake, ?_⟩
  rw [ensureFolder, hmake, isFolder, hstat]
  rfl

/-- Where there is nothing, a folder can be made. -/
theorem exists_ensureFolder {p : Path} (hgoal : f.goal p = .ok (.name dir name))
    (hdir : f.tree dir = some .folder) (hnone : f.tree (dir ++ [name]) = none) :
    ∃ g, f.makeFolder p = .ok g ∧ f.ensureFolder p = (g, .ok ()) ∧
      g.tree = Function.update f.tree (dir ++ [name]) (some .folder) := by
  have hmake : f.makeFolder p = .ok (f.put (.folder .empty) (dir ++ [name])) := by
    have hat := tree_eq_none_iff.mp hnone
    simp only [makeFolder, hgoal, bind, Except.bind, hat]
  refine ⟨_, hmake, ?_, ?_⟩
  · rw [ensureFolder, hmake]
  · rw [tree_put isBare_folder hdir (by simp [hnone])]
    rfl

theorem exists_file_of_isFile (h : (f.tree loc).any Kind.isFile = true) :
    ∃ content, f.at? loc = some (.file content) := by
  cases htree : f.tree loc with
  | none =>
    rw [htree] at h
    cases h
  | some kind =>
    rw [htree] at h
    cases kind with
    | file content => exact ⟨content, tree_eq_file_iff.mp htree⟩
    | folder => cases h

theorem isFolder_of_file {p : Path} {g : Goal} {content : List UInt8} (hgoal : f.goal p = .ok g)
    (hfile : f.at? g.location = some (.file content)) : f.isFolder p = false := by
  rw [isFolder, stat, locate_of_goal hgoal, hfile]
  cases p.route.toFolder <;> rfl

theorem tree_eq_none_of_blocks (hfree : f.tree.blocks loc = false) (hno : f.tree loc ≠ some .folder) :
    f.tree loc = none := by
  have hfile := Tree.blocks_eq_false_iff.mp hfree loc (List.prefix_refl loc)
  cases htree : f.tree loc with
  | none => rfl
  | some kind =>
    cases kind with
    | file content =>
      rw [htree] at hfile
      cases hfile
    | folder => exact absurd htree hno

theorem makeFoldersUpTo_of_walk {p : Path} (hrelative : p.isAbsolute = false) (h : f.tree.walk [] p.way = some dir)
    (bound : Nat) : f.makeFoldersUpTo p (bound + 1) = (f, .ok ()) := by
  rw [makeFoldersUpTo]
  split
  · rfl
  · rename_i hne
    obtain ⟨hmake, hensure⟩ := ensureFolder_of_walk hrelative (by simpa using hne) h
    rw [hmake, hensure]

section MakeFolders

variable {front : List Text} (hwalk : f.tree.walk [] front = some base)

include hwalk

/-- Where a path leads that goes on behind a folder. -/
theorem goal_names {names : List Text} (hnames : ∀ n ∈ names ++ [name], IsPlainStep n) {p : Path} (hp : p.IsTidy)
    (hway : p.way = front ++ (names ++ [name])) : f.goal p =
      if f.tree (base ++ names) = some .folder then .ok (.name (base ++ names) name)
      else if f.tree.blocks (base ++ names) then .error .notAFolder else .error .notFound := by
  rw [List.forall_mem_append] at hnames
  rw [← List.append_assoc] at hway
  rw [goal_of_isTidy hp hway, List.append_assoc, follow_append_of_walk (by simp) hwalk,
    follow_names (hnames.2 name (by simp)) hnames.1 (tree_of_walk (tree_nil f) hwalk)]

/-- Behind a file no folder can be made. -/
theorem makeFoldersUpTo_of_blocks {names : List Text} (hnames : ∀ n ∈ names, IsPlainStep n) {p : Path} (hp : p.IsTidy)
    (hway : p.way = front ++ names) (hblocks : f.tree.blocks (base ++ names) = true) (bound : Nat) :
    f.makeFoldersUpTo p (bound + 1) =
      (f, .error (if f.tree.blocks (base ++ names).dropLast then .notAFolder else .alreadyExists)) := by
  have hbase := tree_of_walk (tree_nil f) hwalk
  rcases List.eq_nil_or_concat names with rfl | ⟨names, name, rfl⟩
  · rw [List.append_nil, blocks_of_tree hbase] at hblocks
    cases hblocks
  · rw [List.concat_eq_append] at hnames hway hblocks ⊢
    have hne : p ≠ [] := Path.ne_nil_of_way (by simp [hway])
    have hgoal := goal_names hwalk hnames hp hway
    -- any fault but a missing folder is passed on as it is
    have hfail (e : FileError) (hmake : f.makeFolder p = .error e) (hno : f.isFolder p = false)
        (he : e ≠ .notFound) : f.makeFoldersUpTo p (bound + 1) = (f, .error e) := by
      have hensure : f.ensureFolder p = (f, .error e) := by
        rw [ensureFolder, hmake, hno]
        rfl
      rw [makeFoldersUpTo, if_neg (by simpa using hne), hmake]
      cases e with
      | notFound => exact absurd rfl he
      | _ => exact hensure
    rw [← List.append_assoc, List.dropLast_concat]
    by_cases hdir : f.tree (base ++ names) = some .folder
    · -- the last name is the one of a file
      rw [if_pos hdir] at hgoal
      rw [← List.append_assoc, Tree.blocks_concat, blocks_of_tree hdir, Bool.false_or] at hblocks
      obtain ⟨content, hfile⟩ := exists_file_of_isFile hblocks
      rw [blocks_of_tree hdir]
      exact hfail .alreadyExists (makeFolder_of_some hgoal hfile) (isFolder_of_file hgoal hfile) (by decide)
    · have hfile : f.tree.blocks (base ++ names) = true := by
        by_contra hfree
        rw [Bool.not_eq_true] at hfree
        rw [← List.append_assoc, blocks_append hdir hfree] at hblocks
        cases hblocks
      rw [if_neg hdir, if_pos hfile] at hgoal
      rw [if_pos hfile]
      refine hfail .notAFolder ?_ ?_ (by decide)
      · rw [makeFolder, hgoal]
        rfl
      · rw [isFolder, stat, locate, hgoal]
        rfl

/-- Where no file is in the way, all missing folders are made. -/
theorem exists_makeFoldersUpTo {names : List Text} : ∀ {p : Path} {bound : Nat}, (∀ n ∈ names, IsPlainStep n) →
    p.IsTidy → p.way = front ++ names → f.tree.blocks (base ++ names) = false → names.length < bound + 1 →
    ∃ g, f.makeFoldersUpTo p (bound + 1) = (g, .ok ()) ∧ g.tree = f.tree.fill (base ++ names) := by
  induction names using List.reverseRecOn with
  | nil =>
    intro p bound _ hp hway _ _
    rw [List.append_nil] at hway ⊢
    exact ⟨f, makeFoldersUpTo_of_walk hp.relative (hway ▸ hwalk) bound,
      (fill_tree (tree_of_walk (tree_nil f) hwalk)).symm⟩
  | append_singleton names name ih =>
    intro p bound hnames hp hway hfree hbound
    have hplain := (List.forall_mem_append.mp hnames).1
    have hne : p ≠ [] := Path.ne_nil_of_way (by simp [hway])
    have hgoal := goal_names hwalk hnames hp hway
    rw [← List.append_assoc] at hfree ⊢
    have hparent_free := Tree.blocks_mono (List.prefix_append _ _) hfree
    by_cases hdir : f.tree (base ++ names) = some .folder
    · by_cases hfolder : f.tree (base ++ names ++ [name]) = some .folder
      · -- everything is there
        have hall : f.tree.walk [] p.way = some (base ++ names ++ [name]) := by
          rw [hway, List.append_assoc]
          rw [List.append_assoc] at hfolder
          rw [Tree.walk_append, hwalk, Option.bind_some, walk_of_tree hnames hfolder]
        exact ⟨f, makeFoldersUpTo_of_walk hp.relative hall bound, (fill_tree hfolder).symm⟩
      · -- the last folder is missing
        have hnone : f.tree (base ++ names ++ [name]) = none := tree_eq_none_of_blocks hfree hfolder
        rw [if_pos hdir] at hgoal
        obtain ⟨g, hmake, hensure, htree⟩ := exists_ensureFolder hgoal hdir hnone
        refine ⟨g, ?_, ?_⟩
        · rw [makeFoldersUpTo, if_neg (by simpa using hne), hmake, hensure]
        · rw [htree, ← Tree.update_fill, fill_tree hdir]
    · -- the folder that the last one is in is missing, and is made first
      have hnone : f.tree (base ++ names ++ [name]) = none := tree_append_eq_none (List.cons_ne_nil name []) hdir
      rw [if_neg hdir, hparent_free] at hgoal
      have hmake : f.makeFolder p = .error .notFound := by
        rw [makeFolder, hgoal]
        rfl
      have hway' : p.way = (front ++ names) ++ [name] := by rw [hway, List.append_assoc]
      obtain ⟨q, hparent, hq, hqway⟩ := Path.exists_parent hp.relative hway'
      rw [List.length_append, List.length_singleton] at hbound
      obtain ⟨bound, rfl⟩ := Nat.exists_eq_succ_of_ne_zero (show bound ≠ 0 by omega)
      obtain ⟨g, hg, htree⟩ := ih hplain hq hqway hparent_free (show names.length < bound + 1 by omega)
      have hgrows : f.tree.Grows g.tree := htree ▸ Tree.grows_fill
      have hgdir : g.tree (base ++ names) = some .folder := by
        rw [htree, Tree.fill_apply_of_start (List.prefix_refl _)]
      have hgnone : g.tree (base ++ names ++ [name]) = none := by
        rw [htree, Tree.fill_apply_of_not_start Tree.not_concat_start, hnone]
      have hggoal := goal_names (hgrows.walk hwalk) hnames hp hway
      rw [if_pos hgdir] at hggoal
      obtain ⟨g', -, hensure, htree'⟩ := exists_ensureFolder hggoal hgdir hgnone
      refine ⟨g', ?_, ?_⟩
      · rw [makeFoldersUpTo, if_neg (by simpa using hne), hmake, hparent]
        simp only [hg, hensure]
      · rw [htree', htree, Tree.update_fill]

end MakeFolders

/-! ## Writing a file -/

theorem writeFile_of_goal {p : Path} (hgoal : f.goal p = .ok (.name dir name)) (hslash : p.route.toFolder = false)
    (hdir : f.tree dir = some .folder) (content : List UInt8) :
    (f.tree (dir ++ [name]) = some .folder ∧ f.writeFile p content = .error .isAFolder) ∨
    (f.tree (dir ++ [name]) ≠ some .folder ∧ ∃ g, f.writeFile p content = .ok g ∧
      g.tree = Function.update f.tree (dir ++ [name]) (some (.file content))) := by
  by_cases hfolder : f.tree (dir ++ [name]) = some .folder
  · obtain ⟨inside, hinside⟩ := tree_eq_folder_iff.mp hfolder
    refine .inl ⟨hfolder, ?_⟩
    simp only [writeFile, hgoal, bind, Except.bind, hinside]
  · refine .inr ⟨hfolder, f.put (.file content) (dir ++ [name]), ?_, tree_put (isBare_file content) hdir hfolder⟩
    cases hat : f.at? (dir ++ [name]) with
    | none => simp [writeFile, hgoal, bind, Except.bind, hat, hslash]
    | some entry =>
      cases entry with
      | file old => simp [writeFile, hgoal, bind, Except.bind, hat, hslash]
      | folder inside => exact absurd (tree_eq_folder_iff.mpr ⟨inside, hat⟩) hfolder

end Folder

/-- **Writing a text at a path is writing at the location that the path leads to**, where the path goes through
folders first and then on by names. -/
theorem writeText_of_walk {f : Folder} {base : Location} {front names : List Text} {name : Text}
    (hwalk : f.tree.walk [] front = some base) (hnames : ∀ n ∈ names ++ [name], IsPlainStep n) {p : Path}
    (hp : p.IsTidy) (hslash : p.route.toFolder = false) (hway : p.way = front ++ (names ++ [name])) (t : Text) :
    (Batch.writeText f p t).1.tree = f.tree.write (base ++ names) name t.bytes ∧
    (Batch.writeText f p t).2 = match f.tree.writeError? (base ++ names) name with
      | some e => .error e
      | none => .ok () := by
  have hplain := (List.forall_mem_append.mp hnames).1
  have hway' : p.way = (front ++ names) ++ [name] := by rw [hway, List.append_assoc]
  obtain ⟨q, hparent, hq, hqway⟩ := Path.exists_parent hp.relative hway'
  rw [Batch.writeText, hparent, Option.getD_some, Folder.makeFolders]
  by_cases hblocks : f.tree.blocks (base ++ names) = true
  · -- a file is in the way
    rw [Folder.makeFoldersUpTo_of_blocks hwalk hplain hq hqway hblocks]
    rw [Tree.write, Tree.writeError?, if_pos hblocks]
    cases f.tree.blocks (base ++ names).dropLast <;> exact ⟨rfl, rfl⟩
  · rw [Bool.not_eq_true] at hblocks
    -- the folders that are missing are no more than the letters of the path
    have hbound : names.length < q.length + 1 := by
      have hlength := Path.length_way_le q
      rw [hqway, List.length_append] at hlength
      omega
    obtain ⟨g, hg, htree⟩ := Folder.exists_makeFoldersUpTo hwalk hplain hq hqway hblocks hbound
    have hgdir : g.tree (base ++ names) = some .folder := by
      rw [htree, Tree.fill_apply_of_start (List.prefix_refl _)]
    have hgoal := Folder.goal_names ((htree ▸ Tree.grows_fill : f.tree.Grows g.tree).walk hwalk) hnames hp hway
    rw [if_pos hgdir] at hgoal
    have hsame : g.tree (base ++ names ++ [name]) = f.tree (base ++ names ++ [name]) := by
      rw [htree, Tree.fill_apply_of_not_start Tree.not_concat_start]
    have hup : f.tree.blocks (base ++ names).dropLast = false :=
      Tree.blocks_mono (List.dropLast_prefix _) hblocks
    rw [hg, Tree.write, Tree.writeError?, hup, hblocks, ← hsame]
    rcases Folder.writeFile_of_goal hgoal hslash hgdir t.bytes with ⟨hfolder, hwrite⟩ | ⟨hno, h, hwrite, hh⟩
    · -- a folder that stands there is left as it is, and so are the ones it is in
      have hfull : f.tree (base ++ names) = some .folder := by
        rw [hsame] at hfolder
        exact Folder.tree_of_start hfolder (List.prefix_append _ _)
      simp only [hwrite, if_pos hfolder]
      exact ⟨by simp [htree, Folder.fill_tree hfull], by simp⟩
    · simp only [hwrite, if_neg hno]
      exact ⟨by simp [hh, htree], by simp⟩

/-! ## Below a folder -/

/-- A path leads to a location: first through folders that exist, up and down, and then down by names. -/
structure Folder.LeadsTo (f : Folder) (d : Path) (loc : Location) : Prop where
  relative : d.isAbsolute = false
  way : ∃ front names base, d.way = front ++ names ∧ ['.', '.'] ∉ names ∧ f.tree.walk [] front = some base ∧
    loc = base ++ names

namespace Folder.LeadsTo

variable {f g : Folder} {d : Path} {loc : Location}

theorem mono (h : f.LeadsTo d loc) (hgrows : f.tree.Grows g.tree) : g.LeadsTo d loc := by
  obtain ⟨front, names, base, hway, hup, hwalk, hloc⟩ := h.way
  exact ⟨h.relative, front, names, base, hway, hup, hgrows.walk hwalk, hloc⟩

theorem of_walk (hrelative : d.isAbsolute = false) (h : f.tree.walk [] d.way = some loc) : f.LeadsTo d loc :=
  ⟨hrelative, d.way, [], loc, (List.append_nil _).symm, List.not_mem_nil, h, (List.append_nil loc).symm⟩

/-- The way of a path that leads to a location, with names behind it. -/
theorem exists_way (h : f.LeadsTo d loc) {dirs : List Text} {name : Text} (hnames : ∀ n ∈ dirs ++ [name], IsName n) :
    ∃ front names base, (d.join (Path.below (dirs ++ [name]))).way = front ++ (names ++ dirs ++ [name]) ∧
      (∀ n ∈ names ++ dirs ++ [name], IsPlainStep n) ∧ f.tree.walk [] front = some base ∧ loc = base ++ names := by
  obtain ⟨front, names, base, hway, hup, hwalk, hloc⟩ := h.way
  refine ⟨front, names, base, ?_, ?_, hwalk, hloc⟩
  · rw [Path.join_way hnames, hway]
    simp
  · rw [List.append_assoc, List.forall_mem_append]
    refine ⟨fun n hn => ⟨?_, fun heq => hup (heq ▸ hn)⟩, fun n hn => (hnames n hn).isPlainStep⟩
    rintro rfl
    have hmem : ['.'] ∈ d.way := hway ▸ List.mem_append_right front hn
    simp [Path.way, named, PathParts.isIdle] at hmem

theorem writeText (h : f.LeadsTo d loc) {dirs : List Text} {name : Text} (hnames : ∀ n ∈ dirs ++ [name], IsName n)
    (t : Text) :
    (Batch.writeText f (d.join (Path.below (dirs ++ [name]))) t).1.tree = f.tree.write (loc ++ dirs) name t.bytes ∧
    (Batch.writeText f (d.join (Path.below (dirs ++ [name]))) t).2 = match f.tree.writeError? (loc ++ dirs) name with
      | some e => .error e
      | none => .ok () := by
  obtain ⟨front, names, base, hway, hplain, hwalk, rfl⟩ := h.exists_way hnames
  rw [List.append_assoc base]
  exact writeText_of_walk hwalk hplain (Path.join_isTidy hnames h.relative) (Path.join_toFolder hnames)
    hway t

theorem tree_of_isFolder (h : f.LeadsTo d loc) {dirs : List Text} {name : Text}
    (hnames : ∀ n ∈ dirs ++ [name], IsName n) (hfolder : f.isFolder (d.join (Path.below (dirs ++ [name]))) = true) :
    f.tree (loc ++ dirs ++ [name]) = some .folder := by
  obtain ⟨front, names, base, hway, hplain, hwalk, rfl⟩ := h.exists_way hnames
  rw [isFolder] at hfolder
  split at hfolder
  · rename_i entry hstat
    cases entry with
    | file content => cases hfolder
    | folder inside =>
      obtain ⟨-, -, goal, hgoal, hinside⟩ := exists_walk_of_stat hstat
      rw [hway, Tree.walk_append, hwalk, Option.bind_some] at hgoal
      rw [Tree.eq_of_walk hplain hgoal] at hinside
      rw [List.append_assoc, List.append_assoc, ← List.append_assoc names]
      exact tree_eq_folder_iff.mpr ⟨inside, hinside⟩
  · cases hfolder

end Folder.LeadsTo

theorem Path.isAbsolute_parent {p q : Path} (hp : p.isAbsolute = true) (hq : p.parent? = some q) :
    q.isAbsolute = true := by
  cases p with
  | nil => cases hp
  | cons c p =>
    obtain rfl : c = '/' := by simpa [Path.isAbsolute] using hp
    rw [Path.parent?] at hq
    split at hq
    · rw [← Option.some.inj hq]
      rfl
    · split at hq
      · rename_i hhead
        cases hhead
      · cases hq

namespace Folder

theorem goal_of_isAbsolute (f : Folder) {p : Path} (hp : p.isAbsolute = true) : f.goal p = .error .notFound := by
  rw [goal, hp, Bool.or_true, if_pos rfl]

theorem makeFoldersUpTo_of_isAbsolute (f : Folder) : ∀ (bound : Nat) {p : Path}, p.isAbsolute = true →
    f.makeFoldersUpTo p bound = (f, .error .notFound)
  | 0, p, _ => rfl
  | bound + 1, p, hp => by
    have hne : p ≠ [] := by
      rintro rfl
      cases hp
    have hmake : f.makeFolder p = .error .notFound := by
      rw [makeFolder, goal_of_isAbsolute f hp]
      rfl
    rw [makeFoldersUpTo, if_neg (by simpa using hne), hmake]
    cases hparent : p.parent? with
    | none => rfl
    | some q => simp only [makeFoldersUpTo_of_isAbsolute f bound (Path.isAbsolute_parent hp hparent)]

end Folder

/-- Nothing can be written outside the working folder. -/
theorem writeText_of_isAbsolute {p : Path} (hp : p.isAbsolute = true) (f : Folder) (t : Text) :
    Batch.writeText f p t = (f, .error .notFound) := by
  have hwrite : f.writeFile p t.bytes = .error .notFound := by
    rw [Folder.writeFile, Folder.goal_of_isAbsolute f hp]
    rfl
  rw [Batch.writeText]
  cases hparent : p.parent? with
  | none =>
    have hempty : f.makeFolders [] = (f, .ok ()) := rfl
    rw [Option.getD_none, hempty]
    simp only [hwrite]
  | some q =>
    rw [Option.getD_some, Folder.makeFolders,
      Folder.makeFoldersUpTo_of_isAbsolute f _ (Path.isAbsolute_parent hp hparent)]

/-! ## Two writes -/

namespace Tree

variable {v : Tree} {dir dir' loc : Location} {name name' : Text} {content content' : List UInt8}

theorem write_of_error (h : v.writeError? dir name ≠ none) : v.write dir name content = v :=
  if_pos (Option.isSome_iff_ne_none.mpr h)

theorem write_of_no_error (h : v.writeError? dir name = none) :
    v.write dir name content = Function.update (v.fill dir) (dir ++ [name]) (some (.file content)) :=
  if_neg (by simp [h])

theorem blocks_of_no_error (h : v.writeError? dir name = none) :
    v.blocks dir = false ∧ v (dir ++ [name]) ≠ some .folder := by
  rw [writeError?] at h
  split at h
  · cases h
  · split at h
    · cases h
    · rename_i hblocks
      split at h
      · cases h
      · rename_i hno
        exact ⟨by simpa using hblocks, hno⟩

/-- Everything that was a folder is one after a write. -/
theorem grows_write : v.Grows (v.write dir name content) := by
  by_cases h : v.writeError? dir name = none
  · intro l hl
    have hne : l ≠ dir ++ [name] := by
      rintro rfl
      exact (blocks_of_no_error h).2 hl
    rw [write_of_no_error h, Function.update_of_ne hne]
    exact grows_fill l hl
  · rw [write_of_error h]
    exact fun _ hl => hl

/-- Elsewhere a write makes no file, and changes none. -/
theorem any_isFile_write (hloc : loc ≠ dir ++ [name]) :
    (v.write dir name content loc).any Kind.isFile = (v loc).any Kind.isFile := by
  by_cases h : v.writeError? dir name = none
  · rw [write_of_no_error h, Function.update_of_ne hloc]
    by_cases hstart : loc <+: dir
    · rw [fill_apply_of_start hstart, blocks_eq_false_iff.mp (blocks_of_no_error h).1 loc hstart]
      rfl
    · rw [fill_apply_of_not_start hstart]
  · rw [write_of_error h]

/-- A file stays as it is when something is written elsewhere. -/
theorem write_apply_of_file (hloc : loc ≠ dir ++ [name]) {old : List UInt8} (hfile : v loc = some (.file old)) :
    v.write dir name content loc = some (.file old) := by
  by_cases h : v.writeError? dir name = none
  · have hstart : ¬ loc <+: dir := by
      intro hstart
      have hno := blocks_eq_false_iff.mp (blocks_of_no_error h).1 loc hstart
      rw [hfile] at hno
      cases hno
    rw [write_of_no_error h, Function.update_of_ne hloc, fill_apply_of_not_start hstart, hfile]
  · rw [write_of_error h, hfile]

/-- Two places can be written to in any order if neither is on the way to the other, unless a folder stands
there. -/
structure Apart (v : Tree) (dir : Location) (name : Text) (dir' : Location) (name' : Text) : Prop where
  ne : dir ++ [name] ≠ dir' ++ [name']
  left : dir ++ [name] <+: dir' → v (dir ++ [name]) = some .folder
  right : dir' ++ [name'] <+: dir → v (dir' ++ [name']) = some .folder

theorem Apart.symm (h : v.Apart dir name dir' name') : v.Apart dir' name' dir name :=
  ⟨h.ne.symm, h.right, h.left⟩

theorem Apart.mono {v' : Tree} (h : v.Apart dir name dir' name') (hgrows : v.Grows v') :
    v'.Apart dir name dir' name' :=
  ⟨h.ne, fun hstart => hgrows _ (h.left hstart), fun hstart => hgrows _ (h.right hstart)⟩

/-- A write does not change whether another one fails, and why. -/
theorem writeError?_write (h : v.Apart dir name dir' name') :
    (v.write dir name content).writeError? dir' name' = v.writeError? dir' name' := by
  by_cases herror : v.writeError? dir name = none
  · have hnot : ¬ dir ++ [name] <+: dir' := fun hstart => (blocks_of_no_error herror).2 (h.left hstart)
    have hblocks {l : Location} (hl : l <+: dir') : (v.write dir name content).blocks l = v.blocks l :=
      blocks_congr fun l' hl' => any_isFile_write fun heq => hnot (heq ▸ hl'.trans hl)
    have hfolder : v.write dir name content (dir' ++ [name']) = some .folder ↔ v (dir' ++ [name']) = some .folder := by
      refine ⟨fun hnew => ?_, fun hold => grows_write _ hold⟩
      rw [write_of_no_error herror, Function.update_of_ne h.ne.symm] at hnew
      by_cases hstart : dir' ++ [name'] <+: dir
      · exact h.right hstart
      · rwa [fill_apply_of_not_start hstart] at hnew
    rw [writeError?, writeError?, hblocks (List.dropLast_prefix dir'), hblocks (List.prefix_refl dir')]
    simp only [hfolder]
  · rw [write_of_error herror]

/-- Two writes that are apart can be made in any order. -/
theorem write_comm (h : v.Apart dir name dir' name') :
    (v.write dir name content).write dir' name' content' = (v.write dir' name' content').write dir name content := by
  have hsame : (v.write dir name content).writeError? dir' name' = v.writeError? dir' name' := writeError?_write h
  have hsame' : (v.write dir' name' content').writeError? dir name = v.writeError? dir name :=
    writeError?_write h.symm
  by_cases herror : v.writeError? dir name = none
  · by_cases herror' : v.writeError? dir' name' = none
    · have hnot : ¬ dir ++ [name] <+: dir' := fun hstart => (blocks_of_no_error herror).2 (h.left hstart)
      have hnot' : ¬ dir' ++ [name'] <+: dir := fun hstart => (blocks_of_no_error herror').2 (h.right hstart)
      rw [write_of_no_error (hsame.trans herror'), write_of_no_error (hsame'.trans herror),
        write_of_no_error herror, write_of_no_error herror']
      funext l
      simp only [Function.update_apply, fill]
      by_cases hl : l = dir ++ [name]
      · simp [hl, h.ne, hnot]
      · by_cases hl' : l = dir' ++ [name']
        · simp [hl', h.ne.symm, hnot']
        · by_cases hstart : l <+: dir <;> simp [hl, hl', hstart]
    · rw [write_of_error (hsame ▸ herror'), write_of_error herror']
  · have hlast : (v.write dir' name' content').write dir name content = v.write dir' name' content' :=
      write_of_error (hsame' ▸ herror)
    rw [hlast, write_of_error herror]

end Tree

end GoDraft
