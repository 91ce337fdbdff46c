import GoDraft.Proofs.Files.Writing

/-!
# GoDraft — where a text lands

Writing a text at a path makes the folders that are missing on its way and then writes one file, or fails. A file
that stood before keeps its content, but for the one that the text lands at, and the path ends with the name of
that one.

* `Folder.exists_walk_of_goal` — the way to a name;
* `Folder.landing?`, `Folder.landing?_of_walk` — the location that a text lands at;
* `tree_writeText` — what a file holds after a text is written somewhere;
* `Folder.fileName?_of_landing?`, `Folder.fileName?_of_locate` — a path to a file ends with its name;
* `Folder.MadeFor` — a folder that was made for a path;
* `tree_writeText_of_error`, `exists_locate_of_writeText` — everything that writing a text changes.
-/

namespace GoDraft

/-! ## Names at the end -/

namespace Folder

variable {f g : Folder} {p : Path} {loc dir : Location} {name : Text} {content : List UInt8}

/-- A path that leads to a name goes through folders and ends with the name. -/
theorem exists_walk_of_goal (h : f.goal p = .ok (.name dir name)) : p.isAbsolute = false ∧ IsPlainStep name ∧
    ∃ front, p.way = front ++ [name] ∧ f.tree.walk [] front = some dir := by
  obtain ⟨hrelative, hplain, front, hsteps, hwalk⟩ := isReached_of_goal h
  refine ⟨hrelative, hplain, front.filter fun step => step != ['.'], ?_, ?_⟩
  · rw [Path.way_eq_filter_steps hrelative, hsteps, List.filter_append, List.filter_cons_of_pos (by simp [hplain.1]),
      List.filter_nil]
  · rw [Tree.walk_filter, hwalk]

theorem tree_of_goal (h : f.goal p = .ok (.name dir name)) : f.tree dir = some .folder := by
  obtain ⟨-, -, front, -, hwalk⟩ := exists_walk_of_goal h
  exact tree_of_walk (tree_nil f) hwalk

theorem fileName?_of_goal (h : f.goal p = .ok (.name dir name)) : p.fileName? = some name := by
  obtain ⟨-, hplain, front, hway, -⟩ := exists_walk_of_goal h
  rw [Path.fileName?_eq, hway, List.getLast?_concat, Option.filter_some_pos (by simp [hplain.2])]

/-- A path to a file leads to its name in a folder. -/
theorem exists_goal_of_locate (h : f.locate p = .ok (loc, .file content)) :
    f.tree loc = some (.file content) ∧ ∃ dir name, loc = dir ++ [name] ∧ f.goal p = .ok (.name dir name) := by
  obtain ⟨goal, hgoal, rfl, hfile⟩ := goal_of_locate h
  have htree := tree_eq_file_iff.mpr hfile
  refine ⟨htree, ?_⟩
  cases goal with
  | folder l =>
    have hfolder : f.tree l = some .folder := tree_of_walk (tree_nil f) (isReached_of_goal hgoal).2
    rw [show f.tree l = some (.file content) from htree] at hfolder
    cases hfolder
  | name dir name => exact ⟨dir, name, rfl, hgoal⟩

/-- A path to a file ends with its name. -/
theorem fileName?_of_locate (h : f.locate p = .ok (loc, .file content)) : p.fileName? = loc.getLast? := by
  obtain ⟨-, dir, name, rfl, hgoal⟩ := exists_goal_of_locate h
  rw [fileName?_of_goal hgoal, List.getLast?_concat]

/-! ## Making folders -/

/-- Everything that stood stands as it did. -/
def Extends (f g : Folder) : Prop := ∀ loc kind, f.tree loc = some kind → g.tree loc = some kind

theorem Extends.refl (f : Folder) : f.Extends f := fun _ _ h => h

theorem Extends.trans {h : Folder} (hfg : f.Extends g) (hgh : g.Extends h) : f.Extends h :=
  fun loc kind hloc => hgh loc kind (hfg loc kind hloc)

theorem Extends.grows (h : f.Extends g) : f.tree.Grows g.tree := fun loc => h loc .folder

theorem Extends.tree_eq_none (h : f.Extends g) (hloc : g.tree loc = none) : f.tree loc = none := by
  by_contra hsome
  obtain ⟨kind, hkind⟩ := Option.ne_none_iff_exists'.mp hsome
  rw [h loc kind hkind] at hloc
  cases hloc

/-- A folder is made where there is nothing, or nothing is done. -/
theorem ensureFolder_cases (f : Folder) (p : Path) : (f.ensureFolder p).1 = f ∨
    ∃ dir name, f.goal p = .ok (.name dir name) ∧ f.tree (dir ++ [name]) = none ∧
      (f.ensureFolder p).1.tree = Function.update f.tree (dir ++ [name]) (some .folder) := by
  cases hgoal : f.goal p with
  | error e =>
    rw [ensureFolder, makeFolder, hgoal]
    exact .inl rfl
  | ok goal =>
    cases goal with
    | folder l =>
      rw [ensureFolder, makeFolder, hgoal]
      exact .inl rfl
    | name dir name =>
      cases htree : f.tree (dir ++ [name]) with
      | none =>
        obtain ⟨g, -, hensure, hg⟩ := exists_ensureFolder hgoal (tree_of_goal hgoal) htree
        exact .inr ⟨dir, name, rfl, htree, by rw [hensure, hg]⟩
      | some kind =>
        obtain ⟨entry, hentry, -⟩ := Option.map_eq_some_iff.mp htree
        rw [ensureFolder, makeFolder_of_some hgoal hentry]
        exact .inl rfl

theorem extends_ensureFolder (f : Folder) (p : Path) : f.Extends (f.ensureFolder p).1 := by
  rcases ensureFolder_cases f p with hsame | ⟨dir, name, -, hnone, hensure⟩
  · rw [hsame]
    exact .refl f
  · intro loc kind hloc
    have hne : loc ≠ dir ++ [name] := by
      rintro rfl
      rw [hnone] at hloc
      cases hloc
    rw [hensure, Function.update_of_ne hne, hloc]

theorem extends_makeFoldersUpTo : ∀ (bound : Nat) (f : Folder) (p : Path), f.Extends (f.makeFoldersUpTo p bound).1
  | 0, f, p => .refl f
  | bound + 1, f, p => by
    rw [makeFoldersUpTo]
    split
    · exact .refl f
    · split
      · exact .refl f
      · rename_i parent _ _
        have hparent := extends_makeFoldersUpTo bound f parent
        split
        · rename_i g hg
          rw [hg] at hparent
          exact hparent.trans (extends_ensureFolder g p)
        · rename_i g e hg
          rwa [hg] at hparent
      · exact extends_ensureFolder f p

/-- Making folders leaves every file as it is. -/
theorem extends_makeFolders (f : Folder) (p : Path) : f.Extends (f.makeFolders p).1 :=
  extends_makeFoldersUpTo (p.length + 1) f p

/-! ## Folders that are made -/

/-- Whether a path leads to a folder at a location. -/
def LeadsInto (f : Folder) (p : Path) (loc : Location) : Prop := ∃ inside, f.locate p = .ok (loc, .folder inside)

theorem leadsInto_of_goal {goal : Goal} (hgoal : f.goal p = .ok goal) (htree : f.tree goal.location = some .folder) :
    f.LeadsInto p goal.location := by
  obtain ⟨inside, hinside⟩ := tree_eq_folder_iff.mp htree
  refine ⟨inside, ?_⟩
  rw [locate_of_goal hgoal, hinside]
  exact if_neg (by simp [Entry.isFolder])

theorem LeadsInto.exists_goal (h : f.LeadsInto p loc) : ∃ goal, f.goal p = .ok goal ∧ loc = goal.location ∧
    f.tree loc = some .folder := by
  obtain ⟨inside, hlocate⟩ := h
  obtain ⟨goal, hgoal, hloc, hinside⟩ := goal_of_locate hlocate
  exact ⟨goal, hgoal, hloc, tree_eq_folder_iff.mpr ⟨inside, hinside⟩⟩

/-- More folders leave a path to a folder as it is. -/
theorem LeadsInto.of_grows (h : f.LeadsInto p loc) (hgrows : f.tree.Grows g.tree) : g.LeadsInto p loc := by
  obtain ⟨goal, hgoal, rfl, htree⟩ := h.exists_goal
  exact leadsInto_of_goal (goal_of_grows hgrows hgoal) (hgrows _ htree)

/-- What becomes of a location when a folder is made. -/
theorem tree_ensureFolder (f : Folder) (p : Path) (loc : Location) : (f.ensureFolder p).1.tree loc = f.tree loc ∨
    f.tree loc = none ∧ (f.ensureFolder p).1.LeadsInto p loc := by
  rcases ensureFolder_cases f p with hsame | ⟨dir, name, hgoal, hnone, hensure⟩
  · exact .inl (by rw [hsame])
  · by_cases hloc : loc = dir ++ [name]
    · subst hloc
      have hgoal' := goal_of_grows (extends_ensureFolder f p).grows hgoal
      exact .inr ⟨hnone, leadsInto_of_goal hgoal' (by rw [hensure]; exact Function.update_self ..)⟩
    · exact .inl (by rw [hensure, Function.update_of_ne hloc])

end Folder

/-- Whether a path is the parent of another one, or above that. -/
inductive Path.IsAbove : Path → Path → Prop
  | parent {p q : Path} (h : p.parent? = some q) : IsAbove q p
  | up {p q r : Path} (h : p.parent? = some q) (hr : IsAbove r q) : IsAbove r p

theorem Path.IsAbove.of_parent {p q r : Path} (h : p.parent? = some q) (hr : r = q ∨ r.IsAbove q) : r.IsAbove p := by
  rcases hr with rfl | hr
  · exact .parent h
  · exact .up h hr

namespace Folder

variable {f g : Folder} {p : Path} {loc dir : Location} {name : Text} {content : List UInt8}

/-- What becomes of a location when folders are made: if it changes, it had nothing and is now a folder that the path,
or one above it, leads to. -/
theorem tree_makeFoldersUpTo : ∀ (bound : Nat) (f : Folder) (p : Path) (loc : Location),
    (f.makeFoldersUpTo p bound).1.tree loc = f.tree loc ∨
      f.tree loc = none ∧ ∃ q : Path, (q = p ∨ q.IsAbove p) ∧ (f.makeFoldersUpTo p bound).1.LeadsInto q loc
  | 0, f, p, loc => .inl rfl
  | bound + 1, f, p, loc => by
    have hensure := tree_ensureFolder f p loc
    rw [makeFoldersUpTo]
    split
    · exact .inl rfl
    · split
      · exact .inl rfl
      · rename_i parent _ hparent
        -- the folders above are made first, and then the last one among them
        have hupper := tree_makeFoldersUpTo bound f parent loc
        have hextends := extends_makeFoldersUpTo bound f parent
        split
        · rename_i g hg
          rw [hg] at hupper hextends
          rcases tree_ensureFolder g p loc with hsame | ⟨hnone, hleads⟩
          · rcases hupper with hkept | ⟨hnone, q, hq, hleads⟩
            · exact .inl (hsame.trans hkept)
            · exact .inr ⟨hnone, q, .inr (.of_parent hparent hq), hleads.of_grows (extends_ensureFolder g p).grows⟩
          · -- what is missing afterwards was missing before, as folders only come to it
            exact .inr ⟨hextends.tree_eq_none hnone, p, .inl rfl, hleads⟩
        · rename_i g e hg
          rw [hg] at hupper
          rcases hupper with hkept | ⟨hnone, q, hq, hleads⟩
          · exact .inl hkept
          · exact .inr ⟨hnone, q, .inr (.of_parent hparent hq), hleads⟩
      · rcases hensure with hkept | ⟨hnone, hleads⟩
        · exact .inl hkept
        · exact .inr ⟨hnone, p, .inl rfl, hleads⟩

/-- Whether a folder was made at a location for a path: there was nothing, and a path above leads into a folder. -/
def MadeFor (f g : Folder) (p : Path) (loc : Location) : Prop :=
  f.tree loc = none ∧ ∃ q : Path, q.IsAbove p ∧ g.LeadsInto q loc

theorem MadeFor.tree (h : f.MadeFor g p loc) : g.tree loc = some .folder := by
  obtain ⟨-, q, -, hleads⟩ := h
  obtain ⟨-, -, -, htree⟩ := hleads.exists_goal
  exact htree

theorem MadeFor.of_grows {g' : Folder} (h : f.MadeFor g p loc) (hgrows : g.tree.Grows g'.tree) : f.MadeFor g' p loc :=
  h.imp_right fun ⟨q, hq, hleads⟩ => ⟨q, hq, hleads.of_grows hgrows⟩

/-- The folders that a file needs are made above its path. -/
theorem tree_makeFolders_parent (f : Folder) (p : Path) (loc : Location) :
    (f.makeFolders (p.parent?.getD [])).1.tree loc = f.tree loc ∨
      f.MadeFor (f.makeFolders (p.parent?.getD [])).1 p loc := by
  cases hparent : p.parent? with
  | none => exact .inl rfl
  | some parent =>
    rcases tree_makeFoldersUpTo (parent.length + 1) f parent loc with hkept | ⟨hnone, q, hq, hleads⟩
    · exact .inl hkept
    · exact .inr ⟨hnone, q, .of_parent hparent hq, hleads⟩

/-! ## Landing -/

/-- The location of the file that is written at a path, if one can be. -/
def fileAt? (f : Folder) (p : Path) : Option Location :=
  match f.goal p with
  | .ok (.name dir name) =>
    if p.route.toFolder || f.tree (dir ++ [name]) = some .folder then none else some (dir ++ [name])
  | _ => none

/-- The location that a text written at a path lands at, once the folders on its way are made. -/
def landing? (f : Folder) (p : Path) : Option Location :=
  match f.makeFolders (p.parent?.getD []) with
  | (g, .ok ()) => g.fileAt? p
  | (_, .error _) => none

theorem exists_goal_of_fileAt? (h : f.fileAt? p = some loc) :
    ∃ dir name, f.goal p = .ok (.name dir name) ∧ loc = dir ++ [name] ∧ p.route.toFolder = false ∧
      f.tree loc ≠ some .folder := by
  rw [fileAt?] at h
  split at h
  · rename_i dir name hgoal
    split at h
    · cases h
    · rename_i hfree
      cases h
      rw [Bool.or_eq_true, not_or, Bool.not_eq_true, decide_eq_true_eq] at hfree
      exact ⟨dir, name, hgoal, rfl, hfree⟩
  · cases h

/-- Writing a file changes the tree where the file is written. -/
theorem exists_writeFile (h : f.fileAt? p = some loc) (content : List UInt8) :
    ∃ g, f.writeFile p content = .ok g ∧ g.tree = Function.update f.tree loc (some (.file content)) := by
  obtain ⟨dir, name, hgoal, rfl, hslash, hno⟩ := exists_goal_of_fileAt? h
  refine ⟨f.put (.file content) (dir ++ [name]), ?_, tree_put (isBare_file content) (tree_of_goal hgoal) hno⟩
  cases hentry : f.at? (dir ++ [name]) with
  | none => simp only [writeFile, hgoal, bind, Except.bind, hentry, hslash, Bool.false_eq_true, if_false]
  | some entry =>
    cases entry with
    | file old => simp only [writeFile, hgoal, bind, Except.bind, hentry, hslash, Bool.false_eq_true, if_false]
    | folder inside => exact absurd (tree_eq_folder_iff.mpr ⟨inside, hentry⟩) hno

theorem exists_writeFile_error (h : f.fileAt? p = none) (content : List UInt8) :
    ∃ e, f.writeFile p content = .error e := by
  rw [fileAt?] at h
  rw [writeFile]
  cases hgoal : f.goal p with
  | error e => exact ⟨e, rfl⟩
  | ok goal =>
    rw [hgoal] at h
    cases goal with
    | folder l => exact ⟨_, rfl⟩
    | name dir name =>
      simp only [ite_eq_left_iff, reduceCtorEq, imp_false, not_not, Bool.or_eq_true, decide_eq_true_eq] at h
      simp only [bind, Except.bind]
      cases hentry : f.at? (dir ++ [name]) with
      | none =>
        have hslash := h.resolve_right (by rw [tree_eq_none_iff.mpr hentry]; simp)
        exact ⟨.isAFolder, by simp [hslash]⟩
      | some entry =>
        cases entry with
        | file old =>
          have hslash := h.resolve_right (by rw [tree_eq_file_iff.mpr hentry]; simp)
          exact ⟨.notAFolder, by simp [hslash]⟩
        | folder inside => exact ⟨_, rfl⟩

/-- A text lands under the name at the end of its path. -/
theorem fileName?_of_landing? (h : f.landing? p = some loc) : p.isAbsolute = false ∧ p.fileName? = loc.getLast? := by
  rw [landing?] at h
  split at h
  · obtain ⟨dir, name, hgoal, rfl, -, -⟩ := exists_goal_of_fileAt? h
    exact ⟨(isReached_of_goal hgoal).1, by rw [fileName?_of_goal hgoal, List.getLast?_concat]⟩
  · cases h

/-- Through folders that stand, a text lands where its path leads. -/
theorem landing?_of_walk {front : List Text} (hp : p.IsTidy) (hname : IsPlainStep name) (hway : p.way = front ++ [name])
    (hwalk : f.tree.walk [] front = some dir) (hslash : p.route.toFolder = false)
    (hno : f.tree (dir ++ [name]) ≠ some .folder) : f.landing? p = some (dir ++ [name]) := by
  obtain ⟨q, hparent, hq, hqway⟩ := Path.exists_parent hp.relative hway
  have hmake : f.makeFolders q = (f, .ok ()) := makeFoldersUpTo_of_walk hq.relative (hqway ▸ hwalk) q.length
  rw [landing?, hparent, Option.getD_some, hmake]
  show f.fileAt? p = _
  rw [fileAt?, goal_of_walk hp hname hway hwalk]
  simp [hslash, hno]

end Folder

/-- Writing a text leaves every file as it is, but for the one that it lands at. -/
theorem tree_writeText {f : Folder} {loc : Location} {content : List UInt8} (h : f.tree loc = some (.file content))
    (p : Path) (t : Text) : (Batch.writeText f p t).1.tree loc =
      if f.landing? p = some loc then some (.file t.bytes) else some (.file content) := by
  have hextends := Folder.extends_makeFolders f (p.parent?.getD [])
  rw [Batch.writeText, Folder.landing?]
  rcases hmake : f.makeFolders (p.parent?.getD []) with ⟨g, result⟩
  rw [hmake] at hextends
  have hg : g.tree loc = some (.file content) := hextends loc _ h
  cases result with
  | error e => exact hg
  | ok u =>
    dsimp only
    by_cases hland : g.fileAt? p = some loc
    · obtain ⟨g', hwrite, htree⟩ := Folder.exists_writeFile hland t.bytes
      rw [if_pos hland, hwrite]
      show g'.tree loc = _
      rw [htree, Function.update_self]
    · rw [if_neg hland]
      cases hfile : g.fileAt? p with
      | none =>
        obtain ⟨e, herror⟩ := Folder.exists_writeFile_error hfile t.bytes
        rw [herror]
        exact hg
      | some other =>
        obtain ⟨g', hwrite, htree⟩ := Folder.exists_writeFile hfile t.bytes
        -- the text lands somewhere else
        have hne : loc ≠ other := by
          rintro rfl
          exact hland hfile
        rw [hwrite]
        show g'.tree loc = _
        rw [htree, Function.update_of_ne hne, hg]

/-- A text that cannot be written leaves folders above its path at most. -/
theorem tree_writeText_of_error {f g : Folder} {p : Path} {t : Text} {e : FileError}
    (h : Batch.writeText f p t = (g, .error e)) (loc : Location) : g.tree loc = f.tree loc ∨ f.MadeFor g p loc := by
  have hmade := Folder.tree_makeFolders_parent f p loc
  rw [Batch.writeText] at h
  rcases hmake : f.makeFolders (p.parent?.getD []) with ⟨g', result⟩
  rw [hmake] at h hmade
  cases result with
  | error e' =>
    cases h
    exact hmade
  | ok u =>
    dsimp only at h
    cases hwrite : g'.writeFile p t.bytes with
    | error e' =>
      rw [hwrite] at h
      cases h
      exact hmade
    | ok g'' =>
      rw [hwrite] at h
      cases h

/-- A text that is written is in a file that its path leads to, and but for that file there are new folders above the
path at most. -/
theorem exists_locate_of_writeText {f g : Folder} {p : Path} {t : Text} (h : Batch.writeText f p t = (g, .ok ())) :
    ∃ loc, f.tree loc ≠ some .folder ∧ g.locate p = .ok (loc, .file t.bytes) ∧
      ∀ other, other ≠ loc → g.tree other = f.tree other ∨ f.MadeFor g p other := by
  have hmade := Folder.tree_makeFolders_parent f p
  have hextends := Folder.extends_makeFolders f (p.parent?.getD [])
  rw [Batch.writeText] at h
  rcases hmake : f.makeFolders (p.parent?.getD []) with ⟨g', result⟩
  rw [hmake] at h hmade hextends
  cases result with
  | error e => cases h
  | ok u =>
    dsimp only at h
    cases hfile : g'.fileAt? p with
    | none =>
      obtain ⟨e, herror⟩ := Folder.exists_writeFile_error hfile t.bytes
      rw [herror] at h
      cases h
    | some loc =>
      obtain ⟨g'', hwrite, htree⟩ := Folder.exists_writeFile hfile t.bytes
      rw [hwrite] at h
      cases h
      obtain ⟨dir, name, hgoal, rfl, hslash, hno⟩ := Folder.exists_goal_of_fileAt? hfile
      -- the file takes no folder away, so that every path still leads where it led
      have hgrows : g'.tree.Grows g.tree := by
        intro l hl
        have hne : l ≠ dir ++ [name] := by
          rintro rfl
          exact hno hl
        rw [htree, Function.update_of_ne hne, hl]
      have hcontent : g.at? (dir ++ [name]) = some (.file t.bytes) := by
        rw [← Folder.tree_eq_file_iff, htree, Function.update_self]
      refine ⟨dir ++ [name], fun hfolder => hno (hextends _ _ hfolder), ?_, ?_⟩
      · rw [Folder.locate_of_goal (Folder.goal_of_grows hgrows hgoal), Goal.location, hcontent, hslash]
        rfl
      · intro other hother
        rw [htree, Function.update_of_ne hother]
        exact (hmade other).imp_right fun h => h.of_grows hgrows

end GoDraft
