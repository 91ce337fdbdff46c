import GoDraft.Proofs.Files.Paths
import GoDraft.Proofs.Files.Tree

/-!
# GoDraft — where a path leads

A path that is followed through folders leads to a location, and what stands there can be told from the tree of
the file system.

* `Tree.walk` — where steps through folders lead;
* `Folder.isReached_of_follow` — what is followed is walked;
* `Folder.exists_walk_of_stat`, `Folder.stat_of_walk` — a path leads to a folder if its way can be walked;
* `Folder.goal_of_walk` — what a path leads to behind folders;
* `Folder.readText_of_walk` — what is read there.
-/

namespace GoDraft

/-! ## Walking -/

/-- Whether a step leads into what it names. -/
def IsPlainStep (step : Text) : Prop := step ≠ ['.'] ∧ step ≠ ['.', '.']

theorem IsName.isPlainStep {name : Text} (h : IsName name) : IsPlainStep name := h.2.2

/-- Where steps from a location on lead, if all of them lead into folders. -/
def Tree.walk (v : Tree) (loc : Location) : List Text → Option Location
  | [] => some loc
  | step :: rest =>
    if step = ['.'] then v.walk loc rest
    else if step = ['.', '.'] then if loc.isEmpty then none else v.walk loc.dropLast rest
    else if v (loc ++ [step]) = some .folder then v.walk (loc ++ [step]) rest
    else none

/-- A walk stays at a dot, goes up at two, and else goes into a folder. -/
theorem Tree.walk_cons_eq_some_iff {v : Tree} {loc goal : Location} {step : Text} {rest : List Text} :
    v.walk loc (step :: rest) = some goal ↔
      step = ['.'] ∧ v.walk loc rest = some goal ∨
      step = ['.', '.'] ∧ loc ≠ [] ∧ v.walk loc.dropLast rest = some goal ∨
      IsPlainStep step ∧ v (loc ++ [step]) = some .folder ∧ v.walk (loc ++ [step]) rest = some goal := by
  rw [Tree.walk, IsPlainStep]
  by_cases hdot : step = ['.']
  · simp [hdot]
  · by_cases hup : step = ['.', '.']
    · by_cases hloc : loc = [] <;> simp [hup, hloc]
    · by_cases hfolder : v (loc ++ [step]) = some .folder <;> simp [hdot, hup, hfolder]

theorem Tree.walk_append (v : Tree) (rest : List Text) : ∀ (steps : List Text) (loc : Location),
    v.walk loc (steps ++ rest) = (v.walk loc steps).bind fun mid => v.walk mid rest
  | [], loc => rfl
  | step :: steps, loc => by
    have ih := walk_append v rest steps
    simp only [List.cons_append, Tree.walk, ih]
    split_ifs <;> rfl

/-- Names lead down. -/
theorem Tree.eq_of_walk {v : Tree} {goal : Location} : ∀ {names : List Text} {loc : Location},
    (∀ n ∈ names, IsPlainStep n) → v.walk loc names = some goal → goal = loc ++ names
  | [], loc, _, h => by rw [List.append_nil, Option.some.inj h]
  | name :: names, loc, hplain, h => by
    rw [List.forall_mem_cons] at hplain
    rw [Tree.walk, if_neg hplain.1.1, if_neg hplain.1.2] at h
    split at h
    · rw [eq_of_walk hplain.2 h, List.append_assoc, List.singleton_append]
    · cases h

/-- Everything that was a folder is one. -/
def Tree.Grows (v v' : Tree) : Prop := ∀ loc, v loc = some .folder → v' loc = some .folder

theorem Tree.Grows.walk {v v' : Tree} (h : v.Grows v') : ∀ {steps : List Text} {loc goal : Location},
    v.walk loc steps = some goal → v'.walk loc steps = some goal
  | [], loc, goal, hwalk => hwalk
  | step :: rest, loc, goal, hwalk => by
    rw [Tree.walk_cons_eq_some_iff] at hwalk ⊢
    rcases hwalk with ⟨hdot, hwalk⟩ | ⟨hup, hloc, hwalk⟩ | ⟨hplain, hfolder, hwalk⟩
    · exact .inl ⟨hdot, h.walk hwalk⟩
    · exact .inr (.inl ⟨hup, hloc, h.walk hwalk⟩)
    · exact .inr (.inr ⟨hplain, h _ hfolder, h.walk hwalk⟩)

/-- Dots lead nowhere. -/
theorem Tree.walk_filter (v : Tree) : ∀ (steps : List Text) (loc : Location),
    v.walk loc (steps.filter fun step => step != ['.']) = v.walk loc steps
  | [], loc => rfl
  | step :: steps, loc => by
    have ih := walk_filter v steps
    by_cases hdot : step = ['.']
    · rw [List.filter_cons_of_neg (by simp [hdot]), ih, Tree.walk, if_pos hdot]
    · rw [List.filter_cons_of_pos (by simp [hdot])]
      simp only [Tree.walk, ih]

/-- The location of a goal. -/
def Goal.location : Goal → Location
  | .folder loc => loc
  | .name dir last => dir ++ [last]

/-- Whether steps from a location on lead to a goal: through folders, and then to the name of the last step. -/
def Goal.IsReached (v : Tree) (loc : Location) (steps : List Text) : Goal → Prop
  | .folder l => v.walk loc steps = some l
  | .name dir last => IsPlainStep last ∧ ∃ front, steps = front ++ [last] ∧ v.walk loc front = some dir

theorem Goal.IsReached.cons {v : Tree} {loc mid : Location} {step : Text} {steps : List Text} {g : Goal}
    (hstep : v.walk loc [step] = some mid) (h : g.IsReached v mid steps) : g.IsReached v loc (step :: steps) := by
  have hcons (rest : List Text) : v.walk loc (step :: rest) = v.walk mid rest := by
    rw [← List.singleton_append, Tree.walk_append, hstep, Option.bind_some]
  cases g with
  | folder l => exact (hcons steps).trans h
  | name dir last =>
    obtain ⟨hplain, front, rfl, hwalk⟩ := h
    exact ⟨hplain, step :: front, rfl, (hcons front).trans hwalk⟩

namespace Folder

variable {f : Folder} {loc goal : Location}

theorem follow_dot (f : Folder) (loc : Location) (rest : List Text) :
    f.follow loc (['.'] :: rest) = f.follow loc rest := by
  rw [follow, if_pos rfl]

theorem follow_up (f : Folder) (hloc : loc ≠ []) (rest : List Text) :
    f.follow loc (['.', '.'] :: rest) = f.follow loc.dropLast rest := by
  rw [follow, if_neg (by decide), if_pos rfl, if_neg (by simpa using hloc)]

theorem follow_last (f : Folder) (loc : Location) {step : Text} (hstep : IsPlainStep step) :
    f.follow loc [step] = .ok (.name loc step) := by
  rw [follow, if_neg hstep.1, if_neg hstep.2, List.isEmpty_nil, if_pos rfl]

theorem follow_cons (f : Folder) (loc : Location) {step : Text} (hstep : IsPlainStep step) {rest : List Text}
    (hrest : rest ≠ []) : f.follow loc (step :: rest) = match f.tree (loc ++ [step]) with
      | none => .error .notFound
      | some (.file _) => .error .notAFolder
      | some .folder => f.follow (loc ++ [step]) rest := by
  rw [follow, if_neg hstep.1, if_neg hstep.2, if_neg (by simpa using hrest), tree]
  cases f.at? (loc ++ [step]) with
  | none => rfl
  | some entry => cases entry <;> rfl

/-- Steps behind folders are followed from where these lead. -/
theorem follow_append_of_walk {rest : List Text} (hrest : rest ≠ []) : ∀ {steps : List Text} {loc : Location},
    f.tree.walk loc steps = some goal → f.follow loc (steps ++ rest) = f.follow goal rest
  | [], loc, h => by rw [Option.some.inj h, List.nil_append]
  | step :: steps, loc, h => by
    have hne : steps ++ rest ≠ [] := by simp [hrest]
    rw [Tree.walk_cons_eq_some_iff] at h
    rw [List.cons_append]
    rcases h with ⟨rfl, h⟩ | ⟨rfl, hloc, h⟩ | ⟨hplain, hfolder, h⟩
    · rw [follow_dot, follow_append_of_walk hrest h]
    · rw [follow_up f hloc, follow_append_of_walk hrest h]
    · rw [follow_cons f loc hplain hne, hfolder]
      exact follow_append_of_walk hrest h

theorem tree_dropLast (h : f.tree loc = some .folder) : f.tree loc.dropLast = some .folder := by
  rcases List.eq_nil_or_concat loc with rfl | ⟨front, name, rfl⟩
  · exact h
  · rw [List.concat_eq_append] at h ⊢
    rw [List.dropLast_concat]
    exact tree_eq_folder_of_tree_append (List.cons_ne_nil name []) h

/-- Where steps lead is a folder. -/
theorem tree_of_walk : ∀ {steps : List Text} {loc : Location}, f.tree loc = some .folder →
    f.tree.walk loc steps = some goal → f.tree goal = some .folder
  | [], loc, hloc, h => Option.some.inj h ▸ hloc
  | step :: steps, loc, hloc, h => by
    rcases Tree.walk_cons_eq_some_iff.mp h with ⟨-, h⟩ | ⟨-, -, h⟩ | ⟨-, hfolder, h⟩
    · exact tree_of_walk hloc h
    · exact tree_of_walk (tree_dropLast hloc) h
    · exact tree_of_walk hfolder h

/-- Dots on the way to a name do not count. -/
theorem follow_filter (f : Folder) {name : Text} (hname : name ≠ ['.']) : ∀ (steps : List Text) (loc : Location),
    f.follow loc (steps ++ [name]) = f.follow loc ((steps.filter fun step => step != ['.']) ++ [name])
  | [], loc => rfl
  | step :: steps, loc => by
    have ih := follow_filter f hname steps
    by_cases hdot : step = ['.']
    · subst hdot
      rw [List.filter_cons_of_neg (by simp), List.cons_append, follow_dot, ih]
    · rw [List.filter_cons_of_pos (by simp [hdot]), List.cons_append, List.cons_append]
      by_cases hup : step = ['.', '.']
      · subst hup
        by_cases hloc : loc = []
        · simp [follow, hloc]
        · rw [follow_up f hloc, follow_up f hloc, ih]
      · rw [follow_cons f loc ⟨hdot, hup⟩ (by simp), follow_cons f loc ⟨hdot, hup⟩ (by simp), ih]

/-- A tidy path that ends with a name is followed along its way. -/
theorem goal_of_isTidy {p : Path} (hp : p.IsTidy) {names : List Text} {name : Text} (hway : p.way = names ++ [name]) :
    f.goal p = f.follow [] (names ++ [name]) := by
  have hlast : p.route.steps.getLast? = some name := by
    have htidy := hp.last
    rw [hway] at htidy
    rw [htidy.resolve_left (by simp), List.getLast?_concat]
  have hsteps : p.route.steps.dropLast ++ [name] = p.route.steps := List.dropLast_append_getLast? name hlast
  have hfilter := Path.way_eq_filter_steps hp.relative
  have hne : p ≠ [] := Path.ne_nil_of_way (by simp [hway])
  have hname : name ≠ ['.'] := by
    rintro rfl
    have hmem : ['.'] ∈ p.way := by simp [hway]
    rw [hfilter] at hmem
    simpa using (List.mem_filter.mp hmem).2
  have hnames : (p.route.steps.dropLast.filter fun step => step != ['.']) = names := by
    rw [hway, ← hsteps, List.filter_append, List.filter_cons_of_pos (by simp [hname]), List.filter_nil] at hfilter
    exact (List.append_inj_left' hfilter rfl).symm
  rw [goal, if_neg (by simp [hne, hp.relative]), ← hsteps, follow_filter f hname, hnames]

/-! ## What a path leads to -/

theorem follow_of_walk : ∀ {steps : List Text} {loc : Location}, f.tree.walk loc steps = some goal →
    ∃ g, f.follow loc steps = .ok g ∧ g.location = goal
  | [], loc, h => ⟨.folder loc, rfl, Option.some.inj h⟩
  | step :: steps, loc, h => by
    rcases Tree.walk_cons_eq_some_iff.mp h with ⟨rfl, h⟩ | ⟨rfl, hloc, h⟩ | ⟨hplain, hfolder, h⟩
    · rw [follow_dot]
      exact follow_of_walk h
    · rw [follow_up f hloc]
      exact follow_of_walk h
    · by_cases hsteps : steps = []
      · subst hsteps
        exact ⟨_, follow_last f loc hplain, Option.some.inj h⟩
      · rw [follow_cons f loc hplain hsteps, hfolder]
        exact follow_of_walk h

theorem isReached_of_follow {goal : Goal} : ∀ {steps : List Text} {loc : Location},
    f.follow loc steps = .ok goal → goal.IsReached f.tree loc steps
  | [], loc, h => by
    cases h
    rfl
  | step :: steps, loc, h => by
    by_cases hdot : step = ['.']
    · rw [hdot, follow_dot] at h
      exact (isReached_of_follow h).cons (by simp [Tree.walk, hdot])
    · by_cases hup : step = ['.', '.']
      · by_cases hnil : loc = []
        · simp [follow, hup, hnil] at h
        · rw [hup, follow_up f hnil] at h
          exact (isReached_of_follow h).cons (by simp [Tree.walk, hup, hnil])
      · by_cases hsteps : steps = []
        · rw [hsteps, follow_last f loc ⟨hdot, hup⟩] at h
          cases h
          exact ⟨⟨hdot, hup⟩, [], by rw [hsteps]; rfl, rfl⟩
        · rw [follow_cons f loc ⟨hdot, hup⟩ hsteps] at h
          split at h
          · cases h
          · cases h
          · rename_i hfolder
            exact (isReached_of_follow h).cons (by simp [Tree.walk, hdot, hup, hfolder])

theorem walk_of_follow {g : Goal} (hg : f.tree g.location = some .folder) {steps : List Text} {loc : Location}
    (h : f.follow loc steps = .ok g) : f.tree.walk loc steps = some g.location := by
  have hreached := isReached_of_follow h
  cases g with
  | folder l => exact hreached
  | name dir last =>
    obtain ⟨hplain, front, rfl, hwalk⟩ := hreached
    rw [Tree.walk_append, hwalk, Option.bind_some, Tree.walk_cons_eq_some_iff]
    exact .inr (.inr ⟨hplain, hg, rfl⟩)

theorem isReached_of_goal {goal : Goal} (h : f.goal p = .ok goal) :
    p.isAbsolute = false ∧ goal.IsReached f.tree [] p.route.steps := by
  rw [Folder.goal] at h
  split at h
  · cases h
  · rename_i hp
    rw [Bool.or_eq_true, not_or, Bool.not_eq_true, Bool.not_eq_true] at hp
    exact ⟨hp.2, isReached_of_follow h⟩

/-- What is followed is followed in the same way once there are more folders. -/
theorem follow_of_grows {g : Folder} (h : f.tree.Grows g.tree) {goal : Goal} :
    ∀ {steps : List Text} {loc : Location}, f.follow loc steps = .ok goal → g.follow loc steps = .ok goal
  | [], loc, hfollow => hfollow
  | step :: steps, loc, hfollow => by
    by_cases hdot : step = ['.']
    · rw [hdot, follow_dot] at hfollow ⊢
      exact follow_of_grows h hfollow
    · by_cases hup : step = ['.', '.']
      · by_cases hnil : loc = []
        · simp [follow, hup, hnil] at hfollow
        · rw [hup, follow_up _ hnil] at hfollow ⊢
          exact follow_of_grows h hfollow
      · by_cases hsteps : steps = []
        · rw [hsteps, follow_last _ loc ⟨hdot, hup⟩] at hfollow ⊢
          exact hfollow
        · rw [follow_cons _ loc ⟨hdot, hup⟩ hsteps] at hfollow ⊢
          split at hfollow
          · cases hfollow
          · cases hfollow
          · rename_i hfolder
            rw [h _ hfolder]
            exact follow_of_grows h hfollow

theorem goal_of_grows {g : Folder} (h : f.tree.Grows g.tree) {p : Path} {goal : Goal} (hgoal : f.goal p = .ok goal) :
    g.goal p = .ok goal := by
  rw [Folder.goal] at hgoal ⊢
  split at hgoal
  · cases hgoal
  · rename_i hp
    rw [if_neg hp]
    exact follow_of_grows h hgoal

theorem locate_of_goal {p : Path} {g : Goal} (hg : f.goal p = .ok g) :
    f.locate p = match f.at? g.location with
      | none => .error .notFound
      | some entry => if p.route.toFolder && !entry.isFolder then .error .notAFolder
                      else .ok (g.location, entry) := by
  rw [locate, hg]
  cases g <;> rfl

theorem stat_of_goal {p : Path} {g : Goal} {entry : Entry} (hg : f.goal p = .ok g)
    (hentry : f.at? g.location = some entry) (hslash : p.route.toFolder = true → entry.isFolder = true) :
    f.stat p = .ok entry := by
  have hlocate : f.locate p = .ok (g.location, entry) := by
    rw [locate_of_goal hg, hentry]
    cases htoFolder : p.route.toFolder with
    | false => rfl
    | true => simp [hslash htoFolder]
  rw [stat, hlocate]
  rfl

theorem goal_of_locate {p : Path} {entry : Entry} (h : f.locate p = .ok (loc, entry)) :
    ∃ g, f.goal p = .ok g ∧ loc = g.location ∧ f.at? loc = some entry := by
  cases hgoal : f.goal p with
  | error e =>
    rw [locate, hgoal] at h
    cases h
  | ok g =>
    rw [locate_of_goal hgoal] at h
    cases hentry : f.at? g.location with
    | none =>
      rw [hentry] at h
      cases h
    | some entry' =>
      rw [hentry] at h
      dsimp only at h
      split at h
      · cases h
      · cases h
        exact ⟨g, rfl, rfl, hentry⟩

theorem exists_locate_of_stat {p : Path} {entry : Entry} (h : f.stat p = .ok entry) :
    ∃ loc, f.locate p = .ok (loc, entry) := by
  rw [stat] at h
  cases hlocate : f.locate p with
  | error e =>
    rw [hlocate] at h
    cases h
  | ok found =>
    obtain ⟨loc, entry'⟩ := found
    rw [hlocate] at h
    cases h
    exact ⟨loc, rfl⟩

/-- A path leads to a folder if its way can be walked. -/
theorem stat_of_walk {p : Path} (hrelative : p.isAbsolute = false) (hne : p ≠ [])
    (h : f.tree.walk [] p.way = some goal) :
    ∃ inside, f.at? goal = some (.folder inside) ∧ f.stat p = .ok (.folder inside) := by
  rw [Path.way_eq_filter_steps hrelative, Tree.walk_filter] at h
  obtain ⟨g, hg, rfl⟩ := follow_of_walk h
  obtain ⟨inside, hinside⟩ := tree_eq_folder_iff.mp (tree_of_walk (tree_nil f) h)
  refine ⟨inside, hinside, stat_of_goal ?_ hinside fun _ => rfl⟩
  rw [Folder.goal, if_neg (by simp [hne, hrelative]), hg]

/-- The way of a path that leads to a folder can be walked. -/
theorem exists_walk_of_stat {p : Path} {inside : Folder} (h : f.stat p = .ok (.folder inside)) :
    p.isAbsolute = false ∧ p ≠ [] ∧
      ∃ goal, f.tree.walk [] p.way = some goal ∧ f.at? goal = some (.folder inside) := by
  obtain ⟨loc, hlocate⟩ := exists_locate_of_stat h
  obtain ⟨g, hgoal, rfl, hinside⟩ := goal_of_locate hlocate
  rw [Folder.goal] at hgoal
  split at hgoal
  · cases hgoal
  · rename_i hp
    rw [Bool.or_eq_true, not_or, List.isEmpty_iff, Bool.not_eq_true] at hp
    refine ⟨hp.2, hp.1, g.location, ?_, hinside⟩
    rw [Path.way_eq_filter_steps hp.2, Tree.walk_filter]
    exact walk_of_follow (tree_eq_folder_iff.mpr ⟨inside, hinside⟩) hgoal

section Behind

variable {p : Path} (hp : p.IsTidy) {front : List Text} {name : Text} (hname : IsPlainStep name)
  (hway : p.way = front ++ [name]) (hwalk : f.tree.walk [] front = some goal)

include hp hname hway hwalk

/-- A path behind folders leads to a name in the last of them. -/
theorem goal_of_walk : f.goal p = .ok (.name goal name) := by
  rw [goal_of_isTidy hp hway, follow_append_of_walk (List.cons_ne_nil name []) hwalk, follow_last f goal hname]

theorem readText_of_walk (hslash : p.route.toFolder = false) {content : List UInt8}
    (hfile : f.tree (goal ++ [name]) = some (.file content)) : f.readText p =
      match Text.ofBytes? content with
      | some t => .ok t
      | none => .error .notText := by
  have hstat : f.stat p = .ok (.file content) :=
    stat_of_goal (goal_of_walk hp hname hway hwalk) (tree_eq_file_iff.mp hfile) (by simp [hslash])
  rw [readText, hstat]
  rfl

end Behind

end Folder

end GoDraft
