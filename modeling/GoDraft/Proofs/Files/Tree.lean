import GoDraft.Files.Folder
import Mathlib.Logic.Function.Basic

/-!
# GoDraft — a file system by its locations

A folder keeps its entries in an order, and that order is not part of what a file system holds. Its tree tells
for every location what stands there, and putting an entry changes the tree at one location.

* `Folder.tree` — what stands at each location: a file with its content, or a folder;
* `Folder.tree_append`, `Folder.tree_eq_folder_of_tree_append` — everything stands in a folder;
* `Folder.tree_put` — a tree after an entry is put.
-/

namespace GoDraft

/-- What can be told of an entry without looking into it. -/
inductive Kind where
  | file (content : List UInt8)
  | folder
  deriving DecidableEq

/-- What stands at each location. -/
abbrev Tree := Location → Option Kind

/-- An entry without what is in it. -/
def Entry.kind : Entry → Kind
  | .file content => .file content
  | .folder _ => .folder

namespace Folder

/-- The tree of a file system. -/
def tree (f : Folder) : Tree := fun loc => (f.at? loc).map Entry.kind

end Folder

/-- What stands at each location from an entry on. -/
def Entry.tree : Entry → Tree
  | .file content => fun loc => if loc = [] then some (.file content) else none
  | .folder inside => inside.tree

namespace Folder

variable {f : Folder} {loc rest : Location} {name : Text}

/-! ## Entries -/

theorem ite_ite_of_ne {α : Type} {n name other : Text} (h : n ≠ name) {x y z : α} :
    (if n = other then x else if other = name then y else z) =
      if other = name then y else if n = other then x else z := by
  by_cases ho : other = name
  · rw [if_pos ho, if_neg (fun hn => h (hn.trans ho)), if_pos ho]
  · rw [if_neg ho, if_neg ho]

theorem find?_set (name other : Text) (entry : Entry) :
    ∀ f : Folder, (f.set name entry).find? other = if other = name then some entry else f.find? other
  | .empty => by
    cases entry <;> simp only [set, find?, eq_comm (a := other)]
  | .file n content rest => by
    have ih := find?_set name other entry rest
    by_cases hn : n = name
    · subst hn
      cases entry <;> simp only [set, if_true, find?, eq_comm (a := other)] <;> split <;> rfl
    · simp only [set, if_neg hn, find?, ih]
      exact ite_ite_of_ne hn
  | .folder n inside rest => by
    have ih := find?_set name other entry rest
    by_cases hn : n = name
    · subst hn
      cases entry <;> simp only [set, if_true, find?, eq_comm (a := other)] <;> split <;> rfl
    · simp only [set, if_neg hn, find?, ih]
      exact ite_ite_of_ne hn

/-! ## Trees -/

@[simp] theorem tree_nil (f : Folder) : f.tree [] = some .folder := rfl

/-- The first name of a location leads to an entry, and the rest of the location on from there. -/
theorem tree_cons (f : Folder) (name : Text) (rest : Location) :
    f.tree (name :: rest) = (f.find? name).bind fun entry => entry.tree rest := by
  cases rest with
  | nil =>
    show (f.find? name).map Entry.kind = _
    cases f.find? name with
    | none => rfl
    | some entry => cases entry <;> rfl
  | cons n rest =>
    rw [tree, at?]
    · cases f.find? name with
      | none => rfl
      | some entry => cases entry <;> rfl
    · simp

theorem tree_eq_folder_iff : f.tree loc = some .folder ↔ ∃ inside, f.at? loc = some (.folder inside) := by
  rw [tree, Option.map_eq_some_iff]
  constructor
  · rintro ⟨entry, hentry, hkind⟩
    cases entry with
    | file content => cases hkind
    | folder inside => exact ⟨inside, hentry⟩
  · rintro ⟨inside, hinside⟩
    exact ⟨_, hinside, rfl⟩

theorem tree_eq_file_iff {content : List UInt8} :
    f.tree loc = some (.file content) ↔ f.at? loc = some (.file content) := by
  rw [tree, Option.map_eq_some_iff]
  constructor
  · rintro ⟨entry, hentry, hkind⟩
    cases entry with
    | file content' => rw [hentry, Kind.file.inj hkind]
    | folder inside => cases hkind
  · exact fun h => ⟨_, h, rfl⟩

theorem tree_eq_none_iff : f.tree loc = none ↔ f.at? loc = none := Option.map_eq_none_iff

/-- What stands behind a location with a folder stands in that folder. -/
theorem tree_append {inside : Folder} :
    ∀ {loc : Location} {f : Folder}, f.at? loc = some (.folder inside) → f.tree (loc ++ rest) = inside.tree rest
  | [], f, h => by
    obtain rfl : f = inside := by simpa [at?] using h
    rfl
  | name :: loc, f, h => by
    rw [List.cons_append, tree_cons]
    cases loc with
    | nil =>
      rw [show f.find? name = some (.folder inside) from h]
      rfl
    | cons n loc =>
      rw [at?] at h
      · split at h
        · rename_i inside' hinside'
          rw [hinside']
          exact tree_append h
        · cases h
      · simp

/-- Nothing stands behind a location that is no folder. -/
theorem tree_append_eq_none (hne : rest ≠ []) :
    ∀ {loc : Location} {f : Folder}, f.tree loc ≠ some .folder → f.tree (loc ++ rest) = none
  | [], f, h => absurd rfl h
  | name :: loc, f, h => by
    rw [List.cons_append, tree_cons]
    rw [tree_cons] at h
    cases hfind : f.find? name with
    | none => rfl
    | some entry =>
      rw [hfind] at h
      cases entry with
      | file content =>
        show (if loc ++ rest = [] then _ else none) = none
        rw [if_neg (by simp [hne])]
      | folder inside => exact tree_append_eq_none hne h

/-- Everything stands in a folder. -/
theorem tree_eq_folder_of_tree_append {kind : Kind} (hne : rest ≠ []) (h : f.tree (loc ++ rest) = some kind) :
    f.tree loc = some .folder := by
  by_contra hno
  rw [tree_append_eq_none hne hno] at h
  cases h

/-! ## Putting an entry -/

/-- A file, or a folder with nothing in it. -/
def IsBare (entry : Entry) : Prop := ∀ loc, entry.tree loc = if loc = [] then some entry.kind else none

theorem isBare_file (content : List UInt8) : IsBare (.file content) := fun _ => rfl

theorem isBare_folder : IsBare (.folder .empty) := by
  intro loc
  cases loc with
  | nil => rfl
  | cons name rest =>
    show empty.tree (name :: rest) = _
    rw [tree_cons, if_neg (List.cons_ne_nil name rest)]
    rfl

theorem put_cons {entry : Entry} {inside : Folder} (h : f.find? name = some (.folder inside)) (hne : rest ≠ []) :
    f.put entry (name :: rest) = f.set name (.folder (inside.put entry rest)) := by
  rw [put, h]
  exact hne

/-- An entry put in a folder, where no folder stood before, is all that changes. -/
theorem tree_put {entry : Entry} (hentry : IsBare entry) {name : Text} :
    ∀ {dir : Location} {f : Folder}, f.tree dir = some .folder → f.tree (dir ++ [name]) ≠ some .folder →
      (f.put entry (dir ++ [name])).tree = Function.update f.tree (dir ++ [name]) (some entry.kind)
  | [], f, _, hno => by
    funext loc
    rw [Function.update_apply, List.nil_append]
    cases loc with
    | nil => rfl
    | cons other rest =>
      show (f.set name entry).tree (other :: rest) = _
      rw [tree_cons, find?_set]
      by_cases hother : other = name
      · subst hother
        rw [if_pos rfl, Option.bind_some, hentry rest]
        cases rest with
        | nil => rw [if_pos rfl, if_pos rfl]
        | cons n rest =>
          rw [if_neg (by simp), if_neg (by simp)]
          -- there was no folder under the name, so nothing stood below it
          exact (tree_append_eq_none (List.cons_ne_nil n rest) hno).symm
      · rw [if_neg hother, if_neg (fun h => hother (List.cons.inj h).1), tree_cons]
  | first :: dir, f, hdir, hno => by
    rw [tree_cons] at hdir
    cases hfind : f.find? first with
    | none =>
      rw [hfind] at hdir
      cases hdir
    | some e =>
      rw [hfind] at hdir
      cases e with
      | file content =>
        change (if dir = [] then some (Kind.file content) else none) = some .folder at hdir
        split at hdir <;> cases hdir
      | folder inside =>
        rw [List.cons_append, tree_cons, hfind] at hno
        -- the folder is put back with its new inside
        have ih := tree_put hentry hdir hno
        funext loc
        rw [List.cons_append, put_cons hfind (by simp), Function.update_apply]
        cases loc with
        | nil => rfl
        | cons other rest =>
          rw [tree_cons, find?_set]
          by_cases hother : other = first
          · subst hother
            rw [if_pos rfl, Option.bind_some, Entry.tree, ih, Function.update_apply, tree_cons, hfind]
            simp only [List.cons.injEq, true_and]
            rfl
          · rw [if_neg hother, if_neg (fun h => hother (List.cons.inj h).1), tree_cons]

end Folder

end GoDraft
