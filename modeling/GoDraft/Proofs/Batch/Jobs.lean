import GoDraft.Proofs.Files.Writing

/-!
# GoDraft — jobs on a file system

A job reads one file and writes another, or none. Jobs that do not get in each other's way leave the same tree in
whatever order they are done, and each of them meets what it would have met alone.

* `Job.Independent` — jobs that do not get in each other's way;
* `Job.Steady` — a tree in which each job still meets what it met before;
* `Job.Independent.steady_run` — a job keeps a tree steady;
* `Job.Independent.foldl_run_eq` — the order of jobs does not count.
-/

namespace GoDraft

/-- What drafting a file does to a file system. -/
structure Job where
  /-- The file that is read. -/
  source : Location
  /-- The folder that is written to. -/
  dir : Location
  name : Text
  /-- What is written, if anything is. -/
  content? : Option (List UInt8)

namespace Job

/-- The file that is written. -/
def place (job : Job) : Location := job.dir ++ [job.name]

/-- A tree after a job is done. -/
def run (job : Job) (v : Tree) : Tree :=
  match job.content? with
  | none => v
  | some content => v.write job.dir job.name content

/-- Why a job cannot write. -/
def error? (job : Job) (v : Tree) : Option FileError := v.writeError? job.dir job.name

/-- Jobs that do not get in each other's way. -/
structure Independent (v : Tree) (jobs : List Job) : Prop where
  source : ∀ j ∈ jobs, ∃ content, v j.source = some (.file content)
  unread : ∀ j ∈ jobs, ∀ k ∈ jobs, k.source ≠ j.place
  apart : ∀ j ∈ jobs, ∀ k ∈ jobs, j ≠ k → v.Apart j.dir j.name k.dir k.name

/-- Trees in which all jobs meet the same. -/
structure Steady (jobs : List Job) (v w : Tree) : Prop where
  grows : v.Grows w
  source : ∀ j ∈ jobs, w j.source = v j.source
  error : ∀ j ∈ jobs, j.error? w = j.error? v

variable {v w : Tree} {jobs : List Job} {j k : Job}

theorem Steady.refl (jobs : List Job) (v : Tree) : Steady jobs v v := ⟨fun _ h => h, fun _ _ => rfl, fun _ _ => rfl⟩

/-- What a job has written it can write again. -/
theorem error?_write_self (job : Job) (content : List UInt8) (v : Tree) :
    job.error? (v.write job.dir job.name content) = job.error? v := by
  by_cases h : v.writeError? job.dir job.name = none
  · have hblocks {l : Location} (hl : l <+: job.dir) :
        Tree.blocks (v.write job.dir job.name content) l = false := by
      rw [Tree.blocks_eq_false_iff]
      intro l' hl'
      have hne : l' ≠ job.dir ++ [job.name] := by
        rintro rfl
        exact Tree.not_concat_start (hl'.trans hl)
      rw [Tree.any_isFile_write hne]
      exact Tree.blocks_eq_false_iff.mp (Tree.blocks_of_no_error h).1 l' (hl'.trans hl)
    have hfile : v.write job.dir job.name content (job.dir ++ [job.name]) = some (.file content) := by
      rw [Tree.write_of_no_error h, Function.update_self]
    rw [error?, error?, h, Tree.writeError?, hblocks (List.dropLast_prefix _), hblocks (List.prefix_refl _), hfile]
    rfl
  · rw [Tree.write_of_error h]

namespace Independent

variable (h : Independent v jobs)

include h

theorem steady_run (hw : Steady jobs v w) (hj : j ∈ jobs) : Steady jobs v (j.run w) := by
  rw [run]
  split
  · exact hw
  · rename_i content _
    refine ⟨fun l hl => Tree.grows_write l (hw.grows l hl), ?_, ?_⟩
    · intro k hk
      obtain ⟨old, hold⟩ := h.source k hk
      rw [hold]
      exact Tree.write_apply_of_file (h.unread j hj k hk) (by rw [hw.source k hk, hold])
    · intro k hk
      rw [← hw.error k hk]
      by_cases hjk : j = k
      · exact hjk ▸ error?_write_self j content w
      · exact Tree.writeError?_write ((h.apart j hj k hk hjk).mono hw.grows)

theorem run_comm (hw : Steady jobs v w) (hj : j ∈ jobs) (hk : k ∈ jobs) : k.run (j.run w) = j.run (k.run w) := by
  by_cases hjk : j = k
  · rw [hjk]
  · have happart := (h.apart j hj k hk hjk).mono hw.grows
    rw [run, run, run, run]
    cases hjc : j.content? with
    | none => rfl
    | some content =>
      cases hkc : k.content? with
      | none => rfl
      | some content' => exact Tree.write_comm happart

/-- **The order of jobs does not count.** -/
theorem foldl_run_eq {xs ys : List Job} (hperm : xs.Perm ys) : ∀ {w : Tree}, (∀ j ∈ xs, j ∈ jobs) → Steady jobs v w →
    xs.foldl (fun w j => j.run w) w = ys.foldl (fun w j => j.run w) w := by
  induction hperm with
  | nil => exact fun _ _ => rfl
  | cons j _ ih =>
    intro w hxs hw
    rw [List.forall_mem_cons] at hxs
    exact ih hxs.2 (h.steady_run hw hxs.1)
  | swap j k xs =>
    intro w hxs hw
    rw [List.forall_mem_cons, List.forall_mem_cons] at hxs
    rw [List.foldl_cons, List.foldl_cons, List.foldl_cons, List.foldl_cons, h.run_comm hw hxs.1 hxs.2.1]
  | trans hxy _ ihx ihy =>
    intro w hxs hw
    rw [ihx hxs hw, ihy (fun j hj => hxs j (hxy.mem_iff.mpr hj)) hw]

end Independent

end Job

end GoDraft
