import GoDraft.Body.Recast

/-!
# GoDraft — recasting as a run of passes

Between putting statements on lines and dropping their terminators, recasting is a run of passes of one
kind: every match of a pattern is replaced by what is written for it. For most passes that is a template
filled in; a declaration is written by a function of its own.

* `Pass`, `Pass.run` — passes one after another;
* `bodyPasses` — the passes for a body, in their order;
* `Recaster.recast_eq_run` — recasting is that run.
-/

namespace GoDraft

/-- A pattern and what is written for its matches. -/
structure Pass where
  pattern : Pattern
  write : Match → Text

namespace Pass

/-- A text with every match replaced by what is written for it. -/
def apply (p : Pass) (t : Text) : Text := p.pattern.replaceAll p.write t

/-- Passes one after another. -/
def run (passes : List Pass) (t : Text) : Text := passes.foldl (fun t p => p.apply t) t

theorem run_cons (p : Pass) (passes : List Pass) (t : Text) :
    run (p :: passes) t = run passes (p.apply t) := rfl

theorem run_append (passes passes' : List Pass) (t : Text) :
    run (passes ++ passes') t = run passes' (run passes t) := List.foldl_append

end Pass

/-- The pass of a rule. -/
def Rule.pass (r : Rule) : Pass := ⟨r.pattern, r.template.fill⟩

theorem Pass.run_map_pass (rules : List Rule) (t : Text) :
    run (rules.map Rule.pass) t = Rule.applyAll rules t := by
  rw [run, List.foldl_map]
  rfl

/-- The pass of typed declarations. -/
def declarationPass : Pass := ⟨declarationPattern, recastDeclaration⟩

/-- The passes behind the concatenations. -/
def statementPasses : List Pass :=
  declarationPass :: (controlRules ++ callRule :: returnRule :: constructionRules).map Rule.pass

/-- The passes for a body without a receiver. -/
def bodyPasses (libraryCalls : Bool) : List Pass :=
  (if libraryCalls then libraryRules else []).map Rule.pass ++
    ((printRules ++ concatRules).map Rule.pass ++ statementPasses)

/-- **Recasting a body without a receiver is a run of passes** between two readings of its characters. -/
theorem Recaster.recast_eq_run (libraryCalls : Bool) (body : Text) :
    ({ libraryCalls } : Recaster).recast body =
      stripTerminators (Pass.run (bodyPasses libraryCalls) (splitStatements body)) := by
  unfold recast bodyPasses statementPasses
  simp only [Pass.run_append, Pass.run_cons, Pass.run_map_pass, Rule.applyAll, List.foldl_append,
    List.foldl_cons, List.foldl_nil]
  cases libraryCalls <;> rfl

end GoDraft
