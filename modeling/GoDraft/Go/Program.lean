import GoDraft.Go.Functions
import GoDraft.Go.Imports
import GoDraft.Log
import GoDraft.Text.Quoted

/-!
# GoDraft — the Go program

A program is a list of blocks with an empty line between two of them: the package clause, the
imports, the declarations of the class, and `main`. A class without fields has no declarations. Where
there is no `main`, a class with fields and methods gets a usage example instead.
-/

namespace GoDraft

/-- The line of a package in the import block. -/
def importLine (package : Text) : Text := indent ++ "\"" ++ package ++ "\"\n"

/-- The import block. -/
def importBlock (packages : List Text) : Text :=
  "import (\n" ++ packages.flatMap importLine ++ ")"

/-- The blocks of a class. -/
def classBlocks (settings : Settings) (c : ClassDecl) : List Text :=
  match classDecls settings c with
  | some decls => decls ++ c.methods.map (methodDecl settings c)
  | none => []

/-- The class to give a usage example for, if there is no `main`. -/
def exampleClass? (o : Outline) : Option ClassDecl :=
  o.class?.filter fun c => c.hasFields && c.hasMethods

/-- The block of `main`. -/
def mainBlock (settings : Settings) (o : Outline) : List Text :=
  match o.main? with
  | some body => [mainDecl settings body]
  | none => (exampleClass? o).toList.map usageExample

/-- The blocks of the program for a source text with a given outline. -/
def programBlocks (settings : Settings) (source : Text) (o : Outline) : List Text :=
  let imports := detectImports source
  [("package main" : Text)]
    ++ (if imports.isEmpty then [] else [importBlock imports])
    ++ o.class?.toList.flatMap (classBlocks settings)
    ++ mainBlock settings o

/-- The program for a source text with a given outline. -/
def program (settings : Settings) (source : Text) (o : Outline) : Text :=
  Text.join "\n\n" (programBlocks settings source o) ++ "\n"

/-- The records of how the program is put together. -/
def programLog (source : Text) (o : Outline) : Log :=
  ⟨.debug, "imports: " ++ quotedList (detectImports source)⟩ ::
    match o.main? with
    | some _ => [⟨.debug, "emitting translated main"⟩]
    | none =>
      (exampleClass? o).toList.map fun c => ⟨.debug, "emitting usage stub for " ++ c.name⟩

end GoDraft
