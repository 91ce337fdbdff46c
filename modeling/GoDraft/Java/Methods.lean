import GoDraft.Java.Block
import GoDraft.Java.Declaration
import GoDraft.Pattern.Search

/-!
# GoDraft — the methods of the class

A method is a header that begins in code directly inside the class, with the block behind it. The
search goes on after that block, so what is inside a method is never taken for another. `main` and
constructors are passed over.

* `parseParams` — a parameter list;
* `methodFindings` — every member that has a header and a block, and what it was taken for;
* `findMethods` — the methods.
-/

namespace GoDraft

open Pattern

/-- A `throws` clause. -/
def throwsClause : Pattern :=
  "throws" ++ blanks1 ++ dotted ++ many (blanks ++ "," ++ blanks ++ dotted) ++ blanks

/-- The header of a method, up to the brace that opens its block. -/
def methodHeader : Pattern :=
  wordEdge
    ++ optional (group 1 ("public" ||| "private" ||| "protected") ++ blanks1)
    ++ optional ("static" ++ blanks1)
    ++ optional ("final" ++ blanks1)
    ++ group 2 word ++ blanks1 ++ group 3 word ++ blanks
    ++ "(" ++ group 4 (many (noneOf ")")) ++ ")" ++ blanks
    ++ optional throwsClause ++ "\x7b"

/-! ## Parameters -/

/-- The parameter that one entry of a list declares: its first two words besides `final`. -/
def paramOf? (entry : Text) : Option Param :=
  match entry.words.filter (· != ("final" : Text)) with
  | typeName :: name :: _ => some ⟨typeName, name⟩
  | _ => none

/-- The parameters of a list; entries with fewer than two words declare none. -/
def parseParams (raw : Text) : List Param := (raw.pieces ',').filterMap paramOf?

/-! ## Members -/

/-- What a member with a header and a block was taken for. -/
inductive MethodFinding where
  | main
  | constructor (name : Text)
  | method (m : Method)
  deriving DecidableEq, Repr

/-- What a header and the block behind it, with the body `body`, are taken for. -/
def methodFinding (className : Text) (m : Match) (body : Text) : MethodFinding :=
  if m.group 3 = ("main" : Text) then .main
  else if Access.isKeyword (m.group 2) || m.group 3 == className then .constructor (m.group 3)
  else .method
    { access := .ofWord (m.group? 1)
      returnType := m.group 2
      name := m.group 3
      params := parseParams (m.group 4)
      body := body.trim }

/-- The offset of the brace that opens the block behind a header. -/
def Match.brace (m : Match) : Nat := m.stop - 1

/-- The members from a place on, the place given by its three parts. Headers are looked for at
offsets from `resume` on. -/
def methodFindingsFrom (source className : Text) (resume : Nat) (before : Option Char)
    (offset : Nat) : Text → Except Fault (List MethodFinding)
  | [] => .ok []
  | c :: rest =>
    let go (resume : Nat) :=
      methodFindingsFrom source className resume (some c) (offset + c.utf8Size) rest
    if offset < resume then go resume
    else
      match methodHeader.matchAt? ⟨before, offset, c :: rest⟩ with
      | none => go resume
      | some m =>
        if isMemberAt source m.start then do
          match ← blockEnd source m.brace true with
          | none => go m.stop
          | some close =>
            let body ← source.slice (m.brace + 1) close
            return methodFinding className m body :: (← go (close + 1))
        else go m.stop

/-- The members that have a header and a block, in the order of the text. -/
def methodFindings (source className : Text) : Except Fault (List MethodFinding) :=
  methodFindingsFrom source className 0 none 0 source

/-- The method of a finding. -/
def MethodFinding.method? : MethodFinding → Option Method
  | .method m => some m
  | _ => none

/-- The record of a finding. -/
def MethodFinding.log : MethodFinding → Log
  | .constructor name => [⟨.trace, "skipping constructor " ++ name⟩]
  | _ => []

/-- The methods of the class with a given name, in the order of the text. -/
def findMethods (source className : Text) : Except Fault (List Method) := do
  return (← methodFindings source className).filterMap MethodFinding.method?

end GoDraft
