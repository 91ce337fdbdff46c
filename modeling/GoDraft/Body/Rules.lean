import GoDraft.Pattern.Template

/-!
# GoDraft — rules for statements

The replacement rules that turn Java statements into Go statements, group by group. The order of the
rules matters: each sees what the ones before it have made. Text that no rule knows stays as it is.

* `libraryRules` — idioms of the standard library;
* `printRules`, `concatRules` — printing, and strings joined to other values;
* `recastDeclarations` — typed local variables;
* `controlRules` — `if`, `while`, `for` and `do`;
* `callRule`, `returnRule`, `constructionRules` — calls, results and new objects.
-/

namespace GoDraft

open Pattern

/-! ## Parts of the patterns -/

/-- A value joined to a literal: a dotted name and, if it is called, its arguments. -/
def operand : Pattern := dotted ++ optional ("(" ++ many (noneOf "()") ++ ")")

/-- A method call on a dotted name, up to its opening parenthesis. -/
def methodCall (name : String) : Pattern := group 1 dotted ++ text ("." ++ name ++ "(").toList

/-! ## The rules -/

/-- Exceptions that are made and thrown at once. -/
def throwRule : Rule :=
  ⟨wordEdge ++ "throw" ++ blanks1 ++ "new" ++ blanks1 ++ group 1 word ++ "("
      ++ group 2 someOfLine ++ ");",
   ["panic(", .group 2, ") // ", .group 1]⟩

/-- Idioms of the standard library. -/
def libraryRules : List Rule :=
  [⟨methodCall "equals" ++ group 2 someOfLine ++ ")", [.group 1, " == ", .group 2]⟩,
   ⟨methodCall "length" ++ ")", ["len(", .group 1, ")"]⟩,
   ⟨methodCall "charAt" ++ group 2 word ++ ")", [.group 1, "[", .group 2, "]"]⟩,
   ⟨methodCall "toLowerCase" ++ ")", ["strings.ToLower(", .group 1, ")"]⟩,
   ⟨methodCall "toUpperCase" ++ ")", ["strings.ToUpper(", .group 1, ")"]⟩,
   ⟨methodCall "substring" ++ group 2 word ++ "," ++ blanks ++ group 3 word ++ ")",
    [.group 1, "[", .group 2, ":", .group 3, "]"]⟩,
   ⟨methodCall "substring" ++ group 2 word ++ ")", [.group 1, "[", .group 2, ":]"]⟩,
   ⟨"Integer.parseInt(" ++ group 1 someOfLine ++ ")", ["strconv.Atoi(", .group 1, ")"]⟩,
   ⟨"Double.parseDouble(" ++ group 1 someOfLine ++ ")",
    ["strconv.ParseFloat(", .group 1, ", 64)"]⟩,
   ⟨"Boolean.parseBoolean(" ++ group 1 someOfLine ++ ")", ["strconv.ParseBool(", .group 1, ")"]⟩,
   throwRule]

/-- A call that prints, by its text up to the opening parenthesis in both languages. -/
def printRule (java go : String) : Rule :=
  ⟨java ++ group 1 someOfLine ++ ");", [go, .group 1, ")"]⟩

/-- Printing. -/
def printRules : List Rule :=
  [printRule "System.out.println(" "fmt.Println(", printRule "System.out.print(" "fmt.Print(",
   printRule "System.out.printf(" "fmt.Printf("]

/-- A string literal joined to a value on its right or on its left. -/
def concatRules : List Rule :=
  [⟨group 1 stringLiteral ++ blanks ++ "+" ++ blanks ++ group 2 operand,
    ["fmt.Sprintf(\"%s%v\", ", .group 1, ", ", .group 2, ")"]⟩,
   ⟨group 1 operand ++ blanks ++ "+" ++ blanks ++ group 2 stringLiteral,
    ["fmt.Sprintf(\"%v%s\", ", .group 1, ", ", .group 2, ")"]⟩]

/-- Conditional blocks. -/
def ifRule : Rule :=
  ⟨wordEdge ++ "if" ++ blanks ++ "(" ++ group 1 someOfLine ++ ")" ++ blanks ++ "\x7b",
   ["if ", .group 1, " \x7b"]⟩

/-- Loops with their condition first. -/
def whileRule : Rule :=
  ⟨wordEdge ++ "while" ++ blanks ++ "(" ++ group 1 someOfLine ++ ")" ++ blanks ++ "\x7b",
   ["for ", .group 1, " \x7b"]⟩

/-- Counting loops. -/
def forRule : Rule :=
  ⟨wordEdge ++ "for" ++ blanks ++ "(" ++ blanks ++ group 1 word ++ blanks1 ++ group 2 word
      ++ blanks ++ "=" ++ blanks ++ group 3 word ++ blanks ++ ";" ++ blanks ++ group 4 word
      ++ blanks ++ group 5 (many1 (oneOf "<>=!")) ++ blanks
      ++ group 6 (word ++ many ("." ++ word)) ++ blanks ++ ";" ++ blanks ++ group 7 word
      ++ group 8 ("++" ||| "--" ||| "+=1" ||| "-=1") ++ blanks ++ ")" ++ blanks ++ "\x7b",
   ["for ", .group 2, " := ", .group 3, "; ", .group 4, " ", .group 5, " ", .group 6, "; ",
    .group 7, .group 8, " \x7b"]⟩

/-- The start of a loop with its condition last. -/
def doRule : Rule := ⟨wordEdge ++ "do" ++ blanks ++ "\x7b", ["for \x7b"]⟩

/-- The end of a loop with its condition last. -/
def untilRule : Rule :=
  ⟨"\x7d" ++ blanks ++ "while" ++ blanks ++ "(" ++ group 1 someOfLine ++ ")" ++ blanks ++ ";",
   ["if !(", .group 1, ") \x7b\nbreak\n\x7d\n\x7d"]⟩

/-- Control structures. -/
def controlRules : List Rule := [ifRule, whileRule, forRule, doRule, untilRule]

/-- A call of a method of a named object. -/
def callRule : Rule :=
  ⟨group 1 word ++ "." ++ group 2 word ++ "(" ++ group 3 someOfLine ++ ");",
   [.group 1, ".", .group 2, "(", .group 3, ")"]⟩

/-- The result of a method. -/
def returnRule : Rule :=
  ⟨wordEdge ++ "return" ++ blanks1 ++ group 1 someOfLine ++ ";", ["return ", .group 1]⟩

/-- A declared new object, kept by its address. -/
def declaredObjectRule : Rule :=
  ⟨group 1 word ++ gap1 ++ group 2 word ++ blanks ++ "=" ++ blanks ++ "new" ++ blanks1
      ++ group 3 word ++ "(" ++ group 4 someOfLine ++ ");",
   [.group 2, " := &", .group 3, "\x7b", .group 4, "\x7d"]⟩

/-- Any other new object, a plain composite literal. -/
def newObjectRule : Rule :=
  ⟨wordEdge ++ "new" ++ blanks1 ++ group 1 word ++ "(" ++ group 2 someOfLine ++ ")",
   [.group 1, "\x7b", .group 2, "\x7d"]⟩

/-- New objects. -/
def constructionRules : List Rule := [declaredObjectRule, newObjectRule]

/-! ## Typed declarations -/

/-- Words that begin a statement but name no type. -/
def nonTypeWords : List Text :=
  ["return", "new", "throw", "else", "case", "package", "import", "goto"]

/-- A type, a name and a value at the start of a statement, up to its semicolon. The value may hold
string literals with semicolons. The semicolon stays, so that the statement after it still begins
behind one. -/
def declarationPattern : Pattern :=
  group 1 (lineStart ||| oneOf ";\x7b\x7d") ++ group 2 gap ++ group 3 word ++ gap1
    ++ group 4 word ++ gap ++ "=" ++ gap
    ++ group 5 ((stringLiteral ||| noneOf ";=\n\"") ++ many (stringLiteral ||| noneOf ";\n\""))

/-- What a declaration becomes. One whose value is a new object is left to the construction
rules. -/
def recastDeclaration (m : Match) : Text :=
  if nonTypeWords.elem (m.group 3) || (m.group 5).startsWith "new " then m.group 0
  else m.group 1 ++ m.group 2 ++ m.group 4 ++ " := " ++ (m.group 5).trimEnd

/-- A text with its typed declarations recast. -/
def recastDeclarations (t : Text) : Text := declarationPattern.replaceAll recastDeclaration t

end GoDraft
