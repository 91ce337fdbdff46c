import GoDraft.Text.Basic

/-!
# GoDraft — samples

Java sources to try things out with.

* `Sample.all` — the samples;
* `Sample.find?` — the sample with a name.
-/

namespace GoDraft

/-- A Java source with a name. -/
structure Sample where
  name : Text
  description : Text
  content : Text
  deriving DecidableEq, Repr

namespace Sample

/-- A text of whole lines. -/
def ofLines (lines : List String) : Text := lines.flatMap fun line => line.toList ++ ['\n']

/-- A greeting. -/
def helloWorld : Text :=
  ofLines
    ["public class HelloWorld \x7b",
     "    public static void main(String[] args) \x7b",
     "        System.out.println(\"Hello, Go world!\");",
     "    \x7d",
     "\x7d"]

/-- A class with fields, getters and a method. -/
def simpleClass : Text :=
  ofLines
    ["public class Person \x7b",
     "    private String name;",
     "    private int age;",
     "",
     "    public Person(String name, int age) \x7b",
     "        this.name = name;",
     "        this.age = age;",
     "    \x7d",
     "",
     "    public String getName() \x7b",
     "        return name;",
     "    \x7d",
     "",
     "    public int getAge() \x7b",
     "        return age;",
     "    \x7d",
     "",
     "    public void greet() \x7b",
     "        System.out.println(\"Hello, my name is \" + name);",
     "    \x7d",
     "\x7d"]

/-- Two loops. -/
def forLoop : Text :=
  ofLines
    ["public class LoopExample \x7b",
     "    public static void main(String[] args) \x7b",
     "        // Simple for loop",
     "        for (int i = 0; i < 10; i++) \x7b",
     "            System.out.println(\"Count: \" + i);",
     "        \x7d",
     "",
     "        // While loop",
     "        int j = 0;",
     "        while (j < 5) \x7b",
     "            System.out.println(\"While: \" + j);",
     "            j++;",
     "        \x7d",
     "    \x7d",
     "\x7d"]

/-- Methods that are called from the main method. -/
def methodExample : Text :=
  ofLines
    ["public class Calculator \x7b",
     "    public int add(int a, int b) \x7b",
     "        return a + b;",
     "    \x7d",
     "",
     "    public int subtract(int a, int b) \x7b",
     "        return a - b;",
     "    \x7d",
     "",
     "    public double divide(int a, int b) \x7b",
     "        if (b == 0) \x7b",
     "            throw new ArithmeticException(\"Cannot divide by zero\");",
     "        \x7d",
     "        return (double) a / b;",
     "    \x7d",
     "",
     "    public static void main(String[] args) \x7b",
     "        Calculator calc = new Calculator();",
     "        System.out.println(\"5 + 3 = \" + calc.add(5, 3));",
     "        System.out.println(\"10 - 4 = \" + calc.subtract(10, 4));",
     "        System.out.println(\"15 / 2 = \" + calc.divide(15, 2));",
     "    \x7d",
     "\x7d"]

/-- All samples. -/
def all : List Sample :=
  [⟨"empty", "Empty source file", []⟩,
   ⟨"hello-world", "Class with a main method printing a greeting", helloWorld⟩,
   ⟨"simple-class", "Class with fields, a constructor, getters, and a method", simpleClass⟩,
   ⟨"for-loop", "Main method with for and while loops", forLoop⟩,
   ⟨"method-example", "Calculator class with methods called from main", methodExample⟩]

/-- The name of the sample that is meant when none is named. -/
def usualName : Text := "hello-world"

/-- The sample with a name. -/
def find? (name : Text) : Option Sample := all.find? (·.name == name)

/-- A text filled up with spaces to a width. -/
def padded (width : Nat) (t : Text) : Text := t ++ List.replicate (width - t.length) ' '

/-- The line of a sample in the list of all. -/
def listLine (s : Sample) : Text :=
  let name := if s.name = usualName then s.name ++ " (default)" else s.name
  "  " ++ padded 24 name ++ " " ++ s.description ++ "\n"

end Sample

end GoDraft
