import GoDraft.Text.Basic

/-!
# GoDraft — types

The Go types of the Java types that have one, and a sample value for each. Other names, mostly those
of classes, are kept.
-/

namespace GoDraft

/-- What is known about a Java type: its name, its Go type and a sample value. -/
structure TypeEntry where
  java : Text
  go : Text
  sample : Option Text

/-- The Java types with a Go type. -/
def typeTable : List TypeEntry :=
  [⟨"int", "int", some "0"⟩,
   ⟨"long", "int64", some "0"⟩,
   ⟨"float", "float32", some "0.0"⟩,
   ⟨"double", "float64", some "0.0"⟩,
   ⟨"boolean", "bool", some "false"⟩,
   ⟨"String", "string", some "\"\""⟩,
   ⟨"char", "rune", some "'a'"⟩,
   ⟨"byte", "byte", some "0"⟩,
   ⟨"short", "int16", some "0"⟩,
   ⟨"void", "", none⟩,
   ⟨"Object", "interface\x7b\x7d", none⟩,
   ⟨"Integer", "int", some "0"⟩,
   ⟨"Long", "int64", some "0"⟩,
   ⟨"Float", "float32", some "0.0"⟩,
   ⟨"Double", "float64", some "0.0"⟩,
   ⟨"Boolean", "bool", some "false"⟩,
   ⟨"Character", "rune", some "'a'"⟩,
   ⟨"Byte", "byte", some "0"⟩,
   ⟨"Short", "int16", some "0"⟩]

/-- What is known about a type. -/
def knownType? (java : Text) : Option TypeEntry := typeTable.find? (·.java == java)

/-- The Go type of a Java type; empty for `void`. -/
def goType (java : Text) : Text :=
  match knownType? java with
  | some entry => entry.go
  | none => java

/-- A Go value of a Java type, `nil` where no other is known. -/
def sampleValue (java : Text) : Text := ((knownType? java).bind TypeEntry.sample).getD "nil"

end GoDraft
