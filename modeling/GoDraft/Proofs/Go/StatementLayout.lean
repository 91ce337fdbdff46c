import GoDraft.Proofs.Body.Translation
import GoDraft.Proofs.Go.Blocks
import GoDraft.Proofs.Go.Layout

/-!
# GoDraft — the layout of statements

Laying out looks at nothing but the first and the last character of a line. For the lines that statements become
this is enough: the braces at the ends of lines open and close where the blocks of the statements do, and the
braces of a new object do not count, since no line begins or ends with the wrong one. So every line stands at the
depth of its statement.

* `Statements.goAt` — the Go lines of statements, each with the depth it belongs to;
* `opensLevel_header`, `keepsLevel_simple` — what a line does to the level;
* `layoutFrom_goAt` — statements are laid out by their depth;
* `reindent_mainDecl_indentedText` — the same for `main` as a whole.
-/

namespace GoDraft

/-! ## Lines with their depth -/

/-- The Go lines of statements that stand at a depth, each with its own depth. The lines of a block are one
deeper than its header and its end. The condition of a loop that has it last is a block inside the loop. -/
def Statements.goAt {γ : Type} (depth : Nat) : Statements γ → List (Nat × Text)
  | done => []
  | simple s _ next => (depth, s.go) :: next.goAt depth
  | block h _ body _ next =>
    (depth, h.go) :: (body.goAt (depth + 1) ++ (depth, ("\x7d" : Text)) :: next.goAt depth)
  | branches c _ body _ other _ next =>
    (depth, (Header.branch c).go)
      :: (body.goAt (depth + 1) ++ (depth, ("\x7d else \x7b" : Text))
        :: (other.goAt (depth + 1) ++ (depth, ("\x7d" : Text)) :: next.goAt depth))
  | repeated _ body c _ next =>
    (depth, ("for \x7b" : Text))
      :: (body.goAt (depth + 1) ++ (depth + 1, ("if !(" ++ c.text ++ ") \x7b" : Text))
        :: (depth + 2, ("break" : Text)) :: (depth + 1, ("\x7d" : Text)) :: (depth, ("\x7d" : Text))
        :: next.goAt depth)

/-- The depths belong to the lines of the structural translation. -/
theorem Statements.map_snd_goAt {γ : Type} (p : Statements γ) (depth : Nat) :
    (p.goAt depth).map Prod.snd = p.go := by
  induction p generalizing depth with
  | done => rfl
  | simple s _ next ih => rw [goAt, List.map_cons, ih, go]
  | block h _ body _ next ihbody ih =>
    rw [goAt, List.map_cons, List.map_append, List.map_cons, ihbody, ih, go]
  | branches c _ body _ other _ next ihbody ihother ih =>
    rw [goAt, List.map_cons, List.map_append, List.map_cons, List.map_append, List.map_cons, ihbody, ihother, ih, go]
  | repeated _ body c _ next ihbody ih =>
    simp only [goAt, List.map_cons, List.map_append, ihbody, ih, go]

/-- A line behind the tabs of its depth. -/
def tabbed (x : Nat × Text) : Text := tabs x.1 ++ x.2

/-! ## What a line does to the level -/

/-- A line that is laid out at the level it meets and leaves the level as it is. -/
structure KeepsLevel (line : Text) : Prop where
  ne_nil : line ≠ []
  head : line.head? ≠ some '}'
  last : line.getLast? ≠ some '{'

/-- A line that is laid out at the level it meets and opens a block. -/
structure OpensLevel (line : Text) : Prop where
  ne_nil : line ≠ []
  head : line.head? ≠ some '}'
  last : line.getLast? = some '{'

section Level

variable {line : Text} (level : Nat) (rest : List Text)

theorem layoutFrom_keepsLevel (h : KeepsLevel line) :
    layoutFrom level (line :: rest) = tabbed (level, line) ++ "\n" ++ layoutFrom level rest := by
  have hlevel : lineLevel level line = level := if_neg h.head
  have hnext : nextLevel level line = level := by rw [nextLevel, if_neg h.last, hlevel]
  rw [layoutFrom_cons level h.ne_nil, hlevel, hnext]
  simp [tabbed]

theorem layoutFrom_opensLevel (h : OpensLevel line) :
    layoutFrom level (line :: rest) = tabbed (level, line) ++ "\n" ++ layoutFrom (level + 1) rest := by
  have hlevel : lineLevel level line = level := if_neg h.head
  have hnext : nextLevel level line = level + 1 := by rw [nextLevel, if_pos h.last, hlevel]
  rw [layoutFrom_cons level h.ne_nil, hlevel, hnext]
  simp [tabbed]

theorem layoutFrom_closing : layoutFrom (level + 1) (("\x7d" : Text) :: rest) =
    tabbed (level, ("\x7d" : Text)) ++ "\n" ++ layoutFrom level rest := by
  rw [layoutFrom_cons (level + 1) (by decide)]
  simp [tabbed, lineLevel, nextLevel]

theorem layoutFrom_closingElse : layoutFrom (level + 1) (("\x7d else \x7b" : Text) :: rest) =
    tabbed (level, ("\x7d else \x7b" : Text)) ++ "\n" ++ layoutFrom (level + 1) rest := by
  rw [layoutFrom_cons (level + 1) (by decide)]
  simp [tabbed, lineLevel, nextLevel]

end Level

theorem KeepsLevel.of_ends {line : Text} {c d : Char} (hhead : line.head? = some c) (hlast : line.getLast? = some d)
    (hc : c ≠ '}') (hd : d ≠ '{') : KeepsLevel line where
  ne_nil := by
    rintro rfl
    cases hhead
  head := by simpa [hhead] using hc
  last := by simpa [hlast] using hd

theorem Name.exists_ends (n : Name) :
    ∃ c d, n.text.head? = some c ∧ n.text.getLast? = some d ∧ c ≠ '}' ∧ d ≠ '{' := by
  obtain ⟨c, hc⟩ := Option.isSome_iff_exists.mp (List.isSome_head?.mpr n.nonempty)
  obtain ⟨d, hd⟩ := Option.isSome_iff_exists.mp (List.getLast?_isSome.mpr n.nonempty)
  have hclose : '}' ∉ nameChars := by decide
  have hopen : '{' ∉ nameChars := by decide
  refine ⟨c, d, hc, hd, ?_, ?_⟩
  · rintro rfl
    exact hclose (n.plain _ (List.mem_of_head? hc))
  · rintro rfl
    exact hopen (n.plain _ (List.mem_of_getLast? hd))

theorem keepsLevel_simple (s : Simple) : KeepsLevel s.go := by
  unfold Simple.go
  match s with
  | .declare _ name value | .assign name value =>
    obtain ⟨c, -, hc, -, hne, -⟩ := name.exists_ends
    obtain ⟨-, d, -, hd, -, hne'⟩ := value.exists_ends
    exact .of_ends (by simp [hc]) (by simp [hd, List.getLast?_cons]) hne hne'
  | .increment name =>
    obtain ⟨c, -, hc, -, hne, -⟩ := name.exists_ends
    exact .of_ends (d := '+') (by simp [hc]) (by simp) hne (by decide)
  | .print value =>
    exact .of_ends (c := 'f') (d := ')') rfl (by simp [List.getLast?_cons]) (by decide) (by decide)
  | .giveBack value =>
    obtain ⟨-, d, -, hd, -, hne⟩ := value.exists_ends
    exact .of_ends (c := 'r') rfl (by simp [hd, List.getLast?_cons]) (by decide) hne
  | .construct _ name made arguments =>
    -- the line ends with a brace, but with a closing one
    obtain ⟨c, -, hc, -, hne, -⟩ := name.exists_ends
    exact .of_ends (d := '}') (by simp [hc]) (by simp [List.getLast?_cons]) hne (by decide)

theorem opensLevel_header (h : Header) : OpensLevel h.go := by
  unfold Header.go
  cases h <;> exact ⟨by simp, by simp, by simp [List.getLast?_cons]⟩

/-! ## The layout of statements -/

/-- **Statements are laid out by their depth**: from the level of their depth on, every line gets the tabs of its
own depth, and the level behind them is the one before. -/
theorem layoutFrom_goAt {γ : Type} (p : Statements γ) (depth : Nat) (rest : List Text) :
    layoutFrom depth (p.go ++ rest) = written ((p.goAt depth).map tabbed) ++ layoutFrom depth rest := by
  have hdo : OpensLevel "for \x7b" := ⟨by decide, by decide, by decide⟩
  have hbreak : KeepsLevel "break" := ⟨by decide, by decide, by decide⟩
  have huntil (c : Condition) : OpensLevel ("if !(" ++ (c.text ++ ") \x7b")) :=
    ⟨by simp, by simp, by simp [List.getLast?_cons]⟩
  induction p generalizing depth rest with
  | done => rfl
  | simple s _ next ih =>
    simp only [Statements.go, Statements.goAt, List.cons_append, List.append_assoc, List.map_cons, written_cons,
      layoutFrom_keepsLevel _ _ (keepsLevel_simple s), ih]
  | block h _ body _ next ihbody ih =>
    simp only [Statements.go, Statements.goAt, List.cons_append, List.append_assoc, List.map_cons, List.map_append,
      written_cons, written_append, layoutFrom_opensLevel _ _ (opensLevel_header h), ihbody, layoutFrom_closing, ih]
  | branches c _ body _ other _ next ihbody ihother ih =>
    simp only [Statements.go, Statements.goAt, List.cons_append, List.append_assoc, List.map_cons, List.map_append,
      written_cons, written_append, layoutFrom_opensLevel _ _ (opensLevel_header (.branch c)), ihbody,
      layoutFrom_closingElse, ihother, layoutFrom_closing, ih]
  | repeated _ body c _ next ihbody ih =>
    simp only [Statements.go, Statements.goAt, List.cons_append, List.append_assoc, List.map_cons, List.map_append,
      written_cons, written_append, layoutFrom_opensLevel _ _ hdo, ihbody, layoutFrom_opensLevel _ _ (huntil c),
      layoutFrom_keepsLevel _ _ hbreak, layoutFrom_closing, ih]

/-! ## The characters of Go lines -/

/-- The characters of Go lines. No tab and no line feed is among them. -/
def goChars : Text := nameChars ++ " !&()+,.:;<=>\x7b\x7d"

theorem Name.mem_goChars (n : Name) : ∀ c ∈ n.text, c ∈ goChars := fun c hc =>
  List.mem_append_left _ (n.plain c hc)

theorem Condition.mem_goChars (c : Condition) : ∀ d ∈ c.text, d ∈ goChars := by
  have hspace : ∀ d ∈ " ".toList, d ∈ goChars := by decide
  have hsign : ∀ d ∈ c.comparison.text, d ∈ goChars := by cases c.comparison <;> decide
  simp only [Condition.text, List.forall_mem_append]
  exact ⟨⟨⟨⟨c.left.mem_goChars, hspace⟩, hsign⟩, hspace⟩, c.right.mem_goChars⟩

theorem mem_goChars_argumentText (arguments : List Name) : ∀ c ∈ argumentText arguments, c ∈ goChars := by
  refine Text.forall_mem_join (by decide) fun t ht => ?_
  obtain ⟨n, -, rfl⟩ := List.mem_map.mp ht
  exact n.mem_goChars

theorem Simple.mem_goChars (s : Simple) : ∀ c ∈ s.go, c ∈ goChars := by
  unfold Simple.go
  match s with
  | .declare _ name value | .assign name value =>
    simp only [List.forall_mem_append]
    exact ⟨⟨name.mem_goChars, by decide⟩, value.mem_goChars⟩
  | .increment name => exact List.forall_mem_append.mpr ⟨name.mem_goChars, by decide⟩
  | .print value =>
    simp only [List.forall_mem_append]
    exact ⟨⟨by decide, value.mem_goChars⟩, by decide⟩
  | .giveBack value => exact List.forall_mem_append.mpr ⟨by decide, value.mem_goChars⟩
  | .construct _ name made arguments =>
    simp only [List.forall_mem_append]
    exact ⟨⟨⟨⟨⟨name.mem_goChars, by decide⟩, made.mem_goChars⟩, by decide⟩, mem_goChars_argumentText arguments⟩,
      by decide⟩

theorem Header.mem_goChars (h : Header) : ∀ c ∈ h.go, c ∈ goChars := by
  unfold Header.go
  match h with
  | .branch c | .loop c =>
    simp only [List.forall_mem_append]
    exact ⟨⟨by decide, c.mem_goChars⟩, by decide⟩
  | .count _ name start c next =>
    simp only [List.forall_mem_append]
    exact ⟨⟨⟨⟨⟨⟨⟨⟨by decide, name.mem_goChars⟩, by decide⟩, start.mem_goChars⟩, by decide⟩, c.mem_goChars⟩,
      by decide⟩, next.mem_goChars⟩, by decide⟩

theorem Statements.mem_goChars {γ : Type} (p : Statements γ) : ∀ line ∈ p.go, ∀ c ∈ line, c ∈ goChars := by
  induction p with
  | done => exact fun _ hline => absurd hline List.not_mem_nil
  | simple s _ next ih =>
    simp only [go, List.forall_mem_cons]
    exact ⟨s.mem_goChars, ih⟩
  | block h _ body _ next ihbody ih =>
    simp only [go, List.forall_mem_cons, List.forall_mem_append]
    exact ⟨h.mem_goChars, ihbody, by decide, ih⟩
  | branches c _ body _ other _ next ihbody ihother ih =>
    simp only [go, List.forall_mem_cons, List.forall_mem_append]
    exact ⟨(Header.branch c).mem_goChars, ihbody, by decide, ihother, by decide, ih⟩
  | repeated _ body c _ next ihbody ih =>
    simp only [go, List.forall_mem_cons, List.forall_mem_append]
    exact ⟨by decide, ihbody, ⟨⟨by decide, c.mem_goChars⟩, by decide⟩, by decide, by decide, by decide, ih⟩

/-! ## The layout of `main` -/

theorem trim_go {γ : Type} (p : Statements γ) : ∀ line ∈ p.go, Text.trim (indent ++ line) = line := by
  intro line hline
  rw [← p.flatMap_go_lines] at hline
  obtain ⟨l, -, hl⟩ := List.mem_flatMap.mp hline
  have hends := l.go_ends line hl
  have htrim : Text.trim (indent ++ (line ++ [])) = line := trim_of_ends (by decide) (by decide) hends.1 hends.2
  rwa [List.append_nil] at htrim

theorem trimmedLines_indented {lines : List Text} (hone : ∀ line ∈ lines, '\n' ∉ line)
    (htrim : ∀ line ∈ lines, Text.trim (indent ++ line) = line) (t : Text) :
    Text.trimmedLines (lines.flatMap (fun line => (indent ++ line ++ "\n" : Text)) ++ t) = lines ++ t.trimmedLines := by
  induction lines with
  | nil => rfl
  | cons line rest ih =>
    rw [List.forall_mem_cons] at hone htrim
    have hline : '\n' ∉ indent ++ line := List.not_mem_append (by decide) hone.1
    have hnewline : ("\n" : Text) = ['\n'] := rfl
    rw [List.flatMap_cons, List.append_assoc, hnewline, List.append_assoc (indent ++ line), List.singleton_append,
      Text.trimmedLines_append_newline hline, htrim.1, ← hnewline, ih hone.2 htrim.2, List.cons_append]

/-- What is read of `main` are the lines of its statements, without their indentation. -/
theorem trimmedLines_mainText {lines : List Text} (hone : ∀ line ∈ lines, '\n' ∉ line)
    (htrim : ∀ line ∈ lines, Text.trim (indent ++ line) = line) :
    (mainText lines).trimmedLines = ("func main() \x7b" : Text) :: (lines ++ [("\x7d" : Text)]) := by
  have hfirst : Text.trim "func main() \x7b" = "func main() \x7b" := by decide
  have hlast : Text.trimmedLines "\x7d" = [("\x7d" : Text)] := by decide
  have hsplit : mainText lines = "func main() \x7b".toList ++
      '\n' :: (lines.flatMap (fun line => (indent ++ line ++ "\n" : Text)) ++ "\x7d".toList) := by
    unfold mainText
    simp
  rw [hsplit, Text.trimmedLines_append_newline (by decide), trimmedLines_indented hone htrim, hfirst, hlast]

theorem count_tab_tabbed {depth : Nat} {line : Text} (h : '\t' ∉ line) :
    (tabbed (depth, line)).count '\t' = depth := by
  have hall : (tabs depth).count '\t' = (tabs depth).length :=
    List.count_eq_length.mpr fun c hc => (eq_tab_of_mem_tabs c hc).symm
  have hlength : (tabs depth).length = depth := by simp [tabs, layoutUnit]
  rw [tabbed, List.count_append, List.count_eq_zero_of_not_mem h, hall, hlength, Nat.add_zero]

/-- **Recasting and laying out recover the nesting**: of statements on lines of their own, however they are
indented, `main` is laid out with the lines of the structural translation, each behind as many tabs as its depth
in the statements and one more, and with no other tab in it. -/
theorem reindent_mainDecl_indentedText {γ : Type} (settings : Settings) (p : Statements γ) (indents : Nat → Gap)
    (trail : Spacing) :
    reindent (mainDecl settings (indentedText indents p.java ++ trail.text)) =
        written ("func main() \x7b" :: ((p.goAt 1).map tabbed ++ [("\x7d" : Text)])) ∧
      (p.goAt 1).map Prod.snd = p.go ∧
      ∀ x ∈ p.goAt 1, '\n' ∉ x.2 ∧ (tabbed x).count '\t' = x.1 := by
  have hplain {c : Char} (hc : c ∉ goChars) : ∀ line ∈ p.go, c ∉ line := fun line hline hmem =>
    hc (p.mem_goChars line hline c hmem)
  refine ⟨?_, p.map_snd_goAt 1, ?_⟩
  · have hmain : OpensLevel "func main() \x7b" := ⟨by decide, by decide, by decide⟩
    rw [mainDecl_indentedText, reindent, ← Text.trimmedLines, trimmedLines_mainText (hplain (by decide)) (trim_go p),
      layoutFrom_opensLevel 0 _ hmain, layoutFrom_goAt, layoutFrom_closing, written_cons, written_append,
      List.append_assoc]
    rfl
  · intro x hx
    have hline : x.2 ∈ p.go := p.map_snd_goAt 1 ▸ List.mem_map_of_mem hx
    exact ⟨hplain (by decide) x.2 hline, count_tab_tabbed (hplain (by decide) x.2 hline)⟩

end GoDraft
