import GoDraft.Proofs.Body.Statement

/-!
# GoDraft — lines of statements

Recast line by line, a list of statements is a list of lines. Each line has its Java form, the form the
rules leave it in, and its Go form. A line takes its new form at one rule, in the order in which the
rules are applied, and no other rule touches it.

* `Line`, `Line.java`, `Line.recast` — lines and their forms before and after the rules;
* `Line.turn`, `Line.form` — the rule at which a line changes, and its form in between;
* `Line.tokens`, `Line.spell_tokens` — the tokens of a line in every form;
* `Line.mem_chars` — the characters of a line in every form.
-/

namespace GoDraft

/-- Spaces and tabs. -/
structure Gap where
  text : Text
  isGap : ∀ c ∈ text, isGap c = true

/-- No space at all. -/
def Gap.empty : Gap := ⟨[], fun _ h => absurd h List.not_mem_nil⟩

theorem eq_of_isGap {c : Char} (h : isGap c = true) : c = ' ' ∨ c = '\t' := by
  rw [isGap, Bool.or_eq_true, beq_iff_eq, beq_iff_eq] at h
  exact h

theorem mem_of_isGap {c : Char} (h : isGap c = true) : c ∈ " \t\n".toList := by
  rcases eq_of_isGap h with rfl | rfl <;> decide

theorem isWordChar_of_isGap {c : Char} (h : isGap c = true) : isWordChar c = false := by
  rcases eq_of_isGap h with rfl | rfl <;> decide

/-- A line of a list of statements. -/
inductive Line where
  | simple (s : Simple)
  | opening (h : Header)
  | openingDo
  | closing
  | closingElse
  | closingWhile (c : Condition)
  /-- The end of a block and the header of a loop behind it. -/
  | joint (gap : Gap) (c : Condition)

namespace Line

/-- The Java form of a line. -/
def java : Line → Text
  | simple s => s.java
  | opening h => h.java
  | openingDo => "do \x7b"
  | closing => "\x7d"
  | closingElse => "\x7d else \x7b"
  | closingWhile c => "\x7d while (" ++ c.text ++ ");"
  | joint gap c => "\x7d" ++ gap.text ++ (Header.loop c).java

/-- The form in which the rules leave a line. -/
def recast : Line → Text
  | simple (.declare type name value) => (Simple.declare type name value).go ++ ";"
  | simple (.assign name value) => (Simple.assign name value).go ++ ";"
  | simple (.increment name) => (Simple.increment name).go ++ ";"
  | simple s => s.go
  | opening h => h.go
  | openingDo => "for \x7b"
  | closing => "\x7d"
  | closingElse => "\x7d else \x7b"
  | closingWhile c => "if !(" ++ c.text ++ ") \x7b\nbreak\n\x7d\n\x7d"
  | joint gap c => "\x7d" ++ gap.text ++ (Header.loop c).go

/-- The Go lines of a line. -/
def go : Line → List Text
  | simple s => [s.go]
  | opening h => [h.go]
  | openingDo => ["for \x7b"]
  | closing => ["\x7d"]
  | closingElse => ["\x7d else \x7b"]
  | closingWhile c => ["if !(" ++ c.text ++ ") \x7b", "break", "\x7d", "\x7d"]
  | joint gap c => ["\x7d" ++ gap.text ++ (Header.loop c).go]

/-- The rule at which a line takes its new form, counted in the order of the rules; zero for a line that
stays as it is. -/
def turn : Line → Nat
  | simple (.print _) => 1
  | simple (.declare _ _ _) => 2
  | opening (.branch _) => 3
  | opening (.loop _) | joint _ _ => 4
  | opening (.count _ _ _ _ _) => 5
  | openingDo => 6
  | closingWhile _ => 7
  | simple (.giveBack _) => 8
  | simple (.construct _ _ _ _) => 9
  | simple (.assign _ _) | simple (.increment _) | closing | closingElse => 0

/-- The lines that take their new form at a rule. -/
theorem eq_of_turn (l : Line) :
    match l.turn with
    | 1 => ∃ value, l = simple (.print value)
    | 2 => ∃ type name value, l = simple (.declare type name value)
    | 3 => ∃ c, l = opening (.branch c)
    | 4 => ∃ c, l = opening (.loop c) ∨ ∃ gap, l = joint gap c
    | 5 => ∃ type name start c next, l = opening (.count type name start c next)
    | 6 => l = openingDo
    | 7 => ∃ c, l = closingWhile c
    | 8 => ∃ value, l = simple (.giveBack value)
    | 9 => ∃ type name made arguments, l = simple (.construct type name made arguments)
    | _ => True := by
  cases l with
  | simple s => cases s <;> simp [turn]
  | opening h => cases h <;> simp [turn]
  | _ => simp [turn]

/-- The form of a line after the first `k` rules. -/
def form (k : Nat) (l : Line) : Text := if l.turn ≤ k then l.recast else l.java

theorem form_of_lt {k : Nat} {l : Line} (h : k < l.turn) : l.form k = l.java :=
  if_neg (Nat.not_le.mpr h)

theorem form_of_le {k : Nat} {l : Line} (h : l.turn ≤ k) : l.form k = l.recast := if_pos h

/-- Only the line whose turn it is changes. -/
theorem form_succ_of_ne {k : Nat} {l : Line} (h : l.turn ≠ k + 1) : l.form (k + 1) = l.form k := by
  unfold form
  by_cases hk : l.turn ≤ k
  · rw [if_pos hk, if_pos (by omega)]
  · rw [if_neg hk, if_neg (by omega)]

/-- Before the rules a line has its Java form. -/
theorem form_zero (l : Line) : l.form 0 = l.java := by
  by_cases h : 0 < l.turn
  · exact form_of_lt h
  · rw [form_of_le (Nat.not_lt.mp h)]
    cases l with
    | simple s =>
      cases s with
      | assign name value => rfl
      | increment name =>
        unfold recast java Simple.go Simple.java
        simp
      | _ => exact absurd (by simp [turn]) h
    | opening o => cases o <;> exact absurd (by simp [turn]) h
    | closing => rfl
    | closingElse => rfl
    | _ => exact absurd (by simp [turn]) h

theorem form_joint (k : Nat) (gap : Gap) (c : Condition) :
    (joint gap c).form k = '}' :: (gap.text ++ (opening (.loop c)).form k) := by
  have hjoint : (joint gap c).turn = 4 := rfl
  have hloop : (opening (.loop c)).turn = 4 := rfl
  by_cases h : 4 ≤ k
  · rw [form_of_le (by omega), form_of_le (by omega)]
    rfl
  · rw [form_of_lt (by omega), form_of_lt (by omega)]
    rfl

/-! ## The tokens of a line -/

/-- The tokens of a condition and what follows it. -/
def conditionTokens (c : Condition) (ts : List Token) : List Token :=
  .name c.left :: .mark ' ' :: (marks c.comparison.text ++ .mark ' ' :: .name c.right :: ts)

/-- The tokens of a list of arguments. -/
def argumentTokens : List Name → List Token
  | [] => []
  | [n] => [.name n]
  | n :: ns => .name n :: .mark ',' :: .mark ' ' :: argumentTokens ns

/-- The tokens of the Java form. -/
def javaTokens : Line → List Token
  | simple (.declare type name value) =>
    [.name type, .mark ' ', .name name, .mark ' ', .mark '=', .mark ' ', .name value, .mark ';']
  | simple (.assign name value) => [.name name, .mark ' ', .mark '=', .mark ' ', .name value, .mark ';']
  | simple (.increment name) => [.name name, .mark '+', .mark '+', .mark ';']
  | simple (.print value) =>
    [.keyword "System", .mark '.', .keyword "out", .mark '.', .keyword "println", .mark '(', .name value,
     .mark ')', .mark ';']
  | simple (.giveBack value) => [.keyword "return", .mark ' ', .name value, .mark ';']
  | simple (.construct type name made arguments) =>
    [.name type, .mark ' ', .name name, .mark ' ', .mark '=', .mark ' ', .keyword "new", .mark ' ',
      .name made, .mark '('] ++ argumentTokens arguments ++ [.mark ')', .mark ';']
  | opening (.branch c) =>
    .keyword "if" :: .mark ' ' :: .mark '(' :: conditionTokens c [.mark ')', .mark ' ', .mark '{']
  | opening (.loop c) =>
    .keyword "while" :: .mark ' ' :: .mark '(' :: conditionTokens c [.mark ')', .mark ' ', .mark '{']
  | opening (.count type name start c next) =>
    .keyword "for" :: .mark ' ' :: .mark '(' :: .name type :: .mark ' ' :: .name name :: .mark ' '
      :: .mark '=' :: .mark ' ' :: .name start :: .mark ';' :: .mark ' '
      :: conditionTokens c [.mark ';', .mark ' ', .name next, .mark '+', .mark '+', .mark ')', .mark ' ',
        .mark '{']
  | openingDo => [.keyword "do", .mark ' ', .mark '{']
  | closing => [.mark '}']
  | closingElse => [.mark '}', .mark ' ', .keyword "else", .mark ' ', .mark '{']
  | closingWhile c =>
    .mark '}' :: .mark ' ' :: .keyword "while" :: .mark ' ' :: .mark '('
      :: conditionTokens c [.mark ')', .mark ';']
  | joint gap c =>
    .mark '}' :: (marks gap.text ++ .keyword "while" :: .mark ' ' :: .mark '('
      :: conditionTokens c [.mark ')', .mark ' ', .mark '{'])

/-- The tokens of the form after the rules. -/
def recastTokens : Line → List Token
  | simple (.declare _ name value) =>
    [.name name, .mark ' ', .mark ':', .mark '=', .mark ' ', .name value, .mark ';']
  | simple (.print value) =>
    [.keyword "fmt", .mark '.', .keyword "Println", .mark '(', .name value, .mark ')']
  | simple (.giveBack value) => [.keyword "return", .mark ' ', .name value]
  | simple (.construct _ name made arguments) =>
    [.name name, .mark ' ', .mark ':', .mark '=', .mark ' ', .mark '&', .name made, .mark '{']
      ++ argumentTokens arguments ++ [.mark '}']
  | opening (.branch c) => .keyword "if" :: .mark ' ' :: conditionTokens c [.mark ' ', .mark '{']
  | opening (.loop c) => .keyword "for" :: .mark ' ' :: conditionTokens c [.mark ' ', .mark '{']
  | opening (.count _ name start c next) =>
    .keyword "for" :: .mark ' ' :: .name name :: .mark ' ' :: .mark ':' :: .mark '=' :: .mark ' '
      :: .name start :: .mark ';' :: .mark ' '
      :: conditionTokens c [.mark ';', .mark ' ', .name next, .mark '+', .mark '+', .mark ' ', .mark '{']
  | openingDo => [.keyword "for", .mark ' ', .mark '{']
  | closingWhile c =>
    .keyword "if" :: .mark ' ' :: .mark '!' :: .mark '('
      :: conditionTokens c [.mark ')', .mark ' ', .mark '{', .mark '\n', .keyword "break", .mark '\n',
        .mark '}', .mark '\n', .mark '}']
  | joint gap c =>
    .mark '}' :: (marks gap.text ++ .keyword "for" :: .mark ' '
      :: conditionTokens c [.mark ' ', .mark '{'])
  | l => l.javaTokens

/-- The tokens of a line after the first `k` rules. -/
def tokens (k : Nat) (l : Line) : List Token := if l.turn ≤ k then l.recastTokens else l.javaTokens

theorem spell_conditionTokens (c : Condition) (ts : List Token) :
    spell (conditionTokens c ts) = c.text ++ spell ts := by
  simp [conditionTokens, Condition.text, Token.text]

theorem spell_argumentTokens : ∀ arguments : List Name,
    spell (argumentTokens arguments) = argumentText arguments
  | [] => rfl
  | [n] => by simp [argumentTokens, argumentText, Text.join, Token.text]
  | n :: n' :: ns => by
    have ih := spell_argumentTokens (n' :: ns)
    have htokens : argumentTokens (n :: n' :: ns) =
        .name n :: .mark ',' :: .mark ' ' :: argumentTokens (n' :: ns) := rfl
    rw [htokens, spell_cons, spell_cons, spell_cons, ih]
    simp [argumentText, Text.join, Token.text]

theorem spell_javaTokens (l : Line) : spell l.javaTokens = l.java := by
  match l with
  | simple (.declare _ _ _) | simple (.assign _ _) | simple (.increment _) | simple (.print _)
  | simple (.giveBack _) | simple (.construct _ _ _ _) =>
    unfold java Simple.java
    simp [javaTokens, Token.text, spell_argumentTokens]
  | opening (.branch c) | opening (.loop c) | opening (.count _ _ _ c _) | joint gap c =>
    unfold java Header.java
    simp [javaTokens, Token.text, spell_conditionTokens]
  | openingDo | closing | closingElse | closingWhile c =>
    unfold java
    simp [javaTokens, Token.text, spell_conditionTokens]

theorem spell_recastTokens (l : Line) : spell l.recastTokens = l.recast := by
  match l with
  | simple (.declare _ _ _) | simple (.assign _ _) | simple (.increment _) | simple (.print _)
  | simple (.giveBack _) | simple (.construct _ _ _ _) =>
    unfold recast Simple.go
    simp [recastTokens, javaTokens, Token.text, spell_argumentTokens]
  | opening (.branch c) | opening (.loop c) | opening (.count _ _ _ c _) | joint gap c =>
    unfold recast Header.go
    simp [recastTokens, Token.text, spell_conditionTokens]
  | openingDo | closing | closingElse | closingWhile c =>
    unfold recast
    simp [recastTokens, javaTokens, Token.text, spell_conditionTokens]

theorem spell_tokens (k : Nat) (l : Line) : spell (l.tokens k) = l.form k := by
  unfold tokens form
  split
  · exact l.spell_recastTokens
  · exact l.spell_javaTokens

/-! ## Words and keywords of a line -/

theorem isSpaced_marks_append {m : Text} (hm : ∀ c ∈ m, isWordChar c = false) (ts : List Token) :
    isSpaced (marks m ++ ts) = isSpaced ts := by
  induction m with
  | nil => rfl
  | cons c m ih =>
    have hrest := ih fun d hd => hm d (List.mem_cons_of_mem c hd)
    rw [marks, List.map_cons, List.cons_append, isSpaced, hm c List.mem_cons_self, ← marks, hrest]
    rfl

theorem isSpaced_conditionTokens (c : Condition) (ts : List Token) :
    isSpaced (conditionTokens c ts) = (startsMark ts && isSpaced ts) := by
  have hsign : ∀ d ∈ c.comparison.text, isWordChar d = false := by
    cases c.comparison <;> decide
  have hspace : isWordChar ' ' = false := by decide
  simp only [conditionTokens, isSpaced, isSpaced_marks_append hsign, startsMark, hspace, Bool.not_false,
    Bool.true_and]

theorem isSpaced_argumentTokens (c : Char) (ts : List Token) : ∀ arguments : List Name,
    isSpaced (argumentTokens arguments ++ .mark c :: ts) = isSpaced (.mark c :: ts)
  | [] => rfl
  | [n] => by simp [argumentTokens, isSpaced, startsMark]
  | n :: n' :: ns => by
    have ih := isSpaced_argumentTokens c ts (n' :: ns)
    have hcomma : isWordChar ',' = false := by decide
    have hspace : isWordChar ' ' = false := by decide
    have htokens : argumentTokens (n :: n' :: ns) =
        .name n :: .mark ',' :: .mark ' ' :: argumentTokens (n' :: ns) := rfl
    simp only [htokens, List.cons_append, isSpaced, startsMark, hcomma, hspace, Bool.not_false,
      Bool.true_and] at ih ⊢
    exact ih

theorem isSpaced_arguments : ∀ arguments : List Name, isSpaced (argumentTokens arguments) = true
  | [] => rfl
  | [_] => rfl
  | n :: n' :: ns => by
    have ih := isSpaced_arguments (n' :: ns)
    have htokens : argumentTokens (n :: n' :: ns) =
        .name n :: .mark ',' :: .mark ' ' :: argumentTokens (n' :: ns) := rfl
    simp only [htokens, isSpaced, startsMark, ih]
    decide

theorem isSpaced_javaTokens (l : Line) : isSpaced l.javaTokens = true := by
  match l with
  | simple (.declare _ _ _) | simple (.assign _ _) | simple (.increment _) | simple (.print _)
  | simple (.giveBack _) | openingDo | closing | closingElse =>
    simp only [javaTokens, isSpaced, startsMark]
    decide
  | simple (.construct _ _ _ arguments) =>
    simp only [javaTokens, List.cons_append, List.nil_append, isSpaced, startsMark,
      isSpaced_argumentTokens]
    decide
  | opening (.branch c) | opening (.loop c) | opening (.count _ _ _ c _) | closingWhile c =>
    simp only [javaTokens, isSpaced, startsMark, isSpaced_conditionTokens]
    decide
  | joint gap c =>
    have hgap : ∀ d ∈ gap.text, isWordChar d = false := fun d hd => isWordChar_of_isGap (gap.isGap d hd)
    simp only [javaTokens, isSpaced, startsMark, isSpaced_marks_append hgap, isSpaced_conditionTokens]
    decide

theorem isSpaced_recastTokens (l : Line) : isSpaced l.recastTokens = true := by
  match l with
  | simple (.declare _ _ _) | simple (.print _) | simple (.giveBack _) | openingDo =>
    simp only [recastTokens, isSpaced, startsMark]
    decide
  | simple (.construct _ _ _ arguments) =>
    simp only [recastTokens, List.cons_append, List.nil_append, isSpaced, startsMark,
      isSpaced_argumentTokens]
    decide
  | opening (.branch c) | opening (.loop c) | opening (.count _ _ _ c _) | closingWhile c =>
    simp only [recastTokens, isSpaced, startsMark, isSpaced_conditionTokens]
    decide
  | joint gap c =>
    have hgap : ∀ d ∈ gap.text, isWordChar d = false := fun d hd => isWordChar_of_isGap (gap.isGap d hd)
    simp only [recastTokens, isSpaced, startsMark, isSpaced_marks_append hgap, isSpaced_conditionTokens]
    decide
  | simple (.assign _ _) | simple (.increment _) | closing | closingElse =>
    simp only [recastTokens]
    exact isSpaced_javaTokens _

theorem isSpaced_tokens (k : Nat) (l : Line) : isSpaced (l.tokens k) = true := by
  unfold tokens
  split
  · exact l.isSpaced_recastTokens
  · exact l.isSpaced_javaTokens

/-- The characters of lines. -/
def chars : Text := nameChars ++ " \t\n=+;:&.,()\x7b\x7d<>!"

section MarksAll

variable {p : Char → Bool}

theorem marksAll_gap (h : " \t".toList.all p = true) (g : Gap) : marksAll p (marks g.text) = true := by
  apply marksAll_marks
  intro c hc
  rw [List.all_eq_true] at h
  rcases eq_of_isGap (g.isGap c hc) with rfl | rfl
  · exact h _ (by decide)
  · exact h _ (by decide)

theorem marksAll_conditionTokens (h : " <>=!".toList.all p = true) (c : Condition) (ts : List Token) :
    marksAll p (conditionTokens c ts) = marksAll p ts := by
  rw [List.all_eq_true] at h
  have hsign : marksAll p (marks c.comparison.text) = true := by
    have hsub : ∀ d ∈ c.comparison.text, d ∈ " <>=!".toList := by
      cases c.comparison <;> decide
    exact marksAll_marks fun d hd => h d (hsub d hd)
  have hspace : p ' ' = true := h _ (by decide)
  simp [conditionTokens, hsign, hspace]

theorem marksAll_argumentTokens (h : ", ".toList.all p = true) :
    ∀ arguments : List Name, marksAll p (argumentTokens arguments) = true
  | [] => rfl
  | [_] => rfl
  | n :: n' :: ns => by
    have ih := marksAll_argumentTokens h (n' :: ns)
    rw [List.all_eq_true] at h
    have hcomma : p ',' = true := h _ (by decide)
    have hspace : p ' ' = true := h _ (by decide)
    have htokens : argumentTokens (n :: n' :: ns) =
        .name n :: .mark ',' :: .mark ' ' :: argumentTokens (n' :: ns) := rfl
    simp [htokens, ih, hcomma, hspace]

end MarksAll

theorem marksAll_javaTokens (l : Line) : marksAll chars.elem l.javaTokens = true := by
  match l with
  | simple (.declare _ _ _) | simple (.assign _ _) | simple (.increment _) | simple (.print _)
  | simple (.giveBack _) | openingDo | closing | closingElse =>
    simp only [javaTokens, marksAll_name, marksAll_keyword, marksAll_mark, marksAll_nil]
    decide
  | simple (.construct _ _ _ arguments) =>
    simp only [javaTokens, marksAll_name, marksAll_keyword, marksAll_mark, marksAll_nil, marksAll_append,
      marksAll_argumentTokens (p := chars.elem) (by decide)]
    decide
  | opening (.branch c) | opening (.loop c) | opening (.count _ _ _ c _) | closingWhile c =>
    simp only [javaTokens, marksAll_name, marksAll_keyword, marksAll_mark, marksAll_nil,
      marksAll_conditionTokens (p := chars.elem) (by decide)]
    decide
  | joint gap c =>
    simp only [javaTokens, marksAll_keyword, marksAll_mark, marksAll_nil, marksAll_append,
      marksAll_conditionTokens (p := chars.elem) (by decide), marksAll_gap (p := chars.elem) (by decide)]
    decide

theorem marksAll_recastTokens (l : Line) : marksAll chars.elem l.recastTokens = true := by
  match l with
  | simple (.declare _ _ _) | simple (.print _) | simple (.giveBack _) | openingDo =>
    simp only [recastTokens, marksAll_name, marksAll_keyword, marksAll_mark, marksAll_nil]
    decide
  | simple (.construct _ _ _ arguments) =>
    simp only [recastTokens, marksAll_name, marksAll_mark, marksAll_nil, marksAll_append,
      marksAll_argumentTokens (p := chars.elem) (by decide)]
    decide
  | opening (.branch c) | opening (.loop c) | opening (.count _ _ _ c _) | closingWhile c =>
    simp only [recastTokens, marksAll_name, marksAll_keyword, marksAll_mark, marksAll_nil,
      marksAll_conditionTokens (p := chars.elem) (by decide)]
    decide
  | joint gap c =>
    simp only [recastTokens, marksAll_keyword, marksAll_mark, marksAll_nil, marksAll_append,
      marksAll_conditionTokens (p := chars.elem) (by decide), marksAll_gap (p := chars.elem) (by decide)]
    decide
  | simple (.assign _ _) | simple (.increment _) | closing | closingElse =>
    simp only [recastTokens]
    exact marksAll_javaTokens _

theorem mem_chars_of_marksAll {ts : List Token} (hspaced : isSpaced ts = true)
    (h : marksAll chars.elem ts = true) : ∀ c ∈ spell ts, c ∈ chars := by
  intro c hc
  have hname : nameChars.all chars.elem = true := by decide
  simpa using forall_mem_spell hname hspaced h c hc

theorem mem_chars (k : Nat) (l : Line) : ∀ c ∈ l.form k, c ∈ chars := by
  rw [← spell_tokens]
  apply mem_chars_of_marksAll (l.isSpaced_tokens k)
  unfold tokens
  split
  · exact l.marksAll_recastTokens
  · exact l.marksAll_javaTokens

theorem not_quote_of_mem_chars {c : Char} (h : c ∈ chars) : c ∉ "\"'/".toList := by
  have hall : (chars.all fun c => !"\"'/".toList.elem c) = true := by decide
  simpa using List.all_eq_true.mp hall c h

/-- A line begins with a word or with a closing brace. -/
theorem exists_tokens (k : Nat) (l : Line) :
    ∃ tok ts, l.tokens k = tok :: ts ∧ (tok.isWord = true ∨ tok = .mark '}') := by
  unfold tokens
  cases l with
  | simple s => cases s <;> split <;> simp [javaTokens, recastTokens, Token.isWord]
  | opening h => cases h <;> split <;> simp [javaTokens, recastTokens, Token.isWord]
  | _ => split <;> simp [javaTokens, recastTokens, Token.isWord]

theorem exists_form (k : Nat) (l : Line) :
    ∃ c t, l.form k = c :: t ∧ c ∈ '}' :: nameChars := by
  obtain ⟨tok, ts, htokens, htok⟩ := l.exists_tokens k
  have hspaced := l.isSpaced_tokens k
  rw [htokens] at hspaced
  rw [← spell_tokens, htokens, spell_cons]
  rcases htok with hw | rfl
  · obtain ⟨c, w, hc⟩ := List.exists_cons_of_ne_nil (Token.text_ne_nil hspaced)
    have hmem := Token.plain_of_isWord hspaced hw c (by rw [hc]; simp)
    exact ⟨c, w ++ spell ts, by rw [hc, List.cons_append], List.mem_cons_of_mem _ hmem⟩
  · exact ⟨'}', spell ts, rfl, List.mem_cons_self⟩

theorem form_ne_nil (k : Nat) (l : Line) : l.form k ≠ [] := by
  obtain ⟨c, t, h, -⟩ := l.exists_form k
  rw [h]
  exact List.cons_ne_nil c t

end Line

end GoDraft
