import GoDraft.Body.Terminators
import GoDraft.Proofs.Body.Token
import GoDraft.Proofs.Text.Blanks

/-!
# GoDraft — the roles of the characters of a line

Dropping terminators reads each line on its own: quotes open literals, two slashes a comment, and `for` a header
whose semicolons part its clauses. This reading is given here apart from what is written, as the role that each
character has. A line can be read in two parts, where the second does not go on with a name or a slash.

* `Role`, `LineReader`, `roles` — the reading of a text, line by line;
* `LineReader.roles_append` — a text in two parts;
* `LineReader.unterminated_append_comment` — a part before a line comment;
* `LineReader.exists_terminator` — the first terminator of a line.
-/

namespace GoDraft

/-- What a character is to the reading of a line. -/
inductive Role where
  /-- A character of a literal, with its delimiters. -/
  | literal
  /-- A character of a line comment. -/
  | comment
  /-- A semicolon in the header of a `for`. -/
  | clause
  /-- A semicolon that ends a statement. -/
  | terminator
  /-- Any other character. -/
  | plain
  deriving DecidableEq, Repr

/-- The reading of a line. -/
structure LineReader where
  /-- The delimiter of the literal being read. -/
  quote : Option Char := none
  /-- Whether the character before was an escaping backslash. -/
  escaped : Bool := false
  /-- Whether the header of a `for` is being read. -/
  forHeader : Bool := false
  /-- Whether a line comment is being read. -/
  inComment : Bool := false
  /-- The character before. -/
  before : Option Char := none

namespace LineReader

/-- The role of a character that `rest` follows. -/
def role (r : LineReader) (c : Char) (rest : Text) : Role :=
  if c = '\n' then .plain
  else if r.inComment then .comment
  else if r.quote.isSome then .literal
  else if c = '"' ∨ c = '\'' then .literal
  else if c = '/' ∧ rest.head? = some '/' then .comment
  else if c = ';' then if r.forHeader then .clause else .terminator
  else .plain

/-- The reading behind a character of a literal with the delimiter `q`. -/
def nextInLiteral (r : LineReader) (q c : Char) : LineReader :=
  let r := { r with before := some c }
  if r.escaped then { r with escaped := false }
  else if c = '\\' then { r with escaped := true }
  else if c = q then { r with quote := none }
  else r

/-- The reading behind a character that `rest` follows. It begins anew with every line. -/
def next (r : LineReader) (c : Char) (rest : Text) : LineReader :=
  if c = '\n' then {}
  else if r.inComment then { r with before := some c }
  else
    match r.quote with
    | some q => r.nextInLiteral q c
    | none =>
      if c = '"' ∨ c = '\'' then { r with before := some c, quote := some c }
      else if c = '/' ∧ rest.head? = some '/' then { r with before := some c, inComment := true }
      else if c = 'f' ∧ startsKeyword r.before (c :: rest) "for" then { r with before := some c, forHeader := true }
      else if c = '{' then { r with before := some c, forHeader := false }
      else { r with before := some c }

/-- The characters of a text with their roles. -/
def roles (r : LineReader) : Text → List (Char × Role)
  | [] => []
  | c :: rest => (c, r.role c rest) :: (r.next c rest).roles rest

/-- The reading behind a text. -/
def after (r : LineReader) : Text → LineReader
  | [] => r
  | c :: rest => (r.next c rest).after rest

/-- The reading stands outside literals, comments and headers. -/
structure Idle (r : LineReader) : Prop where
  quote : r.quote = none
  escaped : r.escaped = false
  forHeader : r.forHeader = false
  inComment : r.inComment = false

end LineReader

/-- The characters of a text with their roles, each line read on its own. -/
def roles (t : Text) : List (Char × Role) := ({} : LineReader).roles t

/-- Nothing goes on with a text: it begins neither with a character of a name nor with a slash. -/
def Neutral (t : Text) : Prop := ∀ c, t.head? = some c → isNameChar c = false ∧ c ≠ '/'

theorem Neutral.any_isNameChar {t : Text} (h : Neutral t) : t.head?.any isNameChar = false := by
  cases hhead : t.head? with
  | none => rfl
  | some c => exact (h c hhead).1

/-- No character is a terminator. -/
def Unterminated (xs : List (Char × Role)) : Prop := ∀ x ∈ xs, x.2 ≠ .terminator

theorem unterminated_nil : Unterminated [] := fun _ h => nomatch h

theorem Unterminated.append {xs ys : List (Char × Role)} (hx : Unterminated xs) (hy : Unterminated ys) :
    Unterminated (xs ++ ys) := by
  intro x hx'
  rcases List.mem_append.1 hx' with h | h
  · exact hx x h
  · exact hy x h

namespace LineReader

variable {r : LineReader} {c : Char} {s t : Text}

theorem map_fst_roles (t : Text) (r : LineReader) : (r.roles t).map Prod.fst = t := by
  induction t generalizing r with
  | nil => rfl
  | cons c t ih => rw [roles, List.map_cons, ih]

end LineReader

theorem map_fst_roles (t : Text) : (roles t).map Prod.fst = t := LineReader.map_fst_roles t {}

/-! ## Texts in two parts -/

namespace LineReader

variable {r : LineReader} {c : Char} {s t : Text}

/-- Of what follows a character its role needs to know whether a slash comes next, and that only behind another
slash outside literals. -/
theorem role_congr (h : c = '/' → r.quote = none → (s.head? = some '/' ↔ t.head? = some '/')) :
    r.role c s = r.role c t := by
  unfold role
  by_cases hc : c = '/'
  · cases hquote : r.quote with
    | none => simp only [h hc hquote]
    | some q => simp only [Option.isSome_some, if_true]
  · simp only [hc, false_and]

theorem next_congr (h : c = '/' → r.quote = none → (s.head? = some '/' ↔ t.head? = some '/'))
    (hfor : startsKeyword r.before (c :: s) "for" = startsKeyword r.before (c :: t) "for") :
    r.next c s = r.next c t := by
  unfold next
  by_cases hc : c = '/'
  · cases hquote : r.quote with
    | none => simp only [h hc hquote, hfor]
    | some q => rfl
  · simp only [hc, false_and, hfor]

/-- A name does not go on with the second part, so a keyword is told from the first one. -/
theorem startsKeyword_for_append (b : Option Char) (ht : t.head?.any isNameChar = false) :
    startsKeyword b (c :: (s ++ t)) "for" = startsKeyword b (c :: s) "for" := by
  have hname : ∀ d ∈ "for".toList, isNameChar d = true := by decide
  refine startsKeyword_append (s := c :: s) hname (List.cons_ne_nil c s) fun _ d _ hd h => ?_
  rw [hd, Option.any_some, h.2] at ht
  cases ht

theorem head?_append_of_neutral (ht : Neutral t) : (s ++ t).head? = some '/' ↔ s.head? = some '/' := by
  cases s with
  | nil => exact ⟨fun h => absurd rfl (ht '/' h).2, fun h => by cases h⟩
  | cons d s => rfl

theorem role_append (ht : Neutral t) : r.role c (s ++ t) = r.role c s :=
  role_congr fun _ _ => head?_append_of_neutral ht

theorem next_append (ht : Neutral t) : r.next c (s ++ t) = r.next c s :=
  next_congr (fun _ _ => head?_append_of_neutral ht) (startsKeyword_for_append r.before ht.any_isNameChar)

/-- **A text in two parts**: the second is read as what the first leaves says. -/
theorem roles_append (ht : Neutral t) (s : Text) (r : LineReader) :
    r.roles (s ++ t) = r.roles s ++ (r.after s).roles t := by
  induction s generalizing r with
  | nil => rfl
  | cons c s ih =>
    rw [List.cons_append, roles, role_append ht, next_append ht, ih, roles, after]
    rfl

theorem after_append (ht : Neutral t) (s : Text) (r : LineReader) : r.after (s ++ t) = (r.after s).after t := by
  induction s generalizing r with
  | nil => rfl
  | cons c s ih => rw [List.cons_append, after, next_append ht, ih, after]

/-! ## Blanks and semicolons -/

end LineReader

/-- Whether a character is a blank or a semicolon. -/
def isRunChar (c : Char) : Bool := isBlank c || c == ';'

/-- The role of a blank or a semicolon outside literals, comments and headers. -/
def runRole (c : Char) : Role := if c = ';' then .terminator else .plain

/-- Blanks and semicolons with their roles. -/
def runRoles (run : Text) : List (Char × Role) := run.map fun c => (c, runRole c)

theorem isNameChar_of_isRunChar {c : Char} (h : isRunChar c = true) : isNameChar c = false := by
  rw [isRunChar, Bool.or_eq_true, beq_iff_eq] at h
  rcases h with h | rfl
  · exact isNameChar_of_isBlank h
  · decide

theorem notMem_of_isRunChar {c : Char} (h : isRunChar c = true) : c ∉ ['"', '\'', '/', 'f', '{', '\\'] := by
  intro hmem
  have hmarks : ∀ d ∈ ['"', '\'', '/', 'f', '{', '\\'], isRunChar d = false := by decide
  rw [hmarks c hmem] at h
  cases h

theorem neutral_of_isRunChar {c : Char} (h : isRunChar c = true) (t : Text) : Neutral (c :: t) := by
  rintro d ⟨⟩
  refine ⟨isNameChar_of_isRunChar h, ?_⟩
  rintro rfl
  exact notMem_of_isRunChar h (by decide)

namespace LineReader

variable {r : LineReader} {c : Char} {run s t : Text}

theorem idle_start : ({} : LineReader).Idle := ⟨rfl, rfl, rfl, rfl⟩

/-- Blanks and semicolons keep the reading outside literals, comments and headers. -/
theorem Idle.runChar (h : r.Idle) (hc : isRunChar c = true) (rest : Text) :
    r.role c rest = runRole c ∧ (r.next c rest).Idle ∧ (r.next c rest).before.any isNameChar = false := by
  obtain ⟨quote, escaped, forHeader, inComment, before⟩ := r
  obtain ⟨rfl, rfl, rfl, rfl⟩ := h
  have hname := isNameChar_of_isRunChar hc
  have hmarks := notMem_of_isRunChar hc
  simp only [List.mem_cons, not_or] at hmarks
  obtain ⟨hdouble, hsingle, hslash, hfor, hbrace, -⟩ := hmarks
  by_cases hline : c = '\n'
  · subst hline
    exact ⟨rfl, idle_start, rfl⟩
  · simp only [role, next, runRole, hline, hdouble, hsingle, hslash, hfor, hbrace, Option.isSome_none, or_self,
      false_and, if_false, Bool.false_eq_true, Option.any_some, hname, and_true, true_and]
    exact ⟨rfl, rfl, rfl, rfl⟩

/-- Outside literals, comments and headers, and not behind a name, a character is read as the first of a line. -/
theorem Idle.next_eq (h : r.Idle) (hbefore : r.before.any isNameChar = false) (c : Char) (rest : Text) :
    r.role c rest = ({} : LineReader).role c rest ∧ r.next c rest = ({} : LineReader).next c rest := by
  obtain ⟨quote, escaped, forHeader, inComment, before⟩ := r
  obtain ⟨rfl, rfl, rfl, rfl⟩ := h
  refine ⟨rfl, ?_⟩
  simp only [next, startsKeyword, hbefore, Option.any_none]

theorem Idle.roles_eq (h : r.Idle) (hbefore : r.before.any isNameChar = false) (t : Text) :
    r.roles t = GoDraft.roles t := by
  cases t with
  | nil => rfl
  | cons c t =>
    obtain ⟨hrole, hnext⟩ := h.next_eq hbefore c t
    rw [GoDraft.roles, roles, roles, hrole, hnext]

/-- A run of blanks and semicolons, and what follows it. -/
theorem Idle.roles_run (h : r.Idle) (hbefore : r.before.any isNameChar = false) (hrun : ∀ c ∈ run, isRunChar c = true)
    (t : Text) : r.roles (run ++ t) = runRoles run ++ GoDraft.roles t := by
  induction run generalizing r with
  | nil => exact h.roles_eq hbefore t
  | cons c run ih =>
    rw [List.forall_mem_cons] at hrun
    obtain ⟨hrole, hidle, hbefore'⟩ := h.runChar hrun.1 (run ++ t)
    rw [List.cons_append, roles, ih hidle hbefore' hrun.2, hrole]
    rfl

/-- The same, whatever stands before the run. -/
theorem Idle.roles_cons_run (h : r.Idle) (hc : isRunChar c = true) (hrun : ∀ d ∈ run, isRunChar d = true) (t : Text) :
    r.roles (c :: (run ++ t)) = runRoles (c :: run) ++ GoDraft.roles t := by
  obtain ⟨hrole, hidle, hbefore⟩ := h.runChar hc (run ++ t)
  rw [roles, hidle.roles_run hbefore hrun, hrole]
  rfl

/-! ## Comments -/

theorem roles_of_inComment (h : r.inComment = true) (ht : '\n' ∉ t) : ∀ x ∈ r.roles t, x.2 = .comment := by
  induction t generalizing r with
  | nil => exact fun x hx => nomatch hx
  | cons c t ih =>
    rw [List.mem_cons, not_or] at ht
    have hline : ¬ c = '\n' := fun h => ht.1 h.symm
    rw [roles, List.forall_mem_cons]
    constructor
    · rw [role, if_neg hline, if_pos h]
    · rw [next, if_neg hline, if_pos h]
      exact ih h ht.2

/-- Two slashes outside literals begin a comment that goes on to the end of the line. -/
theorem roles_comment (h : r.quote = none) (ht : '\n' ∉ t) : ∀ x ∈ r.roles ('/' :: '/' :: t), x.2 = .comment := by
  rw [roles, List.forall_mem_cons]
  cases hcomment : r.inComment with
  | true =>
    have hslash : ¬ '/' = '\n' := by decide
    refine ⟨by rw [role, if_neg hslash, if_pos hcomment], roles_of_inComment ?_ (by simpa using ht)⟩
    rw [next, if_neg hslash, if_pos hcomment]
    exact hcomment
  | false =>
    refine ⟨by simp [role, h, hcomment], roles_of_inComment ?_ (by simpa using ht)⟩
    simp [next, h, hcomment]

/-- **A part before a comment**: no terminator comes of the comment, even if the part ends with a slash. -/
theorem unterminated_append_comment (hs : Unterminated (r.roles s)) (hquote : (r.after s).quote = none)
    (hline : '\n' ∉ t) : Unterminated (r.roles (s ++ '/' :: '/' :: t)) := by
  induction s generalizing r with
  | nil =>
    intro x hx
    rw [roles_comment hquote hline x hx]
    decide
  | cons c s ih =>
    by_cases hseam : s = [] ∧ c = '/' ∧ r.quote = none
    · obtain ⟨rfl, rfl, hnone⟩ := hseam
      intro x hx
      rw [roles_comment hnone (by simpa using hline) x hx]
      decide
    · have hhead : c = '/' → r.quote = none →
          ((s ++ '/' :: '/' :: t).head? = some '/' ↔ s.head? = some '/') := by
        intro hc hnone
        cases s with
        | nil => exact absurd ⟨rfl, hc, hnone⟩ hseam
        | cons d s => rfl
      have hfor := startsKeyword_for_append (c := c) (s := s) (t := '/' :: '/' :: t) r.before rfl
      rw [List.cons_append, roles, role_congr hhead, next_congr hhead hfor]
      rw [roles] at hs
      have hrest := ih (fun x hx => hs x (List.mem_cons_of_mem _ hx)) hquote
      exact List.forall_mem_cons.2 ⟨hs _ List.mem_cons_self, hrest⟩

/-! ## Walks -/

/-- What every reading keeps: nothing is escaped outside literals, and no literal is delimited by blanks. -/
structure Proper (r : LineReader) : Prop where
  escaped : r.quote = none → r.escaped = false
  delimiter : ∀ q, r.quote = some q → isBlank q = false

theorem proper_start : ({} : LineReader).Proper := ⟨fun _ => rfl, nofun⟩

theorem Proper.nextInLiteral (h : r.Proper) {q : Char} (hq : r.quote = some q) (c : Char) :
    (r.nextInLiteral q c).Proper := by
  have hdelimiter := h.delimiter q hq
  unfold LineReader.nextInLiteral
  constructor <;> grind

theorem Proper.next (h : r.Proper) (c : Char) (rest : Text) : (r.next c rest).Proper := by
  unfold LineReader.next
  split
  · exact proper_start
  · split
    · exact ⟨h.escaped, h.delimiter⟩
    · split
      · rename_i q hq
        exact h.nextInLiteral hq c
      · rename_i hquote
        have hescaped := h.escaped hquote
        have hquotes : isBlank '"' = false ∧ isBlank '\'' = false := by decide
        constructor <;> grind

theorem Proper.after (h : r.Proper) (s : Text) : (r.after s).Proper := by
  induction s generalizing r with
  | nil => exact h
  | cons c s ih => exact ih (h.next c s)

/-- The line without terminators, from a reading of it and what has been written. -/
def walk (r : LineReader) (out rest : Text) : Text :=
  (Terminators.mk out r.quote r.escaped r.forHeader false).walk r.before rest

theorem dropTerminators_eq_walk (line : Text) : dropTerminators line = ({} : LineReader).walk [] line := rfl

theorem role_eq_comment_iff (h : r.inComment = false) {rest : Text} :
    r.role c rest = .comment ↔ r.quote = none ∧ c = '/' ∧ rest.head? = some '/' := by
  unfold role
  cases r.quote with
  | none => simp only [h, Option.isSome_none, Bool.false_eq_true, if_false]; grind
  | some q => simp only [h, Option.isSome_some, if_true, Bool.false_eq_true, if_false]; grind

theorem role_eq_terminator_iff {rest : Text} :
    r.role c rest = .terminator ↔ c = ';' ∧ r.quote = none ∧ r.forHeader = false ∧ r.inComment = false := by
  unfold role
  cases r.quote with
  | none => simp only [Option.isSome_none, Bool.false_eq_true, if_false]; grind
  | some q => simp only [Option.isSome_some, if_true]; grind

theorem walk_inLiteral {q : Char} (hq : r.quote = some q) (c : Char) (out rest : Text) :
    r.walk out (c :: rest) = (r.nextInLiteral q c).walk (c :: out) rest := by
  rw [walk, Terminators.walk, hq]
  dsimp only
  unfold nextInLiteral Terminators.inLiteral Terminators.push walk
  dsimp only
  split
  · rw [hq]
  · split
    · rw [hq]
    · split
      · rfl
      · rw [hq]

/-- All characters are written but comments and terminators. -/
theorem walk_cons (h : r.inComment = false) (hc : c ≠ '\n') {rest : Text} (hcomment : r.role c rest ≠ .comment)
    (hend : r.role c rest ≠ .terminator) (out : Text) :
    (r.next c rest).inComment = false ∧ r.walk out (c :: rest) = (r.next c rest).walk (c :: out) rest := by
  have hopen : ¬ r.inComment = true := by simp [h]
  rw [next, if_neg hc, if_neg hopen]
  cases hquote : r.quote with
  | some q =>
    refine ⟨?_, walk_inLiteral hquote c out rest⟩
    unfold nextInLiteral
    grind
  | none =>
    have hslash : ¬ (c = '/' ∧ rest.head? = some '/') := fun h' => hcomment ((role_eq_comment_iff h).2 ⟨hquote, h'⟩)
    have hsemicolon : ¬ (c = ';' ∧ (!r.forHeader) = true) := fun h' =>
      hend (role_eq_terminator_iff.2 ⟨h'.1, hquote, by simpa using h'.2, h⟩)
    rw [walk, Terminators.walk, hquote]
    dsimp only
    rw [Bool.false_and, if_neg Bool.false_ne_true, if_neg hslash, if_neg hslash, if_neg hsemicolon]
    split
    · exact ⟨h, rfl⟩
    · split
      · exact ⟨h, rfl⟩
      · split <;> exact ⟨h, rfl⟩

/-- A comment is copied to the end of the line. -/
theorem walk_comment (h : r.inComment = false) {rest : Text} (hcomment : r.role c rest = .comment) (out : Text) :
    (r.next c rest).inComment = true ∧ r.walk out (c :: rest) = out.reverse ++ c :: rest := by
  obtain ⟨hquote, rfl, hhead⟩ := (role_eq_comment_iff h).1 hcomment
  rw [walk, Terminators.walk, hquote]
  simp [next, h, hquote, hhead]

theorem Idle.of_terminator (hproper : r.Proper) {rest : Text} (h : r.role c rest = .terminator) : c = ';' ∧ r.Idle := by
  obtain ⟨hc, hquote, hheader, hcomment⟩ := role_eq_terminator_iff.1 h
  exact ⟨hc, hquote, hproper.escaped hquote, hheader, hcomment⟩

/-- Behind a blank the reading stands outside literals, comments and headers only if it does so before it. -/
theorem Idle.of_next (hproper : r.Proper) (hc : isBlank c = true) (hline : c ≠ '\n') {rest : Text}
    (h : (r.next c rest).Idle) : r.Idle ∧ r.role c rest = .plain := by
  have hrun : isRunChar c = true := by rw [isRunChar, hc, Bool.true_or]
  have hmarks := notMem_of_isRunChar hrun
  simp only [List.mem_cons, not_or] at hmarks
  obtain ⟨hdouble, hsingle, hslash, hfor, hbrace, hescape, -⟩ := hmarks
  have hidle : r.Idle := by
    rw [next, if_neg hline] at h
    cases hcomment : r.inComment with
    | true =>
      rw [if_pos hcomment] at h
      exact absurd (h.inComment.symm.trans hcomment) Bool.false_ne_true
    | false =>
      rw [if_neg (by simp [hcomment])] at h
      cases hquote : r.quote with
      | some q =>
        -- the literal goes on
        rw [hquote] at h
        have hend : c ≠ q := by
          rintro rfl
          exact Bool.false_ne_true ((hproper.delimiter c hquote).symm.trans hc)
        have hnone := h.quote
        simp only [nextInLiteral, hescape, hend, if_false] at hnone
        split at hnone <;> exact absurd (hquote.symm.trans hnone) (by simp)
      | none =>
        rw [hquote] at h
        simp only [hdouble, hsingle, hslash, hfor, hbrace, or_self, false_and, if_false] at h
        exact ⟨hquote, h.escaped, h.forHeader, h.inComment⟩
  refine ⟨hidle, ?_⟩
  rw [(hidle.runChar hrun rest).1, runRole, if_neg]
  rintro rfl
  exact absurd hc (by decide)

/-- A line without terminators is written as it stands. -/
theorem walk_of_unterminated (h : r.inComment = false) (hline : '\n' ∉ t) (ht : Unterminated (r.roles t)) (out : Text) :
    r.walk out t = out.reverse ++ t := by
  induction t generalizing r out with
  | nil =>
    rw [List.append_nil]
    rfl
  | cons c t ih =>
    rw [List.mem_cons, not_or] at hline
    rw [roles, Unterminated, List.forall_mem_cons] at ht
    by_cases hcomment : r.role c t = .comment
    · exact (walk_comment h hcomment out).2
    · obtain ⟨hnext, hwalk⟩ := walk_cons h (Ne.symm hline.1) hcomment ht.1 out
      rw [hwalk, ih hnext hline.2 ht.2, List.reverse_cons, List.append_assoc, List.singleton_append]

/-- **The first terminator of a line**: what stands before it is written as it stands. -/
theorem exists_terminator (hproper : r.Proper) (h : r.inComment = false) (hline : '\n' ∉ t)
    (ht : ¬ Unterminated (r.roles t)) :
    ∃ s rest, t = s ++ ';' :: rest ∧ Unterminated (r.roles s) ∧ (r.after s).Idle ∧
      ∀ out, r.walk out t = (r.after s).walk (s.reverse ++ out) (';' :: rest) := by
  induction t generalizing r with
  | nil => exact absurd unterminated_nil ht
  | cons c t ih =>
    rw [List.mem_cons, not_or] at hline
    rw [roles, Unterminated, List.forall_mem_cons, not_and] at ht
    by_cases hend : r.role c t = .terminator
    · obtain ⟨rfl, hidle⟩ := Idle.of_terminator hproper hend
      exact ⟨[], t, rfl, unterminated_nil, hidle, fun _ => rfl⟩
    · have hnotComment : r.role c t ≠ .comment := by
        intro hcomment
        refine ht hend fun x hx => ?_
        rw [roles_of_inComment (walk_comment h hcomment []).1 hline.2 x hx]
        decide
      have hstep := walk_cons h (Ne.symm hline.1) hnotComment hend
      obtain ⟨s, rest, rfl, hs, hidle, hwalk⟩ := ih (hproper.next c t) (hstep []).1 hline.2 (ht hend)
      -- what follows the part before the terminator does not change how that part is read
      have hneutral : Neutral (';' :: rest) := neutral_of_isRunChar (by decide) rest
      rw [next_append hneutral] at hs hidle hwalk
      rw [role_append hneutral] at hend
      refine ⟨c :: s, rest, rfl, List.forall_mem_cons.2 ⟨hend, hs⟩, hidle, fun out => ?_⟩
      rw [(hstep out).2, next_append hneutral, hwalk, List.reverse_cons, List.append_assoc, List.singleton_append]
      rfl

end LineReader

end GoDraft
