import GoDraft.Proofs.Scan.Letters
import Mathlib.Data.List.TakeWhile

/-!
# GoDraft — lexemes

The scanner goes letter by letter and carries a state from one to the next. The grammar behind it is
simpler to say by lexemes: a comment or a literal is one lexeme from its first letter to its last, and
every other letter is a lexeme of its own. Both tell the same zone of every letter, and the depth of a
letter is the count of the code braces before it.

* `lex`, `zoned` — the lexemes of a text, and the zone of each letter by its lexeme;
* `Scanner.zones_eq_zoned` — the scanner tells these zones;
* `openBraces` — the count of the code braces, never below zero;
* `scan_eq_counted` — zones and depths of a whole scan.
-/

namespace GoDraft

variable {α : Type} [Marked α]

/-! ## The grammar -/

/-- The letters of a block comment behind its opening: up to the first end of a comment, or all. -/
def blockRest : List α → List α
  | [] => []
  | [a] => [a]
  | a :: b :: rest =>
    if Marked.mark a = .star ∧ Marked.mark b = .slash then [a, b] else a :: blockRest (b :: rest)

/-- The letters of a line comment behind its first slash: up to the line feed, or all. -/
def lineRest (letters : List α) : List α := letters.takeWhile fun a => Marked.mark a != .newline

/-- The letters of a literal behind its opening delimiter: up to the closing one, up to a line feed, or
all. A backslash takes the letter behind it along. -/
def literalRest (q : Quote) : List α → List α
  | [] => []
  | [a] => if Marked.mark a = .newline then [] else [a]
  | a :: b :: rest =>
    if Marked.mark a = .backslash then a :: b :: literalRest q rest
    else if Marked.mark a = .newline then []
    else if Marked.mark a = .quote q then [a]
    else a :: literalRest q (b :: rest)

/-- The zone of the lexeme that begins with a letter in code, and its letters behind that one. -/
def lexemeFrom (a : α) (rest : List α) : Zone × List α :=
  match Marked.mark a, rest with
  | .quote q, rest => (.literal q, literalRest q rest)
  | .slash, b :: rest =>
    match Marked.mark b with
    | .star => (.blockComment, b :: blockRest rest)
    | .slash => (.lineComment, lineRest (b :: rest))
    | _ => (.code, [])
  | _, _ => (.code, [])

/-- Letters that belong together, with their zone. -/
structure Lexeme (α : Type) where
  zone : Zone
  letters : List α

/-- The lexemes of a text. -/
def lex : List α → List (Lexeme α)
  | [] => []
  | a :: rest =>
    ⟨(lexemeFrom a rest).1, a :: (lexemeFrom a rest).2⟩ :: lex (rest.drop (lexemeFrom a rest).2.length)
termination_by letters => letters.length

/-- Every letter of a text with the zone of its lexeme. -/
def zoned (letters : List α) : List (α × Zone) :=
  (lex letters).flatMap fun u => u.letters.map fun a => (a, u.zone)

theorem zoned_cons (a : α) (rest : List α) :
    zoned (a :: rest) = (a :: (lexemeFrom a rest).2).map (fun b => (b, (lexemeFrom a rest).1)) ++
      zoned (rest.drop (lexemeFrom a rest).2.length) := by
  rw [zoned, lex, List.flatMap_cons]
  rfl

/-! ## The scanner inside a lexeme -/

namespace Scanner

/-- Every letter with the zone that the scanner tells. -/
def zones (s : Scanner) (letters : List α) : List (α × Zone) :=
  (s.run letters).map fun x => (x.letter, x.zone)

theorem zones_cons (s : Scanner) (a : α) (rest : List α) :
    s.zones (a :: rest) = (a, (s.read a rest).1) :: (s.read a rest).2.zones rest := rfl

/-- The scanner tells one zone for some letters and stands in code behind them. -/
def Takes (s : Scanner) (z : Zone) (taken letters : List α) : Prop :=
  ∃ s' : Scanner, s'.InCode ∧
    s.zones letters = taken.map (fun a => (a, z)) ++ s'.zones (letters.drop taken.length)

theorem Takes.cons {s s' : Scanner} {z : Zone} {taken letters : List α} {a : α}
    (hread : s.read a letters = (z, s')) (h : s'.Takes z taken letters) :
    s.Takes z (a :: taken) (a :: letters) := by
  obtain ⟨s'', hcode, htaken⟩ := h
  refine ⟨s'', hcode, ?_⟩
  rw [zones_cons, hread, htaken]
  rfl

theorem Takes.of_inCode {s : Scanner} (h : s.InCode) (z : Zone) (letters : List α) :
    s.Takes z [] letters :=
  ⟨s, h, rfl⟩

theorem Takes.all (s : Scanner) (z : Zone) : s.Takes z [] ([] : List α) := ⟨start, ⟨rfl, rfl⟩, rfl⟩

/-- A line feed is code also for a scanner that is in a literal or a line comment. -/
theorem takes_newline {s : Scanner} {z : Zone} {a : α} {rest : List α} {d : Nat}
    (ha : Marked.mark a = .newline) (hread : s.read a rest = (.code, ⟨.code, d, none⟩)) :
    s.Takes z [] (a :: rest) := by
  refine ⟨⟨.code, d, none⟩, ⟨rfl, rfl⟩, ?_⟩
  have hcode : (Scanner.mk .code d none).read a rest = (.code, ⟨.code, d, none⟩) := by
    rw [read, ha]
    rfl
  rw [List.map_nil, List.nil_append, List.length_nil, List.drop_zero, zones_cons, zones_cons, hread, hcode]

theorem takes_literal (q : Quote) (d : Nat) : ∀ letters : List α,
    (mk (.literal q) d none).Takes (.literal q) (literalRest q letters) letters
  | [] => .all _ _
  | [a] => by
    rw [literalRest]
    split
    · rename_i ha
      apply takes_newline (d := d) ha
      rw [read, ha]
      rfl
    · rename_i ha
      have hfirst : (mk (.literal q) d none).read a [] =
          (.literal q, ((mk (.literal q) d none).read a []).2) := by
        unfold read step
        cases hm : Marked.mark a with
        | newline => exact absurd hm ha
        | _ => rfl
      exact .cons hfirst (.all _ _)
  | a :: b :: rest => by
    rw [literalRest]
    -- the cases are those of `literalRest`: an escape takes two letters, a line feed is left out, a delimiter ends
    by_cases hback : Marked.mark a = .backslash
    · rw [if_pos hback]
      have hfirst : (mk (.literal q) d none).read a (b :: rest) =
          (.literal q, ⟨.literal q, d, some (.literal q)⟩) := by
        rw [read, hback]
        rfl
      exact .cons hfirst (.cons rfl (takes_literal q d rest))
    rw [if_neg hback]
    by_cases hnewline : Marked.mark a = .newline
    · rw [if_pos hnewline]
      apply takes_newline (d := d) hnewline
      rw [read, hnewline]
      rfl
    rw [if_neg hnewline]
    by_cases hquote : Marked.mark a = .quote q
    · rw [if_pos hquote]
      have hfirst : (mk (.literal q) d none).read a (b :: rest) = (.literal q, ⟨.code, d, none⟩) := by
        rw [read, hquote]
        simp [step]
      exact .cons hfirst (.of_inCode ⟨rfl, rfl⟩ _ _)
    · rw [if_neg hquote]
      have hfirst : (mk (.literal q) d none).read a (b :: rest) = (.literal q, ⟨.literal q, d, none⟩) := by
        unfold read step
        cases hm : Marked.mark a with
        | backslash => exact absurd hm hback
        | newline => exact absurd hm hnewline
        | quote q' =>
          have hne : q' ≠ q := by
            rintro rfl
            exact hquote hm
          simp [hne]
        | _ => rfl
      exact .cons hfirst (takes_literal q d (b :: rest))

theorem takes_lineComment (d : Nat) : ∀ letters : List α,
    (mk .lineComment d none).Takes .lineComment (lineRest letters) letters
  | [] => .all _ _
  | a :: rest => by
    by_cases hnewline : Marked.mark a = .newline
    · rw [lineRest, List.takeWhile_cons_of_neg (by simp [hnewline])]
      apply takes_newline (d := d) hnewline
      rw [read, hnewline]
      rfl
    · rw [lineRest, List.takeWhile_cons_of_pos (by simp [hnewline]), ← lineRest]
      refine .cons ?_ (takes_lineComment d rest)
      unfold read step
      cases hm : Marked.mark a with
      | newline => exact absurd hm hnewline
      | _ => rfl

theorem takes_blockComment (d : Nat) : ∀ letters : List α,
    (mk .blockComment d none).Takes .blockComment (blockRest letters) letters
  | [] => .all _ _
  | [a] => by
    have hfirst : (mk .blockComment d none).read a [] = (.blockComment, ⟨.blockComment, d, none⟩) := by
      unfold read step
      cases Marked.mark a <;> rfl
    exact .cons hfirst (.all _ _)
  | a :: b :: rest => by
    rw [blockRest]
    by_cases hend : Marked.mark a = .star ∧ Marked.mark b = .slash
    · rw [if_pos hend]
      have hfirst : (mk .blockComment d none).read a (b :: rest) =
          (.blockComment, ⟨.code, d, some .blockComment⟩) := by
        rw [read, List.head?_cons, Option.map_some, hend.1, hend.2]
        rfl
      -- the slash belongs to the comment, and behind it there is code
      have hcode : (mk .code d none).InCode := ⟨rfl, rfl⟩
      exact .cons hfirst (.cons rfl (.of_inCode hcode _ _))
    · rw [if_neg hend]
      refine .cons ?_ (takes_blockComment d (b :: rest))
      rw [read, List.head?_cons, Option.map_some]
      unfold step
      cases hm : Marked.mark a with
      | star =>
        cases hb : Marked.mark b with
        | slash => exact absurd ⟨hm, hb⟩ hend
        | _ => rfl
      | _ => rfl

/-- In code the scanner takes the next lexeme as a whole. -/
theorem takes_lexeme (d : Nat) (a : α) (rest : List α) :
    (mk .code d none).Takes (lexemeFrom a rest).1 (a :: (lexemeFrom a rest).2) (a :: rest) := by
  have hcode : ∀ d, (mk .code d none).InCode := fun _ => ⟨rfl, rfl⟩
  unfold lexemeFrom
  cases ha : Marked.mark a with
  | quote q =>
    have hfirst : (mk .code d none).read a rest = (.literal q, ⟨.literal q, d, none⟩) := by
      rw [read, ha]
      rfl
    exact .cons hfirst (takes_literal q d rest)
  | slash =>
    cases rest with
    | nil =>
      have hfirst : (mk .code d none).read a [] = (.code, ⟨.code, d, none⟩) := by
        rw [read, ha]
        rfl
      exact .cons hfirst (.all _ _)
    | cons b rest =>
      -- what a slash begins is told by the letter behind it
      cases hb : Marked.mark b with
      | star =>
        have hfirst : (mk .code d none).read a (b :: rest) =
            (.blockComment, ⟨.blockComment, d, some .blockComment⟩) := by
          rw [read, List.head?_cons, Option.map_some, ha, hb]
          rfl
        simp only [hb]
        exact .cons hfirst (.cons rfl (takes_blockComment d rest))
      | slash =>
        have hfirst : (mk .code d none).read a (b :: rest) = (.lineComment, ⟨.lineComment, d, none⟩) := by
          rw [read, List.head?_cons, Option.map_some, ha, hb]
          rfl
        simp only [hb]
        exact .cons hfirst (takes_lineComment d (b :: rest))
      | _ =>
        have hfirst : (mk .code d none).read a (b :: rest) = (.code, ⟨.code, d, none⟩) := by
          rw [read, List.head?_cons, Option.map_some, ha, hb]
          rfl
        simp only [hb]
        exact .cons hfirst (.of_inCode (hcode d) _ _)
  | openBrace =>
    have hfirst : (mk .code d none).read a rest = (.code, ⟨.code, d + 1, none⟩) := by
      rw [read, ha]
      rfl
    exact .cons hfirst (.of_inCode (hcode _) _ _)
  | closeBrace =>
    have hfirst : (mk .code d none).read a rest = (.code, ⟨.code, d - 1, none⟩) := by
      rw [read, ha]
      rfl
    exact .cons hfirst (.of_inCode (hcode _) _ _)
  | _ =>
    have hfirst : (mk .code d none).read a rest = (.code, ⟨.code, d, none⟩) := by
      rw [read, ha]
      rfl
    exact .cons hfirst (.of_inCode (hcode d) _ _)

/-- **Zones by lexemes**: from code on, the scanner tells every letter the zone of its lexeme. -/
theorem zones_eq_zoned {s : Scanner} (h : s.InCode) : ∀ letters : List α, s.zones letters = zoned letters
  | [] => by
    rw [zoned, lex]
    rfl
  | a :: rest => by
    obtain ⟨z, d, k⟩ := s
    obtain ⟨rfl, rfl⟩ : z = .code ∧ k = none := ⟨h.zone, h.carry⟩
    obtain ⟨s', hcode, htaken⟩ := takes_lexeme d a rest
    rw [htaken, zoned_cons, List.length_cons, List.drop_succ_cons, zones_eq_zoned hcode]
termination_by letters => letters.length

end Scanner

/-! ## Depths -/

/-- The depth behind a letter: a brace counts where it is code, and the depth stops at zero. -/
def depthAfter (depth : Nat) (x : α × Zone) : Nat :=
  match x.2, Marked.mark x.1 with
  | .code, .openBrace => depth + 1
  | .code, .closeBrace => depth - 1
  | _, _ => depth

/-- The count of the code braces of some letters, from a depth on. -/
def openBraces (depth : Nat) (xs : List (α × Zone)) : Nat := xs.foldl depthAfter depth

/-- Letters with their zones and the count of the code braces before each, from a depth on. -/
def counted (depth : Nat) : List (α × Zone) → List (Seen α)
  | [] => []
  | x :: xs => ⟨x.1, x.2, depth⟩ :: counted (depthAfter depth x) xs

theorem getElem?_counted (xs : List (α × Zone)) (depth i : Nat) :
    (counted depth xs)[i]? = xs[i]?.map fun x => ⟨x.1, x.2, openBraces depth (xs.take i)⟩ := by
  induction xs generalizing depth i with
  | nil => rfl
  | cons x xs ih =>
    cases i with
    | zero => rfl
    | succ i => exact ih (depthAfter depth x) i

namespace Scanner

/-- No letter is settled as code ahead of the scanner. -/
def Fresh (s : Scanner) : Prop := s.carry ≠ some .code

/-- One letter changes the depth by what it is worth in its zone. -/
theorem Fresh.read {s : Scanner} (h : s.Fresh) (a : α) (rest : List α) :
    (s.read a rest).2.Fresh ∧ (s.read a rest).2.depth = depthAfter s.depth (a, (s.read a rest).1) := by
  obtain ⟨z, d, k⟩ := s
  unfold Scanner.read
  generalize rest.head?.map Marked.mark = next
  have hplain : ∀ z : Zone, z ≠ .code → depthAfter d (a, z) = d := by
    intro z hz
    cases z with
    | code => exact absurd rfl hz
    | _ => rfl
  cases k with
  -- what was settled ahead is never code, so it is worth nothing
  | some z' => exact ⟨by simp [Fresh, step], (hplain z' fun hz => h (hz ▸ rfl)).symm⟩
  | none =>
    cases z with
    | code =>
      unfold step depthAfter
      cases hm : Marked.mark a with
      | slash =>
        cases next with
        | none => simp [Fresh]
        | some m => cases m <;> simp [Fresh]
      | _ => simp [Fresh]
    | literal q =>
      unfold step depthAfter
      cases hm : Marked.mark a with
      | quote q' => by_cases hq : q' = q <;> simp [Fresh, hq]
      | _ => simp [Fresh]
    | lineComment =>
      unfold step depthAfter
      cases hm : Marked.mark a <;> simp [Fresh]
    | blockComment =>
      unfold step depthAfter
      cases hm : Marked.mark a with
      | star =>
        cases next with
        | none => simp [Fresh]
        | some m => cases m <;> simp [Fresh]
      | _ => simp [Fresh]

theorem Fresh.run_eq {s : Scanner} (h : s.Fresh) (letters : List α) :
    s.run letters = counted s.depth (s.zones letters) := by
  induction letters generalizing s with
  | nil => rfl
  | cons a rest ih =>
    obtain ⟨hfresh, hdepth⟩ := h.read a rest
    rw [zones_cons, counted, ← hdepth, ← ih hfresh]
    rfl

end Scanner

/-- **A whole scan**: every letter with the zone of its lexeme and the count of the code braces before
it. -/
theorem scan_eq_counted (letters : List α) : scan letters = counted 0 (zoned letters) := by
  have hcode : Scanner.start.InCode := ⟨rfl, rfl⟩
  have hfresh : Scanner.start.Fresh := by simp [Scanner.Fresh, Scanner.start]
  rw [← Scanner.zones_eq_zoned hcode]
  exact hfresh.run_eq letters

end GoDraft
