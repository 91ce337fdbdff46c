import GoDraft.Body.StatementLines
import GoDraft.Proofs.Scan.Parts

/-!
# GoDraft — splitting changes blanks of code only

Putting statements on lines of their own drops spaces and tabs and inserts line feeds. All of this happens in
code, and at places where the scanner stands in code before and after, so the rest of the text is scanned as it
was. A slash is the one letter that needs care: dropping a space behind it could begin a comment. Spaces are dropped
only behind the end of a statement or where a line feed takes their place.

* `Respaced` — a list with some members dropped and some inserted;
* `Trace` — the letters that a scanner has read, and the state it is in behind them;
* `StatementLines.Follows`, `StatementLines.Keeps.feed` — what has been written is a trace of what has been read;
* `zoned_splitStatements`, `respaced_zoned` — the zones of a split body;
* `respaced_splitStatements` — bytes, zones and depths of a split body.
-/

namespace GoDraft

/-! ## Lists with members dropped and inserted -/

/-- The second list is the first one with some members dropped and some inserted. -/
inductive Respaced {β : Type} (drops inserts : β → Bool) : List β → List β → Prop where
  | nil : Respaced drops inserts [] []
  | keep (x : β) {xs ys : List β} (h : Respaced drops inserts xs ys) : Respaced drops inserts (x :: xs) (x :: ys)
  | drop {x : β} {xs ys : List β} (hx : drops x = true) (h : Respaced drops inserts xs ys) :
      Respaced drops inserts (x :: xs) ys
  | insert {y : β} {xs ys : List β} (hy : inserts y = true) (h : Respaced drops inserts xs ys) :
      Respaced drops inserts xs (y :: ys)

namespace Respaced

variable {β : Type} {drops inserts : β → Bool} {xs ys : List β}

theorem append {xs' ys' : List β} (h : Respaced drops inserts xs ys) (h' : Respaced drops inserts xs' ys') :
    Respaced drops inserts (xs ++ xs') (ys ++ ys') := by
  induction h with
  | nil => exact h'
  | keep x _ ih => exact .keep x ih
  | drop hx _ ih => exact .drop hx ih
  | insert hy _ ih => exact .insert hy ih

theorem kept : ∀ xs : List β, Respaced drops inserts xs xs
  | [] => .nil
  | x :: xs => .keep x (kept xs)

theorem dropped (h : ∀ x ∈ xs, drops x = true) : Respaced drops inserts xs [] := by
  induction xs with
  | nil => exact .nil
  | cons x xs ih =>
    rw [List.forall_mem_cons] at h
    exact .drop h.1 (ih h.2)

theorem inserted (h : ∀ y ∈ ys, inserts y = true) : Respaced drops inserts [] ys := by
  induction ys with
  | nil => exact .nil
  | cons y ys ih =>
    rw [List.forall_mem_cons] at h
    exact .insert h.1 (ih h.2)

theorem reverse (h : Respaced drops inserts xs ys) : Respaced drops inserts xs.reverse ys.reverse := by
  induction h with
  | nil => exact .nil
  | keep x _ ih =>
    rw [List.reverse_cons, List.reverse_cons]
    exact ih.append (.keep x .nil)
  | @drop x xs ys hx _ ih =>
    rw [List.reverse_cons, ← List.append_nil ys.reverse]
    exact ih.append (.drop hx .nil)
  | @insert y xs ys hy _ ih =>
    rw [List.reverse_cons, ← List.append_nil xs.reverse]
    exact ih.append (.insert hy .nil)

/-- A member that may be dropped can also be dropped later. -/
theorem pop {y : β} (hy : drops y = true) (h : Respaced drops inserts xs (y :: ys)) :
    Respaced drops inserts xs ys := by
  generalize hzs : y :: ys = zs at h
  induction h with
  | nil => cases hzs
  | keep x h _ =>
    obtain ⟨rfl, rfl⟩ := List.cons.inj hzs
    exact .drop hy h
  | drop hx _ ih => exact .drop hx (ih hzs)
  | insert _ h _ =>
    obtain ⟨rfl, rfl⟩ := List.cons.inj hzs
    exact h

section Filter

variable {p : β → Bool}

theorem filter_eq (hdrops : ∀ x, drops x = true → p x = false) (hinserts : ∀ y, inserts y = true → p y = false)
    (h : Respaced drops inserts xs ys) : xs.filter p = ys.filter p := by
  induction h with
  | nil => rfl
  | keep x _ ih => rw [List.filter_cons, List.filter_cons, ih]
  | drop hx _ ih => rw [List.filter_cons_of_neg (by simp [hdrops _ hx]), ih]
  | insert hy _ ih => rw [List.filter_cons_of_neg (by simp [hinserts _ hy]), ih]

/-- What may not be dropped is still there, in its order. -/
theorem filter_sublist (hdrops : ∀ x, drops x = true → p x = false) (h : Respaced drops inserts xs ys) :
    (xs.filter p).Sublist ys := by
  induction h with
  | nil => exact .slnil
  | keep x _ ih =>
    rw [List.filter_cons]
    split
    · exact ih.cons_cons x
    · exact ih.cons x
  | drop hx _ ih => rwa [List.filter_cons_of_neg (by simp [hdrops _ hx])]
  | insert _ _ ih => exact ih.cons _

/-- What may not be inserted was there before, in its order. -/
theorem sublist_filter (hinserts : ∀ y, inserts y = true → p y = false) (h : Respaced drops inserts xs ys) :
    (ys.filter p).Sublist xs := by
  induction h with
  | nil => exact .slnil
  | keep x _ ih =>
    rw [List.filter_cons]
    split
    · exact ih.cons_cons x
    · exact ih.cons x
  | drop _ _ ih => exact ih.cons _
  | insert hy _ ih => rwa [List.filter_cons_of_neg (by simp [hinserts _ hy])]

end Filter

theorem flatMap {γ : Type} {drops' inserts' : γ → Bool} {f : β → List γ}
    (hdrops : ∀ x, drops x = true → ∀ z ∈ f x, drops' z = true)
    (hinserts : ∀ y, inserts y = true → ∀ z ∈ f y, inserts' z = true) (h : Respaced drops inserts xs ys) :
    Respaced drops' inserts' (xs.flatMap f) (ys.flatMap f) := by
  induction h with
  | nil => exact .nil
  | keep x _ ih => exact (kept (f x)).append ih
  | drop hx _ ih => exact (dropped (hdrops _ hx)).append ih
  | insert hy _ ih => exact (inserted (hinserts _ hy)).append ih

end Respaced

/-- A condition on letters, for the letters of code. -/
def ofCode {α : Type} (p : α → Bool) (x : α × Zone) : Bool := x.2.isCode && p x.1

/-- A condition on letters, for the letters of code that a scan has seen. -/
def Seen.ofCode {α : Type} (p : α → Bool) (x : Seen α) : Bool := x.zone.isCode && p x.letter

/-- Letters that are dropped and inserted do not count for the depth. -/
theorem Respaced.counted {α : Type} [Marked α] {drops inserts : α → Bool} {xs ys : List (α × Zone)}
    (hdrops : ∀ a, drops a = true → ∀ z d, depthAfter d (a, z) = d)
    (hinserts : ∀ a, inserts a = true → ∀ z d, depthAfter d (a, z) = d)
    (h : Respaced (GoDraft.ofCode drops) (GoDraft.ofCode inserts) xs ys) (depth : Nat) :
    Respaced (Seen.ofCode drops) (Seen.ofCode inserts) (counted depth xs) (counted depth ys) := by
  induction h generalizing depth with
  | nil => exact .nil
  | keep x _ ih => exact .keep _ (ih _)
  | @drop x xs ys hx _ ih =>
    rw [GoDraft.counted, hdrops x.1 (Bool.and_eq_true_iff.mp hx).2]
    exact .drop hx (ih depth)
  | @insert y xs ys hy _ ih =>
    rw [GoDraft.counted, hinserts y.1 (Bool.and_eq_true_iff.mp hy).2]
    exact .insert hy (ih depth)

/-! ## Traces -/

/-- Letters read from the start of a text, last one first, with their zones. The letter `next` follows them, and
the scanner is in the state `s` before it. -/
inductive Trace : List (Char × Zone) → Option Char → Scanner → Prop where
  | nil (next : Option Char) : Trace [] next .start
  | cons {xs : List (Char × Zone)} {c : Char} {next : Option Char} {s s' : Scanner} {z : Zone}
      (h : Trace xs (some c) s) (hread : s.read c next.toList = (z, s')) : Trace ((c, z) :: xs) next s'

namespace Trace

variable {xs : List (Char × Zone)} {c : Char} {next : Option Char} {s : Scanner} {z : Zone}

theorem fresh (h : Trace xs next s) : s.Fresh := by
  induction h with
  | nil next => simp [Scanner.Fresh, Scanner.start]
  | @cons xs c next s s' z h hread ih =>
    have hfresh := (ih.read c next.toList).1
    rwa [hread] at hfresh

/-- What is settled ahead is the zone the scanner is in, or the slash that ends a block comment. -/
theorem settled (h : Trace xs next s) : s.Settled next.toList := by
  cases h with
  | nil next => exact fun z hz => by cases hz
  | @cons _ c _ s' _ _ h hread =>
    have hsettled := s'.settled_read c next.toList
    rwa [hread] at hsettled

/-- The zones of the letters, and of a text behind them. -/
theorem zones_append (h : Trace xs next s) {t : Text} (ht : t.head? = next) :
    Scanner.start.zones ((xs.map Prod.fst).reverse ++ t) = xs.reverse ++ s.zones t := by
  induction h generalizing t with
  | nil next => rfl
  | @cons xs c next s s' z h hread ih =>
    have hnext : s.read c t = (z, s') := by
      rw [← hread, ← ht, Scanner.read, Scanner.read]
      cases t <;> rfl
    rw [List.map_cons, List.reverse_cons, List.append_assoc, List.singleton_append, ih rfl, Scanner.zones_cons, hnext,
      List.reverse_cons, List.append_assoc, List.singleton_append]

/-- In code another letter may follow, if it begins no comment. -/
theorem congr (h : Trace xs next s) (hs : s.InCode) {next' : Option Char}
    (hnext : ∀ b, next' = some b → (Marked.mark b).looksAhead = false) : Trace xs next' s := by
  cases h with
  | nil next => exact .nil next'
  | @cons _ c _ s' _ _ h hread =>
    have hcode : (s'.read c next.toList).2.InCode := by rwa [hread]
    have hread' : s'.read c next'.toList = s'.read c next.toList :=
      Scanner.read_of_inCode hcode fun b hb => hnext b (by rwa [Option.head?_toList] at hb)
    exact .cons h (hread'.trans hread)

/-- In code a line feed may be written. -/
theorem newline (h : Trace xs next s) (hs : s.InCode) (next' : Option Char) : Trace (('\n', .code) :: xs) next' s := by
  refine .cons (h.congr hs fun b hb => by cases hb; decide) ?_
  obtain ⟨z, d, k⟩ := s
  obtain ⟨rfl, rfl⟩ : z = .code ∧ k = none := ⟨hs.zone, hs.carry⟩
  rfl

theorem mark_of_isGap (h : isGap c = true) : (Marked.mark c : Mark) = .plain := by
  rw [isGap, Bool.or_eq_true, beq_iff_eq, beq_iff_eq] at h
  rcases h with rfl | rfl <;> decide

/-- In code the last letter, if it is a space or a tab, is code too and the scanner was in code before it. -/
theorem pop (h : Trace ((c, z) :: xs) next s) (hs : s.InCode) (hc : isGap c = true) :
    z = .code ∧ Trace xs (some c) s := by
  cases h with
  | @cons _ _ _ s' _ _ h hread =>
    obtain ⟨z', d, k⟩ := s'
    rw [Scanner.read, mark_of_isGap hc, Scanner.step_plain, Prod.mk.injEq] at hread
    obtain ⟨hz, rfl⟩ := hread
    obtain rfl : z' = .code := hs.zone
    cases k with
    | none => exact ⟨hz.symm, h⟩
    | some z'' =>
      -- a zone settled ahead would be that of a comment, and the letter the slash that ends it
      rcases h.settled z'' rfl with hzone | hslash
      · exact absurd (congrArg some hzone) h.fresh
      · rw [Option.toList_some, List.head?_cons, Option.map_some, mark_of_isGap hc] at hslash
        cases hslash

end Trace

/-! ## Statements on lines -/

/-- Whether a character is a line feed. -/
def isNewline (c : Char) : Bool := c == '\n'

namespace StatementLines

/-- `freshLine` for what has been written with zones. -/
def zonedFreshLine (wr : List (Char × Zone)) : List (Char × Zone) :=
  if lineIsBlank (wr.map Prod.fst) then wr else ('\n', .code) :: wr.dropWhile fun x => isGap x.1

/-- `settle` for what has been written with zones. -/
def zonedSettle (st : StatementLines) (c : Char) (wr : List (Char × Zone)) : List (Char × Zone) :=
  if !st.pending then wr else if c == '\n' || c == '\r' then wr else ('\n', .code) :: wr

/-- Whether a closing brace ends a block. -/
def endsBlock (st : StatementLines) : Bool := (st.braces.head?.getD ⟨true, 0⟩).isBlock

/-- `code` for what has been written with zones: only the end of a block changes it. -/
def zonedCode (st : StatementLines) (c : Char) (wr : List (Char × Zone)) : List (Char × Zone) :=
  if c = '}' ∧ st.endsBlock = true then zonedFreshLine wr else wr

/-- `feed` for what has been written with zones. -/
def zonedFeed (st : StatementLines) (x : Char × Zone) (wr : List (Char × Zone)) : List (Char × Zone) :=
  if st.pending && isGap x.1 then wr
  else x :: if x.2.isCode then st.zonedCode x.1 (st.zonedSettle x.1 wr) else st.zonedSettle x.1 wr

/-- `run` for what has been written with zones. -/
def zonedRun (st : StatementLines) (wr : List (Char × Zone)) : List (Seen Char) → List (Char × Zone)
  | [] => wr
  | x :: rest => (st.feed x rest).zonedRun (st.zonedFeed (x.letter, x.zone) wr) rest

/-- What has been written, with zones, is a trace that leads to the same state as what has been read, and differs
from it in blanks of code only. -/
structure Follows (st : StatementLines) (read written : List (Char × Zone)) (next : Option Char) (s : Scanner) :
    Prop where
  out : written.map Prod.fst = st.out
  trace : Trace written next s
  respaced : Respaced (ofCode isGap) (ofCode isNewline) read written

variable {st : StatementLines} {rd wr : List (Char × Zone)} {next : Option Char} {s : Scanner}

theorem Follows.newline (h : st.Follows rd wr next s) (hs : s.InCode) (next' : Option Char) (pending : Bool) :
    { st with pending := pending, out := '\n' :: st.out }.Follows rd (('\n', .code) :: wr) next' s where
  out := by rw [List.map_cons, h.out]
  trace := h.trace.newline hs next'
  respaced := .insert rfl h.respaced

/-- In code the spaces and tabs at the end of what has been written can be taken back. -/
theorem Follows.dropGaps (h : st.Follows rd wr next s) (hs : s.InCode) :
    ∃ next', { st with out := st.out.dropWhile isGap }.Follows rd (wr.dropWhile fun x => isGap x.1) next' s := by
  obtain ⟨hout, htrace, hrespaced⟩ := h
  generalize st.out = out at hout ⊢
  induction wr generalizing out next with
  | nil =>
    obtain rfl : [] = out := hout
    exact ⟨next, rfl, htrace, hrespaced⟩
  | cons x wr ih =>
    obtain ⟨c, z⟩ := x
    obtain rfl : c :: wr.map Prod.fst = out := hout
    by_cases hc : isGap c = true
    · obtain ⟨rfl, hpop⟩ := htrace.pop hs hc
      have hdrops : ofCode isGap (c, Zone.code) = true := by simp [ofCode, hc, Zone.isCode]
      rw [List.dropWhile_cons_of_pos hc, List.dropWhile_cons, if_pos hc]
      exact ih hpop (hrespaced.pop hdrops) _ rfl
    · rw [List.dropWhile_cons_of_neg hc, List.dropWhile_cons, if_neg hc]
      exact ⟨next, rfl, htrace, hrespaced⟩

/-- Beginning a new line for a closing brace. -/
theorem Follows.freshLine (h : st.Follows rd wr next s) (hs : s.InCode) :
    st.freshLine.Follows rd (zonedFreshLine wr) next s := by
  unfold StatementLines.freshLine zonedFreshLine
  rw [h.out]
  split
  · exact h
  · obtain ⟨next', h'⟩ := h.dropGaps hs
    exact h'.newline hs next st.pending

theorem closeBrace_eq (st : StatementLines) (rest : Text) : st.closeBrace rest =
    if st.endsBlock then
      { { st with braces := st.braces.tail }.freshLine with
        parens := (st.braces.head?.getD ⟨true, 0⟩).parens, pending := breaksAfter rest && !continuesBlock rest }
    else { st with braces := st.braces.tail } := rfl

/-- Of the characters of code only the end of a block changes what has been written. -/
theorem out_code (st : StatementLines) (c : Char) (rest : Text) :
    (st.code c rest).out = if c = '}' ∧ st.endsBlock = true then st.freshLine.out else st.out := by
  have hother (hc : c ≠ '}') : (if c = '}' ∧ st.endsBlock = true then st.freshLine.out else st.out) = st.out :=
    if_neg fun h => hc h.1
  unfold StatementLines.code
  split
  · exact (hother (by decide)).symm
  · exact (hother (by decide)).symm
  · rw [hother (by decide)]
    split <;> rfl
  · rw [hother (by decide)]
    unfold openBrace
    dsimp only
    split <;> rfl
  · have hfresh : { st with braces := st.braces.tail }.freshLine.out = st.freshLine.out := by
      unfold freshLine
      dsimp only
      split <;> rfl
    rw [closeBrace_eq]
    split
    · rename_i hblock
      rw [if_pos ⟨rfl, hblock⟩, ← hfresh]
    · rename_i hblock
      rw [if_neg fun h => hblock h.2]
  · rename_i hc
    exact (hother hc).symm

theorem Follows.code {c : Char} (h : st.Follows rd wr (some c) s) (hs : Marked.mark c ≠ Mark.newline → s.InCode)
    (rest : Text) : (st.code c rest).Follows rd (st.zonedCode c wr) (some c) s := by
  have hout := st.out_code c rest
  unfold zonedCode
  split
  · rename_i hends
    rw [if_pos hends] at hout
    have hfresh := h.freshLine (hs (by rw [hends.1]; decide))
    exact ⟨hfresh.out.trans hout.symm, hfresh.trace, hfresh.respaced⟩
  · rename_i hends
    rw [if_neg hends] at hout
    exact ⟨h.out.trans hout.symm, h.trace, h.respaced⟩

theorem Follows.push {c : Char} {z : Zone} {s' : Scanner} (h : st.Follows rd wr (some c) s)
    (hread : s.read c next.toList = (z, s')) : (st.push c).Follows ((c, z) :: rd) ((c, z) :: wr) next s' where
  out := by rw [List.map_cons, h.out, StatementLines.push]
  trace := .cons h.trace hread
  respaced := .keep (c, z) h.respaced

/-- Where a line is to end before the next character that is no space or tab, the scanner is in code. Where none is,
the next character follows what has been written. -/
def Keeps (st : StatementLines) (rd wr : List (Char × Zone)) (next : Option Char) (s : Scanner) : Prop :=
  ∃ next', st.Follows rd wr next' s ∧ if st.pending then s.InCode else next' = next

/-- The end of a line is settled before every character. -/
theorem Keeps.settle {c : Char} (h : st.Keeps rd wr (some c) s) :
    (st.settle c).pending = false ∧ (st.settle c).Follows rd (st.zonedSettle c wr) (some c) s := by
  obtain ⟨next', h, hpending⟩ := h
  unfold StatementLines.settle zonedSettle
  cases hp : st.pending with
  | false =>
    rw [hp, if_neg Bool.false_ne_true] at hpending
    exact ⟨hp, hpending ▸ h⟩
  | true =>
    rw [hp, if_pos rfl] at hpending
    rw [Bool.not_true, if_neg Bool.false_ne_true, if_neg Bool.false_ne_true]
    split
    · rename_i hend
      have hend : c = '\n' ∨ c = '\r' := by simpa using hend
      have hmark : ∀ b, some c = some b → (Marked.mark b).looksAhead = false := by
        rintro b ⟨rfl⟩
        rcases hend with rfl | rfl <;> decide
      exact ⟨rfl, h.out, h.trace.congr hpending hmark, h.respaced⟩
    · exact ⟨rfl, h.newline hpending (some c) false⟩

theorem endsBlock_settle (st : StatementLines) (c : Char) : (st.settle c).endsBlock = st.endsBlock := by
  unfold StatementLines.settle
  split
  · rfl
  · split <;> rfl

/-- **One character**: what has been written stays a respaced trace of what has been read. -/
theorem Keeps.feed {c : Char} {z : Zone} {s' : Scanner} (h : st.Keeps rd wr (some c) s)
    (hread : s.read c next.toList = (z, s')) (depth : Nat) (rest : List (Seen Char)) :
    (st.feed ⟨c, z, depth⟩ rest).Keeps ((c, z) :: rd) (st.zonedFeed (c, z) wr) next s' := by
  have hsettle := h.settle
  obtain ⟨next', h, hpending⟩ := h
  unfold StatementLines.feed zonedFeed
  dsimp only
  split
  · -- a space or tab is dropped before the end of a line
    rename_i hskip
    rw [Bool.and_eq_true] at hskip
    rw [hskip.1, if_pos rfl] at hpending
    obtain ⟨rfl, rfl⟩ : Zone.code = z ∧ s = s' := by
      obtain ⟨z', d, k⟩ := s
      obtain ⟨rfl, rfl⟩ : z' = .code ∧ k = none := ⟨hpending.zone, hpending.carry⟩
      rw [Scanner.read, Trace.mark_of_isGap hskip.2, Scanner.step_plain, Prod.mk.injEq] at hread
      exact hread
    have hdrops : ofCode isGap (c, Zone.code) = true := by simp [ofCode, hskip.2, Zone.isCode]
    exact ⟨next', ⟨h.out, h.trace, .drop hdrops h.respaced⟩, by rwa [hskip.1, if_pos rfl]⟩
  · obtain ⟨hpending', h'⟩ := hsettle
    cases hz : z.isCode with
    | true =>
      obtain rfl := Zone.eq_code_of_isCode hz
      -- code is read from code, so that the braces count
      have hcode : (s.read c next.toList).1 = .code := by rw [hread]
      obtain ⟨hnext, hbefore⟩ := h'.trace.fresh.inCode_of_code hcode
      rw [hread] at hnext
      have h'' := h'.code hbefore (rest.map Seen.letter)
      rw [zonedCode, endsBlock_settle, ← zonedCode] at h''
      refine ⟨next, h''.push hread, ?_⟩
      rw [if_pos rfl]
      split
      · exact hnext
      · rfl
    | false =>
      refine ⟨next, h'.push hread, ?_⟩
      rw [if_neg Bool.false_ne_true, StatementLines.push, hpending', if_neg Bool.false_ne_true]

/-- **All characters**: what has been written at the end is a respaced trace of the body. -/
theorem Keeps.run {body : Text} (h : st.Keeps rd wr body.head? s) :
    ∃ s', (st.run (s.run body)).Follows ((s.zones body).reverse ++ rd) (st.zonedRun wr (s.run body)) none s' := by
  induction body generalizing st rd wr s with
  | nil =>
    obtain ⟨next', h, hpending⟩ := h
    refine ⟨s, h.out, ?_, h.respaced⟩
    split at hpending
    · exact h.trace.congr hpending fun b hb => by cases hb
    · subst hpending
      exact h.trace
  | cons c rest ih =>
    have hread : s.read c rest.head?.toList = s.read c rest := by
      rw [Scanner.read, Scanner.read]
      cases rest <;> rfl
    obtain ⟨s', h'⟩ := ih (h.feed hread s.depth ((s.read c rest).2.run rest))
    refine ⟨s', ?_⟩
    rw [Scanner.zones_cons, List.reverse_cons, List.append_assoc, List.singleton_append]
    exact h'

end StatementLines

/-! ## Split bodies -/

/-- A split body with zones, last character first. -/
def splitZones (body : Text) : List (Char × Zone) := ({} : StatementLines).zonedRun [] (scan body)

theorem exists_follows_splitZones (body : Text) :
    ∃ s', (({} : StatementLines).run (scan body)).Follows (zoned body).reverse (splitZones body) none s' := by
  have hcode : Scanner.start.InCode := ⟨rfl, rfl⟩
  have hstart : ({} : StatementLines).Keeps [] [] body.head? .start := ⟨body.head?, ⟨rfl, .nil _, .nil⟩, rfl⟩
  have hrun := hstart.run
  rwa [List.append_nil, Scanner.zones_eq_zoned hcode] at hrun

/-- The zones that have been written are the zones of the split body. -/
theorem zoned_splitStatements (body : Text) : zoned (splitStatements body) = (splitZones body).reverse := by
  have hcode : Scanner.start.InCode := ⟨rfl, rfl⟩
  obtain ⟨s', hout, htrace, -⟩ := exists_follows_splitZones body
  -- the trace is last one first
  have hzones := htrace.zones_append (t := []) rfl
  have hempty : s'.zones ([] : Text) = [] := rfl
  rw [List.append_nil, hout, Scanner.zones_eq_zoned hcode, hempty, List.append_nil] at hzones
  exact hzones

/-- **The zones of a split body** are those of the body, but for blanks of code. -/
theorem respaced_zoned (body : Text) :
    Respaced (ofCode isGap) (ofCode isNewline) (zoned body) (zoned (splitStatements body)) := by
  obtain ⟨s', -, -, hrespaced⟩ := exists_follows_splitZones body
  have hreverse := hrespaced.reverse
  rwa [List.reverse_reverse, ← zoned_splitStatements] at hreverse

/-- Whether a byte is a space or a tab. -/
def isGapByte (b : UInt8) : Bool := b == 0x20 || b == 0x09

/-- Whether a byte is a line feed. -/
def isNewlineByte (b : UInt8) : Bool := b == 0x0a

/-- Whether a byte is a space, a tab or a line feed. -/
def isSpaceByte (b : UInt8) : Bool := isGapByte b || isNewlineByte b

/-- The bytes of a text that a walk finds, with their zones and depths. -/
def seenBytes (t : Text) : List (Seen UInt8) := (Walker.startingAt t.bytes 0).spots.map Spot.seen

theorem respaced_zoned_bytes (body : Text) :
    Respaced (ofCode isGapByte) (ofCode isNewlineByte) (zoned body.bytes)
      (zoned (Text.bytes (splitStatements body))) := by
  rw [zoned_bytes, zoned_bytes]
  refine (respaced_zoned body).flatMap ?_ ?_
  · rintro ⟨c, z⟩ hx
    rw [ofCode, Bool.and_eq_true] at hx
    obtain ⟨hz, hc⟩ := hx
    rw [isGap, Bool.or_eq_true, beq_iff_eq, beq_iff_eq] at hc
    obtain rfl := Zone.eq_code_of_isCode hz
    rcases hc with rfl | rfl <;> decide
  · rintro ⟨c, z⟩ hx
    rw [ofCode, Bool.and_eq_true] at hx
    obtain ⟨hz, hc⟩ := hx
    rw [isNewline, beq_iff_eq] at hc
    obtain rfl := Zone.eq_code_of_isCode hz
    subst hc
    decide

theorem depthAfter_of_isSpaceByte {b : UInt8} (h : isSpaceByte b = true) (z : Zone) (d : Nat) :
    depthAfter d (b, z) = d := by
  simp only [isSpaceByte, isGapByte, isNewlineByte, Bool.or_eq_true, beq_iff_eq] at h
  rcases h with (rfl | rfl) | rfl <;> cases z <;> rfl

theorem respaced_seenBytes (body : Text) :
    Respaced (Seen.ofCode isGapByte) (Seen.ofCode isNewlineByte) (seenBytes body)
      (seenBytes (splitStatements body)) := by
  rw [seenBytes, seenBytes, map_seen_spots, map_seen_spots, scan_eq_counted, scan_eq_counted]
  refine (respaced_zoned_bytes body).counted ?_ ?_ 0
  · exact fun b hb => depthAfter_of_isSpaceByte (by simp [isSpaceByte, hb])
  · exact fun b hb => depthAfter_of_isSpaceByte (by simp [isSpaceByte, hb])

/-- **Splitting changes blanks of code only**: a walk through a split body finds the bytes, zones and depths of the
body, less some spaces and tabs of code and with some line feeds of code more. So without the blanks of code both
are the same, literals and comments are the same with their blanks, no line feed is lost, and nothing but
line feeds is new. -/
theorem respaced_splitStatements (body : Text) :
    Respaced (Seen.ofCode isGapByte) (Seen.ofCode isNewlineByte) (seenBytes body) (seenBytes (splitStatements body)) ∧
      ((seenBytes (splitStatements body)).filter fun x => !x.ofCode isSpaceByte) =
        (seenBytes body).filter (fun x => !x.ofCode isSpaceByte) ∧
      ((seenBytes (splitStatements body)).filter fun x => !x.zone.isCode) =
        (seenBytes body).filter (fun x => !x.zone.isCode) ∧
      ((seenBytes body).filter fun x => !x.ofCode isGapByte).Sublist (seenBytes (splitStatements body)) ∧
      ((seenBytes (splitStatements body)).filter fun x => !x.ofCode isNewlineByte).Sublist (seenBytes body) := by
  have h := respaced_seenBytes body
  refine ⟨h, (h.filter_eq ?_ ?_).symm, (h.filter_eq ?_ ?_).symm, h.filter_sublist ?_, h.sublist_filter ?_⟩
  all_goals
    intro x hx
    simp only [Seen.ofCode, isSpaceByte, Bool.and_eq_true] at hx ⊢
    simp [hx]

end GoDraft
