import GoDraft.Proofs.Java.MethodSearch
import GoDraft.Proofs.Java.Reading

/-!
# GoDraft — the search for methods by rounds

The methods of a class are found in one walk along its text. The same search can be told by rounds, each from an
offset: the next header at or behind the offset is looked for, and the round tells the offset where the search goes
on. That offset is always further on, between two characters and inside the text, so no cut of a round is a fault and
there is an end to the rounds.

* `methodRound`, `methodRound_progress` — one round, and that it goes forward;
* `methodRounds` — all rounds from an offset on;
* `methodFindings_eq_methodRounds` — the rounds from the start find what the walk finds.
-/

namespace GoDraft

open Pattern

/-! ## Rounds -/

/-- What is made of a header: the offset where the search goes on, and what the member behind the header is taken
for, if there is one. -/
def takeHeader (source className : Text) (m : Match) : Except Fault (Nat × Option MethodFinding) :=
  if isMemberAt source m.start then do
    match ← blockEnd source m.brace true with
    | none => return (m.stop, none)
    | some close =>
      let body ← source.slice (m.brace + 1) close
      return (close + 1, some (methodFinding className m body))
  else .ok (m.stop, none)

/-- One round of the search from an offset on. There is none without a header ahead. -/
def methodRound (source className : Text) (position : Nat) : Except Fault (Option (Nat × Option MethodFinding)) := do
  let front ← source.slice 0 position
  let rest ← source.slice position source.size
  match methodHeader.findFrom? front.getLast? position rest with
  | none => return none
  | some m => return some (← takeHeader source className m)

section Walk

variable {source className u : Text}

/-- What a walk finds from behind `u` on. -/
def walkBehind (source className u t : Text) : Except Fault (List MethodFinding) :=
  methodFindingsFrom source className u.size u.getLast? u.size t

/-- A walk that is to go on behind a part of the text goes on there. -/
theorem methodFindingsFrom_behind {c : Char} {rest v t : Text} (hv : v ≠ []) (hrest : c :: rest = v ++ t) :
    methodFindingsFrom source className (u ++ v).size (some c) (u.size + c.utf8Size) rest =
      walkBehind source className (u ++ v) t := by
  obtain ⟨d, w, rfl⟩ := List.exists_cons_of_ne_nil hv
  rw [List.cons_append, List.cons.injEq] at hrest
  obtain ⟨rfl, rfl⟩ := hrest
  have hsize : u.size + c.utf8Size + Text.size w = (u ++ c :: w).size := by
    rw [Text.size_append, Text.size_cons, Nat.add_assoc]
  have hlast : lastOf (some c) w = (u ++ c :: w).getLast? := by
    rw [← lastOf_cons none, lastOf, Option.or_none]
    simp [List.getLast?_append, List.getLast?_cons]
  rw [walkBehind, methodFindingsFrom_resume w (some c) _ hsize, hlast]

/-- Where a walk was to go on does not count once it is past. -/
theorem methodFindingsFrom_congr {resume resume' : Nat} : ∀ (t : Text) (b : Option Char) (offset : Nat),
    resume ≤ offset → resume' ≤ offset →
      methodFindingsFrom source className resume b offset t = methodFindingsFrom source className resume' b offset t
  | [], b, offset, _, _ => rfl
  | c :: rest, b, offset, h, h' => by
    have ih := methodFindingsFrom_congr rest (some c) (offset + c.utf8Size) (Nat.le_add_right_of_le h)
      (Nat.le_add_right_of_le h')
    rw [methodFindingsFrom, methodFindingsFrom, if_neg (Nat.not_lt.mpr h), if_neg (Nat.not_lt.mpr h')]
    cases methodHeader.matchAt? ⟨b, offset, c :: rest⟩ with
    | none => exact ih
    | some m => rfl

/-- The stop of a header is behind its brace. -/
theorem stop_of_methodHeader {k : Cursor} {m : Match} (hm : methodHeader.matchAt? k = some m) :
    m.stop = m.brace + 1 := by
  obtain ⟨b, offset, t⟩ := k
  obtain ⟨v, s, -, -, his⟩ := exists_first_of_matchAt? hm
  obtain ⟨-, -, g, hfits, -⟩ := fits_of_matchAt? hm
  rw [his.text] at hfits
  obtain ⟨head, _, brace, _, -, hbrace, rfl, -⟩ := hfits
  obtain ⟨rfl, -⟩ := fits_text hbrace
  have hpos : 0 < (head ++ "\x7b".toList).size := by
    rw [Text.size_append]
    exact Nat.lt_add_left _ Nat.one_pos
  have hstop : 0 < m.stop := by
    rw [his.stop]
    exact Nat.lt_add_left _ hpos
  rw [Match.brace]
  omega

/-- A walk that meets a header makes of it what a round does, and goes on where the round says. -/
theorem walkBehind_of_match {c : Char} {rest : Text} {m : Match}
    (hm : methodHeader.matchAt? ⟨u.getLast?, u.size, c :: rest⟩ = some m) :
    walkBehind source className u (c :: rest) = (do
      let r ← takeHeader source className m
      let xs ← methodFindingsFrom source className r.1 (some c) (u.size + c.utf8Size) rest
      return r.2.toList ++ xs) := by
  have hnone : ∀ y : Except Fault (List MethodFinding), y = (do return [] ++ (← y)) := by
    intro y
    cases y <;> rfl
  rw [walkBehind, methodFindingsFrom, if_neg (Nat.lt_irrefl _), hm, takeHeader]
  dsimp only
  split
  · cases blockEnd source m.brace true with
    | error fault => rfl
    | ok close? =>
      cases close? with
      | none => exact hnone _
      | some close =>
        dsimp only [bind, Except.bind]
        cases source.slice (m.brace + 1) close <;> rfl
  · exact hnone _

/-- A header is made something of without a fault, and the search goes on behind it. -/
theorem exists_takeHeader (className : Text) {t : Text} {m : Match} (hsource : source = u ++ t)
    (hm : methodHeader.matchAt? ⟨u.getLast?, u.size, t⟩ = some m) :
    ∃ v t' x?, v ≠ [] ∧ t = v ++ t' ∧ takeHeader source className m = .ok ((u ++ v).size, x?) := by
  obtain ⟨head, tail, rfl, hbrace⟩ := exists_brace_of_methodHeader hm
  rw [← Text.size_append] at hbrace
  have hfront : source = (u ++ head) ++ '{' :: tail := by rw [hsource, List.append_assoc]
  have hstop : m.stop = (u ++ (head ++ ['{'])).size := by
    rw [stop_of_methodHeader hm, hbrace, ← List.append_assoc, Text.size_append (u ++ head)]
    rfl
  have hskip : ∃ v t' x?, v ≠ [] ∧ head ++ '{' :: tail = v ++ t' ∧
      (.ok (m.stop, none) : Except Fault (Nat × Option MethodFinding)) = .ok ((u ++ v).size, x?) :=
    ⟨head ++ ['{'], tail, none, by simp, by simp, by rw [hstop]⟩
  rw [takeHeader]
  split
  · obtain ⟨r, hr, hcut⟩ := exists_blockEnd (u ++ head) tail true
    rw [hfront, hbrace, hr]
    cases r with
    | none => exact hskip
    | some close =>
      -- the search goes on behind the brace that closes the body
      obtain ⟨body, behind, rfl, rfl⟩ := hcut close rfl
      refine ⟨head ++ '{' :: (body ++ ['}']), behind, some (methodFinding className m body), by simp, by simp, ?_⟩
      have hclose : (u ++ (head ++ '{' :: (body ++ ['}']))).size = (u ++ head).size + 1 + body.size + 1 := by
        have hopen : '{'.utf8Size = 1 := rfl
        have hend : Text.size ['}'] = 1 := rfl
        simp only [Text.size_append, Text.size_cons, hopen, hend]
        omega
      change (do let body ← Text.slice _ _ _; _) = _
      rw [slice_body, hclose]
      rfl
  · exact hskip

/-- **One round and the walk**: there is a header ahead neither for the one nor for the other, or the round makes
something of it without a fault and tells an offset behind it, and the walk goes on from there. -/
theorem methodRound_walk (className : Text) : ∀ (t u : Text), source = u ++ t →
    (methodHeader.findFrom? u.getLast? u.size t = none ∧ walkBehind source className u t = .ok []) ∨
      ∃ m v t' x?, methodHeader.findFrom? u.getLast? u.size t = some m ∧ v ≠ [] ∧ t = v ++ t' ∧
        takeHeader source className m = .ok ((u ++ v).size, x?) ∧
        walkBehind source className u t = (do return x?.toList ++ (← walkBehind source className (u ++ v) t'))
  | [], u, hsource => by
    refine .inl ⟨?_, rfl⟩
    rw [findFrom?, Option.eq_none_iff_forall_ne_some]
    intro m hm
    obtain ⟨head, rest, hnil, -⟩ := exists_brace_of_methodHeader hm
    exact absurd hnil.symm (by simp)
  | c :: rest, u, hsource => by
    rw [findFrom?]
    cases hm : methodHeader.matchAt? ⟨u.getLast?, u.size, c :: rest⟩ with
    | some m =>
      obtain ⟨v, t', x?, hv, hrest, htake⟩ := exists_takeHeader className hsource hm
      refine .inr ⟨m, v, t', x?, rfl, hv, hrest, htake, ?_⟩
      rw [walkBehind_of_match hm, htake, ← methodFindingsFrom_behind hv hrest]
      rfl
    | none =>
      -- no header begins here, and both go on behind the character
      have hsize : u.size + c.utf8Size = (u ++ [c]).size := by
        rw [Text.size_append]
        rfl
      have hlast : some c = (u ++ [c]).getLast? := List.getLast?_concat.symm
      have hwalk : walkBehind source className u (c :: rest) = walkBehind source className (u ++ [c]) rest := by
        rw [walkBehind, methodFindingsFrom, if_neg (Nat.lt_irrefl _), hm]
        dsimp only
        rw [walkBehind, ← hsize, ← hlast]
        exact methodFindingsFrom_congr rest _ _ (Nat.le_add_right _ _) (Nat.le_refl _)
      rw [hsize, hlast, hwalk]
      rcases methodRound_walk className rest (u ++ [c]) (by simp [hsource]) with
        hnone | ⟨m, v, t', x?, hm', hv, hrest, htake, hgo⟩
      · exact .inl hnone
      · rw [List.append_assoc, List.singleton_append] at htake hgo
        exact .inr ⟨m, c :: v, t', x?, hm', by simp, by rw [hrest]; rfl, htake, hgo⟩

end Walk

/-! ## All rounds -/

/-- A round from behind a front part of the text. -/
theorem methodRound_append (u t className : Text) :
    methodRound (u ++ t) className u.size =
      match methodHeader.findFrom? u.getLast? u.size t with
      | none => .ok none
      | some m => do return some (← takeHeader (u ++ t) className m) := by
  rw [methodRound, Text.slice_front, Text.slice_behind]
  rfl

/-- **A round goes forward**: from an offset between characters it makes no fault, and the offset where the search
goes on is further on, in the text and between characters. -/
theorem methodRound_progress (source className : Text) {position : Nat} (h : source.isBoundary position = true) :
    ∃ r, methodRound source className position = .ok r ∧ ∀ next x?, r = some (next, x?) →
      position < next ∧ next ≤ source.size ∧ source.isBoundary next = true := by
  obtain ⟨u, t, rfl, rfl⟩ := Text.exists_of_isBoundary h
  rw [methodRound_append]
  rcases methodRound_walk className t u rfl with ⟨hnone, -⟩ | ⟨m, v, t', x?, hm, hv, rfl, htake, -⟩
  · rw [hnone]
    exact ⟨none, rfl, by simp⟩
  · rw [hm]
    dsimp only
    rw [htake]
    refine ⟨some ((u ++ v).size, x?), rfl, ?_⟩
    rintro next y? ⟨rfl, rfl⟩
    have hpos : 0 < Text.size v := Nat.pos_of_ne_zero fun hzero => hv (Text.size_eq_zero_iff.mp hzero)
    rw [← List.append_assoc]
    refine ⟨?_, ?_, Text.isBoundary_size _ _⟩
    · rw [Text.size_append]
      omega
    · rw [Text.size_append (u ++ v)]
      omega

/-- A round from an offset that is no place of the text is a fault. -/
theorem isBoundary_of_methodRound {source className : Text} {position : Nat} {r : Option (Nat × Option MethodFinding)}
    (h : methodRound source className position = .ok r) : source.isBoundary position = true := by
  cases hfront : source.slice 0 position with
  | error fault =>
    rw [methodRound, hfront] at h
    cases h
  | ok front => exact (Text.exists_slice_iff.mp ⟨front, hfront⟩).2.2.2

/-- All rounds of the search from an offset on, until there is no header ahead. -/
def methodRounds (source className : Text) (position : Nat) : Except Fault (List MethodFinding) :=
  match _h : methodRound source className position with
  | .error fault => .error fault
  | .ok none => .ok []
  | .ok (some (next, x?)) => do return x?.toList ++ (← methodRounds source className next)
termination_by source.size - position
decreasing_by
  obtain ⟨r, hr, hnext⟩ := methodRound_progress source className (isBoundary_of_methodRound _h)
  obtain ⟨hlt, hle, -⟩ := hnext next x? (Except.ok.inj (hr.symm.trans _h))
  omega

theorem methodRounds_of_none {source className : Text} {position : Nat}
    (h : methodRound source className position = .ok none) : methodRounds source className position = .ok [] := by
  rw [methodRounds]
  split
  · rename_i hround
    rw [h] at hround
    cases hround
  · rfl
  · rename_i hround
    rw [h] at hround
    cases hround

theorem methodRounds_of_some {source className : Text} {position next : Nat} {x? : Option MethodFinding}
    (h : methodRound source className position = .ok (some (next, x?))) :
    methodRounds source className position = (do return x?.toList ++ (← methodRounds source className next)) := by
  rw [methodRounds]
  split
  · rename_i hround
    rw [h] at hround
    cases hround
  · rename_i hround
    rw [h] at hround
    cases hround
  · rename_i hround
    rw [h] at hround
    cases hround
    rfl

/-- The rounds behind a front part of the text find what the walk finds there. -/
theorem methodRounds_eq_walkBehind (className u t : Text) :
    methodRounds (u ++ t) className u.size = walkBehind (u ++ t) className u t := by
  have hround := methodRound_append u t className
  rcases methodRound_walk className t u rfl with ⟨hnone, hwalk⟩ | ⟨m, v, t', x?, hm, hv, ht, htake, hwalk⟩
  · rw [hnone] at hround
    rw [methodRounds_of_none hround, hwalk]
  · rw [hm] at hround
    dsimp only at hround
    rw [htake] at hround
    have hrest := methodRounds_eq_walkBehind className (u ++ v) t'
    rw [List.append_assoc, ← ht] at hrest
    rw [methodRounds_of_some hround, hwalk, hrest]
termination_by t.length
decreasing_by
  have hpos := List.length_pos_of_ne_nil hv
  rw [ht, List.length_append]
  omega

/-- **The rounds from the start find what the walk finds.** -/
theorem methodFindings_eq_methodRounds (source className : Text) :
    methodFindings source className = methodRounds source className 0 :=
  (methodRounds_eq_walkBehind className [] source).symm

end GoDraft
