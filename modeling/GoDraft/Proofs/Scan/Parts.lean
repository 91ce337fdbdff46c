import GoDraft.Proofs.Scan.Comments

/-!
# GoDraft — texts in parts

A scanner looks at one letter ahead. So the zones of a part of a text hang on the letter behind it, and on no more
than that. Where a part ends in code, any letter that begins no comment could stand there.

* `Scanner.Fresh.inCode_of_code`, `Scanner.read_of_inCode` — one letter of code;
* `Scanner.zonesTo`, `Scanner.past` — a part, and the state behind it;
* `Scanner.past_congr`, `Scanner.past_congr_of_last`, `Scanner.zonesTo_congr` — other letters behind a part;
* `enclosed` — the letters of literals and comments.
-/

namespace GoDraft

theorem Zone.eq_code_of_isCode {z : Zone} (h : z.isCode = true) : z = .code := by
  cases z with
  | code => rfl
  | _ => cases h

namespace Scanner

section Letters

variable {α : Type} [Marked α] {s : Scanner}

/-- A scanner tells code only from code, but for a line feed, and stands in code behind it. -/
theorem Fresh.inCode_of_code (h : s.Fresh) {a : α} {rest : List α} (hz : (s.read a rest).1 = .code) :
    (s.read a rest).2.InCode ∧ (Marked.mark a ≠ .newline → s.InCode) := by
  obtain ⟨z, d, k⟩ := s
  unfold Scanner.read at hz ⊢
  generalize rest.head?.map Marked.mark = next at hz ⊢
  generalize Marked.mark a = m at hz ⊢
  cases k with
  -- what was settled ahead is never code
  | some z' => exact absurd (congrArg some hz) h
  | none =>
    unfold Scanner.step at hz ⊢
    cases z with
    | code =>
      refine ⟨?_, fun _ => ⟨rfl, rfl⟩⟩
      cases m with
      | quote q => cases hz
      | slash =>
        cases next with
        | none => exact ⟨rfl, rfl⟩
        | some m' =>
          cases m' with
          | slash => cases hz
          | star => cases hz
          | _ => exact ⟨rfl, rfl⟩
      | _ => exact ⟨rfl, rfl⟩
    | literal q =>
      cases m with
      | newline => exact ⟨⟨rfl, rfl⟩, fun hne => absurd rfl hne⟩
      | _ => cases hz
    | lineComment =>
      cases m with
      | newline => exact ⟨⟨rfl, rfl⟩, fun hne => absurd rfl hne⟩
      | _ => cases hz
    | blockComment =>
      cases m with
      | star => cases next with
        | none => cases hz
        | some m' => cases m' <;> cases hz
      | _ => cases hz

/-- Where a letter leaves the scanner in code, the letter behind it makes no comment of it, and any other letter
that makes none could stand there. -/
theorem read_of_inCode {a : α} {rest rest' : List α} (h : (s.read a rest).2.InCode)
    (hrest : ∀ b, rest'.head? = some b → (Marked.mark b).looksAhead = false) :
    s.read a rest' = s.read a rest := by
  obtain ⟨z, d, k⟩ := s
  have hnext : rest'.head?.map Marked.mark ≠ some .slash ∧ rest'.head?.map Marked.mark ≠ some .star := by
    cases hhead : rest'.head? with
    | none => simp
    | some b =>
      have hb := hrest b hhead
      constructor <;> (intro hmark; rw [Option.map_some, Option.some.injEq] at hmark; rw [hmark] at hb; cases hb)
  unfold read at h ⊢
  generalize rest'.head?.map Marked.mark = next' at hnext ⊢
  generalize rest.head?.map Marked.mark = next at h ⊢
  generalize Marked.mark a = m at h ⊢
  obtain ⟨hzone, hcarry⟩ := h
  unfold step at hzone hcarry ⊢
  -- only a slash in code and a star in a comment look at the letter behind them
  cases k with
  | some z' => rfl
  | none =>
    cases z with
    | code =>
      cases m with
      | slash => grind
      | _ => rfl
    | blockComment =>
      cases m with
      | star => grind
      | _ => cases hzone
    | _ => rfl

end Letters

/-! ## Parts -/

variable {s : Scanner} {next next' : Option Char} {p q t : Text}

/-- The zones of the letters of a text that the letter `next` follows. -/
def zonesTo (s : Scanner) (next : Option Char) : Text → List (Char × Zone)
  | [] => []
  | c :: p => (c, (s.read c (p.head?.or next).toList).1) :: (s.read c (p.head?.or next).toList).2.zonesTo next p

/-- The state behind a text that the letter `next` follows. -/
def past (s : Scanner) (next : Option Char) : Text → Scanner
  | [] => s
  | c :: p => (s.read c (p.head?.or next).toList).2.past next p

theorem read_append_toList (s : Scanner) (c : Char) (p q : Text) :
    s.read c (p.head?.or q.head?).toList = s.read c (p ++ q) := by
  rw [read, read, Option.head?_toList, List.head?_append]

/-- **A text in two parts**. -/
theorem zones_append (s : Scanner) (p q : Text) :
    s.zones (p ++ q) = s.zonesTo q.head? p ++ (s.past q.head? p).zones q := by
  induction p generalizing s with
  | nil => rfl
  | cons c p ih => rw [List.cons_append, zones_cons, ih, zonesTo, past, read_append_toList, List.cons_append]

theorem map_fst_zonesTo (s : Scanner) (next : Option Char) (p : Text) : (s.zonesTo next p).map Prod.fst = p := by
  induction p generalizing s with
  | nil => rfl
  | cons c p ih => rw [zonesTo, List.map_cons, ih]

theorem Fresh.past (h : s.Fresh) (next : Option Char) (p : Text) : (s.past next p).Fresh := by
  induction p generalizing s with
  | nil => exact h
  | cons c p ih => exact ih (h.read c _).1

/-- A part in two parts. -/
theorem past_append (s : Scanner) (next : Option Char) (p q : Text) :
    s.past next (p ++ q) = (s.past (q.head?.or next) p).past next q := by
  induction p generalizing s with
  | nil => rfl
  | cons c p ih => rw [List.cons_append, past, past, ih, List.head?_append, Option.or_assoc]

theorem zonesTo_append (s : Scanner) (next : Option Char) (p q : Text) :
    s.zonesTo next (p ++ q) = s.zonesTo (q.head?.or next) p ++ (s.past (q.head?.or next) p).zonesTo next q := by
  induction p generalizing s with
  | nil => rfl
  | cons c p ih =>
    rw [List.cons_append, zonesTo, zonesTo, past, ih, List.head?_append, Option.or_assoc, List.cons_append]

theorem Settled.past (h : s.Settled (p ++ q)) : (s.past q.head? p).Settled q := by
  induction p generalizing s with
  | nil => exact h
  | cons c p ih =>
    refine ih ?_
    rw [read_append_toList]
    exact s.settled_read c (p ++ q)

/-- The last letter of a part. -/
theorem zonesTo_concat (s : Scanner) (next : Option Char) (p : Text) (c : Char) :
    s.zonesTo next (p ++ [c]) = s.zonesTo (some c) p ++ [(c, ((s.past (some c) p).read c next.toList).1)] ∧
      s.past next (p ++ [c]) = ((s.past (some c) p).read c next.toList).2 :=
  ⟨s.zonesTo_append next p [c], s.past_append next p [c]⟩

/-- Where a part ends in code, any letter that begins no comment could follow it. -/
theorem past_congr (h : (s.past next p).InCode)
    (hnext : ∀ b, next' = some b → (Marked.mark b).looksAhead = false) :
    s.zonesTo next' p = s.zonesTo next p ∧ s.past next' p = s.past next p := by
  rcases List.eq_nil_or_concat p with rfl | ⟨p, c, rfl⟩
  · exact ⟨rfl, rfl⟩
  · rw [List.concat_eq_append] at h ⊢
    obtain ⟨hzones, hpast⟩ := s.zonesTo_concat next p c
    obtain ⟨hzones', hpast'⟩ := s.zonesTo_concat next' p c
    rw [hpast] at h
    have hread : (s.past (some c) p).read c next'.toList = (s.past (some c) p).read c next.toList :=
      read_of_inCode h fun b hb => hnext b (by rwa [Option.head?_toList] at hb)
    rw [hzones, hpast, hzones', hpast', hread]
    exact ⟨rfl, rfl⟩

theorem read_of_not_slash {c : Char} {rest : Text} (h : (s.read c rest).2.InCode)
    (hslash : Marked.mark c = Mark.slash → (s.read c rest).1 ≠ .code) (rest' : Text) :
    s.read c rest' = s.read c rest := by
  obtain ⟨z, d, k⟩ := s
  unfold read at h hslash ⊢
  generalize rest'.head?.map (Marked.mark : Char → Mark) = next'
  generalize rest.head?.map (Marked.mark : Char → Mark) = next at h hslash ⊢
  generalize (Marked.mark c : Mark) = m at h hslash ⊢
  obtain ⟨hzone, hcarry⟩ := h
  unfold step at hzone hcarry hslash ⊢
  cases k with
  | some z' => rfl
  | none =>
    cases z with
    | code =>
      cases m with
      | slash => grind
      | _ => rfl
    | blockComment =>
      cases m with
      | star => grind
      | _ => cases hzone
    | _ => rfl

/-- Where a part ends in code and its last letter is no slash of code, any letter could follow it. -/
theorem past_congr_of_last (h : (s.past next p).InCode)
    (hlast : ∀ c, (s.zonesTo next p).getLast? = some (c, .code) → Marked.mark c ≠ Mark.slash) (next' : Option Char) :
    s.zonesTo next' p = s.zonesTo next p ∧ s.past next' p = s.past next p := by
  rcases List.eq_nil_or_concat p with rfl | ⟨p, c, rfl⟩
  · exact ⟨rfl, rfl⟩
  · rw [List.concat_eq_append] at h hlast ⊢
    obtain ⟨hzones, hpast⟩ := s.zonesTo_concat next p c
    obtain ⟨hzones', hpast'⟩ := s.zonesTo_concat next' p c
    rw [hpast] at h
    rw [hzones, List.getLast?_concat] at hlast
    have hslash : Marked.mark c = Mark.slash → ((s.past (some c) p).read c next.toList).1 ≠ .code :=
      fun hmark hcode => hlast c (by rw [hcode]) hmark
    rw [hzones, hpast, hzones', hpast', read_of_not_slash h hslash]
    exact ⟨rfl, rfl⟩

theorem zone_of_not_inCode {a c : Char} (ha : (Marked.mark a).looksAhead = false) (h : ¬ (s.read c [a]).2.InCode)
    (rest : Text) : (s.read c rest).1 = (s.read c [a]).1 := by
  obtain ⟨z, d, k⟩ := s
  unfold read at h ⊢
  rw [List.head?_cons, Option.map_some] at h ⊢
  generalize rest.head?.map (Marked.mark : Char → Mark) = next
  generalize (Marked.mark a : Mark) = m' at ha h ⊢
  generalize (Marked.mark c : Mark) = m at h ⊢
  unfold step at h ⊢
  cases k with
  | some z' => rfl
  | none =>
    cases z with
    | code =>
      cases m with
      | slash =>
        -- the slash would be code, and the letter behind it too
        cases m' with
        | slash => cases ha
        | star => cases ha
        | _ => exact absurd ⟨rfl, rfl⟩ h
      | _ => rfl
    | blockComment =>
      cases m with
      | star => cases next with
        | none => cases m' <;> rfl
        | some m'' => cases m' <;> cases m'' <;> rfl
      | _ => rfl
    | _ => rfl

/-- Where a part does not end in code, its zones do not hang on the letter behind it. -/
theorem zonesTo_congr {a : Char} (ha : (Marked.mark a).looksAhead = false) (h : ¬ (s.past (some a) p).InCode)
    (next : Option Char) : s.zonesTo next p = s.zonesTo (some a) p := by
  rcases List.eq_nil_or_concat p with rfl | ⟨p, c, rfl⟩
  · rfl
  · rw [List.concat_eq_append] at h ⊢
    obtain ⟨hzones, hpast⟩ := s.zonesTo_concat (some a) p c
    obtain ⟨hzones', -⟩ := s.zonesTo_concat next p c
    rw [hpast] at h
    rw [hzones, hzones', zone_of_not_inCode ha h]
    rfl

/-! ## Letters in code and in comments -/

theorem fresh_of_carry (h : s.carry = none) : s.Fresh := by
  intro hcode
  rw [h] at hcode
  cases hcode

theorem settled_of_carry (h : s.carry = none) (t : Text) : s.Settled t := by
  intro z hz
  rw [h] at hz
  cases hz

theorem InCode.fresh (h : s.InCode) : s.Fresh := fresh_of_carry h.carry

theorem InCode.settled (h : s.InCode) (t : Text) : s.Settled t := settled_of_carry h.carry t

theorem InCode.read_plain (h : s.InCode) {c : Char} (hc : (Marked.mark c : Mark) = .plain) (rest : Text) :
    s.read c rest = (.code, s) := by
  obtain ⟨z, d, k⟩ := s
  obtain ⟨rfl, rfl⟩ : z = .code ∧ k = none := ⟨h.zone, h.carry⟩
  rw [read, hc, step_plain]
  rfl

/-- Plain letters in code are code. -/
theorem InCode.zones_plain (h : s.InCode) (hp : ∀ c ∈ p, (Marked.mark c : Mark) = .plain) (q : Text) :
    s.zones (p ++ q) = p.map (fun c => (c, .code)) ++ s.zones q := by
  induction p with
  | nil => rfl
  | cons c p ih =>
    rw [List.forall_mem_cons] at hp
    rw [List.cons_append, zones_cons, h.read_plain hp.1, ih hp.2]
    rfl

theorem InCode.past_plain (h : s.InCode) (hp : ∀ c ∈ p, (Marked.mark c : Mark) = .plain) (next : Option Char) :
    s.past next p = s := by
  induction p with
  | nil => rfl
  | cons c p ih =>
    rw [List.forall_mem_cons] at hp
    rw [past, h.read_plain hp.1, ih hp.2]

/-- Behind plain letters the scanner is in code only if it is so before them. -/
theorem InCode.of_past (hfresh : s.Fresh) (hsettled : s.Settled (p ++ q))
    (hp : ∀ c ∈ p, (Marked.mark c : Mark) = .plain) (h : (s.past q.head? p).InCode) : s.InCode := by
  induction p generalizing s with
  | nil => exact h
  | cons c p ih =>
    rw [List.forall_mem_cons] at hp
    have hread : s.read c (p ++ q) = (s.carry.getD s.zone, { s with carry := none }) := by
      rw [read, hp.1, step_plain]
    rw [past, read_append_toList, hread] at h
    have hcode := ih (fresh_of_carry rfl) (settled_of_carry rfl _) hp.2 h
    refine ⟨hcode.zone, ?_⟩
    -- a zone settled ahead would be that of a comment, and the letter the slash that ends it
    cases hcarry : s.carry with
    | none => rfl
    | some z =>
      rcases hsettled z hcarry with hzone | hslash
      · rw [Fresh, hcarry, hzone] at hfresh
        exact absurd (congrArg some hcode.zone) hfresh
      · rw [List.cons_append, List.head?_cons, Option.map_some, hp.1] at hslash
        cases hslash

theorem InCode.read_newline (h : s.InCode) (rest : Text) : s.read '\n' rest = (.code, s) := by
  obtain ⟨z, d, k⟩ := s
  obtain ⟨rfl, rfl⟩ : z = .code ∧ k = none := ⟨h.zone, h.carry⟩
  rfl

theorem InCode.read_slash (h : s.InCode) {rest : Text} (hbehind : (s.read '/' rest).2.InCode) :
    (s.read '/' rest).2 = s := by
  obtain ⟨z, d, k⟩ := s
  obtain ⟨rfl, rfl⟩ : z = .code ∧ k = none := ⟨h.zone, h.carry⟩
  unfold read at hbehind ⊢
  generalize rest.head?.map (Marked.mark : Char → Mark) = next at hbehind ⊢
  cases next with
  | none => rfl
  | some m =>
    cases m with
    | slash => cases hbehind.zone
    | star => cases hbehind.zone
    | _ => rfl

/-- Where the last letter is a slash of code, the scanner is in code before it and does not change. -/
theorem Fresh.past_slash (h : s.Fresh) (hlast : (s.zonesTo next p).getLast? = some ('/', .code)) :
    ∃ p₀, p = p₀ ++ ['/'] ∧ (s.past (some '/') p₀).InCode ∧ s.past next p = s.past (some '/') p₀ ∧
      s.zonesTo next p = s.zonesTo (some '/') p₀ ++ [('/', .code)] := by
  have hletter : p.getLast? = some '/' := by
    rw [← s.map_fst_zonesTo next p, List.getLast?_map, hlast]
    rfl
  obtain ⟨p₀, rfl⟩ := List.getLast?_eq_some_iff.1 hletter
  obtain ⟨hzones, hpast⟩ := s.zonesTo_concat next p₀ '/'
  rw [hzones, List.getLast?_concat, Option.some.injEq, Prod.mk.injEq] at hlast
  obtain ⟨hbehind, hbefore⟩ := (h.past (some '/') p₀).inCode_of_code hlast.2
  have hcode := hbefore (by decide)
  refine ⟨p₀, rfl, hcode, ?_, by rw [hzones, hlast.2]⟩
  rw [hpast, hcode.read_slash hbehind]

/-- A line comment goes on to the end of the line. -/
theorem zones_lineComment (hz : s.zone = .lineComment) (hk : s.carry = none)
    (hp : ∀ c ∈ p, (Marked.mark c : Mark) ≠ .newline) (q : Text) :
    s.zones (p ++ q) = p.map (fun c => (c, .lineComment)) ++ s.zones q := by
  induction p with
  | nil => rfl
  | cons c p ih =>
    rw [List.forall_mem_cons] at hp
    have hread : s.read c (p ++ q) = (.lineComment, s) := by
      obtain ⟨z, d, k⟩ := s
      obtain rfl : z = .lineComment := hz
      obtain rfl : k = none := hk
      unfold read step
      cases hmark : (Marked.mark c : Mark) with
      | newline => exact absurd hmark hp.1
      | _ => rfl
    rw [List.cons_append, zones_cons, hread, ih hp.2]
    rfl

/-- The state in a line comment. -/
def inLineComment (s : Scanner) : Scanner := { s with zone := .lineComment }

/-- Two slashes in code begin a line comment. -/
theorem InCode.zones_slashes (h : s.InCode) (hp : ∀ c ∈ p, (Marked.mark c : Mark) ≠ .newline) (q : Text) :
    s.zones ('/' :: '/' :: (p ++ q)) =
      ('/' :: '/' :: p).map (fun c => (c, .lineComment)) ++ s.inLineComment.zones q := by
  obtain ⟨z, d, k⟩ := s
  obtain ⟨rfl, rfl⟩ : z = .code ∧ k = none := ⟨h.zone, h.carry⟩
  have hslashes : ∀ c ∈ '/' :: p, (Marked.mark c : Mark) ≠ .newline := List.forall_mem_cons.2 ⟨by decide, hp⟩
  have hrest := zones_lineComment (s := ⟨.lineComment, d, none⟩) rfl rfl hslashes q
  rw [zones_cons, inLineComment, List.map_cons, List.cons_append, ← hrest]
  rfl

end Scanner

/-! ## Letters of literals and comments -/

/-- The letters of literals and comments. -/
def enclosed {α : Type} (zs : List (α × Zone)) : List α := (zs.filter fun x => !x.2.isCode).map Prod.fst

theorem enclosed_append {α : Type} (xs ys : List (α × Zone)) : enclosed (xs ++ ys) = enclosed xs ++ enclosed ys := by
  rw [enclosed, List.filter_append, List.map_append]
  rfl

theorem enclosed_map {α : Type} (z : Zone) (xs : List α) :
    enclosed (xs.map fun a => (a, z)) = if z.isCode then [] else xs := by
  rw [enclosed, List.filter_map, List.map_map]
  cases hz : z.isCode <;> simp [Function.comp_def, hz]

theorem enclosed_cons_of_code {α : Type} (a : α) (zs : List (α × Zone)) :
    enclosed ((a, Zone.code) :: zs) = enclosed zs := rfl

theorem enclosed_cons {α : Type} (a : α) {z : Zone} (hz : z ≠ .code) (zs : List (α × Zone)) :
    enclosed ((a, z) :: zs) = a :: enclosed zs := by
  cases z with
  | code => exact absurd rfl hz
  | _ => rfl

namespace Scanner

variable {s : Scanner} {t : Text} {a : Char}

/-- From code, the first letter of a literal or a comment is a quote or a slash. -/
theorem InCode.leavesCode_of_head? (h : s.InCode) (ha : (enclosed (s.zones t)).head? = some a) :
    (Marked.mark a).leavesCode = true := by
  induction t generalizing s with
  | nil => cases ha
  | cons c t ih =>
    rw [zones_cons] at ha
    by_cases hzone : (s.read c t).1 = .code
    · rw [hzone, enclosed_cons_of_code] at ha
      exact ih (h.fresh.inCode_of_code hzone).1 ha
    · rw [enclosed_cons c hzone] at ha
      obtain rfl : c = a := Option.some.inj ha
      by_contra hmark
      exact hzone (h.step (Bool.eq_false_iff.2 hmark) _).1

/-- The first letter of a literal or a comment is the next one, or a quote or a slash. -/
theorem Fresh.head?_or_leavesCode (h : s.Fresh) (ha : (enclosed (s.zones t)).head? = some a) :
    t.head? = some a ∨ (Marked.mark a).leavesCode = true := by
  cases t with
  | nil => cases ha
  | cons c t =>
    rw [zones_cons] at ha
    by_cases hzone : (s.read c t).1 = .code
    · rw [hzone, enclosed_cons_of_code] at ha
      exact .inr ((h.inCode_of_code hzone).1.leavesCode_of_head? ha)
    · rw [enclosed_cons c hzone] at ha
      exact .inl ha

end Scanner

end GoDraft
