import GoDraft.Proofs.Body.Respacing
import GoDraft.Proofs.Body.Stripping
import GoDraft.Proofs.Scan.Parts

/-!
# GoDraft — two readings of a text

Terminators are told line by line, by a reading that knows neither block comments nor escaped line feeds. The scanner
knows them, so a semicolon can be a terminator in one reading and part of a comment or a literal in the other. What
stands in literals and comments, as the scanner tells, outlasts the dropping of terminators exactly if all of them
are code to it. There is one exception. A slash of code right before terminators and a line comment becomes part of
that comment.

* `Place`, `places` — the characters of a text in both readings;
* `Slashed`, `Parts` — texts with slashes put in, and texts that go apart;
* `Verdict` — what becomes of the rest of a text;
* `Ended.verdict_joined`, `Ended.verdict_parted` — a statement and its terminator before it;
* `Drops.verdict`, `verdict_stripTerminators` — a line, and a text;
* `enclosed_stripTerminators_eq_iff` — when literals and comments stay.
-/

namespace GoDraft

/-! ## Texts that differ -/

/-- The second text is the first with some slashes put in. -/
def Slashed (t u : Text) : Prop := Respaced (fun _ => false) (· == '/') t u

namespace Slashed

variable {t t' u u' : Text}

theorem refl (t : Text) : Slashed t t := Respaced.kept t

theorem append (h : Slashed t u) (h' : Slashed t' u') : Slashed (t ++ t') (u ++ u') := Respaced.append h h'

theorem sublist (h : Slashed t u) : t.Sublist u := by
  have h : Respaced (fun _ => false) (· == '/') t u := h
  have hall := h.filter_sublist (p := fun _ => true) fun _ hx => absurd hx Bool.false_ne_true
  rwa [List.filter_true] at hall

theorem eq_of_length_le (h : Slashed t u) (hle : u.length ≤ t.length) : t = u :=
  h.sublist.eq_of_length_le hle

/-- All other characters are as many as before. -/
theorem count_eq (h : Slashed t u) {a : Char} (ha : a ≠ '/') : t.count a = u.count a := by
  have h : Respaced (fun _ => false) (· == '/') t u := h
  have hslash (b : Char) (hb : (b == '/') = true) : (b == a) = false := by
    rw [beq_iff_eq] at hb
    rw [hb, beq_eq_false_iff_ne]
    exact ha.symm
  have hsame := h.filter_eq (p := (· == a)) (fun _ hx => absurd hx Bool.false_ne_true) hslash
  rw [List.count_eq_length_filter, List.count_eq_length_filter, hsame]

/-- Texts put together are the same only if their parts are. -/
theorem append_eq_iff (h : Slashed t u) (h' : Slashed t' u') : t ++ t' = u ++ u' ↔ t = u ∧ t' = u' := by
  refine ⟨fun heq => ?_, fun ⟨heq, heq'⟩ => by rw [heq, heq']⟩
  have hlength := congrArg List.length heq
  rw [List.length_append, List.length_append] at hlength
  have hle := h.sublist.length_le
  have hle' := h'.sublist.length_le
  exact ⟨h.eq_of_length_le (by omega), h'.eq_of_length_le (by omega)⟩

end Slashed

/-- Two texts go apart: behind a common part, but for slashes put in, the first goes on with a character that the
second does not go on with. -/
def Parts (t u : Text) : Prop :=
  ∃ p a t' q u', t = p ++ a :: t' ∧ u = q ++ u' ∧ Slashed p q ∧ a ≠ '/' ∧ u'.head? ≠ some a

theorem Parts.append {p q t u : Text} (hpq : Slashed p q) (h : Parts t u) : Parts (p ++ t) (q ++ u) := by
  obtain ⟨p', a, t', q', u', rfl, rfl, hslashed, ha, hhead⟩ := h
  exact ⟨p ++ p', a, t', q ++ q', u', (List.append_assoc ..).symm, (List.append_assoc ..).symm,
    hpq.append hslashed, ha, hhead⟩

theorem Parts.ne {t u : Text} (h : Parts t u) : t ≠ u := by
  obtain ⟨p, a, t', q, u', rfl, rfl, hslashed, ha, hhead⟩ := h
  intro heq
  rcases List.append_eq_append_iff.1 heq with ⟨r, rfl, hr⟩ | ⟨r, rfl, hr⟩
  · cases r with
    | nil =>
      rw [List.nil_append] at hr
      exact hhead (by rw [← hr]; rfl)
    | cons b r =>
      -- the character would be one more in what comes before the second text goes on
      obtain ⟨rfl, -⟩ := List.cons.inj hr
      have hcount := hslashed.count_eq ha
      rw [List.count_append, List.count_cons_self] at hcount
      omega
  · have hle := hslashed.sublist.length_le
    rw [List.length_append] at hle
    have hnil : r = [] := List.eq_nil_of_length_eq_zero (by omega)
    subst hnil
    exact hhead (by rw [hr]; rfl)

/-! ## Places -/

/-- A character in both readings. -/
structure Place where
  letter : Char
  role : Role
  zone : Zone

/-- Roles and zones side by side. -/
def sideBySide (xs : List (Char × Role)) (zs : List (Char × Zone)) : List Place :=
  List.zipWith (fun x z => ⟨x.1, x.2, z.2⟩) xs zs

/-- The characters of a text in both readings, where the scanner is in the state `s` before it. -/
def placesFrom (s : Scanner) (t : Text) : List Place := sideBySide (roles t) (s.zones t)

/-- The characters of a text in both readings. -/
def places (t : Text) : List Place := placesFrom .start t

/-- All terminators are code. -/
def TerminatorsInCode (ps : List Place) : Prop := ∀ p ∈ ps, p.role = .terminator → p.zone = .code

/-- Whether a line comment follows behind semicolons. -/
def commentBehind : Text → Bool
  | [] => false
  | c :: t => if c = ';' then commentBehind t else c == '/' && t.head? == some '/'

/-- A slash of code stands right before a terminator, and nothing but semicolons between it and a line comment. -/
def Slips (p : Place) (ps : List Place) : Prop :=
  p.letter = '/' ∧ p.zone = .code ∧ ps.head?.map Place.role = some .terminator ∧
    commentBehind (ps.map Place.letter) = true

/-- Somewhere a slash of code becomes part of a line comment. -/
def SlipsIn : List Place → Prop
  | [] => False
  | p :: ps => Slips p ps ∨ SlipsIn ps

instance (ps : List Place) : Decidable (TerminatorsInCode ps) :=
  inferInstanceAs (Decidable (∀ p ∈ ps, p.role = .terminator → p.zone = .code))

instance (p : Place) (ps : List Place) : Decidable (Slips p ps) := inferInstanceAs (Decidable (_ ∧ _ ∧ _ ∧ _))

instance decidableSlipsIn : ∀ ps : List Place, Decidable (SlipsIn ps)
  | [] => isFalse id
  | p :: ps =>
    have := decidableSlipsIn ps
    inferInstanceAs (Decidable (Slips p ps ∨ SlipsIn ps))

/-- What is not followed by a terminator does not slip. -/
theorem slipsIn_append {ps qs : List Place} (hps : ∀ p ∈ ps, p.role ≠ .terminator)
    (hqs : qs.head?.map Place.role ≠ some .terminator) : SlipsIn (ps ++ qs) ↔ SlipsIn qs := by
  induction ps with
  | nil => rfl
  | cons p ps ih =>
    rw [List.forall_mem_cons] at hps
    rw [List.cons_append, SlipsIn, ih hps.2, or_iff_right]
    rintro ⟨-, -, hrole, -⟩
    cases ps with
    | nil => exact hqs hrole
    | cons p' ps => exact hps.2 p' List.mem_cons_self (Option.some.inj hrole)

/-- What is no slash does not slip. -/
theorem slipsIn_append_of_letter {ps qs : List Place} (hps : ∀ p ∈ ps, p.letter ≠ '/') :
    SlipsIn (ps ++ qs) ↔ SlipsIn qs := by
  induction ps with
  | nil => rfl
  | cons p ps ih =>
    rw [List.forall_mem_cons] at hps
    rw [List.cons_append, SlipsIn, ih hps.2, or_iff_right]
    exact fun h => hps.1 h.1

/-- Before a terminator the last character may slip. -/
theorem slipsIn_append_terminator {ps qs : List Place} (hps : ∀ p ∈ ps, p.role ≠ .terminator)
    (hqs : qs.head?.map Place.role = some .terminator) : SlipsIn (ps ++ qs) ↔
      ((∃ p, ps.getLast? = some p ∧ p.letter = '/' ∧ p.zone = .code) ∧ commentBehind (qs.map Place.letter) = true) ∨
        SlipsIn qs := by
  induction ps with
  | nil => simp
  | cons p ps ih =>
    rw [List.forall_mem_cons] at hps
    rw [List.cons_append, SlipsIn]
    cases ps with
    | nil => simp only [List.nil_append, Slips, hqs, true_and, List.getLast?_singleton, Option.some.injEq,
        exists_eq_left', and_assoc]
    | cons p' ps =>
      rw [ih hps.2, List.getLast?_cons_cons, or_iff_right]
      exact fun h => hps.2 p' List.mem_cons_self (Option.some.inj h.2.2.1)

theorem sideBySide_append {xs xs' : List (Char × Role)} {zs zs' : List (Char × Zone)} (h : xs.length = zs.length) :
    sideBySide (xs ++ xs') (zs ++ zs') = sideBySide xs zs ++ sideBySide xs' zs' := List.zipWith_append h

theorem map_zone_sideBySide : ∀ {xs : List (Char × Role)} {zs : List (Char × Zone)}, xs.map Prod.fst = zs.map Prod.fst →
    (sideBySide xs zs).map (fun q => (q.letter, q.zone)) = zs
  | [], [], _ => rfl
  | x :: xs, z :: zs, h => by
    obtain ⟨hletter, hrest⟩ := List.cons.inj h
    rw [sideBySide, List.zipWith_cons_cons, List.map_cons, hletter]
    exact congrArg (z :: ·) (map_zone_sideBySide hrest)

theorem mem_of_mem_sideBySide : ∀ {xs : List (Char × Role)} {zs : List (Char × Zone)}, ∀ p ∈ sideBySide xs zs,
    (p.letter, p.role) ∈ xs ∧ ∃ z ∈ zs, p.zone = z.2
  | [], _, p, hp => nomatch hp
  | _ :: _, [], p, hp => nomatch hp
  | x :: xs, z :: zs, p, hp => by
    rcases List.mem_cons.1 hp with rfl | hp
    · exact ⟨List.mem_cons_self, z, List.mem_cons_self, rfl⟩
    · obtain ⟨hx, z', hz, hzone⟩ := mem_of_mem_sideBySide p hp
      exact ⟨List.mem_cons_of_mem x hx, z', List.mem_cons_of_mem z hz, hzone⟩

theorem map_fst_roles_eq (p : Text) (s : Scanner) (next : Option Char) :
    (roles p).map Prod.fst = (s.zonesTo next p).map Prod.fst := by
  rw [map_fst_roles, s.map_fst_zonesTo]

theorem length_roles_eq (p : Text) (s : Scanner) (next : Option Char) :
    (roles p).length = (s.zonesTo next p).length := by
  have hlength := congrArg List.length (map_fst_roles_eq p s next)
  rwa [List.length_map, List.length_map] at hlength

theorem map_letter_placesFrom (s : Scanner) (t : Text) : (placesFrom s t).map Place.letter = t := by
  have hsame : (roles t).map Prod.fst = (s.zones t).map Prod.fst := by rw [map_fst_roles, s.map_fst_zones]
  have hzones := congrArg (List.map Prod.fst) (map_zone_sideBySide hsame)
  rwa [List.map_map, s.map_fst_zones] at hzones

theorem role_of_head?_placesFrom {s : Scanner} {t : Text} (h : t.head? ≠ some ';') :
    (placesFrom s t).head?.map Place.role ≠ some .terminator := by
  intro hrole
  cases t with
  | nil => cases hrole
  | cons c t => exact h (congrArg some (LineReader.role_eq_terminator_iff.1 (Option.some.inj hrole)).1)

theorem sideBySide_run (run : Text) (z : Zone) :
    sideBySide (runRoles run) (run.map fun c => (c, z)) = run.map fun c => ⟨c, runRole c, z⟩ := by
  rw [sideBySide, runRoles, List.zipWith_map, List.zipWith_self]

/-- Blanks and semicolons mean nothing to the scanner. -/
theorem mark_of_isRunChar {c : Char} (h : isRunChar c = true) (hline : c ≠ '\n') : (Marked.mark c : Mark) = .plain := by
  have hmarked : ∀ d ∈ markedChars, d ≠ '\n' → isRunChar d = false := by decide
  refine mark_eq_plain fun hc => ?_
  rw [hmarked c hc hline] at h
  cases h

theorem mark_run {run : Text} (hrun : ∀ c ∈ run, isRunChar c = true) (hline : '\n' ∉ run) :
    ∀ c ∈ run, (Marked.mark c : Mark) = .plain := by
  refine fun c hc => mark_of_isRunChar (hrun c hc) ?_
  rintro rfl
  exact hline hc

/-- Behind blanks and semicolons a comment follows right behind semicolons only if there are no blanks. -/
theorem commentBehind_run {run : Text} (hrun : ∀ c ∈ run, isRunChar c = true) (t : Text) :
    commentBehind (run ++ t) = true ↔ run.filter isBlank = [] ∧ commentBehind t = true := by
  induction run with
  | nil => simp
  | cons c run ih =>
    rw [List.forall_mem_cons] at hrun
    rw [List.cons_append, commentBehind]
    by_cases hc : c = ';'
    · rw [if_pos hc, ih hrun.2, List.filter_cons_of_neg (by rw [hc]; decide)]
    · have hblank : isBlank c = true := by simpa [isRunChar, hc] using hrun.1
      have hslash : (c == '/') = false := by
        rw [beq_eq_false_iff_ne]
        rintro rfl
        exact absurd hblank (by decide)
      rw [if_neg hc, hslash, List.filter_cons_of_pos hblank]
      simp

/-! ## Verdicts -/

/-- What becomes of the literals and comments in the rest `t` of a text, where `u` comes of it and the scanner is in
the state `s` before both. -/
inductive Verdict (s : Scanner) (t u : Text) : Prop where
  /-- All terminators are code. Nothing changes but for slashes that slip. -/
  | stays (hcode : TerminatorsInCode (placesFrom s t))
      (hslashed : Slashed (enclosed (s.zones t)) (enclosed (s.zones u)))
      (hsame : enclosed (s.zones t) = enclosed (s.zones u) ↔ ¬ SlipsIn (placesFrom s t))
  /-- Some terminator is not code. -/
  | parts (hcode : ¬ TerminatorsInCode (placesFrom s t)) (hparts : Parts (enclosed (s.zones t)) (enclosed (s.zones u)))

namespace Verdict

variable {s s' : Scanner} {t t' u u' v w : Text} {ps : List Place} {slips : Prop}

/-- A part before the rest, with its terminators in code. -/
theorem prepend (hplaces : placesFrom s t = ps ++ placesFrom s' t')
    (ht : enclosed (s.zones t) = v ++ enclosed (s'.zones t')) (hu : enclosed (s.zones u) = w ++ enclosed (s'.zones u'))
    (hps : TerminatorsInCode ps) (hslips : SlipsIn (placesFrom s t) ↔ slips ∨ SlipsIn (placesFrom s' t'))
    (hslashed : Slashed v w) (hsame : v = w ↔ ¬ slips) (h : Verdict s' t' u') : Verdict s t u := by
  have hcode : TerminatorsInCode (placesFrom s t) ↔ TerminatorsInCode (placesFrom s' t') := by
    rw [hplaces, TerminatorsInCode, List.forall_mem_append]
    exact and_iff_right hps
  cases h with
  | stays hcode' hslashed' hsame' =>
    refine .stays (hcode.2 hcode') ?_ ?_
    · rw [ht, hu]
      exact hslashed.append hslashed'
    · rw [ht, hu, hslashed.append_eq_iff hslashed', hsame, hsame', hslips, not_or]
  | parts hcode' hparts' =>
    refine .parts (mt hcode.1 hcode') ?_
    rw [ht, hu]
    exact hparts'.append hslashed

/-- A part without terminators stays as it is. -/
theorem same {p : Text} (hroles : roles (p ++ t) = roles p ++ roles t) (hp : Unterminated (roles p))
    (hhead : t.head? = u.head?) (hend : t.head? ≠ some ';') (h : Verdict (s.past t.head? p) t u) :
    Verdict s (p ++ t) (p ++ u) := by
  have hplaces : placesFrom s (p ++ t) =
      sideBySide (roles p) (s.zonesTo t.head? p) ++ placesFrom (s.past t.head? p) t := by
    rw [placesFrom, hroles, s.zones_append, sideBySide_append (length_roles_eq p s t.head?)]
    rfl
  have hps : ∀ q ∈ sideBySide (roles p) (s.zonesTo t.head? p), q.role ≠ .terminator := fun q hq =>
    hp _ (mem_of_mem_sideBySide q hq).1
  refine prepend hplaces (by rw [s.zones_append, enclosed_append]) (by rw [s.zones_append, enclosed_append, hhead])
    (fun q hq hrole => absurd hrole (hps q hq)) ?_ (.refl _) (iff_of_true rfl id) h
  rw [hplaces, slipsIn_append hps (role_of_head?_placesFrom hend), or_iff_right id]

end Verdict

/-! ## Comments -/

section Comment

variable {s : Scanner} {more t : Text}

theorem Scanner.InCode.zones_comment (h : s.InCode) (hmore : '\n' ∉ more) (t : Text) :
    s.zones ('/' :: '/' :: (more ++ t)) =
      ('/' :: '/' :: more).map (fun c => (c, .lineComment)) ++ s.inLineComment.zones t := by
  refine h.zones_slashes (fun c hc hmark => ?_) t
  obtain rfl : c = '\n' := eq_of_mark hmark (by decide)
  exact hmore hc

theorem placesFrom_comment (h : s.InCode) (hmore : '\n' ∉ more)
    (hroles : roles ('/' :: '/' :: more ++ t) = roles ('/' :: '/' :: more) ++ roles t) :
    placesFrom s ('/' :: '/' :: (more ++ t)) =
      sideBySide (roles ('/' :: '/' :: more)) (('/' :: '/' :: more).map fun c => (c, .lineComment)) ++
        placesFrom s.inLineComment t := by
  have hlength : (roles ('/' :: '/' :: more)).length =
      (('/' :: '/' :: more).map fun c => (c, Zone.lineComment)).length := by
    have hsame := congrArg List.length (map_fst_roles ('/' :: '/' :: more))
    rwa [List.length_map] at hsame ⊢
  rw [List.cons_append, List.cons_append] at hroles
  rw [placesFrom, hroles, h.zones_comment hmore, sideBySide_append hlength]
  rfl

theorem terminatorsInCode_comment (hmore : '\n' ∉ more) (zs : List (Char × Zone)) :
    TerminatorsInCode (sideBySide (roles ('/' :: '/' :: more)) zs) := by
  have hclean := unterminated_comment (t := '/' :: '/' :: more) (.inr ⟨more, rfl⟩) (by simp [hmore])
  exact fun q hq hrole => absurd hrole (hclean _ (mem_of_mem_sideBySide q hq).1)

end Comment

/-! ## Terminators of code -/

/-- A statement, and blanks and terminators that follow its terminator on the line. -/
structure Ended (p run : Text) : Prop where
  statement : IsStatement p
  isRun : ∀ c ∈ run, isRunChar c = true
  line : '\n' ∉ run

/-- The last character of a statement slips, where `run` and then `t` follow its terminator. -/
def SlipsAtEnd (s : Scanner) (p run t : Text) : Prop :=
  (s.zonesTo (some ';') p).getLast? = some ('/', .code) ∧ run.filter isBlank = [] ∧ commentBehind t = true

namespace Ended

variable {s : Scanner} {p run t u u' : Text}

theorem zones_eq (h : Ended p run) (hcode : (s.past (some ';') p).InCode) (t : Text) :
    s.zones (p ++ ';' :: (run ++ t)) =
      s.zonesTo (some ';') p ++ ((';' :: run).map (fun c => (c, .code)) ++ (s.past (some ';') p).zones t) := by
  rw [s.zones_append, ← hcode.zones_plain (List.forall_mem_cons.2 ⟨by decide, mark_run h.isRun h.line⟩) t]
  rfl

theorem enclosed_eq (h : Ended p run) (hcode : (s.past (some ';') p).InCode) (t : Text) :
    enclosed (s.zones (p ++ ';' :: (run ++ t))) =
      enclosed (s.zonesTo (some ';') p) ++ enclosed ((s.past (some ';') p).zones t) := by
  rw [h.zones_eq hcode, enclosed_append, enclosed_append, enclosed_map]
  rfl

/-- The places of a statement whose terminator is code, with the blanks and terminators that follow. -/
theorem placesFrom_eq (h : Ended p run) (hcode : (s.past (some ';') p).InCode) (t : Text) :
    placesFrom s (p ++ ';' :: (run ++ t)) = sideBySide (roles p) (s.zonesTo (some ';') p) ++
      ((';' :: run).map (fun c => ⟨c, runRole c, .code⟩) ++ placesFrom (s.past (some ';') p) t) := by
  have hlength : (runRoles (';' :: run)).length = ((';' :: run).map fun c => (c, Zone.code)).length := by
    rw [runRoles, List.length_map, List.length_map]
  have hroles : roles (p ++ ';' :: (run ++ t)) = roles p ++ (runRoles (';' :: run) ++ roles t) :=
    h.statement.roles_terminated h.isRun t
  rw [placesFrom, hroles, h.zones_eq hcode, sideBySide_append (length_roles_eq p s _), sideBySide_append hlength,
    sideBySide_run]
  rfl

theorem terminatorsInCode (h : Ended p run) (s : Scanner) :
    TerminatorsInCode (sideBySide (roles p) (s.zonesTo (some ';') p)) ∧
      TerminatorsInCode ((';' :: run).map fun c => ⟨c, runRole c, .code⟩) := by
  refine ⟨fun q hq hrole => ?_, List.forall_mem_map.2 fun _ _ _ => rfl⟩
  exact absurd hrole (h.statement.unterminated _ (mem_of_mem_sideBySide q hq).1)

/-- Only the last character of a statement slips at its end. -/
theorem slipsIn_iff (h : Ended p run) (hcode : (s.past (some ';') p).InCode) (t : Text) :
    SlipsIn (placesFrom s (p ++ ';' :: (run ++ t))) ↔
      SlipsAtEnd s p run t ∨ SlipsIn (placesFrom (s.past (some ';') p) t) := by
  have hps : ∀ q ∈ sideBySide (roles p) (s.zonesTo (some ';') p), q.role ≠ .terminator := fun q hq =>
    h.statement.unterminated _ (mem_of_mem_sideBySide q hq).1
  have hlast : (∃ q, (sideBySide (roles p) (s.zonesTo (some ';') p)).getLast? = some q ∧ q.letter = '/' ∧
      q.zone = .code) ↔ (s.zonesTo (some ';') p).getLast? = some ('/', .code) := by
    conv_rhs => rw [← map_zone_sideBySide (map_fst_roles_eq p s (some ';')), List.getLast?_map, Option.map_eq_some_iff]
    simp only [Prod.mk.injEq]
  have hletters : ∀ q ∈ (';' :: run).map (fun c => Place.mk c (runRole c) .code), q.letter ≠ '/' := by
    refine List.forall_mem_map.2 (List.forall_mem_cons.2 ⟨by decide, fun c hc => ?_⟩)
    rintro rfl
    exact absurd (h.isRun _ hc) (by decide)
  have hbehind : commentBehind (';' :: (run ++ t)) = true ↔ run.filter isBlank = [] ∧ commentBehind t = true := by
    rw [← commentBehind_run h.isRun]
    rfl
  have hmap : ((';' :: run).map (fun c => Place.mk c (runRole c) .code) ++ placesFrom (s.past (some ';') p) t).map
      Place.letter = ';' :: (run ++ t) := by
    rw [List.map_append, map_letter_placesFrom, List.map_map]
    exact congrArg (· ++ t) (List.map_id (';' :: run))
  rw [h.placesFrom_eq hcode, slipsIn_append_terminator hps rfl, hlast, slipsIn_append_of_letter hletters, hmap,
    hbehind, SlipsAtEnd]

/-- A terminator of code goes, and no slash slips. -/
theorem verdict (h : Ended p run) (hcode : (s.past (some ';') p).InCode)
    (hslip : ¬ SlipsAtEnd s p run t)
    (hu : enclosed (s.zones u) = enclosed (s.zonesTo (some ';') p) ++ enclosed ((s.past (some ';') p).zones u'))
    (hrest : Verdict (s.past (some ';') p) t u') : Verdict s (p ++ ';' :: (run ++ t)) u := by
  have hplaces := h.placesFrom_eq hcode t
  rw [← List.append_assoc] at hplaces
  exact .prepend hplaces (h.enclosed_eq hcode t) hu (List.forall_mem_append.2 (h.terminatorsInCode s))
    (h.slipsIn_iff hcode t) (.refl _) (iff_of_true rfl hslip) hrest

/-- A slash that slips is one more in the comment. -/
theorem enclosed_of_slip (hfresh : s.Fresh) (hlast : (s.zonesTo (some ';') p).getLast? = some ('/', .code))
    {more : Text} (hmore : '\n' ∉ more) (u : Text) : enclosed (s.zones (p ++ '/' :: '/' :: (more ++ u))) =
      enclosed (s.zonesTo (some ';') p) ++ '/' :: '/' :: '/' :: more ++
        enclosed ((s.past (some ';') p).inLineComment.zones u) := by
  obtain ⟨p₀, rfl, hbefore, hpast, hzones⟩ := hfresh.past_slash hlast
  have hsame : enclosed (s.zonesTo (some ';') (p₀ ++ ['/'])) = enclosed (s.zonesTo (some '/') p₀) := by
    rw [hzones, enclosed_append]
    exact List.append_nil _
  have hslashes : '\n' ∉ '/' :: more := List.not_mem_cons_of_ne_of_not_mem (by decide) hmore
  have hwhole : s.zones (p₀ ++ ['/'] ++ '/' :: '/' :: (more ++ u)) =
      s.zonesTo (some '/') p₀ ++ (s.past (some '/') p₀).zones ('/' :: '/' :: ('/' :: more ++ u)) := by
    rw [List.append_assoc]
    exact s.zones_append p₀ _
  rw [hwhole, hbefore.zones_comment hslashes, hsame, hpast, enclosed_append, enclosed_append, enclosed_map,
    List.append_assoc]
  rfl

/-- A terminator of code goes, and a slash slips into the comment behind it. -/
theorem verdict_of_slip (h : Ended p run) (hfresh : s.Fresh) (hcode : (s.past (some ';') p).InCode)
    (hlast : (s.zonesTo (some ';') p).getLast? = some ('/', .code)) (hblank : run.filter isBlank = []) {more : Text}
    (hmore : '\n' ∉ more) (hroles : roles ('/' :: '/' :: more ++ t) = roles ('/' :: '/' :: more) ++ roles t)
    (hrest : Verdict (s.past (some ';') p).inLineComment t u) :
    Verdict s (p ++ ';' :: (run ++ '/' :: '/' :: (more ++ t))) (p ++ '/' :: '/' :: (more ++ u)) := by
  have hplaces := h.placesFrom_eq hcode ('/' :: '/' :: (more ++ t))
  rw [placesFrom_comment hcode hmore hroles, ← List.append_assoc, ← List.append_assoc] at hplaces
  obtain ⟨hstatement, hrun⟩ := h.terminatorsInCode s
  refine .prepend hplaces ?_ (enclosed_of_slip hfresh hlast hmore u)
    (List.forall_mem_append.2 ⟨List.forall_mem_append.2 ⟨hstatement, hrun⟩, terminatorsInCode_comment hmore _⟩)
    (iff_of_true ((h.slipsIn_iff hcode _).2 (.inl ⟨hlast, hblank, rfl⟩)) (.inl trivial))
    (v := enclosed (s.zonesTo (some ';') p) ++ '/' :: '/' :: more) ?_ (iff_of_false ?_ (not_not_intro trivial)) hrest
  · rw [h.enclosed_eq hcode, hcode.zones_comment hmore, enclosed_append, enclosed_map, List.append_assoc]
    rfl
  · exact Slashed.append (.refl _) (.insert rfl (.kept _))
  · rw [List.append_cancel_left_eq]
    intro heq
    have hlength := congrArg List.length heq
    simp at hlength

end Ended

/-! ## Terminators in literals and comments -/

section Outside

variable {s : Scanner} {p run : Text} {a : Char}

/-- A plain character outside code is missed if something else stands in its place. -/
theorem parts_of_plain (hfresh : s.Fresh) (ha : (Marked.mark a : Mark) = .plain)
    (hout : ¬ (s.past (some a) p).InCode) (rest : Text) {w : Text} (hw : w.head? ≠ some a) :
    Parts (enclosed (s.zones (p ++ a :: rest))) (enclosed (s.zones (p ++ w))) := by
  have hzone : ((s.past (some a) p).read a rest).1 ≠ .code := fun hcode =>
    hout (((hfresh.past (some a) p).inCode_of_code hcode).2 (by rw [ha]; decide))
  refine ⟨enclosed (s.zonesTo (some a) p), a, enclosed (((s.past (some a) p).read a rest).2.zones rest),
    enclosed (s.zonesTo (some a) p), enclosed ((s.past w.head? p).zones w), ?_, ?_, .refl _, ?_, ?_⟩
  · rw [s.zones_append, enclosed_append, List.head?_cons, Scanner.zones_cons, enclosed_cons a hzone]
  · rw [s.zones_append, enclosed_append, Scanner.zonesTo_congr (by rw [ha]; rfl) hout]
  · rintro rfl
    exact absurd ha (by decide)
  · intro hhead
    rcases (hfresh.past w.head? p).head?_or_leavesCode hhead with hnext | hleaves
    · exact hw hnext
    · rw [ha] at hleaves
      cases hleaves

theorem Ended.not_terminatorsInCode (h : Ended p run) (hfresh : s.Fresh) (hout : ¬ (s.past (some ';') p).InCode)
    (t : Text) : ¬ TerminatorsInCode (placesFrom s (p ++ ';' :: (run ++ t))) := by
  intro hcode
  have hroles := h.statement.roles_terminated h.isRun t
  have hmem : ⟨';', .terminator, ((s.past (some ';') p).read ';' (run ++ t)).1⟩ ∈
      placesFrom s (p ++ ';' :: (run ++ t)) := by
    rw [placesFrom, hroles, s.zones_append, List.head?_cons, sideBySide_append (length_roles_eq p s _),
      Scanner.zones_cons]
    exact List.mem_append_right _ List.mem_cons_self
  exact hout (((hfresh.past (some ';') p).inCode_of_code (hcode _ hmem rfl)).2 (by decide))

end Outside

/-! ## Lines -/

/-- Two texts end, or begin with the end of a line. -/
inductive LineEnds : Text → Text → Prop where
  | nil : LineEnds [] []
  | newline (t u : Text) : LineEnds ('\n' :: t) ('\n' :: u)

namespace LineEnds

variable {t u : Text}

theorem head?_eq (h : LineEnds t u) : t.head? = u.head? := by
  cases h <;> rfl

theorem eq_newline (h : LineEnds t u) {c : Char} (hc : u.head? = some c) : c = '\n' := by
  cases h with
  | nil => cases hc
  | newline => exact (Option.some.inj hc).symm

theorem head?_ne (h : LineEnds t u) {c : Char} (hc : c ≠ '\n') : t.head? ≠ some c := fun hhead =>
  hc (h.eq_newline (h.head?_eq ▸ hhead))

theorem roles_append (h : LineEnds t u) (p : Text) : roles (p ++ t) = roles p ++ roles t := by
  cases h with
  | nil => rw [List.append_nil]; exact (List.append_nil _).symm
  | newline => exact roles_append_newline p _

end LineEnds

/-- No comment begins where a statement does. -/
theorem BeginsStatement.commentBehind_eq {more t u : Text} (h : BeginsStatement more) (hends : LineEnds t u) :
    commentBehind (more ++ t) = false := by
  obtain ⟨c, v, rfl, hc, hcomment⟩ := h
  have hne : c ≠ ';' := by
    rintro rfl
    exact absurd hc (by decide)
  rw [List.cons_append, commentBehind, if_neg hne, Bool.and_eq_false_iff, beq_eq_false_iff_ne, beq_eq_false_iff_ne]
  by_cases hslash : c = '/'
  · refine .inr fun hnext => ?_
    cases v with
    | nil =>
      exact hends.head?_ne (by decide) hnext
    | cons d v => exact hcomment ⟨hslash, hnext⟩
  · exact .inl hslash

theorem LineEnds.commentBehind_eq {t u : Text} (h : LineEnds t u) : commentBehind t = false := by
  cases h <;> rfl

namespace Ended

variable {s : Scanner} {p run held more t u : Text}

/-- Without its terminator a statement goes on as it was, if no slash slips. -/
theorem seam (hcode : (s.past (some ';') p).InCode) (hheld : held.Sublist (run.filter isBlank))
    (hline : '\n' ∉ run) (hends : LineEnds t u)
    (hmore : more = [] ∨ (∃ t, more = '/' :: '/' :: t) ∧ held = run.filter isBlank)
    (hslip : ¬ SlipsAtEnd s p run (more ++ t)) :
    s.zonesTo (held ++ (more ++ u)).head? p = s.zonesTo (some ';') p ∧
      s.past (held ++ (more ++ u)).head? p = s.past (some ';') p := by
  -- what comes to stand behind the statement is a blank, a line feed or the slash of a comment
  cases held with
  | cons b held =>
    obtain ⟨hmem, hblank⟩ := List.mem_filter.1 (hheld.subset List.mem_cons_self)
    have hplain : (Marked.mark b : Mark) = .plain := by
      refine mark_of_isRunChar (by rw [isRunChar, hblank, Bool.true_or]) ?_
      rintro rfl
      exact hline hmem
    refine Scanner.past_congr hcode fun c hc => ?_
    obtain rfl := Option.some.inj hc
    rw [hplain]
    rfl
  | nil =>
    rcases hmore with rfl | ⟨⟨m, rfl⟩, hfilter⟩
    · refine Scanner.past_congr hcode fun c hc => ?_
      rw [hends.eq_newline hc]
      rfl
    · refine Scanner.past_congr_of_last hcode (fun c hc hmark => ?_) _
      obtain rfl : c = '/' := eq_of_mark hmark (by decide)
      exact hslip ⟨hc, hfilter.symm, rfl⟩

/-- **A line goes on without its terminators**, and these are code. -/
theorem verdict_joined (h : Ended p run) (hfresh : s.Fresh) (hcode : (s.past (some ';') p).InCode)
    (hheld : held.Sublist (run.filter isBlank))
    (hmore : more = [] ∨ (∃ t, more = '/' :: '/' :: t) ∧ held = run.filter isBlank) (hline : '\n' ∉ more)
    (hends : LineEnds t u) (hrest : ∀ s : Scanner, s.Fresh → s.Settled t → Verdict s t u) :
    Verdict s (p ++ ';' :: (run ++ (more ++ t))) (p ++ (held ++ (more ++ u))) := by
  by_cases hslip : SlipsAtEnd s p run (more ++ t)
  · obtain ⟨hlast, hblank, hbehind⟩ := hslip
    rcases hmore with rfl | ⟨⟨m, rfl⟩, rfl⟩
    · rw [List.nil_append, hends.commentBehind_eq] at hbehind
      cases hbehind
    · have hm : '\n' ∉ m := fun hmem => hline (List.mem_cons_of_mem _ (List.mem_cons_of_mem _ hmem))
      have hcomment : (s.past (some ';') p).inLineComment.carry = none := hcode.carry
      rw [hblank]
      exact h.verdict_of_slip hfresh hcode hlast hblank hm (hends.roles_append _)
        (hrest _ (Scanner.fresh_of_carry hcomment) (Scanner.settled_of_carry hcomment t))
  · have hplain : ∀ c ∈ held, (Marked.mark c : Mark) = .plain := fun c hc =>
      mark_run h.isRun h.line c (List.mem_filter.1 (hheld.subset hc)).1
    obtain ⟨hzones, hpast⟩ := seam hcode hheld h.line hends hmore hslip
    have hbehind : Verdict (s.past (some ';') p) (more ++ t) (more ++ u) :=
      .same (hends.roles_append more) (unterminated_comment (hmore.imp id And.left) hline) hends.head?_eq
        (hends.head?_ne (by decide)) (hrest _ (hcode.fresh.past _ more) (hcode.settled _).past)
    refine h.verdict hcode hslip ?_ hbehind
    rw [s.zones_append, hzones, hpast, enclosed_append, hcode.zones_plain hplain, enclosed_append, enclosed_map]
    rfl

/-- The blanks before a terminator are code if it is. -/
theorem inCode_append_iff (hfresh : s.Fresh) {gap : Text} (hgap : ∀ c ∈ gap, (Marked.mark c : Mark) = .plain)
    (hsettled : s.Settled (p ++ (gap ++ ';' :: t))) :
    (s.past (some ';') (p ++ gap)).InCode ↔ (s.past (gap.head?.or (some ';')) p).InCode := by
  rw [s.past_append]
  have hsettled' : (s.past (gap.head?.or (some ';')) p).Settled (gap ++ ';' :: t) := by
    have hpast := hsettled.past
    rwa [List.head?_append] at hpast
  constructor
  · exact fun hcode => Scanner.InCode.of_past (hfresh.past _ p) hsettled' hgap hcode
  · intro hcode
    rwa [hcode.past_plain hgap]

/-- A statement in code that ends with blanks can end with a line feed in their place. -/
theorem enclosed_newline {gap : Text} (hgap : ∀ c ∈ gap, (Marked.mark c : Mark) = .plain)
    (hcode : (s.past (gap.head?.or (some ';')) p).InCode) (u : Text) :
    enclosed (s.zones (p ++ '\n' :: u)) =
      enclosed (s.zonesTo (some ';') (p ++ gap)) ++ enclosed ((s.past (some ';') (p ++ gap)).zones u) := by
  have hblanks : enclosed ((s.past (gap.head?.or (some ';')) p).zonesTo (some ';') gap) = [] := by
    have hzones := hcode.zones_plain hgap [';']
    rw [Scanner.zones_append, List.head?_cons, hcode.past_plain hgap, List.append_cancel_right_eq] at hzones
    rw [hzones, enclosed_map]
    rfl
  have hnewline : ∀ c, some '\n' = some c → (Marked.mark c).looksAhead = false := by
    rintro c ⟨⟩
    rfl
  obtain ⟨hzones, hpast⟩ := Scanner.past_congr hcode hnewline
  rw [s.zones_append, List.head?_cons, hzones, hpast, Scanner.zones_cons, hcode.read_newline, enclosed_append,
    enclosed_cons_of_code, s.zonesTo_append, enclosed_append, hblanks, List.append_nil, s.past_append,
    hcode.past_plain hgap]

/-- **A line ends at a terminator**, before a statement that goes on from there. -/
theorem verdict_parted (h : Ended p run) (hfresh : s.Fresh) (hp : '\n' ∉ p) (hmore : commentBehind t = false)
    (hsettled : s.Settled (p ++ ';' :: (run ++ t)))
    (hrest : (s.past (some ';') p).InCode → Verdict (s.past (some ';') p) t u) :
    Verdict s (p ++ ';' :: (run ++ t)) (p.trimEnd ++ '\n' :: u) := by
  have hsplit := Text.trimEnd_append_takeWhile p
  have hblank : ∀ c ∈ (p.reverse.takeWhile isBlank).reverse, isBlank c = true := fun c hc =>
    List.mem_takeWhile_imp (List.mem_reverse.1 hc)
  generalize p.trimEnd = body, (p.reverse.takeWhile isBlank).reverse = gap at hsplit hblank
  subst hsplit
  have hgap : ∀ c ∈ gap, (Marked.mark c : Mark) = .plain :=
    mark_run (fun c hc => by rw [isRunChar, hblank c hc, Bool.true_or]) fun hmem => hp (List.mem_append_right _ hmem)
  have hiff := inCode_append_iff (p := body) hfresh hgap (by rwa [List.append_assoc] at hsettled)
  by_cases hcode : (s.past (some ';') (body ++ gap)).InCode
  · refine h.verdict hcode ?_ (enclosed_newline hgap (hiff.1 hcode) u) (hrest hcode)
    rintro ⟨-, -, hbehind⟩
    rw [hmore] at hbehind
    cases hbehind
  · -- the first of the blanks and the terminator is part of a literal or a comment, and a line feed is in its place
    refine .parts (h.not_terminatorsInCode hfresh hcode t) ?_
    rw [List.append_assoc]
    cases gap with
    | nil =>
      refine parts_of_plain hfresh (by decide) (mt hiff.2 hcode) _ ?_
      exact fun ha => absurd (Option.some.inj ha) (by decide)
    | cons a gap =>
      refine parts_of_plain hfresh (hgap a List.mem_cons_self) (mt hiff.2 hcode) _ ?_
      intro ha
      obtain rfl := Option.some.inj ha
      exact hp (List.mem_append_right _ List.mem_cons_self)

end Ended

/-- **What becomes of a line** in the literals and comments of a text. -/
theorem Drops.verdict {line out t u : Text} (h : Drops line out) (hline : '\n' ∉ line) (hends : LineEnds t u)
    (hrest : ∀ s : Scanner, s.Fresh → s.Settled t → Verdict s t u) {s : Scanner} (hfresh : s.Fresh)
    (hsettled : s.Settled (line ++ t)) : Verdict s (line ++ t) (out ++ u) := by
  induction h generalizing s with
  | same hclean =>
    exact .same (hends.roles_append _) hclean hends.head?_eq (hends.head?_ne (by decide))
      (hrest _ (hfresh.past _ _) hsettled.past)
  | @joined p run held more hp hrun hheld hmore =>
    rw [List.mem_append, List.mem_cons, List.mem_append, not_or, not_or, not_or] at hline
    have hended : Ended p run := ⟨hp, hrun, hline.2.2.1⟩
    simp only [List.append_assoc, List.cons_append] at hsettled ⊢
    by_cases hcode : (s.past (some ';') p).InCode
    · exact hended.verdict_joined hfresh hcode hheld hmore hline.2.2.2 hends hrest
    · -- the terminator is part of a literal or a comment, and something else is in its place
      refine .parts (hended.not_terminatorsInCode hfresh hcode _) (parts_of_plain hfresh (by decide) hcode _ ?_)
      intro hhead
      cases held with
      | nil =>
        rcases hmore with rfl | ⟨⟨m, rfl⟩, -⟩
        · exact absurd (hends.eq_newline hhead) (by decide)
        · exact absurd (Option.some.inj hhead) (by decide)
      | cons b held =>
        obtain rfl := Option.some.inj hhead
        exact absurd (List.mem_filter.1 (hheld.subset List.mem_cons_self)).2 (by decide)
  | @parted p run more out hp hrun hmore _ ih =>
    rw [List.mem_append, List.mem_cons, List.mem_append, not_or, not_or, not_or] at hline
    have hended : Ended p run := ⟨hp, hrun, hline.2.2.1⟩
    simp only [List.append_assoc, List.cons_append] at hsettled ⊢
    exact hended.verdict_parted hfresh hline.1 (hmore.commentBehind_eq hends) hsettled fun hcode =>
      ih hline.2.2.2 hcode.fresh (hcode.settled _)

theorem verdict_nil (s : Scanner) : Verdict s [] [] :=
  .stays (fun _ hq => nomatch hq) (.refl _) (iff_of_true rfl id)

/-- A line feed stays, whatever it is to the scanner. -/
theorem Verdict.newline {s : Scanner} {t u : Text} (h : Verdict (s.read '\n' t).2 t u) :
    Verdict s ('\n' :: t) ('\n' :: u) := by
  have hplaces : placesFrom s ('\n' :: t) =
      [⟨'\n', .plain, (s.read '\n' t).1⟩] ++ placesFrom (s.read '\n' t).2 t := by
    rw [placesFrom, s.zones_cons]
    rfl
  have hread : s.read '\n' u = s.read '\n' t := Scanner.read_of_looksAhead rfl u t
  refine .prepend hplaces (v := enclosed [('\n', (s.read '\n' t).1)]) ?_ ?_
    (List.forall_mem_singleton.2 Role.noConfusion) ?_ (.refl _) (iff_of_true rfl id) h
  · rw [s.zones_cons, ← enclosed_append]
    rfl
  · rw [s.zones_cons, hread, ← enclosed_append]
    rfl
  · have hletter : '\n' ≠ '/' := by decide
    rw [hplaces, slipsIn_append_of_letter (List.forall_mem_singleton.2 hletter), or_iff_right id]

/-- **What becomes of a text**. -/
theorem verdict_stripTerminators (t : Text) {s : Scanner} (hfresh : s.Fresh) (hsettled : s.Settled t) :
    Verdict s t (stripTerminators t) := by
  induction t using Text.line_induction generalizing s with
  | last line hline =>
    have hverdict := (drops_dropTerminators line hline).verdict hline .nil (fun s _ _ => verdict_nil s) hfresh
      (by rwa [List.append_nil])
    rwa [List.append_nil, List.append_nil, ← stripTerminators_of_notMem hline] at hverdict
  | cons line rest hline ih =>
    rw [stripTerminators_append_newline hline]
    refine (drops_dropTerminators line hline).verdict hline (.newline _ _) (fun s hfresh _ => ?_) hfresh hsettled
    exact .newline (ih (hfresh.read '\n' rest).1 (s.settled_read '\n' rest))

/-! ## Bytes of literals and comments -/

/-- The bytes that a walk through a text finds in literals and comments. -/
def enclosedBytes (t : Text) : List UInt8 := ((seenBytes t).filter fun x => !x.zone.isCode).map Seen.letter

theorem enclosed_flatMap (xs : List (Char × Zone)) : enclosed (xs.flatMap encodeZoned) = Text.bytes (enclosed xs) := by
  induction xs with
  | nil => rfl
  | cons x xs ih =>
    obtain ⟨c, z⟩ := x
    rw [List.flatMap_cons, enclosed_append, ih, encodeZoned, enclosed_map]
    cases z with
    | code => rfl
    | _ => rfl

theorem enclosedBytes_eq (t : Text) : enclosedBytes t = Text.bytes (enclosed (Scanner.start.zones t)) := by
  have hcode : Scanner.start.InCode := ⟨rfl, rfl⟩
  have hwalk : enclosedBytes t = enclosed (zoned t.bytes) := by
    rw [enclosedBytes, seenBytes, map_seen_spots, ← map_letter_zone_scan, enclosed, List.filter_map, List.map_map]
    rfl
  rw [hwalk, zoned_bytes, enclosed_flatMap, Scanner.zones_eq_zoned hcode]

/-- **When literals and comments stay as they are**: without its terminators a text has the bytes in literals and
comments that it had exactly if all that is a terminator line by line is code, and no slash of code slips into a line
comment. -/
theorem enclosed_stripTerminators_eq_iff (t : Text) :
    enclosedBytes (stripTerminators t) = enclosedBytes t ↔ TerminatorsInCode (places t) ∧ ¬ SlipsIn (places t) := by
  have hcode : Scanner.start.InCode := ⟨rfl, rfl⟩
  rw [enclosedBytes_eq, enclosedBytes_eq, Text.bytes_injective.eq_iff, eq_comm]
  cases verdict_stripTerminators t hcode.fresh (hcode.settled t) with
  | stays hterminators hslashed hsame => rw [hsame, places, and_iff_right hterminators]
  | parts hterminators hparts => exact iff_of_false hparts.ne fun h => hterminators h.1

example : stripTerminators "a /;// b" = "a /// b".toList ∧ SlipsIn (places "a /;// b") := by decide +kernel

/-- Statements on one line, with semicolons in a literal and in comments. -/
theorem enclosed_stripTerminators_eq_literal :
    let t : Text := "s = \"a;b\"; /* c */ t() ; // d;"
    stripTerminators t = "s = \"a;b\"\n/* c */ t()  // d;".toList ∧
      enclosedBytes (stripTerminators t) = enclosedBytes t :=
  ⟨by decide +kernel, (enclosed_stripTerminators_eq_iff _).2 (by decide +kernel)⟩

/-- A quote in a block comment turns the reading of its line around, and a literal is cut in two. -/
theorem enclosed_stripTerminators_ne_quote :
    let t : Text := "/* 5\" disk */ s = \"a;b\";"
    stripTerminators t = "/* 5\" disk */ s = \"a\nb\";".toList ∧
      enclosedBytes (stripTerminators t) ≠ enclosedBytes t := by
  intro t
  refine ⟨by decide +kernel, ?_⟩
  rw [enclosedBytes_eq, enclosedBytes_eq, Text.bytes_injective.ne_iff]
  decide +kernel

end GoDraft
