import GoDraft.Proofs.Body.ReceiverRules

/-!
# GoDraft — counting loops do not assign to the receiver

A counting loop declares its variable, and its condition may begin with the receiver: `s` and signs of comparison, of
which one may be a single equals sign. The blanks around the signs change, and the machine does not see that.

* `run_condition` — the blanks in a condition make no difference;
* `LoopClause`, `LoopCondition` — the parts of a loop, as they are read and as they are written;
* `LoopCondition.covers` — a loop up to the end of its condition, where its variable is not the receiver;
* `covers_forRule` — a loop up to its brace.
-/

namespace GoDraft

open Text

/-! ## The machine over a loop -/

section Run

variable {p : Bool} {s start gap left op right b b' : Text}

/-- The condition of a loop stands behind its first clause as it would stand where the machine begins anew. -/
theorem run_behind_clause (hs : Settles p s) (hstart : start ≠ [] ∧ ∀ c ∈ start, isWordChar c = true)
    (hgap : gap ≠ [] ∧ ∀ c ∈ gap, isLoose p c = true) (hleft : left ≠ [] ∧ ∀ c ∈ left, isWordChar c = true)
    (q : Watch) : Watch.run p q (s ++ (start ++ gap ++ left)) = Watch.run p q.settled left := by
  have hcalm : Calm p (start ++ gap) :=
    (calm_of_isWordChar hstart.2).append (calm_of_notMem fun h => absurd (hgap.2 _ h) (by cases p <;> decide))
  have hsettled : ∀ q : Watch, q.settled = .free ∨ q.settled = .caught := by decide
  have hletter : ∀ (p : Bool) (k : Glyph), k = .receiver ∨ k = .letter →
      Watch.armed.step p k = Watch.free.step p k := by decide
  rw [Watch.run_append, hs]
  rcases hsettled q with hq | hq <;> rw [hq]
  · rw [Watch.run_append]
    have hfree := hcalm .free
    rcases run_word_gap hstart hgap .free with h | h | h
    · rw [h]
    · obtain ⟨c, left, rfl⟩ := List.exists_cons_of_ne_nil hleft.1
      rw [h, Watch.run_cons, Watch.run_cons, hletter p _ (Glyph.of_word (hleft.2 c List.mem_cons_self))]
    · rw [h] at hfree
      cases hfree
  · rw [Watch.run_caught, Watch.run_caught]

/-- Some blanks are read as one space, except where a comment may begin. -/
theorem run_blanks {q : Watch} (hq : q ≠ .slashes) (hne : b ≠ []) (hb : ∀ c ∈ b, isBlank c = true) :
    Watch.run p q b = q.step p .space := by
  have hloose : ∀ (p : Bool) (q : Watch) (k : Glyph), q ≠ .slashes → k = .space ∨ k = .loose →
      q.step p k = q.step p .space := by decide
  have hspace : ∀ (p : Bool) (q : Watch), q ≠ .slashes →
      q.step p .space ≠ .slashes ∧ (q.step p .space).step p .space = q.step p .space := by decide
  induction b generalizing q with
  | nil => exact absurd rfl hne
  | cons c b ih =>
    rw [List.forall_mem_cons] at hb
    rw [Watch.run_cons, hloose p q _ hq (Glyph.of_blank hb.1)]
    by_cases hnil : b = []
    · rw [hnil, Watch.run_nil]
    · rw [ih (hspace p q hq).1 hnil hb.2, (hspace p q hq).2]

/-- Blanks are read as one space where none are read like one. -/
theorem run_blanks_append {q : Watch} (hq : q ≠ .slashes) (hb : ∀ c ∈ b, isBlank c = true)
    (hs : Watch.run p (q.step p .space) s = Watch.run p q s) :
    Watch.run p q (b ++ s) = Watch.run p q (" ".toList ++ s) := by
  have hone : Watch.run p q " ".toList = q.step p .space := rfl
  rw [Watch.run_append, Watch.run_append, hone]
  by_cases hne : b = []
  · rw [hne, Watch.run_nil, hs]
  · rw [run_blanks hq hne hb]

theorem of_comparison {c : Char} (h : c ∈ "<>=!".toList) : Glyph.of c = .equals ∨ Glyph.of c = .other := by
  revert c
  decide

theorem run_comparison {q : Watch} (hq : q = .free ∨ q = .armed)
    (hop : op ≠ [] ∧ ∀ c ∈ op, c ∈ "<>=!".toList) :
    Watch.run p q op = .free ∨ Watch.run p q op = .equal ∨ Watch.run p q op = .caught := by
  have hfirst : ∀ (p : Bool) (q : Watch) (k : Glyph), k = .equals ∨ k = .other → q = .free ∨ q = .armed →
      q.step p k = .free ∨ q.step p k = .equal ∨ q.step p k = .caught := by decide
  have hnext : ∀ (p : Bool) (q : Watch) (k : Glyph), k = .equals ∨ k = .other →
      q = .free ∨ q = .equal ∨ q = .caught → q.step p k = .free ∨ q.step p k = .equal ∨ q.step p k = .caught := by
    decide
  obtain ⟨c, v, rfl⟩ := List.exists_cons_of_ne_nil hop.1
  rw [List.forall_mem_cons] at hop
  rw [Watch.run_cons]
  exact Watch.run_induct (P := fun q => q = .free ∨ q = .equal ∨ q = .caught)
    (fun d hd q hq => hnext p q _ (of_comparison (hop.2.2 d hd)) hq) (hfirst p q _ (of_comparison hop.2.1) hq)

/-- The blanks in a condition make no difference. -/
theorem run_condition (hleft : left ≠ [] ∧ ∀ c ∈ left, isWordChar c = true)
    (hop : op ≠ [] ∧ ∀ c ∈ op, c ∈ "<>=!".toList) {c : Char} (hc : isWordChar c = true)
    (hb : ∀ c ∈ b, isBlank c = true) (hb' : ∀ c ∈ b', isBlank c = true) :
    Watch.run p .free (left ++ (b ++ (op ++ (b' ++ c :: right)))) =
      Watch.run p .free (left ++ (" ".toList ++ (op ++ (" ".toList ++ c :: right)))) := by
  -- behind the first word, a space makes no difference before a sign
  have hsign : ∀ (p : Bool) (q : Watch) (k : Glyph), q = .word ∨ q = .name → k = .equals ∨ k = .other →
      q ≠ .slashes ∧ (q.step p .space).step p k = q.step p k ∧
        (q.step p .space = .free ∨ q.step p .space = .armed) := by decide
  -- behind the signs, a space makes no difference before a word
  have hword : ∀ (p : Bool) (q : Watch) (k : Glyph), q = .free ∨ q = .equal ∨ q = .caught →
      k = .receiver ∨ k = .letter → q ≠ .slashes ∧ (q.step p .space).step p k = q.step p k := by decide
  have hone (q : Watch) (s : Text) : Watch.run p q (" ".toList ++ s) = Watch.run p (q.step p .space) s := rfl
  rw [Watch.run_append, Watch.run_append p .free left]
  have hq := run_free_dotted (p := p) hleft.1 (isDotted_of_isWordChar hleft.2)
  generalize Watch.run p .free left = q at hq
  obtain ⟨d, v, rfl⟩ := List.exists_cons_of_ne_nil hop.1
  obtain ⟨hslashes, hsame, hspace⟩ := hsign p q (.of d) hq (of_comparison (hop.2 d List.mem_cons_self))
  rw [run_blanks_append hslashes hb (by rw [List.cons_append, Watch.run_cons, Watch.run_cons, hsame]), hone, hone,
    Watch.run_append, Watch.run_append p (q.step p .space) (d :: v)]
  have hr := run_comparison (p := p) hspace hop
  generalize Watch.run p (q.step p .space) (d :: v) = r at hr
  obtain ⟨hslashes', hsame'⟩ := hword p r (.of c) hr (Glyph.of_word hc)
  exact run_blanks_append hslashes' hb' (by rw [Watch.run_cons, Watch.run_cons, hsame'])

end Run

/-! ## First clauses -/

/-- The first clause of a counting loop, up to the value that it starts with. -/
structure LoopClause where
  lead : Text
  type : Text
  gap : Text
  name : Text
  blanks : Text
  blanks' : Text
  start : Text
  calm_lead : Calm false lead
  word_type : type ≠ [] ∧ ∀ c ∈ type, isWordChar c = true
  blank_gap : gap ≠ [] ∧ ∀ c ∈ gap, isBlank c = true
  word_name : name ≠ [] ∧ ∀ c ∈ name, isWordChar c = true
  blank_blanks : ∀ c ∈ blanks, isBlank c = true
  blank_blanks' : ∀ c ∈ blanks', isBlank c = true
  word_start : start ≠ [] ∧ ∀ c ∈ start, isWordChar c = true

namespace LoopClause

/-- The clause in Java, before its value. -/
def java (l : LoopClause) : Text := l.lead ++ (l.type ++ (l.gap ++ (l.name ++ (l.blanks ++ ['=']) ++ l.blanks')))

/-- The clause in Go, before its value. -/
def go (l : LoopClause) : Text := "for ".toList ++ (l.name ++ " := ".toList)

def segments : List Segment :=
  [.filler .wordEdge, .text "for", .filler Pattern.blanks, .text "(", .filler Pattern.blanks, .group 1 Pattern.word,
    .filler Pattern.blanks1, .group 2 Pattern.word, .filler Pattern.blanks, .text "=", .filler Pattern.blanks,
    .group 3 Pattern.word]

theorem exists_of_spells {s : Text} {g : Notes} (h : Segment.Spells segments s g) :
    ∃ l : LoopClause, s = l.java ++ l.start ∧ g = [(3, l.start), (2, l.name), (1, l.type)] := by
  -- segment by segment, in the order of the pattern
  obtain ⟨e, s, ⟨rfl, -⟩, rfl, h₁⟩ := h.of_filler
  obtain ⟨s, rfl, h₂⟩ := h₁.of_text
  obtain ⟨b₁, s, hb₁, rfl, h₃⟩ := h₂.of_filler
  obtain ⟨s, rfl, h₄⟩ := h₃.of_text
  obtain ⟨b₂, s, hb₂, rfl, h₅⟩ := h₄.of_filler
  obtain ⟨type, s, g, htype, rfl, rfl, h₆⟩ := h₅.of_group
  obtain ⟨gap, s, hgap, rfl, h₇⟩ := h₆.of_filler
  obtain ⟨name, s, g, hname, rfl, rfl, h₈⟩ := h₇.of_group
  obtain ⟨b₃, s, hb₃, rfl, h₉⟩ := h₈.of_filler
  obtain ⟨s, rfl, h₁₀⟩ := h₉.of_text
  obtain ⟨b₄, s, hb₄, rfl, h₁₁⟩ := h₁₀.of_filler
  obtain ⟨start, s, g, hstart, rfl, rfl, h₁₂⟩ := h₁₁.of_group
  obtain ⟨rfl, rfl⟩ := h₁₂.eq_nil
  have hlead : Calm false ("for".toList ++ (b₁ ++ ("(".toList ++ b₂))) :=
    Calm.append (by decide) ((calm_of_isBlank (Pattern.fits_many_one hb₁)).append
      (Calm.append (by decide) (calm_of_isBlank (Pattern.fits_many_one hb₂))))
  refine ⟨{
    lead := "for".toList ++ (b₁ ++ ("(".toList ++ b₂)), type, gap, name, blanks := b₃, blanks' := b₄, start
    calm_lead := hlead
    word_type := Pattern.fits_many1_one htype
    blank_gap := Pattern.fits_many1_one hgap
    word_name := Pattern.fits_many1_one hname
    blank_blanks := Pattern.fits_many_one hb₃
    blank_blanks' := Pattern.fits_many_one hb₄
    word_start := Pattern.fits_many1_one hstart }, ?_, rfl⟩
  simp [java]

/-- The machine is caught by a clause that declares the receiver. -/
theorem catches (l : LoopClause) (h : l.name = receiver) : Catches false (l.java ++ l.start) := by
  obtain ⟨c, v, hstart⟩ := List.exists_cons_of_ne_nil l.word_start.1
  have hc : c ≠ '=' := by
    rintro rfl
    exact absurd (l.word_start.2 _ (hstart ▸ List.mem_cons_self)) (by decide)
  have hcatches := (catches_declaration (p := false) l.word_type l.blank_gap l.blank_blanks (by simp)
    (head?_blanks_append l.blank_blanks' hc v)).behind l.lead
  rw [java, hstart, h]
  simpa using hcatches

theorem settles_java (l : LoopClause) (h : Words false l.name) : Settles false l.java :=
  l.calm_lead.settles ((calm_of_isWordChar l.word_type.2).settles ((calm_of_isBlank l.blank_gap.2).settles
    ((settles_equals h l.blank_blanks).append_loose fun c hc => isLoose_of_isBlank (l.blank_blanks' c hc))))

theorem settles_go (l : LoopClause) (h : Words false l.name) : Settles false l.go :=
  Calm.settles (by decide) (h.settles (by decide))

end LoopClause

/-! ## Conditions -/

/-- The condition of a counting loop, with the semicolon before it. -/
structure LoopCondition where
  gap : Text
  left : Text
  before : Text
  op : Text
  behind : Text
  right : Text
  loose_gap : gap ≠ [] ∧ ∀ c ∈ gap, isLoose false c = true
  word_left : left ≠ [] ∧ ∀ c ∈ left, isWordChar c = true
  blank_before : ∀ c ∈ before, isBlank c = true
  sign_op : op ≠ [] ∧ ∀ c ∈ op, c ∈ "<>=!".toList
  blank_behind : ∀ c ∈ behind, isBlank c = true
  word_right : ∃ c v, right = c :: v ∧ isWordChar c = true

namespace LoopCondition

/-- The condition in Java. -/
def java (d : LoopCondition) : Text := d.gap ++ (d.left ++ (d.before ++ (d.op ++ (d.behind ++ d.right))))

/-- The condition in Go. -/
def go (d : LoopCondition) : Text :=
  "; ".toList ++ (d.left ++ (" ".toList ++ (d.op ++ (" ".toList ++ d.right))))

def segments : List Segment :=
  [.filler Pattern.blanks, .text ";", .filler Pattern.blanks, .group 4 Pattern.word, .filler Pattern.blanks,
    .group 5 (Pattern.many1 (Pattern.oneOf "<>=!")), .filler Pattern.blanks,
    .group 6 (Pattern.word ++ Pattern.many ("." ++ Pattern.word))]

theorem exists_of_spells {s : Text} {g : Notes} (h : Segment.Spells segments s g) :
    ∃ d : LoopCondition, s = d.java ∧ g = [(6, d.right), (5, d.op), (4, d.left)] := by
  obtain ⟨b₁, s, hb₁, rfl, h₁⟩ := h.of_filler
  obtain ⟨s, rfl, h₂⟩ := h₁.of_text
  obtain ⟨b₂, s, hb₂, rfl, h₃⟩ := h₂.of_filler
  obtain ⟨left, s, g, hleft, rfl, rfl, h₄⟩ := h₃.of_group
  obtain ⟨before, s, hbefore, rfl, h₅⟩ := h₄.of_filler
  obtain ⟨op, s, g, hop, rfl, rfl, h₆⟩ := h₅.of_group
  obtain ⟨behind, s, hbehind, rfl, h₇⟩ := h₆.of_filler
  obtain ⟨right, s, g, hright, rfl, rfl, h₈⟩ := h₇.of_group
  obtain ⟨rfl, rfl⟩ := h₈.eq_nil
  have hgap : ∀ c ∈ b₁ ++ (";".toList ++ b₂), isLoose false c = true := by
    rw [List.forall_mem_append, List.forall_mem_append]
    exact ⟨fun c hc => isLoose_of_isBlank (Pattern.fits_many_one hb₁ c hc), by decide,
      fun c hc => isLoose_of_isBlank (Pattern.fits_many_one hb₂ c hc)⟩
  have hop' : op ≠ [] ∧ ∀ c ∈ op, c ∈ "<>=!".toList := by
    obtain ⟨hne, hsigns⟩ := Pattern.fits_many1_one hop
    exact ⟨hne, fun c hc => List.elem_iff.mp (hsigns c hc)⟩
  have hright' : ∃ c v, right = c :: v ∧ isWordChar c = true := by
    obtain ⟨w, _, v, _, hw, -, rfl, -⟩ := hright
    obtain ⟨hne, hw⟩ := Pattern.fits_many1_one hw
    obtain ⟨c, w, rfl⟩ := List.exists_cons_of_ne_nil hne
    exact ⟨c, w ++ v, rfl, hw c List.mem_cons_self⟩
  refine ⟨{
    gap := b₁ ++ (";".toList ++ b₂), left, before, op, behind, right
    loose_gap := ⟨by simp, hgap⟩
    word_left := Pattern.fits_many1_one hleft
    blank_before := Pattern.fits_many_one hbefore
    sign_op := hop'
    blank_behind := Pattern.fits_many_one hbehind
    word_right := hright' }, ?_, rfl⟩
  simp [java]

/-- A condition stands behind a first clause as it would stand where the machine begins anew. -/
theorem run_java (d : LoopCondition) {s start : Text} (hs : Settles false s)
    (hstart : start ≠ [] ∧ ∀ c ∈ start, isWordChar c = true) (q : Watch) :
    Watch.run false q (s ++ (start ++ d.java)) =
      Watch.run false q.settled (d.left ++ (d.before ++ (d.op ++ (d.behind ++ d.right)))) := by
  have hparts : s ++ (start ++ d.java) =
      s ++ (start ++ d.gap ++ d.left) ++ (d.before ++ (d.op ++ (d.behind ++ d.right))) := by simp [java]
  rw [hparts, Watch.run_append, run_behind_clause hs hstart d.loose_gap d.word_left, ← Watch.run_append]

theorem run_go (d : LoopCondition) {s start : Text} (hs : Settles false s)
    (hstart : start ≠ [] ∧ ∀ c ∈ start, isWordChar c = true) (q : Watch) :
    Watch.run false q (s ++ (start ++ d.go)) =
      Watch.run false q.settled (d.left ++ (" ".toList ++ (d.op ++ (" ".toList ++ d.right)))) := by
  have hparts : s ++ (start ++ d.go) =
      s ++ (start ++ "; ".toList ++ d.left) ++ (" ".toList ++ (d.op ++ (" ".toList ++ d.right))) := by simp [go]
  rw [hparts, Watch.run_append, run_behind_clause hs hstart (by decide) d.word_left, ← Watch.run_append]

/-- From the start of a loop to the end of its condition, where its variable is not the receiver. -/
theorem covers (d : LoopCondition) {s s' start : Text} (hs : Settles false s) (hs' : Settles false s')
    (hstart : start ≠ [] ∧ ∀ c ∈ start, isWordChar c = true) :
    Covers false false (s ++ (start ++ d.java)) (s' ++ (start ++ d.go)) := by
  intro q q' hq
  rw [d.run_java hs hstart, d.run_go hs' hstart]
  rcases Watch.settled_of_under hq with hq | ⟨hq, hq'⟩
  · rw [hq, Watch.run_caught]
    exact Watch.under_caught _
  · obtain ⟨c, v, hright, hc⟩ := d.word_right
    rw [hq, hq', hright, run_condition d.word_left d.sign_op hc d.blank_before d.blank_behind]
    exact Watch.under_refl _

end LoopCondition

/-! ## Last clauses -/

def loopStepSegments : List Segment :=
  [.filler Pattern.blanks, .text ";", .filler Pattern.blanks, .group 7 Pattern.word,
    .group 8 ("++" ||| "--" ||| "+=1" ||| "-=1"), .filler Pattern.blanks, .text ")", .filler Pattern.blanks,
    .text "\x7b"]

/-- The last clause of a counting loop, up to the brace. -/
theorem exists_of_spells_loopStep {s : Text} {g : Notes} (h : Segment.Spells loopStepSegments s g) :
    ∃ name step, g = [(8, step), (7, name)] ∧
      Covers false false s ("; ".toList ++ (name ++ (step ++ " \x7b".toList))) := by
  obtain ⟨b₁, s, hb₁, rfl, h₁⟩ := h.of_filler
  obtain ⟨s, rfl, h₂⟩ := h₁.of_text
  obtain ⟨b₂, s, hb₂, rfl, h₃⟩ := h₂.of_filler
  obtain ⟨name, s, g, hname, rfl, rfl, h₄⟩ := h₃.of_group
  obtain ⟨step, s, g, hstep, rfl, rfl, h₅⟩ := h₄.of_group
  obtain ⟨b₃, s, hb₃, rfl, h₆⟩ := h₅.of_filler
  obtain ⟨s, rfl, h₇⟩ := h₆.of_text
  obtain ⟨b₄, s, hb₄, rfl, h₈⟩ := h₇.of_filler
  obtain ⟨s, rfl, h₉⟩ := h₈.of_text
  obtain ⟨rfl, rfl⟩ := h₉.eq_nil
  have hname' : Calm false name := calm_of_isWordChar (Pattern.fits_many1_one hname).2
  have hstep' : Calm false step := by
    rcases hstep with ((h | h) | h) | h <;> rw [(Pattern.fits_text h).1] <;> decide
  have hblanks {b : Text} {g : Notes} (hb : Pattern.blanks.Fits b g) : Calm false b :=
    calm_of_isBlank (Pattern.fits_many_one hb)
  refine ⟨name, step, rfl, .of_settles ?_ ?_⟩
  · exact (hblanks hb₁).settles (Calm.settles (by decide) ((hblanks hb₂).settles (hname'.settles (hstep'.settles
      ((hblanks hb₃).settles (Calm.settles (by decide) ((hblanks hb₄).settles (by decide))))))))
  · exact Calm.settles (by decide) (hname'.settles (hstep'.settles (by decide)))

/-! ## Loops -/

theorem spelledBy_forRule :
    forRule.pattern.SpelledBy (LoopClause.segments ++ (LoopCondition.segments ++ loopStepSegments)) := by
  have hspelled : ∃ segments, forRule.pattern.SpelledBy segments ∧
      segments = LoopClause.segments ++ (LoopCondition.segments ++ loopStepSegments) := by
    unfold forRule
    exact ⟨_, by
      repeat' first
        | exact .text _
        | exact .group rfl
        | exact (.filler rfl : Pattern.blanks1.SpelledBy _)
        | apply Pattern.SpelledBy.seq
        | exact .filler rfl,
      by rfl⟩
  obtain ⟨_, hspelled, rfl⟩ := hspelled
  exact hspelled

theorem covers_forRule {k : Cursor} {m : Match} (hm : forRule.pattern.matchAt? k = some m) :
    Covers false false m.span.text (forRule.template.fill m) := by
  obtain ⟨-, -, g, hfits, hgroup⟩ := Pattern.fits_of_matchAt? hm
  obtain ⟨s₁, g₁, _, _, hclause, hrest, hs, hg⟩ := (spelledBy_forRule _ g hfits).of_append
  obtain ⟨s₂, g₂, s₃, g₃, hcondition, hstep, rfl, rfl⟩ := hrest.of_append
  obtain ⟨l, rfl, rfl⟩ := LoopClause.exists_of_spells hclause
  obtain ⟨d, rfl, rfl⟩ := LoopCondition.exists_of_spells hcondition
  obtain ⟨name, step, rfl, hlast⟩ := exists_of_spells_loopStep hstep
  have hfill : forRule.template.fill m =
      l.go ++ (l.start ++ d.go) ++ ("; ".toList ++ (name ++ (step ++ " \x7b".toList))) := by
    have hgroups : forRule.template.fill m = "for ".toList ++ (m.group 2 ++ (" := ".toList ++ (m.group 3 ++
        ("; ".toList ++ (m.group 4 ++ (" ".toList ++ (m.group 5 ++ (" ".toList ++ (m.group 6 ++ ("; ".toList ++
        (m.group 7 ++ (m.group 8 ++ (" \x7b".toList ++ []))))))))))))) := rfl
    rw [hgroups, hgroup 1, hgroup 2, hgroup 3, hgroup 4, hgroup 5, hgroup 6, hgroup 7, hg, LoopClause.go,
      LoopCondition.go]
    simp only [List.append_assoc]
    rfl
  have htext : m.span.text = l.java ++ l.start ++ d.java ++ s₃ := by
    rw [hs]
    simp only [List.append_assoc]
  rw [hfill, htext]
  -- a loop that declares the receiver catches the machine before the rule; any other settles it
  by_cases hreceiver : l.name = receiver
  · exact (((l.catches hreceiver).append d.java).append s₃).covers _ _
  · have hwords := words_of_ne_receiver (p := false) l.word_name.2 l.word_name.1 hreceiver
    have hwhole := (d.covers (l.settles_java hwords) (l.settles_go hwords) l.word_start).append hlast
    simp only [List.append_assoc] at hwhole ⊢
    exact hwhole

end GoDraft
