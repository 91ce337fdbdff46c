import GoDraft.Proofs.Body.Translation

/-!
# GoDraft — what is left of a layout

Two layouts of the same statements differ in the spacing behind the statements and inside the braces.
Nearly nothing of it is left in the translation. What is left are the seams: where a block ends and a
loop with its condition first begins on the same line, the two stay together with the spaces between
them, as `while` behind a brace can also be the end of a loop.

* `Layout.seams` — the spaces at the seams of a layout;
* `mainDecl_text_eq_iff` — two layouts have the same translation exactly when their seams agree.
-/

namespace GoDraft

/-! ## Statements with a layout -/

namespace Statements

/-- Statements without their layout. -/
def erase {γ : Type} : Statements γ → Statements Unit
  | done => done
  | simple s _ next => simple s () next.erase
  | block h _ body _ next => block h () body.erase () next.erase
  | branches c _ body _ other _ next => branches c () body.erase () other.erase () next.erase
  | repeated _ body c _ next => repeated () body.erase c () next.erase

/-- The Java text of statements with the spacing behind each of them and inside their braces. -/
def text : Statements Spacing → Text
  | done => []
  | simple s w next => s.java ++ (w.text ++ next.text)
  | block h inner body w next =>
    h.java ++ (inner.text ++ (body.text ++ ("\x7d" ++ (w.text ++ next.text))))
  | branches c inner body inner' other w next =>
    (Header.branch c).java ++ (inner.text ++ (body.text ++ ("\x7d else \x7b" ++ (inner'.text
      ++ (other.text ++ ("\x7d" ++ (w.text ++ next.text)))))))
  | repeated inner body c w next =>
    "do \x7b" ++ (inner.text ++ (body.text ++ (("\x7d while (" ++ c.text ++ ");") ++ (w.text ++ next.text))))

/-- The layout of statements with their spacing. -/
def layout : Statements Spacing → Layout
  | done => []
  | simple s w next => (.simple s, w) :: next.layout
  | block h inner body w next => (.opening h, inner) :: (body.layout ++ (.closing, w) :: next.layout)
  | branches c inner body inner' other w next =>
    (.opening (.branch c), inner)
      :: (body.layout ++ (.closingElse, inner') :: (other.layout ++ (.closing, w) :: next.layout))
  | repeated inner body c w next =>
    (.openingDo, inner) :: (body.layout ++ (.closingWhile c, w) :: next.layout)

theorem lines_erase {γ : Type} (p : Statements γ) : p.erase.lines = p.lines := by
  induction p with
  | done => rfl
  | simple s _ next ih => rw [erase, lines, lines, ih]
  | block h _ body _ next ihbody ih => rw [erase, lines, lines, ihbody, ih]
  | branches c _ body _ other _ next ihbody ihother ih => rw [erase, lines, lines, ihbody, ihother, ih]
  | repeated _ body c _ next ihbody ih => rw [erase, lines, lines, ihbody, ih]

theorem map_fst_layout (p : Statements Spacing) : p.layout.map Prod.fst = p.lines := by
  induction p with
  | done => rfl
  | simple s w next ih => simp [layout, lines, ih]
  | block h inner body w next ihbody ih => simp [layout, lines, ihbody, ih]
  | branches c inner body inner' other w next ihbody ihother ih => simp [layout, lines, ihbody, ihother, ih]
  | repeated inner body c w next ihbody ih => simp [layout, lines, ihbody, ih]

end Statements

theorem Layout.text_append (x y : Layout) : Layout.text (x ++ y) = x.text ++ y.text := by
  induction x with
  | nil => rfl
  | cons a x ih => rw [List.cons_append, Layout.text, Layout.text, ih, List.append_assoc, List.append_assoc]

theorem Statements.text_layout (p : Statements Spacing) : p.layout.text = p.text := by
  induction p with
  | done => rfl
  | simple s w next ih =>
    rw [layout, Layout.text, ih]
    rfl
  | block h inner body w next ihbody ih =>
    rw [layout, Layout.text, Layout.text_append, Layout.text, ihbody, ih]
    rfl
  | branches c inner body inner' other w next ihbody ihother ih =>
    rw [layout, Layout.text, Layout.text_append, Layout.text, Layout.text_append, Layout.text, ihbody,
      ihother, ih]
    rfl
  | repeated inner body c w next ihbody ih =>
    rw [layout, Layout.text, Layout.text_append, Layout.text, ihbody, ih]
    rfl

/-! ## Seams -/

/-- Whether a loop with its condition first follows the end of a block. -/
def isSeam : Line → Line → Bool
  | .closing, .opening (.loop _) => true
  | _, _ => false

theorem eq_of_isSeam {l l' : Line} (h : isSeam l l' = true) : ∃ c, l = .closing ∧ l' = .opening (.loop c) := by
  unfold isSeam at h
  split at h
  · exact ⟨_, rfl, rfl⟩
  · exact absurd h Bool.false_ne_true

/-- The line that two lines with a spacing between them make, where they stay together. -/
def joined? : Line → Spacing → Line → Option Line
  | .closing, w, .opening (.loop c) =>
    if h : w.isFlat = true then some (.joint ⟨w.text, Spacing.isGap_of_isFlat h⟩ c) else none
  | _, _, _ => none

theorem eq_of_joined? {l l' j : Line} {w : Spacing} (h : joined? l w l' = some j) :
    ∃ c g, l = .closing ∧ l' = .opening (.loop c) ∧ j = .joint g c ∧ g.text = w.text := by
  unfold joined? at h
  split at h
  · rename_i c
    split at h
    · exact ⟨c, _, rfl, rfl, (Option.some.inj h).symm, rfl⟩
    · exact absurd h (by simp)
  · exact absurd h (by simp)

theorem joined?_of_isFlat {w : Spacing} (h : w.isFlat = true) (c : Condition) :
    joined? .closing w (.opening (.loop c)) = some (.joint ⟨w.text, Spacing.isGap_of_isFlat h⟩ c) :=
  dif_pos h

theorem joined?_of_not_isFlat {w : Spacing} (h : ¬ w.isFlat = true) (c : Condition) :
    joined? .closing w (.opening (.loop c)) = none := dif_neg h

theorem joined?_of_not_isSeam {l l' : Line} (h : ¬ isSeam l l' = true) (w : Spacing) :
    joined? l w l' = none := by
  unfold joined?
  split
  · exact absurd rfl h
  · rfl

namespace Layout

/-- A layout with the lines that stay together as one. -/
def merged : Layout → Layout
  | [] => []
  | [y] => [y]
  | (l, w) :: (l', w') :: x =>
    match joined? l w l' with
    | some j => (j, w') :: merged x
    | none => (l, w) :: merged ((l', w') :: x)

/-- The spaces at each seam; none where the loop begins on a line of its own. -/
def seams : Layout → List (Option Text)
  | [] => []
  | [_] => []
  | (l, w) :: (l', w') :: x =>
    if isSeam l l' then (if w.isFlat then some w.text else none) :: seams ((l', w') :: x)
    else seams ((l', w') :: x)

theorem text_merged : ∀ x : Layout, x.merged.text = x.text
  | [] => rfl
  | [_] => rfl
  | (l, w) :: (l', w') :: x => by
    rw [merged]
    split
    · rename_i j hj
      obtain ⟨c, g, rfl, rfl, rfl, hg⟩ := eq_of_joined? hj
      have hjava : (Line.joint g c).java = Line.closing.java ++ (w.text ++ (Line.opening (.loop c)).java) := by
        rw [← hg]
        unfold Line.java
        simp
      rw [text, text_merged x, text, text, hjava, List.append_assoc, List.append_assoc]
    · rw [text, text_merged ((l', w') :: x)]
      rfl

/-- No line goes on with a block but the loops that have their condition first. -/
def Steady (x : Layout) : Prop := ∀ y ∈ x, y.1.continues = true → ∃ c, y.1 = .opening (.loop c)

theorem apart_cons {l : Line} {w : Spacing} {z : Layout} (hz : z.Apart)
    (h : l = .closing → w.isFlat = true → ∀ y ∈ z.head?, y.1.continues = false) :
    Apart ((l, w) :: z) := by
  cases z with
  | nil => trivial
  | cons y z => exact ⟨fun hl hw => h hl hw y rfl, hz⟩

theorem head_merged (l : Line) (w : Spacing) (x : Layout) :
    ∀ y ∈ (merged ((l, w) :: x)).head?, y.1 = l ∨ y.1.continues = false := by
  intro y hy
  cases x with
  | nil =>
    obtain rfl : (l, w) = y := by simpa [merged] using hy
    exact .inl rfl
  | cons z x =>
    rw [merged] at hy
    split at hy
    · rename_i j hj
      obtain ⟨c, g, -, -, rfl, -⟩ := eq_of_joined? hj
      obtain rfl : (Line.joint g c, z.2) = y := by simpa using hy
      exact .inr rfl
    · obtain rfl : (l, w) = y := by simpa using hy
      exact .inl rfl

theorem apart_merged : ∀ {x : Layout}, x.Steady → x.merged.Apart
  | [], _ => trivial
  | [_], _ => trivial
  | (l, w) :: (l', w') :: x, h => by
    have htail : Steady ((l', w') :: x) := fun y hy => h y (List.mem_cons_of_mem _ hy)
    rw [merged]
    split
    · rename_i j hj
      obtain ⟨c, g, -, -, rfl, -⟩ := eq_of_joined? hj
      exact apart_cons (apart_merged fun y hy => htail y (List.mem_cons_of_mem _ hy))
        fun hl => absurd hl (by simp)
    · rename_i hnone
      refine apart_cons (apart_merged htail) ?_
      rintro rfl hw y hy
      rcases head_merged l' w' x y hy with hl | hl
      · rw [hl, Bool.eq_false_iff]
        intro hcontinues
        obtain ⟨c, rfl⟩ : ∃ c, l' = .opening (.loop c) := htail (l', w') List.mem_cons_self hcontinues
        rw [joined?_of_isFlat hw] at hnone
        exact absurd hnone (by simp)
      · exact hl

theorem seams_loop (c : Condition) (w : Spacing) (x : Layout) :
    seams ((.opening (.loop c), w) :: x) = seams x := by
  cases x with
  | nil => rfl
  | cons y x => rfl

-- The induction is on the lines of both layouts at once; where they stay together it goes on behind
-- the loop.
theorem flatMap_go_merged_eq_iff : ∀ {x y : Layout}, x.map Prod.fst = y.map Prod.fst →
    ((x.merged.flatMap fun z => z.1.go) = (y.merged.flatMap fun z => z.1.go) ↔ x.seams = y.seams)
  | [], y, h => by
    obtain rfl : y = [] := by simpa using h.symm
    exact ⟨fun _ => rfl, fun _ => rfl⟩
  | [(l, w)], y, h => by
    match y, h with
    | [(m, v)], h =>
      obtain rfl : l = m := by simpa using h
      exact ⟨fun _ => rfl, fun _ => rfl⟩
  | (l, w) :: (l', w') :: x, y, h => by
    match y, h with
    | (m, v) :: (m', v') :: y, h =>
      simp only [List.map_cons, List.cons.injEq] at h
      obtain ⟨rfl, rfl, hxy⟩ := h
      have ih : ((merged ((l', w') :: x)).flatMap fun z => z.1.go) =
          ((merged ((l', v') :: y)).flatMap fun z => z.1.go) ↔
          seams ((l', w') :: x) = seams ((l', v') :: y) := flatMap_go_merged_eq_iff (by simp [hxy])
      have ihnext := flatMap_go_merged_eq_iff hxy
      rw [seams, seams, merged, merged]
      by_cases hseam : isSeam l l' = true
      · rw [if_pos hseam, if_pos hseam]
        obtain ⟨c, rfl, rfl⟩ := eq_of_isSeam hseam
        have hjoint : ∀ g : Gap, (Line.joint g c).go = ['}' :: (g.text ++ (Header.loop c).go)] :=
          fun _ => rfl
        have hclosing : Line.closing.go = [['}']] := rfl
        have hloop : (Header.loop c).go ≠ [] := List.cons_ne_nil _ _
        -- a seam shows in the lines: joined, two lines are one, which is longer than a brace alone
        by_cases hw : w.isFlat = true
        · rw [joined?_of_isFlat hw, if_pos hw]
          by_cases hv : v.isFlat = true
          · rw [joined?_of_isFlat hv, if_pos hv, seams_loop, seams_loop]
            simp [hjoint, ihnext]
          · rw [joined?_of_not_isFlat hv, if_neg hv]
            simp [hjoint, hclosing, hloop]
        · rw [joined?_of_not_isFlat hw, if_neg hw]
          by_cases hv : v.isFlat = true
          · rw [joined?_of_isFlat hv, if_pos hv]
            simp [hjoint, hclosing, hloop]
          · rw [joined?_of_not_isFlat hv, if_neg hv]
            simp [ih]
      · rw [if_neg hseam, if_neg hseam, joined?_of_not_isSeam hseam, joined?_of_not_isSeam hseam]
        simp [ih]

end Layout

/-! ## Go lines can be told apart in the text -/

theorem Cleans.mem {line g : Text} (h : Cleans line g) {c : Char} (hc : c ∈ g) : c ∈ line := by
  rw [← h.trim] at hc
  exact h.start.subset (Text.mem_of_mem_trim hc)

theorem Line.newline_notMem_go (l : Line) : ∀ g ∈ l.go, '\n' ∉ g := by
  have hclean : CleansAll (Gap.empty.text ++ (l.form 9 ++ Gap.empty.text)) l.go := l.cleansAll_form
  have hpieces := (List.forall₂_and_left _ _).mpr ⟨fun t ht => (Text.not_mem_of_mem_pieces t ht).1, hclean⟩
  have hlines : List.Forall₂ (fun g t => '\n' ∉ g ∧ Cleans t g) l.go _ :=
    (hpieces.imp fun t g h => ⟨fun hg => h.1 (h.2.mem hg), h.2⟩).flip
  exact ((List.forall₂_and_left _ _).mp hlines).1

theorem pieces_indented (t : Text) : ∀ {gs : List Text}, (∀ g ∈ gs, '\n' ∉ g) →
    Text.pieces '\n' (gs.flatMap (fun g => (indent ++ g ++ "\n" : Text)) ++ t) =
      gs.map (indent ++ ·) ++ t.pieces '\n'
  | [], _ => rfl
  | g :: gs, h => by
    rw [List.forall_mem_cons] at h
    have hline : '\n' ∉ indent ++ g := by
      rw [List.mem_append, not_or]
      exact ⟨by decide, h.1⟩
    have htext : ((g :: gs).flatMap (fun g => (indent ++ g ++ "\n" : Text)) ++ t) =
        (indent ++ g) ++ '\n' :: (gs.flatMap (fun g => (indent ++ g ++ "\n" : Text)) ++ t) := by
      simp
    rw [htext, Text.pieces_append_cons hline, pieces_indented t h.2]
    rfl

/-- Lines without line feeds are told apart in the text of `main`. -/
theorem mainText_inj {gs hs : List Text} (hgs : ∀ g ∈ gs, '\n' ∉ g) (hhs : ∀ h ∈ hs, '\n' ∉ h) :
    mainText gs = mainText hs ↔ gs = hs := by
  refine ⟨fun h => ?_, fun h => by rw [h]⟩
  unfold mainText at h
  rw [List.append_assoc, List.append_assoc, List.append_cancel_left_eq] at h
  have hpieces := congrArg (Text.pieces '\n') h
  rw [pieces_indented _ hgs, pieces_indented _ hhs, List.append_cancel_right_eq] at hpieces
  exact List.map_injective_iff.mpr (fun _ _ h => List.append_cancel_left h) hpieces

/-! ## Two layouts of the same statements -/

/-- The name a token is. -/
def Token.name? : Token → Option Name
  | name n => some n
  | _ => none

/-- The names of a line. -/
def Line.names (l : Line) : List Name := l.javaTokens.filterMap Token.name?

/-- The names of a list of statements. -/
def Statements.names {γ : Type} (p : Statements γ) : List Name := p.lines.flatMap Line.names

theorem Line.eq_loop_of_continues {l : Line} (hnames : ∀ n ∈ l.names, n.text ∉ blockContinuations)
    (h : l.continues = true) : ∃ c, l = .opening (.loop c) := by
  have hfirst : ∀ n ts, l.javaTokens = .name n :: ts → blockContinuations.elem n.text = false := by
    intro n ts htokens
    have hmem : n ∈ l.names := List.mem_filterMap.mpr ⟨.name n, by rw [htokens]; exact List.mem_cons_self, rfl⟩
    simpa using hnames n hmem
  match l with
  | opening (.loop c) => exact ⟨c, rfl⟩
  | simple (.declare _ _ _) | simple (.assign _ _) | simple (.increment _) | simple (.construct _ _ _ _) =>
    rw [continues, javaTokens] at h
    exact absurd h (by simp only [List.cons_append, hfirst _ _ rfl]; exact Bool.false_ne_true)
  | simple (.print _) | simple (.giveBack _) | opening (.branch _) | opening (.count _ _ _ _ _)
  | openingDo =>
    simp only [continues, javaTokens] at h
    exact absurd h (by decide)
  | closing | closingElse | closingWhile _ | joint _ _ => exact absurd h Bool.false_ne_true

theorem Statements.steady_layout {p : Statements Spacing} (hnames : ∀ n ∈ p.names, n.text ∉ blockContinuations) :
    p.layout.Steady := by
  intro y hy hcontinues
  have hline : y.1 ∈ p.lines := by
    rw [← p.map_fst_layout]
    exact List.mem_map_of_mem hy
  exact y.1.eq_loop_of_continues (fun n hn => hnames n (List.mem_flatMap.mpr ⟨y.1, hline, hn⟩)) hcontinues

theorem mainDecl_text (settings : Settings) {p : Statements Spacing}
    (hnames : ∀ n ∈ p.names, n.text ∉ blockContinuations) :
    mainDecl settings p.text = mainText (p.layout.merged.flatMap fun y => y.1.go) := by
  have h := mainDecl_layout settings ⟨[], fun _ h => absurd h List.not_mem_nil⟩
    (Layout.apart_merged (Statements.steady_layout hnames))
  rw [Layout.text_merged, Statements.text_layout] at h
  exact h

/-- **What is left of a layout**: two layouts of the same statements have the same translation exactly
when their seams agree. -/
theorem mainDecl_text_eq_iff (settings : Settings) {p q : Statements Spacing} (h : p.erase = q.erase)
    (hnames : ∀ n ∈ p.names, n.text ∉ blockContinuations) :
    mainDecl settings p.text = mainDecl settings q.text ↔ p.layout.seams = q.layout.seams := by
  have hlines : p.lines = q.lines := by rw [← p.lines_erase, h, q.lines_erase]
  have hlayouts : p.layout.map Prod.fst = q.layout.map Prod.fst := by
    rw [p.map_fst_layout, q.map_fst_layout, hlines]
  have hnames' : ∀ n ∈ q.names, n.text ∉ blockContinuations := by
    rw [Statements.names, ← hlines]
    exact hnames
  have hnewline : ∀ x : Layout, ∀ g ∈ x.flatMap (fun y => y.1.go), '\n' ∉ g := by
    intro x g hg
    obtain ⟨y, -, hgo⟩ := List.mem_flatMap.mp hg
    exact y.1.newline_notMem_go g hgo
  rw [mainDecl_text settings hnames, mainDecl_text settings hnames', mainText_inj (hnewline _) (hnewline _)]
  exact Layout.flatMap_go_merged_eq_iff hlayouts

/-- A branch and a loop behind it, with a spacing between the two. -/
def branchThenLoop (w : Spacing) : Statements Spacing :=
  let x : Name := ⟨"x", by decide, by decide, by decide⟩
  let space : Spacing := ⟨" ", by decide⟩
  let body : Statements Spacing := .simple (.increment x) space .done
  .block (.branch ⟨x, .less, x⟩) space body w (.block (.loop ⟨x, .less, x⟩) space body space .done)

theorem mainDecl_branchThenLoop_apart :
    (branchThenLoop .newline).erase = (branchThenLoop ⟨"\t\n\n ", by decide⟩).erase ∧
      (∀ n ∈ (branchThenLoop .newline).names, n.text ∉ blockContinuations) ∧
      mainDecl {} (branchThenLoop .newline).text = mainDecl {} (branchThenLoop ⟨"\t\n\n ", by decide⟩).text := by
  have herase : (branchThenLoop .newline).erase = (branchThenLoop ⟨"\t\n\n ", by decide⟩).erase := rfl
  have hnames : ∀ n ∈ (branchThenLoop .newline).names, n.text ∉ blockContinuations := by decide
  have hseams : (branchThenLoop .newline).layout.seams =
      (branchThenLoop ⟨"\t\n\n ", by decide⟩).layout.seams := rfl
  exact ⟨herase, hnames, (mainDecl_text_eq_iff {} herase hnames).mpr hseams⟩

/-- A loop on the line where a branch ends is not put on a line of its own. -/
theorem mainDecl_branchThenLoop_ne :
    (branchThenLoop ⟨" ", by decide⟩).erase = (branchThenLoop .newline).erase ∧
      mainDecl {} (branchThenLoop ⟨" ", by decide⟩).text ≠ mainDecl {} (branchThenLoop .newline).text := by
  refine ⟨rfl, ?_⟩
  rw [mainDecl_text {} (by decide), mainDecl_text {} (by decide)]
  decide

end GoDraft
