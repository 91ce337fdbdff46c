import GoDraft.Proofs.Body.GoLines
import GoDraft.Proofs.Body.Layout

/-!
# GoDraft — translation of statements

What `main` becomes, for every list of statements of the language and every layout of it. Where each line
stands on its own, the result is the structural translation, line by line.

* `mainDecl_layout` — the translation of a layout;
* `mainDecl_indentedText` — statements on lines of their own.
-/

namespace GoDraft

/-! ## From layouts to rows -/

/-- A text is that of some rows with the given Go lines. -/
def HasRows (t : Text) (gs : List Text) : Prop :=
  ∃ rs, rs ≠ [] ∧ rowsText 0 rs = t ∧ rs.flatMap Row.go = gs

namespace HasRows

variable {t : Text} {gs : List Text} {w : Spacing}

theorem nil : HasRows [] [] := ⟨[⟨.empty, none, .empty⟩], List.cons_ne_nil _ _, rfl, rfl⟩

theorem cons {c : Char} (h : HasRows t gs) (hc : c ∈ " \t\n".toList) : HasRows (c :: t) gs := by
  obtain ⟨rs, hrs, rfl, rfl⟩ := h
  obtain ⟨⟨lead, line?, trail⟩, rest, rfl⟩ := List.exists_cons_of_ne_nil hrs
  by_cases hnewline : c = '\n'
  · subst hnewline
    exact ⟨⟨.empty, none, .empty⟩ :: ⟨lead, line?, trail⟩ :: rest, List.cons_ne_nil _ _, rfl, rfl⟩
  · have hgap : isGap c = true :=
      Spacing.isGap_of_ne (w := ⟨[c], by simpa using hc⟩) List.mem_cons_self hnewline
    have hlead : ∀ d ∈ c :: lead.text, isGap d = true := List.forall_mem_cons.mpr ⟨hgap, lead.isGap⟩
    exact ⟨⟨⟨c :: lead.text, hlead⟩, line?, trail⟩ :: rest, List.cons_ne_nil _ _, rfl, rfl⟩

theorem spacing (h : HasRows t gs) (w : Spacing) : HasRows (w.text ++ t) gs := by
  obtain ⟨u, hu⟩ := w
  show HasRows (u ++ t) gs
  induction u with
  | nil => exact h
  | cons c u ih =>
    rw [List.forall_mem_cons] at hu
    exact (ih hu.2).cons hu.1

theorem line (h : HasRows t gs) (l : Line) (hw : w.isFlat = false) :
    HasRows (l.java ++ (w.text ++ t)) (l.go ++ gs) := by
  obtain ⟨g, v, htext⟩ := Spacing.exists_of_not_isFlat hw
  obtain ⟨rs, hrs, hrows, hgo⟩ := h.spacing v
  obtain ⟨r, rest, rfl⟩ := List.exists_cons_of_ne_nil hrs
  refine ⟨⟨.empty, some l, g⟩ :: r :: rest, List.cons_ne_nil _ _, ?_, ?_⟩
  · rw [htext, List.append_assoc, List.cons_append, ← hrows, ← l.form_zero, ← List.append_assoc]
    rfl
  · rw [List.flatMap_cons, hgo]
    rfl

theorem lastLine (l : Line) (w : Spacing) : HasRows (l.java ++ (w.text ++ [])) (l.go ++ []) := by
  by_cases hw : w.isFlat = true
  · refine ⟨[⟨.empty, some l, ⟨w.text, Spacing.isGap_of_isFlat hw⟩⟩], List.cons_ne_nil _ _, ?_, rfl⟩
    rw [← l.form_zero, ← List.append_assoc]
    rfl
  · exact nil.line l (Bool.not_eq_true _ ▸ hw)

theorem layout : ∀ x : Layout, HasRows x.settled.text (x.flatMap fun y => y.1.go)
  | [] => nil
  | [(l, w)] => lastLine l w
  | (l, w) :: y :: x => by
    have hflat : (if w.isFlat then Spacing.newline else w).isFlat = false := by
      split
      · rfl
      · rename_i h
        exact Bool.not_eq_true _ ▸ h
    exact (layout (y :: x)).line l hflat

end HasRows

/-! ## The translation of a layout -/

/-- The function `main` with the given lines. -/
def mainText (lines : List Text) : Text :=
  ("func main() \x7b\n" : Text) ++ lines.flatMap (fun line => (indent ++ line ++ "\n" : Text)) ++ "\x7d"

/-- **The translation of a layout**: the Go lines of its lines. -/
theorem mainDecl_layout (settings : Settings) (w : Spacing) {x : Layout} (hx : x.Apart) :
    mainDecl settings (w.text ++ x.text) = mainText (x.flatMap fun y => y.1.go) := by
  obtain ⟨rs, hrs, hrows, hgo⟩ := (HasRows.layout x).spacing w
  have hbody : preparedBody settings (w.text ++ x.text) = w.text ++ x.text := by
    rw [preparedBody, stripComments_of_plain (Layout.leavesCode w x), ite_self]
  have hsplit : splitStatements (w.text ++ x.text) = rowsText 0 rs := by
    rw [splitStatements_layout w hx, hrows]
  have hrecast : ({ libraryCalls := settings.libraryCalls } : Recaster).recast (w.text ++ x.text) =
      stripTerminators (rowsText 9 rs) := Recaster.recast_of_rows rfl hsplit
  unfold mainDecl mainText
  rw [hbody, hrecast, bodyLines_stripTerminators hrs, hgo]

/-! ## Statements on lines of their own -/

/-- The lines of a list of statements. -/
def Statements.lines {γ : Type} : Statements γ → List Line
  | done => []
  | simple s _ next => .simple s :: next.lines
  | block h _ body _ next => .opening h :: (body.lines ++ .closing :: next.lines)
  | branches c _ body _ other _ next =>
    .opening (.branch c) :: (body.lines ++ .closingElse :: (other.lines ++ .closing :: next.lines))
  | repeated _ body c _ next => .openingDo :: (body.lines ++ .closingWhile c :: next.lines)

theorem Statements.map_java_lines {γ : Type} (p : Statements γ) : p.lines.map Line.java = p.java := by
  induction p with
  | done => rfl
  | simple s _ next ih =>
    rw [lines, List.map_cons, ih]
    rfl
  | block h _ body _ next ihbody ih =>
    rw [lines, List.map_cons, List.map_append, List.map_cons, ihbody, ih]
    rfl
  | branches c _ body _ other _ next ihbody ihother ih =>
    rw [lines, List.map_cons, List.map_append, List.map_cons, List.map_append, List.map_cons, ihbody,
      ihother, ih]
    rfl
  | repeated _ body c _ next ihbody ih =>
    rw [lines, List.map_cons, List.map_append, List.map_cons, ihbody, ih]
    rfl

theorem Statements.flatMap_go_lines {γ : Type} (p : Statements γ) : p.lines.flatMap Line.go = p.go := by
  induction p with
  | done => rfl
  | simple s _ next ih =>
    rw [lines, List.flatMap_cons, ih]
    rfl
  | block h _ body _ next ihbody ih =>
    rw [lines, List.flatMap_cons, List.flatMap_append, List.flatMap_cons, ihbody, ih]
    rfl
  | branches c _ body _ other _ next ihbody ihother ih =>
    rw [lines, List.flatMap_cons, List.flatMap_append, List.flatMap_cons, List.flatMap_append,
      List.flatMap_cons, ihbody, ihother, ih]
    rfl
  | repeated _ body c _ next ihbody ih =>
    rw [lines, List.flatMap_cons, List.flatMap_append, List.flatMap_cons, ihbody, ih]
    rfl

/-- Lines one below the other, each with its own indentation. -/
def indentedText (indents : Nat → Gap) (lines : List Text) : Text :=
  Text.join "\n" (lines.mapIdx fun i line => (indents i).text ++ line)

/-- The layout of lines one below the other, from the first one on. -/
def stacked (indents : Nat → Gap) (trail : Spacing) : List Line → Layout
  | [] => []
  | [l] => [(l, trail)]
  | l :: l' :: ls =>
    (l, ⟨'\n' :: (indents 1).text, List.forall_mem_cons.mpr
      ⟨by decide, fun c hc => mem_of_isGap ((indents 1).isGap c hc)⟩⟩)
      :: stacked (fun i => indents (i + 1)) trail (l' :: ls)

theorem text_stacked (trail : Spacing) : ∀ (ls : List Line) (l : Line) (indents : Nat → Gap),
    indentedText indents ((l :: ls).map Line.java) ++ trail.text =
      (indents 0).text ++ (stacked indents trail (l :: ls)).text
  | [], l, indents => by
    simp [indentedText, Text.join, stacked, Layout.text]
  | l' :: ls, l, indents => by
    have ih := text_stacked trail ls l' fun i => indents (i + 1)
    have htext : indentedText indents ((l :: l' :: ls).map Line.java) =
        (indents 0).text ++ (l.java ++ '\n' ::
          indentedText (fun i => indents (i + 1)) ((l' :: ls).map Line.java)) := by
      simp [indentedText, List.mapIdx_cons, Text.join]
    have hstacked : (stacked indents trail (l :: l' :: ls)).text = l.java ++ ('\n' :: (indents 1).text ++
        (stacked (fun i => indents (i + 1)) trail (l' :: ls)).text) := rfl
    rw [htext, hstacked, List.cons_append, List.append_assoc, List.append_assoc, List.cons_append, ih]

theorem apart_stacked (trail : Spacing) : ∀ (ls : List Line) (indents : Nat → Gap),
    (stacked indents trail ls).Apart
  | [], _ => trivial
  | [_], _ => trivial
  | l :: l' :: ls, indents => by
    have ih := apart_stacked trail (l' :: ls) fun i => indents (i + 1)
    obtain ⟨w', x, hx⟩ : ∃ w' x, stacked (fun i => indents (i + 1)) trail (l' :: ls) = (l', w') :: x := by
      cases ls <;> exact ⟨_, _, rfl⟩
    rw [hx] at ih
    rw [stacked, hx]
    exact ⟨fun _ hflat => absurd hflat (by simp [Spacing.isFlat]), ih⟩

theorem flatMap_go_stacked (trail : Spacing) : ∀ (ls : List Line) (indents : Nat → Gap),
    ((stacked indents trail ls).flatMap fun y => y.1.go) = ls.flatMap Line.go
  | [], _ => rfl
  | [_], _ => rfl
  | l :: l' :: ls, indents => by
    have ih := flatMap_go_stacked trail (l' :: ls) fun i => indents (i + 1)
    rw [stacked, List.flatMap_cons, ih]
    rfl

/-- **Statements on lines of their own**: whatever their number and nesting, the indentation of each line
and the settings, `main` has the lines of the structural translation. -/
theorem mainDecl_indentedText {γ : Type} (settings : Settings) (p : Statements γ) (indents : Nat → Gap)
    (trail : Spacing) :
    mainDecl settings (indentedText indents p.java ++ trail.text) = mainText p.go := by
  rw [← p.map_java_lines, ← p.flatMap_go_lines]
  cases p.lines with
  | nil =>
    have h := mainDecl_layout settings trail (x := []) trivial
    rw [Layout.text, List.append_nil] at h
    exact h
  | cons l ls =>
    have hlead : ∀ c ∈ (indents 0).text, c ∈ " \t\n".toList := fun c hc =>
      mem_of_isGap ((indents 0).isGap c hc)
    have h := mainDecl_layout settings ⟨(indents 0).text, hlead⟩ (apart_stacked trail (l :: ls) indents)
    rw [flatMap_go_stacked] at h
    rw [text_stacked]
    exact h

end GoDraft
