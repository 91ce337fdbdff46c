import GoDraft.Proofs.Pattern.Weight
import GoDraft.Proofs.Text.Calls

/-!
# GoDraft — rules that make no call

A rule takes its groups out of the match and writes them between fixed texts. It can make a call that was not
there in two ways: a fixed text has one, or ends one, and two texts that were apart come to stand side by side.
Both can be told from the rule, apart from what stands behind a match whose replacement ends in a group.

* `Notes.calls_le_of_fits` — the groups of a match have no more calls than the match;
* `Rule.makesNoCall`, `Rule.calls_fill_le` — a rule whose replacements have no new call, wherever they stand;
* `Pattern.calls_replaceAll_le` — from replacing one match to replacing all.
-/

namespace GoDraft

open Text

/-! ## The calls in the groups of a match -/

/-- The calls of a name in all notes. -/
def Notes.calls (name : Text) (g : Notes) : Nat := (g.map fun note => Text.calls name note.2).sum

/-- Whether a pattern has no group inside another group, a choice or a repetition. -/
def Pattern.isFlat : Pattern → Bool
  | .seq p q => p.isFlat && q.isFlat
  | .group _ p => p.isGroupFree
  | p => p.isGroupFree

namespace Notes

variable {name : Text}

theorem calls_append (g h : Notes) : Notes.calls name (g ++ h) = Notes.calls name g + Notes.calls name h := by
  simp [Notes.calls]

/-- The groups of a flat pattern stand side by side in what it reads. -/
theorem calls_le_of_fits : ∀ {p : Pattern}, p.isFlat = true → ∀ {s : Text} {g : Notes}, p.Fits s g →
    Notes.calls name g ≤ Text.calls name s
  | .seq p q, hp, _, _, ⟨s₁, g₁, s₂, g₂, h₁, h₂, hs, hg⟩ => by
    rw [Pattern.isFlat, Bool.and_eq_true] at hp
    have hle₁ := calls_le_of_fits hp.1 h₁
    have hle₂ := calls_le_of_fits hp.2 h₂
    have happend := calls_append_le name s₁ s₂
    rw [hs, hg, calls_append]
    omega
  | .group i p, hp, s, _, ⟨h, hfits, hg⟩ => by
    obtain rfl := Pattern.notes_eq_nil_of_isGroupFree hp s h hfits
    simp [hg, Notes.calls]
  | .empty, hp, s, g, h | .one _, hp, s, g, h | .wordEdge, hp, s, g, h | .lineStart, hp, s, g, h
  | .alt _ _, hp, s, g, h | .many _, hp, s, g, h | .few _, hp, s, g, h => by
    obtain rfl := Pattern.notes_eq_nil_of_isGroupFree hp s g h
    exact Nat.zero_le _

/-- Groups that are used once each have no more calls than all notes. -/
theorem sum_calls_text_le {uses : List Nat} (h : uses.Nodup) (g : Notes) :
    (uses.map fun i => Text.calls name (g.text i)).sum ≤ Notes.calls name g := by
  induction g generalizing uses with
  | nil => simp [Notes.text]
  | cons note g ih =>
    obtain ⟨j, t⟩ := note
    have hsame : ((uses.erase j).map fun i => Text.calls name (Notes.text ((j, t) :: g) i)) =
        (uses.erase j).map fun i => Text.calls name (Notes.text g i) := by
      apply List.map_congr_left
      intro i hi
      rw [text_cons_ne fun hij => h.not_mem_erase (hij ▸ hi)]
    have hrest := ih (h.erase j)
    have hcons : Notes.calls name ((j, t) :: g) = Text.calls name t + Notes.calls name g := by simp [Notes.calls]
    by_cases hj : j ∈ uses
    · have hsum := ((List.perm_cons_erase hj).map fun i => Text.calls name (Notes.text ((j, t) :: g) i)).sum_eq
      rw [List.map_cons, List.sum_cons, hsame, text_cons_self] at hsum
      omega
    · rw [List.erase_of_not_mem hj] at hsame hrest
      rw [hsame]
      omega

end Notes

/-! ## Templates -/

namespace Template

/-- Whether the pieces of a template make no call with what stands before them: each fixed text is fresh, and a
group that may hold a parenthesis stands behind a character that dotted names do not have. -/
def makesNoCall (name : Text) (p : Pattern) (isCut : Bool) : Template → Bool
  | [] => true
  | .text t :: tmpl => Text.isFresh name t && makesNoCall name p t.isCut tmpl
  | .group i :: tmpl => (isCut || p.groupAvoids i '(') && makesNoCall name p false tmpl

/-- Whether a template ends in a fixed text, with a character that dotted names do not have. -/
def isClosed : Template → Bool
  | [] => false
  | [.text t] => t.isCut
  | _ :: tmpl => isClosed tmpl

variable {name : Text} (hname : IsDotted name) {p : Pattern} {k : Cursor} {m : Match}

include hname in
/-- What such a template writes behind a text has the calls of the text and of its groups. -/
theorem calls_append_fill_le (hm : p.matchAt? k = some m) : ∀ {tmpl : Template} {isCut : Bool} {s : Text},
    tmpl.makesNoCall name p isCut = true → 0 ∉ tmpl.uses →
    (isCut = true → s.isCut = true) →
    calls name (s ++ tmpl.fill m) ≤ calls name s + (tmpl.uses.map fun i => calls name (m.group i)).sum
  | [], _, s, _, _, _ => by simp [fill, uses]
  | .text t :: tmpl, isCut, s, h, hzero, _ => by
    rw [makesNoCall, Bool.and_eq_true] at h
    have hfill : fill (.text t :: tmpl) m = t ++ fill tmpl m := rfl
    have hrest := calls_append_fill_le hm (s := s ++ t) h.2 hzero fun ht => isCut_append ht s
    rwa [calls_append_of_isFresh name h.1, List.append_assoc] at hrest
  | .group i :: tmpl, isCut, s, h, hzero, hcut => by
    rw [makesNoCall, Bool.and_eq_true, Bool.or_eq_true] at h
    rw [uses, List.mem_cons, not_or] at hzero
    have hfill : fill (.group i :: tmpl) m = m.group i ++ fill tmpl m := rfl
    have hrest := calls_append_fill_le hm (s := s ++ m.group i) h.2 hzero.2 fun hfalse => by cases hfalse
    -- the group adds its own calls, and none across the seam
    have hgroup : calls name (s ++ m.group i) ≤ calls name s + calls name (m.group i) := by
      rcases h.1 with hisCut | havoids
      · rw [calls_append_of_isCut hname (hcut hisCut)]
      · obtain ⟨j, rfl⟩ := Nat.exists_eq_succ_of_ne_zero (Ne.symm hzero.1)
        rw [calls_append_of_not_mem name (Pattern.not_mem_group_of_groupAvoids hm havoids)]
        exact Nat.le_add_right _ _
    rw [List.append_assoc, ← hfill] at hrest
    rw [uses, List.map_cons, List.sum_cons]
    omega

/-- What a closed template writes ends with a character that dotted names do not have. -/
theorem isCut_fill : ∀ {tmpl : Template}, tmpl.isClosed = true → (tmpl.fill m).isCut = true
  | [.text t], h => by
    have hfill : fill [.text t] m = t := List.append_nil t
    rwa [hfill]
  | piece :: piece' :: tmpl, h => by
    have hrest : isClosed (piece' :: tmpl) = true := by
      cases piece <;> exact h
    have hfill : fill (piece :: piece' :: tmpl) m = fill [piece] m ++ fill (piece' :: tmpl) m := by simp [fill]
    rw [hfill]
    exact isCut_append (isCut_fill hrest) _

end Template

/-! ## Rules -/

namespace Rule

/-- Whether a rule makes no call of a name: it uses each group at most once, and its template makes none. -/
def makesNoCall (name : Text) (r : Rule) : Bool :=
  r.pattern.isFlat && decide r.template.uses.Nodup && !r.template.uses.elem 0 &&
    r.template.makesNoCall name r.pattern false

/-- **What such a rule writes for a match has no new call**, whatever stands before it. Nothing must go on behind
it, unless its template is closed. -/
theorem calls_fill_le {name : Text} (hname : IsDotted name) {r : Rule} (h : r.makesNoCall name = true) {k : Cursor}
    {m : Match} (hm : r.pattern.matchAt? k = some m) (a : Text) {b : Text}
    (hb : r.template.isClosed = true ∨ b.goesOn = false) :
    calls name (a ++ (r.template.fill m ++ b)) ≤ calls name (a ++ (m.span.text ++ b)) := by
  simp only [makesNoCall, Bool.and_eq_true, decide_eq_true_eq, Bool.not_eq_true'] at h
  obtain ⟨⟨⟨hflat, hnodup⟩, hzero⟩, htemplate⟩ := h
  have hzero : 0 ∉ r.template.uses := by simpa using hzero
  obtain ⟨-, -, g, hfits, hgroup⟩ := Pattern.fits_of_matchAt? hm
  have hgroups : (r.template.uses.map fun i => calls name (m.group i)).sum ≤ calls name m.span.text := by
    have hsame : (r.template.uses.map fun i => calls name (m.group i)) =
        r.template.uses.map fun i => calls name (g.text i) := by
      apply List.map_congr_left
      intro i hi
      obtain ⟨j, rfl⟩ := Nat.exists_eq_succ_of_ne_zero fun hi₀ : i = 0 => hzero (hi₀ ▸ hi)
      rw [hgroup]
    rw [hsame]
    exact (Notes.sum_calls_text_le hnodup g).trans (Notes.calls_le_of_fits hflat hfits)
  have hfill : calls name (a ++ r.template.fill m) ≤ calls name a + calls name m.span.text :=
    (Template.calls_append_fill_le hname hm htemplate hzero fun hfalse => by cases hfalse).trans
      (Nat.add_le_add_left hgroups _)
  -- no call reaches over the end of what is written
  have hseam : calls name (a ++ r.template.fill m ++ b) = calls name (a ++ r.template.fill m) + calls name b := by
    rcases hb with hclosed | hb
    · exact calls_append_of_isCut hname (isCut_append (Template.isCut_fill hclosed) a) b
    · exact calls_append_of_goesOn hname hb _
  have hfront := calls_append_le name a m.span.text
  have hall := calls_append_le name (a ++ m.span.text) b
  rw [← List.append_assoc, hseam, ← List.append_assoc]
  omega

end Rule

/-! ## Replacing all matches -/

/-- **Replacing makes no call where replacing one match makes none.** What has been written may be known to stand in
some relation to the character before the place, and what stands behind the matches that are found may be known
to be of some kind. -/
theorem Pattern.calls_replaceAll_le {p : Pattern} {f : Match → Text} {name : Text} {Q : Option Char → Text → Prop}
    {R : Text → Prop} (hstart : Q none []) (hchar : ∀ b a c, Q b a → Q (some c) (a ++ [c]))
    (hmatch : ∀ b offset m s a, p.matchAt? ⟨b, offset, m.span.text ++ s⟩ = some m → Q b a →
      Q (lastOf b m.span.text) (a ++ f m) ∧
        (R s → calls name (a ++ (f m ++ s)) ≤ calls name (a ++ (m.span.text ++ s)))) {t : Text}
    (hfound : ∀ m ∈ p.findAll t, R m.span.stop.rest) : calls name (p.replaceAll f t) ≤ calls name t := by
  have hreplaced := replaceFrom_induct_behind (p := p) (f := f)
    (P := fun b ms s s' => (∀ m ∈ ms, R m.span.stop.rest) → ∀ a, Q b a → calls name (a ++ s') ≤ calls name (a ++ s))
    ?_ ?_ ?_ t none 0 0 hfound [] hstart
  · exact hreplaced
  · exact fun b _ a _ => Nat.le_refl _
  · intro b c ms s s' ih hms a ha
    have hrest := ih hms (a ++ [c]) (hchar b a c ha)
    rwa [List.append_assoc, List.append_assoc] at hrest
  · intro b offset m ms s s' hm ih hms a ha
    rw [List.forall_mem_cons] at hms
    obtain ⟨hafter, hcalls⟩ := hmatch b offset m s a hm ha
    have hrest := ih hms.2 (a ++ f m) hafter
    obtain ⟨-, hsplit, -⟩ := fits_of_matchAt? hm
    rw [List.append_cancel_left hsplit] at hcalls
    rw [List.append_assoc, List.append_assoc] at hrest
    exact hrest.trans (by rw [List.append_cancel_left hsplit]; exact hcalls hms.1)

end GoDraft
