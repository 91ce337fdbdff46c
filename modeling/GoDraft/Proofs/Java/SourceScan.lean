import GoDraft.Proofs.Java.MemberHead
import GoDraft.Proofs.Scan.Walks

/-!
# GoDraft — scanning a class

In the text of a class every literal and every block is closed in its member, so the scan comes to every
member in code at depth one. A body is one level deeper from its first character to its last.

* `Statements.walksInside` — a scan does not leave the block that statements are in;
* `Member.walks` — a scan goes through a member and comes back to the depth before it;
* `MemberPlace` — a place at which a member can begin, behind the header of a class and behind a member.
-/

namespace GoDraft

/-! ## Text without quotes and braces -/

namespace IsQuiet

variable {s t : Text}

theorem append (hs : IsQuiet s) (ht : IsQuiet t) : IsQuiet (s ++ t) := List.forall_mem_append.mpr ⟨hs, ht⟩

theorem of_nameChars (h : ∀ c ∈ t, c ∈ nameChars) : IsQuiet t := by
  have hall : (nameChars.all fun c => (Marked.mark c : Mark).isQuiet) = true := by decide
  exact fun c hc => List.all_eq_true.mp hall c (h c hc)

theorem name (n : Name) : IsQuiet n.text := of_nameChars n.plain

theorem spacing (w : Spacing) : IsQuiet w.text := by
  have hall : (" \t\n".toList.all fun c => (Marked.mark c : Mark).isQuiet) = true := by decide
  exact fun c hc => List.all_eq_true.mp hall c (w.isSpacing c hc)

theorem join {ts : List Text} (hsep : IsQuiet s) (h : ∀ t ∈ ts, IsQuiet t) : IsQuiet (Text.join s ts) :=
  Text.forall_mem_join hsep h

theorem condition (c : Condition) : IsQuiet c.text := by
  have hsign : IsQuiet c.comparison.text := by cases c.comparison <;> decide
  exact ((((name c.left).append (by decide)).append hsign).append (by decide)).append (name c.right)

theorem simple (s : Simple) : IsQuiet s.java := by
  cases s with
  | declare type n value =>
    exact (((((name type).append (by decide)).append (name n)).append (by decide)).append
      (name value)).append (by decide)
  | assign n value => exact (((name n).append (by decide)).append (name value)).append (by decide)
  | increment n => exact (name n).append (by decide)
  | print value => exact (append (by decide) (name value)).append (by decide)
  | giveBack value => exact (append (by decide) (name value)).append (by decide)
  | construct type n made arguments =>
    have harguments : IsQuiet (argumentText arguments) := by
      apply join (by decide)
      intro t ht
      obtain ⟨a, -, rfl⟩ := List.mem_map.mp ht
      exact name a
    exact (((((((name type).append (by decide)).append (name n)).append (by decide)).append
      (name made)).append (by decide)).append harguments).append (by decide)

end IsQuiet

/-- A header is quiet up to its brace. -/
theorem Header.exists_quiet (h : Header) : ∃ front, h.java = front ++ ['{'] ∧ IsQuiet front := by
  cases h with
  | branch c =>
    exact ⟨_, (List.append_assoc _ ") ".toList ['{']).symm,
      (IsQuiet.append (by decide) (.condition c)).append (by decide)⟩
  | loop c =>
    exact ⟨_, (List.append_assoc _ ") ".toList ['{']).symm,
      (IsQuiet.append (by decide) (.condition c)).append (by decide)⟩
  | count type n start c next =>
    refine ⟨_, (List.append_assoc _ "++) ".toList ['{']).symm, ?_⟩
    exact (((((((((IsQuiet.append (by decide) (.name type)).append (by decide)).append (.name n)).append
      (by decide)).append (.name start)).append (by decide)).append (.condition c)).append (by decide)).append
      (.name next)).append (by decide)

/-! ## Statements -/

/-- A scan does not leave the block that statements are in. -/
theorem Statements.walksInside (p : Statements Spacing) (d : Nat) : WalksInside d p.text := by
  have hbraces : ∀ (front : Text) {inner : Text} {body : Statements Spacing} {d : Nat}, IsQuiet front → IsQuiet inner →
      WalksInside (d + 1) body.text → WalksInside d (front ++ '{' :: ((inner ++ body.text) ++ ['}'])) := by
    intro front inner body d hfront hinner hbody
    exact (walksInside_quiet hfront d).append ((walksInside_quiet hinner (d + 1)).append hbody).block
  have hspacing (w : Spacing) (d : Nat) : WalksInside d w.text := walksInside_quiet (.spacing w) d
  -- on the statements, with the block one deeper for the statements inside
  induction p generalizing d with
  | done => exact walksInside_quiet (fun _ hc => absurd hc List.not_mem_nil) d
  | simple s w next ih =>
    exact (walksInside_quiet (.simple s) d).append ((hspacing w d).append (ih d))
  | block h inner body w next ihbody ih =>
    obtain ⟨front, hjava, hfront⟩ := h.exists_quiet
    have hblock := hbraces front hfront (.spacing inner) (ihbody (d + 1))
    have hall := hblock.append ((hspacing w d).append (ih d))
    rw [text, hjava]
    simpa using hall
  | branches c inner body inner' other w next ihbody ihother ih =>
    obtain ⟨front, hjava, hfront⟩ := (Header.branch c).exists_quiet
    have hblock := hbraces front hfront (.spacing inner) (ihbody (d + 1))
    have hother := hbraces " else " (by decide) (.spacing inner') (ihother (d + 1))
    have hall := (hblock.append hother).append ((hspacing w d).append (ih d))
    rw [text, hjava]
    simpa using hall
  | repeated inner body c w next ihbody ih =>
    have hblock := hbraces "do " (by decide) (.spacing inner) (ihbody (d + 1))
    have hend : IsQuiet (" while (" ++ c.text ++ ");") :=
      (IsQuiet.append (by decide) (.condition c)).append (by decide)
    have hall := (hblock.append (walksInside_quiet hend d)).append ((hspacing w d).append (ih d))
    rw [text]
    simpa using hall

/-! ## Members -/

theorem IsQuiet.lead (a : Access) : IsQuiet a.lead := by cases a <;> decide

/-- A scan goes through a value. -/
theorem Initial.walks (i : Initial) (d : Nat) : ∃ xs, Walks d i.text d xs := by
  cases i with
  | word w => exact ⟨_, walks_quiet (.name w.toName) d⟩
  | literal content plain =>
    refine ⟨_, walks_literal (fun c hc => staysLiteral_of_not_mem fun hmem => plain c hc ?_) d⟩
    have hsub : ∀ d ∈ "\"\\\n".toList, d ∈ literalStops := by decide
    exact hsub c hmem

theorem FieldSource.walks (f : FieldSource) (d : Nat) : ∃ xs, Walks d f.text d xs := by
  have hhead : IsQuiet (f.access.lead ++ (f.type.text ++ ' ' :: f.name.text)) :=
    (IsQuiet.lead f.access).append ((IsQuiet.name f.type.toName).append
      (IsQuiet.append (s := [' ']) (by decide) (.name f.name.toName)))
  have hend : Walks d [';'] d _ := walks_quiet (by decide) d
  rw [text, fieldText]
  cases f.initial? with
  | none =>
    have hall := (walks_quiet hhead d).append hend
    simp only [List.append_assoc, List.cons_append] at hall
    exact ⟨_, hall⟩
  | some i =>
    obtain ⟨xs, hxs⟩ := i.walks d
    have hsign : Walks d " = " d _ := walks_quiet (by decide) d
    have hall := (walks_quiet hhead d).append ((hsign.append hxs).append hend)
    simp only [List.append_assoc, List.cons_append] at hall
    exact ⟨_, hall⟩

namespace MethodSource

variable (m : MethodSource)

/-- A header is quiet up to its brace. -/
theorem exists_quiet_header : ∃ front, m.header = front ++ ['{'] ∧ IsQuiet front := by
  have hparams : IsQuiet m.paramsText := by
    apply IsQuiet.join (by decide)
    intro t ht
    obtain ⟨p, -, rfl⟩ := List.mem_map.mp ht
    exact (IsQuiet.name p.1.toName).append (IsQuiet.append (s := [' ']) (by decide) (.name p.2.toName))
  refine ⟨m.access.lead ++ (m.returnType.text ++ ' ' :: (m.name.text ++ '(' :: (m.paramsText ++ ") "))),
    by simp [header], ?_⟩
  exact (IsQuiet.lead m.access).append ((IsQuiet.name m.returnType.toName).append
    (IsQuiet.append (s := [' ']) (by decide) ((IsQuiet.name m.name.toName).append
      (IsQuiet.append (s := ['(']) (by decide) (hparams.append (by decide))))))

theorem walksInside_block (d : Nat) : WalksInside d m.block :=
  (walksInside_quiet (.spacing m.inner) d).append (m.body.walksInside d)

theorem walks_header (d : Nat) : ∃ xs, Walks d m.header (d + 1) xs := by
  obtain ⟨front, hheader, hfront⟩ := m.exists_quiet_header
  rw [hheader]
  exact ⟨_, (walks_quiet hfront d).append (walks_openBrace d)⟩

theorem walks (d : Nat) : ∃ xs, Walks d m.text d xs := by
  obtain ⟨xs, hxs⟩ := m.walks_header d
  obtain ⟨ys, hys, -⟩ := m.walksInside_block (d + 1)
  exact ⟨_, hxs.append (hys.append (walks_closeBrace d))⟩

end MethodSource

/-- A scan goes through a member and comes back to the depth before it. -/
theorem Member.walks (m : Member) (d : Nat) : ∃ xs, Walks d m.text d xs := by
  cases m with
  | field f => exact f.walks d
  | method m => exact m.walks d

theorem ClassSource.walks_header (c : ClassSource) : ∃ xs, Walks 0 c.header 1 xs := by
  have hfront : IsQuiet ("public class " ++ (c.name.text ++ " ")) :=
    IsQuiet.append (by decide) ((IsQuiet.name c.name.toName).append (by decide))
  have hheader : c.header = ("public class " ++ (c.name.text ++ " ")) ++ ['{'] := by
    rw [List.append_assoc, List.append_assoc]
    rfl
  rw [hheader]
  exact ⟨_, (walks_quiet hfront 0).append (walks_openBrace 0)⟩

/-! ## Places of members -/

/-- Behind a text a member of a class can begin: the scan is in code at depth one, and no word goes on. -/
structure MemberPlace (u : Text) : Prop where
  walks : ∃ xs, Walks 0 u 1 xs
  edge : (lastOf none u).any isWordChar = false

theorem MemberPlace.append {u s : Text} (hu : MemberPlace u) (hs : ∃ xs, Walks 1 s 1 xs)
    (hlast : ∀ c, s.getLast? = some c → isWordChar c = false) : MemberPlace (u ++ s) := by
  obtain ⟨xs, hxs⟩ := hu.walks
  obtain ⟨ys, hys⟩ := hs
  exact ⟨⟨_, hxs.append hys⟩, by rw [lastOf_append]; exact Pattern.any_lastOf hlast hu.edge⟩

theorem Spacing.isWordChar_of_mem (w : Spacing) : ∀ c ∈ w.text, isWordChar c = false := by
  have hall : ∀ c ∈ " \t\n".toList, isWordChar c = false := by decide
  exact fun c hc => hall c (w.isSpacing c hc)

theorem MemberPlace.spacing {u : Text} (hu : MemberPlace u) (w : Spacing) : MemberPlace (u ++ w.text) :=
  hu.append ⟨_, walks_quiet (.spacing w) 1⟩ fun c hc => w.isWordChar_of_mem c (List.mem_of_getLast? hc)

theorem MemberPlace.member {u : Text} (hu : MemberPlace u) (m : Member) : MemberPlace (u ++ m.text) := by
  apply hu.append (m.walks 1)
  obtain ⟨front, d, htext, hd⟩ : ∃ front d, m.text = front ++ [d] ∧ isWordChar d = false := by
    cases m with
    | field f =>
      exact ⟨f.access.lead ++ (f.type.text ++ ' ' :: (f.name.text ++ valueText (f.initial?.map Initial.text))), ';',
        by simp [Member.text, FieldSource.text, fieldText], by decide⟩
    | method m => exact ⟨m.header ++ m.block, '}', by simp [Member.text, MethodSource.text], by decide⟩
  intro c hc
  rw [htext, List.getLast?_concat] at hc
  exact Option.some.inj hc ▸ hd

theorem ClassSource.memberPlace (c : ClassSource) : MemberPlace (c.header ++ c.inner.text) := by
  have hedge : (lastOf none c.header).any isWordChar = false := by
    rw [lastOf, c.getLast?_header]
    rfl
  exact MemberPlace.spacing ⟨c.walks_header, hedge⟩ c.inner

theorem MemberPlace.isMemberAt {u w t : Text} (hu : MemberPlace u) (a : Access) (hw : IsTypeWord w) :
    isMemberAt (u ++ (a.lead ++ (w ++ t))) u.size = true := by
  obtain ⟨xs, hxs⟩ := hu.walks
  obtain ⟨c, v, hv, hc⟩ := a.exists_lead_append hw t
  rw [hv]
  have hquiet : IsQuiet [c] := .of_nameChars fun d hd => by rwa [List.mem_singleton.mp hd]
  exact hxs.isMemberAt_of_isQuiet (hquiet c List.mem_cons_self)

end GoDraft
