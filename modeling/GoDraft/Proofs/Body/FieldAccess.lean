import GoDraft.Proofs.Body.Balance
import GoDraft.Proofs.Body.Stages

/-!
# GoDraft — fields of the receiver, all at once

There is one rule for each field, and each sees what the rules before it have made. Nearly always that is no
different from reading the text once and replacing every field where it stands. The only text that a rule can make
for another is the receiver itself, behind a `this.` that stood before the `this.` it has replaced.

* `throughReceiver` — a text with every field reached through `this` replaced, in one reading;
* `hasChain` — a `this.` directly before another one through which a field is reached;
* `throughReceiver_throughReceiver` — two readings are one, where the first makes nothing for the second;
* `applyAll_fieldAccessRule` — the rules one after another are one reading.
-/

namespace GoDraft

open Text

/-- What stands before a field that is reached through the object itself. -/
def thisDot : Text := "this."

/-- The field, of those with some names, that is reached at a place behind the character `b`: `this.` and the name,
both whole words. -/
def fieldAt? (names : List Text) (b : Option Char) (t : Text) : Option Text :=
  let name := (t.drop thisDot.length).takeWhile isWordChar
  if b.any isWordChar = false ∧ thisDot <+: t ∧ name ∈ names then some name else none

/-- The text from a place behind the character `b` on, with every field that is reached through `this` replaced by a
field of the receiver, after the next `skip` characters, which are left out. -/
def throughReceiverFrom (names : List Text) (exported : Bool) (b : Option Char) (skip : Nat) : Text → Text
  | [] => []
  | c :: rest =>
    let go (n : Nat) := throughReceiverFrom names exported (some c) n rest
    match skip with
    | n + 1 => go n
    | 0 =>
      match fieldAt? names b (c :: rest) with
      | none => c :: go 0
      | some name => receiver ++ '.' :: fieldName exported name ++ go (name.length + 4)

/-- A text with every field that is reached through `this` replaced by a field of the receiver. -/
def throughReceiver (names : List Text) (exported : Bool) (t : Text) : Text :=
  throughReceiverFrom names exported none 0 t

/-- Whether, from a place behind the character `b` on, a `this.` stands directly before another one through which a
field is reached. -/
def hasChain (names : List Text) (b : Option Char) : Text → Bool
  | [] => false
  | c :: rest =>
    !b.any isWordChar && thisDot.isPrefixOf (c :: rest) &&
        (fieldAt? names (some '.') (rest.drop 4)).isSome ||
      hasChain names (some c) rest

/-- A name of ASCII letters, digits and underscores that can be told from `this`. -/
structure IsFieldName (name : Text) : Prop where
  nonempty : name ≠ []
  plain : IsPlainName name
  ne_this : name ≠ "this".toList

instance (name : Text) : Decidable (IsFieldName name) :=
  decidable_of_iff (name ≠ [] ∧ IsPlainName name ∧ name ≠ "this".toList)
    ⟨fun ⟨h₁, h₂, h₃⟩ => ⟨h₁, h₂, h₃⟩, fun ⟨h₁, h₂, h₃⟩ => ⟨h₁, h₂, h₃⟩⟩

/-! ## Names -/

theorem IsPlainName.isWord {name : Text} (h : IsPlainName name) : IsWord name := by
  intro c hc
  rw [isWordChar, if_pos (toNat_lt_of_isReferenceChar (h c hc))]
  exact h c hc

theorem length_fieldName (exported : Bool) {name : Text} (h : IsPlainName name) :
    (fieldName exported name).length = name.length := by
  unfold fieldName
  split
  · cases name with
    | nil => rfl
    | cons c rest =>
      show (uppercase c ++ rest).length = _
      rw [uppercase, if_pos (toNat_lt_of_isReferenceChar (h c List.mem_cons_self))]
      simp
  · rfl

/-- The Go name of a field is such a name again. -/
theorem IsFieldName.fieldName {name : Text} (h : IsFieldName name) (exported : Bool) :
    IsFieldName (fieldName exported name) where
  nonempty := by
    intro hnil
    have hlength := length_fieldName exported h.plain
    rw [hnil] at hlength
    exact h.nonempty (List.length_eq_zero_iff.mp hlength.symm)
  plain := isPlainName_fieldName h.plain
  ne_this := by
    -- the small letters at the end of the Go name are those at the end of the name
    intro hthis
    have hend : "this".toList <:+ GoDraft.fieldName exported name := hthis ▸ List.suffix_rfl
    have hsuffix : "this".toList <:+ name := suffix_of_suffix_fieldName (by decide) hend
    have hlength := length_fieldName exported h.plain
    rw [hthis] at hlength
    exact h.ne_this (hsuffix.eq_of_length hlength).symm

/-- The receiver is such a name. -/
theorem isFieldName_receiver : IsFieldName receiver := by decide

/-! ## Where a field is reached -/

section Reached

variable {names : List Text} {b b' : Option Char} {c : Char} {name s t : Text}

theorem length_lt_thisDot (name s : Text) : s.length < (thisDot ++ (name ++ s)).length := by
  simp only [thisDot, List.length_append]
  have hpos : 0 < "this.".toList.length := by decide
  omega

theorem fieldAt?_names_congr {names' : List Text} (h : ∀ n, n ∈ names' ↔ n ∈ names) (b : Option Char) (t : Text) :
    fieldAt? names' b t = fieldAt? names b t := by
  rw [fieldAt?, fieldAt?]
  simp only [h]

/-- A field is reached where `this.` and its name stand, behind no word and before none. -/
theorem fieldAt?_eq_some_iff : fieldAt? names b t = some name ↔ b.any isWordChar = false ∧ name ∈ names ∧
    IsWord name ∧ ∃ s, t = thisDot ++ (name ++ s) ∧ stopsAt isWordChar s = true := by
  unfold fieldAt?
  dsimp only
  constructor
  · intro h
    split at h
    · rename_i hplace
      obtain ⟨hb, ⟨rest, rfl⟩, hmem⟩ := hplace
      rw [List.drop_left, Option.some.injEq] at h
      rw [List.drop_left] at hmem
      subst h
      refine ⟨hb, hmem, fun c hc => List.mem_takeWhile_imp hc, rest.dropWhile isWordChar, ?_, ?_⟩
      · rw [List.takeWhile_append_dropWhile]
      · exact stopsAt_dropWhile isWordChar rest
    · cases h
  · rintro ⟨hb, hmem, hword, s, rfl, hs⟩
    rw [List.drop_left, takeWhile_append_of_stopsAt hword hs, if_pos ⟨hb, List.prefix_append _ _, hmem⟩]

theorem fieldAt?_of_isWordChar (hb : b.any isWordChar = true) (t : Text) : fieldAt? names b t = none := by
  rw [Option.eq_none_iff_forall_ne_some]
  intro name hname
  rw [(fieldAt?_eq_some_iff.mp hname).1] at hb
  cases hb

theorem fieldAt?_nil : fieldAt? names b [] = none := by
  rw [Option.eq_none_iff_forall_ne_some]
  intro name hname
  obtain ⟨-, -, -, s, hs, -⟩ := fieldAt?_eq_some_iff.mp hname
  cases hs

theorem fieldAt?_cons_of_ne (hc : c ≠ 't') (t : Text) : fieldAt? names b (c :: t) = none := by
  rw [Option.eq_none_iff_forall_ne_some]
  intro name hname
  obtain ⟨-, -, -, s, hs, -⟩ := fieldAt?_eq_some_iff.mp hname
  exact hc (List.cons.inj hs).1

theorem fieldAt?_congr (h : b.any isWordChar = b'.any isWordChar) (t : Text) :
    fieldAt? names b t = fieldAt? names b' t := by
  rw [fieldAt?, fieldAt?, h]

theorem eq_this_of_isPrefix (hname : IsWord name) (hs : stopsAt isWordChar s = true) (h : thisDot <+: name ++ s) :
    name = "this".toList := by
  obtain ⟨r, hr⟩ := h
  calc name = (name ++ s).takeWhile isWordChar := (takeWhile_append_of_stopsAt hname hs).symm
    _ = ("this".toList ++ '.' :: r).takeWhile isWordChar := by rw [← hr]; rfl
    _ = "this".toList := takeWhile_append_of_stopsAt (by decide) rfl

/-- No field is reached through a name that is not `this`. -/
theorem fieldAt?_of_isFieldName (hname : IsFieldName name) (hs : stopsAt isWordChar s = true) :
    fieldAt? names b (name ++ s) = none := by
  rw [Option.eq_none_iff_forall_ne_some]
  intro name' hname'
  obtain ⟨-, -, -, r, hr, -⟩ := fieldAt?_eq_some_iff.mp hname'
  exact hname.ne_this (eq_this_of_isPrefix hname.plain.isWord hs ⟨_, hr.symm⟩)

theorem any_lastOf_of_isWord (hname : IsWord name) (hne : name ≠ []) (b : Option Char) :
    (lastOf b name).any isWordChar = true := by
  obtain ⟨c, hc, hlast⟩ := lastOf_mem b hne
  rw [hlast]
  exact hname c hc

/-- A field and its Go name both end a word. -/
theorem any_lastOf_fieldName {exported : Bool} (hname : IsFieldName name) :
    (lastOf b (fieldName exported name)).any isWordChar = (lastOf b name).any isWordChar := by
  have hfield := hname.fieldName exported
  rw [any_lastOf_of_isWord hfield.plain.isWord hfield.nonempty, any_lastOf_of_isWord hname.plain.isWord hname.nonempty]

end Reached

/-! ## One reading -/

section Reading

variable {names : List Text} {exported : Bool} {b b' : Option Char} {c : Char} {name s t : Text}

theorem throughReceiverFrom_skip (t : Text) (b : Option Char) (n : Nat) :
    throughReceiverFrom names exported b n t =
      throughReceiverFrom names exported (lastOf b (t.take n)) 0 (t.drop n) := by
  induction t generalizing b n with
  | nil => simp [throughReceiverFrom]
  | cons c t ih =>
    cases n with
    | zero => simp
    | succ n =>
      rw [List.take_succ_cons, List.drop_succ_cons, lastOf_cons, ← ih]
      simp only [throughReceiverFrom]

theorem throughReceiverFrom_none (h : fieldAt? names b (c :: t) = none) :
    throughReceiverFrom names exported b 0 (c :: t) = c :: throughReceiverFrom names exported (some c) 0 t := by
  simp only [throughReceiverFrom, h]

theorem throughReceiverFrom_some (h : fieldAt? names b (thisDot ++ (name ++ s)) = some name) :
    throughReceiverFrom names exported b 0 (thisDot ++ (name ++ s)) =
      receiver ++ '.' :: fieldName exported name ++
        throughReceiverFrom names exported (lastOf (some '.') name) 0 s := by
  have hcons : thisDot ++ (name ++ s) = 't' :: ("his.".toList ++ name ++ s) := by simp [thisDot]
  have hlength : name.length + 4 = ("his.".toList ++ name).length := by simp
  have hlast : lastOf (some 't') ("his.".toList ++ name) = lastOf (some '.') name := by rw [lastOf_append]; rfl
  rw [hcons] at h ⊢
  simp only [throughReceiverFrom, h]
  rw [throughReceiverFrom_skip, hlength, List.take_left, List.drop_left, hlast]

theorem throughReceiverFrom_names_congr {names' : List Text} (h : ∀ n, n ∈ names' ↔ n ∈ names) (t : Text)
    (b : Option Char) (skip : Nat) :
    throughReceiverFrom names' exported b skip t = throughReceiverFrom names exported b skip t := by
  induction t generalizing b skip with
  | nil => rfl
  | cons c t ih => simp only [throughReceiverFrom, fieldAt?_names_congr h, ih]

theorem throughReceiverFrom_congr (h : b.any isWordChar = b'.any isWordChar) (t : Text) :
    throughReceiverFrom names exported b 0 t = throughReceiverFrom names exported b' 0 t := by
  cases t with
  | nil => rfl
  | cons c t => simp only [throughReceiverFrom, fieldAt?_congr h]

theorem throughReceiverFrom_nil (b : Option Char) (t : Text) : throughReceiverFrom [] exported b 0 t = t := by
  induction t generalizing b with
  | nil => rfl
  | cons c t ih =>
    have hnone : fieldAt? [] b (c :: t) = none := if_neg fun h => List.not_mem_nil h.2.2
    rw [throughReceiverFrom_none hnone, ih]

/-- A reading of a text, by what it does first: nothing is left, a field is replaced, or a character is kept. -/
theorem throughReceiverFrom_cases (names : List Text) (exported : Bool) (b : Option Char) (t : Text) :
    t = [] ∨
    (∃ name s, fieldAt? names b t = some name ∧ t = thisDot ++ (name ++ s) ∧ stopsAt isWordChar s = true ∧
      throughReceiverFrom names exported b 0 t = receiver ++ '.' :: fieldName exported name ++
        throughReceiverFrom names exported (lastOf (some '.') name) 0 s) ∨
    ∃ c rest, fieldAt? names b t = none ∧ t = c :: rest ∧
      throughReceiverFrom names exported b 0 t = c :: throughReceiverFrom names exported (some c) 0 rest := by
  cases t with
  | nil => exact .inl rfl
  | cons c rest =>
    cases hfield : fieldAt? names b (c :: rest) with
    | none => exact .inr (.inr ⟨c, rest, rfl, rfl, throughReceiverFrom_none hfield⟩)
    | some name =>
      obtain ⟨-, -, -, s, hs, hstops⟩ := fieldAt?_eq_some_iff.mp hfield
      refine .inr (.inl ⟨name, s, rfl, hs, hstops, ?_⟩)
      rw [hs] at hfield ⊢
      exact throughReceiverFrom_some hfield

/-- Neither text begins with a word, or both do. -/
theorem stopsAt_throughReceiverFrom (names : List Text) (exported : Bool) (b : Option Char) (t : Text) :
    stopsAt isWordChar (throughReceiverFrom names exported b 0 t) = stopsAt isWordChar t := by
  rcases throughReceiverFrom_cases names exported b t with rfl | ⟨name, s, -, rfl, -, heq⟩ | ⟨c, rest, -, rfl, heq⟩
  · rfl
  · rw [heq]
    rfl
  · rw [heq]
    rfl

theorem throughReceiverFrom_isWord (hname : IsWord name) (hb : b.any isWordChar = true) (s : Text) :
    throughReceiverFrom names exported b 0 (name ++ s) =
      name ++ throughReceiverFrom names exported (lastOf b name) 0 s := by
  induction name generalizing b with
  | nil => rw [lastOf_nil]; rfl
  | cons c name ih =>
    have hc : (some c).any isWordChar = true := hname c List.mem_cons_self
    rw [List.cons_append, throughReceiverFrom_none (fieldAt?_of_isWordChar hb _),
      ih (fun d hd => hname d (List.mem_cons_of_mem c hd)) hc, lastOf_cons]
    rfl

/-- A name that is not `this` is kept. -/
theorem throughReceiverFrom_isFieldName (hname : IsFieldName name) (hs : stopsAt isWordChar s = true) :
    throughReceiverFrom names exported b 0 (name ++ s) =
      name ++ throughReceiverFrom names exported (lastOf b name) 0 s := by
  have hnone : fieldAt? names b (name ++ s) = none := fieldAt?_of_isFieldName hname hs
  have hword := hname.plain.isWord
  obtain ⟨c, rest, rfl⟩ := List.exists_cons_of_ne_nil hname.nonempty
  have hc : (some c).any isWordChar = true := hword c List.mem_cons_self
  rw [List.cons_append] at hnone ⊢
  rw [throughReceiverFrom_none hnone,
    throughReceiverFrom_isWord (fun d hd => hword d (List.mem_cons_of_mem c hd)) hc, lastOf_cons]
  rfl

/-- What a reading has written for a field is kept by the next. -/
theorem throughReceiverFrom_receiver (hname : IsFieldName name) (hs : stopsAt isWordChar s = true) :
    throughReceiverFrom names exported b 0 (receiver ++ '.' :: fieldName exported name ++ s) =
      receiver ++ '.' :: fieldName exported name ++
        throughReceiverFrom names exported (lastOf (some '.') name) 0 s := by
  have hcons : receiver ++ '.' :: fieldName exported name ++ s = 's' :: '.' :: (fieldName exported name ++ s) := rfl
  rw [hcons, throughReceiverFrom_none (fieldAt?_cons_of_ne (by decide) _),
    throughReceiverFrom_none (fieldAt?_cons_of_ne (by decide) _),
    throughReceiverFrom_isFieldName (hname.fieldName exported) hs, throughReceiverFrom_congr (any_lastOf_fieldName hname)]
  rfl

theorem throughReceiverFrom_thisDot (h : fieldAt? names b (thisDot ++ t) = none) :
    throughReceiverFrom names exported b 0 (thisDot ++ t) =
      thisDot ++ throughReceiverFrom names exported (some '.') 0 t := by
  have hthis : thisDot ++ t = 't' :: ("his".toList ++ '.' :: t) := rfl
  have hword : IsWord "his".toList := by
    unfold IsWord
    decide
  rw [hthis] at h ⊢
  rw [throughReceiverFrom_none h, throughReceiverFrom_isWord hword (by decide),
    throughReceiverFrom_none (fieldAt?_cons_of_ne (by decide) _)]
  rfl

end Reading

/-! ## Chains -/

section Chains

variable {names : List Text} {exported : Bool} {b b' : Option Char} {c : Char} {name s t : Text}

theorem hasChain_cons_of_isWordChar (hb : b.any isWordChar = true) (c : Char) (t : Text) :
    hasChain names b (c :: t) = hasChain names (some c) t := by
  rw [hasChain, hb]
  rfl

theorem hasChain_cons_of_ne (hc : c ≠ 't') (t : Text) : hasChain names b (c :: t) = hasChain names (some c) t := by
  have hno : thisDot.isPrefixOf (c :: t) = false := by
    show ('t' == c && _) = false
    rw [beq_false_of_ne hc.symm]
    rfl
  rw [hasChain, hno, Bool.and_false]
  rfl

theorem hasChain_thisDot (t : Text) : hasChain names b (thisDot ++ t) =
    (!b.any isWordChar && (fieldAt? names (some '.') t).isSome || hasChain names (some '.') t) := by
  have hcons : thisDot ++ t = 't' :: 'h' :: 'i' :: 's' :: '.' :: t := rfl
  have hprefix : thisDot.isPrefixOf ('t' :: 'h' :: 'i' :: 's' :: '.' :: t) = true := by
    rw [List.isPrefixOf_iff_prefix]
    exact ⟨t, rfl⟩
  rw [hcons, hasChain, hprefix, Bool.and_true, hasChain_cons_of_isWordChar (by decide),
    hasChain_cons_of_isWordChar (by decide), hasChain_cons_of_isWordChar (by decide),
    hasChain_cons_of_isWordChar (by decide)]
  rfl

theorem hasChain_cons_iff {t : Text} : hasChain names b (c :: t) = true ↔
    (b.any isWordChar = false ∧ ∃ rest, c :: t = thisDot ++ rest ∧ (fieldAt? names (some '.') rest).isSome = true) ∨
      hasChain names (some c) t = true := by
  rw [hasChain, Bool.or_eq_true, Bool.and_eq_true, Bool.and_eq_true, Bool.not_eq_true', List.isPrefixOf_iff_prefix]
  apply or_congr_left
  constructor
  · rintro ⟨⟨hb, rest, hrest⟩, hfield⟩
    obtain ⟨-, rfl⟩ := List.cons.inj hrest
    exact ⟨hb, rest, hrest.symm, hfield⟩
  · rintro ⟨hb, rest, hrest, hfield⟩
    refine ⟨⟨hb, rest, hrest.symm⟩, ?_⟩
    obtain ⟨-, rfl⟩ := List.cons.inj hrest
    exact hfield

theorem hasChain_isWord (hname : IsWord name) (hb : b.any isWordChar = true) (s : Text) :
    hasChain names b (name ++ s) = hasChain names (lastOf b name) s := by
  induction name generalizing b with
  | nil => rw [lastOf_nil]; rfl
  | cons c name ih =>
    have hc : (some c).any isWordChar = true := hname c List.mem_cons_self
    rw [List.cons_append, hasChain_cons_of_isWordChar hb,
      ih (fun d hd => hname d (List.mem_cons_of_mem c hd)) hc, lastOf_cons]

theorem hasChain_names_congr {names' : List Text} (h : ∀ n, n ∈ names' ↔ n ∈ names) (t : Text) (b : Option Char) :
    hasChain names' b t = hasChain names b t := by
  induction t generalizing b with
  | nil => rfl
  | cons c t ih => simp only [hasChain, fieldAt?_names_congr h, ih]

theorem hasChain_congr (h : b.any isWordChar = b'.any isWordChar) (t : Text) :
    hasChain names b t = hasChain names b' t := by
  cases t with
  | nil => rfl
  | cons c t => rw [hasChain, hasChain, h]

/-- A name that is not `this` is in no chain. -/
theorem hasChain_isFieldName (hname : IsFieldName name) (hs : stopsAt isWordChar s = true) :
    hasChain names b (name ++ s) = hasChain names (lastOf b name) s := by
  have hno : thisDot.isPrefixOf (name ++ s) = false := by
    rw [Bool.eq_false_iff, ne_eq, List.isPrefixOf_iff_prefix]
    exact fun h => hname.ne_this (eq_this_of_isPrefix hname.plain.isWord hs h)
  have hword := hname.plain.isWord
  obtain ⟨c, rest, rfl⟩ := List.exists_cons_of_ne_nil hname.nonempty
  have hc : (some c).any isWordChar = true := hword c List.mem_cons_self
  rw [List.cons_append] at hno ⊢
  rw [hasChain, hno, Bool.and_false, Bool.false_and, Bool.false_or,
    hasChain_isWord (fun d hd => hword d (List.mem_cons_of_mem c hd)) hc, lastOf_cons]

theorem hasChain_some (hname : IsFieldName name) (hs : stopsAt isWordChar s = true) :
    hasChain names b (thisDot ++ (name ++ s)) = hasChain names (lastOf (some '.') name) s := by
  rw [hasChain_thisDot, fieldAt?_of_isFieldName hname hs, Option.isSome_none, Bool.and_false, Bool.false_or,
    hasChain_isFieldName hname hs]

theorem hasChain_receiver (hname : IsFieldName name) (hs : stopsAt isWordChar s = true) :
    hasChain names b (receiver ++ '.' :: fieldName exported name ++ s) = hasChain names (lastOf (some '.') name) s := by
  have hcons : receiver ++ '.' :: fieldName exported name ++ s = 's' :: '.' :: (fieldName exported name ++ s) := rfl
  rw [hcons, hasChain_cons_of_ne (by decide), hasChain_cons_of_ne (by decide), hasChain_isFieldName (hname.fieldName exported) hs,
    hasChain_congr (any_lastOf_fieldName hname)]

end Chains

/-! ## Two readings -/

section Twice

variable {names others : List Text} {exported : Bool} {b : Option Char} {name t : Text}

theorem fieldAt?_append_left (h : fieldAt? names b t = some name) : fieldAt? (names ++ others) b t = some name := by
  rw [fieldAt?_eq_some_iff] at h ⊢
  exact ⟨h.1, List.mem_append_left others h.2.1, h.2.2⟩

theorem fieldAt?_append_right (h : fieldAt? others b t = some name) : fieldAt? (names ++ others) b t = some name := by
  rw [fieldAt?_eq_some_iff] at h ⊢
  exact ⟨h.1, List.mem_append_right names h.2.1, h.2.2⟩

theorem fieldAt?_of_append (h : fieldAt? (names ++ others) b t = some name) (hnone : fieldAt? names b t = none) :
    fieldAt? others b t = some name := by
  rw [fieldAt?_eq_some_iff] at h ⊢
  obtain ⟨hb, hmem, hplace⟩ := h
  refine ⟨hb, (List.mem_append.mp hmem).resolve_left fun hname => ?_, hplace⟩
  rw [fieldAt?_eq_some_iff.mpr ⟨hb, hname, hplace⟩] at hnone
  cases hnone

/-- A field that the first reading passes over is there for the second. -/
theorem fieldAt?_throughReceiverFrom (hname : IsFieldName name) (hnone : fieldAt? names b t = none)
    (h : fieldAt? others b t = some name) : fieldAt? others b (throughReceiverFrom names exported b 0 t) = some name := by
  obtain ⟨hb, hmem, hword, s, rfl, hs⟩ := fieldAt?_eq_some_iff.mp h
  rw [throughReceiverFrom_thisDot hnone, throughReceiverFrom_isFieldName hname hs]
  refine fieldAt?_eq_some_iff.mpr ⟨hb, hmem, hword, _, rfl, ?_⟩
  rw [stopsAt_throughReceiverFrom, hs]

/-- Where a reading keeps a character, what it has made begins as the text does. -/
theorem exists_of_throughReceiverFrom_eq_cons {c : Char} {s : Text} (hnone : fieldAt? names b t = none)
    (h : throughReceiverFrom names exported b 0 t = c :: s) :
    ∃ rest, t = c :: rest ∧ s = throughReceiverFrom names exported (some c) 0 rest := by
  cases t with
  | nil => cases h
  | cons d rest =>
    rw [throughReceiverFrom_none hnone, List.cons.injEq] at h
    obtain ⟨rfl, rfl⟩ := h
    exact ⟨rest, rfl, rfl⟩

theorem exists_of_throughReceiverFrom_eq_append {w s : Text} (hw : IsWord w) (hb : b.any isWordChar = true)
    (h : throughReceiverFrom names exported b 0 t = w ++ s) :
    ∃ rest, t = w ++ rest ∧ s = throughReceiverFrom names exported (lastOf b w) 0 rest := by
  induction w generalizing b t with
  | nil => exact ⟨t, rfl, by rw [lastOf_nil]; exact h.symm⟩
  | cons c w ih =>
    obtain ⟨rest, rfl, hrest⟩ := exists_of_throughReceiverFrom_eq_cons (fieldAt?_of_isWordChar hb t) h
    have hc : (some c).any isWordChar = true := hw c List.mem_cons_self
    obtain ⟨rest, rfl, rfl⟩ := ih (fun d hd => hw d (List.mem_cons_of_mem c hd)) hc hrest.symm
    exact ⟨rest, rfl, by rw [lastOf_cons]⟩

theorem exists_of_throughReceiverFrom_eq_thisDot {s : Text} (hnone : fieldAt? names b t = none)
    (h : throughReceiverFrom names exported b 0 t = thisDot ++ s) :
    ∃ rest, t = thisDot ++ rest ∧ s = throughReceiverFrom names exported (some '.') 0 rest := by
  have hword : IsWord "his".toList := by
    unfold IsWord
    decide
  have hcons : throughReceiverFrom names exported b 0 t = 't' :: ("his".toList ++ '.' :: s) := h
  obtain ⟨rest₁, rfl, h₁⟩ := exists_of_throughReceiverFrom_eq_cons hnone hcons
  obtain ⟨rest₂, rfl, h₂⟩ := exists_of_throughReceiverFrom_eq_append hword (by decide) h₁.symm
  obtain ⟨rest, rfl, h₃⟩ := exists_of_throughReceiverFrom_eq_cons (fieldAt?_of_isWordChar (by decide) _) h₂.symm
  exact ⟨rest, rfl, h₃⟩

/-- A field that is there for the second reading stood there before, or it is the receiver, which the first reading has
written behind a `this.`. -/
theorem fieldAt?_of_throughReceiverFrom (hnone : fieldAt? names b t = none)
    (h : fieldAt? others b (throughReceiverFrom names exported b 0 t) = some name) :
    fieldAt? others b t = some name ∨
      name = receiver ∧ ∃ rest, t = thisDot ++ rest ∧ (fieldAt? names (some '.') rest).isSome = true := by
  obtain ⟨hb, hmem, hword, s, heq, hs⟩ := fieldAt?_eq_some_iff.mp h
  obtain ⟨rest, rfl, hrest⟩ := exists_of_throughReceiverFrom_eq_thisDot hnone heq
  cases hfield : fieldAt? names (some '.') rest with
  | some field =>
    -- the text goes on with the receiver and a dot, so the receiver is all of the name
    obtain ⟨-, hfieldmem, -, s', rfl, hs'⟩ := fieldAt?_eq_some_iff.mp hfield
    rw [throughReceiverFrom_some hfield] at hrest
    refine .inr ⟨?_, _, rfl, by rw [hfield]; rfl⟩
    calc name = (name ++ s).takeWhile isWordChar := (takeWhile_append_of_stopsAt hword hs).symm
      _ = (receiver ++ '.' :: (fieldName exported field ++
            throughReceiverFrom names exported (lastOf (some '.') field) 0 s')).takeWhile isWordChar := by
          rw [hrest]; simp
      _ = receiver := takeWhile_append_of_stopsAt isFieldName_receiver.plain.isWord rfl
  | none =>
    left
    cases name with
    | nil =>
      refine fieldAt?_eq_some_iff.mpr ⟨hb, hmem, hword, rest, rfl, ?_⟩
      rw [← stopsAt_throughReceiverFrom names exported (some '.') rest, ← hrest]
      exact hs
    | cons c name =>
      obtain ⟨rest', rfl, hrest'⟩ := exists_of_throughReceiverFrom_eq_cons hfield hrest.symm
      have hc : (some c).any isWordChar = true := hword c List.mem_cons_self
      obtain ⟨rest, rfl, rfl⟩ := exists_of_throughReceiverFrom_eq_append
        (fun d hd => hword d (List.mem_cons_of_mem c hd)) hc hrest'.symm
      rw [stopsAt_throughReceiverFrom] at hs
      exact fieldAt?_eq_some_iff.mpr ⟨hb, hmem, hword, rest, rfl, hs⟩

/-- **Two readings are one**, where the first makes nothing for the second. -/
theorem throughReceiverFrom_throughReceiverFrom (hnames : ∀ n ∈ names, IsFieldName n)
    (hothers : ∀ n ∈ others, IsFieldName n) (b : Option Char) (t : Text)
    (hchain : receiver ∈ others → hasChain (names ++ others) b t = false) :
    throughReceiverFrom others exported b 0 (throughReceiverFrom names exported b 0 t) =
      throughReceiverFrom (names ++ others) exported b 0 t := by
  induction hlength : t.length using Nat.strong_induction_on generalizing b t with
  | _ n ih =>
    subst hlength
    rcases throughReceiverFrom_cases names exported b t with rfl | ⟨name, s, hfield, rfl, hs, heq⟩ |
        ⟨c, rest, hnone, rfl, heq⟩
    · rfl
    · have hname := hnames name (fieldAt?_eq_some_iff.mp hfield).2.1
      have hchain' : receiver ∈ others → hasChain (names ++ others) (lastOf (some '.') name) s = false := fun h =>
        hasChain_some hname hs ▸ hchain h
      rw [heq, throughReceiverFrom_receiver hname (by rw [stopsAt_throughReceiverFrom, hs]),
        ih s.length (length_lt_thisDot name s) _ _ hchain' rfl, throughReceiverFrom_some (fieldAt?_append_left hfield)]
    · have hchain' : receiver ∈ others → hasChain (names ++ others) (some c) rest = false := by
        intro h
        have hall := hchain h
        rw [hasChain, Bool.or_eq_false_iff] at hall
        exact hall.2
      cases hsecond : fieldAt? others b (throughReceiverFrom names exported b 0 (c :: rest)) with
      | some name =>
        have hmem := (fieldAt?_eq_some_iff.mp hsecond).2.1
        -- the receiver behind a `this.` would have been made by the first reading, in a chain
        have hfield : fieldAt? others b (c :: rest) = some name := by
          refine (fieldAt?_of_throughReceiverFrom hnone hsecond).resolve_right ?_
          rintro ⟨rfl, rest', hrest', hfirst⟩
          obtain ⟨field, hfield⟩ := Option.isSome_iff_exists.mp hfirst
          have hall := hchain hmem
          rw [hrest', hasChain_thisDot, fieldAt?_append_left hfield, (fieldAt?_eq_some_iff.mp hsecond).1] at hall
          cases hall
        obtain ⟨-, -, -, s, hs, hstops⟩ := fieldAt?_eq_some_iff.mp hfield
        have hname := hothers name hmem
        rw [hs] at hnone hfield hsecond hchain ⊢
        have hlater : receiver ∈ others → hasChain (names ++ others) (lastOf (some '.') name) s = false := fun h =>
          hasChain_some hname hstops ▸ hchain h
        have hshorter : s.length < (c :: rest).length := hs ▸ length_lt_thisDot name s
        rw [throughReceiverFrom_thisDot hnone, throughReceiverFrom_isFieldName hname hstops] at hsecond ⊢
        rw [throughReceiverFrom_some hsecond, throughReceiverFrom_some (fieldAt?_append_right hfield),
          ih s.length hshorter _ _ hlater rfl]
      | none =>
        have hboth : fieldAt? (names ++ others) b (c :: rest) = none := by
          rw [Option.eq_none_iff_forall_ne_some]
          intro name hname
          have hfield := fieldAt?_of_append hname hnone
          rw [fieldAt?_throughReceiverFrom (hothers name (fieldAt?_eq_some_iff.mp hfield).2.1) hnone hfield] at hsecond
          cases hsecond
        rw [heq] at hsecond ⊢
        rw [throughReceiverFrom_none hsecond, throughReceiverFrom_none hboth,
          ih rest.length (Nat.lt_succ_self _) _ _ hchain' rfl]

/-- A reading makes no chain for other names, where there is none for all. -/
theorem hasChain_throughReceiverFrom (hnames : ∀ n ∈ names, IsFieldName n) (b : Option Char) (t : Text)
    (h : hasChain (names ++ others) b t = false) :
    hasChain others b (throughReceiverFrom names exported b 0 t) = false := by
  induction hlength : t.length using Nat.strong_induction_on generalizing b t with
  | _ n ih =>
    subst hlength
    -- on the length: a field that is found is passed in one step
    rcases throughReceiverFrom_cases names exported b t with rfl | ⟨name, s, hfield, rfl, hs, heq⟩ |
        ⟨c, rest, hnone, rfl, heq⟩
    · rfl
    · have hname := hnames name (fieldAt?_eq_some_iff.mp hfield).2.1
      rw [hasChain_some hname hs] at h
      rw [heq, hasChain_receiver hname (by rw [stopsAt_throughReceiverFrom, hs])]
      exact ih s.length (length_lt_thisDot name s) _ _ h rfl
    · rw [Bool.eq_false_iff, ne_eq, heq, hasChain_cons_iff]
      rintro (⟨hb, made, hmade, hfield⟩ | hlater)
      · -- both the `this.` and what stands behind it come from the text
        obtain ⟨behind, hbehind, rfl⟩ := exists_of_throughReceiverFrom_eq_thisDot hnone (heq.trans hmade)
        rw [hbehind, hasChain_thisDot, hb, Bool.not_false, Bool.true_and, Bool.or_eq_false_iff,
          Option.isSome_eq_false_iff, Option.isNone_iff_eq_none] at h
        obtain ⟨field, hfield⟩ := Option.isSome_iff_exists.mp hfield
        have hfirst : fieldAt? names (some '.') behind = none := by
          rw [Option.eq_none_iff_forall_ne_some]
          intro field' hfield'
          rw [fieldAt?_append_left hfield'] at h
          cases h.1
        rcases fieldAt?_of_throughReceiverFrom hfirst hfield with hsame | ⟨-, rest', rfl, hchain⟩
        · rw [fieldAt?_append_right hsame] at h
          cases h.1
        · obtain ⟨field', hfield'⟩ := Option.isSome_iff_exists.mp hchain
          rw [hasChain_thisDot, fieldAt?_append_left hfield'] at h
          cases h.2
      · have hrest : hasChain (names ++ others) (some c) rest = false := by
          rw [hasChain, Bool.or_eq_false_iff] at h
          exact h.2
        rw [ih rest.length (Nat.lt_succ_self _) (some c) rest hrest rfl] at hlater
        cases hlater

-- A field becomes shorter, so a text on which a reading has nothing to do is told by its length.
theorem length_throughReceiverFrom_le (hnames : ∀ n ∈ names, IsFieldName n) (b : Option Char) (t : Text) :
    (throughReceiverFrom names exported b 0 t).length ≤ t.length ∧
      ((fieldAt? names b t).isSome = true → (throughReceiverFrom names exported b 0 t).length < t.length) := by
  induction hlength : t.length using Nat.strong_induction_on generalizing b t with
  | _ n ih =>
    subst hlength
    rcases throughReceiverFrom_cases names exported b t with rfl | ⟨name, s, hfield, rfl, hs, heq⟩ |
        ⟨c, rest, hnone, rfl, heq⟩
    · refine ⟨Nat.le_refl _, fun h => ?_⟩
      rw [fieldAt?_nil] at h
      cases h
    · have hname := hnames name (fieldAt?_eq_some_iff.mp hfield).2.1
      have hrest := (ih s.length (length_lt_thisDot name s) (lastOf (some '.') name) s rfl).1
      have hshort : (throughReceiverFrom names exported b 0 (thisDot ++ (name ++ s))).length + 3 ≤
          (thisDot ++ (name ++ s)).length := by
        rw [heq]
        simp only [List.length_append, List.length_cons, length_fieldName exported hname.plain]
        have hreceiver : receiver.length = 1 := rfl
        have hthis : thisDot.length = 5 := rfl
        omega
      exact ⟨by omega, fun _ => by omega⟩
    · have hrest := (ih rest.length (Nat.lt_succ_self _) (some c) rest rfl).1
      rw [heq, hnone]
      exact ⟨Nat.succ_le_succ hrest, fun h => by cases h⟩

/-- In a chain, the receiver is reached once a first reading is done. -/
theorem length_throughReceiverFrom_lt (exported : Bool) (hnames : ∀ n ∈ names, IsFieldName n)
    (hothers : ∀ n ∈ others, IsFieldName n) (hreceiver : receiver ∈ others) (b : Option Char) (t : Text)
    (h : hasChain names b t = true) :
    (throughReceiverFrom others exported b 0 (throughReceiverFrom names exported b 0 t)).length <
      (throughReceiverFrom names exported b 0 t).length := by
  induction hlength : t.length using Nat.strong_induction_on generalizing b t with
  | _ n ih =>
    subst hlength
    rcases throughReceiverFrom_cases names exported b t with rfl | ⟨name, s, hfield, rfl, hs, heq⟩ |
        ⟨c, rest, hnone, rfl, heq⟩
    · cases h
    · have hname := hnames name (fieldAt?_eq_some_iff.mp hfield).2.1
      rw [hasChain_some hname hs] at h
      have hrest := ih s.length (length_lt_thisDot name s) _ _ h rfl
      rw [heq, throughReceiverFrom_receiver hname (by rw [stopsAt_throughReceiverFrom, hs])]
      simp only [List.length_append]
      omega
    · cases hsecond : fieldAt? others b (throughReceiverFrom names exported b 0 (c :: rest)) with
      | some field => exact (length_throughReceiverFrom_le hothers b _).2 (by rw [hsecond]; rfl)
      | none =>
        rcases hasChain_cons_iff.mp h with ⟨hb, behind, hbehind, hfield⟩ | hlater
        · -- behind the `this.` stands the receiver, which the second reading finds
          obtain ⟨field, hfield⟩ := Option.isSome_iff_exists.mp hfield
          obtain ⟨-, -, -, s, rfl, -⟩ := fieldAt?_eq_some_iff.mp hfield
          rw [hbehind] at hnone hsecond
          rw [throughReceiverFrom_thisDot hnone, throughReceiverFrom_some hfield, List.append_assoc,
            fieldAt?_eq_some_iff.mpr ⟨hb, hreceiver, isFieldName_receiver.plain.isWord, _, rfl, rfl⟩] at hsecond
          cases hsecond
        · have hrest := ih rest.length (Nat.lt_succ_self _) (some c) rest hlater rfl
          rw [heq] at hsecond ⊢
          rw [throughReceiverFrom_none hsecond]
          exact Nat.succ_lt_succ hrest

end Twice

/-! ## Rules -/

section Rules

variable {exported : Bool} {b : Option Char} {offset : Nat} {name s t : Text} {m : Match}

theorem views_fieldAccessRule (hname : IsFieldName name) (exported : Bool) (b : Option Char) (s : Text) :
    (fieldAccessRule receiver exported name).pattern.views ⟨b, thisDot ++ (name ++ s), []⟩ =
      if b.any isWordChar = false ∧ stopsAt isWordChar s = true then [⟨lastOf (some '.') name, s, []⟩] else [] := by
  have hlast := any_lastOf_of_isWord hname.plain.isWord hname.nonempty (some '.')
  have hpattern : (fieldAccessRule receiver exported name).pattern.views ⟨b, thisDot ++ (name ++ s), []⟩ =
      (Pattern.wordEdge ++ (Pattern.text thisDot ++ (Pattern.text name ++ Pattern.wordEdge))).views
        ⟨b, thisDot ++ (name ++ s), []⟩ := by
    show (((Pattern.wordEdge ++ Pattern.text thisDot) ++ Pattern.text name) ++ Pattern.wordEdge).views _ = _
    rw [Pattern.views_assoc, Pattern.views_assoc]
  have hstart : View.isWordEdge ⟨b, thisDot ++ (name ++ s), []⟩ = !b.any isWordChar := by
    show (b.any isWordChar != true) = _
    cases b.any isWordChar <;> rfl
  have hstop : View.isWordEdge ⟨lastOf (some '.') name, s, []⟩ = stopsAt isWordChar s := by
    rw [View.isWordEdge, hlast, stopsAt]
    cases s.head?.any isWordChar <;> rfl
  rw [hpattern, Pattern.views_seq, Pattern.views, hstart]
  cases hb : b.any isWordChar with
  | true => rfl
  | false =>
    show List.flatMap _ [_] = _
    rw [List.flatMap_singleton, Pattern.views_text_seq, Pattern.views_text_seq]
    show Pattern.views .wordEdge ⟨lastOf (some '.') name, s, []⟩ = _
    rw [Pattern.views, hstop]
    cases stopsAt isWordChar s <;> rfl

/-- The pattern of a field matches where the field is reached. -/
theorem exists_matchAt?_of_fieldAt? (hname : IsFieldName name) (h : fieldAt? [name] b t = some name)
    (exported : Bool) (offset : Nat) :
    ∃ m, (fieldAccessRule receiver exported name).pattern.matchAt? ⟨b, offset, t⟩ = some m ∧
      m.span.length = name.length + 5 := by
  obtain ⟨hb, -, -, s, rfl, hs⟩ := fieldAt?_eq_some_iff.mp h
  have hviews := views_fieldAccessRule hname exported b s
  rw [if_pos ⟨hb, hs⟩, ← List.append_assoc] at hviews
  obtain ⟨m, hm, his⟩ := Pattern.matchAt?_of_views offset (congrArg List.head? hviews) rfl
  rw [List.append_assoc] at hm
  refine ⟨m, hm, ?_⟩
  rw [his.length, List.length_append, Nat.add_comm]
  rfl

theorem matchAt?_eq_none_of_fieldAt? (hname : IsFieldName name) (h : fieldAt? [name] b t = none) (offset : Nat) :
    (fieldAccessRule receiver exported name).pattern.matchAt? ⟨b, offset, t⟩ = none := by
  rw [Option.eq_none_iff_forall_ne_some]
  intro m hm
  obtain ⟨hb, htext⟩ := of_matchAt?_fieldAccessRule hm
  obtain ⟨-, hrest, -⟩ := Pattern.fits_of_matchAt? hm
  have ht : t = thisDot ++ (name ++ m.span.stop.rest) := by
    rw [← List.append_assoc]
    exact htext ▸ hrest
  subst ht
  have hsome : (fieldAccessRule receiver exported name).pattern.matchAt?
      ⟨b, offset, thisDot ++ (name ++ m.span.stop.rest)⟩ ≠ none := by
    rw [hm]
    exact Option.some_ne_none m
  rw [ne_eq, Pattern.matchAt?_eq_none_iff, views_fieldAccessRule hname] at hsome
  by_cases hplace : b.any isWordChar = false ∧ stopsAt isWordChar m.span.stop.rest = true
  · rw [fieldAt?_eq_some_iff.mpr ⟨hb, List.mem_singleton_self name, hname.plain.isWord, _, rfl, hplace.2⟩] at h
    cases h
  · exact hsome (if_neg hplace)

/-- The rule of a field is one reading. -/
theorem replaceFrom_fieldAccessRule (hname : IsFieldName name) (t : Text) (b : Option Char) (offset skip : Nat) :
    (fieldAccessRule receiver exported name).pattern.replaceFrom
        (fieldAccessRule receiver exported name).template.fill b offset skip t =
      throughReceiverFrom [name] exported b skip t := by
  induction t generalizing b offset skip with
  | nil => rfl
  | cons c t ih =>
    cases skip with
    | succ n =>
      rw [Pattern.replaceFrom_skip, ih]
      simp only [throughReceiverFrom]
    | zero =>
      cases hfield : fieldAt? [name] b (c :: t) with
      | none =>
        rw [Pattern.replaceFrom_none (matchAt?_eq_none_of_fieldAt? hname hfield offset), ih,
          throughReceiverFrom_none hfield]
      | some field =>
        obtain rfl : field = name := List.mem_singleton.mp (fieldAt?_eq_some_iff.mp hfield).2.1
        obtain ⟨m, hm, hlength⟩ := exists_matchAt?_of_fieldAt? hname hfield exported offset
        rw [Pattern.replaceFrom_some hm hlength, fill_fieldAccessRule hname.plain.isWord, ih]
        simp only [throughReceiverFrom, hfield]

theorem apply_fieldAccessRule (hname : IsFieldName name) (t : Text) :
    (fieldAccessRule receiver exported name).apply t = throughReceiver [name] exported t :=
  replaceFrom_fieldAccessRule hname t none 0 0

/-- **The rules one after another are one reading.** -/
theorem applyAll_fieldAccessRule {names : List Text} (hnames : ∀ n ∈ names, IsFieldName n) (t : Text)
    (hchain : receiver ∈ names → hasChain names none t = false) :
    Rule.applyAll (names.map (fieldAccessRule receiver exported)) t = throughReceiver names exported t := by
  induction names generalizing t with
  | nil => exact (throughReceiverFrom_nil none t).symm
  | cons name names ih =>
    rw [List.forall_mem_cons] at hnames
    have hfirst : ∀ n ∈ [name], IsFieldName n := List.forall_mem_singleton.mpr hnames.1
    have hall : receiver ∈ names → hasChain ([name] ++ names) none t = false := fun h =>
      hchain (List.mem_cons_of_mem name h)
    show Rule.applyAll (names.map (fieldAccessRule receiver exported))
      ((fieldAccessRule receiver exported name).apply t) = _
    rw [apply_fieldAccessRule hnames.1, throughReceiver, ih hnames.2 _ fun h => hasChain_throughReceiverFrom hfirst none t (hall h)]
    exact throughReceiverFrom_throughReceiverFrom hfirst hnames.2 none t hall

end Rules

end GoDraft
