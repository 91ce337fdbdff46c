import GoDraft.Proofs.Pattern.Local
import GoDraft.Proofs.Scan.Lines
import GoDraft.Proofs.Text.Boundary

/-!
# GoDraft — what is taken for a field

A match of the shape of a field is taken for a field by what stands before it and by the scan at its first
byte. So what is made of it can be told from the place where it begins, and two texts yield the same fields
where their matches correspond.

* `fieldOf` — the field that a match declares;
* `exists_fieldFinding` — what a match is taken for, by the text before it and the scan;
* `Yields` — the fields that some matches yield;
* `getLast?_of_fits_fieldPattern` — text of the shape of a field ends with a semicolon.
-/

namespace GoDraft

open Pattern

/-! ## One match -/

/-- The field that a match declares. -/
def fieldOf (m : Match) : Field where
  access := .ofWord (m.group? 1)
  typeName := m.group 2
  name := m.group 3
  default? := (m.group? 4).map Text.trim

theorem Match.Like.group {d : Nat} {m m' : Match} (h : m.Like d m') (index : Nat) :
    m'.group (index + 1) = m.group (index + 1) := by
  rw [Match.group, Match.group, h.group?]

theorem fieldOf_like {d : Nat} {m m' : Match} (h : m.Like d m') : fieldOf m' = fieldOf m := by
  rw [fieldOf, fieldOf, h.group? 0, h.group 1, h.group 2, h.group? 3]

/-- A match is a field when no `static` stands before it and a member can begin at it. -/
theorem exists_fieldFinding {source u t : Text} {m : Match} (hsource : source = u ++ t)
    (hstart : m.start = u.size) :
    ∃ x, fieldFinding source m = .ok x ∧
      x.field? = if !(lookback u).hasPart "static" && isMemberAt source u.size then some (fieldOf m)
        else none := by
  have hstatic : followsStatic source m.start = .ok ((lookback u).hasPart "static") := by
    rw [hsource, hstart, followsStatic_append]
  rw [fieldFinding, hstatic, hstart]
  cases (lookback u).hasPart "static" with
  | true => exact ⟨_, rfl, rfl⟩
  | false =>
    cases isMemberAt source u.size with
    | true => exact ⟨_, rfl, rfl⟩
    | false => exact ⟨_, rfl, rfl⟩

/-! ## Many matches -/

/-- The fields that some matches of a text yield. -/
def Yields (source : Text) (ms : List Match) (fs : List Field) : Prop :=
  ∃ xs, ms.mapM (fieldFinding source) = .ok xs ∧ xs.filterMap FieldFinding.field? = fs

namespace Yields

variable {source : Text} {m : Match} {ms ms' : List Match} {fs fs' : List Field}

theorem nil (source : Text) : Yields source [] [] := ⟨[], rfl, rfl⟩

theorem append (h : Yields source ms fs) (h' : Yields source ms' fs') :
    Yields source (ms ++ ms') (fs ++ fs') := by
  obtain ⟨xs, hxs, rfl⟩ := h
  obtain ⟨xs', hxs', rfl⟩ := h'
  refine ⟨xs ++ xs', ?_, List.filterMap_append⟩
  rw [List.mapM_append, hxs, hxs']
  rfl

theorem cons {x : FieldFinding} (hx : fieldFinding source m = .ok x) (h : Yields source ms fs) :
    Yields source (m :: ms) (x.field?.toList ++ fs) := by
  have hone : Yields source [m] x.field?.toList := by
    refine ⟨[x], ?_, ?_⟩
    · rw [List.mapM_cons, hx]
      rfl
    · cases hfield : x.field? with
      | none => rw [List.filterMap_cons_none hfield]; rfl
      | some f => rw [List.filterMap_cons_some hfield]; rfl
  exact hone.append h

/-- Matches that are no fields yield none. -/
theorem none_of_forall (h : ∀ m ∈ ms, ∃ x, fieldFinding source m = .ok x ∧ x.field? = none) :
    Yields source ms [] := by
  induction ms with
  | nil => exact nil source
  | cons m ms ih =>
    rw [List.forall_mem_cons] at h
    obtain ⟨⟨x, hx, hfield⟩, hms⟩ := h
    have hcons := cons hx (ih hms)
    rwa [hfield] at hcons

/-- Matches of two texts that are taken for the same yield the same. -/
theorem exists_of_like {source' : Text} {d : Nat} (hlike : List.Forall₂ (Match.Like d) ms ms')
    (h : ∀ m ∈ ms, ∀ m', m.Like d m' → ∃ x x', fieldFinding source m = .ok x ∧
      fieldFinding source' m' = .ok x' ∧ x'.field? = x.field?) :
    ∃ fs, Yields source ms fs ∧ Yields source' ms' fs := by
  induction hlike with
  | nil => exact ⟨[], nil source, nil source'⟩
  | cons hm _ ih =>
    rw [List.forall_mem_cons] at h
    obtain ⟨x, x', hx, hx', hfield⟩ := h.1 _ hm
    obtain ⟨fs, hfs, hfs'⟩ := ih h.2
    refine ⟨x.field?.toList ++ fs, cons hx hfs, ?_⟩
    rw [← hfield]
    exact cons hx' hfs'

theorem findFields_eq (h : Yields source (fieldPattern.findAll source) fs) :
    findFields source = .ok fs := by
  obtain ⟨xs, hxs, rfl⟩ := h
  rw [findFields, fieldFindings, hxs]
  rfl

end Yields

/-! ## The shape of a field -/

/-- Text of the shape of a field ends with a semicolon. -/
theorem getLast?_of_fits_fieldPattern {s : Text} {g : Notes} (h : fieldPattern.Fits s g) :
    s.getLast? = some ';' := by
  obtain ⟨s₁, _, s₂, _, -, hsemicolon, rfl, -⟩ := h
  obtain ⟨rfl, -⟩ := fits_text hsemicolon
  exact List.getLast?_concat

/-- Text of the shape of a field does not begin with a line feed. -/
theorem fieldPattern_rejects_newline : fieldPattern.Rejects '\n' :=
  rejects_of_canStart (by decide) (by decide)

end GoDraft
