import GoDraft.Java.MainBody
import GoDraft.Proofs.Java.BlockEnd
import GoDraft.Proofs.Pattern.Found
import GoDraft.Proofs.Pattern.Local
import GoDraft.Proofs.Scan.Walks
import Mathlib.Data.Nat.Find

/-!
# GoDraft — which `main` is found

The `main` of a source text is meant to be the first one that is live: its header begins in code, and its
block is closed. The search takes the first header instead, wherever it stands, and gives up if the block
behind it has no end. So a header in a comment or a literal before the live one hides it, and so does one
whose block is not closed.

* `MainAt`, `FirstMain` — a header of `main` behind a front part of the text, and the first one;
* `MainAt.opensAt` — the brace of a header that begins in code is code;
* `LiveMain`, `FirstLiveMain` — a live `main` with its body, and the first one;
* `findMainBody_eq_some_iff_firstLiveMain` — the body of the first live one is found, where the first
  header is that of a live one.
-/

namespace GoDraft

open Pattern

/-! ## Zones behind a letter in code -/

section Letters

variable {α : Type} [Marked α]

/-- From every place on, a scan goes on as that of some scanner. -/
theorem Scanner.exists_drop_zones : ∀ (n : Nat) (letters : List α) {s : Scanner}, s.Fresh →
    ∃ s' : Scanner, s'.Fresh ∧ (s.zones letters).drop n = s'.zones (letters.drop n)
  | 0, letters, s, h => ⟨s, h, rfl⟩
  | n + 1, [], s, h => ⟨s, h, rfl⟩
  | n + 1, a :: rest, s, h => by
    obtain ⟨s', hfresh, hdrop⟩ := exists_drop_zones n rest (h.read a rest).1
    refine ⟨s', hfresh, ?_⟩
    rw [zones_cons, List.drop_succ_cons, List.drop_succ_cons, hdrop]

/-- From a plain letter in code on, the zones do not depend on what stands before it. -/
theorem drop_zoned_of_plain {letters : List α} {n : Nat} {a : α} (ha : Marked.mark a = .plain)
    (h : (zoned letters)[n]? = some (a, .code)) : (zoned letters).drop n = zoned (letters.drop n) := by
  have hcode : Scanner.start.InCode := ⟨rfl, rfl⟩
  have hfresh : Scanner.start.Fresh := by simp [Scanner.Fresh, Scanner.start]
  obtain ⟨s, hs, hdrop⟩ := Scanner.exists_drop_zones n letters hfresh
  rw [Scanner.zones_eq_zoned hcode] at hdrop
  have hfirst : (s.zones (letters.drop n)).head? = some (a, .code) := by
    rw [← hdrop, List.head?_drop, h]
  obtain ⟨b, rest, hletters⟩ : ∃ b rest, letters.drop n = b :: rest := by
    apply List.exists_cons_of_ne_nil
    intro hnil
    rw [hnil] at hfirst
    cases hfirst
  rw [hletters, Scanner.zones_cons, List.head?_cons, Option.some.injEq, Prod.mk.injEq] at hfirst
  obtain ⟨rfl, hzone⟩ := hfirst
  -- a scanner that tells a plain letter to be code stands in code
  have hin : s.InCode := by
    rw [Scanner.read, ha, Scanner.step_plain] at hzone
    cases hcarry : s.carry with
    | none =>
      rw [hcarry] at hzone
      exact ⟨hzone, hcarry⟩
    | some z =>
      rw [hcarry] at hzone
      exact absurd (hcarry.trans (congrArg some hzone)) hs
  rw [hdrop, Scanner.zones_eq_zoned hin]

theorem zoned_quiet {xs : List α} (h : ∀ x ∈ xs, (Marked.mark x).isQuiet = true) (ys : List α) :
    zoned (xs ++ ys) = xs.map (fun x => (x, .code)) ++ zoned ys := by
  induction xs with
  | nil => rfl
  | cons x xs ih =>
    rw [List.forall_mem_cons] at h
    have hlexeme : lexemeFrom x (xs ++ ys) = (.code, []) := by
      unfold lexemeFrom
      cases hm : Marked.mark x with
      | quote q => rw [hm] at h; cases h.1
      | slash => rw [hm] at h; cases h.1
      | _ => rfl
    rw [List.cons_append, zoned_cons, hlexeme, List.length_nil, List.drop_zero, ih h.2]
    rfl

end Letters

theorem exists_of_isCodeAt {t : Text} {offset : Nat} (h : isCodeAt t offset = true) :
    ∃ x, (zoned t.bytes)[offset]? = some x ∧ x.2 = .code := by
  unfold isCodeAt at h
  cases hspot : spotAt? t offset with
  | none =>
    rw [hspot] at h
    cases h
  | some s =>
    rw [hspot] at h
    refine ⟨_, (getElem?_of_spotAt? hspot).1, ?_⟩
    have hcode : s.zone.isCode = true := h
    cases hz : s.zone with
    | code => rfl
    | _ =>
      rw [hz] at hcode
      cases hcode

/-- Quiet letters do not count for the depth. -/
theorem openBraces_quiet {α : Type} [Marked α] {xs : List α} (h : ∀ x ∈ xs, (Marked.mark x).isQuiet = true)
    (depth : Nat) : openBraces depth (xs.map fun x => (x, Zone.code)) = depth := by
  induction xs with
  | nil => rfl
  | cons x xs ih =>
    rw [List.forall_mem_cons] at h
    have hfirst : depthAfter depth (x, Zone.code) = depth := by
      unfold depthAfter
      cases hm : Marked.mark x with
      | openBrace => rw [hm] at h; cases h.1
      | closeBrace => rw [hm] at h; cases h.1
      | _ => rfl
    rw [List.map_cons, openBraces, List.foldl_cons, hfirst]
    exact ih h.2

/-- From a plain character in code on, the zones of a text are those of the rest alone. -/
theorem drop_zoned_of_isCodeAt {pre t : Text} {c : Char} (hc : (Marked.mark c : Mark) = .plain)
    (hcode : isCodeAt (pre ++ c :: t) pre.size = true) :
    (zoned (Text.bytes (pre ++ c :: t))).drop pre.size = zoned (Text.bytes (c :: t)) := by
  obtain ⟨b, bs, hbytes, hplain⟩ := encode_of_plain hc
  rw [List.forall_mem_cons] at hplain
  have hdropped : (Text.bytes (pre ++ c :: t)).drop pre.size = Text.bytes (c :: t) := by
    rw [Text.bytes_append, ← Text.length_bytes, List.drop_left]
  have hfirst : (Text.bytes (pre ++ c :: t))[pre.size]? = some b := by
    rw [← List.head?_drop, hdropped, Text.bytes, List.flatMap_cons, hbytes]
    rfl
  have hzone : (zoned (Text.bytes (pre ++ c :: t)))[pre.size]? = some (b, .code) := by
    obtain ⟨x, hget, hx⟩ := exists_of_isCodeAt hcode
    rw [← map_fst_zoned (Text.bytes (pre ++ c :: t)), List.getElem?_map, hget] at hfirst
    rw [hget, ← Option.some.inj hfirst, ← hx]
  rw [drop_zoned_of_plain hplain.1 hzone, hdropped]

/-- Behind quiet text that begins in code, an opening brace is code at the depth of that text. -/
theorem opensAt_of_isQuiet {pre head rest : Text} {c : Char} (hc : (Marked.mark c : Mark) = .plain)
    (hquiet : IsQuiet (c :: head))
    (hcode : isCodeAt (pre ++ (c :: head ++ '{' :: rest)) pre.size = true) :
    OpensAt (pre ++ (c :: head ++ '{' :: rest)) (pre.size + Text.size (c :: head))
      (depthAt (pre ++ (c :: head ++ '{' :: rest)) pre.size) := by
  set source := pre ++ (c :: head ++ '{' :: rest) with hsource
  have hmarks := Text.forall_mark_bytes rfl hquiet
  have hbehind : (zoned source.bytes).drop pre.size =
      zoned (Text.bytes (c :: head) ++ openBraceByte :: rest.bytes) :=
    (drop_zoned_of_isCodeAt hc hcode).trans (congrArg zoned (Text.bytes_append (c :: head) ('{' :: rest)))
  rw [zoned_quiet hmarks, zoned_cons] at hbehind
  have hbrace : (zoned source.bytes)[pre.size + Text.size (c :: head)]? = some (openBraceByte, .code) := by
    rw [← List.getElem?_drop, hbehind, ← Text.length_bytes,
      List.getElem?_append_right (by rw [List.length_map]), List.length_map, Nat.sub_self]
    rfl
  have hdepth : depthAt source (pre.size + Text.size (c :: head)) = depthAt source pre.size := by
    rw [depthAt_eq_openBraces, depthAt_eq_openBraces, List.take_add, openBraces_append, hbehind,
      List.take_left' ((List.length_map _).trans (Text.length_bytes _)), openBraces_quiet hmarks]
  rw [OpensAt, spotAt?_eq_some hbrace, hdepth]

/-! ## Headers -/

/-- Behind `pre` a header of `main` stands, which is the match there. -/
def MainAt (source pre : Text) (m : Match) : Prop := mainHeader.MatchesBehind none 0 source pre m

/-- The first header of `main` stands behind `pre`. -/
structure FirstMain (source pre : Text) (m : Match) : Prop where
  stands : MainAt source pre m
  least : ∀ pre' m', MainAt source pre' m' → pre.size ≤ pre'.size

section Header

variable {source pre pre' : Text} {m m' : Match}

theorem MainAt.unique (h : MainAt source pre m) (h' : MainAt source pre m') : m = m' := by
  obtain ⟨post, hsource, hm⟩ := h
  obtain ⟨post', hsource', hm'⟩ := h'
  obtain rfl := List.append_cancel_left (hsource.symm.trans hsource')
  exact Option.some.inj (hm.symm.trans hm')

/-- Of two front parts of a text, sizes and lengths are in the same order. -/
theorem size_le_iff_length_le {post post' : Text} (h : source = pre ++ post) (h' : source = pre' ++ post') :
    pre.size ≤ pre'.size ↔ pre.length ≤ pre'.length := by
  rcases List.append_eq_append_iff.mp (h.symm.trans h') with ⟨w, rfl, -⟩ | ⟨w, rfl, -⟩
  · rw [Text.size_append, List.length_append]
    exact ⟨fun _ => Nat.le_add_right _ _, fun _ => Nat.le_add_right _ _⟩
  · rw [Text.size_append, List.length_append]
    constructor
    · intro hle
      obtain rfl : w = [] := Text.size_eq_zero_iff.mp (by omega)
      exact Nat.le_refl _
    · intro hle
      obtain rfl : w = [] := List.length_eq_zero_iff.mp (by omega)
      exact Nat.le_refl _

theorem find?_mainHeader_eq_some_iff :
    mainHeader.find? source = some m ↔ ∃ pre, FirstMain source pre m := by
  rw [find?, findFrom?_eq_some_iff]
  have horder : ∀ {pre pre' : Text} {m m' : Match}, MainAt source pre m → MainAt source pre' m' →
      (pre.size ≤ pre'.size ↔ pre.length ≤ pre'.length) := by
    rintro pre pre' m m' ⟨post, hsource, -⟩ ⟨post', hsource', -⟩
    exact size_le_iff_length_le hsource hsource'
  constructor
  · rintro ⟨pre, hpre, hleast⟩
    exact ⟨pre, hpre, fun pre' m' h' => (horder hpre h').mpr (hleast pre' m' h')⟩
  · rintro ⟨pre, hpre, hleast⟩
    exact ⟨pre, hpre, fun pre' m' h' => (horder hpre h').mp (hleast pre' m' h')⟩

theorem find?_mainHeader_eq_none_iff : mainHeader.find? source = none ↔ ∀ pre m, ¬ MainAt source pre m :=
  findFrom?_eq_none_iff

/-- The characters that are not quiet. -/
def loudChars : Text := "\"'/\x7b\x7d"

theorem isQuiet_of_not_mem {c : Char} (h : c ∉ loudChars) : (Marked.mark c : Mark).isQuiet = true := by
  by_cases hc : c ∈ markedChars
  · have hquiet : ∀ d ∈ markedChars, d ∉ loudChars → (Marked.mark d : Mark).isQuiet = true := by decide
    exact hquiet c hc h
  · rw [mark_eq_plain hc]
    rfl

/-- A header is quiet text that begins with a plain character, and a brace. -/
theorem MainAt.exists_head (h : MainAt source pre m) :
    ∃ (c : Char) (head rest : Text), source = pre ++ (c :: head ++ '{' :: rest) ∧
      (Marked.mark c : Mark) = .plain ∧ IsQuiet (c :: head) ∧ m.brace = pre.size + Text.size (c :: head) := by
  obtain ⟨post, rfl, hmatch⟩ := h
  obtain ⟨v, s, hfirst, hpost, his⟩ := exists_first_of_matchAt? hmatch
  obtain ⟨-, -, g, hfits, -⟩ := fits_of_matchAt? hmatch
  rw [his.text] at hfits
  obtain ⟨s₁, g₁, s₂, g₂, hhead, hbrace, rfl, -⟩ := hfits
  obtain ⟨rfl, -⟩ := fits_text hbrace
  -- both facts are read off the pattern: what it avoids, and what it does not start with
  have hloud : ∀ x ∈ loudChars, x ∉ s₁ := by
    intro x hx
    refine not_mem_of_avoids ?_ s₁ g₁ hhead
    revert x
    decide +kernel
  have hquiet : IsQuiet s₁ := fun x hx => isQuiet_of_not_mem fun hloudx => hloud x hloudx hx
  have hrejects : mainHeader.rejectsAll markedChars = true := by decide +kernel
  have hstart : ∀ c, post.head? = some c → c ∉ markedChars := by
    intro c hc hmarked
    rw [First, rejects_of_rejectsAll hrejects hmarked _ hc] at hfirst
    cases hfirst
  rw [hpost, List.append_assoc] at hstart ⊢
  cases s₁ with
  | nil => exact absurd (by decide) (hstart '{' rfl)
  | cons c head =>
    refine ⟨c, head, v.rest, rfl, mark_eq_plain (hstart c rfl), hquiet, ?_⟩
    rw [Match.brace, his.stop, Nat.zero_add, Text.size_append, ← Nat.add_assoc]
    rfl

/-- The brace of a header that begins in code is code. -/
theorem MainAt.opensAt (h : MainAt source pre m) (hcode : isCodeAt source pre.size = true) :
    ∃ front rest depth, source = front ++ '{' :: rest ∧ m.brace = front.size ∧
      OpensAt source front.size depth := by
  obtain ⟨c, head, rest, rfl, hplain, hquiet, hbrace⟩ := h.exists_head
  have hopen := opensAt_of_isQuiet hplain hquiet hcode
  rw [← Text.size_append] at hopen
  exact ⟨pre ++ c :: head, rest, _, by simp, by rw [hbrace, Text.size_append], hopen⟩

end Header

/-! ## Live ones -/

/-- Behind `pre` a header of `main` begins in code, and `body` is what stands between its brace and the end
of the block. -/
def LiveMain (source pre body : Text) : Prop :=
  ∃ (m : Match) (front behind : Text) (depth : Nat), MainAt source pre m ∧
    isCodeAt source pre.size = true ∧ source = front ++ '{' :: (body ++ '}' :: behind) ∧
    m.brace = front.size ∧ OpensAt source front.size depth ∧
    BlockEndsAt source false front.size depth (front.size + 1 + body.size)

/-- The first live `main` stands behind `pre` and has a body. -/
structure FirstLiveMain (source pre body : Text) : Prop where
  live : LiveMain source pre body
  least : ∀ pre' body', LiveMain source pre' body' → pre.size ≤ pre'.size

section Live

variable {source pre pre' body body' : Text} {m : Match}

theorem LiveMain.exists_mainAt (h : LiveMain source pre body) : ∃ m, MainAt source pre m := by
  obtain ⟨m, _, _, _, hm, -⟩ := h
  exact ⟨m, hm⟩

/-- Behind a header that begins in code the end of the block is found exactly if the `main` is live, and its
body then is the one cut out. -/
theorem MainAt.live_or_not (h : MainAt source pre m) (hcode : isCodeAt source pre.size = true) :
    (∃ close body, blockEnd source m.brace false = .ok (some close) ∧
        source.slice (m.brace + 1) close = .ok body ∧ LiveMain source pre body ∧
        ∀ body', LiveMain source pre body' → body' = body) ∨
      (blockEnd source m.brace false = .ok none ∧ ∀ body, ¬ LiveMain source pre body) := by
  obtain ⟨front, rest, depth, hsource, hbrace, hopen⟩ := h.opensAt hcode
  obtain ⟨r, hr, hends⟩ := hopen.blockEnd_eq false
  rw [← hbrace] at hr
  -- the header, its brace and the end of its block are settled by the place
  have hlive : ∀ body, LiveMain source pre body →
      r = some (front.size + 1 + body.size) ∧ ∃ behind, rest = body ++ '}' :: behind := by
    rintro body ⟨m', front', behind, depth', hm', -, hsource', hbrace', hopen', hends'⟩
    obtain rfl := h.unique hm'
    have hsame : front.size = front'.size := hbrace.symm.trans hbrace'
    obtain ⟨rfl, hrest⟩ := Text.append_inj_of_size_eq (hsource.symm.trans hsource') hsame
    have hdepth : depth = depth' := by
      rw [OpensAt, hopen] at hopen'
      exact (Spot.mk.inj (Option.some.inj hopen')).2.2.2
    exact ⟨(hends _).mpr (hdepth ▸ hends'), behind, (List.cons.inj hrest).2⟩
  cases r with
  | none =>
    refine .inr ⟨hr, fun body hbody => ?_⟩
    exact absurd (hlive body hbody).1 (by simp)
  | some close =>
    left
    have hclose := (hends close).mp rfl
    obtain ⟨d, hcloses⟩ := hclose.exists_closesAt
    obtain ⟨u, v, hsplit, hsize⟩ := hcloses.exists_split
    have hfront : Text.size (front ++ ['{']) = front.size + 1 := by
      rw [Text.size_append]
      rfl
    have hcut : u ++ '}' :: v = (front ++ ['{']) ++ rest := by
      rw [← hsplit, hsource, List.append_assoc]
      rfl
    have hle : Text.size (front ++ ['{']) ≤ u.size := by
      have hbehind := hclose.behind
      omega
    obtain ⟨body, hrest⟩ := Text.exists_of_size_le hcut hle
    have hend : close = front.size + 1 + body.size := by
      rw [hrest, ← List.append_assoc] at hcut
      rw [← hsize, List.append_cancel_right hcut, Text.size_append, hfront]
    have hwhole : source = front ++ '{' :: (body ++ '}' :: v) := by rw [hsource, hrest]
    refine ⟨close, body, hr, ?_, ?_, ?_⟩
    · have hslice := Text.slice_append (front ++ ['{']) body ('}' :: v)
      rw [hfront, List.append_assoc, List.singleton_append, ← hwhole] at hslice
      rw [hbrace, hend]
      exact hslice
    · exact ⟨m, front, v, depth, h, hcode, hwhole, hbrace, hopen, hend ▸ hclose⟩
    · intro body' hbody'
      obtain ⟨hsame, behind, hrest'⟩ := hlive body' hbody'
      have hsizes : body'.size = body.size := by
        have hoffsets := Option.some.inj hsame
        omega
      exact (Text.append_inj_of_size_eq (hrest'.symm.trans hrest) hsizes).1

/-- Where the first header begins in code, what is found is the body of its `main` if that is live, and
nothing if not. -/
theorem FirstMain.findMainBody_eq (h : FirstMain source pre m) (hcode : isCodeAt source pre.size = true) :
    (∃ body, findMainBody source = .ok (some body.trim) ∧ LiveMain source pre body ∧
        ∀ body', LiveMain source pre body' → body' = body) ∨
      (findMainBody source = .ok none ∧ ∀ body, ¬ LiveMain source pre body) := by
  have hfind := find?_mainHeader_eq_some_iff.mpr ⟨pre, h⟩
  rcases h.stands.live_or_not hcode with ⟨close, body, hend, hslice, hlive, hunique⟩ | ⟨hend, hdead⟩
  · refine .inl ⟨body, ?_, hlive, hunique⟩
    rw [findMainBody, hfind]
    show (blockEnd source m.brace false >>= _) = _
    rw [hend]
    show (source.slice (m.brace + 1) close >>= _) = _
    rw [hslice]
    rfl
  · refine .inr ⟨?_, hdead⟩
    rw [findMainBody, hfind]
    show (blockEnd source m.brace false >>= _) = _
    rw [hend]
    rfl

theorem FirstLiveMain.eq_of_mainAt (h : FirstLiveMain source pre body) (hlive : LiveMain source pre' body')
    (hle : pre'.size ≤ pre.size) : pre = pre' := by
  obtain ⟨m, post, hsource, -⟩ := h.live.exists_mainAt
  obtain ⟨m', post', hsource', -⟩ := hlive.exists_mainAt
  have hsize := Nat.le_antisymm (h.least pre' body' hlive) hle
  exact (Text.append_inj_of_size_eq (hsource.symm.trans hsource') hsize).1

theorem findMainBody_iff_of_none (hfound : findMainBody source = .ok none)
    (hdead : ∀ pre body, ¬ LiveMain source pre body) :
    (∀ b, findMainBody source = .ok (some b) ↔
        ∃ pre body, FirstLiveMain source pre body ∧ body.trim = b) ∧
      (findMainBody source = .ok none ↔ ∀ pre body, ¬ LiveMain source pre body) := by
  rw [hfound]
  refine ⟨fun b => ⟨fun h => absurd h (by simp), ?_⟩, ⟨fun _ => hdead, fun _ => rfl⟩⟩
  rintro ⟨pre, body, hfirst, -⟩
  exact absurd hfirst.live (hdead pre body)

end Live

/-- The places of the headers of `main`, by the number of characters before each. -/
def mainPlaces (source : Text) : List Nat :=
  (List.range (source.length + 1)).filter fun n =>
    (mainHeader.matchAt? ⟨lastOf none (source.take n), 0 + Text.size (source.take n), source.drop n⟩).isSome

theorem MainAt.mem_mainPlaces {source pre : Text} {m : Match} (h : MainAt source pre m) :
    pre.length ∈ mainPlaces source ∧ source.take pre.length = pre := by
  obtain ⟨post, rfl, hm⟩ := h
  have htake : List.take pre.length (pre ++ post) = pre := List.take_left
  refine ⟨List.mem_filter.mpr ⟨List.mem_range.mpr ?_, ?_⟩, htake⟩
  · rw [List.length_append]
    omega
  · rw [htake, List.drop_left, hm]
    rfl

/-- **The `main` that is found is the first live one**, where the first header of a `main` begins in code
and its block is closed if that of any live one is. None is found exactly when none is live. -/
theorem findMainBody_eq_some_iff_firstLiveMain (source : Text)
    (hcode : ∀ pre m, FirstMain source pre m → isCodeAt source pre.size = true)
    (hclosed : ∀ pre m, FirstMain source pre m → ∀ pre' body', LiveMain source pre' body' →
      ∃ body, LiveMain source pre body) :
    (∀ b, findMainBody source = .ok (some b) ↔
        ∃ pre body, FirstLiveMain source pre body ∧ body.trim = b) ∧
      (findMainBody source = .ok none ↔ ∀ pre body, ¬ LiveMain source pre body) := by
  cases hfind : mainHeader.find? source with
  | none =>
    have hfound : findMainBody source = .ok none := by rw [findMainBody, hfind]
    apply findMainBody_iff_of_none hfound
    intro pre body hlive
    obtain ⟨m, hm⟩ := hlive.exists_mainAt
    exact find?_mainHeader_eq_none_iff.mp hfind pre m hm
  | some m =>
    obtain ⟨pre, hpre⟩ := find?_mainHeader_eq_some_iff.mp hfind
    rcases hpre.findMainBody_eq (hcode pre m hpre) with ⟨body, hfound, hlive, hunique⟩ | ⟨hfound, hdead⟩
    · have hleast : ∀ pre' body', LiveMain source pre' body' → pre.size ≤ pre'.size := by
        intro pre' body' hlive'
        obtain ⟨m', hm'⟩ := hlive'.exists_mainAt
        exact hpre.least pre' m' hm'
      rw [hfound]
      refine ⟨fun b => ⟨fun h => ?_, ?_⟩, ⟨fun h => absurd h (by simp), fun h => absurd hlive (h pre body)⟩⟩
      · exact ⟨pre, body, ⟨hlive, hleast⟩, Option.some.inj (Except.ok.inj h)⟩
      · rintro ⟨pre', body', hfirst, rfl⟩
        obtain rfl := hfirst.eq_of_mainAt hlive (hleast pre' body' hfirst.live)
        rw [hunique body' hfirst.live]
    · apply findMainBody_iff_of_none hfound
      intro pre' body' hlive'
      obtain ⟨body, hbody⟩ := hclosed pre m hpre pre' body' hlive'
      exact hdead body hbody

/-- A `main` behind a comment, with braces in a literal and in a comment of its body. -/
def guardedMain : Text :=
  "/* main \x7b */ class A \x7b public static void main(String... a) throws E \x7b s = \"\x7d\"; // \x7d\n f(); \x7d \x7d"

theorem findMainBody_guardedMain :
    (∀ pre m, FirstMain guardedMain pre m → isCodeAt guardedMain pre.size = true) ∧
      (∀ pre m, FirstMain guardedMain pre m → ∀ pre' body', LiveMain guardedMain pre' body' →
        ∃ body, LiveMain guardedMain pre body) ∧
      findMainBody guardedMain = .ok (some "s = \"\x7d\"; // \x7d\n f();".toList) ∧
      ∃ pre body, FirstLiveMain guardedMain pre body ∧ body.trim = "s = \"\x7d\"; // \x7d\n f();".toList := by
  obtain ⟨hplaces, hincode, hfound⟩ : mainPlaces guardedMain = [23] ∧
      isCodeAt guardedMain (Text.size (guardedMain.take 23)) = true ∧
      findMainBody guardedMain = .ok (some "s = \"\x7d\"; // \x7d\n f();".toList) := by decide +kernel
  -- there is one header, so it is the first
  have hpre : ∀ {pre : Text} {m : Match}, MainAt guardedMain pre m → pre = guardedMain.take 23 := by
    intro pre m h
    obtain ⟨hmem, htake⟩ := h.mem_mainPlaces
    rw [hplaces, List.mem_singleton] at hmem
    rw [← htake, hmem]
  have hcode : ∀ pre m, FirstMain guardedMain pre m → isCodeAt guardedMain pre.size = true := by
    intro pre m h
    rw [hpre h.stands]
    exact hincode
  have hclosed : ∀ pre m, FirstMain guardedMain pre m → ∀ pre' body', LiveMain guardedMain pre' body' →
      ∃ body, LiveMain guardedMain pre body := by
    intro pre m h pre' body' hlive
    obtain ⟨m', hm'⟩ := hlive.exists_mainAt
    rw [hpre hm', ← hpre h.stands] at hlive
    exact ⟨body', hlive⟩
  exact ⟨hcode, hclosed, hfound,
    ((findMainBody_eq_some_iff_firstLiveMain guardedMain hcode hclosed).1 _).mp hfound⟩

/-- A `main` behind a line comment that holds another. -/
def commentedMain : Text :=
  "// public static void main(String[] a) \x7b old(); \x7d\nclass A \x7b public static void main(String[] a) \x7b live(); \x7d \x7d"

/-- The `main` behind the comment is live. -/
theorem liveMain_commentedMain : LiveMain commentedMain (commentedMain.take 60) " live(); " := by
  obtain ⟨hcode, hbrace, hends, hcut⟩ :
      isCodeAt commentedMain (Text.size (commentedMain.take 60)) = true ∧
      (mainHeader.matchAt? ⟨lastOf none (commentedMain.take 60), 0 + Text.size (commentedMain.take 60),
        commentedMain.drop 60⟩).map Match.brace = some 96 ∧
      blockEnd commentedMain 96 false = .ok (some 106) ∧
      commentedMain.slice 97 106 = .ok " live(); ".toList := by decide +kernel
  obtain ⟨m, hm, hmbrace⟩ := Option.map_eq_some_iff.mp hbrace
  have hmain : MainAt commentedMain (commentedMain.take 60) m :=
    ⟨commentedMain.drop 60, (List.take_append_drop 60 commentedMain).symm, hm⟩
  rcases hmain.live_or_not hcode with ⟨close, body, hend, hslice, hlive, -⟩ | ⟨hend, -⟩
  · rw [hmbrace, hends] at hend
    obtain rfl := Option.some.inj (Except.ok.inj hend)
    rw [hmbrace, hcut] at hslice
    exact Except.ok.inj hslice ▸ hlive
  · rw [hmbrace, hends] at hend
    exact absurd hend (by simp)

/-- A `main` in a comment hides the live one behind it. -/
theorem findMainBody_commentedMain_ne :
    (∃ pre body, FirstLiveMain commentedMain pre body ∧ body.trim = "live();".toList) ∧
      findMainBody commentedMain = .ok (some "old();".toList) := by
  obtain ⟨hplaces, hcomment, hfound⟩ : mainPlaces commentedMain = [3, 60] ∧
      isCodeAt commentedMain (Text.size (commentedMain.take 3)) = false ∧
      findMainBody commentedMain = .ok (some "old();".toList) := by decide +kernel
  refine ⟨⟨_, _, ⟨liveMain_commentedMain, fun pre body hlive => ?_⟩, by decide⟩, hfound⟩
  obtain ⟨m, _, _, _, hm, hcode, -⟩ := hlive
  obtain ⟨hmem, htake⟩ := hm.mem_mainPlaces
  rw [hplaces, List.mem_cons, List.mem_singleton] at hmem
  rw [← htake] at hcode ⊢
  rcases hmem with hplace | hplace
  · rw [hplace, hcomment] at hcode
    cases hcode
  · rw [hplace]

end GoDraft
