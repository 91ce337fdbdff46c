import GoDraft.Files.Folder
import GoDraft.Proofs.Text.Lines
import Mathlib.Data.List.DropRight

/-!
# GoDraft — the way of a path

A path is text, and the same way can be written in many: dots and doubled slashes name nothing. What a path is
made of counts by its way, the list of what it names.

* `Path.way` — the way of a path;
* `Path.exists_parent` — the folder of a path is one name less;
* `Path.join_way`, `Path.join_withExtension`, `Path.join_relativeTo` — a path below a folder, with another
  extension, and from that folder on.
-/

namespace GoDraft

/-- Whether a text can name an entry of a folder. -/
def IsName (name : Text) : Prop := name ≠ [] ∧ '/' ∉ name ∧ name ≠ ['.'] ∧ name ≠ ['.', '.']

instance (name : Text) : Decidable (IsName name) := inferInstanceAs (Decidable (_ ∧ _))

theorem IsName.isIdle {name : Text} (h : IsName name) : PathParts.isIdle name = false := by
  simp [PathParts.isIdle, h.1, h.2.2.1]

/-- The pieces that name something. -/
def named (pieces : List Text) : List Text := pieces.filter fun piece => !PathParts.isIdle piece

/-- What a path names, step by step. -/
def Path.way (p : Path) : List Text := named p.parts.pieces

/-- A path below the working folder that does not end with a dot, or is nothing but dots. -/
structure Path.IsTidy (p : Path) : Prop where
  relative : p.isAbsolute = false
  last : p.way = [] ∨ p.route.steps.getLast? = p.way.getLast?

/-! ## Parts -/

namespace PathParts

/-- Parts of a path below the working folder. -/
structure IsRelative (x : PathParts) : Prop where
  noSlash : ∀ piece ∈ x.pieces, '/' ∉ piece
  shape : x.head = [] ∧ (x.pieces.tail = [] ∨ x.pieces.head? ≠ some []) ∨
    x.head = ['.'] ∧ (x.pieces = [] ∨ x.pieces.head? = some [])

/-- The steps that the head of a path adds. -/
def headSteps (x : PathParts) : List Text := if x.head = ['.'] then [['.']] else []

end PathParts

theorem Path.isRelative_parts {p : Path} (h : p.isAbsolute = false) : p.parts.IsRelative := by
  unfold Path.parts
  split
  · cases h
  · exact ⟨by simp, .inr ⟨rfl, .inl rfl⟩⟩
  · rename_i rest
    refine ⟨?_, .inr ⟨rfl, .inr rfl⟩⟩
    rw [List.forall_mem_cons]
    exact ⟨by simp, fun piece hpiece => (Text.not_mem_of_mem_pieces piece hpiece).1⟩
  · refine ⟨fun piece hpiece => (Text.not_mem_of_mem_pieces piece hpiece).1, .inl ⟨rfl, ?_⟩⟩
    cases p with
    | nil => exact .inl rfl
    | cons c t =>
      have hc : c ≠ '/' := by
        rintro rfl
        cases h
      obtain ⟨q, qs, hqs⟩ := List.exists_cons_of_ne_nil (Text.pieces_ne_nil '/' t)
      rw [Text.pieces_cons_ne hc hqs]
      exact .inr (by simp)

namespace PathParts

variable {x : PathParts}

theorem IsRelative.of_front (hx : x.IsRelative) {ps : List Text} (h : ps <+: x.pieces) :
    IsRelative ⟨x.head, ps⟩ := by
  refine ⟨fun piece hpiece => hx.noSlash piece (h.subset hpiece), ?_⟩
  obtain ⟨qs, hqs⟩ := h
  rcases hx.shape with ⟨hhead, hpieces⟩ | ⟨hhead, hpieces⟩
  · refine .inl ⟨hhead, ?_⟩
    cases ps with
    | nil => exact .inl rfl
    | cons q ps =>
      rw [← hqs, List.cons_append, List.tail_cons, List.append_eq_nil_iff] at hpieces
      exact hpieces.imp And.left id
  · refine .inr ⟨hhead, ?_⟩
    cases ps with
    | nil => exact .inl rfl
    | cons q ps =>
      rw [← hqs] at hpieces
      exact .inr (hpieces.resolve_left (by simp))

theorem IsRelative.isAbsolute_toPath (hx : x.IsRelative) : x.toPath.isAbsolute = false := by
  obtain ⟨head, pieces⟩ := x
  rcases hx.shape with ⟨hhead, hpieces⟩ | ⟨hhead, hpieces⟩
  · subst hhead
    cases pieces with
    | nil => rfl
    | cons q ps =>
      have hq : '/' ∉ q := hx.noSlash q List.mem_cons_self
      cases q with
      | nil =>
        obtain rfl : ps = [] := by simpa using hpieces
        rfl
      | cons c q =>
        have hc : c ≠ '/' := fun heq => hq (heq ▸ List.mem_cons_self)
        have hhead : (PathParts.toPath ⟨[], (c :: q) :: ps⟩).head? = some c := by
          cases ps <;> rfl
        rw [Path.isAbsolute, hhead]
        simpa using hc
  · subst hhead
    rfl

/-- Another last piece changes nothing about where a path begins. -/
theorem IsRelative.concat {head : Text} {front : List Text} {last new : Text}
    (hx : IsRelative ⟨head, front ++ [last]⟩) (hlast : isIdle last = false) (hnew : '/' ∉ new) :
    IsRelative ⟨head, front ++ [new]⟩ := by
  constructor
  · intro piece hpiece
    rcases List.mem_append.mp hpiece with hfront | hpiece
    · exact hx.noSlash piece (List.mem_append_left _ hfront)
    · rwa [List.mem_singleton.mp hpiece]
  · cases front with
    | nil =>
      refine .inl ⟨?_, .inl rfl⟩
      rcases hx.shape with ⟨hhead, -⟩ | ⟨-, hpieces⟩
      · exact hhead
      · -- behind a dot the first piece is empty, and the last one is not
        have hempty : last = [] := by simpa using hpieces
        rw [hempty] at hlast
        cases hlast
    | cons q front => simpa using hx.shape

/-- The steps of parts that are put together. -/
theorem IsRelative.steps_toPath (hx : x.IsRelative) :
    x.toPath.route.steps = x.headSteps ++ x.pieces.filter fun piece => !piece.isEmpty := by
  obtain ⟨head, pieces⟩ := x
  have hpieces_eq : pieces ≠ [] → Text.pieces '/' (Text.join ['/'] pieces) = pieces := fun hne =>
    Text.pieces_join hne hx.noSlash
  rcases hx.shape with ⟨hhead, -⟩ | ⟨hhead, hpieces⟩
  · subst hhead
    show (Text.pieces '/' (Text.join ['/'] pieces)).filter _ = pieces.filter _
    by_cases hne : pieces = []
    · rw [hne]
      rfl
    · rw [hpieces_eq hne]
  · subst hhead
    show (Text.pieces '/' ('.' :: Text.join ['/'] pieces)).filter _ = [['.']] ++ pieces.filter _
    cases pieces with
    | nil => rfl
    | cons q ps =>
      obtain rfl : q = [] := by simpa using hpieces
      have hcut := hpieces_eq (List.cons_ne_nil [] ps)
      rw [Text.pieces_cons_ne (by decide) hcut]
      rfl

end PathParts

/-! ## Idle pieces -/

theorem named_append (ps qs : List Text) : named (ps ++ qs) = named ps ++ named qs :=
  List.filter_append ps qs

theorem named_eq_self {ps : List Text} (h : ∀ piece ∈ ps, IsName piece) : named ps = ps := by
  apply List.filter_eq_self.mpr
  intro piece hpiece
  rw [(h piece hpiece).isIdle]
  rfl

theorem named_concat {piece : Text} (h : PathParts.isIdle piece = false) (ps : List Text) :
    named (ps ++ [piece]) = named ps ++ [piece] := by
  rw [named_append, named, named, List.filter_cons_of_pos (by simp [h]), List.filter_nil]

/-- Idle pieces at the end name nothing. -/
theorem named_rdropWhile (ps : List Text) : named (ps.rdropWhile PathParts.isIdle) = named ps := by
  induction ps using List.reverseRecOn with
  | nil => rfl
  | append_singleton ps p ih =>
    rw [List.rdropWhile_concat]
    split
    · rename_i hp
      rw [ih, named_append, named, named, List.filter_cons_of_neg (by simp [hp]), List.filter_nil, List.append_nil]
    · rfl

/-- Without the idle pieces at their end, pieces end with one that names something. -/
theorem rdropWhile_isIdle_eq (ps : List Text) : ps.rdropWhile PathParts.isIdle = [] ∨
    ∃ front piece, ps.rdropWhile PathParts.isIdle = front ++ [piece] ∧ PathParts.isIdle piece = false := by
  rcases List.eq_nil_or_concat (ps.rdropWhile PathParts.isIdle) with hnil | ⟨front, piece, hconcat⟩
  · exact .inl hnil
  · rw [List.concat_eq_append] at hconcat
    have hlast := List.rdropWhile_last_not PathParts.isIdle ps (by simp [hconcat])
    exact .inr ⟨front, piece, hconcat, by simpa [hconcat] using hlast⟩

/-- The steps of pieces without the dots are what the pieces name. -/
theorem named_eq_filter_steps (x : PathParts) :
    ((x.headSteps ++ x.pieces.filter fun piece => !piece.isEmpty).filter fun step => step != ['.']) =
      named x.pieces := by
  have hhead : (x.headSteps.filter fun step => step != ['.']) = [] := by
    rw [PathParts.headSteps]
    split <;> rfl
  rw [List.filter_append, hhead, List.nil_append, List.filter_filter, named]
  congr 1
  funext piece
  rw [PathParts.isIdle, Bool.not_or, Bool.and_comm]
  rfl

/-! ## Ways -/

namespace Path

theorem toPath_parts (p : Path) : p.parts.toPath = p := by
  unfold Path.parts
  split
  · rename_i rest
    show '/' :: Text.join ['/'] (Text.pieces '/' rest) = _
    rw [Text.join_pieces]
  · rfl
  · rename_i rest
    show '.' :: Text.join ['/'] ([] :: Text.pieces '/' rest) = _
    rw [Text.join_cons (Text.pieces_ne_nil '/' rest), Text.join_pieces]
    rfl
  · exact Text.join_pieces p

/-- The way of a path is its steps without the dots. -/
theorem way_eq_filter_steps {p : Path} (h : p.isAbsolute = false) :
    p.way = p.route.steps.filter fun step => step != ['.'] := by
  have hsteps := (isRelative_parts h).steps_toPath
  rw [toPath_parts] at hsteps
  rw [hsteps, named_eq_filter_steps, way]

theorem way_toPath {x : PathParts} (hx : x.IsRelative) : x.toPath.way = named x.pieces := by
  rw [way_eq_filter_steps hx.isAbsolute_toPath, hx.steps_toPath, named_eq_filter_steps]

theorem ne_nil_of_way {p : Path} (h : p.way ≠ []) : p ≠ [] := by
  rintro rfl
  exact h rfl

theorem length_named_le : ∀ pieces : List Text, (named pieces).length ≤ (Text.join ['/'] pieces).length
  | [] => Nat.le_refl 0
  | [piece] => by
    cases piece with
    | nil => exact Nat.le_refl 0
    | cons c t =>
      have hone : (named [c :: t]).length ≤ [c :: t].length := List.length_filter_le _ _
      rw [List.length_singleton] at hone
      show (named [c :: t]).length ≤ t.length + 1
      omega
  | piece :: next :: pieces => by
    have ih := length_named_le (next :: pieces)
    have hone : (named [piece]).length ≤ [piece].length := List.length_filter_le _ _
    have hsplit : named (piece :: next :: pieces) = named [piece] ++ named (next :: pieces) :=
      named_append [piece] (next :: pieces)
    rw [List.length_singleton] at hone
    rw [hsplit, Text.join_cons (List.cons_ne_nil _ _), List.length_append, List.length_append, List.length_append,
      List.length_singleton]
    omega

/-- Each name on a way is written out. -/
theorem length_way_le (p : Path) : p.way.length ≤ p.length := by
  have hlength := congrArg List.length (toPath_parts p)
  have hnamed := length_named_le p.parts.pieces
  rw [PathParts.toPath, List.length_append] at hlength
  rw [way]
  omega

/-- Parts that end with a name make a tidy path. -/
theorem isTidy_toPath {x : PathParts} (hx : x.IsRelative)
    (hlast : x.pieces = [] ∨ ∃ front piece, x.pieces = front ++ [piece] ∧ PathParts.isIdle piece = false) :
    x.toPath.IsTidy := by
  refine ⟨hx.isAbsolute_toPath, ?_⟩
  rw [way_toPath hx, hx.steps_toPath]
  rcases hlast with hnil | ⟨front, piece, hpieces, hpiece⟩
  · rw [hnil]
    exact .inl rfl
  · have hne : piece.isEmpty = false := by
      rw [PathParts.isIdle, Bool.or_eq_false_iff] at hpiece
      exact hpiece.1
    right
    rw [hpieces, named_concat hpiece, List.filter_append, List.filter_cons_of_pos (by simp [hne]), List.filter_nil,
      ← List.append_assoc, List.getLast?_concat, List.getLast?_concat]

theorem getLast?_rdropWhile_isIdle (ps : List Text) :
    (ps.rdropWhile PathParts.isIdle).getLast? = (named ps).getLast? := by
  rw [← named_rdropWhile]
  rcases rdropWhile_isIdle_eq ps with hnil | ⟨front, piece, hconcat, hpiece⟩
  · rw [hnil]
    rfl
  · rw [hconcat, named_concat hpiece, List.getLast?_concat, List.getLast?_concat]

/-- A path with a name at its end does not have to lead to a folder. -/
theorem toFolder_toPath (head : Text) (front : List Text) {name : Text} (hname : IsName name) :
    (PathParts.toPath ⟨head, front ++ [name]⟩).route.toFolder = false := by
  obtain ⟨s, hs⟩ := Text.exists_join_concat ['/'] name front
  have hpath : PathParts.toPath ⟨head, front ++ [name]⟩ = head ++ s ++ name := by
    rw [PathParts.toPath, hs, ← List.append_assoc]
  have hlast : (PathParts.toPath ⟨head, front ++ [name]⟩).getLast? = name.getLast? := by
    rw [hpath, List.getLast?_append_of_ne_nil _ hname.1]
  rw [route, hlast, beq_eq_false_iff_ne]
  exact fun hslash => hname.2.1 (List.mem_of_getLast? hslash)

/-- A path ends with the last name on its way. -/
theorem fileName?_eq (p : Path) : p.fileName? = p.way.getLast?.filter fun piece => piece != ['.', '.'] := by
  have hlast : p.parts.trimEnd.pieces.getLast? = p.way.getLast? := getLast?_rdropWhile_isIdle p.parts.pieces
  rw [fileName?, hlast]
  cases p.way.getLast? with
  | none => rfl
  | some piece =>
    rw [Option.filter_some]
    by_cases hup : piece = ['.', '.'] <;> simp [hup]

/-- The folder of a path that names something is one name less. -/
theorem exists_parent {p : Path} (h : p.isAbsolute = false) {names : List Text} {name : Text}
    (hway : p.way = names ++ [name]) : ∃ q, p.parent? = some q ∧ q.IsTidy ∧ q.way = names := by
  rw [way, ← named_rdropWhile] at hway
  rcases rdropWhile_isIdle_eq p.parts.pieces with hnil | ⟨front, last, hconcat, hlast⟩
  · rw [hnil] at hway
    simp [named] at hway
  · have hnames : named front = names := by
      rw [hconcat, named_concat hlast] at hway
      exact List.append_inj_left' hway rfl
    have hfront : front.rdropWhile PathParts.isIdle <+: p.parts.pieces :=
      (List.rdropWhile_prefix _ _).trans ((List.prefix_append front [last]).trans
        (hconcat ▸ List.rdropWhile_prefix _ _))
    have hrelative := (isRelative_parts h).of_front hfront
    refine ⟨PathParts.toPath ⟨p.parts.head, front.rdropWhile PathParts.isIdle⟩, ?_,
      isTidy_toPath hrelative (rdropWhile_isIdle_eq front), ?_⟩
    · have htrimmed : p.parts.trimEnd = ⟨p.parts.head, front ++ [last]⟩ := by
        rw [← hconcat]
        rfl
      rw [parent?, htrimmed, if_pos (by simp), PathParts.dropLast, List.dropLast_concat]
      rfl
    · rw [way_toPath hrelative, named_rdropWhile, hnames]

/-! ## Below a folder -/

/-- The pieces of a path before what is joined to it. -/
def frontPieces (d : Path) : List Text := if d = ['.'] then [[]] else d.parts.pieces

theorem named_frontPieces (d : Path) : named d.frontPieces = d.way := by
  rw [frontPieces]
  split
  · rename_i hd
    rw [hd]
    rfl
  · rfl

theorem exists_of_isAbsolute {p : Path} (h : p.isAbsolute = true) : ∃ r, p = '/' :: r := by
  cases p with
  | nil => cases h
  | cons c r =>
    obtain rfl : c = '/' := by simpa [isAbsolute] using h
    exact ⟨r, rfl⟩

/-- A path that begins with neither a slash nor a dot of its own has all its parts between slashes. -/
theorem parts_eq_pieces {p : Path} (h : p.isAbsolute = false) (hdot : p ≠ ['.']) (hdots : ∀ r, p ≠ '.' :: '/' :: r) :
    p.parts = ⟨[], Text.pieces '/' p⟩ := by
  unfold parts
  split
  · cases h
  · exact absurd rfl hdot
  · exact absurd rfl (hdots _)
  · rfl

theorem isAbsolute_append {d : Path} (hne : d ≠ []) (t : Path) : isAbsolute (d ++ t) = d.isAbsolute := by
  rw [isAbsolute, List.head?_append_of_ne_nil _ hne, isAbsolute]

/-- What is outside the working folder stays there. -/
theorem isAbsolute_join {dir : Path} (h : dir.isAbsolute = true) (p : Path) : (dir.join p).isAbsolute = true := by
  have hne : dir ≠ [] := by
    rintro rfl
    cases h
  rw [join]
  split
  · rename_i hp
    simpa [hne] using hp
  · split
    · rw [isAbsolute_append hne, h]
    · rw [List.append_assoc, isAbsolute_append hne, h]

/-- A slash cuts a path. -/
theorem parts_append_slash {d : Path} (hne : d ≠ []) (t : Path) :
    parts (d ++ '/' :: t) = ⟨d.parts.head, d.frontPieces ++ Text.pieces '/' t⟩ := by
  by_cases habsolute : d.isAbsolute = true
  · obtain ⟨r, rfl⟩ := exists_of_isAbsolute habsolute
    show (⟨['/'], Text.pieces '/' (r ++ '/' :: t)⟩ : PathParts) = _
    rw [Text.pieces_append_sep, frontPieces, if_neg (by simp)]
    rfl
  rw [Bool.not_eq_true] at habsolute
  by_cases hdot : d = ['.']
  · rw [hdot]
    rfl
  · rw [frontPieces, if_neg hdot]
    by_cases hdots : ∃ r, d = '.' :: '/' :: r
    · obtain ⟨r, rfl⟩ := hdots
      show (⟨['.'], [] :: Text.pieces '/' (r ++ '/' :: t)⟩ : PathParts) = _
      rw [Text.pieces_append_sep]
      rfl
    · rw [not_exists] at hdots
      -- the dot that counts would already be at the start of the front
      have hlong : ∀ r, d ++ '/' :: t ≠ '.' :: '/' :: r := by
        intro r hr
        rcases d with _ | ⟨c, _ | ⟨c', d⟩⟩
        · exact hne rfl
        · obtain rfl := (List.cons.inj hr).1
          exact hdot rfl
        · obtain ⟨rfl, htail⟩ := List.cons.inj hr
          obtain ⟨rfl, -⟩ := List.cons.inj htail
          exact hdots d rfl
      have hshort : d ++ '/' :: t ≠ ['.'] := by
        intro heq
        have hmem : '/' ∈ ['.'] := heq ▸ by simp
        exact absurd hmem (by decide)
      rw [parts_eq_pieces (by rw [isAbsolute_append hne, habsolute]) hshort hlong,
        parts_eq_pieces habsolute hdot hdots, Text.pieces_append_sep]

/-- The path of some names. -/
def below (names : List Text) : Path := Text.join ['/'] names

theorem below_ne_nil (names : List Text) {name : Text} (hname : name ≠ []) : below (names ++ [name]) ≠ [] := by
  obtain ⟨s, hs⟩ := Text.exists_join_concat ['/'] name names
  rw [below, hs]
  simp [hname]

section Below

variable {names : List Text} (hne : names ≠ []) (hnames : ∀ name ∈ names, IsName name)

include hne hnames

theorem pieces_below : Text.pieces '/' (below names) = names :=
  Text.pieces_join hne fun name hname => (hnames name hname).2.1

theorem isAbsolute_below : (below names).isAbsolute = false := by
  have hpieces := pieces_below hne hnames
  rw [isAbsolute]
  cases hbelow : below names with
  | nil => rfl
  | cons c t =>
    have hc : c ≠ '/' := by
      rintro rfl
      rw [hbelow, Text.pieces_cons_self] at hpieces
      have hempty : [] ∈ names := hpieces ▸ List.mem_cons_self
      exact (hnames [] hempty).1 rfl
    simpa using hc

theorem parts_below : (below names).parts = ⟨[], names⟩ := by
  have hpieces := pieces_below hne hnames
  have hdot : ['.'] ∉ names := fun hmem => (hnames _ hmem).2.2.1 rfl
  rw [parts_eq_pieces (isAbsolute_below hne hnames), hpieces]
  · intro heq
    rw [heq] at hpieces
    exact hdot (hpieces ▸ List.mem_cons_self)
  · intro r heq
    rw [heq, Text.pieces_cons_ne (by decide) (Text.pieces_cons_self r)] at hpieces
    exact hdot (hpieces ▸ List.mem_cons_self)

end Below

/-- What is joined to a folder stands behind one text and one slash. -/
theorem exists_join_eq {dir : Path} (hne : dir ≠ []) (hroot : dir ≠ ['/']) :
    ∃ d : Path, d ≠ [] ∧ d.isAbsolute = dir.isAbsolute ∧ d.parts.head = dir.parts.head ∧ d.way = dir.way ∧
      ∀ t : Path, t.isAbsolute = false → dir.join t = d ++ '/' :: t := by
  by_cases hlast : dir.getLast? = some '/'
  · have hdir : dir.dropLast ++ ['/'] = dir := List.dropLast_append_getLast? '/' hlast
    have hd : dir.dropLast ≠ [] := by
      intro hnil
      rw [hnil, List.nil_append] at hdir
      exact hroot hdir.symm
    have hparts : dir.parts = ⟨(parts dir.dropLast).head, frontPieces dir.dropLast ++ [[]]⟩ := by
      conv => lhs; rw [← hdir]
      exact parts_append_slash hd []
    refine ⟨dir.dropLast, hd, ?_, by rw [hparts], ?_, fun t ht => ?_⟩
    · rw [← isAbsolute_append hd ['/'], hdir]
    · rw [← named_frontPieces, way, hparts, named_append]
      exact (List.append_nil _).symm
    · rw [join, if_neg (by simp [ht, hne]), if_pos hlast]
      conv => lhs; rw [← hdir]
      simp
  · refine ⟨dir, hne, rfl, rfl, rfl, fun t ht => ?_⟩
    rw [join, if_neg (by simp [ht, hne]), if_neg hlast, List.append_assoc]
    rfl

theorem join_nil (p : Path) : join [] p = p := by simp [join]

/-- The parts of a path below a folder. -/
theorem exists_parts_join (dir : Path) :
    ∃ front, named front = dir.way ∧ ∀ names : List Text, names ≠ [] → (∀ name ∈ names, IsName name) →
      (dir.join (below names)).parts = ⟨dir.parts.head, front ++ names⟩ ∧
        (dir.join (below names)).isAbsolute = dir.isAbsolute := by
  by_cases hdir : dir = []
  · subst hdir
    refine ⟨[], rfl, fun names hne hnames => ?_⟩
    rw [join_nil]
    exact ⟨parts_below hne hnames, isAbsolute_below hne hnames⟩
  · by_cases hroot : dir = ['/']
    · subst hroot
      refine ⟨[], rfl, fun names hne hnames => ?_⟩
      have hjoin : join ['/'] (below names) = '/' :: below names := by
        rw [join, if_neg (by simp [isAbsolute_below hne hnames]), if_pos (by decide)]
        rfl
      rw [hjoin, parts, pieces_below hne hnames]
      exact ⟨rfl, rfl⟩
    · obtain ⟨d, hd, habsolute, hhead, hway, hjoin⟩ := exists_join_eq hdir hroot
      refine ⟨d.frontPieces, by rw [named_frontPieces, hway], fun names hne hnames => ?_⟩
      rw [hjoin _ (isAbsolute_below hne hnames), parts_append_slash hd, pieces_below hne hnames, hhead,
        isAbsolute_append hd]
      exact ⟨rfl, habsolute⟩

section Join

variable {dir : Path} {names : List Text} {name : Text} (hnames : ∀ n ∈ names ++ [name], IsName n)

include hnames

theorem join_way : (dir.join (below (names ++ [name]))).way = dir.way ++ (names ++ [name]) := by
  obtain ⟨front, hfront, hparts⟩ := exists_parts_join dir
  rw [way, (hparts (names ++ [name]) (by simp) hnames).1, named_append, hfront, named_eq_self hnames]

theorem join_isTidy (h : dir.isAbsolute = false) : (dir.join (below (names ++ [name]))).IsTidy := by
  obtain ⟨front, hfront, hparts⟩ := exists_parts_join dir
  obtain ⟨hparts, habsolute⟩ := hparts (names ++ [name]) (by simp) hnames
  have hrelative := habsolute.trans h
  have htidy := isTidy_toPath (isRelative_parts hrelative) (.inr ⟨front ++ names, name, by simp [hparts],
    (hnames name (by simp)).isIdle⟩)
  rwa [toPath_parts] at htidy

/-- A path below a folder has a name at its end. -/
theorem trimEnd_parts_join : (dir.join (below (names ++ [name]))).parts.trimEnd =
    (dir.join (below (names ++ [name]))).parts := by
  obtain ⟨front, -, hparts⟩ := exists_parts_join dir
  rw [(hparts (names ++ [name]) (by simp) hnames).1, ← List.append_assoc]
  show (⟨_, (front ++ names ++ [name]).rdropWhile PathParts.isIdle⟩ : PathParts) = _
  rw [List.rdropWhile_concat_neg _ _ _ (by simp [(hnames name (by simp)).isIdle])]

/-- A path below a folder does not end with a slash. -/
theorem join_toFolder : (dir.join (below (names ++ [name]))).route.toFolder = false := by
  obtain ⟨front, -, hparts⟩ := exists_parts_join dir
  have hparts := (hparts (names ++ [name]) (by simp) hnames).1
  rw [← toPath_parts (dir.join _), hparts, ← List.append_assoc]
  exact toFolder_toPath dir.parts.head (front ++ names) (hnames name (by simp))

theorem join_fileName : (dir.join (below (names ++ [name]))).fileName? = some name := by
  obtain ⟨front, -, hparts⟩ := exists_parts_join dir
  rw [fileName?, trimEnd_parts_join hnames, (hparts (names ++ [name]) (by simp) hnames).1, ← List.append_assoc,
    List.getLast?_concat]
  exact if_neg (hnames name (by simp)).2.2.2

/-- Another extension is another name. -/
theorem join_withExtension {ext : Text} (hname : IsName (nameWithExtension name ext)) :
    (dir.join (below (names ++ [name]))).withExtension ext =
      dir.join (below (names ++ [nameWithExtension name ext])) := by
  have hnames' : ∀ n ∈ names ++ [nameWithExtension name ext], IsName n := by
    rw [List.forall_mem_append] at hnames ⊢
    exact ⟨hnames.1, by simpa using hname⟩
  obtain ⟨front, -, hparts⟩ := exists_parts_join dir
  have hparts' := (hparts _ (by simp) hnames').1
  rw [withExtension, join_fileName hnames, trimEnd_parts_join hnames, (hparts (names ++ [name]) (by simp) hnames).1,
    ← toPath_parts (dir.join (below (names ++ [nameWithExtension name ext]))), hparts']
  simp [PathParts.dropLast]

end Join

/-! ## From a folder on -/

/-- Pieces behind as many that name something as there are before. -/
theorem exists_dropNamed (names : List Text) : ∀ front : List Text,
    ∃ idles : List Text, (∀ piece ∈ idles, PathParts.isIdle piece = true) ∧
      dropNamed (named front).length (front ++ names) = idles ++ names
  | [] => ⟨[], by simp, dropNamed.eq_1 names⟩
  | piece :: front => by
    obtain ⟨idles, hidles, hdrop⟩ := exists_dropNamed names front
    by_cases hpiece : PathParts.isIdle piece = true
    · have hnamed : named (piece :: front) = named front := List.filter_cons_of_neg (by simp [hpiece])
      rw [hnamed]
      cases hlength : (named front).length with
      | zero =>
        have hnone : ∀ p ∈ piece :: front, PathParts.isIdle p = true := by
          rw [List.forall_mem_cons]
          refine ⟨hpiece, fun p hp => ?_⟩
          have hnil := List.filter_eq_nil_iff.mp (List.length_eq_zero_iff.mp hlength) p hp
          simpa using hnil
        exact ⟨piece :: front, hnone, rfl⟩
      | succ n =>
        rw [hlength] at hdrop
        refine ⟨idles, hidles, ?_⟩
        rw [List.cons_append, dropNamed, if_pos hpiece, hdrop]
    · have hnamed : named (piece :: front) = piece :: named front := List.filter_cons_of_pos (by simp [hpiece])
      refine ⟨idles, hidles, ?_⟩
      rw [hnamed, List.length_cons, List.cons_append, dropNamed, if_neg hpiece, hdrop]

theorem components_ne_nil {dir : Path} (hne : dir ≠ []) : dir.components ≠ [] := by
  by_cases habsolute : dir.isAbsolute = true
  · obtain ⟨r, rfl⟩ := exists_of_isAbsolute habsolute
    exact List.cons_ne_nil _ _
  rw [Bool.not_eq_true] at habsolute
  by_cases hdot : dir = ['.']
  · rw [hdot]
    decide
  · by_cases hdots : ∃ r, dir = '.' :: '/' :: r
    · obtain ⟨r, rfl⟩ := hdots
      exact List.cons_ne_nil _ _
    · rw [not_exists] at hdots
      obtain ⟨c, t, rfl⟩ := List.exists_cons_of_ne_nil hne
      have hslash : c ≠ '/' := by
        rintro rfl
        cases habsolute
      obtain ⟨q, qs, hqs⟩ := List.exists_cons_of_ne_nil (Text.pieces_ne_nil '/' t)
      -- the first piece is not idle, or the path would be a dot or start with one
      have hidle : PathParts.isIdle (c :: q) = false := by
        rw [Bool.eq_false_iff]
        intro hidle
        have hcq : c = '.' ∧ q = [] := by simpa [PathParts.isIdle] using hidle
        obtain ⟨rfl, rfl⟩ := hcq
        have ht : Text.join ['/'] (Text.pieces '/' t) = t := Text.join_pieces t
        rw [hqs] at ht
        cases qs with
        | nil => exact hdot (by rw [← ht]; rfl)
        | cons q' qs => exact hdots _ (by rw [← ht]; rfl)
      rw [components, parts_eq_pieces habsolute hdot hdots, Text.pieces_cons_ne hslash hqs,
        List.filter_cons_of_pos (by simp [hidle])]
      exact List.cons_ne_nil _ _

theorem components_eq (p : Path) : p.components = headComponent p.parts.head ++ p.way.map componentOf := rfl

section Relative

variable (dir : Path) {names : List Text} {name : Text} (hnames : ∀ n ∈ names ++ [name], IsName n)

include hnames

theorem join_components : (dir.join (below (names ++ [name]))).components =
    dir.components ++ (names ++ [name]).map componentOf := by
  obtain ⟨front, -, hparts⟩ := exists_parts_join dir
  rw [components_eq, join_way hnames, (hparts (names ++ [name]) (by simp) hnames).1, components_eq, List.map_append,
    List.append_assoc]

/-- From a folder on, a path below it is what was joined. -/
theorem join_relativeTo :
    (dir.join (below (names ++ [name]))).relativeTo? dir = some (below (names ++ [name])) := by
  by_cases hdir : dir = []
  · subst hdir
    have htrimmed := @trimEnd_parts_join [] names name hnames
    rw [join_nil] at htrimmed
    rw [relativeTo?, join_nil, htrimmed, toPath_parts]
    rfl
  obtain ⟨front, hfront, hparts⟩ := exists_parts_join dir
  have hparts := (hparts (names ++ [name]) (by simp) hnames).1
  have hstart : dir.components.isPrefixOf (dir.join (below (names ++ [name]))).components = true := by
    rw [List.isPrefixOf_iff_prefix, join_components dir hnames]
    exact List.prefix_append _ _
  -- as many pieces are dropped as the folder has, and idle ones with them
  have hcount : dir.components.length - (headComponent (dir.join (below (names ++ [name]))).parts.head).length =
      (named front).length := by
    rw [components_eq, hparts, List.length_append, List.length_map, hfront]
    exact Nat.add_sub_cancel_left _ _
  obtain ⟨idles, hidles, hdrop⟩ := exists_dropNamed (names ++ [name]) front
  have hnamed : (names ++ [name]).dropWhile PathParts.isIdle = names ++ [name] := by
    cases hcons : names ++ [name] with
    | nil => simp at hcons
    | cons n ns =>
      have hn := (hnames n (hcons ▸ List.mem_cons_self)).isIdle
      rw [List.dropWhile_cons_of_neg (by simp [hn])]
  rw [relativeTo?, if_pos hstart, if_neg (by simpa using components_ne_nil hdir), hcount,
    trimEnd_parts_join hnames, hparts]
  dsimp only
  rw [hdrop, List.dropWhile_append_of_pos hidles, hnamed]
  rfl

end Relative

/-! ## Extensions -/

/-- A name with an extension is cut at its last dot. -/
theorem eq_of_cutName? {name stem ext : Text} (h : cutName? name = some (stem, ext)) :
    stem ≠ [] ∧ name = stem ++ '.' :: ext := by
  rw [cutName?] at h
  set taken := name.reverse.takeWhile (· != '.') with htaken
  have hsplit : name = (name.reverse.dropWhile (· != '.')).reverse ++ taken.reverse := by
    rw [← List.reverse_append, htaken, List.takeWhile_append_dropWhile, List.reverse_reverse]
  split at h
  · rename_i hlength
    obtain ⟨hstem, rfl⟩ := Prod.mk.inj (Option.some.inj h)
    -- without a dot all letters would be taken, and there would be no room for a stem
    cases hrest : name.reverse.dropWhile (· != '.') with
    | nil =>
      rw [hrest] at hsplit
      have hall : name.length = taken.reverse.length := congrArg List.length hsplit
      omega
    | cons d rest =>
      have hdot : d = '.' := by
        have hhead := List.head?_dropWhile_not (· != '.') name.reverse
        rw [hrest] at hhead
        simpa using hhead
      rw [hrest, hdot, List.reverse_cons, List.append_assoc, List.singleton_append] at hsplit
      have hcount : name.length - taken.reverse.length - 1 = rest.reverse.length := by
        have hall := congrArg List.length hsplit
        rw [List.length_append, List.length_cons] at hall
        omega
      have hfront : stem = rest.reverse := by
        rw [← hstem, hcount]
        conv => lhs; rw [hsplit]
        exact List.take_left
      refine ⟨?_, hfront ▸ hsplit⟩
      rintro rfl
      rw [← hfront] at hcount
      rw [List.length_nil] at hcount
      omega
  · cases h

theorem nameWithExtension_of_cutName? {name stem ext : Text} (h : cutName? name = some (stem, ext)) (ext' : Text) :
    nameWithExtension name ext' = stem ++ '.' :: ext' := by
  rw [nameWithExtension, h]
  exact List.append_assoc _ _ _

/-- A text before a dot and another one behind it make a name. -/
theorem isName_append {stem ext : Text} (hstem : stem ≠ []) (hext : ext ≠ []) (hstem_slash : '/' ∉ stem)
    (hext_slash : '/' ∉ ext) : IsName (stem ++ '.' :: ext) := by
  have hlength : 2 < (stem ++ '.' :: ext).length := by
    have hstem_pos := List.length_pos_iff.mpr hstem
    have hext_pos := List.length_pos_iff.mpr hext
    rw [List.length_append, List.length_cons]
    omega
  refine ⟨by simp, ?_, ?_, ?_⟩
  · simp only [List.mem_append, List.mem_cons, not_or]
    exact ⟨hstem_slash, by decide, hext_slash⟩
  · intro heq
    rw [heq] at hlength
    simp at hlength
  · intro heq
    rw [heq] at hlength
    simp at hlength

/-- A name with another extension begins with what stood before its own. -/
theorem exists_nameWithExtension {name : Text} (hname : IsName name) :
    ∃ stem, stem ≠ [] ∧ '/' ∉ stem ∧ ∀ ext, nameWithExtension name ext = stem ++ '.' :: ext := by
  cases hcut : cutName? name with
  | none =>
    refine ⟨name, hname.1, hname.2.1, fun ext => ?_⟩
    rw [nameWithExtension, hcut]
    exact List.append_assoc _ _ _
  | some cut =>
    obtain ⟨stem, ext⟩ := cut
    obtain ⟨hstem, hsplit⟩ := eq_of_cutName? hcut
    refine ⟨stem, hstem, fun hslash => hname.2.1 ?_, nameWithExtension_of_cutName? hcut⟩
    rw [hsplit]
    exact List.mem_append_left _ hslash

/-- A name keeps being one with another extension. -/
theorem isName_nameWithExtension {name ext : Text} (hname : IsName name) (hslash : '/' ∉ ext) (hne : ext ≠ []) :
    IsName (nameWithExtension name ext) := by
  obtain ⟨stem, hstem, hstem_slash, hwith⟩ := exists_nameWithExtension hname
  rw [hwith]
  exact isName_append hstem hne hstem_slash hslash

/-- A name is cut at its last dot. -/
theorem cutName?_append {stem ext : Text} (hstem : stem ≠ []) (hdot : '.' ∉ ext) :
    cutName? (stem ++ '.' :: ext) = some (stem, ext) := by
  have htaken : ((stem ++ '.' :: ext).reverse.takeWhile (· != '.')).reverse = ext := by
    rw [List.reverse_append, List.reverse_cons, List.append_assoc, List.takeWhile_append_of_pos, List.singleton_append,
      List.takeWhile_cons_of_neg (by decide), List.append_nil, List.reverse_reverse]
    intro c hc
    rw [bne_iff_ne]
    rintro rfl
    exact hdot (List.mem_reverse.mp hc)
  have hlength : (stem ++ '.' :: ext).length = stem.length + 1 + ext.length := by
    rw [List.length_append, List.length_cons]
    omega
  have hstem_pos := List.length_pos_iff.mpr hstem
  have hcount : stem.length + 1 + ext.length - ext.length - 1 = stem.length := by omega
  rw [cutName?, htaken, hlength, if_pos (by omega), hcount, List.take_left]

theorem cutName?_nameWithExtension {name ext : Text} (hname : IsName name) (hdot : '.' ∉ ext) :
    (cutName? (nameWithExtension name ext)).map Prod.snd = some ext := by
  obtain ⟨stem, hstem, -, hwith⟩ := exists_nameWithExtension hname
  rw [hwith, cutName?_append hstem hdot]
  rfl

theorem extension?_of_fileName? {p : Path} {name : Text} (h : p.fileName? = some name) :
    p.extension? = (cutName? name).map Prod.snd := by
  rw [extension?, h, Option.bind_some]

theorem join_extension {dir : Path} {names : List Text} {name : Text} (hnames : ∀ n ∈ names ++ [name], IsName n) :
    (dir.join (below (names ++ [name]))).extension? = (cutName? name).map Prod.snd :=
  extension?_of_fileName? (join_fileName hnames)

/-- A path with another extension leads the same way to another name. -/
theorem exists_way_withExtension {p : Path} (hp : p.isAbsolute = false) {name : Text} (h : p.fileName? = some name)
    {ext : Text} (hslash : '/' ∉ ext) (hne : ext ≠ []) :
    IsName name ∧ (p.withExtension ext).IsTidy ∧ (p.withExtension ext).route.toFolder = false ∧
      ∃ front, p.way = front ++ [name] ∧ (p.withExtension ext).way = front ++ [nameWithExtension name ext] := by
  have hlast : (p.parts.pieces.rdropWhile PathParts.isIdle).getLast? = some name ∧ name ≠ ['.', '.'] := by
    rw [fileName?] at h
    split at h
    · rename_i piece hpiece
      split at h
      · cases h
      · rename_i hup
        cases h
        exact ⟨hpiece, hup⟩
    · cases h
  obtain ⟨hlast, hup⟩ := hlast
  -- behind the name there are only pieces that do not count
  rcases rdropWhile_isIdle_eq p.parts.pieces with hnil | ⟨front, last, hconcat, hidle⟩
  · rw [hnil] at hlast
    cases hlast
  · obtain rfl : last = name := by
      rw [hconcat, List.getLast?_concat] at hlast
      exact Option.some.inj hlast
    have hrelative := (isRelative_parts hp).of_front (hconcat ▸ List.rdropWhile_prefix _ _)
    have hname : IsName last := by
      have hidle' := hidle
      rw [PathParts.isIdle, Bool.or_eq_false_iff] at hidle'
      exact ⟨by simpa using hidle'.1, hrelative.noSlash last (by simp), by simpa using hidle'.2, hup⟩
    have hnew := isName_nameWithExtension hname hslash hne
    have hrelative' := hrelative.concat hidle hnew.2.1
    -- the new path is written out of the same pieces with another last one
    have hwith : p.withExtension ext = PathParts.toPath ⟨p.parts.head, front ++ [nameWithExtension last ext]⟩ := by
      have htrimmed : p.parts.trimEnd = ⟨p.parts.head, front ++ [last]⟩ := by
        rw [← hconcat]
        rfl
      rw [withExtension, h]
      show PathParts.toPath ⟨p.parts.trimEnd.dropLast.head, p.parts.trimEnd.dropLast.pieces ++ _⟩ = _
      rw [htrimmed, PathParts.dropLast, List.dropLast_concat]
    rw [hwith]
    refine ⟨hname, isTidy_toPath hrelative' (.inr ⟨front, _, rfl, hnew.isIdle⟩),
      toFolder_toPath p.parts.head front hnew, named front, ?_, ?_⟩
    · rw [way, ← named_rdropWhile, hconcat, named_concat hidle]
    · rw [way_toPath hrelative', named_concat hnew.isIdle]

end Path

end GoDraft
