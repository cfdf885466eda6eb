import SourceComments.Path
import Mathlib.Data.List.Basic

/-! Spelled paths and their pieces.

A path and its pieces between slashes determine each other, and joining two paths puts
their pieces one after another. An empty piece or a dot in the middle has no component,
so joining adds the components of the right side to those of the left. -/

namespace SourceComments.Path

theorem intercalate_append {front back : List String} (some : front ≠ []) (more : back ≠ []) :
    "/".intercalate (front ++ back) = "/".intercalate front ++ "/" ++ "/".intercalate back := by
  rw [← String.toList_inj]
  induction front with
  | nil => exact absurd rfl some
  | cons first front ih =>
      by_cases only : front = []
      · subst only
        simp [List.intercalate_cons_of_ne_nil, more]
      · have later := ih only
        simp only [String.toList_append, String.toList_intercalate] at later ⊢
        rw [List.cons_append, List.map_cons, List.map_cons,
          List.intercalate_cons_of_ne_nil (by simp [only]),
          List.intercalate_cons_of_ne_nil (by simp [only]), later]
        simp

theorem pieces_ne_nil (path : Path) : path.pieces ≠ [] := by
  simp [pieces, List.splitOn_ne_nil]

theorem ofPieces_pieces (path : Path) : ofPieces path.pieces = path := by
  obtain ⟨text⟩ := path
  rw [ofPieces, mk.injEq, ← String.toList_inj, String.toList_intercalate]
  simp [pieces, List.intercalate_splitOn]

theorem pieces_ofPieces {pieces : List String} (some : pieces ≠ [])
    (plain : ∀ piece ∈ pieces, '/' ∉ piece.toList) : (ofPieces pieces).pieces = pieces := by
  rw [Path.pieces, ofPieces, String.toList_intercalate]
  have split : List.splitOn '/' ("/".toList.intercalate (pieces.map String.toList)) =
      pieces.map String.toList := by
    apply List.splitOn_intercalate
    · simpa using plain
    · simpa using some
  rw [split]
  simp

theorem pieces_append (left right : String) :
    (Path.mk (left ++ "/" ++ right)).pieces = (Path.mk left).pieces ++ (Path.mk right).pieces := by
  simp [pieces, List.splitOn_append_cons_self]

theorem pieces_of_not_mem {text : String} (plain : '/' ∉ text.toList) :
    (Path.mk text).pieces = [text] := by
  rw [pieces, List.splitOn_eq_singleton plain]
  simp

theorem relative_of_not_mem {text : String} (plain : '/' ∉ text.toList) :
    (Path.mk text).isAbsolute = false := by
  rw [isAbsolute, beq_eq_false_iff_ne]
  intro slash
  exact plain (List.mem_of_mem_head? slash)

/-- The pieces of a text have its characters but for the slashes. -/
theorem mem_of_mem_splitOn {text piece : List Char} (member : piece ∈ text.splitOn '/')
    {char : Char} (inside : char ∈ piece) : char ∈ text ∧ char ≠ '/' := by
  induction text generalizing piece with
  | nil => simp_all
  | cons first text ih =>
      rw [List.splitOn_cons_eq_if_modifyHead] at member
      by_cases slash : first = '/'
      · simp only [slash, beq_self_eq_true, if_true, List.mem_cons] at member
        rcases member with rfl | later
        · cases inside
        · exact (ih later inside).imp_left (List.mem_cons_of_mem first)
      · rw [if_neg (by simpa using slash)] at member
        rcases pieces : text.splitOn '/' with _ | ⟨head, others⟩
        · exact absurd pieces (List.splitOn_ne_nil '/' text)
        · rw [pieces] at member ih
          rcases List.mem_cons.mp member with rfl | later
          · rcases List.mem_cons.mp inside with rfl | deeper
            · exact ⟨List.mem_cons_self, slash⟩
            · exact (ih List.mem_cons_self deeper).imp_left (List.mem_cons_of_mem first)
          · exact (ih (List.mem_cons_of_mem _ later) inside).imp_left (List.mem_cons_of_mem first)

theorem mem_of_mem_pieces {path : Path} {piece : String} (member : piece ∈ path.pieces)
    {char : Char} (inside : char ∈ piece.toList) : char ∈ path.text.toList ∧ char ≠ '/' := by
  obtain ⟨chars, among, rfl⟩ := List.mem_map.mp member
  rw [String.toList_ofList] at inside
  exact mem_of_mem_splitOn among inside

theorem slash_not_mem {path : Path} {piece : String} (member : piece ∈ path.pieces) :
    '/' ∉ piece.toList := by
  intro slash
  exact (mem_of_mem_pieces member slash).2 rfl

/-- The pieces that a name joined to the path is put behind: a final empty piece, which
a final slash or an empty text leaves, gives way. -/
def stem (path : Path) : List String :=
  if path.pieces.getLast? = some "" then path.pieces.dropLast else path.pieces

theorem pieces_eq_stem (path : Path) :
    path.pieces = path.stem ∨ path.pieces = path.stem ++ [""] := by
  rw [stem]
  split
  · rename_i last
    obtain ⟨front, split⟩ := List.getLast?_eq_some_iff.mp last
    rw [split, List.dropLast_concat]
    exact .inr rfl
  · exact .inl rfl

theorem mem_pieces_of_mem_stem {path : Path} {piece : String} (member : piece ∈ path.stem) :
    piece ∈ path.pieces := by
  rcases path.pieces_eq_stem with same | more
  · rw [same]
    exact member
  · rw [more]
    exact List.mem_append_left _ member

theorem stem_empty : (Path.mk "").stem = [] := by
  decide

theorem getLast?_pieces_slash (text : String) :
    (Path.mk (text ++ "/")).pieces.getLast? = some "" := by
  have split := pieces_append text ""
  rw [String.append_empty] at split
  rw [split, List.getLast?_append]
  rfl

/-- Only an empty text or a slash at the end makes the last piece empty. -/
theorem text_of_getLast?_pieces {path : Path} (last : path.pieces.getLast? = some "") :
    path.text = "" ∨ ∃ front, path.text = front ++ "/" := by
  obtain ⟨front, split⟩ := List.getLast?_eq_some_iff.mp last
  have whole := ofPieces_pieces path
  rw [split, ofPieces] at whole
  cases front with
  | nil =>
      left
      rw [← whole]
      rfl
  | cons first front =>
      right
      refine ⟨"/".intercalate (first :: front), ?_⟩
      rw [← whole, intercalate_append (by simp) (by simp)]
      exact String.append_empty

theorem stem_slash (text : String) : (Path.mk (text ++ "/")).stem = (Path.mk text).pieces := by
  have split := pieces_append text ""
  rw [String.append_empty] at split
  rw [stem, if_pos (getLast?_pieces_slash text), split]
  exact List.dropLast_concat

theorem join_empty (rest : Path) : join ⟨""⟩ rest = rest := by
  rw [join]
  split <;> rfl

/-- How the parts are put together: behind a slash or an empty text nothing is added. -/
theorem join_cases (base : Path) {rest : Path} (relative : rest.isAbsolute = false) :
    (base.text = "" ∧ base.join rest = rest) ∨
      (∃ front, base.text = front ++ "/" ∧ base.join rest = ⟨front ++ "/" ++ rest.text⟩) ∨
      (base.stem = base.pieces ∧ base.text ≠ "" ∧
        base.join rest = ⟨base.text ++ "/" ++ rest.text⟩) := by
  rw [join, relative, if_neg Bool.false_ne_true]
  split
  · rename_i empty
    exact .inl ⟨empty, rfl⟩
  · rename_i some
    right
    split
    · rename_i slash
      left
      obtain ⟨front, text⟩ := String.endsWith_char_iff_exists_append.mp slash
      exact ⟨front, text, by rw [text]; rfl⟩
    · rename_i ordinary
      right
      refine ⟨?_, some, rfl⟩
      rw [stem, if_neg]
      intro empty
      rcases text_of_getLast?_pieces empty with blank | ⟨front, slash⟩
      · exact some blank
      · exact ordinary (String.endsWith_char_iff_exists_append.mpr ⟨front, slash⟩)

theorem pieces_join (base : Path) {rest : Path} (relative : rest.isAbsolute = false) :
    (base.join rest).pieces = base.stem ++ rest.pieces := by
  rcases join_cases base relative with ⟨empty, joined⟩ | ⟨front, slash, joined⟩ | ⟨stem, -, joined⟩
  · obtain rfl : base = ⟨""⟩ := congrArg mk empty
    rw [joined, stem_empty]
    rfl
  · obtain rfl : base = ⟨front ++ "/"⟩ := congrArg mk slash
    rw [joined, pieces_append, stem_slash]
  · rw [joined, pieces_append, stem]

theorem stem_join (base : Path) {rest : Path} (relative : rest.isAbsolute = false) :
    (base.join rest).stem = base.stem ++ rest.stem := by
  have more := rest.pieces_ne_nil
  rw [stem, pieces_join base relative, List.getLast?_append_of_ne_nil _ more]
  by_cases last : rest.pieces.getLast? = some ""
  · have cut : rest.stem = rest.pieces.dropLast := if_pos last
    rw [if_pos last, cut, List.dropLast_append_of_ne_nil more]
  · have whole : rest.stem = rest.pieces := if_neg last
    rw [if_neg last, whole]

theorem laterComponents_append (front back : List String) :
    laterComponents (front ++ back) = laterComponents front ++ laterComponents back := by
  induction front with
  | nil => rfl
  | cons piece front ih =>
      rw [List.cons_append, laterComponents, laterComponents]
      split
      · exact ih
      · split
        · exact congrArg (Component.up :: ·) ih
        · exact congrArg (Component.name piece :: ·) ih

theorem up_mem_laterComponents {pieces : List String} (up : .up ∈ laterComponents pieces) :
    ".." ∈ pieces := by
  induction pieces with
  | nil => cases up
  | cons piece pieces ih =>
      rw [laterComponents] at up
      split at up
      · exact List.mem_cons_of_mem piece (ih up)
      · split at up
        · rename_i here
          exact here ▸ List.mem_cons_self
        · exact List.mem_cons_of_mem piece (ih (by simpa using up))

theorem here_not_mem_laterComponents (pieces : List String) : .here ∉ laterComponents pieces := by
  induction pieces with
  | nil => exact List.not_mem_nil
  | cons piece pieces ih =>
      rw [laterComponents]
      split
      · exact ih
      · split <;> simpa using ih

theorem laterComponents_stem (path : Path) :
    laterComponents path.stem = laterComponents path.pieces := by
  rcases path.pieces_eq_stem with same | more
  · rw [same]
  · rw [more, laterComponents_append]
    exact (List.append_nil _).symm

/-- What a path starts with besides its names and the double dots. -/
def lead (path : Path) : List Component :=
  if path.isAbsolute then [.root] else if path.pieces.head? = some "." then [.here] else []

theorem components_eq (path : Path) :
    path.components = path.lead ++ laterComponents path.pieces := by
  rw [components, lead]
  split
  · rfl
  · split
    · rename_i rest split
      rw [split]
      rfl
    · rename_i other
      rw [if_neg]
      · rfl
      · intro dot
        obtain ⟨rest, split⟩ := List.head?_eq_some_iff.mp dot
        exact other rest split

theorem text_ne_empty {path : Path} (some : path.components ≠ []) : path.text ≠ "" := by
  intro empty
  obtain rfl : path = ⟨""⟩ := congrArg mk empty
  exact some rfl

theorem stem_ne_nil {path : Path} (some : path.text ≠ "") : path.stem ≠ [] := by
  rw [stem]
  split
  · rename_i last
    obtain ⟨front, split⟩ := List.getLast?_eq_some_iff.mp last
    rw [split, List.dropLast_concat]
    rintro rfl
    apply some
    rw [← ofPieces_pieces path, split]
    rfl
  · exact path.pieces_ne_nil

theorem stem_head? {path : Path} (some : path.text ≠ "") : path.stem.head? = path.pieces.head? := by
  have nonempty := stem_ne_nil some
  rw [stem] at nonempty ⊢
  split
  · rename_i last
    rw [if_pos last] at nonempty
    obtain ⟨front, split⟩ := List.getLast?_eq_some_iff.mp last
    rw [split, List.dropLast_concat] at nonempty ⊢
    rw [List.head?_append_of_ne_nil front nonempty]
  · rfl

theorem isAbsolute_of_begins {path longer : Path} (some : path.text ≠ "")
    (starts : path.text.toList <+: longer.text.toList) : longer.isAbsolute = path.isAbsolute := by
  obtain ⟨rest, split⟩ := starts
  have nonempty : path.text.toList ≠ [] := by simpa using some
  rw [isAbsolute, isAbsolute, ← split, List.head?_append_of_ne_nil _ nonempty]

theorem join_begins (base : Path) {rest : Path} (relative : rest.isAbsolute = false) :
    base.text.toList <+: (base.join rest).text.toList := by
  rcases join_cases base relative with ⟨empty, joined⟩ | ⟨front, slash, joined⟩ | ⟨-, -, joined⟩
  · simp [empty]
  · rw [joined, slash]
    exact ⟨rest.text.toList, String.toList_append.symm⟩
  · rw [joined]
    exact ⟨"/".toList ++ rest.text.toList, by simp⟩

theorem isAbsolute_join (base : Path) {rest : Path} (relative : rest.isAbsolute = false) :
    (base.join rest).isAbsolute = base.isAbsolute := by
  by_cases empty : base.text = ""
  · rcases join_cases base relative with ⟨-, joined⟩ | ⟨front, slash, -⟩ | ⟨-, some, -⟩
    · rw [joined, relative, isAbsolute, empty]
      rfl
    · simp [slash] at empty
    · exact absurd empty some
  · exact isAbsolute_of_begins empty (join_begins base relative)

/-- A join is as long as its parts, or longer by one slash. -/
theorem size_join (base : Path) {rest : Path} (relative : rest.isAbsolute = false) :
    base.text.utf8ByteSize + rest.text.utf8ByteSize ≤ (base.join rest).text.utf8ByteSize ∧
      (base.join rest).text.utf8ByteSize ≤
        base.text.utf8ByteSize + 1 + rest.text.utf8ByteSize := by
  have slashSize : "/".utf8ByteSize = 1 := by decide
  rcases join_cases base relative with ⟨empty, joined⟩ | ⟨front, slash, joined⟩ | ⟨-, -, joined⟩
  · rw [joined, empty]
    simp
  · rw [joined, slash]
    simp only [String.utf8ByteSize_append]
    omega
  · rw [joined]
    simp only [String.utf8ByteSize_append]
    omega

/-- The characters of a join are those of its parts and the slash. -/
theorem mem_join (base : Path) {rest : Path} (relative : rest.isAbsolute = false) {char : Char}
    (member : char ∈ (base.join rest).text.toList) :
    char ∈ base.text.toList ∨ char = '/' ∨ char ∈ rest.text.toList := by
  rcases join_cases base relative with ⟨empty, joined⟩ | ⟨front, slash, joined⟩ | ⟨-, -, joined⟩
  · rw [joined] at member
    exact .inr (.inr member)
  · rw [joined] at member
    rw [slash]
    simp only [String.toList_append, List.mem_append] at member ⊢
    exact member.imp_right .inr
  · rw [joined] at member
    simp only [String.toList_append, List.mem_append] at member
    rcases member with (inBase | inSlash) | inRest
    · exact .inl inBase
    · exact .inr (.inl (by simpa using inSlash))
    · exact .inr (.inr inRest)

theorem lead_join {base rest : Path} (some : base.text ≠ "") (relative : rest.isAbsolute = false) :
    (base.join rest).lead = base.lead := by
  have first : (base.join rest).pieces.head? = base.pieces.head? := by
    rw [pieces_join base relative, List.head?_append_of_ne_nil _ (stem_ne_nil some),
      stem_head? some]
  rw [lead, lead, isAbsolute_join base relative, first]

/-- Joining adds the components of the right side. -/
theorem components_join {base rest : Path} (some : base.text ≠ "")
    (relative : rest.isAbsolute = false) :
    (base.join rest).components = base.components ++ laterComponents rest.pieces := by
  rw [components_eq, components_eq, lead_join some relative, pieces_join base relative,
    laterComponents_append, laterComponents_stem, List.append_assoc]

/-- A text that can be the name of an entry. -/
structure IsName (text : String) : Prop where
  nonempty : text ≠ ""
  notHere : text ≠ "."
  notUp : text ≠ ".."
  plain : '/' ∉ text.toList

instance (text : String) : Decidable (IsName text) :=
  decidable_of_iff (text ≠ "" ∧ text ≠ "." ∧ text ≠ ".." ∧ '/' ∉ text.toList)
    ⟨fun ⟨nonempty, notHere, notUp, plain⟩ => ⟨nonempty, notHere, notUp, plain⟩,
      fun name => ⟨name.nonempty, name.notHere, name.notUp, name.plain⟩⟩

theorem IsName.relative {text : String} (name : IsName text) :
    (Path.mk text).isAbsolute = false :=
  relative_of_not_mem name.plain

theorem IsName.components {text : String} (name : IsName text) :
    laterComponents (Path.mk text).pieces = [.name text] := by
  rw [pieces_of_not_mem name.plain, laterComponents, if_neg (by simp [name.nonempty, name.notHere]),
    if_neg name.notUp]
  rfl

theorem join_ne_empty {base rest : Path} (some : base.text ≠ "")
    (relative : rest.isAbsolute = false) : (base.join rest).text ≠ "" := by
  intro empty
  have starts := join_begins base relative
  rw [empty] at starts
  exact some (by simpa using starts)

/-- Names below a path stand behind it as components. -/
theorem components_descend {base : Path} (some : base.text ≠ "") {names : List String}
    (proper : ∀ name ∈ names, IsName name) :
    (base.descend names).text ≠ "" ∧
      (base.descend names).components = base.components ++ names.map .name := by
  induction names generalizing base with
  | nil => exact ⟨some, (List.append_nil _).symm⟩
  | cons name names ih =>
      have here := proper name List.mem_cons_self
      have below := join_ne_empty some here.relative
      obtain ⟨nonempty, later⟩ := ih below fun other member =>
        proper other (List.mem_cons_of_mem name member)
      refine ⟨nonempty, ?_⟩
      rw [descend, List.foldl_cons, ← descend, later, components_join some here.relative,
        here.components, List.append_assoc]
      rfl

/-- The path is spelled as the base with names behind it. -/
def Below (base path : Path) : Prop :=
  ∃ names : List String, path.components = base.components ++ names.map .name

theorem Below.refl (base : Path) : Below base base :=
  ⟨[], (List.append_nil _).symm⟩

theorem Below.descend {base path : Path} (below : Below base path) (some : path.text ≠ "")
    {names : List String} (proper : ∀ name ∈ names, IsName name) :
    Below base (path.descend names) := by
  obtain ⟨first, spelled⟩ := below
  refine ⟨first ++ names, ?_⟩
  rw [(components_descend some proper).2, spelled, List.map_append, List.append_assoc]

/-- A path of names stands below every base it is joined to. -/
theorem components_join_names (base : Path) {rest : Path} {names : List String}
    (plain : rest.components = names.map .name) :
    (base.join rest).components = base.components ++ names.map .name := by
  have spelled := rest.components_eq
  rw [plain, lead] at spelled
  have relative : rest.isAbsolute = false := by
    rw [Bool.eq_false_iff]
    intro absolute
    rw [if_pos absolute] at spelled
    have root : .root ∈ names.map Component.name := spelled ▸ List.mem_cons_self
    simp at root
  by_cases empty : base.text = ""
  · obtain rfl : base = ⟨""⟩ := congrArg mk empty
    rw [join_empty, plain]
    rfl
  · rw [if_neg (by simp [relative])] at spelled
    split at spelled
    · have here : .here ∈ names.map Component.name := spelled ▸ List.mem_cons_self
      simp at here
    · rw [components_join empty relative, spelled]
      rfl

/-- A piece that changes nothing. -/
def Idle (piece : String) : Prop := piece = "" ∨ piece = "."

theorem laterComponents_idle {pieces : List String} (idle : ∀ piece ∈ pieces, Idle piece) :
    laterComponents pieces = [] := by
  induction pieces with
  | nil => rfl
  | cons piece pieces ih =>
      have here : piece = "" ∨ piece = "." := idle piece List.mem_cons_self
      rw [laterComponents, if_pos here]
      exact ih fun other member => idle other (List.mem_cons_of_mem piece member)

/-- A dot that starts the path is kept. -/
theorem getLast?_of_trimEnd {pieces : List String} (none : trimEnd pieces = []) :
    pieces.getLast? ≠ some "." := by
  induction pieces with
  | nil => simp
  | cons piece earlier ih =>
      rw [trimEnd] at none
      split at none
      · rename_i idle
        cases earlier with
        | nil =>
            obtain rfl : piece = "" := by simpa using idle
            decide
        | cons next earlier =>
            rw [List.getLast?_cons_cons]
            exact ih none
      · cases none

theorem trimEnd_split (pieces : List String) :
    ∃ dropped, pieces = dropped ++ trimEnd pieces ∧ (∀ piece ∈ dropped, Idle piece) ∧
      ∀ last earlier, trimEnd pieces = last :: earlier →
        last ≠ "" ∧ (last = "." → earlier = []) := by
  induction pieces with
  | nil => exact ⟨[], rfl, by simp, by simp [trimEnd]⟩
  | cons piece earlier ih =>
      rw [trimEnd]
      split
      · rename_i idle
        obtain ⟨dropped, split, silent, kept⟩ := ih
        refine ⟨piece :: dropped, congrArg (piece :: ·) split, ?_, kept⟩
        intro other member
        rcases List.mem_cons.mp member with rfl | later
        · exact idle.imp_right And.left
        · exact silent other later
      · rename_i kept
        rw [not_or, not_and, not_not] at kept
        refine ⟨[], rfl, by simp, ?_⟩
        intro last others same
        obtain ⟨rfl, rfl⟩ := List.cons.inj same
        exact kept

theorem stem_ofPieces {pieces : List String} {last : String}
    (plain : ∀ piece ∈ pieces, '/' ∉ piece.toList) (ends : pieces.getLast? = some last)
    (kept : last ≠ "") : (ofPieces pieces).stem = pieces := by
  have nonempty : pieces ≠ [] := by
    rintro rfl
    simp at ends
  rw [stem, pieces_ofPieces nonempty plain, ends, if_neg (by simpa using kept)]

theorem head?_pieces_of_absolute {path : Path} (absolute : path.isAbsolute = true) :
    path.pieces.head? = some "" := by
  rw [isAbsolute, beq_iff_eq] at absolute
  obtain ⟨rest, split⟩ := List.head?_eq_some_iff.mp absolute
  rw [pieces, split, List.splitOn_cons_eq_if_modifyHead]
  simp

theorem stem_of_absolute {path : Path} (absolute : path.isAbsolute = true) :
    path.stem = "" :: path.stem.tail := by
  have text : path.text ≠ "" := by
    intro empty
    simp [isAbsolute, empty] at absolute
  have first := (stem_head? text).trans (head?_pieces_of_absolute absolute)
  obtain ⟨rest, split⟩ := List.head?_eq_some_iff.mp first
  rw [split]
  rfl

theorem text_eq_append {path : Path} {front back : List String}
    (whole : path.pieces = front ++ back) (some : front ≠ []) (more : back ≠ []) :
    path.text = (ofPieces front).text ++ "/" ++ (ofPieces back).text := by
  rw [← ofPieces_pieces path, whole]
  exact intercalate_append some more

theorem ofPieces_ne_empty {pieces : List String} {piece : String}
    (plain : ∀ piece ∈ pieces, '/' ∉ piece.toList) (member : piece ∈ pieces)
    (kept : piece ≠ "") : (ofPieces pieces).text ≠ "" := by
  intro empty
  have whole := pieces_ofPieces (List.ne_nil_of_mem member) plain
  rw [Path.pieces, empty] at whole
  rw [← whole] at member
  exact kept (by simpa using member)

/-- The last component is dropped with the idle pieces around it, and what is left is the
parent, unless nothing is left. -/
theorem parent?_trimmed {path parent : Path} (above : path.parent? = some parent) :
    ∃ front gap last after, path.pieces = front ++ gap ++ last :: after ∧
      (∀ piece ∈ gap ++ after, Idle piece) ∧ last ≠ "" ∧ (last = "." → front ++ gap = []) ∧
      ((front = [] ∧ gap.head? ≠ some "." ∧ parent = if path.isAbsolute then ⟨"/"⟩ else ⟨""⟩) ∨
        ∃ final, front.getLast? = some final ∧ final ≠ "" ∧ parent = ofPieces front) := by
  obtain ⟨after, split, afterIdle, shape⟩ := trimEnd_split path.pieces.reverse
  rw [parent?] at above
  cases trimmed : trimEnd path.pieces.reverse with
  | nil => simp [trimmed] at above
  | cons last earlier =>
      obtain ⟨kept, alone⟩ := shape last earlier trimmed
      obtain ⟨gap, splitEarlier, gapIdle, shapeEarlier⟩ := trimEnd_split earlier
      have inner : earlier.reverse = (trimEnd earlier).reverse ++ gap.reverse := by
        rw [← List.reverse_append, ← splitEarlier]
      have whole : path.pieces = earlier.reverse ++ last :: after.reverse := by
        rw [← List.reverse_reverse path.pieces, split, trimmed]
        simp
      rw [inner] at whole
      refine ⟨(trimEnd earlier).reverse, gap.reverse, last, after.reverse, whole, ?_, kept, ?_, ?_⟩
      · intro piece member
        simp only [List.mem_append, List.mem_reverse] at member
        rcases member with inGap | inAfter
        · exact gapIdle piece inGap
        · exact afterIdle piece inAfter
      · intro dot
        rw [← inner, alone dot]
        rfl
      · simp only [trimmed] at above
        cases rest : trimEnd earlier with
        | nil =>
            simp only [rest, Option.some.injEq] at above
            rw [rest, List.append_nil] at splitEarlier
            refine .inl ⟨rfl, ?_, above.symm⟩
            rw [List.head?_reverse, ← splitEarlier]
            exact getLast?_of_trimEnd rest
        | cons final more =>
            simp only [rest, Option.some.injEq] at above
            exact .inr ⟨final, by simp, (shapeEarlier final more rest).1, above.symm⟩

/-- Where the parent stands in a path. A dot that starts the path does not stand behind an
empty parent. -/
theorem parent?_split {path parent : Path} (above : path.parent? = some parent) :
    parent.isAbsolute = path.isAbsolute ∧ ∃ gap last after,
      path.pieces = parent.stem ++ gap ++ last :: after ∧ (∀ piece ∈ gap ++ after, Idle piece) ∧
        last ≠ "" ∧ (last = "." → parent.stem ++ gap = []) ∧
        (parent.stem = [] → gap.head? ≠ some ".") := by
  obtain ⟨front, gap, last, after, whole, idle, kept, alone, shape⟩ := parent?_trimmed above
  rcases shape with ⟨rfl, dotless, rfl⟩ | ⟨final, ends, named, rfl⟩
  · by_cases absolute : path.isAbsolute = true
    · have start := head?_pieces_of_absolute absolute
      rw [whole] at start
      -- The first piece of an absolute path is empty, so it is one of those in the gap.
      cases gap with
      | nil => exact absurd (by simpa using start) kept
      | cons first gap =>
          obtain rfl : first = "" := by simpa using start
          rw [if_pos absolute]
          refine ⟨absolute.symm, gap, last, after, whole, ?_, kept, ?_, ?_⟩
          · intro piece member
            exact idle piece (List.mem_cons_of_mem _ member)
          · intro dot
            exact absurd (alone dot) (by simp)
          · intro none
            exact absurd none (by decide)
    · rw [if_neg absolute]
      exact ⟨(Bool.eq_false_iff.mpr absolute).symm, gap, last, after, whole, idle, kept, alone,
        fun _ => dotless⟩
  · have plain : ∀ piece ∈ front, '/' ∉ piece.toList := by
      intro piece member
      apply @slash_not_mem path
      rw [whole]
      exact List.mem_append_left _ (List.mem_append_left _ member)
    have some := ofPieces_ne_empty plain (List.mem_of_getLast? ends) named
    have text := text_eq_append (whole.trans (List.append_assoc front gap (last :: after)))
      (List.ne_nil_of_mem (List.mem_of_getLast? ends)) (by simp)
    have starts : (ofPieces front).text.toList <+: path.text.toList := by
      rw [text, String.append_assoc, String.toList_append]
      exact List.prefix_append _ _
    have stem := stem_ofPieces plain ends named
    have nonempty : (ofPieces front).stem ≠ [] := by
      rw [stem]
      exact List.ne_nil_of_mem (List.mem_of_getLast? ends)
    rw [← stem] at whole alone
    exact ⟨(isAbsolute_of_begins some starts).symm, gap, last, after, whole, idle, kept, alone,
      fun none => absurd none nonempty⟩

theorem text_eq_stem {path : Path} (some : path.text ≠ "") :
    path.text = (ofPieces path.stem).text ∨ path.text = (ofPieces path.stem).text ++ "/" := by
  have nonempty := stem_ne_nil some
  rw [stem] at nonempty ⊢
  split
  · rename_i last
    rw [if_pos last] at nonempty
    obtain ⟨front, split⟩ := List.getLast?_eq_some_iff.mp last
    rw [split, List.dropLast_concat] at nonempty ⊢
    right
    rw [text_eq_append split nonempty (by simp)]
    exact String.append_empty
  · left
    rw [ofPieces_pieces]

/-- A parent is a proper beginning of the text. -/
theorem parent?_begins {path parent : Path} (above : path.parent? = some parent) :
    ∃ rest, rest ≠ "" ∧ path.text = parent.text ++ rest := by
  obtain ⟨-, gap, last, after, whole, -, kept, -, -⟩ := parent?_split above
  have member : last ∈ path.pieces := by
    rw [whole]
    simp
  by_cases empty : parent.text = ""
  · refine ⟨path.text, ?_, by rw [empty, String.empty_append]⟩
    rw [← ofPieces_pieces path]
    exact ofPieces_ne_empty (fun _ => slash_not_mem) member kept
  · have text := text_eq_append (whole.trans (List.append_assoc parent.stem gap (last :: after)))
      (stem_ne_nil empty) (by simp)
    rcases text_eq_stem empty with same | slash
    · refine ⟨"/" ++ (ofPieces (gap ++ last :: after)).text, ?_, ?_⟩
      · simp
      · rw [text, same, String.append_assoc]
    · refine ⟨(ofPieces (gap ++ last :: after)).text, ?_, by rw [slash, text]⟩
      apply ofPieces_ne_empty _ (List.mem_append_right gap List.mem_cons_self) kept
      intro piece inside
      apply @slash_not_mem path
      rw [whole, List.append_assoc]
      exact List.mem_append_right _ inside

/-- A parent goes up only where its path does. -/
theorem up_of_parent {path parent : Path} (above : path.parent? = some parent)
    (up : ".." ∈ parent.pieces) : ".." ∈ path.pieces := by
  obtain ⟨-, gap, last, after, whole, -, -, -, -⟩ := parent?_split above
  have stem : ".." ∈ parent.stem := by
    rcases parent.pieces_eq_stem with same | longer
    · rwa [same] at up
    · simpa [longer] using up
  simp [whole, stem]

theorem parent?_length {path parent : Path} (above : path.parent? = some parent) :
    parent.text.length < path.text.length := by
  obtain ⟨rest, more, split⟩ := parent?_begins above
  have positive : 0 < rest.length := by
    rw [← String.length_toList, List.length_pos_iff]
    simpa using more
  rw [split, String.length_append]
  omega

theorem trimEnd_of_parent?_eq_none {path : Path} (top : path.parent? = none) :
    trimEnd path.pieces.reverse = [] := by
  rw [parent?] at top
  cases trimmed : trimEnd path.pieces.reverse with
  | nil => rfl
  | cons last earlier =>
      simp only [trimmed] at top
      split at top <;> cases top

theorem idle_of_parent?_eq_none {path : Path} (top : path.parent? = none) :
    ∀ piece ∈ path.pieces, Idle piece := by
  obtain ⟨dropped, split, idle, -⟩ := trimEnd_split path.pieces.reverse
  rw [trimEnd_of_parent?_eq_none top, List.append_nil] at split
  intro piece member
  apply idle
  rw [← split]
  exact List.mem_reverse.mpr member

theorem fileName?_of_components {path : Path} {front : List Component} {name : String}
    (ends : laterComponents path.pieces = front ++ [.name name]) : path.fileName? = some name := by
  rw [fileName?, components_eq, ends, ← List.append_assoc, List.getLast?_concat]

theorem IsName.fileName?_join {name : String} (proper : IsName name) (base : Path) :
    (base.join ⟨name⟩).fileName? = some name := by
  apply fileName?_of_components
  rw [pieces_join base proper.relative, laterComponents_append, proper.components]

end SourceComments.Path
