import SourceComments.Glob.Expand
import SourceComments.Proofs.FileTree

/-! How patterns spell the paths they name.

The plain stages of a pattern stand in the paths it names as they stand in the pattern, and
every other stage adds names. Only the current directory is not spelled out, so a pattern
under a base that starts with a dot names paths that do not start with that base. -/

namespace SourceComments.Glob

/-- A character that does not stand for itself in a pattern. -/
def isSpecial (char : Char) : Bool := char == '?' || char == '*' || char == '['

section

variable {fuel position : Nat} {opens : Bool} {char : Char} {text : List Char}
  {found : List Token}

theorem tokensFrom_clear_cons (clear : isSpecial char = false) :
    tokensFrom (fuel + 1) position opens (char :: text) =
      (tokensFrom fuel (position + 1) (char == '/') text).map (.char char :: ·) := by
  simp only [isSpecial, Bool.or_eq_false_iff, beq_eq_false_iff_ne] at clear
  rw [tokensFrom]
  all_goals simp [clear]

theorem plainText?_of_map {token : Token} (odd : ∀ char, token ≠ .char char)
    {read : Except PatternFault (List Token)} (mapped : read.map (token :: ·) = .ok found) :
    plainText? found = none := by
  cases read with
  | error fault => cases mapped
  | ok later =>
      obtain rfl : token :: later = found := Except.ok.inj mapped
      cases token with
      | char char => exact absurd rfl (odd char)
      | _ => rfl

theorem tokensFrom_special (special : isSpecial char = true)
    (read : tokensFrom (fuel + 1) position opens (char :: text) = .ok found) :
    plainText? found = none := by
  rw [tokensFrom.eq_def] at read
  dsimp only at read
  split at read
  · rename_i impossible
    cases impossible
  · exact plainText?_of_map (by simp) read
  · cases read
  · split at read
    · split at read
      · obtain rfl := Except.ok.inj read
        rfl
      · exact plainText?_of_map (by simp) read
      · cases read
    · cases read
  · exact plainText?_of_map (by simp) read
  · split at read
    · cases read
    · exact plainText?_of_map (by simp) read
  · split at read
    · cases read
    · exact plainText?_of_map (by simp) read
  · rename_i noQuestion _ _ noStar _ noBracket same
    obtain ⟨rfl, rfl⟩ := List.cons.inj same
    simp only [isSpecial, Bool.or_eq_true, beq_iff_eq] at special
    rcases special with (question | star) | bracket
    · exact absurd question noQuestion
    · exact absurd star noStar
    · exact absurd bracket noBracket

theorem plainText?_chars (text : List Char) : plainText? (text.map .char) = some text := by
  induction text with
  | nil => rfl
  | cons char text ih =>
      rw [List.map_cons, plainText?, ih]
      rfl

/-- Text without special characters is read as it stands. -/
theorem tokensFrom_clear (clear : ∀ char ∈ text, isSpecial char = false) :
    tokensFrom text.length position opens text = .ok (text.map .char) := by
  induction text generalizing position opens with
  | nil => rfl
  | cons char text ih =>
      have here := clear char List.mem_cons_self
      have later := fun other member => clear other (List.mem_cons_of_mem char member)
      rw [List.length_cons, tokensFrom_clear_cons here, ih later]
      rfl

/-- Only such text is read as plain characters. -/
theorem tokensFrom_plain {plain : List Char}
    (read : tokensFrom text.length position opens text = .ok found)
    (all : plainText? found = some plain) : plain = text := by
  induction text generalizing position opens found plain with
  | nil =>
      obtain rfl : [] = found := Except.ok.inj read
      exact (Option.some.inj all).symm
  | cons char text ih =>
      cases special : isSpecial char with
      | true =>
          rw [tokensFrom_special special read] at all
          cases all
      | false =>
          rw [List.length_cons, tokensFrom_clear_cons special] at read
          cases later : tokensFrom text.length (position + 1) (char == '/') text with
          | error fault => simp [later, Except.map] at read
          | ok others =>
              obtain rfl : .char char :: others = found := by simpa [later, Except.map] using read
              obtain ⟨rest, same, rfl⟩ := Option.map_eq_some_iff.mp all
              rw [ih later same]

end

theorem ofTokens_chars (text : String) :
    Stage.ofTokens (text.toList.map .char) = .plain text := by
  rw [Stage.ofTokens, plainText?_chars]
  exact congrArg Stage.plain String.ofList_toList

theorem ofTokens_plain {piece text : String} {read : List Token}
    (found : tokens piece.toList = .ok read) (plain : Stage.ofTokens read = .plain text) :
    text = piece := by
  rw [Stage.ofTokens] at plain
  split at plain
  · rename_i chars all
    rw [tokensFrom_plain found all] at plain
    exact (Stage.plain.inj plain).symm.trans String.ofList_toList
  · split at plain <;> cases plain

/-- The stages of a path are read from its pieces; a final empty piece is none. -/
theorem stageTexts_eq (path : Path) :
    stageTexts path.text.toList = path.stem.map String.toList := by
  have pieces : path.text.toList.splitOn '/' = path.pieces.map String.toList := by
    simp [Path.pieces, Function.comp_def]
  rw [stageTexts, pieces, Path.stem]
  by_cases last : path.pieces.getLast? = some ""
  · rw [if_pos last, if_pos (by rw [List.getLast?_map, last]; rfl), List.map_dropLast]
  · rw [if_neg last, if_neg]
    intro empty
    rw [List.getLast?_map, Option.map_eq_some_iff] at empty
    obtain ⟨piece, ends, blank⟩ := empty
    exact last (ends.trans (congrArg some (by simpa using blank)))

theorem collapse_plain (texts : List String) (rest : List Stage) :
    collapse (texts.map .plain ++ rest) = texts.map .plain ++ collapse rest := by
  induction texts with
  | nil => rfl
  | cons text texts ih =>
      rw [List.map_cons, List.cons_append, collapse, ih]
      · rfl
      · intro later impossible
        cases impossible

theorem mem_collapse {stage : Stage} {stages : List Stage} (member : stage ∈ collapse stages) :
    stage ∈ stages := by
  induction stages with
  | nil => cases member
  | cons first stages ih =>
      rw [collapse.eq_def] at member
      dsimp only at member
      split at member
      · rename_i later same
        rw [same] at ih
        exact List.mem_cons_of_mem _ (ih member)
      · rcases List.mem_cons.mp member with rfl | later
        · exact List.mem_cons_self
        · exact List.mem_cons_of_mem _ (ih later)

theorem mapM_tokens_clear {texts : List String}
    (clear : ∀ text ∈ texts, ∀ char ∈ text.toList, isSpecial char = false) :
    (texts.map String.toList).mapM tokens = .ok (texts.map fun text => text.toList.map .char) := by
  induction texts with
  | nil => rfl
  | cons text texts ih =>
      have here : tokens text.toList = .ok (text.toList.map .char) :=
        tokensFrom_clear (clear text List.mem_cons_self)
      have later := ih fun other member => clear other (List.mem_cons_of_mem text member)
      rw [List.map_cons, List.mapM_cons, here, later]
      rfl

theorem mem_mapM_tokens {texts : List (List Char)} {found : List (List Token)}
    (read : texts.mapM tokens = .ok found) {one : List Token} (member : one ∈ found) :
    ∃ text ∈ texts, tokens text = .ok one := by
  induction texts generalizing found with
  | nil =>
      obtain rfl : [] = found := Except.ok.inj read
      cases member
  | cons text texts ih =>
      rw [List.mapM_cons] at read
      cases here : tokens text with
      | error fault => simp [here, bind, Except.bind] at read
      | ok first =>
          cases later : texts.mapM tokens with
          | error fault => simp [here, later, bind, Except.bind] at read
          | ok others =>
              obtain rfl : first :: others = found := by
                simpa [here, later, bind, Except.bind, pure, Except.pure] using read
              rcases List.mem_cons.mp member with rfl | inside
              · exact ⟨text, List.mem_cons_self, here⟩
              · obtain ⟨other, among, same⟩ := ih later inside
                exact ⟨other, List.mem_cons_of_mem text among, same⟩

/-- Under a base without special characters a pattern first follows the base. -/
theorem stages_join {base entry : Path} (clear : ∀ char ∈ base.text.toList, isSpecial char = false)
    (relative : entry.isAbsolute = false) {found : List Stage}
    (read : stages (base.join entry).text.toList = .ok found) :
    ∃ later, found = base.stem.map .plain ++ later ∧ ∀ stage ∈ later, ∃ piece ∈ entry.stem,
      ∃ one, tokens piece.toList = .ok one ∧ Stage.ofTokens one = stage := by
  have stemClear : ∀ text ∈ base.stem, ∀ char ∈ text.toList, isSpecial char = false := by
    intro text member char inside
    exact clear char (Path.mem_of_mem_pieces (Path.mem_pieces_of_mem_stem member) inside).1
  cases whole : tokens (base.join entry).text.toList with
  | error fault => simp [stages, whole, bind, Except.bind] at read
  | ok checked =>
      rw [stages, whole, stageTexts_eq, Path.stem_join base relative, List.map_append,
        List.mapM_append, mapM_tokens_clear stemClear] at read
      cases parts : (entry.stem.map String.toList).mapM tokens with
      | error fault => simp [parts, bind, Except.bind] at read
      | ok others =>
          have shape : found = collapse ((base.stem.map fun text => text.toList.map .char).map
              Stage.ofTokens ++ others.map Stage.ofTokens) := by
            simpa [parts, bind, Except.bind, pure, Except.pure, eq_comm] using read
          have front : (base.stem.map fun text => text.toList.map .char).map Stage.ofTokens =
              base.stem.map .plain := by
            simp [ofTokens_chars]
          rw [front, collapse_plain] at shape
          refine ⟨_, shape, ?_⟩
          intro stage member
          obtain ⟨one, inside, same⟩ := List.mem_map.mp (mem_collapse member)
          obtain ⟨text, among, result⟩ := mem_mapM_tokens parts inside
          obtain ⟨piece, kept, rfl⟩ := List.mem_map.mp among
          exact ⟨piece, kept, one, result, same⟩

/-- The components that a pattern spells out of a path: none for the current directory. -/
def trail (path : Path) : List Component := if isHere path then [] else path.components

theorem isHere_iff {path : Path} : isHere path = true ↔ path.components = [.here] := beq_iff_eq

theorem trail_here : trail Path.here = [] := by
  decide +kernel

theorem trail_root : trail ⟨"/"⟩ = [.root] := by
  decide +kernel

theorem trail_of_components {path : Path} {front back : List Component}
    (spelled : path.components = front ++ back) (other : front ≠ [.here]) (later : .here ∉ back) :
    trail path = front ++ back := by
  rw [trail, if_neg, spelled]
  rw [isHere_iff, spelled]
  intro whole
  rcases List.append_eq_singleton_iff.mp whole with ⟨-, only⟩ | ⟨only, -⟩
  · rw [only] at later
    exact later List.mem_cons_self
  · exact other only

theorem components_of_trail {path : Path} (some : trail path ≠ []) :
    path.components = trail path ∧ path.components ≠ [.here] := by
  rw [trail] at some ⊢
  split at some
  · exact absurd rfl some
  · rename_i other
    exact ⟨(if_neg other).symm, mt isHere_iff.mpr other⟩

theorem trail_text {text : String} (plain : '/' ∉ text.toList) :
    trail ⟨text⟩ = Path.laterComponents [text] := by
  have pieces := Path.pieces_of_not_mem plain
  by_cases dot : text = "."
  · subst dot
    rfl
  · have spelled : (Path.mk text).components = [] ++ Path.laterComponents [text] := by
      rw [Path.components_eq, Path.lead, Path.relative_of_not_mem plain, pieces]
      simp [dot]
    exact trail_of_components spelled (by simp) (Path.here_not_mem_laterComponents _)

/-- Extending a path adds the component of the text. -/
theorem trail_extend (path : Path) {text : String} (plain : '/' ∉ text.toList) :
    trail (extend path text) = trail path ++ Path.laterComponents [text] := by
  have relative := Path.relative_of_not_mem plain
  rw [extend]
  by_cases here : isHere path = true
  · rw [if_pos here, trail_text plain, trail, if_pos here]
    rfl
  · rw [if_neg here]
    by_cases empty : path.text = ""
    · obtain rfl : path = ⟨""⟩ := congrArg Path.mk empty
      rw [Path.join_empty, trail_text plain]
      rfl
    · have spelled := Path.components_join empty relative
      rw [Path.pieces_of_not_mem plain] at spelled
      rw [trail_of_components spelled (mt isHere_iff.mpr here)
        (Path.here_not_mem_laterComponents _), trail, if_neg here]

theorem trail_join_here (path : Path) : trail (path.join Path.here) = trail path := by
  by_cases empty : path.text = ""
  · obtain rfl : path = ⟨""⟩ := congrArg Path.mk empty
    rw [Path.join_empty]
    rfl
  · have spelled := Path.components_join empty (show Path.here.isAbsolute = false from rfl)
    rw [show Path.laterComponents Path.here.pieces = [] from rfl, List.append_nil] at spelled
    rw [trail, trail, isHere, isHere, Path.equivalent, Path.equivalent, spelled]

theorem trail_descend {path : Path} (some : trail path ≠ []) {names : List String}
    (proper : ∀ name ∈ names, Path.IsName name) :
    trail (path.descend names) = trail path ++ names.map .name := by
  obtain ⟨spelled, other⟩ := components_of_trail some
  have text := Path.text_ne_empty (spelled.trans_ne some)
  have below := (Path.components_descend text proper).2
  rw [trail_of_components below other (by simp), spelled]

theorem extendAll_single (path : Path) (name : String) :
    extendAll path [name] = extend path name := rfl

theorem trail_extend_name (path : Path) {name : String} (proper : Path.IsName name) :
    trail (extend path name) = trail path ++ [.name name] := by
  rw [trail_extend path proper.plain, ← Path.pieces_of_not_mem proper.plain, proper.components]

theorem trail_extendAll (path : Path) {names : List String} (some : names ≠ [])
    (proper : ∀ name ∈ names, Path.IsName name) :
    trail (extendAll path names) = trail path ++ names.map .name := by
  cases names with
  | nil => exact absurd rfl some
  | cons name names =>
      have first := trail_extend_name path (proper name List.mem_cons_self)
      have more : trail (extend path name) ≠ [] := by simp [first]
      rw [extendAll, trail_descend more fun other member =>
        proper other (List.mem_cons_of_mem name member), first, List.append_assoc]
      rfl

/-- What one stage can lead to from a path. -/
inductive Moves (tree : FileTree) : Stage → Path → Path → Prop
  | plain {text : String} {path : Path} : Moves tree (.plain text) path (extend path text)
  | child {tokens : List Token} {path : Path} {name : String} {entry : Entry}
      (present : (name, entry) ∈ children tree path) :
      Moves tree (.names tokens) path (extend path name)
  | dot {tokens : List Token} {path : Path} {name : String} (listed : name ∈ dotNames tokens) :
      Moves tree (.names tokens) path (path.join ⟨name⟩)
  | deep {path : Path} {names : List String} {entry : Entry}
      (present : (names, entry) ∈ belowPath tree path) :
      Moves tree .directories path (extendAll path names)

/-- The first stage of a pattern moves on, and a double star takes the next stage along. -/
theorem mem_expandFrom_cons {tree : FileTree} {stage : Stage} {rest : List Stage}
    {path found : Path} (member : found ∈ expandFrom tree (stage :: rest) path) :
    ∃ next later, Moves tree stage path next ∧ later <:+ rest ∧
      found ∈ expandFrom tree later next := by
  cases stage with
  | plain text =>
      rw [expandFrom] at member
      exact ⟨_, rest, .plain, List.suffix_refl rest, (List.mem_ite_nil_right.mp member).2⟩
  | names tokens =>
      rw [expandFrom] at member
      obtain ⟨next, reached, later⟩ := List.mem_flatMap.mp member
      refine ⟨next, rest, ?_, List.suffix_refl rest, later⟩
      rcases List.mem_append.mp reached with child | dot
      · obtain ⟨⟨name, entry⟩, present, kept⟩ := List.mem_filterMap.mp child
        obtain ⟨-, same⟩ := Option.ite_none_right_eq_some.mp kept
        obtain rfl := Option.some.inj same
        exact .child present
      · obtain ⟨name, inside, rfl⟩ := List.mem_map.mp dot
        exact .dot (List.mem_ite_nil_right.mp inside).2
  | directories =>
      cases rest with
      | nil =>
          rw [expandFrom] at member
          obtain ⟨⟨names, entry⟩, present, kept⟩ := List.mem_filterMap.mp member
          obtain ⟨-, same⟩ := Option.ite_none_right_eq_some.mp kept
          obtain rfl := Option.some.inj same
          exact ⟨_, [], .deep present, List.suffix_refl [], List.mem_singleton_self _⟩
      | cons stage rest =>
          rw [expandFrom] at member
          obtain ⟨next, reached, later⟩ := List.mem_flatMap.mp member
          refine ⟨next, rest, ?_, List.suffix_cons stage rest, later⟩
          obtain ⟨⟨names, entry⟩, present, kept⟩ := List.mem_filterMap.mp reached
          dsimp only at kept
          split at kept
          · obtain ⟨-, same⟩ := Option.ite_none_right_eq_some.mp kept
            obtain rfl := Option.some.inj same
            exact .deep present
          · cases kept

/-- What every move of a pattern preserves holds of all paths it leads to. -/
theorem expandFrom_induct {tree : FileTree} {holds : Path → Prop} {stages : List Stage}
    {path found : Path} (member : found ∈ expandFrom tree stages path) (starts : holds path)
    (moves : ∀ stage ∈ stages, ∀ path next, Moves tree stage path next → holds path → holds next) :
    holds found := by
  -- A double star takes two stages at once, so the induction is on the number of stages.
  induction size : stages.length using Nat.strongRecOn generalizing stages path with
  | ind size ih =>
      subst size
      cases stages with
      | nil =>
          obtain rfl : found = path := List.mem_singleton.mp member
          exact starts
      | cons stage rest =>
          obtain ⟨next, later, moved, ends, reached⟩ := mem_expandFrom_cons member
          apply ih later.length (Nat.lt_succ_of_le ends.length_le) reached
          · exact moves stage List.mem_cons_self path next moved starts
          · intro other inside
            exact moves other (List.mem_cons_of_mem stage (ends.subset inside))
          · rfl

/-- Plain stages are followed as they stand. -/
theorem mem_expandFrom_plain {tree : FileTree} {texts : List String} {rest : List Stage}
    {path found : Path} (member : found ∈ expandFrom tree (texts.map .plain ++ rest) path) :
    found ∈ expandFrom tree rest (texts.foldl extend path) := by
  induction texts generalizing path with
  | nil => exact member
  | cons text texts ih =>
      rw [List.map_cons, List.cons_append, expandFrom] at member
      exact ih (List.mem_ite_nil_right.mp member).2

theorem trail_foldl_extend (path : Path) {texts : List String}
    (plain : ∀ text ∈ texts, '/' ∉ text.toList) :
    trail (texts.foldl extend path) = trail path ++ Path.laterComponents texts := by
  induction texts generalizing path with
  | nil => exact (List.append_nil _).symm
  | cons text texts ih =>
      have later := ih (extend path text) fun other inside =>
        plain other (List.mem_cons_of_mem text inside)
      rw [List.foldl_cons, later, trail_extend path (plain text List.mem_cons_self),
        List.append_assoc, ← Path.laterComponents_append]
      rfl

/-- The stage cannot lead to the directory above. -/
def Stage.Downward : Stage → Prop
  | .plain text => text ≠ ".."
  | .names tokens => ".." ∉ dotNames tokens
  | .directories => True

/-- The entries of a directory have proper names. -/
theorem mem_children {tree : FileTree} (named : tree.Named) {path : Path} {name : String}
    {entry : Entry} (member : (name, entry) ∈ children tree path) : Path.IsName name := by
  rw [children] at member
  split at member
  · cases member
  · obtain ⟨⟨names, kept⟩, inside, single⟩ := List.mem_filterMap.mp member
    dsimp only at single
    split at single
    · obtain ⟨rfl, rfl⟩ := Prod.mk.inj (Option.some.inj single)
      exact (named.contents inside).2.2 _ List.mem_cons_self
    · cases single

theorem mem_reach {tree : FileTree} (named : tree.Named) {depth : Nat} {path : Path}
    {names : List String} {entry : Entry} (member : (names, entry) ∈ reach tree depth path) :
    names ≠ [] ∧ ∀ name ∈ names, Path.IsName name := by
  induction depth generalizing path names entry with
  | zero => cases member
  | succ depth ih =>
      obtain ⟨⟨name, own⟩, present, found⟩ := List.mem_flatMap.mp member
      have proper := mem_children named present
      rcases List.mem_cons.mp found with same | deeper
      · obtain ⟨rfl, -⟩ := Prod.mk.inj same
        exact ⟨List.cons_ne_nil name [], List.forall_mem_singleton.mpr proper⟩
      · obtain ⟨⟨later, last⟩, below, same⟩ := List.mem_map.mp deeper
        obtain ⟨rfl, -⟩ := Prod.mk.inj same
        have inside := (List.mem_ite_nil_left.mp below).2
        exact ⟨List.cons_ne_nil name later, List.forall_mem_cons.mpr ⟨proper, (ih inside).2⟩⟩

/-- Entries below a path have proper names. -/
theorem mem_belowPath {tree : FileTree} (named : tree.Named) {path : Path} {names : List String}
    {entry : Entry} (member : (names, entry) ∈ belowPath tree path) :
    names ≠ [] ∧ ∀ name ∈ names, Path.IsName name :=
  mem_reach named member

theorem children_of_long (tree : FileTree) {path : Path}
    (long : Path.lengthLimit < path.text.utf8ByteSize) : children tree path = [] := by
  have fault : ∃ fault, path.spellingFault? = some fault := by
    rw [Path.spellingFault?]
    split <;> exact ⟨_, rfl⟩
  obtain ⟨fault, spelled⟩ := fault
  have lost : tree.lookup path = .error fault := by
    simp only [FileTree.lookup, FileTree.resolve, FileTree.departure, spelled, bind, Except.bind]
  rw [children, lost]

/-- A name adds to the length of a path that is spelled out. -/
theorem extend_longer (path : Path) {name : String} (proper : Path.IsName name) :
    isHere (extend path name) = false ∧ 0 < (extend path name).text.utf8ByteSize ∧
      (isHere path = false → path.text.utf8ByteSize < (extend path name).text.utf8ByteSize) := by
  have positive : 0 < name.utf8ByteSize := by
    rw [Nat.pos_iff_ne_zero]
    exact fun empty => proper.nonempty (String.utf8ByteSize_eq_zero_iff.mp empty)
  have lower := (path.size_join proper.relative).1
  have more : trail (extend path name) ≠ [] := by simp [trail_extend_name path proper]
  refine ⟨?_, ?_, ?_⟩
  · rw [Bool.eq_false_iff, Ne, isHere_iff]
    exact (components_of_trail more).2
  · rw [extend]
    split
    · exact positive
    · exact Nat.lt_of_lt_of_le (Nat.lt_add_left _ positive) lower
  · intro spelled
    rw [extend, if_neg (by simp [spelled])]
    exact Nat.lt_of_lt_of_le (Nat.lt_add_of_pos_right positive) lower

theorem reach_enough {tree : FileTree} (named : tree.Named) (depth more : Nat) {path : Path}
    (spelled : isHere path = false)
    (enough : Path.lengthLimit < depth + path.text.utf8ByteSize) :
    reach tree (depth + more) path = reach tree depth path := by
  induction depth generalizing path with
  | zero =>
      cases more with
      | zero => rfl
      | succ more =>
          rw [Nat.zero_add] at enough
          simp [reach, children_of_long tree enough]
  | succ depth ih =>
      rw [Nat.succ_add, reach, reach]
      apply List.flatMap_congr
      intro entry member
      obtain ⟨fresh, -, longer⟩ := extend_longer path (mem_children named member)
      have further := ih fresh (by have := longer spelled; omega)
      simp only [further]

/-- The depth that is looked into is enough: at any greater depth paths are too long. -/
theorem reach_eq_belowPath {tree : FileTree} (named : tree.Named) {depth : Nat} (path : Path)
    (deep : Path.lengthLimit < depth) : reach tree depth path = belowPath tree path := by
  obtain ⟨more, rfl⟩ := Nat.exists_eq_add_of_lt deep
  rw [belowPath, Nat.add_right_comm]
  cases spelled : isHere path with
  | false => exact reach_enough named _ more spelled (by omega)
  | true =>
      -- The first name takes the place of the dot.
      rw [Nat.succ_add, reach, reach]
      apply List.flatMap_congr
      intro entry member
      obtain ⟨fresh, positive, -⟩ := extend_longer path (mem_children named member)
      have further := reach_enough named Path.lengthLimit more fresh (by omega)
      simp only [further]

/-- A path spelled as the other one with names behind it. -/
def Descends (path next : Path) : Prop :=
  ∃ names : List String, trail next = trail path ++ names.map .name

theorem Descends.refl (path : Path) : Descends path path :=
  ⟨[], (List.append_nil _).symm⟩

theorem Descends.trans {path next last : Path} (first : Descends path next)
    (second : Descends next last) : Descends path last := by
  obtain ⟨names, spelled⟩ := first
  obtain ⟨more, further⟩ := second
  refine ⟨names ++ more, ?_⟩
  rw [further, spelled, List.map_append, List.append_assoc]

theorem descends_extend (path : Path) {text : String} (plain : '/' ∉ text.toList)
    (other : text ≠ "..") : Descends path (extend path text) := by
  have added : ∃ names : List String, Path.laterComponents [text] = names.map .name := by
    rw [Path.laterComponents, if_neg other]
    split
    · exact ⟨[], rfl⟩
    · exact ⟨[text], rfl⟩
  obtain ⟨names, same⟩ := added
  exact ⟨names, by rw [trail_extend path plain, same]⟩

theorem descends_extendAll (path : Path) {names : List String} (some : names ≠ [])
    (proper : ∀ name ∈ names, Path.IsName name) : Descends path (extendAll path names) :=
  ⟨names, trail_extendAll path some proper⟩

/-- A stage that does not lead up adds names to the path, or none. -/
theorem Moves.descends {tree : FileTree} (named : tree.Named) {stage : Stage} {path next : Path}
    (moved : Moves tree stage path next) (plain : ∀ text, stage = .plain text → '/' ∉ text.toList)
    (downward : stage.Downward) : Descends path next := by
  cases moved with
  | plain => exact descends_extend path (plain _ rfl) downward
  | child present =>
      have proper := mem_children named present
      exact descends_extend path proper.plain proper.notUp
  | @dot tokens path name listed =>
      have still : name = "." := by
        have other : name ≠ ".." := fun up => downward (up ▸ listed)
        rw [dotNames] at listed
        obtain ⟨-, inside⟩ := List.mem_ite_nil_right.mp listed
        simpa [other] using List.mem_of_mem_filter inside
      refine ⟨[], ?_⟩
      rw [still, ← Path.here, trail_join_here]
      exact (List.append_nil _).symm
  | deep present =>
      obtain ⟨some, proper⟩ := mem_belowPath named present
      exact descends_extendAll path some proper

theorem mem_directories {tree : FileTree} {pattern path : Path} {paths : List Path}
    (read : directories tree pattern = .ok paths) (member : path ∈ paths) :
    ∃ found, stages pattern.text.toList = .ok found ∧
      path ∈ expandFrom tree (start pattern found).2 (start pattern found).1 := by
  rw [directories] at read
  cases whole : stages pattern.text.toList with
  | error fault => simp [whole, bind, Except.bind] at read
  | ok found =>
      refine ⟨found, rfl, ?_⟩
      simp only [whole, bind, Except.bind] at read
      split at read
      · obtain rfl := Except.ok.inj read
        cases member
      · obtain rfl := Except.ok.inj read
        exact List.mem_of_mem_filter member

/-- The path under which a pattern comes to know the base it follows. -/
def respell (base : Path) : Path :=
  if base.isAbsolute then base.stem.tail.foldl extend ⟨"/"⟩ else base.stem.foldl extend Path.here

/-- A pattern under a base first follows the base. -/
theorem mem_expandFrom_base {tree : FileTree} {base entry path : Path}
    (relative : entry.isAbsolute = false) {later : List Stage}
    (member : path ∈ expandFrom tree (start (base.join entry) (base.stem.map .plain ++ later)).2
      (start (base.join entry) (base.stem.map .plain ++ later)).1) :
    path ∈ expandFrom tree later (respell base) := by
  rw [start, Path.isAbsolute_join base relative] at member
  rw [respell]
  cases absolute : base.isAbsolute with
  | true =>
      rw [absolute, if_pos rfl, Path.stem_of_absolute absolute] at member
      rw [if_pos rfl]
      exact mem_expandFrom_plain member
  | false =>
      rw [absolute, if_neg Bool.false_ne_true] at member
      rw [if_neg Bool.false_ne_true]
      exact mem_expandFrom_plain member

/-- A base that patterns spell as it stands. -/
structure Anchored (base : Path) : Prop where
  spelled : base.components ≠ []
  undotted : .here ∉ base.components
  clear : ∀ char ∈ base.text.toList, isSpecial char = false

theorem trail_respell {base : Path} (anchored : Anchored base) :
    trail (respell base) = base.components := by
  have plain : ∀ text ∈ base.stem, '/' ∉ text.toList := fun text inside =>
    Path.slash_not_mem (Path.mem_pieces_of_mem_stem inside)
  have spelled := base.components_eq
  rw [← Path.laterComponents_stem, Path.lead] at spelled
  rw [respell]
  cases absolute : base.isAbsolute with
  | true =>
      rw [absolute, if_pos rfl, Path.stem_of_absolute absolute] at spelled
      rw [Path.stem_of_absolute absolute] at plain
      rw [if_pos rfl, trail_foldl_extend _ fun text inside =>
        plain text (List.mem_cons_of_mem _ inside), trail_root, spelled]
      rfl
  | false =>
      rw [absolute, if_neg Bool.false_ne_true] at spelled
      rw [if_neg Bool.false_ne_true, trail_foldl_extend _ plain, trail_here]
      have undotted := anchored.undotted
      rw [spelled] at undotted ⊢
      split
      · rename_i dot
        exact absurd (by rw [if_pos dot]; exact List.mem_cons_self) undotted
      · rfl

/-- Under an anchored base, a pattern that does not lead up names only paths that are spelled
as the base with names behind it. -/
theorem directories_below {tree : FileTree} (named : tree.Named) {base entry path : Path}
    (anchored : Anchored base) (relative : entry.isAbsolute = false)
    (downward : ∀ piece ∈ entry.pieces, ∀ one, tokens piece.toList = .ok one →
      (Stage.ofTokens one).Downward)
    {paths : List Path} (read : directories tree (base.join entry) = .ok paths)
    (member : path ∈ paths) : Path.Below base path := by
  obtain ⟨found, whole, reached⟩ := mem_directories read member
  obtain ⟨later, rfl, origin⟩ := stages_join anchored.clear relative whole
  have below : Descends (respell base) path := by
    apply expandFrom_induct (mem_expandFrom_base relative reached) (Descends.refl _)
    intro stage inside between next moved descends
    obtain ⟨piece, kept, one, result, rfl⟩ := origin stage inside
    have piecePlain := Path.slash_not_mem (Path.mem_pieces_of_mem_stem kept)
    apply descends.trans (moved.descends named _ _)
    · intro text plain
      rw [ofTokens_plain result plain]
      exact piecePlain
    · exact downward piece (Path.mem_pieces_of_mem_stem kept) one result
  obtain ⟨names, ends⟩ := below
  rw [trail_respell anchored] at ends
  have some : trail path ≠ [] := by
    rw [ends]
    exact List.append_ne_nil_of_left_ne_nil anchored.spelled _
  exact ⟨names, (components_of_trail some).1.trans ends⟩

end SourceComments.Glob
