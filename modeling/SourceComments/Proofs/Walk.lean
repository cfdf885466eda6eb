import SourceComments.Proofs.FileTree

/-! What a walk comes across.

A walk visits its root and, spelled with their names behind it, the entries below. Every
file that such a spelling leads to is visited, unless a link stands on the way: links below
the root are visited but not entered. If the path of the file is not too long to be followed,
no directory on the way there is too long to be opened. -/

namespace SourceComments

namespace Path

theorem IsName.stem {text : String} (name : IsName text) : (Path.mk text).stem = [text] := by
  rw [Path.stem, pieces_of_not_mem name.plain, if_neg (by simpa using name.nonempty)]

/-- Names below a path stand behind it as pieces. -/
theorem stem_descend (base : Path) {names : List String} (proper : ∀ name ∈ names, IsName name) :
    (base.descend names).stem = base.stem ++ names := by
  induction names generalizing base with
  | nil => exact (List.append_nil _).symm
  | cons name names ih =>
      have here := proper name List.mem_cons_self
      have later := ih (base.join ⟨name⟩) fun other member =>
        proper other (List.mem_cons_of_mem name member)
      rw [descend, List.foldl_cons, ← descend, later, stem_join base here.relative, here.stem,
        List.append_assoc]
      rfl

theorem descend_append (base : Path) (front back : List String) :
    base.descend (front ++ back) = (base.descend front).descend back :=
  List.foldl_append

theorem descend_begins (base : Path) {names : List String}
    (proper : ∀ name ∈ names, IsName name) :
    base.text.toList <+: (base.descend names).text.toList := by
  induction names generalizing base with
  | nil => exact List.prefix_refl _
  | cons name names ih =>
      have here := proper name List.mem_cons_self
      have later := ih (base.join ⟨name⟩) fun other member =>
        proper other (List.mem_cons_of_mem name member)
      exact (join_begins base here.relative).trans later

theorem pieces_descend (base : Path) {names : List String} (some : names ≠ [])
    (proper : ∀ name ∈ names, IsName name) :
    (base.descend names).pieces = base.stem ++ names := by
  obtain ⟨front, last, rfl⟩ := (List.eq_nil_or_concat' names).resolve_left some
  have here := proper last List.mem_concat_self
  have earlier := stem_descend base fun name member => proper name (List.mem_append_left _ member)
  rw [descend_append, show (base.descend front).descend [last] = (base.descend front).join ⟨last⟩
    from rfl, pieces_join _ here.relative, earlier, pieces_of_not_mem here.plain,
    List.append_assoc]

theorem laterComponents_names {names : List String} (proper : ∀ name ∈ names, IsName name) :
    laterComponents names = names.map .name := by
  induction names with
  | nil => rfl
  | cons name names ih =>
      have here := proper name List.mem_cons_self
      rw [laterComponents, if_neg (by simp [here.nonempty, here.notHere]), if_neg here.notUp,
        ih fun other member => proper other (List.mem_cons_of_mem name member)]
      rfl

/-- The beginning of a path that can be followed has no fault in its spelling either. -/
theorem spellingFault?_of_begins {path longer : Path}
    (begins : path.text.toList <+: longer.text.toList) (spelled : longer.spellingFault? = none) :
    path.spellingFault? = none := by
  obtain ⟨rest, split⟩ := begins
  have whole : longer.text = path.text ++ String.ofList rest := by
    rw [← String.toList_inj, ← split]
    simp
  rw [spellingFault?] at spelled ⊢
  split at spelled
  · cases spelled
  · rename_i legible
    split at spelled
    · cases spelled
    · rename_i short
      rw [← split] at legible
      rw [whole, String.utf8ByteSize_append] at short
      rw [if_neg, if_neg]
      · omega
      · intro nul
        apply legible
        simp only [List.contains_iff_mem] at nul ⊢
        exact List.mem_append_left rest nul

end Path

namespace FileTree

variable {tree : FileTree}

theorem path_of_visits {root path : Path} {names : List String} {entry : Entry}
    (visit : .ok path ∈ visits root names entry) : path = root.descend names := by
  dsimp only [visits] at visit
  split at visit
  · cases visit
  · split at visit <;> simpa using visit

theorem ok_mem_visits {root : Path} {names : List String} (entry : Entry)
    (opened : (root.descend names.dropLast).spellingFault? = none) :
    .ok (root.descend names) ∈ visits root names entry := by
  simp only [visits, opened, Option.isSome_none, Bool.false_eq_true, if_false]
  split <;> exact List.mem_cons_self

/-- A walk visits its root and what is listed below the directory that the root leads to. -/
theorem mem_walk_cases (named : tree.Named) {root path : Path}
    (visited : .ok path ∈ tree.walk root) :
    path = root ∨ ∃ directory names entry, tree.lookup root = .ok (.directory directory) ∧
      (∀ name ∈ names, Path.IsName name) ∧ (directory ++ names, entry) ∈ tree.entries ∧
      path = root.descend names := by
  rw [walk] at visited
  split at visited
  · simp at visited
  · rename_i found led
    rcases List.mem_cons.mp visited with same | deeper
    · exact .inl (Except.ok.inj same)
    · right
      obtain ⟨⟨names, entry⟩, inside, visit⟩ := List.mem_flatMap.mp deeper
      obtain ⟨⟨directory, rfl⟩, -, proper⟩ := named.contents inside
      exact ⟨directory, names, entry, led, proper, (mem_below_iff.mp inside).2,
        path_of_visits visit⟩

/-- A walk visits its root and paths that lead down from there. -/
theorem mem_walk (named : tree.Named) {root path : Path} (visited : .ok path ∈ tree.walk root) :
    path = root ∨ root.text ≠ "" ∧ ∃ names, (∀ name ∈ names, Path.IsName name) ∧
      path = root.descend names := by
  rcases mem_walk_cases named visited with same | ⟨directory, names, entry, led, proper, -, spelled⟩
  · exact .inl same
  · exact .inr ⟨(spelled_of_resolve (resolve_of_directory led).1).1, names, proper, spelled⟩

/-- If the last pieces lead out of no removed directory, those in front of them do. -/
theorem leaveRemoved_append {levels : Nat} {front back rest : List String}
    (stuck : ∀ levels rest, leaveRemoved (levels + 1) back ≠ .ok (some rest))
    (left : leaveRemoved levels (front ++ back) = .ok (some rest)) :
    ∃ kept, leaveRemoved levels front = .ok (some kept) ∧ rest = kept ++ back := by
  fun_induction leaveRemoved levels front with
  | case1 front =>
      rw [leaveRemoved, Except.ok.injEq, Option.some.injEq] at left
      exact ⟨front, rfl, left.symm⟩
  | case2 levels => exact absurd left (stuck levels rest)
  | case3 levels piece front idle ih =>
      rw [List.cons_append, leaveRemoved, if_pos idle] at left
      exact ih left
  | case4 levels front busy ih =>
      rw [List.cons_append, leaveRemoved, if_neg busy, if_pos rfl] at left
      exact ih left
  | case5 levels piece front busy down =>
      rw [List.cons_append, leaveRemoved, if_neg busy, if_neg down] at left
      cases left

theorem leaveRemoved_names {levels : Nat} {name : String} {names rest : List String}
    (proper : Path.IsName name) : leaveRemoved (levels + 1) (name :: names) ≠ .ok (some rest) := by
  rw [leaveRemoved, if_neg (by simp [proper.nonempty, proper.notHere]), if_neg proper.notUp]
  simp

theorem leaveRemoved_more {levels : Nat} {front kept : List String}
    (left : leaveRemoved levels front = .ok (some kept)) (back : List String) :
    leaveRemoved levels (front ++ back) = .ok (some (kept ++ back)) := by
  fun_induction leaveRemoved levels front with
  | case1 front =>
      obtain rfl : front = kept := by simpa using left
      rw [leaveRemoved]
  | case2 levels => cases left
  | case3 levels piece front idle ih =>
      rw [List.cons_append, leaveRemoved, if_pos idle]
      exact ih left
  | case4 levels front busy ih =>
      rw [List.cons_append, leaveRemoved, if_neg busy, if_pos rfl]
      exact ih left
  | case5 levels piece front busy down => cases left

theorem lookup_of_resolve {path : Path} {place : Location}
    (found : tree.resolve path = .ok (some place))
    (inside : tree.entryAt? place = some .directory) :
    tree.lookup path = .ok (.directory place) := by
  simp only [lookup, found, inside, bind, Except.bind]

/-- A path spelled with names behind a root is followed from where the root is, and through the
same pieces up to the names, a slash at the end of the root apart. -/
theorem departure_descend {root : Path} {names pieces : List String} {start : Location}
    (nonempty : root.text ≠ "") (more : names ≠ []) (proper : ∀ name ∈ names, Path.IsName name)
    (begun : tree.departure (root.descend names) = .ok (some (start, pieces))) :
    ∃ kept rootPieces, pieces = kept ++ names ∧
      tree.departure root = .ok (some (start, rootPieces)) ∧
      (rootPieces = kept ∨ rootPieces = kept ++ [""]) := by
  have begins := root.descend_begins proper
  obtain ⟨-, spelled, split⟩ := departure_eq_some_iff.mp begun
  have rootSpelled := Path.spellingFault?_of_begins begins spelled
  rw [Path.pieces_descend root more proper, Path.isAbsolute_of_begins nonempty begins] at split
  rcases split with ⟨slash, rfl, rfl⟩ | ⟨relative, rfl, left⟩
  · refine ⟨root.stem, root.pieces, rfl, ?_, root.pieces_eq_stem⟩
    exact departure_eq_some_iff.mpr ⟨nonempty, rootSpelled, .inl ⟨slash, rfl, rfl⟩⟩
  · obtain ⟨name, others, rfl⟩ := List.exists_cons_of_ne_nil more
    obtain ⟨kept, leftRoot, rfl⟩ := leaveRemoved_append
      (fun _ _ => leaveRemoved_names (proper name List.mem_cons_self)) left
    have rootBegun {rootPieces : List String}
        (out : leaveRemoved tree.removedLevels root.pieces = .ok (some rootPieces)) :
        tree.departure root = .ok (some (tree.workingDirectory, rootPieces)) :=
      departure_eq_some_iff.mpr ⟨nonempty, rootSpelled, .inr ⟨relative, rfl, out⟩⟩
    rcases root.pieces_eq_stem with same | slash
    · exact ⟨kept, kept, rfl, rootBegun (same ▸ leftRoot), .inl rfl⟩
    · exact ⟨kept, kept ++ [""], rfl, rootBegun (slash ▸ leaveRemoved_more leftRoot [""]), .inr rfl⟩

/-- Such a path follows its names from the root's directory. -/
theorem resolve_descend {root : Path} {names : List String} {place : Location}
    (nonempty : root.text ≠ "") (more : names ≠ []) (proper : ∀ name ∈ names, Path.IsName name)
    (found : tree.resolve (root.descend names) = .ok (some place)) :
    ∃ directory links left, tree.lookup root = .ok (.directory directory) ∧
      tree.followWithin links directory names = .ok (place, left) := by
  obtain ⟨start, pieces, begun, reached⟩ := resolve_eq_some_iff.mp found
  obtain ⟨kept, rootPieces, rfl, rootBegun, ending⟩ :=
    departure_descend nonempty more proper begun
  obtain ⟨left, followed⟩ := follow_eq_ok_iff.mp reached
  obtain ⟨directory, links, first, later⟩ := followWithin_split followed
  have inside := followWithin_inside more later
  refine ⟨directory, links, left, lookup_of_resolve ?_ inside, later⟩
  refine resolve_eq_some_iff.mpr ⟨start, rootPieces, rootBegun, follow_eq_ok_iff.mpr ⟨links, ?_⟩⟩
  rcases ending with rfl | rfl
  · exact first
  · rw [followWithin_append, first]
    exact followWithin_idle inside (by simp [Path.Idle])

/-- No link stands on the way down from a directory, the end of the way apart. -/
def Unlinked (tree : FileTree) (directory : Location) (names : List String) : Prop :=
  ∀ front, front ≠ [] → front <+: names → front ≠ names →
    tree.linkAt? (directory ++ front) = none

/-- Names with no link between lead down to the last one, or there is a link of that name. -/
theorem followWithin_names {links left : Nat} {directory place : Location} {names : List String}
    (proper : ∀ name ∈ names, Path.IsName name) (unlinked : tree.Unlinked directory names)
    (followed : tree.followWithin links directory names = .ok (place, left)) :
    place = directory ++ names ∨ (tree.linkAt? (directory ++ names)).isSome = true := by
  induction names generalizing directory with
  | nil =>
      rw [followWithin_nil] at followed
      rw [List.append_nil]
      exact .inl (Prod.mk.inj (Except.ok.inj followed)).1.symm
  | cons name names ih =>
      have here := proper name List.mem_cons_self
      rw [followWithin_cons] at followed
      cases moved : tree.step directory name with
      | error fault => simp [moved] at followed
      | ok next =>
          obtain rfl : next = directory ++ [name] := by
            rw [(step_inside moved).2, Path.laterComponents_names (by simpa using here)]
            rfl
          have whole : directory ++ name :: names = directory ++ [name] ++ names := by simp
          cases link : tree.linkAt? (directory ++ [name]) with
          | none =>
              simp only [moved, link] at followed
              rw [whole]
              refine ih (fun other member => proper other (List.mem_cons_of_mem name member)) ?_
                followed
              intro front some within shorter
              rw [List.append_assoc]
              exact unlinked (name :: front) (List.cons_ne_nil name front)
                (List.cons_prefix_cons.mpr ⟨rfl, within⟩) (by simpa using shorter)
          | some target =>
              cases names with
              | nil => exact .inr (by rw [link]; rfl)
              | cons other names =>
                  rw [unlinked [name] (List.cons_ne_nil name []) ⟨other :: names, rfl⟩ (by simp)]
                    at link
                  cases link

/-- Nothing is listed below a link. -/
def LinksEnd (tree : FileTree) : Prop :=
  ∀ link ∈ tree.entries, link.2.target? ≠ none →
    ∀ entry ∈ tree.entries, link.1 <+: entry.1 → entry.1 = link.1

instance (tree : FileTree) : Decidable tree.LinksEnd :=
  inferInstanceAs (Decidable (∀ link ∈ tree.entries, link.2.target? ≠ none →
    ∀ entry ∈ tree.entries, link.1 <+: entry.1 → entry.1 = link.1))

theorem Linkless.linksEnd (linkless : tree.Linkless) : tree.LinksEnd :=
  fun link listed some => absurd (linkless link listed) some

theorem LinksEnd.unlinked (ends : tree.LinksEnd) {directory : Location} {names : List String}
    {entry : Entry} (listed : (directory ++ names, entry) ∈ tree.entries) :
    tree.Unlinked directory names := by
  intro front _ within shorter
  rw [Option.eq_none_iff_forall_ne_some]
  intro target link
  have same := ends _ (mem_of_linkAt? link) (Option.some_ne_none target) _ listed
    ((List.prefix_append_right_inj directory).mpr within)
  exact shorter (List.append_cancel_left same).symm

/-- A path that ends in a slash leads to no file. -/
theorem pieces_of_file {path : Path} (file : tree.isFile path = true) :
    path.pieces = path.stem := by
  apply path.pieces_eq_stem.resolve_right
  intro slash
  obtain ⟨place, bytes, found, present⟩ := resolve_of_file file
  obtain ⟨start, pieces, begun, reached⟩ := resolve_eq_some_iff.mp found
  have ending : ∃ front, pieces = front ++ [""] := by
    have split := (departure_eq_some_iff.mp begun).2.2
    rw [slash] at split
    rcases split with ⟨-, -, rfl⟩ | ⟨-, -, left⟩
    · exact ⟨path.stem, rfl⟩
    · have stuck : ∀ levels rest, leaveRemoved (levels + 1) [""] ≠ .ok (some rest) := by
        simp [leaveRemoved]
      obtain ⟨kept, -, rfl⟩ := leaveRemoved_append stuck left
      exact ⟨kept, rfl⟩
  obtain ⟨front, rfl⟩ := ending
  obtain ⟨left, followed⟩ := follow_eq_ok_iff.mp reached
  obtain ⟨between, links, -, last⟩ := followWithin_split followed
  have inside := followWithin_inside (by simp) last
  rw [followWithin_idle inside (by simp [Path.Idle])] at last
  obtain ⟨rfl, -⟩ := Prod.mk.inj (Except.ok.inj last)
  rw [inside] at present
  cases present

/-- An entry at a location below another one is among the contents there. -/
theorem mem_below {location : Location} {names : List String} {entry : Entry} (more : names ≠ [])
    (present : tree.entryAt? (location ++ names) = some entry) :
    (names, entry) ∈ tree.below location := by
  have nonempty : location ++ names ≠ [] := List.append_ne_nil_of_right_ne_nil location more
  obtain ⟨first, others, whole⟩ := List.exists_cons_of_ne_nil nonempty
  rw [whole, entryAt?, ← whole, Option.map_eq_some_iff] at present
  · obtain ⟨⟨place, kept⟩, listed, rfl⟩ := present
    have here : place = location ++ names := by simpa using List.find?_some listed
    rw [mem_below_iff, ← here]
    exact ⟨more, List.mem_of_find?_eq_some listed⟩
  · simp

/-- What names lead to from a directory is listed under them, or a link is. -/
theorem entryAt?_of_names {links left : Nat} {directory place : Location} {names : List String}
    {entry : Entry} (proper : ∀ name ∈ names, Path.IsName name)
    (unlinked : tree.Unlinked directory names)
    (followed : tree.followWithin links directory names = .ok (place, left))
    (present : tree.entryAt? place = some entry) :
    ∃ entry, tree.entryAt? (directory ++ names) = some entry := by
  rcases followWithin_names proper unlinked followed with rfl | link
  · exact ⟨entry, present⟩
  · obtain ⟨target, link⟩ := Option.isSome_iff_exists.mp link
    obtain ⟨entry, there, -⟩ := Option.bind_eq_some_iff.mp link
    exact ⟨entry, there⟩

/-- If the spelling of a path has no fault, that of the directory it is visited in has none. -/
theorem opened_of_spelled {root : Path} {names : List String}
    (proper : ∀ name ∈ names, Path.IsName name)
    (spelled : (root.descend names).spellingFault? = none) :
    (root.descend names.dropLast).spellingFault? = none := by
  rcases List.eq_nil_or_concat' names with rfl | ⟨front, last, rfl⟩
  · exact spelled
  · apply Path.spellingFault?_of_begins _ spelled
    rw [Path.descend_append, List.dropLast_concat]
    exact Path.descend_begins _ fun name member => proper name (List.mem_append_right _ member)

/-- The files that a walk comes across are those spelled with names behind its root, if no
link stands between. -/
theorem mem_walk_iff (named : tree.Named) (ends : tree.LinksEnd) {root path : Path}
    (file : tree.isFile path = true) :
    .ok path ∈ tree.walk root ↔ root.text ≠ "" ∧ ∃ names : List String,
      (∀ name ∈ names, Path.IsName name) ∧ path = root.descend names ∧
        ∀ directory, tree.lookup root = .ok (.directory directory) →
          tree.Unlinked directory names := by
  obtain ⟨place, bytes, found, present⟩ := resolve_of_file file
  constructor
  · intro visited
    rcases mem_walk_cases named visited with rfl | ⟨directory, names, entry, led, proper, listed, rfl⟩
    · refine ⟨(spelled_of_resolve found).1, [], by simp, rfl, ?_⟩
      intro directory _ front some within
      exact absurd (List.prefix_nil.mp within) some
    · refine ⟨(spelled_of_resolve (resolve_of_directory led).1).1, names, proper, rfl, ?_⟩
      intro other ledToo
      rw [led] at ledToo
      obtain rfl := Found.directory.inj (Except.ok.inj ledToo)
      exact ends.unlinked listed
  · rintro ⟨nonempty, names, proper, rfl, unlinked⟩
    rw [walk]
    by_cases more : names = []
    · subst more
      have led : tree.lookup root = .ok (.file place bytes) := by
        simp only [lookup, show tree.resolve root = .ok (some place) from found, present, bind,
          Except.bind]
      rw [led]
      exact List.mem_cons_self
    · obtain ⟨directory, links, left, led, followed⟩ := resolve_descend nonempty more proper found
      obtain ⟨entry, there⟩ := entryAt?_of_names proper (unlinked directory led) followed present
      rw [led]
      apply List.mem_cons_of_mem
      rw [List.mem_flatMap]
      refine ⟨(names, entry), mem_below more there, ok_mem_visits entry ?_⟩
      exact opened_of_spelled proper (spelled_of_resolve found).2

end FileTree

end SourceComments
