import SourceComments.Proofs.Glob.Enclosure
import SourceComments.Proofs.Selection.Exact

/-! What is selected where nothing is configured.

The default configuration leaves out what lies inside directories of three names, wherever
they stand on the spelled way to a file, the base included. A file that only bears such a
name, or whose directories have names that are longer, stays. -/

namespace SourceComments

namespace Config

/-- Names of directories that hold what is fetched, recorded or built. -/
def dependencyNames : List String := ["node_modules", ".git", "target"]

theorem languageFor?_default (path : Path) :
    Config.default.languageFor? path = Language.ofPath? path := by
  rw [languageFor?, Language.ofPath?]
  cases path.extension? with
  | none => rfl
  | some extension => rfl

/-- The default ignored entries are one pattern for each of the names. -/
theorem mem_defaultIgnores {entry : String} :
    entry ∈ defaultIgnores ↔ ∃ name ∈ dependencyNames, entry = "**/" ++ name ++ "/**" := by
  have listed : defaultIgnores = dependencyNames.map fun name => "**/" ++ name ++ "/**" := by
    decide +kernel
  rw [listed, List.mem_map]
  exact exists_congr fun name => and_congr_right fun _ => eq_comm

theorem tokens_default {name : String} (listed : name ∈ dependencyNames) :
    Glob.tokens ("**/" ++ name ++ "/**").toList = .ok (Glob.enclosure name.toList) := by
  have clear : ∀ name ∈ dependencyNames, name.toList.all (!Glob.isSpecial ·) = true := by
    decide +kernel
  have plain : ∀ char ∈ name.toList, Glob.isSpecial char = false := by
    intro char member
    simpa using List.all_eq_true.mp (clear name listed) char member
  rw [String.toList_append, String.toList_append]
  exact Glob.tokens_enclosure plain

theorem plain_dependencyNames {name : String} (listed : name ∈ dependencyNames) :
    '/' ∉ name.toList := by
  have plain : ∀ name ∈ dependencyNames, '/' ∉ name.toList := by decide +kernel
  exact plain name listed

/-- Some default pattern matches a text exactly if the text encloses one of the names. -/
theorem default_matches_iff {text : List Char} :
    (∃ entry ∈ defaultIgnores, ∃ tokens, Glob.tokens entry.toList = .ok tokens ∧
      Glob.matchTokens tokens text = true) ↔
      ∃ name ∈ dependencyNames, Glob.Encloses name.toList text := by
  constructor
  · rintro ⟨entry, ignored, tokens, read, hit⟩
    obtain ⟨name, listed, rfl⟩ := mem_defaultIgnores.mp ignored
    rw [tokens_default listed] at read
    obtain rfl := Except.ok.inj read
    exact ⟨name, listed, (Glob.matchTokens_enclosure (plain_dependencyNames listed)).mp hit⟩
  · rintro ⟨name, listed, enclosed⟩
    exact ⟨_, mem_defaultIgnores.mpr ⟨name, listed, rfl⟩, _, tokens_default listed,
      (Glob.matchTokens_enclosure (plain_dependencyNames listed)).mpr enclosed⟩

end Config

namespace Selection

variable {tree : FileTree} {base root path : Path} {language : Language}

theorem isRoot_default_iff : IsRoot tree base Config.default.includes root ↔ root = base := by
  constructor
  · intro starts
    cases starts with
    | base => rfl
    | plain included => cases included
    | pattern included => cases included
  · rintro rfl
    exact .base rfl

/-- Under the default configuration, what is to be selected lies outside the named
directories. -/
theorem chosen_default_iff :
    Chosen tree base Config.default path language ↔
      .ok path ∈ tree.walk base ∧ tree.isFile path = true ∧
        Language.ofPath? path = some language ∧
        ∀ name ∈ Config.dependencyNames, ¬Glob.Encloses name.toList path.text.toList := by
  have wild : ∀ entry ∈ Config.default.ignores, Glob.isPattern entry = true := by decide +kernel
  rw [← Config.languageFor?_default]
  constructor
  · intro chosen
    obtain ⟨root, starts, visited⟩ := chosen.walked
    obtain rfl := isRoot_default_iff.mp starts
    refine ⟨visited, chosen.file, chosen.known, ?_⟩
    intro name listed enclosed
    obtain ⟨entry, ignored, tokens, read, hit⟩ :=
      Config.default_matches_iff.mpr ⟨name, listed, enclosed⟩
    rw [chosen.unmatched entry ignored (wild entry ignored) tokens read] at hit
    cases hit
  · rintro ⟨visited, file, known, apart⟩
    refine ⟨file, ⟨base, isRoot_default_iff.mpr rfl, visited⟩, ?_, ?_, known⟩
    · intro entry ignored literal
      rw [wild entry ignored] at literal
      cases literal
    · intro entry ignored _ tokens read
      rw [Bool.eq_false_iff]
      intro hit
      obtain ⟨name, listed, enclosed⟩ :=
        Config.default_matches_iff.mp ⟨entry, ignored, tokens, read, hit⟩
      exact apart name listed enclosed

/-- Where nothing is configured, the walked files of a known extension are selected unless one
of the pieces of their path, the last excepted, is `node_modules`, `.git` or `target`. That is
what the default patterns match: texts with one of these names in front of a slash, and at the
beginning or behind another slash. -/
theorem select_default_exact (tree : FileTree) (base : Path) :
    (∀ (key : String) (language : Language),
      (key, language) ∈ (select tree base Config.default).files.entries ↔
        .ok ⟨key⟩ ∈ tree.walk base ∧ tree.isFile ⟨key⟩ = true ∧
          Language.ofPath? ⟨key⟩ = some language ∧
          ∀ name ∈ Config.dependencyNames, name ∉ (Path.mk key).pieces.dropLast) ∧
    ∀ text : List Char,
      (∃ entry ∈ Config.default.ignores, ∃ tokens, Glob.tokens entry.toList = .ok tokens ∧
        Glob.matchTokens tokens text = true) ↔
      ∃ name ∈ Config.dependencyNames, ∃ front back : List Char,
        text = front ++ name.toList ++ '/' :: back ∧
          (front = [] ∨ front.getLast? = some '/') := by
  refine ⟨?_, fun text => Config.default_matches_iff⟩
  intro key language
  rw [mem_entries_iff_chosen, chosen_default_iff]
  refine and_congr_right fun _ => and_congr_right fun _ => and_congr_right fun _ => ?_
  refine forall_congr' fun name => forall_congr' fun listed => not_congr ?_
  exact Glob.encloses_iff_mem_pieces (Config.plain_dependencyNames listed)

/-- A project with its own sources beside fetched ones, and a file named like a directory that
is left out. -/
def checkout : FileTree where
  entries := [(["target.c"], .file .empty), (["src"], .directory),
    (["src", "node_modules.js"], .file .empty), (["src", "targets"], .directory),
    (["src", "targets", "x.c"], .file .empty), (["src", "node_modules"], .directory),
    (["src", "node_modules", "y.js"], .file .empty)]

/-- Only the fetched sources are left out, and all of them under a base of that name. -/
example :
    (select checkout Path.here Config.default).files.keys =
        ["./src/node_modules.js", "./src/targets/x.c", "./target.c"] ∧
      (select checkout ⟨"src/node_modules"⟩ Config.default).files.keys = [] := by
  decide +kernel

end Selection

end SourceComments
