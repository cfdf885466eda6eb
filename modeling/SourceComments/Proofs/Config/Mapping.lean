import SourceComments.Proofs.Validation

/-! The language of a file under configured extensions.

A file's extension is what stands behind the last dot of its name, and it is compared without
regard to case. So of the configured extensions that differ only in case, the first in order
of their bytes decides for all of them. -/

namespace SourceComments

namespace Path

theorem extensionOf?_append {stem extension : List Char} (more : stem ≠ [])
    (plain : '.' ∉ extension) : extensionOf? (stem ++ '.' :: extension) = some extension := by
  have kept : ∀ char ∈ extension.reverse, decide (char ≠ '.') = true := by
    intro char member
    rw [decide_eq_true_eq]
    rintro rfl
    exact plain (List.mem_reverse.mp member)
  have turned : (stem ++ '.' :: extension).reverse =
      extension.reverse ++ '.' :: stem.reverse := by simp
  obtain ⟨last, front, split⟩ : ∃ last front, stem.reverse = last :: front :=
    List.exists_cons_of_ne_nil (by simpa using more)
  rw [extensionOf?, turned, List.span_eq_takeWhile_dropWhile,
    List.takeWhile_append_of_pos kept, List.dropWhile_append_of_pos kept, split]
  simp

/-- A name that stands alone or behind a slash is the name of the file. -/
theorem fileName?_of_text {front name : String} (proper : IsName name)
    (opens : front = "" ∨ ∃ directory, front = directory ++ "/") :
    (Path.mk (front ++ name)).fileName? = some name := by
  rcases opens with rfl | ⟨directory, rfl⟩
  · rw [String.empty_append]
    exact @fileName?_of_components ⟨name⟩ [] name proper.components
  · apply fileName?_of_components
    rw [pieces_append, laterComponents_append, proper.components]

theorem isName_of_extension {stem extension : String} (named : stem ≠ "") (more : extension ≠ "")
    (plain : '/' ∉ stem.toList) (slashless : '/' ∉ extension.toList) :
    IsName (stem ++ "." ++ extension) := by
  have positive {text : String} (some : text ≠ "") : 0 < text.length := by
    rw [← String.length_toList, List.length_pos_iff]
    simpa using some
  have length : 3 ≤ (stem ++ "." ++ extension).length := by
    have front := positive named
    have back := positive more
    have dot : ".".length = 1 := by decide
    rw [String.length_append, String.length_append]
    omega
  have longer {text : String} (short : text.length < 3) : stem ++ "." ++ extension ≠ text := by
    rintro rfl
    omega
  exact ⟨longer (by decide), longer (by decide), longer (by decide), by simp [plain, slashless]⟩

/-- The extension of a file, behind any directories. -/
theorem extension?_of_text {front stem extension : String}
    (opens : front = "" ∨ ∃ directory, front = directory ++ "/") (named : stem ≠ "")
    (plain : '/' ∉ stem.toList) (more : extension ≠ "") (dotless : '.' ∉ extension.toList)
    (slashless : '/' ∉ extension.toList) :
    (Path.mk (front ++ (stem ++ "." ++ extension))).extension? = some extension := by
  have proper := isName_of_extension named more plain slashless
  have spelled : (stem ++ "." ++ extension).toList = stem.toList ++ '.' :: extension.toList := by
    simp
  rw [extension?, fileName?_of_text proper opens, Option.bind_some, spelled,
    extensionOf?_append (by simpa using named) dotless, Option.map_some, String.ofList_toList]

end Path

namespace Config

/-- The configured key that decides for files of an extension: among the keys that agree with
the extension but for case, it is the first. -/
structure Decides (config : Config) (extension key : String) (language : Language) : Prop where
  listed : (key, language) ∈ config.extensions.entries
  agrees : Language.sameIgnoringCase key extension = true
  first : ∀ other ∈ config.extensions.keys,
    Language.sameIgnoringCase other extension = true → key ≤ other

section

variable {config : Config} {extension key : String} {language : Language}

/-- If some key agrees with the extension of a file, one decides for the file. -/
theorem exists_decides {path : Path} (ends : path.extension? = some extension)
    (listed : key ∈ config.extensions.keys)
    (agrees : Language.sameIgnoringCase key extension = true) :
    ∃ first chosen, Decides config extension first chosen ∧
      config.languageFor? path = some chosen := by
  obtain ⟨entry, member, rfl⟩ := List.mem_map.mp listed
  obtain ⟨⟨first, chosen⟩, found⟩ : ∃ entry, config.extensions.entries.find?
      (fun entry => Language.sameIgnoringCase entry.1 extension) = some entry :=
    Option.isSome_iff_exists.mp (List.find?_isSome.mpr ⟨entry, member, agrees⟩)
  have least : ∀ other ∈ config.extensions.keys,
      Language.sameIgnoringCase other extension = true → first ≤ other := by
    intro other otherListed otherAgrees
    obtain ⟨rival, rivalMember, rfl⟩ := List.mem_map.mp otherListed
    exact Table.find?_least found rivalMember otherAgrees
  have agreesToo := List.find?_some found
  refine ⟨first, chosen, ⟨List.mem_of_find?_eq_some found, agreesToo, least⟩, ?_⟩
  simp only [languageFor?, ends, found]

/-- A key that no other one precedes decides for its own files. -/
theorem Decides.language_eq {first : String} {chosen : Language}
    (decides : Decides config key first chosen)
    (listed : (key, language) ∈ config.extensions.entries)
    (leading : ∀ other ∈ config.extensions.keys,
      Language.sameIgnoringCase other key = true → key ≤ other) : chosen = language := by
  have after : key ≤ first :=
    leading first (List.mem_map.mpr ⟨_, decides.listed, rfl⟩) decides.agrees
  have before : first ≤ key :=
    decides.first key (List.mem_map.mpr ⟨_, listed, rfl⟩) (beq_self_eq_true _)
  have same := config.extensions.entry_unique decides.listed listed
    (String.le_antisymm before after)
  exact (Prod.mk.inj same).2

theorem key_ne_empty (valid : config.validate = .ok ()) (listed : key ∈ config.extensions.keys) :
    key ≠ "" := by
  rintro rfl
  have sound := problem?_of_valid valid
  rw [problem?, Option.or_eq_none_iff, Option.or_eq_none_iff, List.findSome?_eq_none_iff,
    List.findSome?_eq_none_iff, List.findSome?_eq_none_iff] at sound
  cases sound.2.2 "" listed

end

/-- A configured extension of a valid configuration, if it has neither a dot nor a slash, gives
the files that end in it their language: that of the first key which agrees with it but for
case, and so its own unless such a key stands before it. -/
theorem languageFor?_of_mapping (config : Config) (valid : config.validate = .ok ())
    (key : String) (language : Language) (mapped : (key, language) ∈ config.extensions.entries)
    (dotless : '.' ∉ key.toList) (slashless : '/' ∉ key.toList) (front stem : String)
    (opens : front = "" ∨ ∃ directory, front = directory ++ "/") (named : stem ≠ "")
    (plain : '/' ∉ stem.toList) :
    (∃ first chosen, Decides config key first chosen ∧
      config.languageFor? ⟨front ++ (stem ++ "." ++ key)⟩ = some chosen) ∧
    ((∀ other ∈ config.extensions.keys,
      Language.sameIgnoringCase other key = true → key ≤ other) →
        config.languageFor? ⟨front ++ (stem ++ "." ++ key)⟩ = some language) := by
  have listed : key ∈ config.extensions.keys := List.mem_map.mpr ⟨_, mapped, rfl⟩
  have ends := Path.extension?_of_text opens named plain (key_ne_empty valid listed) dotless
    slashless
  obtain ⟨first, chosen, decides, found⟩ := exists_decides ends listed (beq_self_eq_true _)
  refine ⟨⟨first, chosen, decides, found⟩, ?_⟩
  intro leading
  rw [found, decides.language_eq mapped leading]

/-- Extensions that differ in case, and one with a dot in it. -/
def overlapping : Config where
  includes := []
  ignores := []
  extensions := .ofList [("H", .cpp), ("d.ts", .javaScript), ("h", .c), ("pde", .java)]

theorem languageFor?_of_mapping_overlapping :
    overlapping.validate = .ok () ∧
      (∃ first chosen, Decides overlapping "h" first chosen ∧
        overlapping.languageFor? ⟨"src/.a.h"⟩ = some chosen) ∧
      overlapping.languageFor? ⟨"src//sketch.v2.pde"⟩ = some .java := by
  have valid : overlapping.validate = .ok () := by decide +kernel
  have decided := languageFor?_of_mapping overlapping valid "h" .c (by decide +kernel)
    (by decide) (by decide) "src/" ".a" (.inr ⟨"src", rfl⟩) (by decide) (by decide)
  have alone := languageFor?_of_mapping overlapping valid "pde" .java (by decide +kernel)
    (by decide) (by decide) "src//" "sketch.v2" (.inr ⟨"src/", rfl⟩) (by decide) (by decide)
  exact ⟨valid, decided.1, alone.2 (by decide +kernel)⟩

/-- A configured extension is passed over for one that precedes it and differs only in case,
and one with a dot in it is never met. -/
theorem languageFor?_misses_mapping :
    overlapping.validate = .ok () ∧
      ("h", .c) ∈ overlapping.extensions.entries ∧
      overlapping.languageFor? ⟨"a.h"⟩ = some .cpp ∧
      ("d.ts", .javaScript) ∈ overlapping.extensions.entries ∧
      overlapping.languageFor? ⟨"a.d.ts"⟩ = some .typeScript := by
  decide +kernel

end Config

end SourceComments
