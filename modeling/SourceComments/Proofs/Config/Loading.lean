import SourceComments.Config.Discovery
import SourceComments.Proofs.Survey

/-! Which configuration applies to a directory, and when there is none to use.

A directory without a configuration file has the default one. The file that is found for a
directory has to be a text that describes a valid configuration; there is no falling back. -/

namespace SourceComments.Config

/-- The configuration applies to all that is looked for from the directory. -/
inductive Applies (tree : FileTree) (directory : Path) : Config → Prop
  | default (missing : find? tree directory = none) : Applies tree directory Config.default
  | file {file : Path} {text : String} {config : Config}
      (found : find? tree directory = some file) (held : tree.HasText file text)
      (read : parse text = .ok config) (valid : config.validate = .ok ()) :
      Applies tree directory config

/-- The configuration file found for the directory is of no use. -/
inductive Unusable (tree : FileTree) (directory : Path) : Prop
  | unreadable {file : Path} (found : find? tree directory = some file)
      (textless : ∀ text, ¬tree.HasText file text)
  | unparsable {file : Path} {text : String} {fault : Json.Fault}
      (found : find? tree directory = some file) (held : tree.HasText file text)
      (flawed : parse text = .error fault)
  | invalid {file : Path} {text : String} {config : Config} {problem : Problem}
      (found : find? tree directory = some file) (held : tree.HasText file text)
      (read : parse text = .ok config) (flawed : config.validate = .error problem)

section

variable {tree : FileTree} {directory file : Path} {config : Config}

theorem loadFile_eq_ok_iff :
    loadFile tree file = .ok config ↔
      ∃ text, tree.HasText file text ∧ parse text = .ok config ∧ config.validate = .ok () := by
  simp only [← FileTree.read_eq_ok_iff]
  constructor
  · intro loaded
    rw [loadFile] at loaded
    split at loaded
    · cases loaded
    · rename_i text read
      split at loaded
      · cases loaded
      · rename_i parsed described
        split at loaded
        · cases loaded
        · rename_i valid
          obtain rfl := Except.ok.inj loaded
          exact ⟨text, read, described, valid⟩
  · intro described
    obtain ⟨text, read, parsed, valid⟩ := described
    simp only [loadFile, read, parsed, valid]

theorem load_eq_ok_iff :
    (∃ fromFile, load tree directory = .ok ⟨config, fromFile⟩) ↔
      Applies tree directory config := by
  constructor
  · intro given
    obtain ⟨fromFile, loaded⟩ := given
    rw [load] at loaded
    split at loaded
    · rename_i missing
      obtain ⟨rfl, -⟩ := Loaded.mk.inj (Except.ok.inj loaded)
      exact .default missing
    · rename_i file found
      split at loaded
      · cases loaded
      · rename_i parsed usable
        obtain ⟨rfl, -⟩ := Loaded.mk.inj (Except.ok.inj loaded)
        obtain ⟨text, held, read, valid⟩ := loadFile_eq_ok_iff.mp usable
        exact .file found held read valid
  · intro applies
    cases applies with
    | default missing => exact ⟨false, by simp only [load, missing]⟩
    | file found held read valid =>
        have usable := loadFile_eq_ok_iff.mpr ⟨_, held, read, valid⟩
        exact ⟨true, by simp only [load, found, usable]⟩

theorem load_eq_error_iff :
    (∃ fault, load tree directory = .error fault) ↔ Unusable tree directory := by
  constructor
  · intro given
    obtain ⟨fault, failed⟩ := given
    rw [load] at failed
    split at failed
    · cases failed
    · rename_i file found
      cases read : tree.read file with
      | error reason =>
          apply Unusable.unreadable found
          intro text held
          rw [FileTree.read_eq_ok_iff.mpr held] at read
          cases read
      | ok text =>
          have held := FileTree.read_eq_ok_iff.mp read
          cases parsed : parse text with
          | error reason => exact .unparsable found held parsed
          | ok config =>
              cases checked : config.validate with
              | error problem => exact .invalid found held parsed checked
              | ok => simp [loadFile, read, parsed, checked] at failed
  · intro broken
    cases broken with
    | @unreadable file found textless =>
        cases read : tree.read file with
        | ok text => exact absurd (FileTree.read_eq_ok_iff.mp read) (textless text)
        | error reason => exact ⟨_, by simp only [load, found, loadFile, read]; rfl⟩
    | unparsable found held flawed =>
        have read := FileTree.read_eq_ok_iff.mpr held
        exact ⟨_, by simp only [load, found, loadFile, read, flawed]; rfl⟩
    | invalid found held parsed flawed =>
        have read := FileTree.read_eq_ok_iff.mpr held
        exact ⟨_, by simp only [load, found, loadFile, read, parsed, flawed]; rfl⟩

/-- Without a file the default configuration is the only one. -/
theorem Applies.eq_default (applies : Applies tree directory config)
    (missing : find? tree directory = none) : config = Config.default := by
  cases applies with
  | default => rfl
  | file found =>
      rw [missing] at found
      cases found

/-- Either some configuration applies or the file found is of no use, and never both. -/
theorem not_unusable_iff :
    ¬Unusable tree directory ↔ ∃ config, Applies tree directory config := by
  simp only [← load_eq_error_iff, ← load_eq_ok_iff]
  cases load tree directory with
  | error fault => simp
  | ok loaded =>
      simp only [reduceCtorEq, exists_false, not_false_iff, true_iff]
      exact ⟨loaded.config, loaded.fromFile, rfl⟩

end

end SourceComments.Config
