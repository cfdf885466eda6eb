import SourceComments.Proofs.Config.Settings

/-! Configurations, written and read back.

A written configuration is an object of its three settings, so every configuration is the one
its own text describes, whatever characters stand in its entries. -/

namespace SourceComments

/-- A table is the table of its own entries. -/
theorem Table.ofList_entries {α : Type} (table : Table α) : ofList table.entries = table := by
  apply eq_of_mem_iff
  intro entry
  apply mem_ofList_iff
  intro left listed right listedToo same
  exact table.entry_unique listed listedToo same

namespace Json.Read

/-- The reader takes the printed document for the value, at every depth of indentation. -/
def Reads {α : Type} (item : Reader α) (document : Json) (value : α) : Prop :=
  ∀ (blanks : List Char) (depth : Nat) (rest : List Char),
    (∀ char ∈ blanks, isBlank char = true) → Delimited rest →
    item (blanks ++ prettyChars depth document ++ rest) = .ok (value, rest)

/-- A printed document is read back as a whole. -/
theorem document_of_reads {α : Type} {item : Reader α} {printed : Json} {result : α}
    (reads : Reads item printed result) :
    Read.document item printed.pretty.toList = .ok result := by
  have whole := reads [] 0 [] (by simp) (by simp [Delimited])
  rw [List.nil_append, List.append_nil] at whole
  rw [pretty, String.toList_ofList]
  exact document_of_taken whole blank_nil

end Json.Read

namespace Config

open Json.Read (Reads)

/-- Members with the names and values of settings are spelled as these. -/
theorem SpellsSettings.of_members {documents : List (String × Json)} {settings : List Setting}
    (each : List.Forall₂ (fun document setting => ∀ text, Json.Spells document.2 text →
      SpellsSetting setting document.1 text) documents settings) {inner : List Char}
    (listed : Json.SpellsMembers documents inner) : SpellsSettings settings inner := by
  induction each generalizing inner with
  | nil => cases listed
  | cons first eachLater ih =>
      obtain ⟨_, _, text, _, named, aroundName, spelled, around, final⟩ := listed.uncons
      rcases final with ⟨rfl, rfl⟩ | ⟨others, rfl, later⟩
      · cases eachLater
        exact .last (first text spelled) named aroundName around
      · exact .next (first text spelled) named aroundName around (ih later)

/-- A written configuration is an object of its settings. -/
theorem spellsObject_toJson {config : Config} {text : List Char}
    (spelled : Json.Spells config.toJson text) :
    SpellsObject [.includes config.includes, .ignores config.ignores,
      .extensions config.extensions.entries] text := by
  obtain ⟨inner, rfl, ⟨none, -⟩ | listed⟩ := spelled.object_cases
  · cases none
  · refine .settings (.of_members ?_ listed)
    refine .cons (fun _ => .includes) (.cons (fun _ => .ignores) (.cons (fun _ => ?_) .nil))
    refine .extensions ?_
    exact List.forall₂_map_left_iff.mpr
      (List.forall₂_same.mpr fun entry _ => ⟨rfl, .name entry.2⟩)

theorem reader_reads (config : Config) : Reads reader config.toJson config := by
  intro blanks depth rest blank _
  have spelled := spellsObject_toJson (Json.spells_pretty depth config.toJson)
  have fits : Fits {} [.includes config.includes, .ignores config.ignores,
      .extensions config.extensions.entries] := ⟨Nat.le_refl 1, Nat.le_refl 1, Nat.le_refl 1⟩
  obtain ⟨fields, read, gathers⟩ := reader_spelled spelled fits blank rest
  have alike := (Rearranged.reordered (.refl [Setting.includes config.includes,
    .ignores config.ignores, .extensions config.extensions.entries])).alike
  obtain rfl : fields = ⟨some config.includes, some config.ignores,
      some (.ofList config.extensions.entries)⟩ := alike.fields_eq gathers ⟨rfl, rfl, rfl⟩
  rw [List.append_assoc, read, Fields.complete, Table.ofList_entries]
  rfl

/-- Every configuration is read back from its own text. -/
theorem parse_render (config : Config) : parse config.render = .ok config :=
  Json.Read.document_of_reads (reader_reads config)

end Config

end SourceComments
