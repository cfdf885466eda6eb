import SourceComments.Config.Reader
import SourceComments.Proofs.Json.Skipping
import SourceComments.Proofs.Table

/-! The settings of a configuration, in whatever order its text has them.

A text describes a configuration by an object with the known members, each at most once, and
others of which only the form matters. Every such text is read. What the configuration holds is
what the known members say, and the default for those that are missing, so neither the order of
the members nor anything about the unknown ones counts. -/

namespace SourceComments

theorem Language.ofName?_name (language : Language) : ofName? language.name = some language := by
  cases language <;> decide

namespace Config

open Json (Around Blank Formed Spells SpellsString spellsString_quoted)

/-- A member of the object that describes a configuration. -/
inductive Setting where
  | includes (patterns : List String)
  | ignores (patterns : List String)
  | extensions (entries : List (String × Language))
  | unknown (name : String)

namespace Setting

@[simp] def includes? : Setting → Option (List String)
  | includes patterns => some patterns
  | _ => none

@[simp] def ignores? : Setting → Option (List String)
  | ignores patterns => some patterns
  | _ => none

@[simp] def extensions? : Setting → Option (List (String × Language))
  | extensions entries => some entries
  | _ => none

end Setting

/-- A document for the language: its name, or an object with the name as its only key. -/
inductive Names : Json → Language → Prop where
  | name (language : Language) : Names (.string language.name) language
  | key (language : Language) : Names (.object [(language.name, .null)]) language

/-- The name of a setting and the text of its value. The value of an unknown one only has to be
well formed. -/
inductive SpellsSetting : Setting → String → List Char → Prop where
  | includes {patterns : List String} {text : List Char}
      (spelled : Spells (.array (patterns.map .string)) text) :
      SpellsSetting (.includes patterns) "includes" text
  | ignores {patterns : List String} {text : List Char}
      (spelled : Spells (.array (patterns.map .string)) text) :
      SpellsSetting (.ignores patterns) "ignores" text
  | extensions {entries : List (String × Language)} {documents : List (String × Json)}
      {text : List Char}
      (named : List.Forall₂ (fun document entry =>
        document.1 = entry.1 ∧ Names document.2 entry.2) documents entries)
      (spelled : Spells (.object documents) text) :
      SpellsSetting (.extensions entries) "extensions" text
  | unknown {name : String} {text : List Char}
      (other : name ∉ ["includes", "ignores", "extensions"]) (formed : Formed .value text) :
      SpellsSetting (.unknown name) name text

/-- One or more settings with commas between them, each with a colon behind its name. -/
inductive SpellsSettings : List Setting → List Char → Prop where
  | last {setting : Setting} {key : String} {name paddedName text padded : List Char}
      (spelled : SpellsSetting setting key text) (named : SpellsString key name)
      (aroundName : Around name paddedName) (around : Around text padded) :
      SpellsSettings [setting] (paddedName ++ ':' :: padded)
  | next {setting : Setting} {settings : List Setting} {key : String}
      {name paddedName text padded others : List Char}
      (spelled : SpellsSetting setting key text) (named : SpellsString key name)
      (aroundName : Around name paddedName) (around : Around text padded)
      (later : SpellsSettings settings others) :
      SpellsSettings (setting :: settings) (paddedName ++ ':' :: (padded ++ ',' :: others))

/-- The object of these settings, in their order. -/
inductive SpellsObject : List Setting → List Char → Prop where
  | empty {blanks : List Char} (blank : Blank blanks) :
      SpellsObject [] ('\x7b' :: (blanks ++ ['\x7d']))
  | settings {settings : List Setting} {text : List Char} (listed : SpellsSettings settings text) :
      SpellsObject settings ('\x7b' :: (text ++ ['\x7d']))

/-- The text is an object of these settings, with blanks around it or without. -/
def Describes (text : String) (settings : List Setting) : Prop :=
  ∃ written, SpellsObject settings written ∧ Around written text.toList

/-- No known setting is repeated. -/
structure AtMostOnce (settings : List Setting) : Prop where
  includes : (settings.filterMap Setting.includes?).length ≤ 1
  ignores : (settings.filterMap Setting.ignores?).length ≤ 1
  extensions : (settings.filterMap Setting.extensions?).length ≤ 1

/-- The configuration holds what the settings say, and the defaults for the rest. Of all
extensions that are equal, the last counts. -/
structure Holds (config : Config) (settings : List Setting) : Prop where
  includes : ∀ patterns, .includes patterns ∈ settings → config.includes = patterns
  noIncludes : (∀ patterns, .includes patterns ∉ settings) → config.includes = []
  ignores : ∀ patterns, .ignores patterns ∈ settings → config.ignores = patterns
  noIgnores : (∀ patterns, .ignores patterns ∉ settings) → config.ignores = defaultIgnores
  extensions : ∀ entries, .extensions entries ∈ settings → ∀ entry,
    entry ∈ config.extensions.entries ↔
      (entries.filter fun other => other.1 == entry.1).getLast? = some entry
  noExtensions : (∀ entries, .extensions entries ∉ settings) → config.extensions = .empty

/-- The settings differ in their order, in the unknown ones among them, or in the order of
extensions, where equal ones do not change places. -/
inductive Rearranged : List Setting → List Setting → Prop where
  | reordered {settings others : List Setting} (perm : settings.Perm others) :
      Rearranged settings others
  | added (name : String) (settings : List Setting) :
      Rearranged settings (.unknown name :: settings)
  | extensions {left right : List (String × Language)}
      (same : ∀ key, left.filter (fun entry => entry.1 == key) =
        right.filter fun entry => entry.1 == key) (settings : List Setting) :
      Rearranged (.extensions left :: settings) (.extensions right :: settings)
  | symm {settings others : List Setting} (rearranged : Rearranged settings others) :
      Rearranged others settings
  | trans {settings others more : List Setting} (first : Rearranged settings others)
      (second : Rearranged others more) : Rearranged settings more

section

variable {blanks rest : List Char}

theorem firstKey_spelled (blank : Blank blanks) {key : String} {name : List Char}
    (named : SpellsString key name) (rest : List Char) :
    firstKey (blanks ++ (name ++ rest)) = .ok (key, rest) := by
  cases named with
  | quotes chars =>
      rw [firstKey, Json.Read.skipBlanks_append blank, List.cons_append,
        Json.Read.skipBlanks_cons (by decide), List.append_assoc, List.singleton_append]
      exact Json.Read.stringBody_spelled chars rest

theorem nothing_spelled (blank : Blank blanks) {text : List Char} (spelled : Spells .null text)
    (rest : List Char) : nothing (blanks ++ (text ++ rest)) = .ok rest := by
  cases spelled
  rw [nothing, Json.Read.skipBlanks_append blank, List.cons_append,
    Json.Read.skipBlanks_cons (by decide)]
  rfl

theorem named_name (language : Language) : named language.name = .ok language := by
  simp only [named, Language.ofName?_name]

theorem texts_takes (bound : Nat) (entries : List String) :
    Json.Read.Takes (bound + 1) texts (.array (entries.map .string)) entries :=
  Json.Read.array_takes (List.forall₂_map_left_iff.mpr
    (List.forall₂_same.mpr fun text _ => Json.Read.string_takes bound text))

theorem language_takes (bound : Nat) {document : Json} {known : Language}
    (names : Names document known) : Json.Read.Takes bound language document known := by
  intro text spelled _ blanks rest blank _
  cases names with
  | name =>
      obtain ⟨body, chars, rfl⟩ := spelled.string_cases
      rw [language, Json.Read.skipBlanks_append blank, List.cons_append,
        Json.Read.skipBlanks_cons (by decide), List.append_assoc, List.singleton_append]
      simp only [Json.Read.stringBody_spelled chars, named_name, bind, Except.bind]
  | key =>
      obtain ⟨inner, rfl, ⟨none, -⟩ | listed⟩ := spelled.object_cases
      · cases none
      obtain ⟨name, _, _, _, named, ⟨blankName, blankColon⟩, spelledNull,
        ⟨blankBefore, blankAfter⟩, ⟨-, rfl⟩ | ⟨_, -, others⟩⟩ := listed.uncons
      · rw [language, Json.Read.skipBlanks_append blank, List.cons_append,
          Json.Read.skipBlanks_cons (by decide)]
        simp only [List.append_assoc, List.cons_append, List.nil_append,
          firstKey_spelled blankName named, named_name, Json.Read.colon_spelled blankColon,
          nothing_spelled blankBefore spelledNull, Json.Read.skipBlanks_append blankAfter,
          Json.Read.skipBlanks_cons (show Json.Read.isBlank '\x7d' = false by decide), bind,
          Except.bind]
      · cases others

theorem languages_takes (bound : Nat) {entries : List (String × Language)}
    {documents : List (String × Json)}
    (named : List.Forall₂ (fun document entry =>
      document.1 = entry.1 ∧ Names document.2 entry.2) documents entries) :
    Json.Read.Takes (bound + 1) languages (.object documents) (.ofList entries) := by
  intro text spelled short blanks rest blank stops
  have taken : Json.Read.Takes (bound + 1) (Json.Read.object language) (.object documents)
      entries :=
    Json.Read.object_takes (named.imp fun document entry names =>
      ⟨names.1, language_takes bound names.2⟩)
  simp only [languages, taken spelled short blank stops, bind, Except.bind]

end

/-- The fields have grown by these settings. -/
structure Gathers (fields : Fields) (settings : List Setting) (grown : Fields) : Prop where
  includes : grown.includes.toList =
    fields.includes.toList ++ settings.filterMap Setting.includes?
  ignores : grown.ignores.toList = fields.ignores.toList ++ settings.filterMap Setting.ignores?
  extensions : grown.extensions.toList =
    fields.extensions.toList ++ (settings.filterMap Setting.extensions?).map .ofList

/-- The settings give no field a second value. -/
structure Fits (fields : Fields) (settings : List Setting) : Prop where
  includes : (fields.includes.toList ++ settings.filterMap Setting.includes?).length ≤ 1
  ignores : (fields.ignores.toList ++ settings.filterMap Setting.ignores?).length ≤ 1
  extensions : (fields.extensions.toList ++
    (settings.filterMap Setting.extensions?).map Table.ofList).length ≤ 1

section

variable {fields grown final : Fields} {settings later : List Setting}

theorem Gathers.nil (fields : Fields) : Gathers fields [] fields := by
  constructor <;> simp

theorem Gathers.append (first : Gathers fields settings grown)
    (second : Gathers grown later final) : Gathers fields (settings ++ later) final where
  includes := by rw [second.includes, first.includes, List.filterMap_append, List.append_assoc]
  ignores := by rw [second.ignores, first.ignores, List.filterMap_append, List.append_assoc]
  extensions := by
    rw [second.extensions, first.extensions, List.filterMap_append, List.map_append,
      List.append_assoc]

/-- What is read of the settings leaves room for the others. -/
theorem Fits.behind (fits : Fits fields (settings ++ later))
    (first : Gathers fields settings grown) : Fits grown later where
  includes := by
    rw [first.includes, List.append_assoc, ← List.filterMap_append]
    exact fits.includes
  ignores := by
    rw [first.ignores, List.append_assoc, ← List.filterMap_append]
    exact fits.ignores
  extensions := by
    rw [first.extensions, List.append_assoc, ← List.map_append, ← List.filterMap_append]
    exact fits.extensions

/-- There is room for what comes first among the values of a field. -/
theorem none_of_fits {α : Type} {held : Option α} {value : α} {values : List α}
    (fits : (held.toList ++ value :: values).length ≤ 1) : held = none := by
  cases held with
  | none => rfl
  | some held => simp at fits

end

section

variable {fields : Fields} {setting : Setting} {settings : List Setting} {name : String}
  {text blanks blanksColon rest : List Char}

theorem member_spelled (spelled : SpellsSetting setting name text)
    (fits : Fits fields (setting :: settings)) (blankColon : Blank blanksColon)
    (blank : Blank blanks) (delimited : Json.Read.Delimited rest) :
    ∃ grown, member fields name (blanksColon ++ ':' :: (blanks ++ (text ++ rest))) =
      .ok (grown, rest) ∧ Gathers fields [setting] grown := by
  cases spelled with
  | @includes patterns _ spelled =>
      have free := none_of_fits fits.includes
      have taken := texts_takes _ patterns spelled (Nat.lt_succ_self _) blank delimited.stops
      refine ⟨{ fields with includes := some patterns }, ?_, ?_⟩
      · simp [member, free, Json.Read.colon_spelled blankColon, taken, bind, Except.bind]
      · constructor <;> simp [free]
  | @ignores patterns _ spelled =>
      have free := none_of_fits fits.ignores
      have taken := texts_takes _ patterns spelled (Nat.lt_succ_self _) blank delimited.stops
      refine ⟨{ fields with ignores := some patterns }, ?_, ?_⟩
      · simp [member, free, Json.Read.colon_spelled blankColon, taken, bind, Except.bind]
      · constructor <;> simp [free]
  | @extensions entries _ _ named spelled =>
      have free := none_of_fits fits.extensions
      have taken := languages_takes _ named spelled (Nat.lt_succ_self _) blank delimited.stops
      refine ⟨{ fields with extensions := some (.ofList entries) }, ?_, ?_⟩
      · simp [member, free, Json.Read.colon_spelled blankColon, taken, bind, Except.bind]
      · constructor <;> simp [free]
  | unknown other formed =>
      have passed := Json.Read.skipValue_formed blank formed delimited
      refine ⟨fields, ?_, ?_⟩
      · simp only [List.mem_cons, List.not_mem_nil, or_false, not_or] at other
        simp [member, other, Json.Read.colon_spelled blankColon, passed, bind, Except.bind]
      · constructor <;> simp

/-- One member and what comes after it. -/
theorem members_cons {fuel : Nat} {isFirst : Bool} {grown : Fields} {after : List Char}
    (goesOn : Json.Read.nextKey isFirst text = .ok (some name, after))
    (taken : member fields name after = .ok (grown, rest)) :
    members (fuel + 1) isFirst fields text = members fuel false grown rest := by
  simp only [members, goesOn, taken, bind, Except.bind]

theorem members_end {fuel : Nat} {isFirst : Bool}
    (ends : Json.Read.nextKey isFirst text = .ok (none, rest)) :
    members (fuel + 1) isFirst fields text = .ok (fields, rest) := by
  simp only [members, ends, bind, Except.bind]

/-- The settings up to the closing brace. -/
theorem members_spelled (listed : SpellsSettings settings text) (fits : Fits fields settings)
    {isFirst : Bool} {lead : List Char} (leads : Json.Read.Leads isFirst lead) {fuel : Nat}
    (enough : text.length < fuel) (rest : List Char) :
    ∃ final, members fuel isFirst fields (lead ++ (text ++ '\x7d' :: rest)) = .ok (final, rest) ∧
      Gathers fields settings final := by
  -- One member after another: what the first makes of the fields has room for the others.
  induction listed generalizing fields isFirst lead fuel with
  | last spelled named aroundName around =>
      obtain ⟨blankName, blankColon⟩ := aroundName
      obtain ⟨blankBefore, blankAfter⟩ := around
      simp only [List.length_append, List.length_cons] at enough
      obtain ⟨fuel, rfl⟩ := Nat.exists_eq_add_of_le' (show 2 ≤ fuel by omega)
      have delimited := Json.Read.delimited_blank blankAfter
        (Json.Read.delimited_cons (show '\x7d' ∈ [',', ']', '\x7d'] by decide) rest)
      obtain ⟨grown, taken, gathers⟩ := member_spelled spelled fits blankColon blankBefore delimited
      refine ⟨grown, ?_, gathers⟩
      simp only [List.append_assoc, List.cons_append]
      rw [members_cons (Json.Read.nextKey_spelled leads blankName named _) taken]
      exact members_end (Json.Read.nextKey_end blankAfter rest)
  | @next setting settings _ _ _ _ _ others spelled named aroundName around later ih =>
      obtain ⟨blankName, blankColon⟩ := aroundName
      obtain ⟨blankBefore, blankAfter⟩ := around
      simp only [List.length_append, List.length_cons] at enough
      obtain ⟨fuel, rfl⟩ := Nat.exists_eq_add_one.mpr (Nat.zero_lt_of_lt enough)
      have delimited := Json.Read.delimited_blank blankAfter
        (Json.Read.delimited_cons (show ',' ∈ [',', ']', '\x7d'] by decide)
          (others ++ '\x7d' :: rest))
      obtain ⟨grown, taken, gathers⟩ := member_spelled spelled fits blankColon blankBefore delimited
      have room : Fits grown settings := Fits.behind fits gathers
      obtain ⟨final, onward, gathersLater⟩ :=
        ih room (.later blankAfter) (show others.length < fuel by omega)
      refine ⟨final, ?_, Gathers.append gathers gathersLater⟩
      simp only [List.append_assoc, List.cons_append]
      rw [members_cons (Json.Read.nextKey_spelled leads blankName named _) taken, ← onward,
        List.append_assoc, List.singleton_append]

theorem reader_of_members (blank : Blank blanks)
    (found : members (text.length + 1) true {} text = .ok (fields, rest)) :
    reader (blanks ++ '\x7b' :: text) = .ok (fields.complete, rest) := by
  rw [reader, Json.Read.skipBlanks_append blank, Json.Read.skipBlanks_cons (by decide)]
  simp only [found, bind, Except.bind]

/-- An object of settings is read, and every field is given its value. -/
theorem reader_spelled (spelled : SpellsObject settings text) (fits : Fits {} settings)
    (blank : Blank blanks) (rest : List Char) :
    ∃ fields, reader (blanks ++ (text ++ rest)) = .ok (Fields.complete fields, rest) ∧
      Gathers {} settings fields := by
  cases spelled with
  | empty blankInner =>
      simp only [List.append_assoc, List.cons_append, List.nil_append]
      exact ⟨{}, reader_of_members blank (members_end (Json.Read.nextKey_end blankInner rest)),
        .nil {}⟩
  | @settings _ inner listed =>
      have enough : inner.length < (inner ++ '\x7d' :: rest).length + 1 := by
        rw [List.length_append]
        omega
      obtain ⟨fields, found, gathers⟩ := members_spelled listed fits .first enough rest
      simp only [List.append_assoc, List.cons_append, List.nil_append]
      exact ⟨fields, reader_of_members blank found, gathers⟩

end

section

variable {α : Type} {held other : Option α} {values : List α}

/-- A field that was gathered from the settings of one kind holds the value of such a setting,
and the default if there is none. -/
theorem getD_of_gathered {β : Type} {make : β → Setting} {project : Setting → Option β}
    {read : β → α} {settings : List Setting}
    (inverse : ∀ setting value, project setting = some value ↔ setting = make value)
    (same : held.toList = (settings.filterMap project).map read) (default : α) :
    (∀ value, make value ∈ settings → held.getD default = read value) ∧
      ((∀ value, make value ∉ settings) → held.getD default = default) := by
  constructor
  · intro value listed
    have among := List.mem_map_of_mem (f := read) ((mem_filterMap_iff inverse).mpr listed)
    rw [← same, Option.mem_toList] at among
    rw [among, Option.getD_some]
  · intro missing
    cases held with
    | none => rfl
    | some value =>
        have among : value ∈ (settings.filterMap project).map read := same ▸ List.mem_cons_self
        obtain ⟨kept, listed, -⟩ := List.mem_map.mp among
        exact absurd ((mem_filterMap_iff inverse).mp listed) (missing kept)

theorem eq_of_toList_perm (perm : held.toList.Perm other.toList) : held = other := by
  apply Option.ext
  intro value
  rw [← Option.mem_toList, ← Option.mem_toList]
  exact perm.mem_iff

end

section

variable {settings others : List Setting} {fields otherFields : Fields}

/-- What was gathered from the settings is what they say. -/
theorem Gathers.holds (gathers : Gathers {} settings fields) :
    Holds fields.complete settings := by
  have includes := getD_of_gathered (fun setting (patterns : List String) =>
      show setting.includes? = some patterns ↔ setting = .includes patterns by
        cases setting <;> simp) (gathers.includes.trans (List.map_id _).symm) []
  have ignores := getD_of_gathered (fun setting (patterns : List String) =>
      show setting.ignores? = some patterns ↔ setting = .ignores patterns by
        cases setting <;> simp) (gathers.ignores.trans (List.map_id _).symm) defaultIgnores
  have extensions := getD_of_gathered (fun setting (entries : List (String × Language)) =>
      show setting.extensions? = some entries ↔ setting = .extensions entries by
        cases setting <;> simp) gathers.extensions .empty
  refine ⟨includes.1, includes.2, ignores.1, ignores.2, ?_, extensions.2⟩
  intro entries listed entry
  rw [show fields.complete.extensions = .ofList entries from extensions.1 entries listed,
    Table.mem_ofList_iff_getLast?]

/-- Both lists say the same about each field. -/
structure Alike (settings others : List Setting) : Prop where
  includes : (settings.filterMap Setting.includes?).Perm (others.filterMap Setting.includes?)
  ignores : (settings.filterMap Setting.ignores?).Perm (others.filterMap Setting.ignores?)
  extensions : ((settings.filterMap Setting.extensions?).map Table.ofList).Perm
    ((others.filterMap Setting.extensions?).map Table.ofList)

theorem Rearranged.alike (rearranged : Rearranged settings others) : Alike settings others := by
  induction rearranged with
  | reordered perm => exact ⟨perm.filterMap _, perm.filterMap _, (perm.filterMap _).map _⟩
  | added => exact ⟨.refl _, .refl _, .refl _⟩
  | extensions same settings =>
      refine ⟨.refl _, .refl _, .of_eq ?_⟩
      have equal := Table.ofList_eq_of_filter_eq same
      simp only [List.filterMap_cons, Setting.extensions?, List.map_cons, equal]
  | symm _ ih => exact ⟨ih.includes.symm, ih.ignores.symm, ih.extensions.symm⟩
  | trans _ _ ih ihToo =>
      exact ⟨ih.includes.trans ihToo.includes, ih.ignores.trans ihToo.ignores,
        ih.extensions.trans ihToo.extensions⟩

theorem Alike.atMostOnce (alike : Alike settings others) (once : AtMostOnce settings) :
    AtMostOnce others where
  includes := alike.includes.length_eq ▸ once.includes
  ignores := alike.ignores.length_eq ▸ once.ignores
  extensions := by
    have same := alike.extensions.length_eq
    rw [List.length_map, List.length_map] at same
    exact same ▸ once.extensions

theorem Alike.fields_eq (alike : Alike settings others) (gathers : Gathers {} settings fields)
    (gathersToo : Gathers {} others otherFields) : fields = otherFields := by
  have includes : fields.includes = otherFields.includes := by
    apply eq_of_toList_perm
    rw [gathers.includes, gathersToo.includes]
    exact alike.includes
  have ignores : fields.ignores = otherFields.ignores := by
    apply eq_of_toList_perm
    rw [gathers.ignores, gathersToo.ignores]
    exact alike.ignores
  have extensions : fields.extensions = otherFields.extensions := by
    apply eq_of_toList_perm
    rw [gathers.extensions, gathersToo.extensions]
    exact alike.extensions
  cases fields
  cases otherFields
  simp only at includes ignores extensions
  rw [includes, ignores, extensions]

/-- Extensions without repetitions may stand in any order. -/
theorem Rearranged.of_perm {left right : List (String × Language)} (perm : left.Perm right)
    (distinct : (left.map Prod.fst).Nodup) (settings : List Setting) :
    Rearranged (.extensions left :: settings) (.extensions right :: settings) := by
  refine .extensions (fun key => ?_) settings
  have kept : (left.filter fun entry => entry.1 == key).Perm
      (right.filter fun entry => entry.1 == key) := perm.filter _
  have single : (left.filter fun entry => entry.1 == key).length ≤ 1 := by
    have keys : ((left.filter fun entry => entry.1 == key).map Prod.fst).Nodup :=
      distinct.sublist (List.filter_sublist.map Prod.fst)
    have alike : ∀ name ∈ (left.filter fun entry => entry.1 == key).map Prod.fst, name = key := by
      simp
    rw [List.eq_replicate_of_mem alike, List.nodup_replicate, List.length_map] at keys
    exact keys
  cases same : left.filter fun entry => entry.1 == key with
  | nil =>
      rw [same] at kept
      exact kept.nil_eq
  | cons entry others =>
      rw [same] at kept single
      obtain rfl : others = [] := by simpa using single
      exact kept.singleton_eq

theorem AtMostOnce.fits (once : AtMostOnce settings) : Fits {} settings where
  includes := once.includes
  ignores := once.ignores
  extensions := by
    rw [List.length_append, List.length_map]
    simpa using once.extensions

theorem parse_described {text : String} (described : Describes text settings)
    (once : AtMostOnce settings) :
    ∃ fields : Fields, parse text = .ok fields.complete ∧ Gathers {} settings fields := by
  obtain ⟨written, spelled, around⟩ := described
  rw [parse]
  generalize text.toList = padded at around
  obtain ⟨blankBefore, blankAfter⟩ := around
  obtain ⟨fields, read, gathers⟩ := reader_spelled spelled once.fits blankBefore _
  exact ⟨fields, Json.Read.document_of_taken read blankAfter, gathers⟩

end

/-- Every object of settings is read, and neither their order nor an unknown one counts. -/
theorem parse_settings {settings : List Setting} {text : String}
    (described : Describes text settings) (once : AtMostOnce settings) :
    ∃ config, parse text = .ok config ∧ Holds config settings ∧
      ∀ ⦃others : List Setting⦄ ⦃otherText : String⦄, Rearranged settings others →
        Describes otherText others →
          ∃ other, parse otherText = .ok other ∧ other = config ∧
            other.validate = config.validate ∧
            ∀ path, other.languageFor? path = config.languageFor? path := by
  obtain ⟨fields, parsed, gathers⟩ := parse_described described once
  refine ⟨fields.complete, parsed, gathers.holds, ?_⟩
  intro others otherText rearranged describedToo
  have alike := rearranged.alike
  obtain ⟨otherFields, parsedToo, gathersToo⟩ :=
    parse_described describedToo (alike.atMostOnce once)
  obtain rfl := alike.fields_eq gathers gathersToo
  exact ⟨fields.complete, parsedToo, rfl, rfl, fun _ => rfl⟩

/-- An unknown member with half a pair of surrogates in its value, an escaped name, and two
extensions that differ only in case. -/
theorem describes_unsorted :
    Describes ("\x7b\"?\":[-1.5e+3,\x7b\"\\ud800\":null\x7d] ," ++
        "\"\\u0065xtensions\":\x7b\"h\":\"c\",\"H\":\x7b\"cpp\":null\x7d\x7d\x7d")
      [.unknown "?", .extensions [("h", .c), ("H", .cpp)]] := by
  have space : Blank [' '] := List.forall_mem_singleton.mpr rfl
  have digit (char : Char) (known : char.isDigit = true) : Json.Digits [char] :=
    ⟨List.cons_ne_nil char [], List.forall_mem_singleton.mpr known⟩
  have number : Json.FormedNumber "-1.5e+3".toList :=
    @Json.FormedNumber.parts ['-'] ['1'] ['.', '5'] ['e', '+', '3'] (.inr rfl)
      ⟨digit _ rfl, by decide⟩ (.point (digit _ rfl))
      (@Json.Exponent.power 'e' ['+'] ['3'] (.inl rfl) (.inr (.inl rfl)) (digit _ rfl))
  have half : Json.FormedString "\"\\ud800\"".toList :=
    @Json.FormedString.quotes "\\ud800".toList
      (@Json.FormedChars.unit ['d', '8', '0', '0'] [] _ (.digits rfl rfl rfl rfl) .nil)
  have items : Formed .items "-1.5e+3,\x7b\"\\ud800\":null\x7d".toList :=
    .nextItem (.number number) (.self _)
      (.lastItem (.object (.lastMember half (.self _) .null (.self _))) (.self _))
  have escaped : SpellsString "extensions" "\"\\u0065xtensions\"".toList := by
    have chars := Json.SpellsChars.cons
      (.unit (Json.codeUnit_hexDigits (show 101 < 256 by decide)) (.inl (by decide)))
      (Json.spellsChars_escaped "xtensions".toList)
    exact @SpellsString.quotes "extensions" "\\u0065xtensions".toList chars
  have tagged : Spells (.object [("cpp", .null)]) "\x7b\"cpp\":null\x7d".toList :=
    .object (.last (spellsString_quoted "cpp") (.self _) .null (.self _))
  have languages : Spells (.object [("h", .string "c"), ("H", .object [("cpp", .null)])])
      "\x7b\"h\":\"c\",\"H\":\x7b\"cpp\":null\x7d\x7d".toList :=
    .object (.next (spellsString_quoted "h") (.self _)
      (.string (spellsString_quoted "c")) (.self _)
      (.last (spellsString_quoted "H") (.self _) tagged (.self _)))
  exact ⟨_, .settings (.next (.unknown (by decide) (.array items)) (spellsString_quoted "?")
    (.self _) (.blanks Json.blank_nil space)
    (.last (.extensions (.cons ⟨rfl, .name .c⟩ (.cons ⟨rfl, .key .cpp⟩ .nil)) languages) escaped
      (.self _) (.self _))), .self _⟩

theorem describes_sorted :
    Describes "\x7b\"extensions\":\x7b\"H\":\"cpp\",\"h\":\"c\"\x7d\x7d"
      [.extensions [("H", .cpp), ("h", .c)]] := by
  have languages : Spells (.object [("H", .string "cpp"), ("h", .string "c")])
      "\x7b\"H\":\"cpp\",\"h\":\"c\"\x7d".toList :=
    .object (.next (spellsString_quoted "H") (.self _)
      (.string (spellsString_quoted "cpp")) (.self _)
      (.last (spellsString_quoted "h") (.self _) (.string (spellsString_quoted "c"))
        (.self _)))
  exact ⟨_, .settings (.last
    (.extensions (.cons ⟨rfl, .name .cpp⟩ (.cons ⟨rfl, .name .c⟩ .nil)) languages)
    (spellsString_quoted "extensions") (.self _) (.self _)), .self _⟩

theorem parse_settings_unsorted :
    AtMostOnce [.unknown "?", .extensions [("h", .c), ("H", .cpp)]] ∧
      ∃ config,
        parse ("\x7b\"?\":[-1.5e+3,\x7b\"\\ud800\":null\x7d] ," ++
          "\"\\u0065xtensions\":\x7b\"h\":\"c\",\"H\":\x7b\"cpp\":null\x7d\x7d\x7d") = .ok config ∧
        Holds config [.unknown "?", .extensions [("h", .c), ("H", .cpp)]] ∧
        ∃ other,
          parse "\x7b\"extensions\":\x7b\"H\":\"cpp\",\"h\":\"c\"\x7d\x7d" = .ok other ∧
          other = config ∧ other.validate = config.validate ∧
          ∀ path, other.languageFor? path = config.languageFor? path := by
  have once : AtMostOnce [.unknown "?", .extensions [("h", .c), ("H", .cpp)]] :=
    ⟨Nat.zero_le 1, Nat.zero_le 1, Nat.le_refl 1⟩
  have rearranged : Rearranged [.unknown "?", .extensions [("h", .c), ("H", .cpp)]]
      [.extensions [("H", .cpp), ("h", .c)]] :=
    .trans (.symm (.added "?" _)) (.of_perm (.swap _ _ []) (by decide) [])
  obtain ⟨config, parsed, holds, same⟩ := parse_settings describes_unsorted once
  exact ⟨once, config, parsed, holds, same rearranged describes_sorted⟩

end Config

end SourceComments
