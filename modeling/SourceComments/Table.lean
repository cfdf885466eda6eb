/-! Tables: values under text keys, held in ascending order of their keys.

Text is ordered by code point, which is also the order of its UTF-8 bytes. A key
occurs once, so two tables with the same look-ups are equal. -/

namespace SourceComments

structure Table (α : Type) where
  entries : List (String × α)
  ascending : entries.Pairwise (fun left right => left.1 < right.1)
  deriving DecidableEq

namespace Table

variable {α : Type}

def empty : Table α := ⟨[], .nil⟩

def keys (table : Table α) : List String := table.entries.map Prod.fst

/-- Puts an entry in its place, replacing the one of the same key. -/
def place (key : String) (value : α) : List (String × α) → List (String × α)
  | [] => [(key, value)]
  | entry :: rest =>
      if key < entry.1 then (key, value) :: entry :: rest
      else if key = entry.1 then (key, value) :: rest
      else entry :: place key value rest

theorem mem_place {key : String} {value : α} {entries : List (String × α)}
    {entry : String × α} (member : entry ∈ place key value entries) :
    entry = (key, value) ∨ entry ∈ entries := by
  induction entries with
  | nil => simpa [place] using member
  | cons head rest ih =>
      unfold place at member
      split at member
      · simpa using member
      · split at member <;> grind

theorem pairwise_place {key : String} {value : α} {entries : List (String × α)}
    (ascending : entries.Pairwise (fun left right => left.1 < right.1)) :
    (place key value entries).Pairwise (fun left right => left.1 < right.1) := by
  induction entries with
  | nil => simp [place]
  | cons head rest ih =>
      obtain ⟨before, ordered⟩ := List.pairwise_cons.mp ascending
      unfold place
      split
      · next less =>
          refine List.pairwise_cons.mpr ⟨fun entry member => ?_, ascending⟩
          rcases List.mem_cons.mp member with rfl | later
          · exact less
          · exact String.lt_trans less (before entry later)
      · next notLess =>
          split
          · next same =>
              exact List.pairwise_cons.mpr
                ⟨fun entry member => same ▸ before entry member, ordered⟩
          · next different =>
              have above : head.1 < key := String.not_le.mp fun below =>
                different (String.le_antisymm below (String.not_lt.mp notLess))
              refine List.pairwise_cons.mpr ⟨fun entry member => ?_, ih ordered⟩
              rcases mem_place member with rfl | later
              · exact above
              · exact before entry later

def insert (table : Table α) (key : String) (value : α) : Table α :=
  ⟨place key value table.entries, pairwise_place table.ascending⟩

/-- The table of these entries; of two with one key the later counts. -/
def ofList (entries : List (String × α)) : Table α :=
  entries.foldl (fun table entry => table.insert entry.1 entry.2) empty

end Table

end SourceComments
