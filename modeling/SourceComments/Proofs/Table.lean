import SourceComments.Table
import Mathlib.Data.List.Induction
import Mathlib.Data.List.Nodup
import Mathlib.Data.String.Basic

/-! Tables and the entries they hold.

A table lists its entries in strict order of their keys, so its entries determine it. Of the
entries put into it under one key it holds the last, so entries under different keys may be put
in in any order, and if no two differ under one key, it holds all of them. -/

namespace SourceComments

/-- What a partial inverse picks from a list is what its members stand for. -/
theorem mem_filterMap_iff {α β : Type} {pick : α → Option β} {wrap : β → α}
    (inverse : ∀ item value, pick item = some value ↔ item = wrap value) {items : List α}
    {value : β} : value ∈ items.filterMap pick ↔ wrap value ∈ items := by
  simp only [List.mem_filterMap, inverse, exists_eq_right]

namespace Table

variable {α : Type}

theorem mem_place_self (key : String) (value : α) (entries : List (String × α)) :
    (key, value) ∈ place key value entries := by
  induction entries with
  | nil => exact List.mem_cons_self
  | cons first entries ih =>
      rw [place]
      split
      · exact List.mem_cons_self
      · split
        · exact List.mem_cons_self
        · exact List.mem_cons_of_mem first ih

theorem mem_place_of_ne {key : String} {value : α} {entries : List (String × α)}
    {entry : String × α} (other : entry.1 ≠ key) (member : entry ∈ entries) :
    entry ∈ place key value entries := by
  induction entries with
  | nil => cases member
  | cons first entries ih =>
      rw [place]
      split
      · exact List.mem_cons_of_mem _ member
      · split
        · rename_i same
          rcases List.mem_cons.mp member with rfl | later
          · exact absurd same.symm other
          · exact List.mem_cons_of_mem _ later
        · rcases List.mem_cons.mp member with rfl | later
          · exact List.mem_cons_self
          · exact List.mem_cons_of_mem _ (ih later)

theorem keys_nodup (table : Table α) : table.keys.Nodup := by
  rw [keys, List.Nodup, List.pairwise_map]
  exact table.ascending.imp fun less => String.ne_of_lt less

theorem entry_unique (table : Table α) {left right : String × α} (listed : left ∈ table.entries)
    (listedToo : right ∈ table.entries) (same : left.1 = right.1) : left = right :=
  List.inj_on_of_nodup_map table.keys_nodup listed listedToo same

/-- The entry that a search finds has the least key of all that it could find. -/
theorem find?_least {table : Table α} {accepts : String × α → Bool} {first other : String × α}
    (found : table.entries.find? accepts = some first) (listed : other ∈ table.entries)
    (accepted : accepts other = true) : first.1 ≤ other.1 := by
  obtain ⟨-, before, after, split, refused⟩ := List.find?_eq_some_iff_append.mp found
  rw [split] at listed
  rcases List.mem_append.mp listed with earlier | later
  · have missed := refused other earlier
    rw [accepted] at missed
    cases missed
  · rcases List.mem_cons.mp later with rfl | behind
    · exact String.le_refl _
    · have ascending := table.ascending
      rw [split] at ascending
      have ordered := (List.pairwise_append.mp ascending).2.1
      exact le_of_lt ((List.pairwise_cons.mp ordered).1 other behind)

/-- Under the key of an insertion there is its entry, and under the others what there was. -/
theorem mem_insert_iff {table : Table α} {key : String} {value : α} {entry : String × α} :
    entry ∈ (table.insert key value).entries ↔
      entry = (key, value) ∨ entry.1 ≠ key ∧ entry ∈ table.entries := by
  constructor
  · intro listed
    by_cases same : entry.1 = key
    · exact .inl ((table.insert key value).entry_unique listed (mem_place_self _ _ _) same)
    · rcases mem_place listed with rfl | before
      · exact .inl rfl
      · exact .inr ⟨same, before⟩
  · rintro (rfl | ⟨other, before⟩)
    · exact mem_place_self _ _ _
    · exact mem_place_of_ne other before

/-- Of all entries under one key, the table holds the last. -/
theorem mem_ofList_iff_getLast? {entries : List (String × α)} {entry : String × α} :
    entry ∈ (ofList entries).entries ↔
      (entries.filter fun other => other.1 == entry.1).getLast? = some entry := by
  -- From the back: only the last insertion can contradict what the others left.
  induction entries using List.reverseRecOn with
  | nil => simp [ofList, empty]
  | append_singleton entries last ih =>
      have grown : ofList (entries ++ [last]) = (ofList entries).insert last.1 last.2 := by
        rw [ofList, ofList, List.foldl_concat]
      rw [grown, mem_insert_iff, Prod.mk.eta, ih, List.filter_append]
      by_cases same : last.1 = entry.1
      · have kept : [last].filter (fun other => other.1 == entry.1) = [last] := by simp [same]
        rw [kept, List.getLast?_concat, Option.some_inj]
        simp [same, eq_comm]
      · have other : entry ≠ last := by
          rintro rfl
          exact same rfl
        simp [same, Ne.symm same, other]

/-- Entries that agree under every key are all in the table. -/
theorem mem_ofList_iff {entries : List (String × α)}
    (agree : ∀ left ∈ entries, ∀ right ∈ entries, left.1 = right.1 → left = right)
    {entry : String × α} : entry ∈ (ofList entries).entries ↔ entry ∈ entries := by
  rw [mem_ofList_iff_getLast?]
  constructor
  · intro last
    exact (List.mem_filter.mp (List.mem_of_getLast? last)).1
  · intro listed
    obtain ⟨last, here⟩ : ∃ last, (entries.filter fun other => other.1 == entry.1).getLast? =
        some last :=
      Option.isSome_iff_exists.mp (List.getLast?_isSome.mpr
        (List.ne_nil_of_mem (List.mem_filter.mpr ⟨listed, by simp⟩)))
    obtain ⟨among, same⟩ := List.mem_filter.mp (List.mem_of_getLast? here)
    rw [here, agree last among entry listed (by simpa using same)]

/-- Tables with the same entries are equal. -/
theorem eq_of_mem_iff {left right : Table α}
    (same : ∀ entry, entry ∈ left.entries ↔ entry ∈ right.entries) : left = right := by
  have distinct (table : Table α) : table.entries.Nodup := by
    apply table.ascending.imp
    rintro first second less rfl
    exact String.lt_irrefl _ less
  have perm : left.entries.Perm right.entries :=
    (List.perm_ext_iff_of_nodup (distinct left) (distinct right)).mpr same
  have entries : left.entries = right.entries := by
    refine perm.eq_of_pairwise ?_ left.ascending right.ascending
    intro first second _ _ before after
    exact absurd (String.lt_trans before after) (String.lt_irrefl _)
  obtain ⟨entries, ascending⟩ := left
  cases entries
  rfl

/-- Entries under different keys may be put in in any order. -/
theorem ofList_eq_of_filter_eq {left right : List (String × α)}
    (same : ∀ key, left.filter (fun entry => entry.1 == key) =
      right.filter fun entry => entry.1 == key) : ofList left = ofList right := by
  apply eq_of_mem_iff
  intro entry
  rw [mem_ofList_iff_getLast?, mem_ofList_iff_getLast?, same]

end Table

end SourceComments
