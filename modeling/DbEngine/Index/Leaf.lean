import DbEngine.Index.Page
import DbEngine.Lib.Slots
import DbEngine.Lib.SortedMap

/-!
# Leaves as ordered maps

On ascending entries, `LeafPage::Lookup`, `Insert` and `Remove` are the operations of an
ordered map.
-/

namespace DbEngine.Index

open Lib

namespace LeafPage

variable {leaf : LeafPage} {key : KeyType}

/-- The entries below a key, and the rest. -/
lemma split_at_keyIndex (leaf : LeafPage) (key : KeyType) :
    ∃ lower upper, leaf.entries = lower ++ upper ∧ leaf.keyIndex key = lower.length ∧
      (∀ entry ∈ lower, entry.1 < key) ∧ ∀ first ∈ upper.head?, key ≤ first.1 := by
  refine ⟨leaf.entries.takeWhile fun entry => decide (entry.1 < key),
    leaf.entries.dropWhile fun entry => decide (entry.1 < key),
    List.takeWhile_append_dropWhile.symm, rfl, ?_, ?_⟩
  · intro entry mem
    simpa using List.mem_takeWhile_imp mem
  · intro first isFirst
    have stops := List.head?_dropWhile_not (fun entry => decide (entry.1 < key)) leaf.entries
    rw [mem_def.mp isFirst] at stops
    simpa using stops

/-- What stands at the index of a key: the key's entry, if it has one. -/
lemma at_keyIndex (ascending : Ascending leaf.entries) (key : KeyType) :
    ∃ lower, leaf.keyIndex key = lower.length ∧ (∀ entry ∈ lower, entry.1 < key) ∧
      ((∃ value upper, leaf.entries = lower ++ (key, value) :: upper ∧
          ∀ entry ∈ upper, key < entry.1) ∨
        ∃ upper, leaf.entries = lower ++ upper ∧ (∀ entry ∈ upper, key < entry.1) ∧
          leaf.keyAt (leaf.keyIndex key) ≠ some key) := by
  obtain ⟨lower, upper, entries, index, below, reached⟩ := leaf.split_at_keyIndex key
  refine ⟨lower, index, below, ?_⟩
  rw [entries, ascending_append] at ascending
  cases upper with
  | nil =>
    refine Or.inr ⟨[], entries, by simp, ?_⟩
    simp [keyAt, index, entries]
  | cons first rest =>
    have atLeast := reached first (by simp)
    obtain ⟨above, _⟩ := ascending_cons.mp ascending.2.1
    by_cases hit : first.1 = key
    · refine Or.inl ⟨first.2, rest, ?_, ?_⟩
      · rw [entries, ← hit]
      · intro entry mem
        rw [← hit]
        exact above entry mem
    · have larger : key < first.1 := lt_of_le_of_ne atLeast (Ne.symm hit)
      refine Or.inr ⟨first :: rest, entries, ?_, ?_⟩
      · intro entry mem
        rcases mem_cons.mp mem with rfl | later
        · exact larger
        · exact lt_trans larger (above entry later)
      · simpa [keyAt, index, entries] using hit

lemma lookup_of_absent (absent : leaf.keyAt (leaf.keyIndex key) ≠ some key) :
    leaf.lookup key = none := by
  rw [lookup]
  cases here : leaf.entries[leaf.keyIndex key]? with
  | none => rfl
  | some entry =>
    have ne : entry.1 ≠ key := by
      intro same
      apply absent
      rw [keyAt, here, ← same]
      rfl
    exact if_neg ne

lemma lookup_eq (ascending : Ascending leaf.entries) (key : KeyType) :
    leaf.lookup key = lookupEntry key leaf.entries := by
  obtain ⟨lower, index, below, found | missing⟩ := at_keyIndex ascending key
  · obtain ⟨value, upper, entries, above⟩ := found
    have here : leaf.entries[leaf.keyIndex key]? = some (key, value) := by
      rw [index, entries, getElem?_slot]
    rw [lookup, here, entries, lookupEntry_append, lookupEntry_eq_none.mpr fun entry mem =>
      ne_of_lt (below entry mem), lookupEntry_cons_self]
    simp
  · obtain ⟨upper, entries, above, absent⟩ := missing
    have nowhere : lookupEntry key leaf.entries = none := by
      rw [lookupEntry_eq_none, entries]
      intro entry mem
      rcases mem_append.mp mem with low | high
      · exact ne_of_lt (below entry low)
      · exact ne_of_gt (above entry high)
    rw [nowhere, lookup_of_absent absent]

lemma insert_eq (ascending : Ascending leaf.entries) (key : KeyType) {value : Bytes}
    (small : value.length ≤ MAX_VALUE_SIZE) : leaf.insert key value =
      .ok { leaf with entries := insertEntry key value leaf.entries } := by
  rw [insert, if_neg (not_lt.mpr small)]
  obtain ⟨lower, index, below, found | missing⟩ := at_keyIndex ascending key
  · obtain ⟨old, upper, entries, above⟩ := found
    have here : leaf.keyAt (leaf.keyIndex key) = some key := by
      rw [keyAt, index, entries]
      simp
    simp only [here, if_true]
    rw [index, entries, insertEntry_append_right below, set_slot]
    simp [insertEntry]
  · obtain ⟨upper, entries, above, absent⟩ := missing
    have placed : insertEntry key value upper = (key, value) :: upper := by
      cases upper with
      | nil => rfl
      | cons head rest => exact if_pos (above head mem_cons_self)
    simp only [absent, if_false]
    rw [index, entries, insertEntry_append_right below, placed, insertIdx_slot]

lemma remove_eq (ascending : Ascending leaf.entries) (key : KeyType) : leaf.remove key =
      if (lookupEntry key leaf.entries).isSome then
        some { leaf with entries := eraseEntry key leaf.entries }
      else none := by
  rw [← lookup_eq ascending key]
  obtain ⟨lower, index, below, found | missing⟩ := at_keyIndex ascending key
  · obtain ⟨old, upper, entries, above⟩ := found
    have here : leaf.entries[leaf.keyIndex key]? = some (key, old) := by
      rw [index, entries]
      simp
    have erased : eraseEntry key leaf.entries = lower ++ upper := by
      have middle : eraseEntry key (lower ++ [(key, old)] ++ upper) =
          lower ++ eraseEntry key [(key, old)] ++ upper := eraseEntry_middle below above
      rw [entries]
      simpa [eraseEntry] using middle
    simp only [remove, keyAt, lookup, here, map_some, if_true, Option.isSome_some, erased]
    rw [index, entries, eraseIdx_slot]
  · obtain ⟨upper, entries, above, absent⟩ := missing
    simp only [remove, if_neg absent, lookup_of_absent absent, Option.isSome_none,
      Bool.false_eq_true, if_false]

end LeafPage

end DbEngine.Index
