import DbEngine.Lib.Slots
import DbEngine.Lsm.SSTableRoundTrip

/-!
# Searching an open table

The sparse index finds the one part of the list in which a key can be.  A lookup stays in
that part, and an iterator goes on from it through the later ones.
-/

namespace DbEngine.Lsm.TableFile

open Lib Storage

variable {entries : List Entry} {parts : List (List Entry)} {table : OpenTable}

/-- The first key of a part. -/
def headKey (part : List Entry) : KeyType := (part.head?.map Prod.fst).getD 0

variable {entry : Entry} {part : List Entry} {key : KeyType} {before after : List (List Entry)}
  {fuel : Nat}

/-- What a slot gives back. -/
lemma stored_ofEntry (fits : entry.2.value.length ≤ MAX_VALUE_SIZE) :
    (DataEntry.ofEntry entry).stored = entry.2 := by
  have length : (UInt16.ofNat entry.2.value.length).toNat = entry.2.value.length := by
    apply UInt16.toNat_ofNat_of_lt
    rw [MAX_VALUE_SIZE] at fits
    exact lt_of_le_of_lt fits (by decide)
  have value := take_overwrite (Vector.replicate MAX_VALUE_SIZE 0) fits
  have flag : ((if entry.2.deleted then 1 else 0 : UInt8) != 0) = entry.2.deleted := by
    cases entry.2.deleted <;> rfl
  rw [DataEntry.stored, DataEntry.ofEntry, length, value, flag]

variable {i index : Nat} {page : DataPage}

/-- The page of a part. -/
lemma Opened.dataPage (opened : Opened entries parts table) (found : parts[i]? = some part) :
    ∃ page, table.dataPage (1 + i : Nat) = some page ∧ page.count = part.length ∧
      page.count ≤ maxEntriesPerDataPage ∧ page.items = part.map DataEntry.ofEntry := by
  obtain ⟨-, page, asData, holds⟩ := opened.laid i part found
  refine ⟨page, ?_, holds⟩
  rw [OpenTable.dataPage, fetch_ofNat]
  exact asData

/-- The slot of an entry. -/
lemma slot_eq (count : page.count = part.length) (valid : page.count ≤ maxEntriesPerDataPage)
    (items : page.items = part.map DataEntry.ofEntry) (found : part[index]? = some entry) :
    page.slot index = DataEntry.ofEntry entry := by
  have used : index < page.count := by
    rw [count]
    exact (getElem?_eq_some_iff.mp found).1
  have slot := PackedPage.getElem?_items valid used
  rw [items, getElem?_map, found] at slot
  exact (Option.some.inj slot).symm

lemma lowerBound_eq (items : page.items = part.map DataEntry.ofEntry) (key : KeyType) :
    OpenTable.lowerBound page key = part.findIdx fun entry => decide (key ≤ entry.1) := by
  rw [OpenTable.lowerBound, items, List.findIdx_map]
  rfl

/-! ## Where a key can be -/

lemma headKey_mem (nonempty : part ≠ []) : ∃ entry ∈ part, headKey part = entry.1 := by
  cases part with
  | nil => exact absurd rfl nonempty
  | cons first rest => exact ⟨first, mem_cons_self, rfl⟩

lemma headKey_le (ascending : Ascending part) (mem : entry ∈ part) : headKey part ≤ entry.1 := by
  cases part with
  | nil => cases mem
  | cons first rest =>
    rcases mem_cons.mp mem with rfl | mem
    · exact le_rfl
    · exact ((ascending_cons.mp ascending).1 entry mem).le

/-- The parts up to the one in which a key can be, and those behind it. -/
structure Locates (key : KeyType) (before : List (List Entry)) (part : List Entry)
    (after : List (List Entry)) : Prop where
  reached : ∀ other ∈ before ++ [part], headKey other ≤ key
  beyond : ∀ other ∈ after, key < headKey other

lemma exists_locates (heads : parts.Pairwise fun left right => headKey left < headKey right)
    {first : List Entry} (starts : parts = first :: rest) (reached : headKey first ≤ key) :
    ∃ before part after, parts = before ++ part :: after ∧ Locates key before part after := by
  subst starts
  induction rest generalizing first with
  | nil =>
    exact ⟨[], first, [], rfl, by simpa using reached, by simp⟩
  | cons second rest ih =>
    obtain ⟨least, heads⟩ := pairwise_cons.mp heads
    by_cases further : headKey second ≤ key
    · obtain ⟨before, part, after, split, upTo, beyond⟩ := ih further heads
      refine ⟨first :: before, part, after, by rw [split]; rfl, ?_, beyond⟩
      intro other mem
      rcases mem_cons.mp mem with rfl | mem
      · exact reached
      · exact upTo other mem
    · refine ⟨[], first, second :: rest, rfl, by simpa using reached, ?_⟩
      intro other mem
      rcases mem_cons.mp mem with rfl | mem
      · exact not_le.mp further
      · exact (not_le.mp further).trans ((pairwise_cons.mp heads).1 other mem)

lemma findIdx_append_of_forall {α : Type} {test : α → Bool} {left right : List α}
    (misses : ∀ item ∈ left, test item = false) (hits : ∀ item ∈ right, test item = true) :
    (left ++ right).findIdx test = left.length := by
  induction left with
  | nil =>
    cases right with
    | nil => rfl
    | cons head rest => simp [List.findIdx_cons, hits head mem_cons_self]
  | cons head rest ih =>
    rw [cons_append, List.findIdx_cons, misses head mem_cons_self, cond_false,
      ih fun item mem => misses item (mem_cons_of_mem _ mem), length_cons]

lemma Ascending.heads (ascending : Ascending parts.flatten) (nonempty : ∀ part ∈ parts, part ≠ []) :
    parts.Pairwise fun left right => headKey left < headKey right := by
  induction parts with
  | nil => exact .nil
  | cons part parts ih =>
    obtain ⟨-, later, below⟩ := ascending_append.mp ascending
    apply List.Pairwise.cons
    · intro other mem
      obtain ⟨first, firstMem, head⟩ := headKey_mem (nonempty part mem_cons_self)
      obtain ⟨second, secondMem, otherHead⟩ := headKey_mem (nonempty other (mem_cons_of_mem _ mem))
      rw [head, otherHead]
      exact below first firstMem second (mem_flatten.mpr ⟨other, mem, secondMem⟩)
    · exact ih later fun other mem => nonempty other (mem_cons_of_mem _ mem)

lemma Opened.firstKeys (opened : Opened entries parts table) :
    table.sparseIndex.map IndexEntry.firstKey = parts.map headKey := by
  apply List.ext_getElem?
  intro i
  rw [getElem?_map, getElem?_map]
  cases found : parts[i]? with
  | none =>
    rw [List.getElem?_eq_none (by rw [opened.indexed]; exact List.getElem?_eq_none_iff.mp found)]
    rfl
  | some part =>
    have mem := mem_of_getElem? found
    obtain ⟨first, rest, rfl⟩ := exists_cons_of_ne_nil (opened.nonempty part mem)
    rw [opened.sparseIndex i first rest found]
    rfl

/-- The sparse index finds the part in which a key can be. -/
lemma Opened.findPagePos (opened : Opened entries parts table)
    (split : parts = before ++ part :: after) (located : Locates key before part after) :
    table.findPagePos key = Int32.ofNat before.length := by
  have upper : (table.sparseIndex.findIdx fun entry => decide (key < entry.firstKey)) =
      before.length + 1 := by
    have onHeads : (table.sparseIndex.findIdx fun entry => decide (key < entry.firstKey)) =
        parts.findIdx fun part => decide (key < headKey part) := by
      have maps := List.findIdx_map table.sparseIndex IndexEntry.firstKey fun first =>
        decide (key < first)
      rw [opened.firstKeys, List.findIdx_map] at maps
      exact maps.symm
    rw [onHeads, split, append_cons, findIdx_append_of_forall]
    · simp
    · intro other mem
      exact decide_eq_false (not_lt.mpr (located.reached other mem))
    · intro other mem
      exact decide_eq_true (located.beyond other mem)
  rw [OpenTable.findPagePos, upper]
  rfl

lemma Opened.sparseIndex_at (opened : Opened entries parts table)
    (split : parts = before ++ part :: after) (few : parts.length < 2 ^ 31) :
    ∃ firstKey, table.sparseIndex[(Int32.ofNat before.length).toNatClampNeg]? =
      some (IndexEntry.mk firstKey (1 + before.length : Nat)) := by
  have found : parts[before.length]? = some part := by
    rw [split]
    exact getElem?_slot
  have small : before.length < 2 ^ 31 := by
    rw [split, length_append] at few
    omega
  have mem := mem_of_getElem? found
  obtain ⟨first, rest, rfl⟩ := exists_cons_of_ne_nil (opened.nonempty part mem)
  rw [Int32.toNatClampNeg_ofNat_of_lt small]
  exact ⟨_, opened.sparseIndex _ first rest found⟩

/-- The entries before the located part are below the key, those behind it above. -/
lemma Locates.between (located : Locates key before part after)
    (ascending : Ascending (before ++ part :: after).flatten) (nonempty : part ≠ []) :
    (∀ entry ∈ before.flatten, entry.1 < headKey part) ∧
      ∀ entry ∈ after.flatten, key < entry.1 := by
  rw [flatten_append, flatten_cons] at ascending
  obtain ⟨-, later, below⟩ := ascending_append.mp ascending
  obtain ⟨-, afterAscending, -⟩ := ascending_append.mp later
  constructor
  · intro entry mem
    obtain ⟨first, firstMem, head⟩ := headKey_mem nonempty
    rw [head]
    exact below entry mem first (mem_append_left _ firstMem)
  · intro entry mem
    obtain ⟨other, otherMem, mem⟩ := mem_flatten.mp mem
    have otherAscending := afterAscending.sublist (List.sublist_flatten_of_mem otherMem)
    exact lt_of_lt_of_le (located.beyond other otherMem) (headKey_le otherAscending mem)

/-- A key from the first one on can be located. -/
lemma Opened.exists_locates (opened : Opened entries parts table)
    (ascending : Ascending entries) (some_entry : entries ≠ []) (reached : table.minKey ≤ key) :
    ∃ before part after, parts = before ++ part :: after ∧ part ≠ [] ∧
      Locates key before part after := by
  have whole := opened.flatten
  have heads : parts.Pairwise fun left right => headKey left < headKey right := by
    apply Ascending.heads _ opened.nonempty
    rwa [whole]
  cases starts : parts with
  | nil =>
    rw [starts] at whole
    exact absurd whole.symm some_entry
  | cons first rest =>
    have nonempty := opened.nonempty
    rcases exists_cons_of_ne_nil (nonempty first (by rw [starts]; exact mem_cons_self))
      with ⟨entry, others, rfl⟩
    have least : table.minKey = entry.1 := by
      rw [opened.minKey, ← whole, starts]
      rfl
    rw [least] at reached
    obtain ⟨before, part, after, split, located⟩ := TableFile.exists_locates heads starts reached
    refine ⟨before, part, after, starts ▸ split, ?_, located⟩
    apply nonempty part
    rw [split]
    simp

lemma Opened.bounds (opened : Opened entries parts table) (ascending : Ascending entries)
    (mem : entry ∈ entries) : table.minKey ≤ entry.1 ∧ entry.1 ≤ table.maxKey := by
  constructor
  · rw [opened.minKey]
    exact headKey_le ascending mem
  · rw [opened.maxKey]
    rcases eq_nil_or_concat entries with none | ⟨before, last, listed⟩
    · rw [none] at mem
      cases mem
    · rw [listed, concat_eq_append] at mem ascending ⊢
      rw [List.getLast?_append_of_ne_nil _ (cons_ne_nil _ _)]
      rcases mem_append.mp mem with mem | mem
      · exact ((ascending_append.mp ascending).2.2 entry mem last mem_cons_self).le
      · rw [mem_singleton.mp mem]
        exact le_rfl

/-- What `Get` makes of the page of a part. -/
lemma lookup_slot (ascending : Ascending part)
    (fits : ∀ entry ∈ part, entry.2.value.length ≤ MAX_VALUE_SIZE)
    (count : page.count = part.length) (valid : page.count ≤ maxEntriesPerDataPage)
    (items : page.items = part.map DataEntry.ofEntry) (key : KeyType) :
    (if OpenTable.lowerBound page key < page.count ∧
        (page.slot (OpenTable.lowerBound page key)).key = key then
      some (page.slot (OpenTable.lowerBound page key)).stored else none) =
      lookupEntry key part := by
  rw [lowerBound_eq items, ascending.lookupEntry_findIdx, count]
  generalize (part.findIdx fun entry => decide (key ≤ entry.1)) = index
  cases found : part[index]? with
  | none =>
    have past := List.getElem?_eq_none_iff.mp found
    rw [if_neg fun both => absurd both.1 (not_lt.mpr past)]
    rfl
  | some entry =>
    have inside := (getElem?_eq_some_iff.mp found).1
    rw [slot_eq count valid items found, stored_ofEntry (fits entry (mem_of_getElem? found))]
    simp only [inside, true_and, bind_some]
    rfl

/-- `Get` finds exactly the entries of the list. -/
lemma Opened.get (opened : Opened entries parts table) (ascending : Ascending entries)
    (fits : ∀ entry ∈ entries, entry.2.value.length ≤ MAX_VALUE_SIZE)
    (few : parts.length < 2 ^ 31) (key : KeyType) :
    table.get key = some (lookupEntry key entries) := by
  rw [OpenTable.get, OpenTable.mightContain]
  split
  next outside =>
    have absent : lookupEntry key entries = none := by
      rw [lookupEntry_eq_none]
      rintro entry mem rfl
      have bounds := opened.bounds ascending mem
      rcases outside with none | below | above
      · rw [opened.numEntries] at none
        rw [List.eq_nil_of_length_eq_zero none] at mem
        cases mem
      · exact not_lt.mpr bounds.1 below
      · exact not_lt.mpr bounds.2 above
    rw [absent]
    rfl
  next inside =>
    simp only [not_or, not_lt] at inside
    obtain ⟨some_entries, least, greatest⟩ := inside
    have some_entry : entries ≠ [] := by
      intro none
      rw [opened.numEntries, none] at some_entries
      exact some_entries rfl
    obtain ⟨filter, isFilter, covers⟩ := opened.bloom
    rw [isFilter]
    cases might : filter.mightContain key with
    | false =>
      have absent : lookupEntry key entries = none := by
        rw [lookupEntry_eq_none]
        rintro entry mem rfl
        rw [covers entry mem] at might
        cases might
      rw [absent]
      simp [might]
    | true =>
      obtain ⟨before, part, after, split, nonempty, located⟩ :=
        opened.exists_locates ascending some_entry least
      have whole := opened.flatten
      rw [split] at whole
      obtain ⟨below, above⟩ := located.between (whole ▸ ascending) nonempty
      have here : lookupEntry key entries = lookupEntry key part := by
        rw [← whole, flatten_append, flatten_cons, ← append_assoc]
        apply lookupEntry_middle _ above
        intro entry mem
        exact lt_of_lt_of_le (below entry mem) (located.reached part (by simp))
      have found : parts[before.length]? = some part := by
        rw [split]
        exact getElem?_slot
      have sub : part.Sublist entries := by
        rw [← opened.flatten]
        exact List.sublist_flatten_of_mem (mem_of_getElem? found)
      obtain ⟨firstKey, indexed⟩ := opened.sparseIndex_at split few
      obtain ⟨page, isPage, count, valid, items⟩ := opened.dataPage found
      have slot := lookup_slot (ascending.sublist sub)
        (fun entry mem => fits entry (sub.subset mem)) count valid items key
      rw [here, ← slot]
      simp only [map_some, might, bind_eq_bind, bind_some, if_true,
        opened.findPagePos split located, indexed, isPage]
      split <;> rfl

/-! ## Iterators -/

open OpenTable (Iterator)

/-- A page that holds a part. -/
structure PageHolds (page : DataPage) (part : List Entry) : Prop where
  count : page.count = part.length
  valid : page.count ≤ maxEntriesPerDataPage
  items : page.items = part.map DataEntry.ofEntry

lemma Opened.ofNat_le_iff (leftSmall : left < 2 ^ 31) (rightSmall : right < 2 ^ 31) :
    Int32.ofNat left ≤ Int32.ofNat right ↔ left ≤ right := by
  rw [Int32.le_iff_toInt_le, Int32.toInt_ofNat_of_lt leftSmall, Int32.toInt_ofNat_of_lt rightSmall]
  omega

/-- The page that comes after a position. -/
lemma Opened.dataPage_succ (opened : Opened entries parts table) (few : parts.length < 2 ^ 31)
    (inside : i < parts.length) :
    ∃ page, table.dataPage (table.firstDataPageId + (Int32.ofNat i).toInt) = some page ∧
      PageHolds page parts[i] := by
  have first : table.firstDataPageId = 1 :=
    opened.firstDataPageId (ne_nil_of_length_pos (Nat.zero_lt_of_lt inside))
  obtain ⟨page, isPage, count, valid, items⟩ := opened.dataPage (getElem?_eq_getElem inside)
  refine ⟨page, ?_, count, valid, items⟩
  rw [first, Int32.toInt_ofNat_of_lt (lt_trans inside few)]
  exact isPage

lemma next_within {pageId : Int} {pagePos : Int32} (more : index + 1 < page.count) :
    table.next (.loadCurrent page pageId index pagePos) =
      some (some (.loadCurrent page pageId (index + 1) pagePos)) :=
  if_neg (not_le.mpr more)

section

variable (opened : Opened entries parts table)
include opened

variable {page : DataPage} {pageId : Int} {i index : Nat}

lemma Opened.next_page (few : parts.length < 2 ^ 31) (done : page.count ≤ index + 1)
    (inside : i + 1 < parts.length) :
    ∃ following pageId', table.next (.loadCurrent page pageId index (Int32.ofNat i)) =
        some (some (.loadCurrent following pageId' 0 (Int32.ofNat (i + 1)))) ∧
      PageHolds following parts[i + 1] := by
  obtain ⟨following, isPage, holds⟩ := opened.dataPage_succ few inside
  have position : Int32.ofNat i + 1 = Int32.ofNat (i + 1) := (Int32.ofNat_add i 1).symm
  have further : ¬ table.numDataPages ≤ Int32.ofNat (i + 1) := by
    rw [opened.numDataPages, Opened.ofNat_le_iff few (lt_trans inside few)]
    exact not_le.mpr inside
  refine ⟨following, table.firstDataPageId + (Int32.ofNat (i + 1)).toInt, ?_, holds⟩
  rw [OpenTable.next]
  simp only [Iterator.loadCurrent, done, if_true, position, further, if_false,
    bind_eq_bind, isPage, bind_some]
  rfl

lemma Opened.next_end (done : page.count ≤ index + 1) (last : i + 1 = parts.length) :
    table.next (.loadCurrent page pageId index (Int32.ofNat i)) = some none := by
  have position : Int32.ofNat i + 1 = Int32.ofNat (i + 1) := (Int32.ofNat_add i 1).symm
  have beyond : table.numDataPages ≤ Int32.ofNat (i + 1) := by
    rw [opened.numDataPages, last]
    exact Int32.le_refl _
  rw [OpenTable.next]
  simp only [Iterator.loadCurrent, done, if_true, position, beyond]
  rfl

/-- From a position on, an iterator delivers the rest of its part and the later parts. -/
lemma Opened.collect (fits : ∀ entry ∈ entries, entry.2.value.length ≤ MAX_VALUE_SIZE)
    (few : parts.length < 2 ^ 31) (found : parts[i]? = some part) (holds : PageHolds page part)
    (inside : index < part.length)
    (enough : (part.drop index ++ (parts.drop (i + 1)).flatten).length ≤ fuel) :
    table.collect fuel (some (.loadCurrent page pageId index (Int32.ofNat i))) =
      some (part.drop index ++ (parts.drop (i + 1)).flatten) := by
  induction fuel generalizing i index part page pageId with
  | zero =>
    rw [length_append, length_drop] at enough
    omega
  | succ fuel ih =>
    have isPart := (getElem?_eq_some_iff.mp found).1
    have entryMem : part[index] ∈ entries := by
      rw [← opened.flatten]
      exact mem_flatten.mpr ⟨part, mem_of_getElem? found, getElem_mem inside⟩
    have slot := slot_eq holds.count holds.valid holds.items (getElem?_eq_getElem inside)
    have delivered : ((page.slot index).key, (page.slot index).stored) = part[index] := by
      rw [slot, stored_ofEntry (fits _ entryMem)]
      rfl
    rw [drop_eq_getElem_cons inside] at enough ⊢
    have step {following : Option Iterator} {rest : List Entry}
        (next : table.next (.loadCurrent page pageId index (Int32.ofNat i)) = some following)
        (later : table.collect fuel following = some rest) :
        table.collect (fuel + 1) (some (.loadCurrent page pageId index (Int32.ofNat i))) =
          some (part[index] :: rest) := by
      simp only [OpenTable.collect, bind_eq_bind, next, bind_some, later]
      exact congrArg (fun entry => some (entry :: rest)) delivered
    rw [cons_append, length_cons] at enough
    by_cases more : index + 1 < part.length
    · apply step (next_within (by rwa [holds.count]))
      exact ih found holds more (Nat.le_of_succ_le_succ enough)
    · have done : page.count ≤ index + 1 := by
        rw [holds.count]
        exact Nat.le_of_not_lt more
      have beyond : part.drop (index + 1) = [] := drop_eq_nil_of_le (Nat.le_of_not_lt more)
      rw [beyond, nil_append] at enough
      rw [beyond, cons_append, nil_append]
      by_cases further : i + 1 < parts.length
      · have turned := @Opened.next_page _ _ _ opened page pageId i index few done further
        obtain ⟨following, pageId', next, followingHolds⟩ := turned
        have nonempty := opened.nonempty _ (getElem_mem further)
        rw [drop_eq_getElem_cons further, flatten_cons] at enough ⊢
        apply step next
        exact ih (getElem?_eq_getElem further) followingHolds
          (length_pos_iff.mpr nonempty) (Nat.le_of_succ_le_succ enough)
      · rw [drop_eq_nil_of_le (Nat.le_of_not_lt further)]
        apply step (opened.next_end done (by omega))
        rw [OpenTable.collect]
        rfl

lemma Opened.maxKey_mem (some_entry : entries ≠ []) :
    ∃ entry ∈ entries, entry.1 = table.maxKey := by
  refine ⟨entries.getLast some_entry, List.getLast_mem some_entry, ?_⟩
  rw [opened.maxKey, List.getLast?_eq_some_getLast some_entry]
  rfl

/-- What is left of the list from a start key on, once the start is located. -/
lemma Opened.filter_located (ascending : Ascending entries)
    (split : parts = before ++ part :: after) (nonempty : part ≠ [])
    (located : Locates (max start table.minKey) before part after) :
    (entries.filter fun entry => decide (start ≤ entry.1)) =
      part.drop (part.findIdx fun entry => decide (start ≤ entry.1)) ++ after.flatten := by
  have whole := opened.flatten
  rw [split] at whole
  obtain ⟨below, above⟩ := located.between (whole ▸ ascending) nonempty
  rw [flatten_append, flatten_cons] at whole
  have middle : Ascending part := by
    apply ascending.sublist
    rw [← whole]
    exact (List.sublist_append_left part _).trans (List.sublist_append_right _ _)
  have none : (before.flatten.filter fun entry => decide (start ≤ entry.1)) = [] := by
    rw [filter_eq_nil_iff]
    intro entry mem
    have early := lt_of_lt_of_le (below entry mem) (located.reached part (by simp))
    have least := (opened.bounds ascending (whole ▸ mem_append_left _ mem)).1
    simp only [decide_eq_true_eq, not_le]
    exact (lt_max_iff.mp early).resolve_right (not_lt.mpr least)
  have all : (after.flatten.filter fun entry => decide (start ≤ entry.1)) = after.flatten := by
    rw [filter_eq_self]
    intro entry mem
    exact decide_eq_true ((le_max_left _ _).trans (above entry mem).le)
  rw [← whole, filter_append, filter_append, none, all, middle.drop_findIdx]
  rfl

/-- An iterator delivers the entries from its start key on. -/
lemma Opened.newIterator (ascending : Ascending entries)
    (fits : ∀ entry ∈ entries, entry.2.value.length ≤ MAX_VALUE_SIZE)
    (few : parts.length < 2 ^ 31) (enough : entries.length ≤ fuel) (start : KeyType) :
    (table.newIterator start).bind (table.collect fuel) =
      some (entries.filter fun entry => decide (start ≤ entry.1)) := by
  rw [OpenTable.newIterator]
  split
  next outside =>
    have nothing : (entries.filter fun entry => decide (start ≤ entry.1)) = [] := by
      rw [filter_eq_nil_iff]
      intro entry mem
      have bounds := opened.bounds ascending mem
      rcases outside with none | past
      · rw [opened.numEntries] at none
        rw [List.eq_nil_of_length_eq_zero none] at mem
        cases mem
      · simpa using lt_of_le_of_lt bounds.2 past
    rw [nothing]
    simp [OpenTable.collect]
  next inside =>
    simp only [not_or, not_lt] at inside
    obtain ⟨some_entries, greatest⟩ := inside
    have some_entry : entries ≠ [] := by
      intro none
      rw [opened.numEntries, none] at some_entries
      exact some_entries rfl
    obtain ⟨before, part, after, split, nonempty, located⟩ :=
      opened.exists_locates ascending some_entry (le_max_right start table.minKey)
    have remaining := opened.filter_located ascending split nonempty located
    have short : (entries.filter fun entry => decide (start ≤ entry.1)).length ≤ fuel :=
      le_trans (List.length_filter_le _ _) enough
    have found : parts[before.length]? = some part := by
      rw [split]
      exact getElem?_slot
    have later : parts.drop (before.length + 1) = after := by
      rw [split, append_cons, List.drop_left' (by simp)]
    obtain ⟨firstKey, indexed⟩ := opened.sparseIndex_at split few
    obtain ⟨page, isPage, count, valid, items⟩ := opened.dataPage found
    simp only [bind_eq_bind, bind_some, opened.findPagePos split located, indexed,
      isPage, lowerBound_eq items]
    rw [remaining] at short ⊢
    generalize (part.findIdx fun entry => decide (start ≤ entry.1)) = index at short remaining ⊢
    split
    next past =>
      -- The greatest key is not below the start, so there is a later page.
      have beyond : part.drop index = [] := drop_eq_nil_of_le (by omega)
      rw [beyond, nil_append] at short remaining ⊢
      obtain ⟨last, lastMem, isLast⟩ := opened.maxKey_mem some_entry
      have kept : last ∈ after.flatten := by
        rw [← remaining, mem_filter]
        exact ⟨lastMem, decide_eq_true (isLast ▸ greatest)⟩
      have further : before.length + 1 < parts.length := by
        rw [split, length_append, length_cons]
        have some_later : after ≠ [] := fun none => by simp [none] at kept
        have := length_pos_iff.mpr some_later
        omega
      obtain ⟨following, isFollowing, holds⟩ := opened.dataPage_succ few further
      have filled := opened.nonempty _ (getElem_mem further)
      have position : Int32.ofNat before.length + 1 = Int32.ofNat (before.length + 1) :=
        (Int32.ofNat_add before.length 1).symm
      rw [← later, drop_eq_getElem_cons further, flatten_cons] at short ⊢
      simp only [position, isFollowing, bind_some]
      exact opened.collect fits few (getElem?_eq_getElem further) holds
        (length_pos_iff.mpr filled) short
    next within =>
      rw [← later] at short ⊢
      exact opened.collect fits few found ⟨count, valid, items⟩ (by omega) short

end

/-- A table built from some entries and opened again has exactly these entries. -/
theorem file_round_trips (sizing : BloomSizing) {entries : List Entry}
    (ascending : Ascending entries)
    (fits : ∀ entry ∈ entries, entry.2.value.length ≤ MAX_VALUE_SIZE)
    (few : (entries.length + maxEntriesPerDataPage - 1) / maxEntriesPerDataPage < 2 ^ 31) :
    ∃ file table, build sizing [] entries = some file ∧ TableFile.open file = some table ∧
      (∀ key, table.get key = some (lookupEntry key entries)) ∧
      (∀ key value, lookupEntry key entries = some value ↔ (key, value) ∈ entries) ∧
      (∀ entry ∈ entries, table.mightContain entry.1 = some true) ∧
      (∀ start fuel, entries.length ≤ fuel →
        (table.newIterator start).bind (table.collect fuel) =
          some (entries.filter fun entry => decide (start ≤ entry.1))) ∧
      table.numEntries = entries.length ∧
      (∀ first, entries.head? = some first → table.minKey = first.1) ∧
      ∀ last, entries.getLast? = some last → table.maxKey = last.1 := by
  have pages : (dataParts entries).length < 2 ^ 31 := by
    rw [length_chunks (by decide) le_rfl]
    exact few
  rcases opened_build sizing fits with ⟨file, table, built, opens, opened⟩
  refine ⟨file, table, built, opens, opened.get ascending fits pages, ?_, ?_, ?_,
    opened.numEntries, ?_, ?_⟩
  · exact fun key value => ascending.lookupEntry_eq_some
  · intro entry mem
    rcases opened.bloom with ⟨filter, isFilter, covers⟩
    have bounds := opened.bounds ascending mem
    rw [OpenTable.mightContain, if_neg, isFilter, map_some, covers entry mem]
    simp only [not_or, not_lt]
    refine ⟨?_, bounds⟩
    rw [opened.numEntries]
    exact Nat.ne_of_gt (List.length_pos_of_mem mem)
  · intro start fuel enough
    exact opened.newIterator ascending fits pages enough start
  · intro first starts
    rw [opened.minKey, starts]
    rfl
  · intro last ends
    rw [opened.maxKey, ends]
    rfl

/-- A value and a tombstone. -/
def twoEntries : List Entry := [(1, ⟨[7], false⟩), (5, ⟨[], true⟩)]

theorem file_round_trips_twoEntries :
    ∃ file table, build ⟨fun _ => 10, fun _ => 3, fun _ => by decide⟩ [] twoEntries = some file ∧
      TableFile.open file = some table ∧ table.get 5 = some (some ⟨[], true⟩) ∧
      table.get 3 = some none ∧
      (table.newIterator 2).bind (table.collect 2) = some [(5, ⟨[], true⟩)] := by
  rcases file_round_trips ⟨fun _ => 10, fun _ => 3, fun _ => by decide⟩
    (show Ascending twoEntries by unfold Ascending; decide) (by decide) (by decide) with
    ⟨file, table, built, opens, get, -, -, iterates, -⟩
  exact ⟨file, table, built, opens, get 5, get 3, iterates 2 2 (by decide)⟩

end DbEngine.Lsm.TableFile
