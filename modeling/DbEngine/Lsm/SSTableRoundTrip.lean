import DbEngine.Lsm.SSTableFile

/-!
# What is built is what is opened

The pages of a table hold the parts of a list one after the other.  `Open` finds the parts
again, and a search or a scan in the parts is one in the list.
-/

namespace DbEngine.Lsm.TableFile

open Lib Storage

/-! ## Pages of a list -/

section

variable {α : Type} {size : Nat} {pack : List α → FilePage × List α}
  {view : FilePage → List α → Prop}

/-- Consecutive pages hold the parts of a list. -/
def Laid (view : FilePage → List α → Prop) (file : List FilePage) (first : Nat)
    (parts : List (List α)) : Prop :=
  ∀ i part, parts[i]? = some part →
    first + i < file.length ∧ view (readFile file (first + i)) part

variable {file : List FilePage} {first : Nat} {part : List α}

variable {parts : List (List α)}

lemma Laid.head (laid : Laid view file first (part :: parts)) :
    first < file.length ∧ view (readFile file first) part :=
  laid 0 part rfl

lemma Laid.tail (laid : Laid view file first (part :: parts)) :
    Laid view file (first + 1) parts := by
  intro i other found
  have next := laid (i + 1) other found
  rwa [← Nat.add_assoc, add_right_comm] at next

/-- A page takes as many items as it has room for. -/
def Packs (size : Nat) (pack : List α → FilePage × List α) (view : FilePage → List α → Prop) :
    Prop :=
  ∀ items, view (pack items).1 (items.take size) ∧ (pack items).2 = items.drop size

/-- What one of the loops of `Build` leaves. -/
structure Written (view : FilePage → List α → Prop) (before after : DiskManager FilePage)
    (parts : List (List α)) (firsts : List (α × Nat)) : Prop where
  laid : Laid view after.file before.nextPageId parts
  kept : ∀ pageId < before.nextPageId, readFile after.file pageId = readFile before.file pageId
  grows : before.file.length ≤ after.file.length
  next : after.nextPageId = before.nextPageId + parts.length
  count : firsts.length = parts.length
  firsts : ∀ i first rest, parts[i]? = some (first :: rest) →
    firsts[i]? = some (first, before.nextPageId + i)

lemma written_nil (disk : DiskManager FilePage) : Written view disk disk [] [] := by
  constructor
  · intro i part none
    cases none
  · exact fun _ _ => rfl
  · exact le_rfl
  · rfl
  · rfl
  · intro i first rest none
    cases none

/-- One page more, in front. -/
lemma Written.cons {disk after : DiskManager FilePage} {first : α} {firsts : List (α × Nat)}
    (later : Written view (disk.allocatePage.2.writePage disk.nextPageId page) after parts firsts)
    (holds : view page part) (starts : part = first :: rest) :
    Written view disk after (part :: parts) ((first, disk.nextPageId) :: firsts) := by
  have size := length_writeFile disk.file disk.nextPageId page
  have grows : (writeFile disk.file disk.nextPageId page).length ≤ after.file.length := later.grows
  have shift (i : Nat) : disk.nextPageId + 1 + i = disk.nextPageId + (i + 1) := by omega
  constructor
  · intro i other found
    cases i with
    | zero =>
      cases found
      have kept : readFile after.file disk.nextPageId = page :=
        (later.kept disk.nextPageId (Nat.lt_succ_self _)).trans (readFile_writeFile_self _ _ _)
      constructor
      · omega
      · rw [Nat.add_zero, kept]
        exact holds
    | succ i =>
      rw [← shift]
      exact later.laid i other found
  · intro pageId below
    rw [later.kept pageId (Nat.lt_succ_of_lt below)]
    exact readFile_writeFile_of_ne _ _ (ne_of_lt below)
  · omega
  · rw [later.next, length_cons, ← shift]
    rfl
  · rw [length_cons, length_cons, later.count]
  · intro i head tail found
    cases i with
    | zero =>
      cases found
      cases starts
      rfl
    | succ i =>
      rw [List.getElem?_cons_succ, ← shift]
      exact later.firsts i head tail found

lemma written_writePages (positive : 0 < size) (packs : Packs size pack view) {fuel : Nat}
    (enough : items.length ≤ fuel) (disk : DiskManager FilePage) :
    Written view disk (writePages pack fuel disk items).1 (chunks size fuel items)
      (writePages pack fuel disk items).2 := by
  induction fuel generalizing items disk with
  | zero =>
    rw [List.eq_nil_of_length_eq_zero (Nat.le_zero.mp enough)]
    exact written_nil disk
  | succ fuel ih =>
    cases items with
    | nil => exact written_nil disk
    | cons first rest =>
      obtain ⟨holds, left⟩ := packs (first :: rest)
      have remaining := length_drop_le positive enough
      rw [← left] at remaining
      rw [writePages, chunks, ← left]
      apply (ih remaining _).cons holds
      exact List.take_cons positive

end

/-! ## The three kinds of pages -/

/-- A data page holds some entries. -/
def DataView (page : FilePage) (part : List Entry) : Prop :=
  ∃ data, page.asData = some data ∧ data.count = part.length ∧
    data.count ≤ maxEntriesPerDataPage ∧ data.items = part.map DataEntry.ofEntry

/-- An index page holds some index entries. -/
def IndexView (page : FilePage) (part : List IndexEntry) : Prop :=
  ∃ index, page.asIndex = some index ∧ index.count = part.length ∧ index.items = part

/-- A page begins with some bytes. -/
def BloomView (page : FilePage) (part : List UInt8) : Prop :=
  ∃ bytes, page.asBloom = some bytes ∧ bytes.toList.take part.length = part

lemma packs_data : Packs maxEntriesPerDataPage packData DataView := by
  intro entries
  obtain ⟨items, count, -⟩ :=
    @PackedPage.fill_zero _ maxEntriesPerDataPage _ (entries.map DataEntry.ofEntry)
  rw [← map_take, length_map] at count
  constructor
  · refine ⟨_, rfl, count, ?_, ?_⟩
    · rw [count]
      exact List.length_take_le _ _
    · rw [items, map_take]
  · change entries.drop _ = _
    rw [count, length_take, ← List.drop_eq_drop_min]

lemma packs_index : Packs maxIndexEntriesPerPage packIndex IndexView := by
  intro entries
  obtain ⟨items, count, left⟩ := @PackedPage.fill_zero _ maxIndexEntriesPerPage _ entries
  exact ⟨⟨_, rfl, count, items⟩, left⟩

lemma packs_bloom : Packs PAGE_SIZE packBloom BloomView := by
  intro bytes
  have part : bytes.take (min bytes.length PAGE_SIZE) = bytes.take PAGE_SIZE := by
    rw [List.take_eq_take_iff]
    omega
  constructor
  · refine ⟨_, rfl, ?_⟩
    rw [part]
    exact take_overwrite _ (List.length_take_le _ _)
  · change bytes.drop (min bytes.length PAGE_SIZE) = _
    rw [Nat.min_comm, ← List.drop_eq_drop_min]

/-! ## Opening -/

lemma fetch_ofNat (file : List FilePage) (pageId : Nat) :
    fetch file pageId = some (readFile file pageId) := by
  rw [fetch, if_pos (Int.natCast_nonneg pageId), Int.toNat_natCast]

variable {file : List FilePage} {first : Nat} {bytes : List UInt8} {α : Type}
  {before after : DiskManager FilePage}

/-- The loop over the index pages finds what they hold. -/
lemma readIndex_eq (laid : Laid IndexView file first parts)
    (nonempty : ∀ part ∈ parts, part ≠ []) {fuel : Nat} (enough : parts.length ≤ fuel) :
    readIndex file fuel parts.flatten.length first = some parts.flatten := by
  induction parts generalizing first fuel with
  | nil => rw [readIndex.eq_def]; rfl
  | cons part parts ih =>
    obtain ⟨-, page, asIndex, count, items⟩ := laid.head
    have some_left : 0 < part.length := length_pos_iff.mpr (nonempty part mem_cons_self)
    obtain ⟨more, rfl⟩ := Nat.exists_eq_add_of_le' enough
    have rest := @ih (first + 1) laid.tail
      (fun other mem => nonempty other (mem_cons_of_mem _ mem)) (more + parts.length)
      (Nat.le_add_left _ _)
    have positive : (0 : Int) < ((part :: parts).flatten.length : Nat) := by
      rw [flatten_cons, length_append]
      omega
    have left : (((part :: parts).flatten.length : Nat) : Int) - (page.count : Int) =
        (parts.flatten.length : Nat) := by
      rw [flatten_cons, length_append, count]
      omega
    rw [length_cons, ← Nat.add_assoc, readIndex, if_pos positive]
    simp only [fetch_ofNat, bind_eq_bind, bind_some, asIndex, left]
    rw [← Int.natCast_succ, rest, bind_some, items, flatten_cons]
    rfl

/-- The loop over the pages of the filter finds its bytes. -/
lemma readBloom_eq (laid : Laid BloomView file first (chunks PAGE_SIZE fuel bytes))
    (enough : bytes.length ≤ fuel) (lasts : bytes.length ≤ rounds) :
    readBloom file rounds bytes.length first = some bytes := by
  induction fuel generalizing first rounds bytes with
  | zero =>
    rw [List.eq_nil_of_length_eq_zero (Nat.le_zero.mp enough)]
    cases rounds <;> rfl
  | succ fuel ih =>
    cases bytes with
    | nil => cases rounds <;> rfl
    | cons byte rest =>
      have positive : 0 < PAGE_SIZE := by decide
      obtain ⟨more, rfl⟩ := Nat.exists_eq_add_of_le' lasts
      rw [chunks] at laid
      obtain ⟨-, page, asBloom, taken⟩ := laid.head
      have later : readBloom file (more + rest.length) ((byte :: rest).drop PAGE_SIZE).length
          (first + 1 : Nat) = some ((byte :: rest).drop PAGE_SIZE) :=
        ih laid.tail (length_drop_le positive enough) (length_drop_le positive lasts)
      have left : (byte :: rest).length - min (byte :: rest).length PAGE_SIZE =
          ((byte :: rest).drop PAGE_SIZE).length := by
        rw [length_drop]
        omega
      rw [length_take, Nat.min_comm] at taken
      change (do
        let page ← (← fetch file first).asBloom
        let rest' ← readBloom file (more + rest.length)
          ((byte :: rest).length - min (byte :: rest).length PAGE_SIZE) (first + 1)
        return page.toList.take (min (byte :: rest).length PAGE_SIZE) ++ rest') = _
      rw [left, ← Int.natCast_succ]
      simp only [fetch_ofNat, bind_eq_bind, bind_some, asBloom, taken]
      rw [later, bind_some, take_append_drop]
      rfl

/-- An open table whose data pages hold the parts of a list. -/
structure Opened (entries : List Entry) (parts : List (List Entry)) (table : OpenTable) :
    Prop where
  flatten : parts.flatten = entries
  nonempty : ∀ part ∈ parts, part ≠ []
  numEntries : table.numEntries = entries.length
  minKey : table.minKey = (entries.head?.map Prod.fst).getD 0
  maxKey : table.maxKey = (entries.getLast?.map Prod.fst).getD 0
  numDataPages : table.numDataPages = Int32.ofNat parts.length
  laid : Laid DataView table.file 1 parts
  firstDataPageId : parts ≠ [] → table.firstDataPageId = 1
  indexed : table.sparseIndex.length = parts.length
  sparseIndex : ∀ (i : Nat) (first : Entry) (rest : List Entry),
    parts[i]? = some (first :: rest) →
      table.sparseIndex[i]? = some (IndexEntry.mk first.1 (1 + i : Nat))
  bloom : ∃ filter, table.bloom = some filter ∧
    ∀ entry ∈ entries, filter.mightContain entry.1 = true

variable {view : FilePage → List α → Prop} {parts : List (List α)}

/-- The id of the first of some written pages. -/
lemma Written.firstPageId {firsts : List (α × Nat)}
    (written : Written view before after parts firsts) (nonempty : ∀ part ∈ parts, part ≠ [])
    (some_part : parts ≠ []) : firstPageId firsts = before.nextPageId := by
  obtain ⟨part, rest, rfl⟩ := exists_cons_of_ne_nil some_part
  obtain ⟨item, items, rfl⟩ := exists_cons_of_ne_nil (nonempty part mem_cons_self)
  have first := written.firsts 0 item items rfl
  cases firsts with
  | nil => cases first
  | cons head tail =>
    cases first
    rfl

/-- The parts of a list of entries that go into its data pages. -/
abbrev dataParts (entries : List Entry) : List (List Entry) :=
  chunks maxEntriesPerDataPage entries.length entries

/-- Pages stay when others are written. -/
lemma Laid.mono {file' : List FilePage} (laid : Laid view file first parts)
    (grows : file.length ≤ file'.length)
    (kept : ∀ pageId, first ≤ pageId → pageId < first + parts.length → readFile file' pageId =
      readFile file pageId) : Laid view file' first parts := by
  intro i part found
  obtain ⟨inside, holds⟩ := laid i part found
  have used := (getElem?_eq_some_iff.mp found).1
  constructor
  · exact lt_of_lt_of_le inside grows
  · rw [kept _ (Nat.le_add_right _ _) (Nat.add_lt_add_left used _)]
    exact holds

/-- Pages of one loop stay in the next one. -/
lemma Laid.written {β : Type} {other : FilePage → List β → Prop} {others : List (List β)}
    {firsts : List (β × Nat)} (laid : Laid view before.file first parts)
    (written : Written other before after others firsts)
    (below : first + parts.length ≤ before.nextPageId) : Laid view after.file first parts :=
  laid.mono written.grows fun pageId _ inside =>
    written.kept pageId (lt_of_lt_of_le inside below)

lemma Laid.length_le (laid : Laid view file first parts) : parts.length ≤ file.length := by
  rcases eq_nil_or_concat parts with rfl | ⟨before, last, rfl⟩
  · exact Nat.zero_le _
  · have inside := (laid before.length last (by simp)).1
    rw [concat_eq_append, length_append]
    exact lt_of_le_of_lt (Nat.le_add_left _ _) inside

lemma readIndex_written {index : List IndexEntry}
    (written : Written IndexView before after (chunks maxIndexEntriesPerPage index.length index)
      firsts)
    (laid : Laid IndexView file before.nextPageId (chunks maxIndexEntriesPerPage index.length
      index)) : readIndex file file.length index.length (firstPageId firsts) = some index := by
  have positive : 0 < maxIndexEntriesPerPage := by decide
  have whole := flatten_chunks positive (le_refl index.length)
  have nonempty (part) (mem : part ∈ chunks maxIndexEntriesPerPage index.length index) :=
    ne_nil_of_mem_chunks positive mem
  cases index with
  | nil =>
    rw [readIndex.eq_def]
    rfl
  | cons entry rest =>
    have first := written.firstPageId nonempty (by simp [chunks])
    have found := readIndex_eq laid nonempty laid.length_le
    rw [whole] at found
    rw [first]
    exact found

lemma readBloom_written {firsts : List (UInt8 × Nat)}
    (written : Written BloomView before after (chunks PAGE_SIZE bytes.length bytes) firsts)
    (laid : Laid BloomView file before.nextPageId (chunks PAGE_SIZE bytes.length bytes)) :
    readBloom file bytes.length bytes.length (firstPageId firsts) = some bytes := by
  have positive : 0 < PAGE_SIZE := by decide
  cases bytes with
  | nil => rfl
  | cons byte rest =>
    have first := written.firstPageId (fun part mem => ne_nil_of_mem_chunks positive mem)
      (by simp [chunks])
    rw [first]
    exact readBloom_eq laid le_rfl le_rfl

lemma ofBytes_bits (filter : BloomFilter) :
    ofBytes filter.bits filter.numBits filter.numHashes = some filter := by
  rw [ofBytes, dif_pos ⟨filter.positive, filter.length⟩]

/-- `Build` to a fresh path and `Open` give a table of the entries. -/
lemma opened_build (sizing : BloomSizing) {entries : List Entry}
    (fits : ∀ entry ∈ entries, entry.2.value.length ≤ MAX_VALUE_SIZE) :
    ∃ file table, build sizing [] entries = some file ∧ TableFile.open file = some table ∧
      Opened entries (dataParts entries) table := by
  have positive : 0 < maxEntriesPerDataPage := by decide
  have short : ¬ (entries.any fun entry => decide (MAX_VALUE_SIZE < entry.2.value.length)) = true := by
    simpa using fits
  -- The three loops.
  let disk : DiskManager FilePage := (DiskManager.open []).allocatePage.2
  let dataPages := writePages packData entries.length disk entries
  let index : List IndexEntry := dataPages.2.map fun page => ⟨page.1.1, page.2⟩
  let indexPages := writePages packIndex index.length dataPages.1 index
  let bloom := buildBloom sizing entries
  let bloomPages := writePages packBloom bloom.bits.length indexPages.1 bloom.bits
  have data : Written DataView disk dataPages.1 (dataParts entries) dataPages.2 :=
    written_writePages positive packs_data (le_refl entries.length) disk
  have indexed : Written IndexView dataPages.1 indexPages.1
      (chunks maxIndexEntriesPerPage index.length index) indexPages.2 :=
    written_writePages (by decide) packs_index (le_refl index.length) dataPages.1
  have bloomed : Written BloomView indexPages.1 bloomPages.1
      (chunks PAGE_SIZE bloom.bits.length bloom.bits) bloomPages.2 :=
    written_writePages (by decide) packs_bloom (le_refl bloom.bits.length) indexPages.1
  have start : disk.nextPageId = 1 := rfl
  have next : dataPages.1.nextPageId = 1 + (dataParts entries).length := data.next
  have nextIndex := indexed.next
  -- The header goes to the page that was left for it.
  let header : HeaderPage :=
    { numEntries := entries.length
      minKey := (entries.head?.map Prod.fst).getD 0
      maxKey := (entries.getLast?.map Prod.fst).getD 0
      numDataPages := Int32.ofNat dataPages.2.length
      firstDataPageId := firstPageId dataPages.2
      numIndexEntries := index.length
      firstIndexPageId := firstPageId indexPages.2
      bloomNumBytes := bloom.bits.length
      bloomNumBits := bloom.numBits
      bloomNumHashes := bloom.numHashes
      firstBloomPageId := firstPageId bloomPages.2 }
  let file := writeFile bloomPages.1.file 0 (.header header)
  have built : build sizing [] entries = some file := if_neg short
  have grows : bloomPages.1.file.length ≤ file.length := by
    rw [length_writeFile]
    exact Nat.le_max_left _ _
  have kept (pageId : Nat) (later : 1 ≤ pageId) :
      readFile file pageId = readFile bloomPages.1.file pageId :=
    readFile_writeFile_of_ne _ _ (Nat.ne_of_gt later)
  have dataLaid : Laid DataView file 1 (dataParts entries) := by
    have later := (data.laid.written indexed (by omega)).written bloomed (by omega)
    exact later.mono grows fun pageId above _ => kept pageId above
  have indexLaid : Laid IndexView file dataPages.1.nextPageId
      (chunks maxIndexEntriesPerPage index.length index) := by
    have later := indexed.laid.written bloomed (by omega)
    exact later.mono grows fun pageId above _ => kept pageId (by omega)
  have bloomLaid : Laid BloomView file indexPages.1.nextPageId
      (chunks PAGE_SIZE bloom.bits.length bloom.bits) :=
    bloomed.laid.mono grows fun pageId above _ => kept pageId (by omega)
  have opens : TableFile.open file = some
      { file, numEntries := entries.length, minKey := header.minKey, maxKey := header.maxKey
        numDataPages := header.numDataPages, firstDataPageId := header.firstDataPageId
        sparseIndex := index, bloom := some bloom } := by
    have asHeader : (readFile file 0).asHeader = some header := by
      rw [readFile_writeFile_self]
      rfl
    simp only [TableFile.open, asHeader, bind_eq_bind, bind_some]
    rw [readIndex_written indexed indexLaid, bind_some, readBloom_written bloomed bloomLaid,
      bind_some, ofBytes_bits]
    rfl
  refine ⟨file, _, built, opens, ?_⟩
  have nonempty (part : List Entry) (mem : part ∈ dataParts entries) : part ≠ [] :=
    ne_nil_of_mem_chunks positive mem
  constructor
  · exact flatten_chunks positive le_rfl
  · exact nonempty
  · rfl
  · rfl
  · rfl
  · exact congrArg Int32.ofNat data.count
  · exact dataLaid
  · intro some_part
    exact data.firstPageId nonempty some_part
  · exact (length_map _).trans data.count
  · intro i first rest found
    have listed := data.firsts i first rest found
    rw [getElem?_map, listed]
    rfl
  · refine ⟨bloom, rfl, fun entry mem => ?_⟩
    exact BloomFilter.mightContain_foldl_add _ (mem_map_of_mem mem)

end DbEngine.Lsm.TableFile
