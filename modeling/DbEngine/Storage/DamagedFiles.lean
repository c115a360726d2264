import DbEngine.Lib.LittleEndian
import DbEngine.Lsm.SSTableFile
import DbEngine.Wal.LogManager

/-!
# Damaged files

The loops of `SSTable::Open` and `LogManager::ReadFrom` on files of any bytes.  The loop over
the Bloom filter goes by its own position.  The other two go by the counts that stand in the
pages: a page without entries does not bring them nearer to the end, and in the log the same
page is then read for ever.
-/

namespace DbEngine.Storage.Damaged

open Lib Lsm.TableFile Wal.LogFile

/-- A result of `int64_t` arithmetic. -/
def wrapped (number : Int) : Int := (number + 2 ^ 63) % 2 ^ 64 - 2 ^ 63

/-- The page at an offset of a file; what lies behind the end of the file is zeros. -/
def pageAt (file : Bytes) (offset : Nat) : Bytes :=
  let found := (file.drop offset).take PAGE_SIZE
  found ++ replicate (PAGE_SIZE - found.length) 0

/-- The `int64_t` at an offset of a page. -/
def int64At (page : Bytes) (offset : Nat) : Int :=
  (UInt64.ofNat (ofLittleEndian ((page.drop offset).take 8))).toInt64.toInt

/-- The `count` of the `IndexPage` or `LogPage` that `DiskManager::ReadPage` gives.  It throws
where `pread` refuses the offset. -/
def count (file : Bytes) (pageId : Int) : Option Int :=
  let offset := wrapped (pageId * 4096)
  if 0 ≤ offset ∧ offset + 4096 < 2 ^ 63 then some (int64At (pageAt file offset.toNat) 0) else none

/-! ## Tables -/

/-- `num_index_entries` of the `HeaderPage`. -/
def numIndexEntries (file : Bytes) : Int := int64At (pageAt file 0) 40

/-- `first_index_page_id`. -/
def firstIndexPageId (file : Bytes) : Int := int64At (pageAt file 0) 48

/-- `bloom_num_bytes`, as a `size_t`. -/
def bloomNumBytes (file : Bytes) : Nat := ofLittleEndian (((pageAt file 0).drop 56).take 8)

/-- The loop over the index: the counts of the pages it reads, which are the numbers of entries
it looks at in there, or `none` where the fuel is not enough.  A page that cannot be read ends
it with an exception. -/
def indexLoop (file : Bytes) : Nat → Int → Int → Option (List Int)
  | 0, _, _ => none
  | fuel + 1, remaining, pageId =>
    if 0 < remaining then
      match count file pageId with
      | some found =>
        (indexLoop file fuel (wrapped (remaining - found)) (pageId + 1)).map (found :: ·)
      | none => some []
    else some []

/-- The index as `SSTable::Open` reads it.  The `reserve` before the loop throws where there is no
memory for that many entries. -/
def openIndex (memory : Nat) (file : Bytes) (fuel : Nat) : Option (List Int) :=
  if numIndexEntries file ≤ memory then
    indexLoop file fuel (numIndexEntries file) (firstIndexPageId file)
  else some []

/-- The loop over the Bloom filter: how many pages it reads. -/
def bloomLoop (numBytes : Nat) : Nat → Nat → Option Nat
  | 0, _ => none
  | fuel + 1, offset =>
    if offset < numBytes then
      (bloomLoop numBytes fuel (offset + min (numBytes - offset) PAGE_SIZE)).map (· + 1)
    else some 0

/-- How many entries are left to read some pages further on. -/
def remainingAt (file : Bytes) (pageId remaining : Int) : Nat → Int
  | 0 => remaining
  | pages + 1 =>
    remainingAt file (pageId + 1) (wrapped (remaining - (count file pageId).getD 0)) pages

/-- No page has more entries than fit, up to the first one that cannot be read or before which no
entries are left. -/
def IndexFits (file : Bytes) (pageId remaining : Int) : Prop :=
  ∀ pages : Nat, ∀ found ∈ count file (pageId + pages), (∀ before ≤ pages,
    0 < remainingAt file pageId remaining before ∧ (count file (pageId + before)).isSome) →
      found ≤ maxIndexEntriesPerPage

lemma indexFits_iff (more : 0 < remaining) (here : count file pageId = some found) :
    IndexFits file pageId remaining ↔ found ≤ maxIndexEntriesPerPage ∧
      IndexFits file (pageId + 1) (wrapped (remaining - found)) := by
  have next (pages : Nat) : pageId + (pages + 1 : Nat) = pageId + 1 + pages := by omega
  have left (pages : Nat) : remainingAt file pageId remaining (pages + 1) =
      remainingAt file (pageId + 1) (wrapped (remaining - found)) pages := by
    rw [remainingAt, here, Option.getD_some]
  constructor
  · intro fits
    refine ⟨fits 0 found (by simpa using here) fun before first => ?_, fun pages later mem all => ?_⟩
    · obtain rfl := Nat.le_zero.mp first
      exact ⟨more, by simp [here]⟩
    · refine fits (pages + 1) later (by rwa [next]) fun before upTo => ?_
      cases before with
      | zero => exact ⟨more, by simp [here]⟩
      | succ before =>
        rw [left, next]
        exact all before (Nat.le_of_succ_le_succ upTo)
  · rintro ⟨small, fits⟩ pages later mem all
    cases pages with
    | zero =>
      have same : count file pageId = some later := by simpa using mem
      rwa [Option.some.inj (same.symm.trans here)]
    | succ pages =>
      refine fits pages later (by rwa [next] at mem) fun before upTo => ?_
      rw [← left, ← next]
      exact all (before + 1) (Nat.succ_le_succ upTo)

/-- The loop ends at the latest where the offset of the page is too large. -/
lemma indexLoop_ends {pageId : Int} {fuel : Nat} (enough : (2 ^ 51 - 1 - pageId) % 2 ^ 52 < fuel) :
    ∃ read, indexLoop file fuel remaining pageId = some read ∧
      ((∀ found ∈ read, found ≤ (maxIndexEntriesPerPage : Int)) ↔
        IndexFits file pageId remaining) := by
  induction fuel generalizing pageId remaining with
  | zero => omega
  | succ fuel ih =>
    rw [indexLoop]
    split
    next more =>
      split
      next found here =>
        have readable : ¬ (2 ^ 51 - 1 - pageId) % 2 ^ 52 = 0 := by
          intro last
          rw [count, if_neg] at here
          · cases here
          · rw [wrapped]
            omega
        obtain ⟨read, ran, fits⟩ := @ih (wrapped (remaining - found)) (pageId + 1) (by omega)
        refine ⟨found :: read, by rw [ran, map_some], ?_⟩
        rw [forall_mem_cons, fits, indexFits_iff more here]
      next unreadable =>
        refine ⟨[], rfl, iff_of_true (by rintro _ ⟨⟩) fun pages _ _ all => ?_⟩
        have first := (all 0 (Nat.zero_le _)).2
        rw [Nat.cast_zero, Int.add_zero, unreadable] at first
        cases first
    next done =>
      exact ⟨[], rfl, iff_of_true (by rintro _ ⟨⟩) fun pages _ _ all =>
        absurd (all 0 (Nat.zero_le _)).1 done⟩

lemma bloomLoop_ends (enough : numBytes ≤ offset + fuel) :
    ∃ read, bloomLoop numBytes (fuel + 1) offset = some read := by
  induction fuel generalizing offset with
  | zero => exact ⟨0, if_neg (not_lt.mpr enough)⟩
  | succ fuel ih =>
    rw [bloomLoop]
    split
    next more =>
      have step : 1 ≤ min (numBytes - offset) PAGE_SIZE := le_min (by omega) (by decide)
      obtain ⟨read, ran⟩ := @ih (offset + min (numBytes - offset) PAGE_SIZE) (by omega)
      exact ⟨read + 1, congrArg (Option.map _) ran⟩
    · exact ⟨0, rfl⟩

/-! ## The log -/

/-- The page that the constructor takes for the current one: the last one, if there is any. -/
def lastPage (file : Bytes) : Nat := (file.length + PAGE_SIZE - 1) / PAGE_SIZE - 1

/-- `next_lsn_` behind the constructor. -/
def nextLsn (file : Bytes) : Int :=
  if file = [] then 0
  else wrapped (lastPage file * maxRecordsPerPage + (count file (lastPage file)).getD 0)

/-- How many records the inner loop of `ReadFrom` takes: it ends with the page or the log. -/
def recordsRead (file : Bytes) (found : Int) (lsn : Nat) : Nat :=
  (min (found - (lsn % maxRecordsPerPage : Nat)) (nextLsn file - lsn)).toNat

lemma maxRecordsPerPage_eq : maxRecordsPerPage = 20 := rfl

/-- The loop of `ReadFrom`: the indices at which it stops in the pages that it reads. -/
def logLoop (file : Bytes) : Nat → Nat → Option (List Nat)
  | 0, _ => none
  | fuel + 1, lsn =>
    if lsn < nextLsn file then
      (count file (lsn / maxRecordsPerPage : Nat)).elim (some []) fun found =>
        (logLoop file fuel (lsn + recordsRead file found lsn)).map
          ((lsn % maxRecordsPerPage + recordsRead file found lsn) :: ·)
    else some []

/-- `ReadFrom`, with the `reserve` before the loop. -/
def readFrom (memory : Nat) (file : Bytes) (fuel start : Nat) : Option (List Nat) :=
  if nextLsn file - start ≤ memory then logLoop file fuel start else some []

/-- The records of the page that belong to the log are in it: all that fit, in a page before
the last one of the log. -/
def Complete (file : Bytes) (page : Nat) (found : Int) : Prop :=
  if (20 * (page + 1) : Int) < nextLsn file then found = 20 else nextLsn file - 20 * page ≤ found

/-- The pages from an LSN on are complete, up to the first one that cannot be read. -/
def LogFits (file : Bytes) (lsn : Nat) : Prop :=
  ∀ page ≥ lsn / 20, (20 * page : Int) < nextLsn file → ∀ found ∈ count file page,
    (∀ before : Nat, lsn / 20 ≤ before → before ≤ page → (count file before).isSome) →
      Complete file page found

/-- The loop ends, within the arrays of the pages. -/
def EndsWithin (file : Bytes) (lsn : Nat) : Prop :=
  ∃ fuel stops, logLoop file fuel lsn = some stops ∧ ∀ stop ∈ stops, stop ≤ maxRecordsPerPage

section

variable {lsn : Nat} (more : lsn < nextLsn file)

include more

lemma logLoop_succ (here : count file (lsn / 20 : Nat) = some found) (fuel : Nat) :
    logLoop file (fuel + 1) lsn = (logLoop file fuel (lsn + recordsRead file found lsn)).map
      ((lsn % 20 + recordsRead file found lsn) :: ·) := by
  rw [logLoop, if_pos more, maxRecordsPerPage_eq, here, Option.elim_some]

/-- Where no record is taken, the same page is read over and over again. -/
lemma logLoop_stuck (here : count file (lsn / 20 : Nat) = some found)
    (none : recordsRead file found lsn = 0) (fuel : Nat) : logLoop file fuel lsn = .none := by
  induction fuel with
  | zero => rfl
  | succ fuel ih => rw [logLoop_succ more here, none, Nat.add_zero lsn, ih, Option.map_none]

lemma endsWithin_step (here : count file (lsn / 20 : Nat) = some found) :
    EndsWithin file lsn ↔ lsn % 20 + recordsRead file found lsn ≤ 20 ∧
      EndsWithin file (lsn + recordsRead file found lsn) := by
  constructor
  · rintro ⟨_ | fuel, stops, ran, small⟩
    · cases ran
    · rw [logLoop_succ more here, Option.map_eq_some_iff] at ran
      obtain ⟨later, ran, rfl⟩ := ran
      exact ⟨small _ mem_cons_self, fuel, later, ran, fun stop mem => small stop (mem_cons_of_mem _ mem)⟩
  · rintro ⟨small, fuel, stops, ran, others⟩
    exact ⟨fuel + 1, _, by rw [logLoop_succ more here, ran, map_some],
      forall_mem_cons.mpr ⟨small, others⟩⟩

/-- A page that is not complete is read beyond its end or for ever. -/
lemma complete_of_endsWithin (here : count file (lsn / 20 : Nat) = some found)
    (ends : EndsWithin file lsn) : Complete file (lsn / 20) found := by
  have moved := (endsWithin_step more here).mp ends
  by_contra short
  rw [Complete] at short
  have taken : recordsRead file found lsn =
      (min (found - (lsn % 20 : Nat)) (nextLsn file - lsn)).toNat := by
    rw [recordsRead, maxRecordsPerPage_eq]
  rw [min_def] at taken
  -- The next round would be in the same page, behind its last record.
  have less : recordsRead file found lsn = (found - (lsn % 20 : Nat)).toNat ∧ found < 20 ∧
      (lsn + recordsRead file found lsn : Nat) < nextLsn file := by
    split at short <;> split at taken <;> omega
  obtain ⟨fuel, stops, ran, -⟩ := moved.2
  have same : (lsn + recordsRead file found lsn) / 20 = lsn / 20 := by omega
  rw [logLoop_stuck less.2.2 (same ▸ here)] at ran
  · cases ran
  · rw [recordsRead, maxRecordsPerPage_eq]
    omega

lemma logFits_iff (here : count file (lsn / 20 : Nat) = some found) :
    LogFits file lsn ↔ Complete file (lsn / 20) found ∧ LogFits file (20 * (lsn / 20 + 1)) := by
  have page : 20 * (lsn / 20 + 1) / 20 = lsn / 20 + 1 := by omega
  rw [LogFits, LogFits, page]
  constructor
  · intro fits
    refine ⟨fits _ le_rfl (by omega) found here fun before first last => ?_,
      fun page later inside found mem all => fits page (by omega) inside found mem ?_⟩
    · rw [le_antisymm last first, here]
      rfl
    · intro before first last
      rcases first.eq_or_lt with rfl | behind
      · rw [here]
        rfl
      · exact all before behind last
  · rintro ⟨complete, fits⟩ page later inside found mem all
    rcases later.eq_or_lt with rfl | behind
    · rwa [Option.some.inj (mem.symm.trans here)]
    · exact fits page behind inside found mem fun before first => all before (by omega)

end

lemma endsWithin_iff {lsn : Nat} (more : lsn < nextLsn file) :
    EndsWithin file lsn ↔ LogFits file lsn := by
  cases here : count file (lsn / 20 : Nat) with
  | none =>
    refine iff_of_true ⟨1, [], ?_, by rintro _ ⟨⟩⟩ fun page later _ found _ all => ?_
    · rw [logLoop, if_pos more, maxRecordsPerPage_eq, here, Option.elim_none]
    · have first := all _ le_rfl later
      rw [here] at first
      cases first
  | some found =>
    rw [logFits_iff more here]
    by_cases complete : Complete file (lsn / 20) found
    · rw [endsWithin_step more here, and_iff_right complete]
      have taken : recordsRead file found lsn =
          (min (found - (lsn % 20 : Nat)) (nextLsn file - lsn)).toNat := by
        rw [recordsRead, maxRecordsPerPage_eq]
      rw [min_def] at taken
      rw [Complete] at complete
      split at complete
      next before =>
        have whole : lsn + recordsRead file found lsn = 20 * (lsn / 20 + 1) := by
          split at taken <;> omega
        rw [whole, and_iff_right (by omega)]
        exact endsWithin_iff (by push_cast; exact before)
      next last =>
        have whole : nextLsn file = (lsn + recordsRead file found lsn : Nat) := by
          split at taken <;> omega
        refine iff_of_true ⟨by omega, 1, [], ?_, by rintro _ ⟨⟩⟩ fun page later inside => ?_
        · exact if_neg (by rw [← whole]; exact lt_irrefl _)
        · omega
    · exact iff_of_false (fun ends => complete (complete_of_endsWithin more here ends))
        fun fits => complete fits.1
termination_by (nextLsn file - lsn).toNat

/-- On files of any bytes, the loops over a table end, and stay within the arrays of the pages
if and only if no page of the index that is read has a count beyond that; the loop over the log
ends within the arrays if and only if the pages of the log are complete.  Where there is no memory
for as many entries as announced, the loops do not begin. -/
theorem reads_end (memory : Nat) (table log : Bytes) (start : Nat) :
    (∃ fuel read, openIndex memory table fuel = some read ∧
      ((∀ found ∈ read, found ≤ (maxIndexEntriesPerPage : Int)) ↔ (numIndexEntries table ≤ memory →
        IndexFits table (firstIndexPageId table) (numIndexEntries table)))) ∧
    (∃ fuel read, bloomLoop (bloomNumBytes table) fuel 0 = some read) ∧
    ((∃ fuel stops, readFrom memory log fuel start = some stops ∧
        ∀ stop ∈ stops, stop ≤ maxRecordsPerPage) ↔
      (start < nextLsn log → nextLsn log - start ≤ memory → LogFits log start)) := by
  refine ⟨?_, ⟨_, bloomLoop_ends (Nat.le_add_left _ _)⟩, ?_⟩
  · by_cases room : numIndexEntries table ≤ memory
    · obtain ⟨fuel, enough⟩ : ∃ fuel : Nat, (2 ^ 51 - 1 - firstIndexPageId table) % 2 ^ 52 < fuel :=
        ⟨2 ^ 52, by omega⟩
      obtain ⟨read, ran, fits⟩ := indexLoop_ends enough
      exact ⟨_, read, (if_pos room).trans ran, fits.trans (imp_iff_right room).symm⟩
    · exact ⟨0, [], if_neg room, iff_of_true (by rintro _ ⟨⟩) fun has => absurd has room⟩
  · by_cases room : nextLsn log - start ≤ memory
    · simp only [readFrom, if_pos room, forall_prop_of_true room]
      by_cases more : start < nextLsn log
      · exact (endsWithin_iff more).trans (imp_iff_right more).symm
      · exact iff_of_true ⟨1, [], if_neg more, by rintro _ ⟨⟩⟩ fun less => absurd less more
    · exact iff_of_true ⟨0, [], if_neg room, by rintro _ ⟨⟩⟩ fun _ has => absurd has room

lemma count_zeros (size pageId : Nat) (small : pageId < 2 ^ 50) :
    count (replicate size 0) pageId = some 0 := by
  have zeros (n : Nat) : ofLittleEndian (replicate n 0) = 0 := by
    induction n with
    | zero => rfl
    | succ n ih => simp [List.replicate_succ, ofLittleEndian, ih]
  rw [count, if_pos (by rw [wrapped]; omega)]
  simp [int64At, pageAt, zeros]

/-- In a log of zeros that is longer than a page, the first page is read over and over again. -/
lemma logLoop_zeros (long : 4096 < size) (small : size < 2 ^ 50) (fuel : Nat) :
    logLoop (replicate size 0) fuel 0 = none := by
  have pages : 0 < lastPage (replicate size 0) ∧ lastPage (replicate size 0) < 2 ^ 50 := by
    rw [lastPage, List.length_replicate, show PAGE_SIZE = 4096 from rfl]
    omega
  have next : (0 : Nat) < nextLsn (replicate size 0) := by
    rw [nextLsn, if_neg (by simp; omega), count_zeros _ _ pages.2, maxRecordsPerPage_eq, wrapped,
      Option.getD_some, Int.emod_eq_of_lt (by omega) (by omega)]
    omega
  refine logLoop_stuck next (count_zeros size 0 (by decide)) ?_ fuel
  rw [recordsRead, min_eq_left (by simpa using next.le)]
  rfl

theorem zero_log_never_ends :
    PAGE_SIZE < 4097 ∧ ∀ fuel, logLoop (List.replicate 4097 0) fuel 0 = none :=
  ⟨by decide, logLoop_zeros (by decide) (by decide)⟩

end DbEngine.Storage.Damaged
