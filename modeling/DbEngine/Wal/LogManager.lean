import DbEngine.Lib.PackedPage
import DbEngine.Storage.DiskManager
import DbEngine.Wal.LogRecord

/-!
# The log file

`wal/log_record.h` and `wal/log_manager.cpp`: records of one size in pages, with the last
page also in memory.  However the appends are split by closing and opening the file, or by a
kill between two page writes, the log is the list of the records that were appended.
-/

namespace DbEngine.Wal.LogFile

open Lib Storage

/-- `LogRecordType`. -/
inductive LogRecordType where
  | invalid
  | begin
  | update
  | commit
  | abort
  | clr
  | checkpointBegin
  | activeTxn
  | checkpointEnd
  deriving Repr, DecidableEq

/-- `LogOpType`. -/
inductive LogOpType where
  | none
  | put
  | delete
  deriving Repr, DecidableEq

/-- A `char[MAX_VALUE_SIZE]`. -/
abbrev ValueBuffer := Vector UInt8 MAX_VALUE_SIZE

def ValueBuffer.zeros : ValueBuffer := Vector.replicate MAX_VALUE_SIZE 0

/-- `LogRecord`, field by field. -/
structure LogRecord where
  lsn : Int := -1
  txnId : Int := -1
  prevLsn : Int := -1
  type : LogRecordType := .invalid
  op : LogOpType := .none
  key : KeyType := 0
  hasOldValue : UInt8 := 0
  oldValueLen : UInt16 := 0
  oldValue : ValueBuffer := .zeros
  hasNewValue : UInt8 := 0
  newValueLen : UInt16 := 0
  newValue : ValueBuffer := .zeros
  undoNextLsn : Int := -1
  activeTxnId : Int := -1
  activeTxnLastLsn : Int := -1
  deriving Repr, DecidableEq

namespace LogRecord

/-- The record that all-zero bytes stand for. -/
instance : Zero LogRecord where
  zero :=
    { lsn := 0, txnId := 0, prevLsn := 0, undoNextLsn := 0, activeTxnId := 0,
      activeTxnLastLsn := 0 }

/-- `LogRecord::OldValue`. -/
def getOldValue (record : LogRecord) : Bytes :=
  record.oldValue.toList.take record.oldValueLen.toNat

/-- `LogRecord::NewValue`. -/
def getNewValue (record : LogRecord) : Bytes :=
  record.newValue.toList.take record.newValueLen.toNat

/-- `LogRecord::SetOldValue`. -/
def setOldValue (record : LogRecord) (value : Bytes) : LogRecord :=
  { record with
    hasOldValue := 1
    oldValueLen := UInt16.ofNat value.length
    oldValue := overwrite record.oldValue value }

/-- `LogRecord::SetNewValue`. -/
def setNewValue (record : LogRecord) (value : Bytes) : LogRecord :=
  { record with
    hasNewValue := 1
    newValueLen := UInt16.ofNat value.length
    newValue := overwrite record.newValue value }

variable {value : Bytes}

/-- The length of a value fits its field. -/
lemma toNat_length (fits : value.length ≤ MAX_VALUE_SIZE) :
    (UInt16.ofNat value.length).toNat = value.length := by
  apply UInt16.toNat_ofNat_of_lt
  rw [MAX_VALUE_SIZE] at fits
  exact lt_of_le_of_lt fits (by decide)

lemma getOldValue_setOldValue (record : LogRecord) (fits : value.length ≤ MAX_VALUE_SIZE) :
    (record.setOldValue value).getOldValue = value := by
  rw [getOldValue, setOldValue, toNat_length fits]
  exact take_overwrite record.oldValue fits

lemma getNewValue_setNewValue (record : LogRecord) (fits : value.length ≤ MAX_VALUE_SIZE) :
    (record.setNewValue value).getNewValue = value := by
  rw [getNewValue, setNewValue, toNat_length fits]
  exact take_overwrite record.newValue fits

end LogRecord

/-- `sizeof(LogRecord)`. -/
def logRecordSize : Nat := 200

/-- `kMaxRecordsPerPage`. -/
def maxRecordsPerPage : Nat := (PAGE_SIZE - 8) / logRecordSize

/-- `LogPage`. -/
abbrev LogPage := PackedPage LogRecord maxRecordsPerPage

/-- `LogManager`. -/
structure LogManager where
  disk : DiskManager LogPage
  nextLsn : Nat
  currentPageId : Nat
  currentPage : LogPage

namespace LogManager

/-- The constructor. -/
def «open» (file : List LogPage) : LogManager :=
  let disk := DiskManager.open file
  if disk.getNumPages = 0 then
    { disk := disk.allocatePage.2
      nextLsn := 0
      currentPageId := disk.allocatePage.1
      currentPage := 0 }
  else
    let currentPageId := disk.getNumPages - 1
    let currentPage := disk.readPage currentPageId
    { disk
      nextLsn := currentPageId * maxRecordsPerPage + currentPage.count
      currentPageId
      currentPage }

/-- The first part of `Append`: a full page is written and a new one begun, with the old
records still in the buffer. -/
def rollOver (log : LogManager) : LogManager :=
  if maxRecordsPerPage ≤ log.currentPage.count then
    let disk := log.disk.writePage log.currentPageId log.currentPage
    { log with
      disk := disk.allocatePage.2
      currentPageId := disk.allocatePage.1
      currentPage := { log.currentPage with count := 0 } }
  else log

/-- The second part of `Append`: the record goes into the page and the page to the file. -/
def addRecord (log : LogManager) (record : LogRecord) : LogManager :=
  { log with
    disk := log.disk.writePage log.currentPageId (log.currentPage.add record)
    currentPage := log.currentPage.add record
    nextLsn := log.nextLsn + 1 }

/-- `LogManager::Append`. -/
def append (log : LogManager) (record : LogRecord) : Nat × LogManager :=
  (log.nextLsn, log.rollOver.addRecord { record with lsn := log.nextLsn })

/-- `LogManager::GetNextLsn`. -/
def getNextLsn (log : LogManager) : Nat := log.nextLsn

/-- The page with some id: the one in memory, or one from the file. -/
def page (log : LogManager) (pageId : Nat) : LogPage :=
  if pageId = log.currentPageId then log.currentPage else log.disk.readPage pageId

/-- `LogManager::ReadRecord`. -/
def readRecord (log : LogManager) (lsn : Nat) : LogRecord :=
  (log.page (lsn / maxRecordsPerPage)).slot (lsn % maxRecordsPerPage)

/-- The inner loop of `ReadFrom`, with the number of records left in the page: the records
it adds and where it stops. -/
def readPageFrom (page : LogPage) (nextLsn : Nat) : Nat → Nat → Nat → List LogRecord × Nat
  | 0, _, lsn => ([], lsn)
  | left + 1, index, lsn =>
    if lsn < nextLsn then
      let rest := readPageFrom page nextLsn left (index + 1) (lsn + 1)
      (page.slot index :: rest.1, rest.2)
    else ([], lsn)

/-- The outer loop of `ReadFrom`; `none` where the fuel is not enough. -/
def readPages (log : LogManager) : Nat → Nat → Option (List LogRecord)
  | 0, _ => none
  | fuel + 1, lsn =>
    if lsn < log.nextLsn then
      let page := log.page (lsn / maxRecordsPerPage)
      let index := lsn % maxRecordsPerPage
      let read := readPageFrom page log.nextLsn (page.count - index) index lsn
      (readPages log fuel read.2).map (read.1 ++ ·)
    else some []

/-- `LogManager::ReadFrom`. -/
def readFrom (log : LogManager) (fuel startLsn : Nat) : Option (List LogRecord) :=
  if log.nextLsn ≤ startLsn then some [] else log.readPages fuel startLsn

end LogManager

/-! ## The log as a list of records -/

/-- A page holds the records of the list from its first one on. -/
def PageOf (records : List LogRecord) (pageId : Nat) (page : LogPage) : Prop :=
  ∀ index < page.count, records[pageId * maxRecordsPerPage + index]? = some (page.slot index)

/-- The pages of a log, all but the last one full, hold the records of a list. -/
structure Layout (records : List LogRecord) (log : LogManager) : Prop where
  next : log.nextLsn = records.length
  place : records.length = log.currentPageId * maxRecordsPerPage + log.currentPage.count
  room : log.currentPage.count ≤ maxRecordsPerPage
  allocated : log.disk.nextPageId = log.currentPageId + 1
  size : log.disk.file.length ≤ log.currentPageId + 1
  current : PageOf records log.currentPageId log.currentPage
  earlier : ∀ pageId < log.currentPageId,
    (log.disk.readPage pageId).count = maxRecordsPerPage ∧
      PageOf records pageId (log.disk.readPage pageId)

/-- Between two calls the last page is in the file too, unless nothing was ever appended. -/
structure Holds (records : List LogRecord) (log : LogManager) : Prop extends
    Layout records log where
  written : log.disk.file = [] ∧ records = [] ∨
    log.disk.file.length = log.currentPageId + 1 ∧
      log.disk.readPage log.currentPageId = log.currentPage

variable {records : List LogRecord} {log : LogManager} {page : LogPage} {pageId : Nat}

lemma PageOf.append (holds : PageOf records pageId page) (record : LogRecord) :
    PageOf (records ++ [record]) pageId page := by
  intro index inside
  have stored := holds index inside
  have bound := (getElem?_eq_some_iff.mp stored).1
  rw [getElem?_append_left bound]
  exact stored

lemma holds_fresh : Holds [] (LogManager.open []) where
  next := rfl
  place := rfl
  room := Nat.zero_le _
  allocated := rfl
  size := Nat.zero_le _
  current := fun _ inside => absurd inside (Nat.not_lt_zero _)
  earlier := fun _ before => absurd before (Nat.not_lt_zero _)
  written := .inl ⟨rfl, rfl⟩

/-- Opening the file of a log brings the log back. -/
lemma Holds.open (holds : Holds records log) : Holds records (.open log.disk.file) := by
  rcases holds.written with ⟨file, none⟩ | ⟨size, last⟩
  · rw [file, none]
    exact holds_fresh
  · have disk : DiskManager.open log.disk.file = log.disk := by
      rw [DiskManager.open, size, ← holds.allocated]
    have lsn : log.currentPageId * maxRecordsPerPage + log.currentPage.count = log.nextLsn :=
      holds.place.symm.trans holds.next.symm
    have same : LogManager.open log.disk.file = log := by
      simp only [LogManager.open, DiskManager.getNumPages, disk, holds.allocated,
        Nat.add_one_ne_zero, if_false, Nat.add_sub_cancel, last, lsn]
    rw [same]
    exact holds

/-- A full page is in the file already. -/
lemma Holds.written_of_full (holds : Holds records log)
    (full : maxRecordsPerPage ≤ log.currentPage.count) :
    log.disk.file.length = log.currentPageId + 1 ∧
      log.disk.readPage log.currentPageId = log.currentPage := by
  rcases holds.written with ⟨-, rfl⟩ | written
  · have place := holds.place
    rw [length_nil] at place
    have positive : 0 < maxRecordsPerPage := by decide
    omega
  · exact written

/-- Rolling over leaves the file as it was. -/
lemma Holds.rollOver_file (holds : Holds records log) : log.rollOver.disk.file = log.disk.file := by
  rw [LogManager.rollOver]
  split
  next full =>
    obtain ⟨size, last⟩ := holds.written_of_full full
    have inside : log.currentPageId < log.disk.file.length := by
      rw [size]
      exact Nat.lt_succ_self _
    have same := writeFile_readFile inside
    rw [show readFile log.disk.file log.currentPageId = log.currentPage from last] at same
    exact same
  · rfl

lemma Holds.rollOver (holds : Holds records log) :
    Layout records log.rollOver ∧ log.rollOver.currentPage.count < maxRecordsPerPage := by
  have file := holds.rollOver_file
  by_cases full : maxRecordsPerPage ≤ log.currentPage.count
  · obtain ⟨size, last⟩ := holds.written_of_full full
    have exact : log.currentPage.count = maxRecordsPerPage := le_antisymm holds.room full
    have reads (pageId : Nat) :
        log.rollOver.disk.readPage pageId = log.disk.readPage pageId := by
      rw [DiskManager.readPage, file, DiskManager.readPage]
    have pageId : log.rollOver.currentPageId = log.currentPageId + 1 := by
      rw [LogManager.rollOver, if_pos full]
      exact holds.allocated
    have count : log.rollOver.currentPage.count = 0 := by rw [LogManager.rollOver, if_pos full]
    refine ⟨?_, by rw [count]; decide⟩
    constructor
    · rw [LogManager.rollOver, if_pos full]
      exact holds.next
    · rw [pageId, count, holds.place, exact, Nat.succ_mul]
      rfl
    · rw [count]
      exact Nat.zero_le _
    · rw [pageId, LogManager.rollOver, if_pos full]
      exact congrArg (· + 1) holds.allocated
    · rw [file, size, pageId]
      exact Nat.le_succ _
    · intro index inside
      rw [count] at inside
      exact absurd inside (Nat.not_lt_zero _)
    · intro other before
      rw [reads]
      rw [pageId] at before
      rcases Nat.lt_succ_iff_lt_or_eq.mp before with before | rfl
      · exact holds.earlier other before
      · rw [last]
        exact ⟨exact, holds.current⟩
  · have same : log.rollOver = log := by rw [LogManager.rollOver, if_neg full]
    rw [same]
    exact ⟨holds.toLayout, Nat.lt_of_not_le full⟩

lemma Layout.addRecord (layout : Layout records log)
    (room : log.currentPage.count < maxRecordsPerPage) (record : LogRecord) :
    Holds (records ++ [record]) (log.addRecord record) := by
  have place := layout.place
  constructor
  · constructor
    · rw [length_append]
      exact congrArg (· + 1) layout.next
    · rw [length_append, layout.place]
      rfl
    · exact room
    · exact layout.allocated
    · apply Nat.le_of_eq
      exact (length_writeFile _ _ _).trans (Nat.max_eq_right layout.size)
    · intro index inside
      rcases Nat.lt_succ_iff_lt_or_eq.mp inside with before | rfl
      · have stored := layout.current.append record index before
        rw [← PackedPage.slot_add_of_ne record (ne_of_lt before)] at stored
        exact stored
      · change (records ++ [record])[log.currentPageId * maxRecordsPerPage + log.currentPage.count]? =
          some ((log.currentPage.add record).slot log.currentPage.count)
        rw [PackedPage.slot_add_count record room, ← place, List.getElem?_concat_length]
    · intro pageId before
      have reads : (log.addRecord record).disk.readPage pageId = log.disk.readPage pageId :=
        readFile_writeFile_of_ne _ _ (ne_of_lt before)
      rw [reads]
      obtain ⟨full, holds⟩ := layout.earlier pageId before
      exact ⟨full, holds.append record⟩
  · right
    constructor
    · exact (length_writeFile _ _ _).trans (Nat.max_eq_right layout.size)
    · exact readFile_writeFile_self _ _ _

lemma Holds.append (holds : Holds records log) (record : LogRecord) :
    Holds (records ++ [{ record with lsn := records.length }]) (log.append record).2 := by
  obtain ⟨layout, room⟩ := holds.rollOver
  rw [LogManager.append, holds.next]
  exact layout.addRecord room _

/-! ## Reading -/

/-- The page that a record is looked for in holds it. -/
lemma Layout.pageOf (layout : Layout records log) {lsn : Nat} (inside : lsn < records.length) :
    PageOf records (lsn / maxRecordsPerPage) (log.page (lsn / maxRecordsPerPage)) ∧
      lsn % maxRecordsPerPage < (log.page (lsn / maxRecordsPerPage)).count := by
  have place := layout.place
  have room := layout.room
  have positive : 0 < maxRecordsPerPage := by decide
  have split := Nat.div_add_mod' lsn maxRecordsPerPage
  rw [LogManager.page]
  split
  next same =>
    rw [same] at split ⊢
    exact ⟨layout.current, by omega⟩
  next differs =>
    have notLater : lsn / maxRecordsPerPage < log.currentPageId + 1 := by
      apply Nat.div_lt_of_lt_mul
      rw [Nat.mul_comm, Nat.succ_mul]
      omega
    have before : lsn / maxRecordsPerPage < log.currentPageId := by omega
    obtain ⟨full, holds⟩ := layout.earlier _ before
    rw [full]
    exact ⟨holds, Nat.mod_lt lsn positive⟩

lemma Layout.readRecord (layout : Layout records log) {lsn : Nat}
    (inside : lsn < records.length) : records[lsn]? = some (log.readRecord lsn) := by
  obtain ⟨holds, index⟩ := layout.pageOf inside
  have stored := holds _ index
  rw [Nat.div_add_mod'] at stored
  exact stored

lemma readPageFrom_eq (holds : PageOf records pageId page) {left index lsn : Nat}
    (inside : index + left ≤ page.count) (place : lsn = pageId * maxRecordsPerPage + index) :
    LogManager.readPageFrom page records.length left index lsn =
      ((records.drop lsn).take left, lsn + left) := by
  induction left generalizing index lsn with
  | zero => rfl
  | succ left ih =>
    have stored := holds index (by omega)
    rw [← place] at stored
    obtain ⟨bound, value⟩ := getElem?_eq_some_iff.mp stored
    have rest := @ih (index + 1) (lsn + 1) (by omega) (by omega)
    rw [LogManager.readPageFrom, if_pos bound, rest, drop_eq_getElem_cons bound, value,
      List.take_succ_cons, add_right_comm lsn, Nat.add_assoc lsn]

/-- Each round of the outer loop reads the rest of a page, which is not empty. -/
lemma Layout.readPages (layout : Layout records log) {fuel lsn : Nat}
    (enough : records.length - lsn < fuel) : log.readPages fuel lsn = some (records.drop lsn) := by
  induction fuel generalizing lsn with
  | zero => exact absurd enough (Nat.not_lt_zero _)
  | succ fuel ih =>
    rw [LogManager.readPages, layout.next]
    split
    next inside =>
      obtain ⟨holds, index⟩ := layout.pageOf inside
      generalize log.page (lsn / maxRecordsPerPage) = page at holds index
      have place := (Nat.div_add_mod' lsn maxRecordsPerPage).symm
      have read := @readPageFrom_eq _ _ _ holds (page.count - lsn % maxRecordsPerPage) _ lsn
        (by omega) place
      simp only [read]
      rw [ih (by omega), map_some, ← drop_drop, take_append_drop]
    next past => rw [drop_eq_nil_of_le (Nat.le_of_not_lt past)]

lemma Layout.readFrom (layout : Layout records log) (enough : records.length < fuel)
    (startLsn : Nat) : log.readFrom fuel startLsn = some (records.drop startLsn) := by
  rw [LogManager.readFrom, layout.next]
  split
  next past => rw [drop_eq_nil_of_le past]
  · exact layout.readPages (lt_of_le_of_lt (Nat.sub_le _ _) enough)

/-! ## Runs -/

/-- What becomes of a log file that did not exist at first, with the records that `Append`
was called with. -/
inductive LogRun : List LogRecord → LogManager → Prop where
  | create : LogRun [] (.open [])
  | append {log : LogManager} (run : LogRun given log)
      (record : LogRecord) : LogRun (given ++ [record]) (log.append record).2
  /-- The log is closed, or the process is killed between two calls. -/
  | reopen {log : LogManager} (run : LogRun given log) :
      LogRun given (.open log.disk.file)
  /-- The process is killed inside `Append`, after the first of its two page writes. -/
  | killed {log : LogManager} (run : LogRun given log) :
      LogRun given (.open log.rollOver.disk.file)

/-- The records with the LSNs that they get. -/
def numbered (given : List LogRecord) : List LogRecord :=
  given.mapIdx fun lsn record => { record with lsn := lsn }

lemma LogRun.holds (run : LogRun given log) : Holds (numbered given) log := by
  induction run with
  | create => exact holds_fresh
  | append run record ih =>
    have appended := ih.append record
    rw [numbered, List.length_mapIdx] at appended
    rw [numbered, List.mapIdx_concat]
    exact appended
  | reopen run ih => exact ih.open
  | killed run ih =>
    rw [ih.rollOver_file]
    exact ih.open

/-- The log is the list of what was appended, and it gives every record back. -/
theorem log_is_append_only {given : List LogRecord} {log : LogManager} (run : LogRun given log) :
    log.getNextLsn = given.length ∧
    (∀ record, (log.append record).1 = given.length) ∧
    (∀ lsn record, given[lsn]? = some record →
      log.readRecord lsn = { record with lsn := lsn }) ∧
    (∀ fuel startLsn, given.length < fuel →
      log.readFrom fuel startLsn = some ((numbered given).drop startLsn)) ∧
    ∀ (record : LogRecord) (value : Bytes), value.length ≤ MAX_VALUE_SIZE →
      (record.setOldValue value).getOldValue = value ∧
        (record.setNewValue value).getNewValue = value := by
  have holds := run.holds
  have length : (numbered given).length = given.length := List.length_mapIdx
  have next : log.nextLsn = given.length := holds.next.trans length
  refine ⟨next, fun _ => next, ?_, ?_, ?_⟩
  · intro lsn record appended
    have inside := (getElem?_eq_some_iff.mp appended).1
    have stored := holds.readRecord (by rwa [length])
    rw [numbered, List.getElem?_mapIdx, appended] at stored
    exact (Option.some.inj stored).symm
  · intro fuel startLsn enough
    exact holds.readFrom (by rwa [length]) startLsn
  · intro record value fits
    exact ⟨record.getOldValue_setOldValue fits, record.getNewValue_setNewValue fits⟩

/-- The record of a `Put`. -/
def onePut : LogRecord := LogRecord.setNewValue { type := .update, op := .put, key := 7 } [1, 2]

/-- A log with one record, closed and opened again. -/
def reopenedLog : LogManager := .open ((LogManager.open []).append onePut).2.disk.file

theorem log_is_append_only_reopened :
    reopenedLog.getNextLsn = 1 ∧ reopenedLog.readRecord 0 = { onePut with lsn := 0 } ∧
      reopenedLog.readFrom 2 0 = some [{ onePut with lsn := 0 }] ∧ onePut.getNewValue = [1, 2] := by
  have run : LogRun [onePut] reopenedLog := (LogRun.create.append onePut).reopen
  rcases log_is_append_only run with ⟨next, -, record, list, value⟩
  exact ⟨next, record 0 onePut rfl, list 2 0 (by decide), (value _ [1, 2] (by decide)).2⟩

end DbEngine.Wal.LogFile
