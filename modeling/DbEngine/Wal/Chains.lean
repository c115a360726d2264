import DbEngine.Wal.Engine

/-!
# Undo chains

What a log must look like for undo to find its way: following the links of the records
from the last one of a transaction back to its `BEGIN` meets exactly the updates that are
still to be undone.  `Logged` says that every record fitted when it was appended, so it
also holds of every beginning of such a log.
-/

namespace DbEngine.Wal

open Lib
open Lib.TransactionLog (Orderly Built)

/-- What the log has written, and which of it is still to be undone. -/
def logState (log : List LogRecord) : TransactionLog.State TxnId KeyType Bytes :=
  TransactionLog.State.scan (entries log)

/-- Undo from a record meets the updates of keys with these old values, newest first. -/
inductive Resume (log : List LogRecord) (txnId : TxnId) :
    Lsn → List (KeyType × Option Bytes) → Prop where
  | begin {lsn : Lsn} (found : log[lsn]? = some (.begin txnId)) : Resume log txnId lsn []
  | clr {lsn next : Lsn} (found : log[lsn]? = some (.clr txnId prevLsn op key (some next)))
      (earlier : next < lsn) (rest : Resume log txnId next stack) : Resume log txnId lsn stack
  | update {lsn next : Lsn}
      (found : log[lsn]? = some (.update txnId (some next) op key oldValue))
      (earlier : next < lsn) (restores : (computeCompensation op oldValue).value = oldValue)
      (rest : Resume log txnId next stack) : Resume log txnId lsn ((key, oldValue) :: stack)

/-- A record that may be appended to a log. -/
def Fits (log : List LogRecord) : LogRecord → Prop
  | .begin txnId => (logState log).pending txnId = []
  | .update txnId prevLsn op key oldValue =>
    (logState log).contents key = oldValue ∧
      (computeCompensation op oldValue).value = oldValue ∧
      ∃ next, prevLsn = some next ∧ Resume log txnId next ((logState log).pending txnId)
  | .clr txnId _ op key undoNextLsn =>
    ∃ (lsn next : Lsn) (undone : LogOp) (oldValue : Option Bytes)
      (rest : List (KeyType × Option Bytes)), undoNextLsn = some next ∧
      log[lsn]? = some (.update txnId (some next) undone key oldValue) ∧
      op = computeCompensation undone oldValue ∧
      (logState log).pending txnId = (key, op.value) :: rest ∧ Resume log txnId next rest
  | .commit txnId _ => (logState log).live txnId = true
  | .abort _ _ | .checkpointBegin | .activeTxn _ _ | .checkpointEnd => True

/-- What else may be asked of the writes in a log. -/
abbrev Policy :=
  TransactionLog.State TxnId KeyType Bytes → TransactionLog.Entry TxnId KeyType Bytes → Prop

/-- A log all of whose records fitted when they were appended. -/
inductive Logged (policy : Policy) : List LogRecord → Prop where
  | nil : Logged policy []
  | concat {log : List LogRecord} {record : LogRecord} (before : Logged policy log)
      (fits : Fits log record)
      (may : ∀ {entry}, record.entry = some entry → policy (logState log) entry) :
      Logged policy (log ++ [record])

variable {log more : List LogRecord} {record : LogRecord} {txnId : TxnId} {lsn : Lsn}
  {stack : List (KeyType × Option Bytes)} {policy : Policy}

/-! ## States -/

lemma logState_concat (log : List LogRecord) (record : LogRecord) : logState (log ++ [record]) =
      match record.entry with
      | some entry => (logState log).step entry
      | none => logState log := by
  rw [logState, entries_append]
  cases written : record.entry with
  | none =>
    have none : entries [record] = [] := by simp [entries, written]
    rw [none, append_nil]
    rfl
  | some entry =>
    have one : entries [record] = [entry] := by simp [entries, written]
    rw [one, TransactionLog.State.scan_concat]
    rfl

lemma logState_contents (log : List LogRecord) :
    (logState log).contents = redoAll log fun _ => none := by
  rw [logState, TransactionLog.State.scan_contents, redoAll_eq_replay]

lemma contents_concat (log : List LogRecord) (record : LogRecord) :
    (logState (log ++ [record])).contents = record.redo (logState log).contents := by
  rw [logState_contents, logState_contents, redoAll_append]
  rfl

/-! ## Chains -/

lemma Resume.append (resume : Resume log txnId lsn stack) :
    Resume (log ++ more) txnId lsn stack := by
  have kept {lsn : Lsn} {record : LogRecord} (found : log[lsn]? = some record) :
      (log ++ more)[lsn]? = some record := by
    rw [getElem?_append_left (getElem?_eq_some_iff.mp found).1]
    exact found
  induction resume with
  | begin found => exact .begin (kept found)
  | clr found earlier _ ih => exact .clr (kept found) earlier ih
  | update found earlier restores _ ih => exact .update (kept found) earlier restores ih

lemma Resume.lt_length (resume : Resume log txnId lsn stack) : lsn < log.length := by
  cases resume with
  | begin found | clr found | update found => exact (getElem?_eq_some_iff.mp found).1

lemma Logged.built (logged : Logged policy log) :
    Built (fun state entry => Orderly state entry ∧ policy state entry) (entries log) := by
  induction logged with
  | nil => exact .nil
  | @concat log record before fits may ih =>
    rw [entries_append]
    cases written : record.entry with
    | none =>
      have none : entries [record] = [] := by simp [entries, written]
      rw [none, append_nil]
      exact ih
    | some entry =>
      have one : entries [record] = [entry] := by simp [entries, written]
      rw [one]
      refine .concat ih ⟨?_, may written⟩
      cases record with
      | begin | commit =>
        cases written
        exact fits
      | update =>
        cases written
        trivial
      | clr =>
        cases written
        obtain ⟨_, _, _, _, rest, -, -, -, top, -⟩ := fits
        exact ⟨rest, top⟩
      | _ => cases written

lemma Logged.of_concat (logged : Logged policy (log ++ [record])) :
    Logged policy log ∧ Fits log record := by
  generalize same : log ++ [record] = whole at logged
  cases logged with
  | nil => simp at same
  | concat before fits =>
    obtain ⟨rfl, last⟩ := append_inj' same rfl
    cases last
    exact ⟨before, fits⟩

lemma Logged.take (logged : Logged policy log) (length : Nat) :
    Logged policy (log.take length) := by
  induction logged with
  | nil =>
    rw [List.take_nil]
    exact .nil
  | @concat log record before fits may ih =>
    rcases Nat.lt_or_ge log.length length with long | short
    · rw [List.take_of_length_le (by simpa using Nat.succ_le_of_lt long)]
      exact .concat before fits may
    · rw [List.take_append_of_le_length short]
      exact ih

/-- Undo can start at a record just appended. -/
lemma Fits.resume (fits : Fits log record) (ours : record.undoneBy = some txnId) :
    Resume (log ++ [record]) txnId log.length ((logState (log ++ [record])).pending txnId) := by
  have found : (log ++ [record])[log.length]? = some record := by simp
  rw [logState_concat]
  cases record with
  | begin =>
    cases ours
    simpa [LogRecord.entry, TransactionLog.State.step] using Resume.begin found
  | update _ prevLsn op key oldValue =>
    cases ours
    obtain ⟨before, restores, next, link, resume⟩ := fits
    subst link before
    simpa [LogRecord.entry, TransactionLog.State.step] using
      Resume.update found resume.lt_length restores resume.append
  | clr =>
    cases ours
    obtain ⟨_, next, _, _, rest, link, -, -, top, resume⟩ := fits
    subst link
    simpa [LogRecord.entry, TransactionLog.State.step, top] using
      Resume.clr found resume.lt_length resume.append
  | _ => cases ours

/-- A record of another transaction leaves a transaction's updates to be undone. -/
lemma pending_concat_of_ne (log : List LogRecord) (other : record.undoneBy ≠ some txnId)
    (running : ∀ prevLsn, record ≠ .commit txnId prevLsn) :
    (logState (log ++ [record])).pending txnId = (logState log).pending txnId := by
  rw [logState_concat]
  cases record with
  | begin owner | update owner | clr owner =>
    have ne : txnId ≠ owner := by
      intro same
      subst same
      exact other rfl
    simp [LogRecord.entry, TransactionLog.State.step, ne]
  | commit owner prevLsn =>
    have ne : txnId ≠ owner := by
      intro same
      subst same
      exact running prevLsn rfl
    simp [LogRecord.entry, TransactionLog.State.step, ne]
  | _ => rfl

lemma pending_concat_commit (log : List LogRecord) (prevLsn : Option Lsn) :
    (logState (log ++ [.commit txnId prevLsn])).pending txnId = [] := by
  rw [logState_concat]
  simp [LogRecord.entry, TransactionLog.State.step]

end DbEngine.Wal
