import DbEngine.Common.Config
import DbEngine.Lib.TransactionLog

/-!
# Log records

`wal/log_record.h`.  The one struct of the source is a tagged union in spirit, and is one
here: each kind of record has the fields the engine sets for it.  A record's LSN is its
position in the log, and an LSN of -1 is `none`.
-/

namespace DbEngine.Wal

open Lib

abbrev Lsn := Nat
abbrev TxnId := Nat

/-- `LogOpType` with the new value of a `PUT`. -/
inductive LogOp where
  | put (value : Bytes)
  | delete
  deriving Repr, DecidableEq

/-- What the operation leaves at its key. -/
def LogOp.value : LogOp → Option Bytes
  | .put value => some value
  | .delete => none

/-- `ComputeCompensation`: the operation that reverses a logged one. -/
def computeCompensation (op : LogOp) (oldValue : Option Bytes) : LogOp :=
  match op with
  | .put _ =>
    match oldValue with
    | some oldValue => .put oldValue
    | none => .delete
  | .delete => .put (oldValue.getD [])

/-- `LogRecord`. -/
inductive LogRecord where
  | begin (txnId : TxnId)
  | update (txnId : TxnId) (prevLsn : Option Lsn) (op : LogOp) (key : KeyType)
      (oldValue : Option Bytes)
  | commit (txnId : TxnId) (prevLsn : Option Lsn)
  | abort (txnId : TxnId) (prevLsn : Option Lsn)
  /-- A compensation log record. -/
  | clr (txnId : TxnId) (prevLsn : Option Lsn) (op : LogOp) (key : KeyType)
      (undoNextLsn : Option Lsn)
  | checkpointBegin
  | activeTxn (txnId : TxnId) (lastLsn : Option Lsn)
  | checkpointEnd
  deriving Repr, DecidableEq

/-- The map of a tree. -/
abbrev Contents := KeyType → Option Bytes

namespace LogRecord

/-- What redo does with a record. -/
def redo (tree : Contents) : LogRecord → Contents
  | .update _ _ op key _ | .clr _ _ op key _ => Function.update tree key op.value
  | _ => tree

/-- What a record says about transactions and the map they write. -/
def entry : LogRecord → Option (TransactionLog.Entry TxnId KeyType Bytes)
  | .begin txnId => some (.begin txnId)
  | .update txnId _ op key _ => some (.write txnId key op.value)
  | .commit txnId _ => some (.commit txnId)
  | .clr txnId _ op key _ => some (.undo txnId key op.value)
  | .abort _ _ | .checkpointBegin | .activeTxn _ _ | .checkpointEnd => none

/-- The transaction whose undo starts at a record, if it is the last such record. -/
def undoneBy : LogRecord → Option TxnId
  | .begin txnId | .update txnId _ _ _ _ | .clr txnId _ _ _ _ => some txnId
  | _ => none

end LogRecord

/-- The tree after redo of some records. -/
def redoAll (records : List LogRecord) (tree : Contents) : Contents :=
  records.foldl LogRecord.redo tree

/-- The records that matter to transactions. -/
def entries (log : List LogRecord) : List (TransactionLog.Entry TxnId KeyType Bytes) :=
  log.filterMap LogRecord.entry

lemma entries_append (first second : List LogRecord) :
    entries (first ++ second) = entries first ++ entries second :=
  filterMap_append

lemma redoAll_eq_replay (records : List LogRecord) (tree : Contents) :
    redoAll records tree = TransactionLog.replay (entries records) tree := by
  induction records generalizing tree with
  | nil => rfl
  | cons record rest ih =>
    have step : redoAll (record :: rest) tree = redoAll rest (record.redo tree) := rfl
    rw [step, ih]
    cases record <;> rfl

lemma redoAll_append (first second : List LogRecord) (tree : Contents) :
    redoAll (first ++ second) tree = redoAll second (redoAll first tree) :=
  foldl_append

/-- Redo from any point the tree on disk has already passed reaches the end of the log. -/
lemma redoAll_drop_take {log : List LogRecord} {start reached : Nat} (covered : start ≤ reached)
    (tree : Contents) :
    redoAll (log.drop start) (redoAll (log.take reached) tree) = redoAll log tree := by
  obtain ⟨extra, rfl⟩ := Nat.exists_eq_add_of_le covered
  have again := TransactionLog.replay_overlap (entries (log.take start))
    (entries ((log.drop start).take extra)) (entries ((log.drop start).drop extra)) tree
  rw [← entries_append, ← entries_append, ← entries_append, take_append_drop,
    take_append_drop, ← List.take_add, ← redoAll_eq_replay, ← redoAll_eq_replay,
    ← redoAll_eq_replay] at again
  exact again

end DbEngine.Wal
