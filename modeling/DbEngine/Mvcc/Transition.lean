import DbEngine.Mvcc.Machine

/-!
# The steps as a relation

`Machine.step` read backwards: one constructor for each way a step can succeed, with
the guards it passed.  Every invariant of the interleaved store is a case analysis over
this relation, so the nested matches of `step` are taken apart only here.
-/

namespace DbEngine.Mvcc

/-- The ways a step can succeed. -/
inductive Transition (machine : Machine) : Action → Event → Machine → Prop where
  | drawTxnId (level : IsolationLevel) :
      Transition machine (.drawTxnId level) .silent
        ({ machine with nextTxnId := machine.nextTxnId + 1 }.setThread
          machine.nextTxnId (.drawnId level))
  | drawStartTs (thread : machine.thread txnId = .drawnId level) :
      Transition machine (.drawStartTs txnId) (.started txnId level machine.globalTs)
        (machine.tick.setThread txnId (.drawnTs level machine.globalTs))
  | register (thread : machine.thread txnId = .drawnTs level startTs) :
      Transition machine (.register txnId) .silent
        ((machine.setTxn txnId (some { isolation := level, startTs })).setThread txnId .idle)
  | readMissing (thread : machine.thread txnId = .idle)
      (registered : machine.txns txnId = some txn) (lookup : machine.table key = none) :
      Transition machine (.read txnId key) (.read txnId key none)
        (machine.setTxn txnId (some { txn with readSet := insert key txn.readSet }))
  | read (thread : machine.thread txnId = .idle)
      (registered : machine.txns txnId = some txn)
      (lookup : machine.table key = some chain) (unlocked : chain.mutex = none) :
      Transition machine (.read txnId key)
        (.read txnId key (readChain chain.versions txnId txn.isolation txn.startTs))
        (machine.setTxn txnId (some { txn with readSet := insert key txn.readSet }))
  | overwrite (thread : machine.thread txnId = .idle)
      (registered : machine.txns txnId = some txn)
      (unlocked : ((machine.table key).getD {}).mutex = none)
      (overwritten : overwritePending txnId deleted value machine.globalTs
        ((machine.table key).getD {}).versions = some versions) :
      Transition machine (.write txnId key deleted value)
        (.wrote txnId key deleted (if deleted then [] else value) machine.globalTs)
        (machine.tick.setChain key { (machine.table key).getD {} with versions })
  | push (thread : machine.thread txnId = .idle)
      (registered : machine.txns txnId = some txn)
      (unlocked : ((machine.table key).getD {}).mutex = none)
      (nonePending : overwritePending txnId deleted value machine.globalTs
        ((machine.table key).getD {}).versions = none) :
      Transition machine (.write txnId key deleted value)
        (.wrote txnId key deleted (if deleted then [] else value) machine.globalTs)
        (({ machine.tick with nextNode := machine.nextNode + 1 }.setChain key
          { (machine.table key).getD {} with
            versions := ((machine.table key).getD {}).versions ++
              [newVersion machine.nextNode txnId deleted value machine.globalTs] }).setTxn
            txnId (some (txn.addWrite key machine.nextNode)))
  | beginCommit (thread : machine.thread txnId = .idle)
      (registered : machine.txns txnId = some txn) :
      Transition machine (.beginCommit txnId) .silent
        (machine.setThread txnId (.lookingUp txn.checkKeys []))
  | lookupKey (thread : machine.thread txnId = .lookingUp (key :: todo) found) :
      Transition machine (.lookupChain txnId) .silent
        (machine.setThread txnId (.lookingUp todo
          (if (machine.table key).isSome then found ++ [key] else found)))
  | lookupDone (thread : machine.thread txnId = .lookingUp [] found) :
      Transition machine (.lookupChain txnId) .silent
        (machine.setThread txnId (.locking found []))
  | lockChain (thread : machine.thread txnId = .locking (key :: todo) held)
      (lookup : machine.table key = some chain) (unlocked : chain.mutex = none) :
      Transition machine (.lockChain txnId) .silent
        ((machine.setChain key { chain with mutex := some txnId }).setThread txnId
          (.locking todo (held ++ [key])))
  | validate (thread : machine.thread txnId = .locking [] held)
      (registered : machine.txns txnId = some txn) :
      Transition machine (.validate txnId) .silent
        (machine.setThread txnId
          (if held.any fun key =>
              chainConflicts ((machine.table key).getD {}).versions txnId txn.startTs
            then .releasing held false else .validated held))
  | drawCommitTs (thread : machine.thread txnId = .validated held)
      (registered : machine.txns txnId = some txn) :
      Transition machine (.drawCommitTs txnId) (.committed txnId machine.globalTs)
        (machine.tick.setThread txnId (.marking machine.globalTs txn.writeRecords held))
  | markVersion (thread : machine.thread txnId = .marking commitTs (record :: todo) held)
      (lookup : machine.table record.key = some chain) :
      Transition machine (.markVersion txnId) (.installed txnId record.key)
        ((machine.setChain record.key { chain with
          versions := markCommitted record.node commitTs chain.versions }).setThread
            txnId (.marking commitTs todo held))
  | markDone (thread : machine.thread txnId = .marking commitTs [] held) :
      Transition machine (.markVersion txnId) .silent
        (machine.setThread txnId (.releasing held true))
  | unlockChain (thread : machine.thread txnId = .releasing (key :: held) success)
      (lookup : machine.table key = some chain) :
      Transition machine (.unlockChain txnId) .silent
        ((machine.setChain key { chain with mutex := none }).setThread txnId
          (.releasing held success))
  | unlockDone (thread : machine.thread txnId = .releasing [] success)
      (registered : machine.txns txnId = some txn) :
      Transition machine (.unlockChain txnId) .silent
        (machine.setThread txnId
          (if success then .closing else .erasing txn.writeRecords))
  | abort (thread : machine.thread txnId = .idle)
      (registered : machine.txns txnId = some txn) :
      Transition machine (.abort txnId) .silent
        ((machine.setTxn txnId none).setThread txnId (.erasing txn.writeRecords))
  | eraseVersion (thread : machine.thread txnId = .erasing (record :: todo))
      (lookup : machine.table record.key = some chain) (unlocked : chain.mutex = none) :
      Transition machine (.eraseVersion txnId) (.rolledBack txnId record.key)
        ((machine.setChain record.key { chain with
          versions := eraseNode record.node chain.versions }).setThread
            txnId (.erasing todo))
  | eraseDone (thread : machine.thread txnId = .erasing []) :
      Transition machine (.eraseVersion txnId) .silent
        (machine.setThread txnId .closing)
  | close (thread : machine.thread txnId = .closing) :
      Transition machine (.close txnId) .silent
        ((machine.setTxn txnId none).setThread txnId .finished)
  | collector (collector : Nat → Collection)
      (isGc : action.isGc = true) :
      Transition machine action .silent { machine with collector }
  | gcSweep {pass : Nat} (collector : machine.collector pass = .sweeping starts)
      (lookup : machine.table key = some chain) (unlocked : chain.mutex = none) :
      Transition machine (.gcSweep pass key) .silent
        (machine.setChain key { chain with versions := sweepChain starts chain.versions })

variable {machine machine' : Machine} {event : Event}

lemma transition_of_stepRead (thread : machine.thread txnId = .idle)
    (known : machine.txns txnId = some txn)
    (stepped : machine.stepRead txnId key txn = some (event, machine')) :
    Transition machine (.read txnId key) event machine' := by
  simp only [Machine.stepRead] at stepped
  split at stepped
  next lookup =>
    cases stepped
    exact .readMissing thread known lookup
  next chain lookup =>
    split at stepped
    next unlocked =>
      cases stepped
      exact .read thread known lookup unlocked
    · cases stepped

lemma transition_of_stepWrite (thread : machine.thread txnId = .idle)
    (known : machine.txns txnId = some txn)
    (stepped : machine.stepWrite txnId key deleted value txn = some (event, machine')) :
    Transition machine (.write txnId key deleted value) event machine' := by
  simp only [Machine.stepWrite] at stepped
  split at stepped
  next unlocked =>
    split at stepped
    next versions overwritten =>
      cases stepped
      exact .overwrite thread known unlocked overwritten
    next nonePending =>
      cases stepped
      exact .push thread known unlocked nonePending
  · cases stepped

/-- Every successful step is a transition. -/
lemma transition_of_step (stepped : machine.step action = some (event, machine')) :
    Transition machine action event machine' := by
  cases action <;> simp only [Machine.step] at stepped
  case drawTxnId level =>
    cases stepped
    exact .drawTxnId level
  case drawStartTs txnId =>
    split at stepped
    next level thread =>
      cases stepped
      exact .drawStartTs thread
    · cases stepped
  case register txnId =>
    split at stepped
    next level startTs thread =>
      cases stepped
      exact .register thread
    · cases stepped
  case read txnId key =>
    split at stepped
    next txn thread known => exact transition_of_stepRead thread known stepped
    · cases stepped
  case write txnId key deleted value =>
    split at stepped
    next txn thread known => exact transition_of_stepWrite thread known stepped
    · cases stepped
  case beginCommit txnId =>
    split at stepped
    next txn thread known =>
      cases stepped
      exact .beginCommit thread known
    · cases stepped
  case lookupChain txnId =>
    split at stepped
    next key todo found thread =>
      cases stepped
      exact .lookupKey thread
    next found thread =>
      cases stepped
      exact .lookupDone thread
    · cases stepped
  case lockChain txnId =>
    split at stepped
    next key todo held thread =>
      split at stepped
      next chain lookup =>
        split at stepped
        next unlocked =>
          cases stepped
          exact .lockChain thread lookup unlocked
        · cases stepped
      · cases stepped
    · cases stepped
  case validate txnId =>
    split at stepped
    next held txn thread known =>
      cases stepped
      exact .validate thread known
    · cases stepped
  case drawCommitTs txnId =>
    split at stepped
    next held txn thread known =>
      cases stepped
      exact .drawCommitTs thread known
    · cases stepped
  case markVersion txnId =>
    split at stepped
    next commitTs record todo held thread =>
      split at stepped
      next chain lookup =>
        cases stepped
        exact .markVersion thread lookup
      · cases stepped
    next commitTs held thread =>
      cases stepped
      exact .markDone thread
    · cases stepped
  case unlockChain txnId =>
    split at stepped
    next key held success txn thread known =>
      split at stepped
      next chain lookup =>
        cases stepped
        exact .unlockChain thread lookup
      · cases stepped
    next success txn thread known =>
      cases stepped
      exact .unlockDone thread known
    · cases stepped
  case abort txnId =>
    split at stepped
    next txn thread known =>
      cases stepped
      exact .abort thread known
    · cases stepped
  case eraseVersion txnId =>
    split at stepped
    next record todo thread =>
      split at stepped
      next chain lookup =>
        split at stepped
        next unlocked =>
          cases stepped
          exact .eraseVersion thread lookup unlocked
        · cases stepped
      · cases stepped
    next thread =>
      cases stepped
      exact .eraseDone thread
    · cases stepped
  case close txnId =>
    split at stepped
    next thread =>
      cases stepped
      exact .close thread
    · cases stepped
  case gcBegin | gcCollect | gcEnd =>
    split at stepped
    · cases stepped
      exact .collector _ rfl
    · cases stepped
  case gcSweep pass key =>
    split at stepped
    next starts chain collector lookup =>
      split at stepped
      next unlocked =>
        cases stepped
        exact .gcSweep collector lookup unlocked
      · cases stepped
    · cases stepped

end DbEngine.Mvcc
