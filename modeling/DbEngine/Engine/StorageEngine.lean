import DbEngine.Common.Config
import DbEngine.Lib.SortedMap

/-!
# The storage engine interface

`engine/storage_engine.h`: what the SQL layer needs of an engine, and what it means for
an engine to behave as an ordered map.  Every operation may change the engine's internal
state, reads included (caches, pinned pages); the contents are what must agree.
-/

namespace DbEngine

open Lib

/-- `StorageEngine`.  A scan is given by the entries its iterator delivers. -/
structure StorageEngine (State : Type) where
  get : KeyType → State → Option Bytes × State
  /-- An error is the message of the `std::invalid_argument` thrown. -/
  put : KeyType → Bytes → State → Except String Unit × State
  delete : KeyType → State → Bool × State
  scan : KeyType → State → List (KeyType × Bytes) × State

/-- The engine behaves as an ordered map. -/
structure StorageEngine.OrderedMap {State : Type} (engine : StorageEngine State) where
  contents : State → SortedMap KeyType Bytes
  get_eq : ∀ key state, (engine.get key state).1 = (contents state).lookup key
  get_contents : ∀ key state, contents (engine.get key state).2 = contents state
  put_eq : ∀ key value state, value.length ≤ MAX_VALUE_SIZE →
    (engine.put key value state).1 = .ok ()
  put_contents : ∀ key value state, value.length ≤ MAX_VALUE_SIZE →
    contents (engine.put key value state).2 = (contents state).insert key value
  delete_eq : ∀ key state, (engine.delete key state).1 =
    ((contents state).lookup key).isSome
  delete_contents : ∀ key state,
    contents (engine.delete key state).2 = (contents state).erase key
  scan_eq : ∀ start state, (engine.scan start state).1 = (contents state).entriesFrom start
  scan_contents : ∀ start state, contents (engine.scan start state).2 = contents state

/-- The ordered map itself, as an engine. -/
def mapEngine : StorageEngine (SortedMap KeyType Bytes) where
  get key map := (map.lookup key, map)
  put key value map :=
    if value.length ≤ MAX_VALUE_SIZE then (.ok (), map.insert key value)
    else (.error "value exceeds MAX_VALUE_SIZE", map)
  delete key map := ((map.lookup key).isSome, map.erase key)
  scan start map := (map.entriesFrom start, map)

def mapEngine_orderedMap : mapEngine.OrderedMap where
  contents := id
  get_eq _ _ := rfl
  get_contents _ _ := rfl
  put_eq _ _ _ small := by simp [mapEngine, small]
  put_contents _ _ _ small := by simp [mapEngine, small]
  delete_eq _ _ := rfl
  delete_contents _ _ := rfl
  scan_eq _ _ := rfl
  scan_contents _ _ := rfl

end DbEngine
