import DbEngine.Index.Frames
import DbEngine.Wal.Moves

/-!
# The log and the tree

`Put(txn)` logs its record before it calls the tree, and the tree's `Insert` may find no frame.
-/

namespace DbEngine.Wal

open Lib WALBPlusTreeEngine
open Index (TreeConfig TreeOp TreeOutcome TreeError Page emptyStore)

/-- The sizes that the engine gives to its tree. -/
def defaultConfig : TreeConfig where
  leafMaxSize := Index.LeafPage.capacity - 1
  internalMaxSize := Index.InternalPage.capacity - 1
  leafBounds := by decide
  internalBounds := by decide

/-- Forty-nine entries fill the root, in a pool of two frames. -/
def filled : Except (Stop TreeError) (List TreeOutcome × Option PageId) × PagePool Page :=
  (TreeOp.performAll defaultConfig 2 none
    ((List.range 49).map fun i => .insert (.ofNat i) [])).runIn 2 .blank Page.fits ⟨emptyStore, []⟩

end DbEngine.Wal
