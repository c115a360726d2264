import DbEngine.Index.Search

/-!
# Neighbouring subtrees

Two subtrees of one height with a separator between them, in one node or as the two halves
of one.
-/

namespace DbEngine.Index

open Lib BPlusTree Tree

variable {config : TreeConfig} {height : Nat}

/-! ## Two halves of a node -/

section

/-- Splitting a node splits its marks at the separator that goes up. -/
lemma marks_split (pid newId : PageId) (nonempty : lower ≠ []) :
    (node pid (lower ++ (upKey, first) :: upper)).marks = (node pid lower).marks ++
        sepMark upKey :: (node newId ((upKey, first) :: upper)).marks := by
  have whole : (node pid (lower ++ (upKey, first) :: upper)).marks =
      (rowMarks lower ++ rowMarks ((upKey, first) :: upper)).tail := by
    rw [← rowMarks_append]
    rfl
  have lowerMarks : rowMarks lower ≠ [] := by
    cases lower with
    | nil => exact absurd rfl nonempty
    | cons head rest => exact cons_ne_nil _ _
  rw [whole, List.tail_append_of_ne_nil lowerMarks]
  rfl

lemma firstLeaf_split (pid : PageId) (nonempty : lower ≠ []) :
    (node pid (lower ++ upper)).firstLeaf = (node pid lower).firstLeaf := by
  cases lower with
  | nil => exact absurd rfl nonempty
  | cons head rest => rfl

lemma toList_split (lower upper : List (KeyType × Tree height)) (pid newId : PageId) :
    (node pid (lower ++ upper)).toList = (node pid lower).toList ++ (node newId upper).toList :=
  List.flatMap_append

end

section

variable {key : KeyType} {value : Bytes}

lemma pages_leaf (pid : PageId) (entries : List (KeyType × Bytes)) (parent next : Option PageId) :
    (leaf pid entries).pages config parent next =
      {(pid, .leaf ⟨parent, config.leafMaxSize, next, entries⟩)} := rfl

lemma fits_leaf (parent next : Option PageId) (small : entries.length ≤ config.leafMaxSize + 1) :
    Page.fits (.leaf ⟨parent, config.leafMaxSize, next, entries⟩) = true :=
  fits_page (leaf 0 entries) parent next small

/-- The first key of the upper half may separate the halves of a leaf. -/
lemma replaces_splitLeaf (nonempty : lower ≠ []) (upper : List (KeyType × Bytes)) :
    Replaces (keyMarks lower ++ sepMark key :: keyMarks ((key, value) :: upper))
      (keyMarks (lower ++ (key, value) :: upper)) := by
  have split := List.dropLast_append_getLast nonempty
  rw [← split]
  simpa [keyMarks] using replaces_separate (lower.getLast nonempty).1 key
    (keyMarks lower.dropLast) (keyMarks upper)

/-- Two leaves may be joined if the separator between them goes. -/
lemma replaces_joinLeaf (lower upper : List (KeyType × Bytes)) (separator : KeyType) :
    Replaces (keyMarks (lower ++ upper))
      (keyMarks lower ++ sepMark separator :: keyMarks upper) := by
  rw [keyMarks, map_append]
  exact .of_sublist (List.Sublist.append (List.Sublist.refl _) (List.sublist_cons_self _ _))

end

/-! ## Two children of a node -/

/-- The node of a frame with a second child after the first. -/
def Frame.fillTwo (frame : Frame height) (left : Tree height)
    (middle : KeyType) (right : Tree height) : Tree (height + 1) :=
  node frame.pid (frame.before ++ (frame.key, left) :: (middle, right) :: frame.after)

lemma Frame.marks_fillTwo (frame : Frame height) (left right : Tree height)
    (middle : KeyType) : (frame.fillTwo left middle right).marks =
      (rowMarks frame.before ++ [sepMark frame.key]).tail ++
        (left.marks ++ sepMark middle :: right.marks) ++ rowMarks frame.after := by
  have whole : (frame.fillTwo left middle right).marks = (rowMarks
      (frame.before ++ (frame.key, left) :: (middle, right) :: frame.after)).tail := rfl
  have split : rowMarks (frame.before ++ (frame.key, left) :: (middle, right) :: frame.after) =
      (rowMarks frame.before ++ [sepMark frame.key]) ++
        ((left.marks ++ sepMark middle :: right.marks) ++ rowMarks frame.after) := by
    simp [rowMarks]
  rw [whole, split, List.tail_append_of_ne_nil (by simp), ← append_assoc]

lemma Frame.toList_fillTwo (frame : Frame height) (left right : Tree height) (middle : KeyType) :
    (frame.fillTwo left middle right).toList =
      rowEntries frame.before ++ (left.toList ++ right.toList) ++ rowEntries frame.after := by
  have whole : (frame.fillTwo left middle right).toList = rowEntries
      (frame.before ++ (frame.key, left) :: (middle, right) :: frame.after) := rfl
  rw [whole]
  simp [rowEntries]

end DbEngine.Index
