import DbEngine.Common.Lists

/-!
# Arrays of a fixed size

A struct that holds an array copies shorter data to its beginning and leaves the rest as it
was.  A page of such an array begins with the number of the slots in use, and a list is laid
out in as many pages as it needs.
-/

namespace DbEngine.Lib

universe u

variable {α : Type u} {size : Nat}

/-- Copy values to the beginning of an array. -/
def overwrite (array : Vector α size) (values : List α) : Vector α size :=
  Vector.ofFn fun index => values.getD index (array.get index)

lemma toList_overwrite (array : Vector α size) {values : List α} (fits : values.length ≤ size) :
    (overwrite array values).toList = values ++ array.toList.drop values.length := by
  apply List.ext_getElem
  · simp [fits]
  · intro index inArray inAppend
    by_cases inValues : index < values.length
    · simp [overwrite, inValues]
    · have behind : values.length + (index - values.length) = index :=
        Nat.add_sub_cancel' (not_lt.mp inValues)
      simp [overwrite, inValues, List.getElem_append_right (not_lt.mp inValues), behind]
      rfl

lemma take_overwrite (array : Vector α size) {values : List α} (fits : values.length ≤ size) :
    (overwrite array values).toList.take values.length = values := by
  rw [toList_overwrite array fits, List.take_left]

/-- An array with the number of its slots in use. -/
structure PackedPage (α : Type u) (size : Nat) where
  count : Nat
  slots : Vector α size
  deriving Repr, DecidableEq

namespace PackedPage

instance [Zero α] : Zero (PackedPage α size) where
  zero := { count := 0, slots := Vector.replicate size 0 }

/-- The slots in use. -/
def items (page : PackedPage α size) : List α := page.slots.toList.take page.count

/-- The contents of a slot. -/
def slot [Zero α] (page : PackedPage α size) (index : Nat) : α := (page.slots[index]?).getD 0

/-- Use the next slot. -/
def add (page : PackedPage α size) (item : α) : PackedPage α size where
  count := page.count + 1
  slots := page.slots.setIfInBounds page.count item

/-- Fill a page from a list as long as it has room: the page and what is left. -/
def fill (page : PackedPage α size) : List α → PackedPage α size × List α
  | [] => (page, [])
  | first :: rest =>
    if page.count < size then (page.add first).fill rest else (page, first :: rest)

@[simp] lemma count_zero [Zero α] : (0 : PackedPage α size).count = 0 := rfl

@[simp] lemma items_zero [Zero α] : (0 : PackedPage α size).items = [] := List.take_zero

@[simp] lemma count_add (page : PackedPage α size) (item : α) :
    (page.add item).count = page.count + 1 :=
  rfl

variable {page : PackedPage α size} {index : Nat}

lemma getElem?_items [Zero α] (valid : page.count ≤ size) (used : index < page.count) :
    page.items[index]? = some (page.slot index) := by
  have inside : index < size := lt_of_lt_of_le used valid
  simp [items, slot, List.getElem?_take_of_lt used, inside]

lemma slot_add_of_ne [Zero α] (item : α) (differs : index ≠ page.count) :
    (page.add item).slot index = page.slot index := by
  simp [slot, add, differs.symm]

lemma slot_add_count [Zero α] (item : α) (room : page.count < size) :
    (page.add item).slot page.count = item := by
  simp [slot, add, room]

lemma items_add (room : page.count < size) (item : α) :
    (page.add item).items = page.items ++ [item] := by
  have inside : page.count < page.slots.toList.length := by simpa using room
  have length : (page.slots.toList.take page.count).length = page.count := by simp; omega
  have slot : (page.slots.toList.take page.count ++ [page.slots.toList[page.count]]).set
      page.count item = page.slots.toList.take page.count ++ [item] := by
    rw [List.set_append_right _ _ (Nat.le_of_eq length), length, Nat.sub_self]
    rfl
  rw [items, items, add, Vector.toList_setIfInBounds, List.take_set,
    List.take_succ_eq_append_getElem inside, slot]

lemma fill_eq (page : PackedPage α size) (valid : page.count ≤ size) (values : List α) :
    (page.fill values).1.items = page.items ++ values.take (size - page.count) ∧
      (page.fill values).1.count = page.count + (values.take (size - page.count)).length ∧
      (page.fill values).2 = values.drop (size - page.count) := by
  induction values generalizing page with
  | nil => simp [fill]
  | cons first rest ih =>
    rw [fill]
    split
    next room =>
      have shorter : size - page.count = size - (page.add first).count + 1 := by
        rw [count_add]
        omega
      obtain ⟨items, count, left⟩ := ih (page.add first) room
      rw [shorter, List.take_succ_cons, List.drop_succ_cons, items, count, left, items_add room,
        append_assoc, length_cons, count_add, add_right_comm, Nat.add_assoc]
      exact ⟨rfl, rfl, rfl⟩
    next full =>
      have none : size - page.count = 0 := by omega
      simp [none]

/-- A page filled from the start holds the first part of the list. -/
lemma fill_zero [Zero α] (values : List α) :
    ((0 : PackedPage α size).fill values).1.items = values.take size ∧
      ((0 : PackedPage α size).fill values).1.count = (values.take size).length ∧
      ((0 : PackedPage α size).fill values).2 = values.drop size := by
  have filled := fill_eq (0 : PackedPage α size) (Nat.zero_le size) values
  rw [count_zero, items_zero, nil_append, Nat.zero_add, Nat.sub_zero] at filled
  exact filled

end PackedPage

/-- A list in parts of a size, the last one possibly shorter. -/
def chunks (size : Nat) : Nat → List α → List (List α)
  | fuel + 1, first :: rest =>
    (first :: rest).take size :: chunks size fuel ((first :: rest).drop size)
  | _, _ => []

section

variable {fuel : Nat} {values : List α}

lemma length_drop_le (positive : 0 < size) {first : α} {rest : List α}
    (enough : (first :: rest).length ≤ fuel + 1) : ((first :: rest).drop size).length ≤ fuel := by
  rw [length_drop]
  omega

lemma flatten_chunks (positive : 0 < size) (enough : values.length ≤ fuel) :
    (chunks size fuel values).flatten = values := by
  induction fuel generalizing values with
  | zero =>
    rw [List.eq_nil_of_length_eq_zero (Nat.le_zero.mp enough)]
    rfl
  | succ fuel ih =>
    cases values with
    | nil => rfl
    | cons first rest =>
      rw [chunks, flatten_cons, ih (length_drop_le positive enough), take_append_drop]

lemma ne_nil_of_mem_chunks (positive : 0 < size) {part : List α}
    (mem : part ∈ chunks size fuel values) : part ≠ [] := by
  induction fuel generalizing values with
  | zero => cases mem
  | succ fuel ih =>
    cases values with
    | nil => cases mem
    | cons first rest =>
      rcases mem_cons.mp mem with rfl | mem
      · simp [Nat.ne_of_gt positive]
      · exact ih mem

@[simp] lemma chunks_nil : chunks size fuel ([] : List α) = [] := by cases fuel <;> rfl

lemma length_chunks (positive : 0 < size) (enough : values.length ≤ fuel) :
    (chunks size fuel values).length = (values.length + size - 1) / size := by
  have empty : (0 + size - 1) / size = 0 := Nat.div_eq_of_lt (by omega)
  induction fuel generalizing values with
  | zero =>
    rw [List.eq_nil_of_length_eq_zero (Nat.le_zero.mp enough), chunks_nil]
    exact empty.symm
  | succ fuel ih =>
    cases values with
    | nil =>
      rw [chunks_nil]
      exact empty.symm
    | cons first rest =>
      rw [chunks, length_cons, ih (length_drop_le positive enough), length_drop,
        ← Nat.add_div_right _ positive]
      by_cases several : size ≤ (first :: rest).length
      · congr 1
        omega
      · -- The last part: both sides are one.
        rw [length_cons] at several ⊢
        have left : rest.length + 1 - size = 0 := by omega
        have one : (0 + size - 1 + size) / size = 1 := Nat.div_eq_of_lt_le (by omega) (by omega)
        have whole : (rest.length + 1 + size - 1) / size = 1 :=
          Nat.div_eq_of_lt_le (by omega) (by omega)
        rw [left, one, whole]

end

end DbEngine.Lib
