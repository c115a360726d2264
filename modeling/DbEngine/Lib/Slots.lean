import Mathlib

/-!
# One position of a list

Reading and changing a list at the position after a known first part.
-/

namespace DbEngine.Lib

universe u

variable {α : Type u} {before after : List α} {item : α}

lemma getElem?_slot : (before ++ item :: after)[before.length]? = some item := by simp

lemma insertIdx_slot (before after : List α) (item : α) :
    (before ++ after).insertIdx before.length item = before ++ item :: after := by
  induction before with
  | nil => rfl
  | cons head rest ih => exact congrArg (List.cons head) ih

lemma insertIdx_after_slot (new : α) : (before ++ item :: after).insertIdx (before.length + 1) new =
      before ++ item :: new :: after := by
  have position : before.length + 1 = (before ++ [item]).length := by simp
  have list : before ++ item :: after = (before ++ [item]) ++ after := by simp
  rw [position, list, insertIdx_slot]
  simp

lemma eraseIdx_slot : (before ++ item :: after).eraseIdx before.length = before ++ after := by
  induction before with
  | nil => rfl
  | cons head rest ih => exact congrArg (List.cons head) ih

lemma set_slot (new : α) :
    (before ++ item :: after).set before.length new = before ++ new :: after := by
  simp

lemma modify_slot (change : α → α) : (before ++ item :: after).modify before.length change =
      before ++ change item :: after := by
  induction before with
  | nil => rfl
  | cons head rest ih => exact congrArg (List.cons head) ih

lemma findIdx?_slot {test : α → Bool} (misses : ∀ other ∈ before, test other = false)
    (hits : test item = true) : (before ++ item :: after).findIdx? test = some before.length := by
  induction before with
  | nil => simp [List.findIdx?_cons, hits]
  | cons head rest ih =>
    rw [List.cons_append, List.findIdx?_cons, misses head List.mem_cons_self,
      ih fun other mem => misses other (List.mem_cons_of_mem _ mem)]
    rfl

end DbEngine.Lib
