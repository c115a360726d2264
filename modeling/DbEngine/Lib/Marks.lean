import DbEngine.Common.Lists

/-!
# Keys and separators in one order

A search tree interleaves keys with the separators above them.  Listed from left to right
they are in one strict order, in which a separator comes before a key equal to it; moving
a subtree, or a separator through a node, does not change the list.
-/

namespace DbEngine.Lib

universe u

variable {Key : Type u} [LinearOrder Key]

/-- A separator or a key. -/
abbrev Mark (Key : Type u) := Key ×ₗ Bool

def sepMark (key : Key) : Mark Key := toLex (key, false)

def keyMark (key : Key) : Mark Key := toLex (key, true)

section

variable {left right : Key}

@[simp] lemma sepMark_lt_sepMark : sepMark left < sepMark right ↔ left < right := by
  simp [sepMark, Prod.Lex.toLex_lt_toLex]

@[simp] lemma sepMark_lt_keyMark : sepMark left < keyMark right ↔ left ≤ right := by
  simp [sepMark, keyMark, Prod.Lex.toLex_lt_toLex, le_iff_lt_or_eq]

@[simp] lemma keyMark_lt_sepMark : keyMark left < sepMark right ↔ left < right := by
  simp [sepMark, keyMark, Prod.Lex.toLex_lt_toLex]

@[simp] lemma keyMark_lt_keyMark : keyMark left < keyMark right ↔ left < right := by
  simp [keyMark, Prod.Lex.toLex_lt_toLex]

end

/-- From left to right, every mark is below the next. -/
def InOrder (marks : List (Mark Key)) : Prop := marks.Pairwise (· < ·)

section

variable {before after segment segment' : List (Mark Key)} {key previous : Key}

lemma InOrder.sublist {marks marks' : List (Mark Key)} (ordered : InOrder marks)
    (fewer : List.Sublist marks' marks) : InOrder marks' :=
  List.Pairwise.sublist fewer ordered

lemma inOrder_append {marks marks' : List (Mark Key)} :
    InOrder (marks ++ marks') ↔ InOrder marks ∧ InOrder marks' ∧
      ∀ mark ∈ marks, ∀ mark' ∈ marks', mark < mark' :=
  pairwise_append

/-- In the middle of any marks, one segment may stand where another stood. -/
def Replaces (segment segment' : List (Mark Key)) : Prop :=
  ∀ before after, InOrder (before ++ segment' ++ after) → InOrder (before ++ segment ++ after)

lemma Replaces.of_sublist (fewer : List.Sublist segment segment') : Replaces segment segment' := by
  intro before after ordered
  refine ordered.sublist ?_
  exact (List.Sublist.append (List.Sublist.append (List.Sublist.refl _) fewer)
    (List.Sublist.refl _))

lemma Replaces.of_eq (same : segment = segment') : Replaces segment segment' :=
  .of_sublist (same ▸ List.Sublist.refl _)

lemma Replaces.trans {segment'' : List (Mark Key)} (first : Replaces segment segment')
    (second : Replaces segment' segment'') : Replaces segment segment'' :=
  fun before after ordered => first before after (second before after ordered)

lemma Replaces.append (first : Replaces segment segment') (left right : List (Mark Key)) :
    Replaces (left ++ segment ++ right) (left ++ segment' ++ right) := by
  intro before after ordered
  have regroup : ∀ middle : List (Mark Key), before ++ (left ++ middle ++ right) ++ after =
        (before ++ left) ++ middle ++ (right ++ after) := by
    intro middle
    simp only [append_assoc]
  rw [regroup] at ordered ⊢
  exact first _ _ ordered

/-- A separator may be put before a key that has a key before it. -/
lemma replaces_separate (previous key : Key) (marks marks' : List (Mark Key)) :
    Replaces (marks ++ keyMark previous :: sepMark key :: keyMark key :: marks')
      (marks ++ keyMark previous :: keyMark key :: marks') := by
  intro before after ordered
  have split : before ++ (marks ++ keyMark previous :: keyMark key :: marks') ++ after =
      (before ++ marks ++ [keyMark previous]) ++ (keyMark key :: (marks' ++ after)) := by
    simp
  have goal : before ++ (marks ++ keyMark previous :: sepMark key :: keyMark key :: marks') ++
      after = (before ++ marks ++ [keyMark previous]) ++
        ([sepMark key] ++ (keyMark key :: (marks' ++ after))) := by
    simp
  rw [split, inOrder_append] at ordered
  obtain ⟨leftOrdered, rightOrdered, across⟩ := ordered
  have below : keyMark previous < keyMark key := across _ (by simp) _ (by simp)
  have belowSep : keyMark previous < sepMark key := by
    rw [keyMark_lt_keyMark] at below
    rw [keyMark_lt_sepMark]
    exact below
  have sepBelow : sepMark key < keyMark key := by
    rw [sepMark_lt_keyMark]
  rw [goal, inOrder_append]
  refine ⟨leftOrdered, ?_, ?_⟩
  · rw [List.singleton_append]
    refine pairwise_cons.mpr ⟨?_, rightOrdered⟩
    intro mark mem
    rcases mem_cons.mp mem with rfl | later
    · exact sepBelow
    · exact lt_trans sepBelow ((pairwise_cons.mp rightOrdered).1 mark later)
  · intro mark mem mark' mem'
    rcases mem_append.mp mem' with isSep | later
    · rw [mem_singleton.mp isSep]
      -- Everything on the left is at most the key before the separator.
      rcases mem_append.mp mem with earlier | isPrevious
      · have reached := (inOrder_append.mp leftOrdered).2.2 mark earlier (keyMark previous)
          (by simp)
        exact lt_trans reached belowSep
      · rw [mem_singleton.mp isPrevious]
        exact belowSep
    · exact across mark mem mark' later

end

end DbEngine.Lib
