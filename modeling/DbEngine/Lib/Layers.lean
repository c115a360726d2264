import DbEngine.Lib.SortedMap

/-!
# Layered maps

Sorted maps in layers, where the first layer that has a key hides the ones below.  A layer
may also say that a key is gone.  Layers in the middle can be replaced by one that says the
same, and entries that say "gone" can be left out when nothing is below.
-/

namespace DbEngine.Lib

universe u v

variable {Key : Type u} {Value : Type v} [LinearOrder Key]

/-- What the first layer that has the key says about it. -/
def resolve (layers : List (SortedMap Key Value)) (key : Key) : Option Value :=
  layers.findSome? fun layer => layer.lookup key

/-- What is there for a reader, when entries that are not live say that their key is gone. -/
def current (live : Value → Bool) (layers : List (SortedMap Key Value)) (key : Key) :
    Option Value :=
  (resolve layers key).filter live

variable {layer : SortedMap Key Value} {layers above middle below : List (SortedMap Key Value)}
  {key : Key} {value : Value} {live : Value → Bool} {number : Value → Nat}

@[simp] lemma resolve_nil : resolve ([] : List (SortedMap Key Value)) key = none := rfl

lemma resolve_cons :
    resolve (layer :: layers) key = (layer.lookup key).or (resolve layers key) := by
  rw [resolve, findSome?_cons]
  cases layer.lookup key <;> rfl

lemma resolve_append : resolve (above ++ below) key = (resolve above key).or (resolve below key) :=
  List.findSome?_append

lemma mem_of_resolve (found : resolve layers key = some value) :
    ∃ layer ∈ layers, layer.lookup key = some value :=
  List.exists_of_findSome?_eq_some found

/-- A layer that is empty hides nothing. -/
lemma resolve_cons_empty : resolve (.empty :: layers) key = resolve layers key := by
  rw [resolve_cons]
  rfl

variable {middle' : List (SortedMap Key Value)}

/-- Layers in the middle may be replaced by others that say the same. -/
lemma resolve_replace (same : resolve middle' key = resolve middle key) :
    resolve (above ++ middle' ++ below) key = resolve (above ++ middle ++ below) key := by
  simp only [resolve_append, same]

/-- With nothing below, entries that are not live may be left out. -/
lemma current_replace_last (filtered : resolve middle' key = (resolve middle key).filter live)
    (bottom : resolve below key = none) : current live (above ++ middle' ++ below) key =
      current live (above ++ middle ++ below) key := by
  simp only [current, resolve_append, filtered, bottom, Option.or_none]
  cases resolve above key with
  | some _ => rfl
  | none =>
    cases resolve middle key with
    | none => rfl
    | some found => by_cases alive : live found = true <;> simp [Option.filter, alive]

/-! ## Recency -/

/-- Of two entries for one key, the one in the layer above has the larger number. -/
def NewerFirst (number : Value → Nat) (layers : List (SortedMap Key Value)) : Prop :=
  layers.Pairwise fun newer older => ∀ key value value', newer.lookup key = some value →
    older.lookup key = some value' → number value' < number value

/-- Layers in the middle may be replaced by one that has some of what they resolve to. -/
lemma NewerFirst.replace (ordered : NewerFirst number (above ++ middle ++ below))
    (some_of : ∀ {key value}, layer.lookup key = some value → resolve middle key = some value) :
    NewerFirst number (above ++ layer :: below) := by
  rw [append_assoc, NewerFirst, pairwise_append, pairwise_append] at ordered
  obtain ⟨inAbove, ⟨-, inBelow, middleBelow⟩, aboveRest⟩ := ordered
  rw [NewerFirst, pairwise_append, pairwise_cons]
  refine ⟨inAbove, ⟨?_, inBelow⟩, ?_⟩
  · intro older mem key value value' found
    obtain ⟨source, inMiddle, found⟩ := mem_of_resolve (some_of found)
    exact middleBelow source inMiddle older mem key value value' found
  · intro newer mem other mem' key value value' found found'
    rcases mem_cons.mp mem' with same | mem'
    · subst same
      obtain ⟨source, inMiddle, found'⟩ := mem_of_resolve (some_of found')
      exact aboveRest newer mem source (mem_append_left _ inMiddle) key value value' found
        found'
    · exact aboveRest newer mem other (mem_append_right _ mem') key value value' found found'

/-- Layers in the middle may be taken out. -/
lemma NewerFirst.remove (ordered : NewerFirst number (above ++ middle ++ below)) :
    NewerFirst number (above ++ below) := by
  apply List.Pairwise.sublist _ ordered
  rw [append_assoc]
  exact (List.sublist_append_right middle below).append_left above

end DbEngine.Lib
