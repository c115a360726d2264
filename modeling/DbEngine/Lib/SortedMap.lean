import DbEngine.Common.Lists

/-!
# Ordered finite maps

A finite map is the list of its entries, strictly ascending by key.  The order makes the
list canonical: two maps with the same lookups are the same list.  Every ordered
container of a storage engine is such a list or is read as one.
-/

namespace DbEngine.Lib

universe u v w

variable {Key : Type u} {Value : Type v} [LinearOrder Key]

/-- Entries strictly ascending by key. -/
def Ascending (entries : List (Key × Value)) : Prop :=
  entries.Pairwise fun left right => left.1 < right.1

/-- The value of a key in a list of entries. -/
def lookupEntry (key : Key) : List (Key × Value) → Option Value
  | [] => none
  | entry :: rest => if entry.1 = key then some entry.2 else lookupEntry key rest

/-- Put an entry in its place, over an older one of the same key. -/
def insertEntry (key : Key) (value : Value) : List (Key × Value) → List (Key × Value)
  | [] => [(key, value)]
  | entry :: rest =>
    if key < entry.1 then (key, value) :: entry :: rest
    else if key = entry.1 then (key, value) :: rest
    else entry :: insertEntry key value rest

/-- Drop the entry of a key. -/
def eraseEntry (key : Key) (entries : List (Key × Value)) : List (Key × Value) :=
  entries.filter fun entry => decide (entry.1 ≠ key)

/-! ## Ascending lists -/

section

variable {entries left right : List (Key × Value)} {key : Key}

lemma ascending_nil : Ascending ([] : List (Key × Value)) := List.Pairwise.nil

lemma ascending_cons : Ascending (entry :: entries) ↔
      (∀ other ∈ entries, entry.1 < other.1) ∧ Ascending entries :=
  pairwise_cons

lemma ascending_append : Ascending (left ++ right) ↔ Ascending left ∧ Ascending right ∧
      ∀ first ∈ left, ∀ second ∈ right, first.1 < second.1 :=
  pairwise_append

lemma Ascending.sublist (ascending : Ascending entries) (kept : left.Sublist entries) :
    Ascending left :=
  List.Pairwise.sublist kept ascending

/-- A key occurs once. -/
lemma Ascending.eq_of_key_eq (ascending : Ascending entries) (firstMem : first ∈ entries)
    (secondMem : second ∈ entries) (same : first.1 = second.1) : first = second := by
  induction entries with
  | nil => cases firstMem
  | cons head rest ih =>
    obtain ⟨below, later⟩ := ascending_cons.mp ascending
    rcases mem_cons.mp firstMem with rfl | firstLater
    · rcases mem_cons.mp secondMem with rfl | secondLater
      · rfl
      · exact absurd same (ne_of_lt (below second secondLater))
    · rcases mem_cons.mp secondMem with rfl | secondLater
      · exact absurd same.symm (ne_of_lt (below first firstLater))
      · exact ih later firstLater secondLater

end

/-! ## Lookups -/

section

variable {entries left right : List (Key × Value)} {key : Key} {value : Value}

@[simp] lemma lookupEntry_nil : lookupEntry key ([] : List (Key × Value)) = none := rfl

lemma lookupEntry_cons_self : lookupEntry key ((key, value) :: entries) = some value := by
  simp [lookupEntry]

lemma lookupEntry_cons_of_ne (ne : entry.1 ≠ key) :
    lookupEntry key (entry :: entries) = lookupEntry key entries := by
  simp [lookupEntry, ne]

lemma lookupEntry_eq_none : lookupEntry key entries = none ↔ ∀ entry ∈ entries, entry.1 ≠ key := by
  induction entries with
  | nil => simp
  | cons head rest ih =>
    by_cases hit : head.1 = key
    · simp [lookupEntry, hit]
    · rw [lookupEntry_cons_of_ne hit, ih]
      simp [hit]

lemma mem_of_lookupEntry (found : lookupEntry key entries = some value) :
    (key, value) ∈ entries := by
  induction entries with
  | nil => cases found
  | cons head rest ih =>
    by_cases hit : head.1 = key
    · simp only [lookupEntry, hit, if_true, some.injEq] at found
      rw [← hit, ← found]
      exact mem_cons_self
    · rw [lookupEntry_cons_of_ne hit] at found
      exact mem_cons_of_mem _ (ih found)

lemma Ascending.lookupEntry_eq_some (ascending : Ascending entries) :
    lookupEntry key entries = some value ↔ (key, value) ∈ entries := by
  constructor
  · exact mem_of_lookupEntry
  · intro mem
    cases found : lookupEntry key entries with
    | none => exact absurd rfl (lookupEntry_eq_none.mp found (key, value) mem)
    | some other =>
      have same := ascending.eq_of_key_eq (mem_of_lookupEntry found) mem rfl
      rw [(Prod.mk.inj same).2]

lemma lookupEntry_append : lookupEntry key (left ++ right) =
      (lookupEntry key left).or (lookupEntry key right) := by
  induction left with
  | nil => simp
  | cons head rest ih =>
    by_cases hit : head.1 = key
    · simp [lookupEntry, hit]
    · rw [cons_append, lookupEntry_cons_of_ne hit, lookupEntry_cons_of_ne hit, ih]

/-- Ascending lists with the same lookups are the same list. -/
lemma Ascending.ext (leftAscending : Ascending left) (rightAscending : Ascending right)
    (same : ∀ key, lookupEntry key left = lookupEntry key right) : left = right := by
  induction left generalizing right with
  | nil =>
    cases right with
    | nil => rfl
    | cons head rest =>
      have missing := same head.1
      rw [lookupEntry_nil, lookupEntry_cons_self] at missing
      cases missing
  | cons first rest ih =>
    cases right with
    | nil =>
      have missing := same first.1
      rw [lookupEntry_nil, lookupEntry_cons_self] at missing
      cases missing
    | cons second others =>
      obtain ⟨firstBelow, restAscending⟩ := ascending_cons.mp leftAscending
      obtain ⟨secondBelow, othersAscending⟩ := ascending_cons.mp rightAscending
      -- Each head is the least key of its own list, and both keys occur in both.
      have firstMem : first ∈ second :: others := by
        rw [← rightAscending.lookupEntry_eq_some, ← same, lookupEntry_cons_self]
      have secondMem : second ∈ first :: rest := by
        rw [← leftAscending.lookupEntry_eq_some, same, lookupEntry_cons_self]
      have heads : first = second := by
        rcases mem_cons.mp firstMem with equal | later
        · exact equal
        · rcases mem_cons.mp secondMem with equal | later'
          · exact equal.symm
          · exact absurd (secondBelow first later) (lt_asymm (firstBelow second later'))
      subst heads
      congr 1
      apply ih restAscending othersAscending
      intro key
      by_cases hit : first.1 = key
      · subst hit
        have absent : ∀ {list : List (Key × Value)},
            (∀ entry ∈ list, first.1 < entry.1) → lookupEntry first.1 list = none :=
          fun below => lookupEntry_eq_none.mpr fun entry mem =>
            (ne_of_lt (below entry mem)).symm
        rw [absent firstBelow, absent secondBelow]
      · have equal := same key
        rw [lookupEntry_cons_of_ne hit, lookupEntry_cons_of_ne hit] at equal
        exact equal

end

/-! ## Updates -/

section

variable {entries : List (Key × Value)} {key query : Key} {value : Value}

lemma mem_insertEntry (mem : entry ∈ insertEntry key value entries) :
    entry = (key, value) ∨ entry ∈ entries := by
  induction entries with
  | nil => exact .inl (mem_singleton.mp mem)
  | cons head rest ih =>
    simp only [insertEntry] at mem
    split at mem
    · exact mem_cons.mp mem
    · split at mem
      · rcases mem_cons.mp mem with equal | later
        · exact .inl equal
        · exact .inr (mem_cons_of_mem _ later)
      · rcases mem_cons.mp mem with rfl | later
        · exact .inr mem_cons_self
        · rcases ih later with equal | old
          · exact .inl equal
          · exact .inr (mem_cons_of_mem _ old)

lemma Ascending.insertEntry (ascending : Ascending entries) (key : Key) (value : Value) :
    Ascending (insertEntry key value entries) := by
  induction entries with
  | nil => exact pairwise_singleton _ _
  | cons head rest ih =>
    obtain ⟨below, later⟩ := ascending_cons.mp ascending
    simp only [Lib.insertEntry]
    split
    next smaller =>
      refine ascending_cons.mpr ⟨?_, ascending⟩
      intro other mem
      rcases mem_cons.mp mem with rfl | mem
      · exact smaller
      · exact lt_trans smaller (below other mem)
    next notSmaller =>
      split
      next equal =>
        refine ascending_cons.mpr ⟨?_, later⟩
        intro other mem
        rw [equal]
        exact below other mem
      next ne =>
        refine ascending_cons.mpr ⟨?_, ih later⟩
        intro other mem
        rcases mem_insertEntry mem with rfl | mem
        · exact lt_of_le_of_ne (not_lt.mp notSmaller) (Ne.symm ne)
        · exact below other mem

lemma lookupEntry_insertEntry_self :
    lookupEntry key (insertEntry key value entries) = some value := by
  induction entries with
  | nil => exact lookupEntry_cons_self
  | cons head rest ih =>
    simp only [insertEntry]
    split
    · exact lookupEntry_cons_self
    · split
      · exact lookupEntry_cons_self
      next ne =>
        rw [lookupEntry_cons_of_ne (Ne.symm ne)]
        exact ih

lemma lookupEntry_insertEntry_of_ne (ne : query ≠ key) :
    lookupEntry query (insertEntry key value entries) = lookupEntry query entries := by
  induction entries with
  | nil => simp [insertEntry, lookupEntry, ne.symm]
  | cons head rest ih =>
    simp only [insertEntry]
    split
    · rw [lookupEntry_cons_of_ne ne.symm]
    · split
      next equal =>
        rw [lookupEntry_cons_of_ne ne.symm, lookupEntry_cons_of_ne (by rw [← equal]; exact ne.symm)]
      · by_cases hit : head.1 = query
        · simp [lookupEntry, hit]
        · rw [lookupEntry_cons_of_ne hit, lookupEntry_cons_of_ne hit, ih]

lemma Ascending.eraseEntry (ascending : Ascending entries) (key : Key) :
    Ascending (eraseEntry key entries) :=
  ascending.sublist filter_sublist

lemma lookupEntry_eraseEntry_self : lookupEntry key (eraseEntry key entries) = none := by
  rw [lookupEntry_eq_none]
  intro entry mem
  exact of_decide_eq_true (mem_filter.mp mem).2

lemma lookupEntry_eraseEntry_of_ne (ne : query ≠ key) :
    lookupEntry query (eraseEntry key entries) = lookupEntry query entries := by
  induction entries with
  | nil => rfl
  | cons head rest ih =>
    unfold eraseEntry at ih ⊢
    by_cases dropped : head.1 = key
    · rw [filter_cons_of_neg (by simp [dropped]), ih,
        lookupEntry_cons_of_ne (by rw [dropped]; exact ne.symm)]
    · rw [List.filter_cons_of_pos (by simpa using dropped)]
      by_cases hit : head.1 = query
      · simp [lookupEntry, hit]
      · rw [lookupEntry_cons_of_ne hit, lookupEntry_cons_of_ne hit, ih]

/-- Erasing an absent key changes nothing. -/
lemma eraseEntry_of_lookup_none (absent : lookupEntry key entries = none) :
    eraseEntry key entries = entries := by
  unfold eraseEntry
  rw [filter_eq_self]
  intro entry mem
  exact decide_eq_true (lookupEntry_eq_none.mp absent entry mem)

lemma lookupEntry_filter_key (test : Key → Bool) :
    lookupEntry key (entries.filter fun entry => test entry.1) =
      if test key then lookupEntry key entries else none := by
  induction entries with
  | nil => simp
  | cons head rest ih =>
    by_cases hit : head.1 = key
    · cases passes : test key with
      | true => simp [hit, passes, lookupEntry]
      | false => simpa [filter_cons, hit, passes] using ih
    · cases passes : test head.1 with
      | true =>
        rw [List.filter_cons_of_pos (by exact passes), lookupEntry_cons_of_ne hit,
          lookupEntry_cons_of_ne hit, ih]
      | false =>
        rw [filter_cons_of_neg (by simp [passes]), lookupEntry_cons_of_ne hit, ih]

lemma Ascending.lookupEntry_filter (ascending : Ascending entries) (test : Key × Value → Bool) :
    lookupEntry key (entries.filter test) =
      (lookupEntry key entries).filter fun value => test (key, value) := by
  have kept : Ascending (entries.filter test) := ascending.sublist filter_sublist
  cases found : lookupEntry key entries with
  | none =>
    rw [Option.filter_none, lookupEntry_eq_none]
    intro entry mem
    exact lookupEntry_eq_none.mp found entry (mem_filter.mp mem).1
  | some value =>
    have mem := mem_of_lookupEntry found
    cases passes : test (key, value) with
    | true =>
      rw [Option.filter_some_pos (by exact passes), kept.lookupEntry_eq_some]
      exact mem_filter.mpr ⟨mem, passes⟩
    | false =>
      rw [Option.filter_some_neg (by simp [passes]), lookupEntry_eq_none]
      intro entry keptMem same
      obtain ⟨entryMem, entryPasses⟩ := mem_filter.mp keptMem
      rw [ascending.eq_of_key_eq entryMem mem same, passes] at entryPasses
      cases entryPasses

/-- Lookups through a renaming of keys. -/
lemma lookupEntry_map {Key' : Type w} [LinearOrder Key'] {Value' : Type v}
    {rename : Key → Key'} {convert : Value → Value'}
    (injective : ∀ entry ∈ entries, rename entry.1 = rename key → entry.1 = key) :
    lookupEntry (rename key) (entries.map fun entry => (rename entry.1, convert entry.2)) =
      (lookupEntry key entries).map convert := by
  induction entries with
  | nil => rfl
  | cons head rest ih =>
    have later := ih fun entry mem => injective entry (mem_cons_of_mem _ mem)
    by_cases hit : head.1 = key
    · simp [lookupEntry, hit]
    · have renamed : rename head.1 ≠ rename key := fun same =>
        hit (injective head mem_cons_self same)
      rw [map_cons, lookupEntry_cons_of_ne hit]
      rw [lookupEntry_cons_of_ne (by exact renamed), later]

/-- At most one entry has a given key. -/
lemma Ascending.filter_key_eq (ascending : Ascending entries) (key : Key) (test : Value → Bool) :
    (entries.filter fun entry => decide (entry.1 = key) && test entry.2) =
      (((lookupEntry key entries).filter test).map (Prod.mk key)).toList := by
  induction entries with
  | nil => rfl
  | cons head rest ih =>
    obtain ⟨below, later⟩ := ascending_cons.mp ascending
    by_cases hit : head.1 = key
    · have others : (rest.filter fun entry => decide (entry.1 = key) && test entry.2) =
          [] := by
        rw [filter_eq_nil_iff]
        intro entry mem passes
        have same := of_decide_eq_true (Bool.and_eq_true_iff.mp passes).1
        exact ne_of_lt (below entry mem) (hit.trans same.symm)
      have pair : head = (key, head.2) := by rw [← hit]
      cases passes : test head.2 <;>
        simp [lookupEntry, hit, passes, others, Option.filter, ← pair]
    · rw [lookupEntry_cons_of_ne hit, ← ih later, filter_cons_of_neg (by simp [hit])]

end

/-! ## Changes in the middle of a list -/

section

variable {left middle right : List (Key × Value)} {key : Key} {value : Value}

lemma insertEntry_append_right (below : ∀ entry ∈ left, entry.1 < key) :
    insertEntry key value (left ++ right) = left ++ insertEntry key value right := by
  induction left with
  | nil => rfl
  | cons head rest ih =>
    have smaller := below head mem_cons_self
    rw [cons_append, insertEntry, if_neg (not_lt_of_gt smaller),
      if_neg (ne_of_gt smaller), ih fun entry mem =>
        below entry (mem_cons_of_mem _ mem), cons_append]

lemma insertEntry_append_left (above : ∀ entry ∈ right, key < entry.1) :
    insertEntry key value (left ++ right) = insertEntry key value left ++ right := by
  induction left with
  | nil =>
    cases right with
    | nil => rfl
    | cons head rest =>
      exact if_pos (above head mem_cons_self)
  | cons head rest ih =>
    simp only [cons_append, insertEntry, ih]
    split
    · rfl
    · split <;> rfl

section

variable (below : ∀ entry ∈ left, entry.1 < key) (above : ∀ entry ∈ right, key < entry.1)
include below above

/-- Away from the key, an insertion changes nothing. -/
lemma insertEntry_middle : insertEntry key value (left ++ middle ++ right) =
      left ++ insertEntry key value middle ++ right := by
  rw [insertEntry_append_left above, insertEntry_append_right below]

lemma eraseEntry_middle :
    eraseEntry key (left ++ middle ++ right) = left ++ eraseEntry key middle ++ right := by
  have leftKept : eraseEntry key left = left := eraseEntry_of_lookup_none
    (lookupEntry_eq_none.mpr fun entry mem => ne_of_lt (below entry mem))
  have rightKept : eraseEntry key right = right := eraseEntry_of_lookup_none
    (lookupEntry_eq_none.mpr fun entry mem => ne_of_gt (above entry mem))
  have split : eraseEntry key (left ++ middle ++ right) =
      eraseEntry key left ++ eraseEntry key middle ++ eraseEntry key right := by
    simp only [eraseEntry, filter_append]
  rw [split, leftKept, rightKept]

lemma lookupEntry_middle : lookupEntry key (left ++ middle ++ right) = lookupEntry key middle := by
  have leftMisses : lookupEntry key left = none :=
    lookupEntry_eq_none.mpr fun entry mem => ne_of_lt (below entry mem)
  have rightMisses : lookupEntry key right = none :=
    lookupEntry_eq_none.mpr fun entry mem => ne_of_gt (above entry mem)
  rw [lookupEntry_append, lookupEntry_append, leftMisses, rightMisses, Option.none_or,
    or_none]

end

/-- An insertion adds an entry exactly if the key is new. -/
lemma Ascending.length_insertEntry {entries : List (Key × Value)}
    (ascending : Ascending entries) (key : Key) (value : Value) :
    (Lib.insertEntry key value entries).length =
      entries.length + if lookupEntry key entries = none then 1 else 0 := by
  induction entries with
  | nil => simp [Lib.insertEntry]
  | cons head rest ih =>
    obtain ⟨below, later⟩ := ascending_cons.mp ascending
    simp only [Lib.insertEntry]
    split
    next smaller =>
      have absent : lookupEntry key (head :: rest) = none := by
        rw [lookupEntry_eq_none]
        intro entry mem
        rcases mem_cons.mp mem with rfl | mem
        · exact ne_of_gt smaller
        · exact ne_of_gt (lt_trans smaller (below entry mem))
      rw [if_pos absent, length_cons]
    · split
      next equal => simp [lookupEntry, equal]
      next ne =>
        rw [lookupEntry_cons_of_ne (Ne.symm ne), length_cons, ih later, length_cons]
        omega

/-- Erasing a key that is there takes one entry away. -/
lemma Ascending.length_eraseEntry {entries : List (Key × Value)}
    (ascending : Ascending entries) (found : lookupEntry key entries = some value) :
    (Lib.eraseEntry key entries).length + 1 = entries.length := by
  obtain ⟨left, right, rfl⟩ := List.append_of_mem (mem_of_lookupEntry found)
  obtain ⟨_, rightAscending, across⟩ := ascending_append.mp ascending
  have erased : Lib.eraseEntry key (left ++ [(key, value)] ++ right) =
      left ++ Lib.eraseEntry key [(key, value)] ++ right :=
    eraseEntry_middle (fun entry mem => across entry mem _ mem_cons_self)
      (ascending_cons.mp rightAscending).1
  have none : Lib.eraseEntry key [(key, value)] = [] := by
    simp [Lib.eraseEntry]
  rw [none, append_nil, append_assoc, List.singleton_append] at erased
  rw [erased, length_append, length_append, length_cons]
  omega

end

/-! ## Reading a range -/

section

variable {entries : List (Key × Value)}

lemma Ascending.dropWhile_lt (ascending : Ascending entries) (start : Key) :
    entries.dropWhile (fun entry => decide (entry.1 < start)) =
      entries.filter fun entry => decide (start ≤ entry.1) := by
  induction entries with
  | nil => rfl
  | cons head rest ih =>
    obtain ⟨below, later⟩ := ascending_cons.mp ascending
    by_cases early : head.1 < start
    · rw [List.dropWhile_cons_of_pos (by simpa using early),
        filter_cons_of_neg (by simpa using early)]
      exact ih later
    · rw [List.dropWhile_cons_of_neg (by simpa using early)]
      symm
      rw [filter_eq_self]
      intro entry mem
      have reached := not_lt.mp early
      rcases mem_cons.mp mem with rfl | mem
      · exact decide_eq_true reached
      · exact decide_eq_true (le_of_lt (lt_of_le_of_lt reached (below entry mem)))

/-- The entries from the lower bound of a key on. -/
lemma Ascending.drop_findIdx (ascending : Ascending entries) (start : Key) :
    entries.drop (entries.findIdx fun entry => decide (start ≤ entry.1)) =
      entries.filter fun entry => decide (start ≤ entry.1) := by
  rw [← ascending.dropWhile_lt]
  induction entries with
  | nil => rfl
  | cons head rest ih =>
    obtain ⟨-, later⟩ := ascending_cons.mp ascending
    by_cases early : head.1 < start
    · rw [List.findIdx_cons, List.dropWhile_cons_of_pos (by simpa using early)]
      simpa [not_le.mpr early] using ih later
    · rw [List.findIdx_cons, List.dropWhile_cons_of_neg (by simpa using early)]
      simp [not_lt.mp early]

/-- The lower bound of a key is where the key is, if it is there at all. -/
lemma Ascending.lookupEntry_findIdx (ascending : Ascending entries) (key : Key) :
    lookupEntry key entries =
      (entries[entries.findIdx fun entry => decide (key ≤ entry.1)]?).bind fun entry =>
        if entry.1 = key then some entry.2 else none := by
  induction entries with
  | nil => rfl
  | cons head rest ih =>
    obtain ⟨below, later⟩ := ascending_cons.mp ascending
    by_cases early : head.1 < key
    · rw [lookupEntry_cons_of_ne (ne_of_lt early), List.findIdx_cons, ih later]
      simp [not_le.mpr early]
    · have reached := not_lt.mp early
      rw [List.findIdx_cons, decide_eq_true reached, cond_true, List.getElem?_cons_zero,
        bind_some]
      split
      next same => simp [lookupEntry, same]
      next differs =>
        rw [lookupEntry_cons_of_ne differs, lookupEntry_eq_none]
        intro entry mem same
        have above := below entry mem
        rw [same] at above
        exact early above

/-- Reading from the front while a test holds finds every entry that passes it, when an
entry that passes leaves none before it that fails. -/
lemma Ascending.takeWhile_eq_filter (ascending : Ascending entries)
    (convex : ∀ first ∈ entries, ∀ second ∈ entries, first.1 < second.1 →
      test second = true → test first = true) : entries.takeWhile test = entries.filter test := by
  induction entries with
  | nil => rfl
  | cons head rest ih =>
    obtain ⟨below, later⟩ := ascending_cons.mp ascending
    cases passes : test head with
    | true =>
      rw [List.takeWhile_cons_of_pos passes, List.filter_cons_of_pos passes]
      congr 1
      apply ih later
      intro first firstMem second secondMem
      exact convex first (mem_cons_of_mem _ firstMem) second (mem_cons_of_mem _ secondMem)
    | false =>
      rw [List.takeWhile_cons_of_neg (by simp [passes])]
      symm
      rw [filter_eq_nil_iff]
      intro entry mem isPassing
      rcases mem_cons.mp mem with rfl | mem
      · rw [passes] at isPassing
        cases isPassing
      · rw [convex head mem_cons_self entry (mem_cons_of_mem _ mem)
          (below entry mem) isPassing] at passes
        cases passes

end

/-! ## The map -/

/-- A finite map with ordered keys. -/
@[ext] structure SortedMap (Key : Type u) (Value : Type v) [LinearOrder Key] where
  entries : List (Key × Value)
  ascending : Ascending entries

namespace SortedMap

def empty : SortedMap Key Value := ⟨[], ascending_nil⟩

def lookup (map : SortedMap Key Value) (key : Key) : Option Value :=
  lookupEntry key map.entries

def insert (map : SortedMap Key Value) (key : Key) (value : Value) :
    SortedMap Key Value :=
  ⟨insertEntry key value map.entries, map.ascending.insertEntry key value⟩

def erase (map : SortedMap Key Value) (key : Key) : SortedMap Key Value :=
  ⟨eraseEntry key map.entries, map.ascending.eraseEntry key⟩

/-- The entries at and above a key, in order. -/
def entriesFrom (map : SortedMap Key Value) (start : Key) : List (Key × Value) :=
  map.entries.filter fun entry => decide (start ≤ entry.1)

variable {map : SortedMap Key Value} {key query : Key} {value : Value}

lemma lookup_insert_self : (map.insert key value).lookup key = some value :=
  lookupEntry_insertEntry_self

lemma lookup_insert_of_ne (ne : query ≠ key) :
    (map.insert key value).lookup query = map.lookup query :=
  lookupEntry_insertEntry_of_ne ne

lemma lookup_erase_self : (map.erase key).lookup key = none :=
  lookupEntry_eraseEntry_self

lemma lookup_erase_of_ne (ne : query ≠ key) : (map.erase key).lookup query = map.lookup query :=
  lookupEntry_eraseEntry_of_ne ne

lemma lookup_insert (map : SortedMap Key Value) (key : Key) (value : Value) (query : Key) :
    (map.insert key value).lookup query = if query = key then some value else map.lookup query := by
  split
  next same => rw [same, lookup_insert_self]
  next ne => exact lookup_insert_of_ne ne

lemma lookup_erase (map : SortedMap Key Value) (key query : Key) :
    (map.erase key).lookup query = if query = key then none else map.lookup query := by
  split
  next same => rw [same, lookup_erase_self]
  next ne => exact lookup_erase_of_ne ne

lemma lookup_eq_some : map.lookup key = some value ↔ (key, value) ∈ map.entries :=
  map.ascending.lookupEntry_eq_some

lemma entries_insert_last (last : ∀ entry ∈ map.entries, entry.1 < key) :
    (map.insert key value).entries = map.entries ++ [(key, value)] := by
  have inserted : insertEntry key value (map.entries ++ []) = map.entries ++ [(key, value)] :=
    insertEntry_append_right last
  rw [append_nil] at inserted
  exact inserted

lemma entries_erase_first (first : map.entries = (key, value) :: rest) :
    (map.erase key).entries = rest := by
  have ascending := map.ascending
  rw [first, ascending_cons] at ascending
  have kept : eraseEntry key rest = rest := eraseEntry_of_lookup_none
    (lookupEntry_eq_none.mpr fun entry mem => ne_of_gt (ascending.1 entry mem))
  have erased : eraseEntry key map.entries = rest := by
    rw [first, eraseEntry, filter_cons_of_neg (by simp)]
    exact kept
  exact erased

/-- Maps with the same lookups are equal. -/
lemma ext_lookup {left right : SortedMap Key Value}
    (same : ∀ key, left.lookup key = right.lookup key) : left = right :=
  SortedMap.ext (left.ascending.ext right.ascending same)

lemma ascending_entriesFrom (map : SortedMap Key Value) (start : Key) :
    Ascending (map.entriesFrom start) :=
  map.ascending.sublist filter_sublist

lemma lookup_entriesFrom (map : SortedMap Key Value) (start key : Key) :
    lookupEntry key (map.entriesFrom start) = if start ≤ key then map.lookup key else none := by
  rw [entriesFrom, lookupEntry_filter_key fun other => decide (start ≤ other)]
  simp only [decide_eq_true_eq]
  rfl

lemma entriesFrom_of_le (below : start ≤ later) : map.entriesFrom later =
      (map.entriesFrom start).filter fun entry => decide (later ≤ entry.1) := by
  rw [entriesFrom, entriesFrom, filter_filter]
  apply filter_congr
  intro entry _
  by_cases there : later ≤ entry.1
  · simp [there, below.trans there]
  · simp [there]

/-- The first key that passes a test. -/
def firstKey (map : SortedMap Key Value) (test : Key → Bool) : Option Key :=
  (map.entries.find? fun entry => test entry.1).map Prod.fst

lemma firstKey_eq_some (found : map.firstKey test = some key) :
    test key = true ∧ (∃ value, map.lookup key = some value) ∧
      ∀ {query value}, test query = true → map.lookup query = some value → key ≤ query := by
  obtain ⟨entry, first, rfl⟩ := map_eq_some_iff.mp found
  obtain ⟨passes, before, after, split, fail⟩ := List.find?_eq_some_iff_append.mp first
  have ascending := map.ascending
  rw [split, ascending_append, ascending_cons] at ascending
  refine ⟨passes, ⟨entry.2, lookup_eq_some.mpr (mem_of_find?_eq_some first)⟩, ?_⟩
  intro query value test_query there
  have mem := lookup_eq_some.mp there
  rw [split, mem_append, mem_cons] at mem
  rcases mem with mem | here | mem
  · have failed := fail _ mem
    simp [test_query] at failed
  · rw [← here]
  · exact (ascending.2.1.1 _ mem).le

lemma firstKey_eq_none (none : map.firstKey test = none) (passes : test query = true) :
    map.lookup query = Option.none := by
  rw [firstKey, Option.map_eq_none_iff, find?_eq_none] at none
  cases found : map.lookup query with
  | none => rfl
  | some value => exact absurd passes (none _ (lookup_eq_some.mp found))

end SortedMap

end DbEngine.Lib
