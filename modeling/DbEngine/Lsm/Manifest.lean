import DbEngine.Lib.PackedPage
import DbEngine.Lsm.Engine

/-!
# The manifest page

`ManifestPage` has a fixed number of tiers, with the number of tables and their ids for each.
Loading it gives back the tiers it was written from, without empty ones at the end.
-/

namespace DbEngine.Lsm

open Lib LSMTreeEngine

/-- `ManifestPage` as it is laid out. -/
structure ManifestImage where
  nextSstableId : Nat
  tierCount : Vector Nat maxManifestTiers
  tierIds : Vector (Vector Nat maxSSTablesPerManifestTier) maxManifestTiers

/-- The page that `PersistManifestLocked` fills in, all zeros before. -/
def ManifestPage.image (manifest : ManifestPage) : ManifestImage where
  nextSstableId := manifest.nextSstableId
  tierCount := overwrite (Vector.replicate _ 0) (manifest.tiers.map List.length)
  tierIds := overwrite (Vector.replicate _ (Vector.replicate _ 0))
    (manifest.tiers.map (overwrite (Vector.replicate _ 0)))

/-- The tiers up to the highest with a table: `highest + 1`. -/
def occupiedTiers (counts : List Nat) : Nat :=
  counts.zipIdx.foldl (fun occupied tier => if 0 < tier.1 then tier.2 + 1 else occupied) 0

/-- The ids that `LoadManifestOrInitialize` reads. -/
def ManifestImage.tiers (image : ManifestImage) : List (List Nat) :=
  ((image.tierCount.toList.zip image.tierIds.toList).take
    (occupiedTiers image.tierCount.toList)).map fun tier => tier.2.toList.take tier.1

/-- It has room for the tiers. -/
structure ManifestPage.Fits (manifest : ManifestPage) : Prop where
  tiers : manifest.tiers.length ≤ maxManifestTiers
  tables : ∀ tier ∈ manifest.tiers, tier.length ≤ maxSSTablesPerManifestTier

lemma occupiedTiers_eq (counts : List Nat) :
    occupiedTiers counts = (counts.rdropWhile (· == 0)).length := by
  induction counts using reverseRecOn with
  | nil => rfl
  | append_singleton counts last ih =>
    rw [occupiedTiers, List.zipIdx_append, foldl_append, List.rdropWhile_concat]
    cases last with
    | zero => exact ih
    | succ last => simp

variable {α : Type} {manifest : ManifestPage}

lemma rdropWhile_map {β : Type} (f : α → β) (p : β → Bool) (list : List α) :
    (list.map f).rdropWhile p = (list.rdropWhile (p ∘ f)).map f := by
  rw [List.rdropWhile, ← List.map_reverse, List.dropWhile_map, ← List.map_reverse]
  rfl

lemma rdropWhile_append_replicate (p : α → Bool) (list : List α) {last : α}
    (drops : p last = true) (count : Nat) :
    (list ++ replicate count last).rdropWhile p = list.rdropWhile p := by
  induction count with
  | zero => rw [List.replicate_zero, append_nil]
  | succ count ih =>
    rw [List.replicate_succ', ← append_assoc, List.rdropWhile_concat, if_pos drops, ih]

/-- The page decodes to the tiers it was written from. -/
lemma ManifestPage.Fits.tiers_image (fits : manifest.Fits) :
    manifest.image.tiers = manifest.tiers.rdropWhile List.isEmpty := by
  have counts : manifest.image.tierCount.toList = manifest.tiers.map List.length ++
      replicate (maxManifestTiers - manifest.tiers.length) 0 := by
    rw [ManifestPage.image, toList_overwrite _ (by simpa using fits.tiers)]
    simp
  have ids : manifest.image.tierIds.toList =
      manifest.tiers.map (overwrite (Vector.replicate _ 0)) ++
        replicate (maxManifestTiers - manifest.tiers.length) (Vector.replicate _ 0) := by
    rw [ManifestPage.image, toList_overwrite _ (by simpa using fits.tiers)]
    simp
  have empty : ((· == 0) ∘ List.length : List Nat → Bool) = List.isEmpty := by
    funext tier
    cases tier <;> rfl
  have occupied : occupiedTiers manifest.image.tierCount.toList =
      (manifest.tiers.rdropWhile List.isEmpty).length := by
    rw [occupiedTiers_eq, counts, rdropWhile_append_replicate _ _ rfl, rdropWhile_map,
      length_map, empty]
  obtain ⟨dropped, split⟩ := manifest.tiers.rdropWhile_prefix List.isEmpty
  have loads : ∀ tier ∈ manifest.tiers.rdropWhile List.isEmpty,
      (overwrite (Vector.replicate maxSSTablesPerManifestTier 0) tier).toList.take tier.length =
        tier := by
    intro tier mem
    apply take_overwrite
    apply fits.tables
    rw [← split]
    exact mem_append_left _ mem
  have rows := congrArg (List.map fun tier =>
    (tier.length, overwrite (Vector.replicate maxSSTablesPerManifestTier 0) tier)) split
  rw [map_append] at rows
  rw [ManifestImage.tiers, occupied, counts, ids, List.zip_append (by simp), List.zip_map', ← rows,
    append_assoc, take_left' (length_map ..), map_map]
  exact (map_congr_left loads).trans (map_id _)

/-- A page is written only if it has room. -/
lemma fits_of_persistManifest {engine : LSMTreeEngine}
    (persists : engine.persistManifest = .ok manifest) : manifest.Fits := by
  rw [persistManifest] at persists
  split at persists
  · cases persists
  next few =>
    split at persists
    · cases persists
    next small =>
      cases persists
      constructor
      · rw [length_map]
        exact Nat.not_lt.mp few
      · intro tier mem
        obtain ⟨tables, inTiers, rfl⟩ := mem_map.mp mem
        rw [length_map]
        simp only [any_eq_true, decide_eq_true_eq, not_exists, not_and, Nat.not_lt] at small
        exact small tables inTiers

end DbEngine.Lsm
