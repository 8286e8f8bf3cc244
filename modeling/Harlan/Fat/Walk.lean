import Mathlib.Tactic
import Harlan.Fat.Pieces

/-!
What the parts of a volume that only look answer, on any disk.

Nothing is assumed of the table or of the directory: a chain may loop, or go to a cluster the
volume has not got. A walk along the root directory is still a scan of the slots of some clusters,
and then a reason to stop.

* `pathFrom`, `walkRoot_eq`: the clusters, and the reason.
* `livePlaces`: the slots in use before the directory ends; `slotFor_existing`: `directory_slot`
  finds the first of them that stores the name.
* `slotWalk`, `slotFor_place`: the clusters it goes through before it stops, and that its answer
  is in one of them. -/

namespace Harlan.Fat

open Eff

/-! ### The clusters of a walk -/

/-- The clusters of a walk from one on, which may see `left` more, and how it ends: at a cluster
whose entry is no link, or with an error. -/
def pathFrom (boot : BootSector) (fat : ℕ → Entry) : ℕ → ℕ →
      List ℕ × Except VolumeError (ℕ × Entry)
  | left, cluster =>
      if boot.hasCluster cluster then
        match left with
        | 0 => ([cluster], .error .chainLoops)
        | left + 1 =>
            match fat cluster with
            | .next next =>
                (cluster :: (pathFrom boot fat left next).1, (pathFrom boot fat left next).2)
            | entry => ([cluster], .ok (cluster, entry))
      else ([], .error (.badCluster cluster))

lemma pathFrom_inside {boot : BootSector} {fat : ℕ → Entry} (left first : ℕ) :
    ∀ cluster ∈ (pathFrom boot fat left first).1, boot.hasCluster cluster = true := by
  induction left generalizing first with
  | zero =>
      intro cluster hmem
      rw [pathFrom] at hmem
      split at hmem
      next hfirst =>
        rw [List.mem_singleton.mp hmem]
        exact hfirst
      next => cases hmem
  | succ left ih =>
      intro cluster hmem
      rw [pathFrom] at hmem
      split at hmem
      next hfirst =>
        split at hmem
        next next _ =>
          obtain rfl | hmem := List.mem_cons.mp hmem
          · exact hfirst
          · exact ih next cluster hmem
        next =>
          rw [List.mem_singleton.mp hmem]
          exact hfirst
      next => cases hmem

/-- The clusters of the root directory, as a walk goes through them. -/
def rootWalk (boot : BootSector) (disk : Disk) : List ℕ :=
  (pathFrom boot (entryOf boot disk) boot.clusters boot.rootCluster).1

/-- How a walk through all of them ends. -/
def rootStop (boot : BootSector) (disk : Disk) : Except VolumeError (ℕ × Entry) :=
  (pathFrom boot (entryOf boot disk) boot.clusters boot.rootCluster).2

section Walk

variable {boot : BootSector} {dev : Device} {σ β : Type}
  (visit : σ → Place → SlotBytes → Except β σ)

lemma placesOf_cons (cluster : ℕ) (rest : List ℕ) :
    placesOf boot (cluster :: rest) = placesOf boot [cluster] ++ placesOf boot rest := by
  simp [placesOf]

lemma scan_cons (disk : Disk) (place : Place) (rest : List Place) (s : σ) :
    scan visit disk (place :: rest) s
      = match visit s place (slotOf disk place) with
        | .ok s => scan visit disk rest s
        | .error b => .error b := by
  rw [scan, List.foldlM_cons]
  cases visit s place (slotOf disk place) <;> rfl

/-- A walk is a scan of the slots of its clusters, and then how it ends. -/
lemma walkRoot_eq (left first : ℕ) (s : σ) :
    walkRoot boot visit left first s dev
      = ((match scan visit dev.disk
        (placesOf boot (pathFrom boot (entryOf boot dev.disk) left first).1) s with
          | .error b => .ok (.error b)
          | .ok s =>
            (pathFrom boot (entryOf boot dev.disk) left first).2.map fun stop => .ok (s, stop)),
              dev) := by
  induction left generalizing first s with
  | zero =>
      rw [walkRoot, pathFrom]
      by_cases hfirst : boot.hasCluster first = true
      · rw [if_pos hfirst, bind_ok (visitCluster_returns visit hfirst s)]
        cases scan visit dev.disk (placesOf boot [first]) s <;> rfl
      · rw [if_neg hfirst, bind_apply, visitCluster, BootSector.sectorOfCluster, if_neg hfirst]
        rfl
  | succ left ih =>
      rw [walkRoot, pathFrom]
      by_cases hfirst : boot.hasCluster first = true
      · rw [if_pos hfirst, bind_ok (visitCluster_returns visit hfirst s)]
        have hnext := @nextCluster_returns boot dev first hfirst
        cases hentry : entryOf boot dev.disk first with
        | next next =>
            rw [hentry] at hnext
            dsimp only
            rw [placesOf_cons first (pathFrom boot _ left next).1, scan_append]
            cases scan visit dev.disk (placesOf boot [first]) s with
            | error b => rfl
            | ok s =>
                dsimp only
                rw [bind_ok hnext]
                exact ih next s
        | free | reserved | bad | end' =>
            rw [hentry] at hnext
            dsimp only
            cases scan visit dev.disk (placesOf boot [first]) s with
            | error b => rfl
            | ok s =>
                dsimp only
                rw [bind_ok hnext]
                rfl
      · rw [if_neg hfirst, bind_apply, visitCluster, BootSector.sectorOfCluster, if_neg hfirst]
        rfl

end Walk

/-! ### The slots in use -/

/-- The slots in use, up to where the directory ends. -/
def livePlaces (disk : Disk) : List Place → List Place
  | [] => []
  | place :: rest =>
      match decodeSlot (slotOf disk place) with
      | .end' => []
      | .skip => livePlaces disk rest
      | .entry _ => place :: livePlaces disk rest

/-- Those of the root directory. -/
def rootLive (boot : BootSector) (disk : Disk) : List Place :=
  livePlaces disk (placesOf boot (rootWalk boot disk))

lemma livePlaces_entry {disk : Disk} {places : List Place} {place : Place}
    (h : place ∈ livePlaces disk places) :
    decodeSlot (slotOf disk place) = .entry (slotEntry (slotOf disk place)) ∧ place ∈ places := by
  induction places with
  | nil => cases h
  | cons first rest ih =>
      rw [livePlaces] at h
      rcases hslot : decodeSlot (slotOf disk first) with entry | _ | _
      · rw [hslot] at h
        obtain rfl | h := List.mem_cons.mp h
        · rw [← eq_slotEntry hslot]
          exact ⟨hslot, List.mem_cons_self⟩
        · exact ⟨(ih h).1, List.mem_cons_of_mem _ (ih h).2⟩
      · rw [hslot] at h
        exact ⟨(ih h).1, List.mem_cons_of_mem _ (ih h).2⟩
      · rw [hslot] at h
        cases h

/-- The scan of `directory_slot` stops with an entry at the first slot in use that stores the
name. -/
lemma scan_visitName_entry {name : EncodedName} {disk : Disk} {places : List Place}
    {free : Option Place} {place : Place} {entry : DirectoryEntry} :
    scan (visitName name) disk places free = .error (place, some entry)
      ↔ (livePlaces disk places).find? (fun p => storesName (slotOf disk p) name) = some place
        ∧ entry = slotEntry (slotOf disk place) := by
  induction places generalizing free with
  | nil => simp [scan, livePlaces, Pure.pure, Except.pure]
  | cons first rest ih =>
      rw [scan_cons, visitName, livePlaces]
      rcases hslot : decodeSlot (slotOf disk first) with found | _ | _
      · obtain rfl := eq_slotEntry hslot
        dsimp only
        by_cases hname : storesName (slotOf disk first) name = true
        · rw [if_pos hname, List.find?_cons, hname]
          simp only [Except.error.injEq, Prod.mk.injEq, Option.some.injEq]
          constructor
          · rintro ⟨rfl, rfl⟩
            exact ⟨rfl, rfl⟩
          · rintro ⟨rfl, rfl⟩
            exact ⟨rfl, rfl⟩
        · rw [if_neg hname, List.find?_cons, Bool.eq_false_iff.mpr hname]
          exact ih
      · exact ih
      · simp

/-! ### Where a name goes -/

/-- What `directory_slot` answers. -/
def slotFor (boot : BootSector) (disk : Disk) (name : EncodedName) :
    Except WriteError (Place × Option DirectoryEntry) :=
  match scan (visitName name) disk (placesOf boot (rootWalk boot disk)) none with
  | .error found => .ok found
  | .ok free =>
      match rootStop boot disk, free with
      | .error err, _ => .error (.reading err)
      | .ok _, some place => .ok (place, none)
      | .ok _, none => .error .directoryFull

section Slot

variable {boot : BootSector} {name : EncodedName}

lemma directorySlot_eq (dev : Device) :
    directorySlot boot name dev = (slotFor boot dev.disk name, dev) := by
  have hwalk := @walkRoot_eq boot dev _ _ (visitName name) boot.clusters boot.rootCluster none
  rw [directorySlot, bind_apply, reading, mapError, hwalk, slotFor, rootWalk, rootStop]
  rcases scan (visitName name) dev.disk _ none with ⟨place, existing⟩ | free
  · rfl
  · rcases (pathFrom boot (entryOf boot dev.disk) boot.clusters boot.rootCluster).2 with err
      | stop
    · cases free <;> rfl
    · cases free <;> rfl

variable {disk : Disk}

/-- It finds the first slot in use that stores the name, wherever the walk would go after it. -/
lemma slotFor_existing {place : Place} {entry : DirectoryEntry} :
    slotFor boot disk name = .ok (place, some entry)
      ↔ (rootLive boot disk).find? (fun p => storesName (slotOf disk p) name) = some place
        ∧ entry = slotEntry (slotOf disk place) := by
  rw [rootLive, ← @scan_visitName_entry _ _ _ none, slotFor]
  rcases scan (visitName name) disk (placesOf boot (rootWalk boot disk)) none with found | free
  · simp
  · rcases rootStop boot disk with err | stop
    · cases free <;> simp
    · cases free <;> simp

/-- The clusters a scan goes through before it stops. -/
def walked {σ β : Type} (visit : σ → Place → SlotBytes → Except β σ) (boot : BootSector)
    (disk : Disk) :
    List ℕ → σ → List ℕ
  | [], _ => []
  | cluster :: rest, s =>
      cluster :: match scan visit disk (placesOf boot [cluster]) s with
        | .ok s => walked visit boot disk rest s
        | .error _ => []

/-- The clusters `directory_slot` goes through. -/
def slotWalk (boot : BootSector) (disk : Disk) (name : EncodedName) : List ℕ :=
  walked (visitName name) boot disk (rootWalk boot disk) none

lemma walked_isPart {σ β : Type} {visit : σ → Place → SlotBytes → Except β σ}
    (clusters : List ℕ) (s : σ) :
    walked visit boot disk clusters s <+: clusters := by
  induction clusters generalizing s with
  | nil => exact List.prefix_refl _
  | cons cluster rest ih =>
      rw [walked, List.prefix_cons_inj]
      split
      · exact ih _
      · exact List.nil_prefix

lemma slotWalk_inside {cluster : ℕ} (h : cluster ∈ slotWalk boot disk name) :
    boot.hasCluster cluster = true :=
  pathFrom_inside _ _ cluster ((walked_isPart _ _).subset h)

/-- The place a scan ends with, if it has one. -/
def placeOf : Except (Place × Option DirectoryEntry) (Option Place) → Option Place
  | .error (place, _) => some place
  | .ok free => free

/-- It is one of the places scanned, or was known before. -/
lemma placeOf_scan {places : List Place} {free : Option Place} {place : Place}
    (h : placeOf (scan (visitName name) disk places free) = some place) :
    place ∈ places ∨ free = some place := by
  have hscan := @scan_visitName name disk places free
  have hfound : ∀ {before : List Place}, before ⊆ places →
      free.or (before.find? (deleted disk)) = some place →
        place ∈ places ∨ free = some place := by
    intro before hsub hplace
    rcases free with _ | first
    · rw [Option.none_or] at hplace
      exact .inl (hsub (List.mem_of_find?_eq_some hplace))
    · rw [Option.some_or] at hplace
      exact .inr hplace
  rcases hresult : scan (visitName name) disk places free with ⟨found, _ | entry⟩ | free'
  · rw [hresult] at h hscan
    obtain ⟨before, last, after, rfl, -, -, hplace⟩ := hscan
    obtain rfl : found = place := Option.some.inj h
    rcases hor : free.or (before.find? (deleted disk)) with _ | first
    · rw [hor, Option.getD_none] at hplace
      rw [hplace]
      exact .inl (List.mem_append_right _ List.mem_cons_self)
    · rw [hor, Option.getD_some] at hplace
      refine hfound (List.subset_append_left _ _) ?_
      rw [hor, hplace]
  · rw [hresult] at h hscan
    obtain ⟨before, after, rfl, -⟩ := hscan
    obtain rfl : found = place := Option.some.inj h
    exact .inl (List.mem_append_right _ List.mem_cons_self)
  · rw [hresult] at h hscan
    exact hfound (List.Subset.refl _) (hscan.2.symm.trans h)

lemma placeOf_walked {clusters : List ℕ} {free : Option Place} {place : Place}
    (h : placeOf (scan (visitName name) disk (placesOf boot clusters) free) = some place) :
    place ∈ placesOf boot (walked (visitName name) boot disk clusters free)
      ∨ free = some place := by
  induction clusters generalizing free with
  | nil => exact placeOf_scan h
  | cons cluster rest ih =>
      rw [placesOf_cons, scan_append] at h
      rw [walked, placesOf_cons]
      have hfirst := @placeOf_scan name disk (placesOf boot [cluster]) free
      rcases hscan : scan (visitName name) disk (placesOf boot [cluster]) free with found | free'
      · rw [hscan] at h hfirst
        exact (hfirst h).imp_left fun hmem => List.mem_append_left _ hmem
      · rw [hscan] at h hfirst
        obtain hmem | hmem := ih h
        · exact .inl (List.mem_append_right _ hmem)
        · exact (hfirst hmem).imp_left fun hmem => List.mem_append_left _ hmem

/-- The slot `directory_slot` answers is in a cluster it went through. -/
lemma slotFor_place {place : Place} {existing : Option DirectoryEntry}
    (h : slotFor boot disk name = .ok (place, existing)) :
    place ∈ placesOf boot (slotWalk boot disk name) := by
  have hplace : placeOf (scan (visitName name) disk (placesOf boot (rootWalk boot disk)) none)
      = some place := by
    rw [slotFor] at h
    rcases hscan : scan (visitName name) disk (placesOf boot (rootWalk boot disk)) none
      with found | free
    · rw [hscan] at h
      rw [Except.ok.inj h]
      rfl
    · rw [hscan] at h
      rcases hstop : rootStop boot disk with err | stop
      · rw [hstop] at h
        cases free <;> cases h
      · rw [hstop] at h
        cases free with
        | none => cases h
        | some first =>
            rw [← (Prod.mk.inj (Except.ok.inj h)).1]
            rfl
  exact (placeOf_walked hplace).resolve_right nofun

/-- Which is one of the volume. -/
lemma slotFor_sector {place : Place} {existing : Option DirectoryEntry}
    (h : slotFor boot disk name = .ok (place, existing)) :
    ∃ cluster ∈ slotWalk boot disk name, boot.hasCluster cluster = true
      ∧ ∃ offset < boot.sectorsPerCluster, place.1 = dataSector boot cluster offset := by
  have hmem := slotFor_place h
  obtain ⟨cluster, hcluster, offset, hoffset, hsector⟩ := mem_placesOf hmem
  exact ⟨cluster, hcluster, slotWalk_inside hcluster, offset, hoffset, hsector⟩

end Slot

end Harlan.Fat
