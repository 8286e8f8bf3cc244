import Mathlib.Tactic
import Harlan.Lib.Chain
import Harlan.Lib.Slices
import Harlan.Fat.View

/-!
What reading a volume answers, along chains that are whole.

* `IsChain`: a chain of clusters of the volume, to one the table calls the end.
* `walkRoot_returns`: walking a directory is a fold over its slots.
* `readRoot_returns`, `list_returns`, `find_returns`: what is in the root directory.
* `readFile_returns`, `readAt_returns`: a file's bytes are those of its clusters.
-/

namespace Harlan.Fat

open Eff

/-! ### Chains of clusters -/

/-- The cluster a table says comes after another. -/
def nextLink (fat : ℕ → Entry) (cluster : ℕ) : Option ℕ :=
  match fat cluster with
  | .next next => some next
  | _ => none

lemma nextLink_eq_some {fat : ℕ → Entry} {cluster next : ℕ} :
    nextLink fat cluster = some next ↔ fat cluster = .next next := by
  rw [nextLink]
  cases fat cluster <;> simp

lemma nextLink_end {fat : ℕ → Entry} (cluster : ℕ) (h : fat cluster = .end') :
    nextLink fat cluster = none := by
  rw [nextLink, h]

/-- The clusters of a volume from a first one to the end of its chain. -/
structure IsChain (boot : BootSector) (fat : ℕ → Entry) (first : ℕ)
    (clusters : List ℕ) : Prop where
  chain : Chain (nextLink fat) (fun cluster => fat cluster = .end') first clusters
  inside : ∀ cluster ∈ clusters, boot.hasCluster cluster = true

/-- The clusters from a first one on, as the table links them; none from cluster 0, which is
how an empty file says it has none. -/
def chainOf (boot : BootSector) (fat : ℕ → Entry) (first : ℕ) : List ℕ :=
  if first = 0 then [] else Chain.follow (nextLink fat) boot.clusters first

lemma chainOf_zero (boot : BootSector) (fat : ℕ → Entry) : chainOf boot fat 0 = [] := if_pos rfl

namespace IsChain

variable {boot : BootSector} {fat fat' : ℕ → Entry} {first : ℕ} {clusters : List ℕ}

lemma nodup (h : IsChain boot fat first clusters) : clusters.Nodup := h.chain.nodup nextLink_end

lemma length_le (h : IsChain boot fat first clusters) : clusters.length ≤ boot.clusters := by
  have hsub : clusters ⊆ List.range' 2 boot.clusters := by
    intro cluster hmem
    have hin := hasCluster_iff.mp (h.inside cluster hmem)
    rw [List.mem_range'_1]
    exact hin
  simpa using (List.subperm_of_subset h.nodup hsub).length_le

lemma chainOf_eq (h : IsChain boot fat first clusters) : chainOf boot fat first = clusters := by
  have hfirst := hasCluster_iff.mp (h.inside first h.chain.mem_self)
  rw [chainOf, if_neg (by omega)]
  exact h.chain.follow_eq nextLink_end h.length_le

/-- No cluster of a chain is free. -/
lemma not_free (h : IsChain boot fat first clusters) {cluster : ℕ} (hmem : cluster ∈ clusters) :
    fat cluster ≠ .free := by
  rcases h.chain.linked hmem with hend | ⟨next, hnext⟩
  · rw [hend]
    nofun
  · rw [nextLink_eq_some.mp hnext]
    nofun

/-- A chain depends on the entries of its own clusters. -/
lemma congr (h : IsChain boot fat first clusters)
    (hsame : ∀ cluster ∈ clusters, fat' cluster = fat cluster) :
    IsChain boot fat' first clusters := by
  refine ⟨h.chain.congr (fun cluster hmem => ?_) fun cluster hmem hend => ?_, h.inside⟩
  · rw [nextLink, nextLink, hsame cluster hmem]
  · rw [hsame cluster hmem, hend]

end IsChain

/-- Clusters of a volume that follow one another from a first one on, wherever that goes. -/
inductive IsPath (boot : BootSector) (fat : ℕ → Entry) : ℕ → List ℕ → Prop
  | single {cluster : ℕ} (h : boot.hasCluster cluster = true) : IsPath boot fat cluster [cluster]
  | cons {cluster next : ℕ} {clusters : List ℕ} (h : boot.hasCluster cluster = true)
      (hnext : nextLink fat cluster = some next) (hrest : IsPath boot fat next clusters) :
      IsPath boot fat cluster (cluster :: clusters)

lemma IsChain.isPath {boot : BootSector} {fat : ℕ → Entry} {first : ℕ} {clusters : List ℕ}
    (h : IsChain boot fat first clusters) : IsPath boot fat first clusters := by
  obtain ⟨hchain, hinside⟩ := h
  induction hchain with
  | single => exact .single (hinside _ List.mem_cons_self)
  | cons hnext _ ih =>
      exact .cons (hinside _ List.mem_cons_self) hnext
        (ih fun cluster hmem => hinside cluster (List.mem_cons_of_mem _ hmem))

lemma IsPath.length_pos {boot : BootSector} {fat : ℕ → Entry} {first : ℕ} {clusters : List ℕ}
    (h : IsPath boot fat first clusters) : 0 < clusters.length := by
  cases h <;> simp

/-! ### Walking a directory -/

section Walk

variable {boot : BootSector} {dev : Device}

lemma readSector_returns {ε : Type} (sector : ℕ) :
    Returns (readSector sector : Eff Device ε Sector) dev (dev.disk sector) := rfl

lemma nextCluster_returns {cluster : ℕ} (h : boot.hasCluster cluster = true) :
    Returns (nextCluster boot cluster) dev (entryOf boot dev.disk cluster) := by
  rw [nextCluster, if_pos h, entryOf, wordOf, tableSector, Nat.zero_mul, Nat.add_zero]
  exact (readSector_returns _).bind .pure

/-- The places of a sector's slots. -/
def slotsOf (sector : ℕ) : List Place := (List.finRange 16).map fun index => (sector, index)

/-- The places of a directory's slots, along its clusters. -/
def placesOf (boot : BootSector) (clusters : List ℕ) : List Place :=
  clusters.flatMap fun cluster =>
    (List.range boot.sectorsPerCluster).flatMap fun offset =>
      slotsOf (dataSector boot cluster offset)

/-- The bytes of the slot at a place. -/
def slotOf (disk : Disk) (place : Place) : SlotBytes := slotAt (disk place.1) place.2

section Scan

variable {σ β : Type} (visit : σ → Place → SlotBytes → Except β σ)

/-- Visiting the slots at some places. -/
def scan (disk : Disk) (places : List Place) (s : σ) : Except β σ :=
  places.foldlM (fun s place => visit s place (slotOf disk place)) s

lemma scan_append (disk : Disk) (places places' : List Place) (s : σ) :
    scan visit disk (places ++ places') s
      = match scan visit disk places s with
        | .ok s => scan visit disk places' s
        | .error b => .error b := by
  rw [scan, List.foldlM_append, scan]
  cases List.foldlM (fun s place => visit s place (slotOf disk place)) s places <;> rfl

lemma visitSlots_eq (sector : ℕ) (s : σ) :
    visitSlots visit sector (dev.disk sector) s = scan visit dev.disk (slotsOf sector) s := by
  rw [visitSlots, scan, slotsOf, List.foldlM_map]
  rfl

lemma visitSectors_returns (sectors : List ℕ) (s : σ) :
    Returns (visitSectors visit sectors s) dev
      (scan visit dev.disk (sectors.flatMap slotsOf) s) := by
  induction sectors generalizing s with
  | nil => exact .pure
  | cons sector rest ih =>
      refine (readSector_returns sector).bind ?_
      rw [List.flatMap_cons, scan_append, visitSlots_eq]
      cases scan visit dev.disk (slotsOf sector) s with
      | error b => exact .pure
      | ok s => exact ih s

lemma visitCluster_returns {cluster : ℕ} (h : boot.hasCluster cluster = true) (s : σ) :
    Returns (visitCluster boot visit cluster s) dev
      (scan visit dev.disk (placesOf boot [cluster]) s) := by
  have hsectors : ((List.range boot.sectorsPerCluster).map
      (dataSector boot cluster 0 + ·)).flatMap slotsOf
      = placesOf boot [cluster] := by
    rw [List.flatMap_map, placesOf, List.flatMap_singleton]
    rfl
  rw [visitCluster, sectorOfCluster_eq h, ← hsectors]
  exact visitSectors_returns visit _ s

/-- Walking a directory along a whole chain visits its slots, in order, and gets to the end. -/
lemma walkRoot_returns {first : ℕ} {clusters : List ℕ}
    (h : IsChain boot (entryOf boot dev.disk) first clusters) {left : ℕ}
    (hleft : clusters.length ≤ left) (s : σ) :
    ∃ last, Returns (walkRoot boot visit left first s) dev
      ((scan visit dev.disk (placesOf boot clusters) s).map fun s => (s, last, .end')) := by
  obtain ⟨hchain, hinside⟩ := h
  induction hchain generalizing left s with
  | @single cluster hend =>
      have hcluster := hinside cluster (List.mem_singleton_self _)
      obtain _ | left := left
      · simp at hleft
      · refine ⟨cluster, ?_⟩
        rw [walkRoot]
        refine (visitCluster_returns visit hcluster s).bind ?_
        cases scan visit dev.disk (placesOf boot [cluster]) s with
        | error b => exact .pure
        | ok s =>
            refine (nextCluster_returns hcluster).bind ?_
            rw [hend]
            exact .pure
  | @cons cluster next rest hnext _ ih =>
      have hcluster := hinside cluster List.mem_cons_self
      obtain _ | left := left
      · simp at hleft
      · have happend : placesOf boot (cluster :: rest)
            = placesOf boot [cluster] ++ placesOf boot rest := by
          simp [placesOf]
        rw [happend, scan_append]
        rcases hscan : scan visit dev.disk (placesOf boot [cluster]) s with b | s'
        · refine ⟨cluster, ?_⟩
          rw [walkRoot]
          refine (visitCluster_returns visit hcluster s).bind ?_
          rw [hscan]
          exact .pure
        · obtain ⟨last, hrest⟩ := ih (Nat.le_of_succ_le_succ hleft) s'
            fun c hc => hinside c (List.mem_cons_of_mem _ hc)
          refine ⟨last, ?_⟩
          rw [walkRoot]
          refine (visitCluster_returns visit hcluster s).bind ?_
          rw [hscan]
          refine (nextCluster_returns hcluster).bind ?_
          rw [nextLink_eq_some.mp hnext]
          exact hrest

end Scan

/-! ### The entries of a directory -/

/-- What a slot in use says. -/
def slotEntry (bytes : SlotBytes) : DirectoryEntry :=
  ⟨slotName bytes, bytes 11, 2 ^ 16 * le16 (bytes 20) (bytes 21) + le16 (bytes 26) (bytes 27),
    le32 (bytes 28) (bytes 29) (bytes 30) (bytes 31)⟩

lemma eq_slotEntry {bytes : SlotBytes} {entry : DirectoryEntry}
    (h : decodeSlot bytes = .entry entry) :
    entry = slotEntry bytes := by
  rw [decodeSlot] at h
  split_ifs at h
  exact (Slot.entry.inj h).symm

/-- The slots of a directory that are in use, up to where it ends. -/
def entriesOf : List SlotBytes → List SlotBytes
  | [] => []
  | bytes :: rest =>
      match decodeSlot bytes with
      | .end' => []
      | .skip => entriesOf rest
      | .entry _ => bytes :: entriesOf rest

/-- The slots of the root directory. -/
def rootSlots (boot : BootSector) (disk : Disk) : List SlotBytes :=
  (placesOf boot (chainOf boot (entryOf boot disk) boot.rootCluster)).map (slotOf disk)

/-- The slots of the root directory that are in use. -/
def rootEntries (boot : BootSector) (disk : Disk) : List SlotBytes :=
  entriesOf (rootSlots boot disk)

section Fold

variable {σ : Type} (each : σ → DirectoryEntry → σ × Bool)

/-- Handing entries to `each` until it says to stop. -/
def foldEntries : σ → List DirectoryEntry → σ
  | s, [] => s
  | s, entry :: rest =>
      if (each s entry).2 then foldEntries (each s entry).1 rest else (each s entry).1

/-- Reading the root directory hands over the entries in use. -/
theorem readRoot_returns {clusters : List ℕ}
    (h : IsChain boot (entryOf boot dev.disk) boot.rootCluster clusters) (init : σ) :
    Returns (readRoot boot each init) dev
      (foldEntries each init ((rootEntries boot dev.disk).map slotEntry)) := by
  let visit : σ → Place → SlotBytes → Except σ σ := fun s _ bytes =>
    match decodeSlot bytes with
    | .end' => .error s
    | .skip => .ok s
    | .entry entry => if (each s entry).2 then .ok (each s entry).1 else .error (each s entry).1
  -- whether or not it stopped early, what a scan ends with is what the fold does
  have hscan : ∀ places s, (match scan visit dev.disk places s with
      | .ok s' => s'
      | .error s' => s')
        = foldEntries each s ((entriesOf (places.map (slotOf dev.disk))).map slotEntry) := by
    intro places
    induction places with
    | nil => exact fun s => rfl
    | cons place rest ih =>
        intro s
        rw [← List.singleton_append, scan_append, List.singleton_append, List.map_cons, entriesOf]
        have hone : scan visit dev.disk [place] s = visit s place (slotOf dev.disk place) := by
          rw [scan, List.foldlM_cons]
          cases visit s place (slotOf dev.disk place) <;> rfl
        rw [hone]
        simp only [visit]
        rcases hslot : decodeSlot (slotOf dev.disk place) with entry | _ | _
        · obtain rfl := eq_slotEntry hslot
          rw [List.map_cons, foldEntries]
          dsimp only
          by_cases hon : (each s (slotEntry (slotOf dev.disk place))).2 = true
          · rw [if_pos hon, if_pos hon]
            exact ih _
          · rw [if_neg hon, if_neg hon]
        · exact ih s
        · rfl
  obtain ⟨last, hwalk⟩ := walkRoot_returns visit h h.length_le init
  rw [readRoot]
  refine hwalk.bind ?_
  have hroot := hscan (placesOf boot clusters) init
  rw [rootEntries, rootSlots, h.chainOf_eq, ← hroot]
  cases scan visit dev.disk (placesOf boot clusters) init <;> exact .pure

end Fold

/-- The entries of the root directory, as `read_root` hands them over. -/
def list (boot : BootSector) : Reading (List DirectoryEntry) :=
  readRoot boot (fun seen entry => (seen ++ [entry], true)) []

lemma list_returns {clusters : List ℕ}
    (h : IsChain boot (entryOf boot dev.disk) boot.rootCluster clusters) :
    Returns (list boot) dev ((rootEntries boot dev.disk).map slotEntry) := by
  have hfold : ∀ (entries seen : List DirectoryEntry),
      foldEntries (fun seen entry => (seen ++ [entry], true)) seen entries = seen ++ entries := by
    intro entries
    induction entries with
    | nil => intro seen; rw [foldEntries, List.append_nil]
    | cons entry rest ih =>
        intro seen
        rw [foldEntries, if_pos rfl, ih, List.append_assoc, List.singleton_append]
  have hroot := readRoot_returns (fun seen entry => (seen ++ [entry], true)) h []
  rwa [hfold, List.nil_append] at hroot

lemma find_returns {clusters : List ℕ}
    (h : IsChain boot (entryOf boot dev.disk) boot.rootCluster clusters) (name : List UInt8) :
    Returns (find boot name) dev
      (((rootEntries boot dev.disk).map slotEntry).find? (·.isNamed name)) := by
  have hfold : ∀ entries : List DirectoryEntry,
      foldEntries (fun found entry => if entry.isNamed name then (some entry, false)
        else (found, true))
        none entries = entries.find? (·.isNamed name) := by
    intro entries
    induction entries with
    | nil => rfl
    | cons entry rest ih =>
        rw [foldEntries, List.find?_cons]
        cases hnamed : entry.isNamed name with
        | true => simp
        | false => simpa using ih
  rw [← hfold]
  exact readRoot_returns _ h none

/-! ### Reading a file -/

/-- The bytes of some sectors. -/
def sectorsData (disk : Disk) (sectors : List ℕ) : List UInt8 :=
  sectors.flatMap fun sector => List.ofFn (disk sector)

lemma sectorsData_cluster (disk : Disk) (cluster : ℕ) :
    sectorsData disk ((List.range boot.sectorsPerCluster).map (dataSector boot cluster 0 + ·))
      = clusterData boot disk cluster := by
  rw [sectorsData, List.flatMap_map, clusterData]
  rfl

lemma length_sectorsData (disk : Disk) (sectors : List ℕ) :
    (sectorsData disk sectors).length = 512 * sectors.length := by
  induction sectors with
  | nil => rfl
  | cons sector rest ih =>
      rw [sectorsData, List.flatMap_cons, List.length_append, List.length_ofFn, List.length_cons,
        ← sectorsData, ih]
      omega

lemma length_clusterData (disk : Disk) (cluster : ℕ) :
    (clusterData boot disk cluster).length = 512 * boot.sectorsPerCluster := by
  rw [← sectorsData_cluster, length_sectorsData, List.length_map, List.length_range]

/-- The bytes of the clusters of a chain. -/
def chainData (boot : BootSector) (disk : Disk) (clusters : List ℕ) : List UInt8 :=
  clusters.flatMap (clusterData boot disk)

lemma chainData_cons (disk : Disk) (cluster : ℕ) (rest : List ℕ) :
    chainData boot disk (cluster :: rest)
      = clusterData boot disk cluster ++ chainData boot disk rest :=
  List.flatMap_cons

lemma readSectors_returns {size : ℕ} (sectors : List ℕ) {read : List UInt8}
    (h : read.length ≤ size) :
    Returns (readSectors size sectors read) dev
      ((read ++ sectorsData dev.disk sectors).take size) := by
  induction sectors generalizing read with
  | nil =>
      rw [readSectors, sectorsData, List.flatMap_nil, List.append_nil, List.take_of_length_le h]
      exact .pure
  | cons sector rest ih =>
      rw [readSectors]
      split
      next hfull =>
        rw [List.take_append_of_le_length (by omega), List.take_of_length_le h]
        exact .pure
      next hmore =>
        refine (readSector_returns sector).bind ?_
        have hcut : read ++ (List.ofFn (dev.disk sector)).take (size - read.length)
            = (read ++ List.ofFn (dev.disk sector)).take size := by
          rw [List.take_append, List.take_of_length_le h]
        have hrest := @ih ((read ++ List.ofFn (dev.disk sector)).take size)
          (List.length_take_le _ _)
        rw [take_append_take, List.append_assoc] at hrest
        rw [hcut]
        exact hrest

lemma nextOfFile_returns {cluster next : ℕ} (hcluster : boot.hasCluster cluster = true)
    (hnext : nextLink (entryOf boot dev.disk) cluster = some next) :
    Returns (nextOfFile boot cluster) dev next := by
  rw [nextOfFile]
  refine (nextCluster_returns hcluster).bind ?_
  rw [nextLink_eq_some.mp hnext]
  exact .pure

lemma readFileFrom_returns {cluster size left : ℕ} {clusters : List ℕ} {read : List UInt8}
    (h : IsPath boot (entryOf boot dev.disk) cluster clusters) (hread : read.length ≤ size)
    (hsize : size ≤ read.length + clusters.length * (512 * boot.sectorsPerCluster))
    (hleft : clusters.length ≤ left + 1) :
    Returns (readFileFrom boot size left cluster read) dev
      ((read ++ chainData boot dev.disk clusters).take size) := by
  induction h generalizing left read with
  | @single cluster hcluster =>
      have hdata : chainData boot dev.disk [cluster] = clusterData boot dev.disk cluster :=
        List.flatMap_singleton _ _
      rw [readFileFrom, hdata]
      split
      next hmore =>
        rw [sectorOfCluster_eq hcluster]
        refine (readSectors_returns _ hread).bind ?_
        rw [sectorsData_cluster, if_pos]
        · exact .pure
        · rw [List.length_take, List.length_append, length_clusterData]
          simp only [List.length_singleton] at hsize
          omega
      -- what was read before is all that is wanted
      next hfull =>
        rw [List.take_append_of_le_length (by omega), List.take_of_length_le hread]
        exact .pure
  | @cons cluster next rest hcluster hnext hrest ih =>
      rw [readFileFrom, chainData_cons, ← List.append_assoc]
      split
      next hmore =>
        rw [sectorOfCluster_eq hcluster]
        refine (readSectors_returns _ hread).bind ?_
        rw [sectorsData_cluster]
        have hlength : (read ++ clusterData boot dev.disk cluster).length
            = read.length + 512 * boot.sectorsPerCluster := by
          rw [List.length_append, length_clusterData]
        rw [List.length_cons, Nat.succ_mul] at hsize
        split
        next hfull =>
          rw [List.length_take] at hfull
          have hle : size ≤ (read ++ clusterData boot dev.disk cluster).length := by omega
          rw [List.take_append_of_le_length hle]
          exact .pure
        next hmore =>
          rw [List.length_take] at hmore
          obtain _ | left := left
          · have hpos := hrest.length_pos
            simp only [List.length_cons] at hleft
            omega
          · rw [List.take_of_length_le (by omega)]
            exact (nextOfFile_returns hcluster hnext).bind (ih (by omega) (by omega)
              (Nat.le_of_succ_le_succ hleft))
      next hfull =>
        rw [List.append_assoc, List.take_append_of_le_length (by omega),
          List.take_of_length_le hread]
        exact .pure

/-- A file whose chain is whole, and as long as its size says. -/
structure IsFile (boot : BootSector) (fat : ℕ → Entry) (entry : DirectoryEntry) : Prop where
  chain : entry.firstCluster ≠ 0 →
    IsChain boot fat entry.firstCluster (chainOf boot fat entry.firstCluster)
  size : entry.size ≤ (chainOf boot fat entry.firstCluster).length * boot.clusterBytes

/-- An empty chain is that of no bytes. -/
lemma IsFile.size_eq_zero {fat : ℕ → Entry} {entry : DirectoryEntry} (h : IsFile boot fat entry)
    (hfirst : entry.firstCluster = 0) : entry.size = 0 := by
  have hsize := h.size
  rw [hfirst, chainOf_zero, List.length_nil, Nat.zero_mul] at hsize
  omega

/-- The bytes of a file. -/
def fileBytes (boot : BootSector) (disk : Disk) (entry : DirectoryEntry) : List UInt8 :=
  (chainData boot disk (chainOf boot (entryOf boot disk) entry.firstCluster)).take entry.size

/-- Reading a file whose clusters go as far as its size says. -/
lemma readFile_path {entry : DirectoryEntry} {room : ℕ} {clusters : List ℕ}
    (h : IsPath boot (entryOf boot dev.disk) entry.firstCluster clusters)
    (hsize : entry.size ≤ clusters.length * (512 * boot.sectorsPerCluster))
    (hlength : clusters.length ≤ boot.clusters + 1) (hroom : entry.size ≤ room) :
    Returns (readFile boot entry room) dev
      ((chainData boot dev.disk clusters).take entry.size) := by
  rw [readFile, if_neg (by omega)]
  have hread := @readFileFrom_returns _ _ _ entry.size _ _ [] h (Nat.zero_le _)
    (by rwa [List.length_nil, Nat.zero_add]) hlength
  rwa [List.nil_append] at hread

theorem readFile_returns (hboot : boot.WellFormed) {entry : DirectoryEntry} {room : ℕ}
    (h : IsFile boot (entryOf boot dev.disk) entry) (hroom : entry.size ≤ room) :
    Returns (readFile boot entry room) dev (fileBytes boot dev.disk entry) := by
  by_cases hfirst : entry.firstCluster = 0
  · rw [readFile, if_neg (by omega), fileBytes, h.size_eq_zero hfirst, List.take_zero,
      readFileFrom, if_neg (by simp)]
    exact .pure
  · have hchain := h.chain hfirst
    have hsize := h.size
    rw [clusterBytes_eq hboot] at hsize
    exact readFile_path hchain.isPath hsize (hchain.length_le.trans (Nat.le_succ _)) hroom

/-! ### Reading part of a file -/

lemma skipClusters_returns {first left steps : ℕ} {clusters : List ℕ}
    (h : IsPath boot (entryOf boot dev.disk) first clusters) (hsteps : steps < clusters.length)
    (hleft : clusters.length ≤ left + 1) :
    ∃ cluster, Returns (skipClusters boot steps left first) dev (left - steps, cluster)
      ∧ IsPath boot (entryOf boot dev.disk) cluster (clusters.drop steps) := by
  induction steps generalizing first left clusters with
  | zero => exact ⟨first, .pure, h⟩
  | succ steps ih =>
      cases h with
      | single => simp at hsteps
      | @cons _ next rest hcluster hnext hrest =>
          obtain _ | left := left
          · have hpos := hrest.length_pos
            simp only [List.length_cons] at hleft
            omega
          · obtain ⟨cluster, hskip, hdrop⟩ := ih hrest (Nat.lt_of_succ_lt_succ hsteps)
              (Nat.le_of_succ_le_succ hleft)
            refine ⟨cluster, ?_, hdrop⟩
            rw [skipClusters, Nat.succ_sub_succ]
            exact (nextOfFile_returns hcluster hnext).bind hskip

lemma readSectorsAt_returns {want : ℕ} (sectors : List ℕ) {within : ℕ} {read : List UInt8}
    (hwithin : within ≤ 512) (h : read.length ≤ want) :
    Returns (readSectorsAt want sectors within read) dev
      ((read ++ (sectorsData dev.disk sectors).drop within).take want) := by
  induction sectors generalizing within read with
  | nil =>
      rw [readSectorsAt, sectorsData, List.flatMap_nil, List.drop_nil, List.append_nil,
        List.take_of_length_le h]
      exact .pure
  | cons sector rest ih =>
      rw [readSectorsAt]
      split
      next hmore =>
        refine (readSector_returns sector).bind ?_
        have hcut : read ++ ((List.ofFn (dev.disk sector)).drop within).take (want - read.length)
            = (read ++ (List.ofFn (dev.disk sector)).drop within).take want := by
          rw [List.take_append, List.take_of_length_le h]
        have hdrop : (sectorsData dev.disk (sector :: rest)).drop within
            = (List.ofFn (dev.disk sector)).drop within ++ sectorsData dev.disk rest := by
          rw [sectorsData, List.flatMap_cons,
            List.drop_append_of_le_length (by rwa [List.length_ofFn]), sectorsData]
        have hrest := @ih 0 ((read ++ (List.ofFn (dev.disk sector)).drop within).take want)
          (Nat.zero_le _) (List.length_take_le _ _)
        rw [take_append_take, List.drop_zero, List.append_assoc] at hrest
        rw [hcut, hdrop]
        exact hrest
      next hfull =>
        rw [List.take_append_of_le_length (by omega), List.take_of_length_le h]
        exact .pure

/-- Dropping pieces of one length drops as many times that length. -/
lemma flatMap_drop {α : Type} {f : α → List UInt8} {length : ℕ} (hf : ∀ a, (f a).length = length)
    (pieces : List α) (n : ℕ) :
    (pieces.drop n).flatMap f = (pieces.flatMap f).drop (n * length) := by
  induction n generalizing pieces with
  | zero => rw [Nat.zero_mul, List.drop_zero, List.drop_zero]
  | succ n ih =>
      cases pieces with
      | nil => rw [List.drop_nil, List.flatMap_nil, List.drop_nil]
      | cons piece rest =>
          have hpast : (f piece).drop ((n + 1) * length) = [] := by
            refine List.drop_of_length_le ?_
            rw [hf, Nat.succ_mul]
            exact Nat.le_add_left _ _
          rw [List.drop_succ_cons, ih, List.flatMap_cons, List.drop_append, hpast, hf,
            Nat.succ_mul, List.nil_append, Nat.add_sub_cancel]

/-- The sectors of a cluster from `inside` on hold its bytes from there on. -/
lemma sectorsData_inside (disk : Disk) (cluster inside : ℕ) :
    (sectorsData disk (((List.range boot.sectorsPerCluster).drop (inside / sectorBytes)).map
      (dataSector boot cluster 0 + ·))).drop (inside % sectorBytes)
      = (clusterData boot disk cluster).drop inside := by
  rw [List.map_drop, sectorsData, flatMap_drop (fun _ => List.length_ofFn), ← sectorsData,
    sectorsData_cluster, List.drop_drop, sectorBytes, Nat.mul_comm, Nat.div_add_mod]

lemma readAtFrom_returns {cluster want left inside : ℕ} {clusters : List ℕ} {read : List UInt8}
    (h : IsPath boot (entryOf boot dev.disk) cluster clusters) (hread : read.length ≤ want)
    (hinside : inside ≤ 512 * boot.sectorsPerCluster)
    (hwant : want + inside ≤ read.length + clusters.length * (512 * boot.sectorsPerCluster))
    (hleft : clusters.length ≤ left + 1) :
    Returns (readAtFrom boot want left cluster inside read) dev
      ((read ++ (chainData boot dev.disk clusters).drop inside).take want) := by
  have hmod : ∀ inside, inside % sectorBytes ≤ 512 := fun _ => (Nat.mod_lt _ (by decide)).le
  induction h generalizing left read inside with
  -- the last cluster: what is wanted ends in it
  | @single cluster hcluster =>
      have hdata : chainData boot dev.disk [cluster] = clusterData boot dev.disk cluster :=
        List.flatMap_singleton _ _
      rw [readAtFrom, hdata]
      split
      next hmore =>
        rw [sectorOfCluster_eq hcluster]
        refine (readSectorsAt_returns _ (hmod inside) hread).bind ?_
        rw [sectorsData_inside, if_pos]
        · exact .pure
        · rw [List.length_take, List.length_append, List.length_drop, length_clusterData]
          simp only [List.length_singleton] at hwant
          omega
      next hfull =>
        rw [List.take_append_of_le_length (by omega), List.take_of_length_le hread]
        exact .pure
  | @cons cluster next rest hcluster hnext hrest ih =>
      have hlength := @length_clusterData boot dev.disk cluster
      rw [readAtFrom, chainData_cons, List.drop_append_of_le_length (by omega),
        ← List.append_assoc]
      split
      next hmore =>
        rw [sectorOfCluster_eq hcluster]
        refine (readSectorsAt_returns _ (hmod inside) hread).bind ?_
        rw [sectorsData_inside]
        have hfirst : (read ++ (clusterData boot dev.disk cluster).drop inside).length
            = read.length + (512 * boot.sectorsPerCluster - inside) := by
          rw [List.length_append, List.length_drop, hlength]
        rw [List.length_cons, Nat.succ_mul] at hwant
        split
        next hfull =>
          rw [List.length_take] at hfull
          have hle : want ≤ (read ++ (clusterData boot dev.disk cluster).drop inside).length := by
            omega
          rw [List.take_append_of_le_length hle]
          exact .pure
        next hmore =>
          rw [List.length_take] at hmore
          -- the next cluster, read from its start
          obtain _ | left := left
          · have hpos := hrest.length_pos
            simp only [List.length_cons] at hleft
            omega
          · rw [List.take_of_length_le (by omega)]
            refine (nextOfFile_returns hcluster hnext).bind ?_
            have hrest := @ih left 0
              (read ++ (clusterData boot dev.disk cluster).drop inside) (by omega)
              (Nat.zero_le _) (by omega) (Nat.le_of_succ_le_succ hleft)
            rwa [List.drop_zero] at hrest
      next hfull =>
        rw [List.append_assoc, List.take_append_of_le_length (by omega),
          List.take_of_length_le hread]
        exact .pure

/-- Reading part of a file whose clusters go as far as its size says. -/
lemma readAt_path (hboot : boot.WellFormed) {entry : DirectoryEntry} {clusters : List ℕ}
    (h : IsPath boot (entryOf boot dev.disk) entry.firstCluster clusters)
    (hsize : entry.size ≤ clusters.length * (512 * boot.sectorsPerCluster))
    (hlength : clusters.length ≤ boot.clusters + 1) (offset room : ℕ) :
    Returns (readAt boot entry offset room) dev
      ((((chainData boot dev.disk clusters).take entry.size).drop offset).take room) := by
  rw [readAt, List.drop_take, List.take_take, Nat.min_comm room]
  split
  next hpast =>
    rw [Nat.sub_eq_zero_of_le hpast, Nat.zero_min, List.take_zero]
    exact .pure
  next hbefore =>
    dsimp only
    split
    next hnone =>
      rw [hnone, List.take_zero]
      exact .pure
    next hsome =>
      have hspc := hboot.sectorsPerCluster
      have hper : boot.sectorsPerCluster * sectorBytes = 512 * boot.sectorsPerCluster := by
        rw [sectorBytes, Nat.mul_comm]
      rw [hper]
      generalize hcb : 512 * boot.sectorsPerCluster = perCluster at *
      have hpos : 0 < perCluster := by omega
      have hsplit := Nat.div_add_mod offset perCluster
      have hin : offset % perCluster < perCluster := Nat.mod_lt _ hpos
      have hsteps : offset / perCluster < clusters.length := by
        rw [Nat.div_lt_iff_lt_mul hpos]
        omega
      obtain ⟨cluster, hskip, hdrop⟩ := skipClusters_returns h hsteps hlength
      refine hskip.bind ?_
      have hsub : clusters.length * perCluster
          = (clusters.length - offset / perCluster) * perCluster + perCluster
            * (offset / perCluster) := by
        rw [Nat.mul_comm perCluster, ← Nat.add_mul, Nat.sub_add_cancel hsteps.le]
      have hread := @readAtFrom_returns _ _ _ (min (entry.size - offset) room)
        (boot.clusters - offset / perCluster) (offset % perCluster) _ [] hdrop
        (Nat.zero_le _) (by omega)
        (by rw [List.length_nil, List.length_drop, hcb]; omega) (by rw [List.length_drop]; omega)
      rw [List.nil_append, chainData, flatMap_drop (length_clusterData dev.disk), hcb,
        List.drop_drop, Nat.mul_comm, hsplit] at hread
      exact hread

theorem readAt_returns (hboot : boot.WellFormed) {entry : DirectoryEntry} {offset room : ℕ}
    (h : IsFile boot (entryOf boot dev.disk) entry) :
    Returns (readAt boot entry offset room) dev
      (((fileBytes boot dev.disk entry).drop offset).take room) := by
  by_cases hfirst : entry.firstCluster = 0
  · have hsize := h.size_eq_zero hfirst
    rw [readAt, if_pos (by omega), fileBytes, hsize, List.take_zero, List.drop_nil, List.take_nil]
    exact .pure
  · have hchain := h.chain hfirst
    have hsize := h.size
    rw [clusterBytes_eq hboot] at hsize
    exact readAt_path hboot hchain.isPath hsize
      (hchain.length_le.trans (Nat.le_succ _)) offset room

end Walk

end Harlan.Fat
