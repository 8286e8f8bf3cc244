import Mathlib.Tactic
import Harlan.Lib.Eff
import Harlan.Fat.Format

/-!
Reading and writing a FAT32 volume (`hal/src/fat.rs`, `Volume`).

A `Device` is the disk, and how many more writes to it take effect: with none left, a write
fails and leaves the disk alone, as one made after the power went would. Reading changes
nothing.

The loops of the source that follow a chain stop with `ChainLoops` once they have seen more
clusters than the volume has; here they recurse on how many they may still see. The two that
go through the root directory, `read_root` and `directory_slot`, are `walkRoot` with what each
does at a slot; only what they make of the end of the chain differs.

* `mount`, `readRoot`, `find`, `readFile`, `readAt`: reading.
* `setNextCluster`, `freeClusters`, `writeClusters`, `directorySlot`, `freeChain`,
  `updateFsInfo`, `writeFile`: writing.
-/

namespace Harlan.Fat

/-! ### The device -/

/-- What the sectors hold. -/
abbrev Disk := ℕ → Sector

/-- A disk whose writes take effect up to a point. -/
structure Device where
  disk : Disk
  /-- How many more writes take effect. -/
  left : ℕ

/-- Why a reading ended. -/
inductive VolumeError where
  | badCluster (cluster : ℕ)
  | brokenChain (cluster : ℕ) (entry : Entry)
  | chainLoops
  | tooBig (size : ℕ)
deriving DecidableEq

/-- Why a write ended. -/
inductive WriteError where
  | reading (err : VolumeError)
  | device
  | badName
  | tooManyClusters (needed : ℕ)
  | full (needed free : ℕ)
  | directoryFull
  | isADirectory
deriving DecidableEq

/-- Reading the volume. -/
abbrev Reading (α : Type) := Eff Device VolumeError α

/-- Writing to it, which may also go wrong as reading does. -/
abbrev Writing (α : Type) := Eff Device WriteError α

/-- A reading in the midst of writing. -/
def reading {α : Type} (x : Reading α) : Writing α := Eff.mapError WriteError.reading x

/-- One sector, read. -/
def readSector {ε : Type} (sector : ℕ) : Eff Device ε Sector :=
  Eff.step fun device => (device.disk sector, device)

/-- One sector, written, or refused once the device takes no more. -/
def writeSector (sector : ℕ) (bytes : Sector) : Writing Unit :=
  Eff.run fun device =>
    match device.left with
    | 0 => (.error .device, device)
    | left + 1 => (.ok (), ⟨Function.update device.disk sector bytes, left⟩)

/-! ### Fields of a sector -/

/-- A byte of a sector. -/
def byteAt (bytes : Sector) (i : ℕ) : UInt8 := if h : i < 512 then bytes ⟨i, h⟩ else 0

/-- The thirty-two-bit word at an offset. -/
def wordAt (bytes : Sector) (offset : ℕ) : ℕ :=
  le32 (byteAt bytes offset) (byteAt bytes (offset + 1)) (byteAt bytes (offset + 2))
    (byteAt bytes (offset + 3))

/-- The same sector with another word at an offset. -/
def putWord (bytes : Sector) (offset value : ℕ) : Sector := fun i =>
  if offset ≤ i.val ∧ i.val < offset + 4 then leByte value (i - offset) else bytes i

/-- One of the sixteen slots of a sector of a directory. -/
def slotAt (bytes : Sector) (index : Fin 16) : SlotBytes :=
  fun i => bytes ⟨32 * index + i, by omega⟩

/-- The same sector with another slot. -/
def putSlot (bytes : Sector) (index : Fin 16) (slot : SlotBytes) : Sector := fun i =>
  if i.val / 32 = index then slot ⟨i % 32, Nat.mod_lt _ (by decide)⟩ else bytes i

/-! ### Reading -/

/-- Reads the boot sector and believes none of it. -/
def mount : Eff Device BootSectorError BootSector := do
  match BootSector.parse (← readSector 0) with
  | .error err => Eff.fail err
  | .ok boot => pure boot

variable (boot : BootSector)

/-- How many entries of the table a sector holds. -/
def entriesPerSector : ℕ := boot.bytesPerSector / 4

/-- What the table says follows `cluster`. -/
def nextCluster (cluster : ℕ) : Reading Entry :=
  if boot.hasCluster cluster then do
    let bytes ← readSector (boot.firstFatSector + cluster / entriesPerSector boot)
    pure (Entry.decode (wordAt bytes (cluster % entriesPerSector boot * 4)))
  else Eff.fail (.badCluster cluster)

/-- Where a slot of a directory is: its sector, and which of the sixteen. -/
abbrev Place := ℕ × Fin 16

section Walk

variable {σ β : Type} (visit : σ → Place → SlotBytes → Except β σ)

/-- The slots of one sector, until `visit` stops. -/
def visitSlots (sector : ℕ) (bytes : Sector) (s : σ) : Except β σ :=
  (List.finRange 16).foldlM (fun s index => visit s (sector, index) (slotAt bytes index)) s

/-- The slots of some sectors, each read when it comes to it. -/
def visitSectors : List ℕ → σ → Reading (Except β σ)
  | [], s => pure (.ok s)
  | sector :: rest, s => do
      let bytes ← readSector sector
      match visitSlots visit sector bytes s with
      | .error b => pure (.error b)
      | .ok s => visitSectors rest s

/-- The slots of one cluster. -/
def visitCluster (cluster : ℕ) (s : σ) : Reading (Except β σ) :=
  match boot.sectorOfCluster cluster with
  | none => Eff.fail (.badCluster cluster)
  | some first => visitSectors visit ((List.range boot.sectorsPerCluster).map (first + ·)) s

/-- The slots of a directory, from a cluster on: what `visit` stopped with, or its state at the
end of the chain, with the last cluster and what the table says of it. -/
def walkRoot : ℕ → ℕ → σ → Reading (Except β (σ × ℕ × Entry))
  | left, cluster, s => do
      match ← visitCluster boot visit cluster s with
      | .error b => pure (.error b)
      | .ok s =>
          match left with
          | 0 => Eff.fail .chainLoops
          | left + 1 =>
              match ← nextCluster boot cluster with
              | .next next => walkRoot left next s
              | entry => pure (.ok (s, cluster, entry))

end Walk

/-- Hands every entry of the root directory to `each`, which answers whether to go on. -/
def readRoot {σ : Type} (each : σ → DirectoryEntry → σ × Bool) (init : σ) : Reading σ := do
  let visit : σ → Place → SlotBytes → Except σ σ := fun s _ bytes =>
    match decodeSlot bytes with
    | .end' => .error s
    | .skip => .ok s
    | .entry entry => if (each s entry).2 then .ok (each s entry).1 else .error (each s entry).1
  match ← walkRoot boot visit boot.clusters boot.rootCluster init with
  | .error s => pure s
  | .ok (s, _, .end') => pure s
  | .ok (_, cluster, entry) => Eff.fail (.brokenChain cluster entry)

/-- The entry for `name` in the root directory, if it is there. -/
def find (name : List UInt8) : Reading (Option DirectoryEntry) :=
  readRoot boot (fun found entry => if entry.isNamed name then (some entry, false)
    else (found, true))
    none

/-- The next cluster of a file, which has to have one. -/
def nextOfFile (cluster : ℕ) : Reading ℕ := do
  match ← nextCluster boot cluster with
  | .next next => pure next
  | entry => Eff.fail (.brokenChain cluster entry)

/-- The bytes of some sectors after those read so far, up to `size` of them. -/
def readSectors (size : ℕ) : List ℕ → List UInt8 → Reading (List UInt8)
  | [], read => pure read
  | sector :: rest, read =>
      if read.length = size then pure read
      else do
        let bytes ← readSector sector
        readSectors size rest (read ++ (List.ofFn bytes).take (size - read.length))

/-- The loop of `read_file`, from a cluster on. -/
def readFileFrom (size : ℕ) : ℕ → ℕ → List UInt8 → Reading (List UInt8)
  | left, cluster, read =>
      if read.length < size then
        match boot.sectorOfCluster cluster with
        | none => Eff.fail (.badCluster cluster)
        | some first => do
            let read ← readSectors size ((List.range boot.sectorsPerCluster).map (first + ·)) read
            if read.length = size then pure read
            else
              match left with
              | 0 => Eff.fail .chainLoops
              | left + 1 => do
                  let next ← nextOfFile boot cluster
                  readFileFrom size left next read
      else pure read

/-- A file's bytes, for a caller with room for `room` of them. -/
def readFile (entry : DirectoryEntry) (room : ℕ) : Reading (List UInt8) :=
  if room < entry.size then Eff.fail (.tooBig entry.size)
  else readFileFrom boot entry.size boot.clusters entry.firstCluster []

/-- Steps along a chain, with how many clusters may still be seen after them. -/
def skipClusters : ℕ → ℕ → ℕ → Reading (ℕ × ℕ)
  | 0, left, cluster => pure (left, cluster)
  | _ + 1, 0, _ => Eff.fail .chainLoops
  | steps + 1, left + 1, cluster => do
      let next ← nextOfFile boot cluster
      skipClusters steps left next

/-- The bytes of some sectors, the first from `within` on, up to `want` in all. -/
def readSectorsAt (want : ℕ) : List ℕ → ℕ → List UInt8 → Reading (List UInt8)
  | [], _, read => pure read
  | sector :: rest, within, read =>
      if read.length < want then do
        let bytes ← readSector sector
        readSectorsAt want rest 0
          (read ++ ((List.ofFn bytes).drop within).take (want - read.length))
      else pure read

/-- The loop of `read_at` that copies, from `inside` a cluster on. -/
def readAtFrom (want : ℕ) : ℕ → ℕ → ℕ → List UInt8 → Reading (List UInt8)
  | left, cluster, inside, read =>
      if read.length < want then
        match boot.sectorOfCluster cluster with
        | none => Eff.fail (.badCluster cluster)
        | some first => do
            let sectors := ((List.range boot.sectorsPerCluster).drop (inside / sectorBytes)).map
              (first + ·)
            let read ← readSectorsAt want sectors (inside % sectorBytes) read
            if read.length = want then pure read
            else
              match left with
              | 0 => Eff.fail .chainLoops
              | left + 1 => do
                  let next ← nextOfFile boot cluster
                  readAtFrom want left next 0 read
      else pure read

/-- At most `room` bytes of a file, from `offset` on. -/
def readAt (entry : DirectoryEntry) (offset room : ℕ) : Reading (List UInt8) :=
  if entry.size ≤ offset then pure []
  else
    let want := min (entry.size - offset) room
    if want = 0 then pure []
    else do
      let perCluster := boot.sectorsPerCluster * sectorBytes
      let (left, cluster) ← skipClusters boot
          (offset / perCluster) boot.clusters entry.firstCluster
      readAtFrom boot want left cluster (offset % perCluster) []

/-! ### Writing -/

/-- The most clusters one file may take. -/
def maxFileClusters : ℕ := 64

/-- An entry of the table with another cluster number: the top four bits stay. -/
def mergeEntry (old entry : ℕ) : ℕ := old &&& 0xF0000000 ||| entry &&& entryMask

/-- Writes one entry of the table, in every copy of it. -/
def setNextCluster (cluster entry : ℕ) : Writing Unit :=
  if boot.hasCluster cluster then
    let offset := cluster % entriesPerSector boot * 4
    Eff.forEach (List.range boot.fatCount) fun table => do
      let sector := boot.firstFatSector + table * boot.sectorsPerFat
        + cluster / entriesPerSector boot
      let bytes ← readSector sector
      writeSector sector (putWord bytes offset (mergeEntry (wordAt bytes offset) entry))
  else Eff.fail (.reading (.badCluster cluster))

/-- The loop of `free_clusters`: `left` clusters from `cluster` on are still to be looked at. -/
def freeClustersFrom (count : ℕ) : ℕ → ℕ → List ℕ → Reading (List ℕ)
  | 0, _, found => pure found
  | left + 1, cluster, found =>
      if found.length < count then do
        let entry ← nextCluster boot cluster
        freeClustersFrom count left (cluster + 1)
          (if entry = .free then found ++ [cluster] else found)
      else pure found

/-- Finds `count` free clusters, from the start of the table. -/
def freeClusters (count : ℕ) : Writing (List ℕ) :=
  if maxFileClusters < count then Eff.fail (.tooManyClusters count)
  else do
    let found ← reading (freeClustersFrom boot count boot.clusters firstDataCluster [])
    if found.length < count then Eff.fail (.full count found.length) else pure found

/-- What goes into one sector of a file: its bytes from `start` on, then zeroes. -/
def sectorOf (contents : List UInt8) (start : ℕ) : Sector := fun i => contents.getD (start + i) 0

/-- Writes `contents` into the clusters of `chain`, sector by sector, as far as they go. -/
def writeClusters (chain : List ℕ) (contents : List UInt8) : Writing Unit :=
  Eff.forEach chain.zipIdx fun (cluster, index) =>
    match boot.sectorOfCluster cluster with
    | none => Eff.fail (.reading (.badCluster cluster))
    | some first =>
        Eff.forEach (List.range boot.sectorsPerCluster) fun offset =>
          let start := index * boot.clusterBytes + offset * 512
          if contents.length ≤ start then pure ()
          else writeSector (first + offset) (sectorOf contents start)

/-- What `directory_slot` makes of a slot: it stops at the entry for `name` or at the end of the
directory, and notes the first deleted one on the way. -/
def visitName (name : EncodedName) (free : Option Place) (place : Place) (bytes : SlotBytes) :
    Except (Place × Option DirectoryEntry) (Option Place) :=
  match decodeSlot bytes with
  | .entry entry => if storesName bytes name then .error (place, some entry) else .ok free
  | .skip => .ok (if free.isNone && bytes 0 == entryDeleted then some place else free)
  | .end' => .error (free.getD place, none)

/-- Where the entry for `name` is in the root directory, or where a new one would go. -/
def directorySlot (name : EncodedName) : Writing (Place × Option DirectoryEntry) := do
  match ← reading (walkRoot boot (visitName name) boot.clusters boot.rootCluster none) with
  | .error found => pure found
  | .ok (some place, _) => pure (place, none)
  | .ok (none, _) => Eff.fail .directoryFull

/-- Links the clusters of a chain, from the first on. -/
def linkChain : List ℕ → Writing Unit
  | [] => pure ()
  | cluster :: rest => do
      setNextCluster boot cluster (rest.head?.getD endOfChain)
      linkChain rest

/-- The loop of `free_chain`, from a cluster on. -/
def freeChainFrom (keep : List ℕ) : ℕ → ℕ → Writing Unit
  | left, cluster => do
      let next ← reading (nextCluster boot cluster)
      if next = .free ∨ cluster ∈ keep then pure ()
      else do
        setNextCluster boot cluster 0
        match left with
        | 0 => Eff.fail (.reading .chainLoops)
        | left + 1 =>
            match next with
            | .next next => freeChainFrom keep left next
            | _ => pure ()

/-- Marks the clusters of a chain free, except any that `keep` is using. -/
def freeChain (first : ℕ) (keep : List ℕ) : Writing Unit :=
  freeChainFrom boot keep boot.clusters first

/-- The first signature of the sector with the counts. -/
def fsInfoLead : ℕ := 0x41615252
/-- Its second signature, before the counts. -/
def fsInfoStructure : ℕ := 0x61417272

/-- Counts the free entries of one sector of the table, and notes the first there is. -/
def countFree (sector : ℕ) (bytes : Sector) (state : ℕ × ℕ) : ℕ × ℕ :=
  (List.range 128).foldl (fun (free, firstFree) entry =>
    let cluster := sector * 128 + entry
    if cluster < firstDataCluster ∨ firstDataCluster + boot.clusters - 1 < cluster then
      (free, firstFree)
    else if wordAt bytes (entry * 4) &&& entryMask = 0 then
      (free + 1, if firstFree = 0 then cluster else firstFree)
    else (free, firstFree)) state

/-- The same, over some sectors of the table. -/
def countFreeSectors : List ℕ → ℕ × ℕ → Writing (ℕ × ℕ)
  | [], state => pure state
  | sector :: rest, state => do
      let bytes ← readSector (boot.firstFatSector + sector)
      countFreeSectors rest (countFree boot sector bytes state)

/-- Rewrites the FSInfo sector from what the tables actually say. -/
def updateFsInfo : Writing Unit :=
  if boot.fsInfoSector = 0 ∨ boot.reservedSectors ≤ boot.fsInfoSector then pure ()
  else do
    let bytes ← readSector boot.fsInfoSector
    if wordAt bytes 0 ≠ fsInfoLead ∨ wordAt bytes 484 ≠ fsInfoStructure then pure ()
    else do
      let first := firstDataCluster / 128
      let last := (firstDataCluster + boot.clusters - 1) / 128
      let (free, firstFree) ← countFreeSectors boot (List.range' first (last + 1 - first)) (0, 0)
      writeSector boot.fsInfoSector (putWord (putWord bytes 488 free) 492 firstFree)

/-- Writes a slot of the root directory, in one write of one sector. -/
def putEntry (place : Place) (slot : SlotBytes) : Writing Unit := do
  let bytes ← readSector place.1
  writeSector place.1 (putSlot bytes place.2 slot)

/-- Frees what the file used before, if there was one and it used any. -/
def freeOld (existing : Option DirectoryEntry) (chain : List ℕ) : Writing Unit :=
  match existing with
  | none => pure ()
  | some old => if old.firstCluster = 0 then pure () else freeChain boot old.firstCluster chain

/-- Creates `name` in the root directory with `contents`, or replaces what is there. -/
def writeFile (name contents : List UInt8) : Writing DirectoryEntry :=
  match encodeName name with
  | none => Eff.fail .badName
  | some encoded => do
      let needed := divCeil contents.length boot.clusterBytes
      let (place, existing) ← directorySlot boot encoded
      if existing.any DirectoryEntry.isDirectory then Eff.fail .isADirectory
      else do
        let chain ← freeClusters boot needed
        writeClusters boot chain contents
        linkChain boot chain
        -- and now the entry, which is what makes it a file
        let slot := fileSlot encoded (chain.head?.getD 0) contents.length
        putEntry place slot
        freeOld boot existing chain
        updateFsInfo boot
        match decodeSlot slot with
        | .entry entry => pure entry
        | _ => Eff.fail .badName

end Harlan.Fat
