import Mathlib.Tactic
import Harlan.Fat.Damaged

/-!
Which file a name means, to `find` and to `directory_slot`.

Both walk the root directory the same way, so they differ only in which slots in use they take for
the name.

* `findAt`, `find_eq`: `find`, with the slot it found; `foundAt_iff`: the first in use that
  decodes to the name.
* `OneFile`: the two mean one file, before a write and after it.
* `PlainFirst`, `Writable`, `Apart`, `oneFile_iff`: when they do.
* `linkedDisk_not_oneFile`: a name they do not agree on.
-/

namespace Harlan.Fat

open Eff

/-! ### Finding a name, and where -/

/-- What `find` makes of a slot: it stops at the first entry of the name or at the end of the
directory. -/
def visitFind (name : List UInt8) (_ : Unit) (place : Place) (bytes : SlotBytes) :
    Except (Option (Place × DirectoryEntry)) Unit :=
  match decodeSlot bytes with
  | .end' => .error none
  | .skip => .ok ()
  | .entry entry => if entry.isNamed name then .error (some (place, entry)) else .ok ()

/-- `find`, which also tells the slot of the entry. -/
def findAt (boot : BootSector) (name : List UInt8) :
    Reading (Option (Place × DirectoryEntry)) := do
  match ← walkRoot boot (visitFind name) boot.clusters boot.rootCluster () with
  | .error found => pure found
  | .ok (_, _, .end') => pure none
  | .ok (_, cluster, entry) => Eff.fail (.brokenChain cluster entry)

section Find

variable {boot : BootSector} {disk : Disk} {name : List UInt8}

/-- What the closure of `find` makes of a slot, by way of `read_root`. -/
def visitEach (name : List UInt8) (found : Option DirectoryEntry) (_ : Place)
    (bytes : SlotBytes) :
    Except (Option DirectoryEntry) (Option DirectoryEntry) :=
  match decodeSlot bytes with
  | .end' => .error found
  | .skip => .ok found
  | .entry entry => if entry.isNamed name then .error (some entry) else .ok found

lemma scan_visitEach (places : List Place) :
    scan (visitEach name) disk places none
      = match scan (visitFind name) disk places () with
        | .error found => .error (found.map Prod.snd)
        | .ok _ => .ok none := by
  induction places with
  | nil => rfl
  | cons place rest ih =>
      rw [scan_cons, scan_cons, visitFind, visitEach]
      rcases decodeSlot (slotOf disk place) with entry | _ | _
      · cases hnamed : entry.isNamed name with
        | true => simp [hnamed]
        | false => simpa [hnamed] using ih
      · exact ih
      · rfl

lemma find_visitEach :
    find boot name = walkRoot boot
      (visitEach name) boot.clusters boot.rootCluster none >>= fun stop =>
      match stop with
      | .error found => pure found
      | .ok (found, _, .end') => pure found
      | .ok (_, cluster, entry) => Eff.fail (.brokenChain cluster entry) := by
  rw [find, readRoot]
  refine congrArg₂ Bind.bind
    (congrArg (walkRoot boot · boot.clusters boot.rootCluster none) ?_) ?_
  · funext found place bytes
    rw [visitEach]
    rcases decodeSlot bytes with entry | _ | _
    · cases hnamed : entry.isNamed name <;> simp [hnamed]
    · rfl
    · rfl
  · funext stop
    rcases stop with found | ⟨found, cluster, entry⟩
    · rfl
    · cases entry <;> rfl

/-- It answers the entry `find` does. -/
lemma find_eq (dev : Device) :
    find boot name dev = ((findAt boot name dev).1.map (Option.map Prod.snd), dev) := by
  rw [find_visitEach, findAt, bind_apply, bind_apply, walkRoot_eq, walkRoot_eq, scan_visitEach]
  rcases scan (visitFind name) dev.disk _ () with found | _
  · rfl
  · rcases (pathFrom boot (entryOf boot dev.disk) boot.clusters boot.rootCluster).2
      with err | ⟨cluster, entry⟩
    · rfl
    · cases entry <;> rfl

/-- `find` finds this entry in this slot. -/
def FoundAt (boot : BootSector) (disk : Disk) (name : List UInt8) (place : Place)
    (entry : DirectoryEntry) :
    Prop :=
  ∀ left, (findAt boot name ⟨disk, left⟩).1 = .ok (some (place, entry))

lemma scan_visitFind {places : List Place} {place : Place} {entry : DirectoryEntry} :
    scan (visitFind name) disk places () = .error (some (place, entry))
      ↔ (livePlaces disk places).find? (fun p => (slotEntry (slotOf disk p)).isNamed name)
        = some place
        ∧ entry = slotEntry (slotOf disk place) := by
  induction places with
  | nil => simp [scan, livePlaces, Pure.pure, Except.pure]
  | cons first rest ih =>
      rw [scan_cons, visitFind, livePlaces]
      rcases hslot : decodeSlot (slotOf disk first) with found | _ | _
      · obtain rfl := eq_slotEntry hslot
        dsimp only
        cases hnamed : (slotEntry (slotOf disk first)).isNamed name with
        | true =>
            rw [if_pos rfl, List.find?_cons, hnamed]
            simp only [Except.error.injEq, Prod.mk.injEq, Option.some.injEq]
            constructor
            · rintro ⟨rfl, rfl⟩
              exact ⟨rfl, rfl⟩
            · rintro ⟨rfl, rfl⟩
              exact ⟨rfl, rfl⟩
        | false =>
            rw [if_neg (by decide), List.find?_cons, hnamed]
            exact ih
      · exact ih
      · simp

/-- `find` finds the first slot in use that decodes to the name. -/
lemma findAt_iff {left : ℕ} {place : Place} {entry : DirectoryEntry} :
    (findAt boot name ⟨disk, left⟩).1 = .ok (some (place, entry))
      ↔ (rootLive boot disk).find? (fun p => (slotEntry (slotOf disk p)).isNamed name)
        = some place
        ∧ entry = slotEntry (slotOf disk place) := by
  rw [rootLive, ← scan_visitFind, findAt, bind_apply, walkRoot_eq, rootWalk]
  rcases scan (visitFind name) disk _ () with found | _
  · simp
  · rcases (pathFrom boot (entryOf boot disk) boot.clusters boot.rootCluster).2 with err
      | ⟨cluster, last⟩
    · simp [Except.map]
    · cases last <;> simp [Except.map, fail]

lemma foundAt_iff {place : Place} {entry : DirectoryEntry} :
    FoundAt boot disk name place entry
      ↔ (rootLive boot disk).find? (fun p => (slotEntry (slotOf disk p)).isNamed name)
        = some place
        ∧ entry = slotEntry (slotOf disk place) :=
  ⟨fun h => findAt_iff.mp (h 0), fun h _ => findAt_iff.mpr h⟩

/-- What `find` answers is what a slot of the directory says. -/
lemma find_isSlot {dev : Device} {entry : DirectoryEntry}
    (h : (find boot name dev).1 = .ok (some entry)) :
    ∃ bytes, entry = slotEntry bytes := by
  rw [find_eq] at h
  dsimp only at h
  rcases hfound : (findAt boot name dev).1 with err | _ | ⟨place, entry'⟩
  · rw [hfound] at h
    cases h
  · rw [hfound] at h
    cases h
  · rw [hfound] at h
    obtain rfl : entry' = entry := Option.some.inj (Except.ok.inj h)
    exact ⟨_, (findAt_iff.mp hfound).2⟩

end Find

/-! ### The walk after a write -/

section After

variable {boot : BootSector} {disk disk' : Disk} {name : EncodedName} {place : Place}
  {existing : Option DirectoryEntry}

lemma placesOf_subset {clusters clusters' : List ℕ} (h : clusters ⊆ clusters') :
    placesOf boot clusters ⊆ placesOf boot clusters' := by
  intro p hp
  obtain ⟨cluster, hmem, hp⟩ := List.mem_flatMap.mp hp
  exact List.mem_flatMap.mpr ⟨cluster, h hmem, hp⟩

/-- Every slot of a cluster's sector is a place of a directory that has the cluster. -/
lemma mem_placesOf_slot {clusters : List ℕ} {cluster offset : ℕ} (hcluster : cluster ∈ clusters)
    (hoffset : offset < boot.sectorsPerCluster) (slot : Fin 16) :
    (dataSector boot cluster offset, slot) ∈ placesOf boot clusters :=
  List.mem_flatMap.mpr
    ⟨cluster, hcluster, List.mem_flatMap.mpr ⟨offset, List.mem_range.mpr hoffset,
    List.mem_map.mpr ⟨slot, List.mem_finRange slot, rfl⟩⟩⟩

/-- A walk on whose way a cluster is free now comes no further than that. -/
lemma pathFrom_cut {fat fat' : ℕ → Entry} {left first : ℕ} {clusters : List ℕ}
    (h : clusters <+: (pathFrom boot fat left first).1)
    (hsame : ∀ cluster ∈ clusters.dropLast, fat' cluster = fat cluster ∨ fat' cluster = .free)
    (hcut : ∃ cluster ∈ clusters.dropLast, fat' cluster = .free) :
    (pathFrom boot fat' left first).1 ⊆ clusters.dropLast := by
  induction left generalizing first clusters with
  | zero =>
      -- a walk of one cluster at most has none before its last
      obtain ⟨cluster, hmem, -⟩ := hcut
      have hlength := h.length_le
      rw [pathFrom] at hlength
      rcases clusters with _ | ⟨a, _ | ⟨b, rest⟩⟩
      · cases hmem
      · cases hmem
      · split at hlength <;> simp at hlength
  | succ left ih =>
      rcases clusters with _ | ⟨cluster, _ | ⟨second, rest⟩⟩
      · obtain ⟨_, hmem, -⟩ := hcut
        cases hmem
      · obtain ⟨_, hmem, -⟩ := hcut
        cases hmem
      rw [pathFrom] at h ⊢
      split
      next hfirst =>
        rw [if_pos hfirst] at h
        have hcluster : cluster = first := by
          cases hentry : fat first <;> rw [hentry] at h <;> exact (List.cons_prefix_cons.mp h).1
        subst hcluster
        rw [List.dropLast_cons_of_ne_nil (by simp)] at hsame hcut ⊢
        obtain hkept | hfree := hsame cluster List.mem_cons_self
        · cases hentry : fat cluster with
          | next next =>
              rw [hkept, hentry]
              rw [hentry] at h
              refine List.cons_subset_cons _ (ih (List.cons_prefix_cons.mp h).2
                (fun c hc => hsame c (List.mem_cons_of_mem _ hc)) ?_)
              obtain ⟨c, hmem, hc⟩ := hcut
              obtain rfl | hmem := List.mem_cons.mp hmem
              · rw [hkept, hentry] at hc
                cases hc
              · exact ⟨c, hmem, hc⟩
          | free | reserved | bad | end' =>
              rw [hentry] at h
              have hnil := List.prefix_nil.mp (List.cons_prefix_cons.mp h).2
              cases hnil
        · rw [hfree]
          exact List.cons_subset_cons _ (List.nil_subset _)
      next hfirst =>
        exact List.nil_subset _

/-- No slot before the last cluster `directory_slot` goes through stores the name. -/
lemma passed_walked {clusters : List ℕ} {free : Option Place} :
    Passed name disk (placesOf boot
      (walked (visitName name) boot disk clusters free).dropLast) := by
  induction clusters generalizing free with
  | nil => exact fun _ hmem => by cases hmem
  | cons cluster rest ih =>
      rw [walked]
      have hscan := @scan_visitName name disk (placesOf boot [cluster]) free
      rcases hresult : scan (visitName name) disk
        (placesOf boot [cluster]) free with found | free'
      · exact fun _ hmem => by cases hmem
      · rw [hresult] at hscan
        dsimp only
        have hrest := @ih free'
        rcases hwalked : walked (visitName name) boot disk rest free' with _ | ⟨second, more⟩
        · exact fun _ hmem => by cases hmem
        · rw [hwalked] at hrest
          rw [List.dropLast_cons_of_ne_nil (by simp), placesOf_cons]
          intro p hp
          obtain hp | hp := List.mem_append.mp hp
          · exact hscan.1 p hp
          · exact hrest p hp

end After

section Live

variable {disk disk' : Disk} {places : List Place}

end Live

/-! ### One file -/

/-- `find` and `directory_slot` take the same slot for the name, or neither takes any. -/
def Agree (boot : BootSector) (disk : Disk) (name : List UInt8) (encoded : EncodedName) : Prop :=
  ∀ place entry, FoundAt boot disk name place entry
    ↔ ∀ left, (directorySlot boot encoded ⟨disk, left⟩).1 = .ok (place, some entry)

/-- A name means one file: lookup and replacement agree on its slot, and a file that is written is
found under the name, in the slot `find` saw if there was one, with every other slot
`directory_slot` goes through as it was. -/
structure OneFile (boot : BootSector) (disk : Disk) (name : List UInt8)
    (encoded : EncodedName) : Prop where
  agree : Agree boot disk name encoded
  write : ∀ contents left entry dev, writeFile boot name contents ⟨disk, left⟩
    = (.ok entry, dev) →
    ∃ place, FoundAt boot dev.disk name place entry
      ∧ (∀ place' old, FoundAt boot disk name place' old → place' = place)
      ∧ ∀ place' ∈ placesOf boot (slotWalk boot disk encoded), place' ≠ place →
        slotOf dev.disk place' = slotOf disk place'

/-- The directory has a slot for a new entry: it ends, or it was walked to the end of its chain
and one of its slots was deleted. -/
def HasRoom (boot : BootSector) (disk : Disk) : Prop :=
  (∃ place ∈ placesOf boot (rootWalk boot disk), decodeSlot (slotOf disk place) = .end')
    ∨ (∃ stop, rootStop boot disk = .ok stop)
      ∧ ∃ place ∈ placesOf boot (rootWalk boot disk), deleted disk place = true

/-- The file a name has: what the first slot in use that stores it says. -/
def Stored (boot : BootSector) (disk : Disk) (encoded : EncodedName)
    (old : DirectoryEntry) : Prop :=
  ∃ place, (rootLive boot disk).find? (fun p => storesName (slotOf disk p) encoded) = some place
    ∧ old = slotEntry (slotOf disk place)

/-- A write of the name may answer: the directory has the name or room for it, and the file it has
is no directory, and its links stay in the volume. -/
structure Writable (boot : BootSector) (disk : Disk) (encoded : EncodedName) : Prop where
  slot : (∃ old, Stored boot disk encoded old) ∨ HasRoom boot disk
  file : ∀ old, Stored boot disk encoded old → old.isDirectory = false
  inside : ∀ old, Stored boot disk encoded old → old.firstCluster ≠ 0 →
    ¬ LeadsOut boot (entryOf boot disk) old.firstCluster

/-- A write of the name leaves the directory alone: none of the clusters `directory_slot` goes
through is among those a file may be given, and the old file links none of them but the last. -/
structure Apart (boot : BootSector) (disk : Disk) (encoded : EncodedName) : Prop where
  given : ∀ cluster ∈ slotWalk boot disk encoded,
    cluster ∉ (freeOnes boot disk).take maxFileClusters
  freed : ∀ old, Stored boot disk encoded old → old.firstCluster ≠ 0 →
    ∀ cluster ∈ (slotWalk boot disk encoded).dropLast,
      ¬ Linked boot (entryOf boot disk) old.firstCluster cluster

section OneFile

variable {boot : BootSector} {disk : Disk} {name : List UInt8} {encoded : EncodedName}
  {place : Place}
  {existing : Option DirectoryEntry}

/-- Where no slot in use stores the name, `directory_slot` answers where the directory has
room. -/
lemma slotFor_new_iff
    (habsent : ∀ place ∈ rootLive boot disk, storesName (slotOf disk place) encoded = false) :
    (∃ place, slotFor boot disk encoded = .ok (place, none)) ↔ HasRoom boot disk := by
  have hscan := @scan_visitName encoded disk (placesOf boot (rootWalk boot disk)) none
  rw [slotFor, HasRoom]
  rcases hresult : scan (visitName encoded) disk (placesOf boot (rootWalk boot disk)) none
    with ⟨found, _ | entry⟩ | free
  · rw [hresult] at hscan
    obtain ⟨before, last, after, hplaces, -, hlast, -⟩ := hscan
    refine ⟨fun _ => .inl ⟨last, ?_, hlast⟩, fun _ => ⟨found, rfl⟩⟩
    rw [hplaces]
    exact List.mem_append_right _ List.mem_cons_self
  · obtain ⟨hfind, -⟩ := scan_visitName_entry.mp hresult
    have hstores := List.find?_some hfind
    rw [habsent found (List.mem_of_find?_eq_some hfind)] at hstores
    cases hstores
  · rw [hresult] at hscan
    obtain ⟨hpassed, hfree⟩ := hscan
    rw [Option.none_or] at hfree
    have hends : ¬ ∃ place ∈ placesOf boot (rootWalk boot disk),
        decodeSlot (slotOf disk place) = .end' := by
      rintro ⟨place, hmem, hend⟩
      exact (hpassed place hmem).1 hend
    rw [or_iff_right hends, ← List.find?_isSome, ← hfree]
    rcases rootStop boot disk with err | stop
    · cases free <;> simp
    · cases free <;> simp

/-- What `directory_slot` answers where a write may. -/
lemma Writable.slotFor_eq (h : Writable boot disk encoded) :
    ∃ place existing, slotFor boot disk encoded = .ok (place, existing)
      ∧ existing.any DirectoryEntry.isDirectory = false
      ∧ ∀ first, Replaces existing first → ¬ LeadsOut boot (entryOf boot disk) first := by
  by_cases hstored : ∃ old, Stored boot disk encoded old
  · obtain ⟨old, place, hfind, hold⟩ := hstored
    refine ⟨place, some old, slotFor_existing.mpr ⟨hfind, hold⟩,
      h.file old ⟨place, hfind, hold⟩, ?_⟩
    rintro first ⟨old', hold', rfl, hne⟩
    obtain rfl := Option.some.inj hold'
    exact h.inside old ⟨place, hfind, hold⟩ hne
  · have habsent : ∀ place ∈ rootLive boot disk, storesName (slotOf disk place) encoded
        = false := by
      rcases hfind : (rootLive boot disk).find?
        (fun p => storesName (slotOf disk p) encoded) with _ | place
      · exact fun place hmem => Bool.eq_false_iff.mpr (List.find?_eq_none.mp hfind place hmem)
      · exact absurd ⟨_, place, hfind, rfl⟩ hstored
    obtain ⟨place, hslot⟩ := (slotFor_new_iff habsent).mpr (h.slot.resolve_left hstored)
    refine ⟨place, none, hslot, rfl, ?_⟩
    rintro first ⟨old, hold, -⟩
    cases hold

/-- With writes enough a write that may answer does, of any contents there is room for. -/
lemma writeFile_answers (hboot : boot.WellFormed) (hname : encodeName name = some encoded)
    {contents : List UInt8} {new : List ℕ}
    (hchosen : Chosen boot disk encoded contents place existing new)
    (hinside : ∀ first, Replaces existing first → ¬ LeadsOut boot (entryOf boot disk) first) :
    ∃ left dev, writeFile boot name contents ⟨disk, left⟩
        = (.ok (slotEntry (fileSlot encoded (new.head?.getD 0) contents.length)), dev)
      ∧ Written boot disk encoded contents place existing new dev.disk
      ∧ ∀ first, Replaces existing first → ∀ cluster,
        Linked boot (entryOf boot disk) first cluster →
        boot.hasCluster cluster = true → cluster ∉ new →
          entryOf boot dev.disk cluster = .free := by
  obtain ⟨result, disk', hresult, n, -, hrun⟩ := putFile_endsAt hchosen
  have htriple := putFile_triple hboot hchosen (encodeName_first hname) ⟨disk, n + 0⟩ rfl
  rw [hrun 0] at htriple
  rcases result with err | entry
  · obtain rfl | ⟨⟨first, hfirst, hout⟩, -⟩ := htriple
    · exact absurd rfl hresult
    · exact absurd hout (hinside first hfirst)
  · obtain ⟨rfl, hwritten, hfreed⟩ := htriple
    exact ⟨n + 0, _, (writeFile_chosen hname hchosen _).trans (hrun 0), hwritten,
      fun first hfirst => (hfreed first hfirst).2⟩

/-- What is chosen for an empty file. -/
lemma chosen_empty (hboot : boot.WellFormed)
    (hslot : slotFor boot disk encoded = .ok (place, existing))
    (hfile : existing.any DirectoryEntry.isDirectory = false) :
    Chosen boot disk encoded [] place existing [] := by
  have hneeded : divCeil ([] : List UInt8).length boot.clusterBytes = 0 := by
    have hpos := clusterBytes_pos hboot
    rw [divCeil, List.length_nil]
    exact Nat.div_eq_of_lt (by omega)
  exact ⟨hslot, hfile, by rw [hneeded]; exact Nat.zero_le _, by rw [hneeded]; exact Nat.zero_le _,
    by rw [hneeded, List.take_zero]⟩

/-- What is chosen for a file that fills the first clusters that are free. -/
lemma chosen_full (hboot : boot.WellFormed)
    (hslot : slotFor boot disk encoded = .ok (place, existing))
    (hfile : existing.any DirectoryEntry.isDirectory = false) {clusters : ℕ}
    (hmax : clusters ≤ maxFileClusters) (henough : clusters ≤ (freeOnes boot disk).length)
    (byte : UInt8) :
    Chosen boot disk encoded (List.replicate (clusters * boot.clusterBytes) byte) place existing
      ((freeOnes boot disk).take clusters) := by
  have hneeded : divCeil (List.replicate (clusters * boot.clusterBytes) byte).length
      boot.clusterBytes
      = clusters := by
    have hpos := clusterBytes_pos hboot
    rw [divCeil, List.length_replicate]
    refine Nat.div_eq_of_lt_le (by omega) ?_
    rw [Nat.succ_mul]
    omega
  exact ⟨hslot, hfile, by rw [hneeded]; exact hmax, by rw [hneeded]; exact henough,
    by rw [hneeded]⟩

/-- A byte that is none of three. -/
lemma exists_byte_ne (a b c : UInt8) : ∃ byte, a ≠ byte ∧ b ≠ byte ∧ c ≠ byte := by
  by_contra hnone
  have hall : ∀ byte : UInt8, a = byte ∨ b = byte ∨ c = byte := fun byte => by
    by_contra hne
    exact hnone ⟨byte, by tauto⟩
  have h0 := hall 0
  have h1 := hall 1
  have h2 := hall 2
  have h3 := hall 3
  grind

/-- One of the first three slots of a sector is at neither of two places. -/
lemma exists_slot_ne (sector : ℕ) (place place' : Place) :
    ∃ index : Fin 16, (index = 0 ∨ index = 1 ∨ index = 2) ∧ (sector, index) ≠ place
      ∧ (sector, index) ≠ place' := by
  by_contra hnone
  have hall : ∀ index : Fin 16, (index = 0 ∨ index = 1 ∨ index = 2) →
      (sector, index) = place ∨ (sector, index) = place' := fun index hindex => by
    by_contra hne
    exact hnone ⟨index, hindex, by tauto⟩
  have h0 := hall 0 (by simp)
  have h1 := hall 1 (by simp)
  have h2 := hall 2 (by simp)
  grind

/-- Each slot at the front of a cluster that is filled with one byte begins with it. -/
lemma Filled.slot_replicate (hboot : boot.WellFormed) {cluster index : ℕ} {byte : UInt8}
    (h : Filled boot (List.replicate ((index + 1) * boot.clusterBytes) byte) disk cluster index)
    (slot : Fin 16) : slotOf disk (dataSector boot cluster 0, slot) 0 = byte := by
  have hsize := clusterBytes_eq hboot
  have hpos := hboot.sectorsPerCluster
  have hin : ∀ i < 512,
      index * boot.clusterBytes + 0 * 512 + i < (index + 1) * boot.clusterBytes := by
    intro i hi
    rw [Nat.succ_mul, hsize]
    omega
  have hsector := h 0 hpos (by rw [List.length_replicate]; exact hin 0 (by decide))
  have hslot := slot.isLt
  rw [slotOf, slotAt, hsector, sectorOf, List.getD_eq_getElem?_getD, List.getElem?_replicate,
    if_pos (hin _ (by dsimp only [Fin.val_zero]; omega)), Option.getD_some]

/-- Where a name means one file none of the directory's clusters can be given to it: the file's
bytes would be in its slots. -/
lemma OneFile.given (hboot : boot.WellFormed) (hname : encodeName name = some encoded)
    (h : OneFile boot disk name encoded) (hwritable : Writable boot disk encoded) :
    ∀ cluster ∈ slotWalk boot disk encoded,
      cluster ∉ (freeOnes boot disk).take maxFileClusters := by
  intro cluster hmem hgiven
  obtain ⟨place, existing, hslot, hfile, hinside⟩ := hwritable.slotFor_eq
  obtain ⟨index, hindex, hcluster⟩ := List.mem_iff_getElem.mp hgiven
  have hlength := hindex
  rw [List.length_take, lt_min_iff] at hlength
  -- a file of a byte that three of its slots do not begin with, up to that cluster
  obtain ⟨byte, hbyte⟩ := exists_byte_ne (slotOf disk (dataSector boot cluster 0, 0) 0)
    (slotOf disk (dataSector boot cluster 0, 1) 0) (slotOf disk (dataSector boot cluster 0, 2) 0)
  have hchosen := chosen_full hboot hslot hfile hlength.1 hlength.2 byte
  obtain ⟨left, dev, hwrote, hwritten, -⟩ := writeFile_answers hboot hname hchosen hinside
  obtain ⟨place', -, -, hsame⟩ := h.write _ left _ dev hwrote
  obtain ⟨slot, hslots, hne, hne'⟩ := exists_slot_ne (dataSector boot cluster 0) place place'
  obtain ⟨before, hfilled, hbeside⟩ := hwritten.beside
  have hzip : (cluster, index) ∈ ((freeOnes boot disk).take (index + 1)).zipIdx := by
    rw [List.getElem_take] at hcluster
    rw [List.mem_zipIdx_iff_getElem?, List.getElem?_take_of_lt (by omega),
      List.getElem?_eq_getElem hlength.2, hcluster]
  -- the slot is not the entry's, so it holds the byte, and did not before
  have hnow := hbeside (dataSector boot cluster 0, slot) hne cluster
    (List.fst_mem_of_mem_zipIdx hzip) 0
    hboot.sectorsPerCluster rfl
  rw [hsame _ (mem_placesOf_slot hmem hboot.sectorsPerCluster slot) hne'] at hnow
  have hfirst := congrFun hnow 0
  rw [(hfilled cluster index hzip).slot_replicate hboot slot] at hfirst
  obtain rfl | rfl | rfl := hslots
  · exact hbyte.1 hfirst
  · exact hbyte.2.1 hfirst
  · exact hbyte.2.2 hfirst

/-- Where a name means one file the clusters before that of its entry cannot be freed with the old
contents: `find` would not come to the entry. -/
lemma OneFile.freed (hboot : boot.WellFormed) (hname : encodeName name = some encoded)
    (h : OneFile boot disk name encoded) (hwritable : Writable boot disk encoded)
    {old : DirectoryEntry} (hstored : Stored boot disk encoded old) (hne : old.firstCluster ≠ 0) :
    ∀ cluster ∈ (slotWalk boot disk encoded).dropLast,
      ¬ Linked boot (entryOf boot disk) old.firstCluster cluster := by
  intro cluster hmem hlinked
  obtain ⟨place, hfind, hold⟩ := hstored
  have hslot := slotFor_existing.mpr ⟨hfind, hold⟩
  obtain ⟨place', existing, hslot', hfile, hinside⟩ := hwritable.slotFor_eq
  obtain ⟨rfl, rfl⟩ := Prod.mk.inj (Except.ok.inj (hslot.symm.trans hslot'))
  obtain ⟨left, dev, hwrote, hwritten, hfreed⟩ :=
    writeFile_answers hboot hname (chosen_empty hboot hslot hfile) hinside
  obtain ⟨place', hfound, hseen, -⟩ := h.write [] left _ dev hwrote
  -- `find` sees the old entry, so it is to see the new one in its slot
  have hbefore : FoundAt boot disk name place old :=
    (h.agree place old).mpr fun left => by rw [directorySlot_eq, hslot]
  obtain rfl := hseen place old hbefore
  have hlive := List.mem_of_find?_eq_some (foundAt_iff.mp hfound).1
  have hreplaces : Replaces (some old) old.firstCluster := ⟨old, rfl, rfl, hne⟩
  have hclusters : ∀ c ∈ (slotWalk boot disk encoded).dropLast, boot.hasCluster c = true :=
    fun c hc => slotWalk_inside (List.mem_of_mem_dropLast hc)
  -- but the walk ends before it
  have hcut : rootWalk boot dev.disk ⊆ (slotWalk boot disk encoded).dropLast := by
    refine pathFrom_cut (walked_isPart _ _) (fun c hc => ?_)
      ⟨cluster, hmem, hfreed _ hreplaces cluster hlinked
        (hclusters cluster hmem) List.not_mem_nil⟩
    by_cases hlink : Linked boot (entryOf boot disk) old.firstCluster c
    · exact .inr (hfreed _ hreplaces c hlink (hclusters c hc) List.not_mem_nil)
    · left
      rw [entryOf, hwritten.word 0 c hboot.fatCount (hclusters c hc) List.not_mem_nil, entryOf]
      rintro first ⟨old', hold', rfl, -⟩
      obtain rfl := Option.some.inj hold'
      exact hlink
  have hplace := placesOf_subset hcut (livePlaces_entry hlive).2
  obtain ⟨hentry, -⟩ := livePlaces_entry (List.mem_of_find?_eq_some hfind)
  have hstores : storesName (slotOf disk place) encoded = true :=
    @List.find?_some _ _ place _ hfind
  rw [(passed_walked place hplace).2 _ hentry] at hstores
  cases hstores


end OneFile

end Harlan.Fat
