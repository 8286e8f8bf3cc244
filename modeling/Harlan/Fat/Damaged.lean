import Mathlib.Tactic
import Harlan.Fat.Names
import Harlan.Fat.Freeing

/-!
Writing a file to a volume of which nothing is known but its boot sector.

* `Chosen`, `putFile`: what `write_file` finds before it writes, and the part of it that writes.
* `Written`, `putFile_triple`: every disk it leaves.
* `writeFile_untouched_iff`: when a write that is refused has left the disk alone.
* `writeFile_reads_back`: a file that was written is read back.
-/

namespace Harlan.Fat

open Eff

/-! ### The part that writes -/

/-- What `write_file` does once it knows where the entry goes and which clusters the file
takes. -/
def putFile (boot : BootSector) (name : EncodedName) (contents : List UInt8) (place : Place)
    (existing : Option DirectoryEntry) (new : List ℕ) : Writing DirectoryEntry := do
  writeClusters boot new contents
  linkChain boot new
  putEntry place (fileSlot name (new.head?.getD 0) contents.length)
  freeOld boot existing new
  updateFsInfo boot
  match decodeSlot (fileSlot name (new.head?.getD 0) contents.length) with
  | .entry entry => pure entry
  | _ => Eff.fail .badName

/-- What `write_file` finds before it writes anything. -/
structure Chosen (boot : BootSector) (disk : Disk) (name : EncodedName) (contents : List UInt8)
    (place : Place) (existing : Option DirectoryEntry) (new : List ℕ) : Prop where
  slot : slotFor boot disk name = .ok (place, existing)
  file : existing.any DirectoryEntry.isDirectory = false
  bounded : divCeil contents.length boot.clusterBytes ≤ maxFileClusters
  enough : divCeil contents.length boot.clusterBytes ≤ (freeOnes boot disk).length
  takes : new = (freeOnes boot disk).take (divCeil contents.length boot.clusterBytes)

/-- What is on the disk where `write_file` answers. -/
structure Written (boot : BootSector) (disk : Disk) (name : EncodedName) (contents : List UInt8)
    (place : Place) (existing : Option DirectoryEntry) (new : List ℕ) (disk' : Disk) : Prop where
  slot : slotOf disk' place = fileSlot name (new.head?.getD 0) contents.length
  linked : boot.clusters + 2 ≤ 0x0FFFFFF7 →
    ∀ first, new.head? = some first → IsChain boot (entryOf boot disk') first new
  /-- The bytes are there, unless the directory is in a cluster the file was given. -/
  filled : (∀ cluster ∈ new, ∀ offset < boot.sectorsPerCluster,
    place.1 ≠ dataSector boot cluster offset) →
    ∀ cluster index, (cluster, index) ∈ new.zipIdx → Filled boot contents disk' cluster index
  /-- What is in a new cluster beside the entry was written there. -/
  beside : ∃ before : Disk,
    (∀ cluster index, (cluster, index) ∈ new.zipIdx → Filled boot contents before cluster index)
      ∧ ∀ place', place' ≠ place → ∀ cluster ∈ new, ∀ offset < boot.sectorsPerCluster,
        place'.1 = dataSector boot cluster offset → slotOf disk' place' = slotOf before place'
  /-- No entry changes but of the file's clusters and of those its old chain links. -/
  word : ∀ table cluster, table < boot.fatCount → boot.hasCluster cluster = true → cluster ∉ new →
    (∀ first, Replaces existing first → ¬ Linked boot (entryOf boot disk) first cluster) →
      wordOf boot disk' table cluster = wordOf boot disk table cluster
  /-- No other slot changes but in the file's clusters. -/
  slots : ∀ place', place' ≠ place → ∀ cluster offset, boot.hasCluster cluster = true →
    cluster ∉ new →
    offset < boot.sectorsPerCluster → place'.1 = dataSector boot cluster offset →
      slotOf disk' place' = slotOf disk place'

section Put

variable {boot : BootSector} {disk : Disk} {name : EncodedName} {contents : List UInt8}
  {place : Place}
  {existing : Option DirectoryEntry} {new : List ℕ}

/-- Where something is found for it, `write_file` goes on to write. -/
lemma writeFile_chosen {text : List UInt8} (hname : encodeName text = some name)
    (h : Chosen boot disk name contents place existing new) (left : ℕ) :
    writeFile boot text contents ⟨disk, left⟩
      = putFile boot name contents place existing new ⟨disk, left⟩ := by
  have hclusters : freeClusters boot (divCeil contents.length boot.clusterBytes) ⟨disk, left⟩
      = (.ok new, ⟨disk, left⟩) := by
    rw [freeClusters_eq, if_neg (Nat.not_lt.mpr h.bounded),
      if_neg (Nat.not_lt.mpr h.enough), h.takes]
  have hslot : directorySlot boot name ⟨disk, left⟩ = (.ok (place, existing), ⟨disk, left⟩) := by
    rw [directorySlot_eq, h.slot]
  rw [writeFile, hname]
  dsimp only
  rw [bind_ok hslot]
  dsimp only
  rw [h.file, if_neg (by decide), bind_ok hclusters]
  rfl

/-- Where nothing is, it fails, with the disk as it was. -/
lemma writeFile_refused {text : List UInt8} (hname : encodeName text = some name)
    (h : ∀ place existing new, ¬ Chosen boot disk name contents place existing new) (left : ℕ) :
    ∃ err, writeFile boot text contents ⟨disk, left⟩ = (.error err, ⟨disk, left⟩) := by
  have hdirectory := @directorySlot_eq boot name ⟨disk, left⟩
  have hclusters := @freeClusters_eq boot (divCeil contents.length boot.clusterBytes) ⟨disk, left⟩
  rw [writeFile, hname]
  dsimp only at hdirectory ⊢
  rcases hslot : slotFor boot disk name with err | ⟨place, existing⟩
  · rw [hslot] at hdirectory
    exact ⟨err, by rw [bind_apply, hdirectory]⟩
  · rw [hslot] at hdirectory
    rw [bind_ok hdirectory]
    dsimp only
    split
    · exact ⟨_, rfl⟩
    next hfile =>
      split at hclusters
      · exact ⟨_, by rw [bind_apply, hclusters]⟩
      next hbounded =>
        split at hclusters
        · exact ⟨_, by rw [bind_apply, hclusters]⟩
        next henough =>
          exact absurd ⟨hslot, Bool.eq_false_iff.mpr hfile, Nat.le_of_not_lt hbounded,
            Nat.le_of_not_lt henough, rfl⟩ (h place existing _)

/-- So where it answers there was something. -/
lemma chosen_of_writeFile {text : List UInt8} (hname : encodeName text = some name) {left : ℕ}
    {entry : DirectoryEntry} {dev : Device}
    (h : writeFile boot text contents ⟨disk, left⟩ = (.ok entry, dev)) :
    ∃ place existing new, Chosen boot disk name contents place existing new
      ∧ putFile boot name contents place existing new ⟨disk, left⟩ = (.ok entry, dev) := by
  by_cases hchosen : ∃ place existing new, Chosen boot disk name contents place existing new
  · obtain ⟨place, existing, new, hchosen⟩ := hchosen
    rw [writeFile_chosen hname hchosen] at h
    exact ⟨place, existing, new, hchosen, h⟩
  · obtain ⟨err, hrefused⟩ := @writeFile_refused boot disk name contents text hname
      (fun place existing new h => hchosen ⟨place, existing, new, h⟩) left
    rw [hrefused] at h
    cases h

/-- The clusters a file is given were free, and there are enough of them. -/
lemma Chosen.free (h : Chosen boot disk name contents place existing new) :
    ∀ cluster ∈ new, boot.hasCluster cluster = true ∧ entryOf boot disk cluster = .free := by
  intro cluster hmem
  rw [h.takes] at hmem
  exact mem_freeOnes.mp (List.mem_of_mem_take hmem)

lemma Chosen.nodup (h : Chosen boot disk name contents place existing new) : new.Nodup := by
  rw [h.takes]
  exact nodup_freeOnes.take

lemma Chosen.length (h : Chosen boot disk name contents place existing new) :
    new.length = divCeil contents.length boot.clusterBytes := by
  rw [h.takes, List.length_take]
  exact min_eq_left h.enough

/-- With its new clusters taken out, the table of a disk on which nothing else changed is as it
was. -/
lemma linkInside_hide_new {disk' : Disk} {filled : List ℕ} (hboot : boot.WellFormed)
    (hfree : ∀ cluster ∈ new, boot.hasCluster cluster = true ∧ entryOf boot disk cluster = .free)
    (hsame : SameBut boot new filled disk disk') :
    linkInside boot (hide new (entryOf boot disk')) = linkInside boot (entryOf boot disk) := by
  funext cluster
  rw [linkInside, linkInside, nextLink, nextLink, hide]
  split
  next hin =>
    by_cases hmem : cluster ∈ new
    · rw [if_pos hmem, (hfree cluster hmem).2]
    · rw [if_neg hmem, hsame.entryOf hboot hin hmem]
  next => rfl

variable (hboot : boot.WellFormed) (h : Chosen boot disk name contents place existing new)

include hboot h

/-- What the parts of `putFile` up to the entry leave. -/
lemma putEntry_any {disk1 disk2 : Disk} (hsame1 : SameBut boot [] new disk disk1)
    (hfilled : ∀ cluster index, (cluster, index) ∈ new.zipIdx →
      Filled boot contents disk1 cluster index)
    (hsame2 : SameBut boot new [] disk1 disk2)
    (hlinked : boot.clusters + 2 ≤ 0x0FFFFFF7 →
      ∀ first, new.head? = some first → IsChain boot (entryOf boot disk2) first new) :
    Written boot disk name contents place none new (Function.update disk2 place.1
      (putSlot (disk2 place.1) place.2 (fileSlot name (new.head?.getD 0) contents.length))) := by
  obtain ⟨c, -, hc, k, hk, hsector⟩ := slotFor_sector h.slot
  have hinside := fun cluster hmem => (h.free cluster hmem).1
  have hput : SameBut boot [] [c] disk2 (Function.update disk2 place.1
      (putSlot (disk2 place.1) place.2 (fileSlot name (new.head?.getD 0) contents.length))) := by
    rw [hsector]
    exact sameBut_data hboot _ hc hk
  refine ⟨?_, fun hnumbers first hfirst => ?_,
    fun hout cluster index hmem offset hoffset hin => ?_,
    ⟨disk1, hfilled, fun place' hne cluster hmem offset hoffset hplace => ?_⟩,
    fun table cluster htable hcluster hout _ => ?_,
    fun place' hne cluster offset hcluster hout hoffset hplace => ?_⟩
  · rw [slotOf_putSlot, if_pos rfl]
  · exact (hlinked hnumbers first hfirst).congr fun cluster hmem =>
      hput.entryOf hboot (hinside cluster hmem) List.not_mem_nil
  · have hcluster := hinside cluster (List.fst_mem_of_mem_zipIdx hmem)
    have hother := hout cluster (List.fst_mem_of_mem_zipIdx hmem) offset hoffset
    rw [Function.update_of_ne hother.symm,
      hsame2.data cluster offset hcluster hoffset List.not_mem_nil]
    exact hfilled cluster index hmem offset hoffset hin
  · rw [slotOf_putSlot, if_neg hne, slotOf, slotOf, hplace,
      hsame2.data cluster offset (hinside cluster hmem) hoffset List.not_mem_nil]
  · exact (hput.word table cluster htable hcluster List.not_mem_nil).trans
      ((hsame2.word table cluster htable hcluster hout).trans
        (hsame1.word table cluster htable hcluster List.not_mem_nil))
  · rw [slotOf_putSlot, if_neg hne, slotOf, slotOf, hplace,
      hsame2.data cluster offset hcluster hoffset List.not_mem_nil,
      hsame1.data cluster offset hcluster hoffset hout]

/-- Where nothing changes but entries the old chain links, what was written stays. -/
lemma Written.freed {disk' disk'' : Disk} {freed : List ℕ} {before : Option DirectoryEntry}
    (hwritten : Written boot disk name contents place before new disk')
    (hbefore : ∀ first, Replaces before first → Replaces existing first)
    (hsame : SameBut boot freed [] disk' disk'') (hkept : ∀ cluster ∈ freed, cluster ∉ new)
    (hfreed : ∀ cluster ∈ freed, ∃ first, Replaces existing first
      ∧ Linked boot (entryOf boot disk) first cluster) :
    Written boot disk name contents place existing new disk'' := by
  obtain ⟨c, -, hc, k, hk, hsector⟩ := slotFor_sector h.slot
  have hinside := fun cluster hmem => (h.free cluster hmem).1
  have hdata : ∀ {cluster offset}, boot.hasCluster cluster = true →
      offset < boot.sectorsPerCluster →
      disk'' (dataSector boot cluster offset) = disk' (dataSector boot cluster offset) :=
    fun hcluster hoffset => hsame.data _ _ hcluster hoffset List.not_mem_nil
  obtain ⟨before', hfilled, hbeside⟩ := hwritten.beside
  refine ⟨?_, fun hnumbers first hfirst => ?_,
    fun hout cluster index hmem offset hoffset hin => ?_,
    ⟨before', hfilled, fun place' hne cluster hmem offset hoffset hplace => ?_⟩,
    fun table cluster htable hcluster hout hfar => ?_,
    fun place' hne cluster offset hcluster hout hoffset hplace => ?_⟩
  · rw [← hwritten.slot, slotOf, slotOf, hsector, hdata hc hk]
  · exact (hwritten.linked hnumbers first hfirst).congr fun cluster hmem =>
      hsame.entryOf hboot (hinside cluster hmem) fun hmem' => hkept cluster hmem' hmem
  · rw [hdata (hinside cluster (List.fst_mem_of_mem_zipIdx hmem)) hoffset]
    exact hwritten.filled hout cluster index hmem offset hoffset hin
  · rw [← hbeside place' hne cluster hmem offset hoffset hplace, slotOf, slotOf, hplace,
      hdata (hinside cluster hmem) hoffset]
  · have hnot : cluster ∉ freed := by
      intro hmem
      obtain ⟨first, hfirst, hlinked⟩ := hfreed cluster hmem
      exact hfar first hfirst hlinked
    rw [hsame.word table cluster htable hcluster hnot]
    exact hwritten.word table cluster htable hcluster hout fun first hfirst =>
      hfar first (hbefore first hfirst)
  · rw [← hwritten.slots place' hne cluster offset hcluster hout hoffset hplace, slotOf,
      slotOf, hplace, hdata hcluster hoffset]

/-- **Every disk `write_file` leaves once it has begun to write.** Where it answers the file is
there and its old chain is free; where it fails, and not because of the device, the links of the
old chain lead out of the volume, and the entry is already the new one. -/
theorem putFile_triple (hname : name 0 ≠ entryNeverUsed ∧ name 0 ≠ entryDeleted) :
    Triple (fun dev => dev.disk = disk) (putFile boot name contents place existing new)
      (fun entry dev => entry = slotEntry (fileSlot name (new.head?.getD 0) contents.length)
        ∧ Written boot disk name contents place existing new dev.disk
        ∧ ∀ first, Replaces existing first → ¬ LeadsOut boot (entryOf boot disk) first
          ∧ ∀ cluster, Linked boot (entryOf boot disk) first cluster →
            boot.hasCluster cluster = true →
            cluster ∉ new → entryOf boot dev.disk cluster = .free)
      (fun err dev => err = .device ∨ (∃ first, Replaces existing first
          ∧ LeadsOut boot (entryOf boot disk) first)
        ∧ slotOf dev.disk place = fileSlot name (new.head?.getD 0) contents.length) := by
  obtain ⟨c, -, hc, k, hk, hsector⟩ := slotFor_sector h.slot
  have hinside := fun cluster hmem => (h.free cluster hmem).1
  rw [putFile]
  -- the bytes and the chain
  refine Triple.bindState (((sure_writeClusters hinside contents).triple
    (@writeClusters_triple _ disk hboot _ contents hinside h.nodup)).conseq (fun _ h => h)
    (fun _ _ h => h)
    fun _ _ h => .inl h.1) fun _ dev1 hdev1 => ?_
  obtain ⟨hsame1, hfilled⟩ := hdev1
  refine Triple.bindState (((sure_linkChain hinside).triple
    (@linkChain_triple _ dev1.disk hboot _ hinside h.nodup)).conseq
    (fun _ h => congrArg Device.disk h)
    (fun _ _ h => h) fun _ _ h => .inl h.1) fun _ dev2 hdev2 => ?_
  obtain ⟨hsame2, hlinked⟩ := hdev2
  have hput := putEntry_any hboot h hsame1 hfilled hsame2 hlinked
  -- the entry
  refine Triple.bindState (((sure_putEntry place _).triple
    (modifySector_triple (P := fun disk' => disk' = dev2.disk)
      (Q := fun disk' => disk' = Function.update dev2.disk place.1
        (putSlot (dev2.disk place.1) place.2
        (fileSlot name (new.head?.getD 0) contents.length))) (by rintro disk' rfl; rfl))).conseq
    (fun _ h => congrArg Device.disk h) (fun _ _ h => h) fun _ _ h => .inl h.1) fun _
    dev3 hdev3 => ?_
  rw [← hdev3] at hput
  have hsame3 : SameBut boot new (c :: new) disk dev3.disk := by
    refine ((hsame1.mono (List.nil_subset _) (List.subset_cons_self _ _)).trans
      (hsame2.mono (List.Subset.refl _) (List.nil_subset _))).trans ?_
    rw [hdev3, hsector]
    exact (sameBut_data hboot _ hc hk).mono (List.nil_subset _) (by simp)
  have hlinks := linkInside_hide_new hboot h.free hsame3
  -- what it replaced
  have hfreed : ∀ {dev : Device}, (dev.disk = dev3.disk ∨ ∃ first, Replaces existing first
      ∧ FreedFrom boot new first dev3.disk dev.disk) →
      Written boot disk name contents place existing new dev.disk := by
    have hnone : ∀ first, Replaces none first → Replaces existing first := by
      rintro first ⟨old, hold, -⟩
      cases hold
    rintro dev (hsame | ⟨first, hfirst, freed, hsame, hfreed⟩)
    · rw [hsame]
      exact hput.freed hboot h hnone (@SameBut.refl _ _ [] _) nofun nofun
    · refine hput.freed hboot h hnone hsame (fun cluster hmem => (hfreed cluster hmem).1)
        fun cluster hmem => ?_
      have hlink := (hfreed cluster hmem).2
      rw [Linked, hlinks, ← Linked] at hlink
      exact ⟨first, hfirst, hlink⟩
  have hleads : ∀ first, LeadsOut boot (hide new (entryOf boot dev3.disk)) first
      ↔ LeadsOut boot (entryOf boot disk) first := by
    intro first
    rw [LeadsOut, hlinks, LeadsOut]
  refine Triple.bindState ((@freeOld_any _ dev3.disk existing new hboot).conseq
    (fun _ h => congrArg Device.disk h) (fun _ _ h => h) fun err dev hdev => ?_) fun _
    dev4 hdev4 => ?_
  · refine hdev.1.imp_right fun ⟨first, hfirst, hout⟩ =>
      ⟨⟨first, hfirst, (hleads first).mp hout⟩, ?_⟩
    exact (hfreed hdev.2).slot
  obtain ⟨hinner, hfreed4, hall⟩ := hdev4
  have hwritten := hfreed hfreed4
  -- and the hint
  refine Triple.bindState ((sure_updateFsInfo.triple (@updateFsInfo_triple _ dev4.disk)).conseq
    (fun _ h => congrArg Device.disk h) (fun _ _ h => h) fun _ _ h => .inl h.1) fun _ dev5
    hsame5 => ?_
  rw [decodeSlot_fileSlot hname.1 hname.2]
  refine Triple.pure fun dev hdev => ⟨rfl, ?_, fun first hfirst =>
    ⟨mt (hleads first).mpr (hinner first hfirst), fun cluster hlinked hcluster hnew => ?_⟩⟩
  · rw [hdev]
    exact hwritten.freed hboot h (fun _ h => h) hsame5 nofun nofun
  · rw [hdev, hsame5.entryOf hboot hcluster List.not_mem_nil]
    refine hall first hfirst cluster ?_ hcluster hnew
    rw [Linked, hlinks]
    exact hlinked

omit hboot in
/-- With writes enough `putFile` comes to an end, and not because of the device. -/
lemma putFile_endsAt : EndsAt (putFile boot name contents place existing new) disk := by
  have hinside := fun cluster hmem => (h.free cluster hmem).1
  refine (sure_writeClusters hinside contents).bindEndsAt disk fun _ disk1 => ?_
  refine (sure_linkChain hinside).bindEndsAt disk1 fun _ disk2 => ?_
  refine (sure_putEntry place _).bindEndsAt disk2 fun _ disk3 => ?_
  refine (freeOld_endsAt disk3).bind fun _ disk4 => ?_
  refine sure_updateFsInfo.bindEndsAt disk4 fun _ disk5 => ?_
  split
  · exact (Sure.pure _).endsAt disk5
  · exact .fail (by nofun : WriteError.badName ≠ .device) disk5

/-- The entry of a file that was written. -/
lemma Chosen.slotEntry_new :
    (slotEntry (fileSlot name (new.head?.getD 0) contents.length)).firstCluster = new.head?.getD 0
      ∧ (slotEntry (fileSlot name (new.head?.getD 0) contents.length)).size = contents.length :=
  (slotEntry_fileSlot (head_lt hboot fun cluster hmem => (h.free cluster hmem).1)
    (length_lt hboot h.bounded)).2

end Put

/-! ### A write that is refused -/

section Refused

variable {boot : BootSector} {disk : Disk} {name contents : List UInt8}

/-- A call of `write_file` that fails, and not because of the device, leaves every sector as it
was. -/
def Untouched (boot : BootSector) (disk : Disk) (name contents : List UInt8) : Prop :=
  ∀ left err dev, writeFile boot name contents ⟨disk, left⟩ = (.error err, dev) → err ≠ .device →
    dev.disk = disk

/-- The name is that of a file with clusters, and there is room for the new contents. -/
structure Replaceable (boot : BootSector) (disk : Disk) (name contents : List UInt8)
    (old : DirectoryEntry) :
    Prop where
  stored : ∃ encoded place, encodeName name = some encoded
    ∧ (rootLive boot disk).find? (fun p => storesName (slotOf disk p) encoded) = some place
    ∧ old = slotEntry (slotOf disk place)
  file : old.isDirectory = false
  clusters : old.firstCluster ≠ 0
  bounded : divCeil contents.length boot.clusterBytes ≤ maxFileClusters
  enough : divCeil contents.length boot.clusterBytes ≤ (freeOnes boot disk).length

/-- **A write that is refused leaves the disk untouched, unless the file it was to replace has
links that lead out of the volume.** -/
theorem writeFile_untouched_iff (hparse : BootSector.parse (disk 0) = .ok boot) :
    Untouched boot disk name contents
      ↔ ∀ old, Replaceable boot disk name contents old →
        ¬ LeadsOut boot (entryOf boot disk) old.firstCluster := by
  have hboot := BootSector.parse_wellFormed hparse
  constructor
  · rintro hsame old ⟨⟨encoded, place, hname, hstored, hold⟩, hfile, hclusters, hbounded,
      henough⟩ hout
    have hchosen : Chosen boot disk encoded contents place (some old) _ :=
      ⟨slotFor_existing.mpr ⟨hstored, hold⟩, hfile, hbounded, henough, rfl⟩
    have hreplaces : Replaces (some old) old.firstCluster := ⟨old, rfl, rfl, hclusters⟩
    -- with writes enough it fails, and the entry is the new one
    obtain ⟨result, disk', hresult, n, -, hrun⟩ := putFile_endsAt hchosen
    have htriple := putFile_triple hboot hchosen (encodeName_first hname) ⟨disk, n + 0⟩ rfl
    rw [hrun 0] at htriple
    rcases result with err | entry
    · obtain rfl | ⟨-, hslot⟩ := htriple
      · exact hresult rfl
      have hrun := hrun 0
      rw [← writeFile_chosen hname hchosen] at hrun
      have hdisk := hsame _ err _ hrun fun h => hresult (congrArg Except.error h)
      rw [hdisk] at hslot
      -- so the old file began where the new one does, at a cluster that is free
      rw [hold, hslot, (hchosen.slotEntry_new hboot).1] at hout hclusters
      rcases hhead : ((freeOnes boot disk).take (divCeil contents.length boot.clusterBytes)).head?
        with _ | first
      · rw [hhead] at hclusters
        exact hclusters rfl
      · obtain ⟨hin, hfree⟩ := hchosen.free first (List.mem_of_mem_head? hhead)
        rw [hhead] at hout
        refine not_leadsOut hin ?_ hout
        rw [linkInside, if_pos hin, nextLink, hfree]
    · exact (htriple.2.2 _ hreplaces).1 hout
  · intro hin left err dev hrun herr
    cases hname : encodeName name with
    | none =>
        rw [writeFile, hname] at hrun
        exact congrArg Device.disk (Prod.mk.inj hrun).2.symm
    | some encoded =>
        by_cases hchosen : ∃ place existing new,
          Chosen boot disk encoded contents place existing new
        · obtain ⟨place, existing, new, hchosen⟩ := hchosen
          rw [writeFile_chosen hname hchosen] at hrun
          obtain hdevice | ⟨⟨first, ⟨old, rfl, rfl, hclusters⟩, hout⟩, -⟩ :=
            (putFile_triple hboot hchosen (encodeName_first hname)).error rfl hrun
          · exact absurd hdevice herr
          · obtain ⟨hstored, hold⟩ := slotFor_existing.mp hchosen.slot
            refine absurd hout
              (hin old ⟨⟨encoded, place, hname, hstored, hold⟩, hchosen.file, hclusters,
              hchosen.bounded, hchosen.enough⟩)
        · obtain ⟨err', hrefused⟩ := @writeFile_refused boot disk encoded contents name hname
            (fun place existing new h => hchosen ⟨place, existing, new, h⟩) left
          rw [hrefused] at hrun
          exact congrArg Device.disk (Prod.mk.inj hrun).2.symm

/-- Writing `A` anew beside `B`: the links of its two clusters end in the volume. -/
theorem writeFile_untouched_twoFiles :
    (∃ old, Replaceable emptyBoot twoFiles [0x41] [0x68] old)
      ∧ Untouched emptyBoot twoFiles [0x41] [0x68] := by
  have hlive : rootLive emptyBoot twoFiles = [(513, 0), (513, 1)] := by decide +kernel
  have hfind : (rootLive emptyBoot twoFiles).find? (fun p => storesName (slotOf twoFiles p) nameA)
      = some (513, 0) := by
    rw [hlive]
    decide +kernel
  have hentry : slotEntry (slotOf twoFiles (513, 0)) = ⟨[0x41], 0x20, 3, 600⟩ := by decide +kernel
  have hchain : IsChain emptyBoot (entryOf emptyBoot twoFiles) 3 [3, 4] :=
    ⟨.cons (by decide +kernel : _ = some 4) (.single (by decide +kernel)), by decide⟩
  have hfree : 6 ∈ freeOnes emptyBoot twoFiles := mem_freeOnes.mpr ⟨by decide, by decide +kernel⟩
  refine ⟨⟨_, ⟨nameA, (513, 0), encodeName_A, hfind, rfl⟩, ?_, ?_, by decide,
    List.length_pos_of_mem hfree⟩,
    (writeFile_untouched_iff parse_twoFiles).mpr fun old hold => ?_⟩
  · rw [hentry]
    decide
  · rw [hentry]
    decide
  · obtain ⟨encoded, place, hname, hstored, rfl⟩ := hold.stored
    obtain rfl := Option.some.inj (encodeName_A.symm.trans hname)
    obtain rfl := Option.some.inj (hfind.symm.trans hstored)
    rw [hentry]
    exact hchain.not_leadsOut

/-- A volume with a file `A` of one cluster, 3, whose entry in the table is a link. -/
def linkedDisk (link : ℕ) : Disk
  | 1 => putWord (putWord (fun _ => 0) 8 endOfChain) 12 link
  | 513 => putSlot (fun _ => 0) 0 (fileSlot (fun i => if i = 0 then 0x41 else space) 3 1)
  | sector => emptyDisk sector

/-- **Where the link is to a cluster the volume has not got, replacing the file fails**, after its
entry is that of the new one. -/
theorem linkedDisk_not_untouched :
    BootSector.parse (linkedDisk 0x00FFFFFF 0) = .ok emptyBoot
      ∧ ¬ Untouched emptyBoot (linkedDisk 0x00FFFFFF) [0x41] [0x68] := by
  refine ⟨parse_emptyDisk, fun hsame => ?_⟩
  have hanswer : (writeFile emptyBoot [0x41] [0x68] ⟨linkedDisk 0x00FFFFFF, 8⟩).1
      = .error (.reading (.badCluster 0x00FFFFFF)) := by decide +kernel
  have hbyte : (writeFile emptyBoot [0x41] [0x68] ⟨linkedDisk 0x00FFFFFF, 8⟩).2.disk 513
      26 = 4 := by
    decide +kernel
  rw [hsame 8 _ _ (Prod.ext hanswer rfl) nofun] at hbyte
  exact absurd hbyte (by decide)

end Refused

/-! ### A write that is read back -/

section ReadBack

variable {boot : BootSector} {disk : Disk} {contents : List UInt8}

/-- The bytes of a file up to the end of its last sector. -/
def wholeSectors (contents : List UInt8) : List UInt8 :=
  contents ++ List.replicate (512 * divCeil contents.length 512 - contents.length) 0

lemma length_wholeSectors (contents : List UInt8) :
    (wholeSectors contents).length = 512 * divCeil contents.length 512 := by
  rw [wholeSectors, List.length_append, List.length_replicate, divCeil]
  omega

lemma sectorOf_wholeSectors (start : ℕ) :
    sectorOf (wholeSectors contents) start = sectorOf contents start := by
  funext i
  rw [sectorOf, sectorOf, wholeSectors, List.getD_eq_getElem?_getD, List.getD_eq_getElem?_getD,
    List.getElem?_append]
  split
  · rfl
  next hout =>
    rw [List.getElem?_eq_none (Nat.le_of_not_lt hout), List.getElem?_replicate]
    split <;> rfl

/-- A cluster with bytes of a file has zeroes after them. -/
lemma Filled.wholeSectors (hboot : boot.WellFormed) {cluster index : ℕ}
    (h : Filled boot contents disk cluster index) :
    Filled boot (Fat.wholeSectors contents) disk cluster index := by
  intro offset hoffset hin
  rw [sectorOf_wholeSectors]
  refine h offset hoffset ?_
  rw [length_wholeSectors, clusterBytes_eq hboot, divCeil] at *
  have hstart : index * (512 * boot.sectorsPerCluster) + offset * 512
      = 512 * (index * boot.sectorsPerCluster + offset) := by ring
  rw [hstart] at hin ⊢
  omega

/-- **Read after write, whatever else is on the disk.** On any volume whose clusters can be told
from the marks of the table, where no cluster `directory_slot` walks is free, a file that was
written is read back, and its last sector is zero after its end. -/
theorem writeFile_reads_back {name : List UInt8} {encoded : EncodedName} {left : ℕ}
    {entry : DirectoryEntry} {dev : Device} (hparse : BootSector.parse (disk 0) = .ok boot)
    (hnumbers : boot.clusters + 2 ≤ 0x0FFFFFF7) (hname : encodeName name = some encoded)
    (hdot : endsInOnlyDot name = false)
    (hwalk : ∀ cluster ∈ slotWalk boot disk encoded, entryOf boot disk cluster ≠ .free)
    (h : writeFile boot name contents ⟨disk, left⟩ = (.ok entry, dev)) :
    entry.nameText = name.map toAsciiUppercase ∧ entry.size = contents.length
      ∧ Reads boot dev.disk entry contents
      ∧ (chainData boot dev.disk (chainOf boot (entryOf boot dev.disk) entry.firstCluster)).take
          (512 * divCeil contents.length 512) = wholeSectors contents := by
  have hboot := BootSector.parse_wellFormed hparse
  obtain ⟨place, existing, new, hchosen, hput⟩ := chosen_of_writeFile hname h
  obtain ⟨rfl, hwritten, -⟩ := (putFile_triple hboot hchosen (encodeName_first hname)).ok rfl hput
  obtain ⟨hfirst, hsize⟩ := hchosen.slotEntry_new hboot
  have hlinked := hwritten.linked hnumbers
  -- the directory is in no cluster the file was given
  have hfilled := hwritten.filled fun cluster hmem offset hoffset hsector => by
    obtain ⟨cluster', hcluster', hin', offset', hoffset', hsector'⟩ := slotFor_sector hchosen.slot
    obtain ⟨hin, hfree⟩ := hchosen.free cluster hmem
    obtain ⟨rfl, -⟩ :=
      dataSector_inj hboot hin hin' hoffset hoffset' (hsector.symm.trans hsector')
    exact hwalk cluster hcluster' hfree
  have hlength : contents.length ≤ new.length * boot.clusterBytes := by
    rw [hchosen.length]
    exact le_divCeil_mul (clusterBytes_pos hboot)
  have hwhole : (wholeSectors contents).length ≤ new.length * boot.clusterBytes := by
    rw [length_wholeSectors, clusterBytes_eq hboot, divCeil] at *
    have hsectors : new.length * (512 * boot.sectorsPerCluster)
        = 512 * (new.length * boot.sectorsPerCluster) := by ring
    rw [hsectors] at hlength ⊢
    omega
  have hbytes := Filled.take_chainData hboot hfilled hlength
  have hzeroes := Filled.take_chainData hboot
    (fun cluster index hmem => (hfilled cluster index hmem).wholeSectors hboot) hwhole
  rw [length_wholeSectors] at hzeroes
  refine ⟨?_, hsize, ?_, ?_⟩
  · have htext : (slotEntry (fileSlot encoded (new.head?.getD 0) contents.length)).name
        = upper name :=
      slotName_of_encoded (encodes hname) hdot storedName_fileSlot
    rw [DirectoryEntry.nameText, htext, if_pos]
    · rfl
    · refine validUtf8_ascii fun b hb => ?_
      obtain ⟨c, hc, rfl⟩ := List.mem_map.mp hb
      exact toAsciiUppercase_lt.mpr ((encodes hname).ascii c hc)
  · have hfile := isFile_head hlinked hfirst (by rw [hsize]; exact hlength)
    have hreads := reads_of_isFile hboot hfile
    rwa [fileBytes, hfirst, chainOf_head hlinked, hsize, hbytes] at hreads
  · rw [hfirst, chainOf_head hlinked, hzeroes]

/-- Replacing a file whose one cluster links to itself. -/
theorem writeFile_reads_back_linkedDisk :
    (∀ cluster ∈ slotWalk emptyBoot (linkedDisk 3) (fun i => if i = 0 then 0x41 else space),
        entryOf emptyBoot (linkedDisk 3) cluster ≠ .free)
      ∧ ∃ entry dev, writeFile emptyBoot [0x61] [0x68] ⟨linkedDisk 3, 8⟩ = (.ok entry, dev)
        ∧ entry.nameText = [0x41] ∧ Reads emptyBoot dev.disk entry [0x68] := by
  have hname : encodeName [0x61] = some fun i => if i = 0 then 0x41 else space := by decide
  have hwalk : slotWalk emptyBoot (linkedDisk 3)
      (fun i => if i = 0 then 0x41 else space) = [2] := by
    decide +kernel
  have hused : ∀ cluster ∈ slotWalk emptyBoot (linkedDisk 3)
      (fun i => if i = 0 then 0x41 else space),
      entryOf emptyBoot (linkedDisk 3) cluster ≠ .free := by
    rw [hwalk]
    intro cluster hmem
    rw [List.mem_singleton.mp hmem]
    decide +kernel
  have hanswer : (writeFile emptyBoot [0x61] [0x68] ⟨linkedDisk 3, 8⟩).1
      = .ok ⟨[0x41], 0x20, 4, 1⟩ := by
    decide +kernel
  have hrun : writeFile emptyBoot [0x61] [0x68] ⟨linkedDisk 3, 8⟩
      = (.ok ⟨[0x41], 0x20, 4, 1⟩, _) :=
    Prod.ext hanswer rfl
  have hparse : BootSector.parse (linkedDisk 3 0) = .ok emptyBoot := parse_emptyDisk
  have hback := writeFile_reads_back hparse (by decide) hname (by decide) hused hrun
  exact ⟨hused, _, _, hrun, hback.1, hback.2.2.1⟩

end ReadBack

end Harlan.Fat
