import Mathlib.Tactic
import Harlan.Fat.Writing

/-!
Writing a file as a whole: what is on the disk after any number of its writes.

The order of `write_file` is what makes it safe: the bytes go into clusters nothing names, then
they are linked, then one write of one sector makes them the file, and only then is what the
file used before given back. So there are two kinds of disk on the way: `Before` the entry is
written, where nothing in use has changed, and `Replaced`, where the entry is the new one.

* `Replaced.sound`, `Replaced.chain`: the volume with the new entry is consistent, and the
  clusters of the new file are its chain.
* `writeFile_triple`: every disk `write_file` leaves is of one of the two kinds.
* `writeFile_crash`: so a write cut short is a write that was not made, or one that was.
* `writeFile_run`: and a run of writes keeps the volume consistent.
-/

namespace Harlan.Fat

open Eff

/-! ### The two kinds of disk -/

/-- Nothing has changed but clusters that were free. -/
def Before (boot : BootSector) (disk disk' : Disk) : Prop :=
  ∃ new, (∀ cluster ∈ new, entryOf boot disk cluster = .free) ∧ SameBut boot new new disk disk'

/-- The clusters of some entries. -/
def chainsOf (boot : BootSector) (fat : ℕ → Entry) (entries : List SlotBytes) : List ℕ :=
  entries.flatMap fun x => chainOf boot fat (slotEntry x).firstCluster

/-- The slot of a name is the new one: `new` has the bytes of the file, and nothing else in use
has changed but the chain the file had. -/
structure Replaced (boot : BootSector) (disk : Disk) (name : EncodedName) (contents : List UInt8)
    (new : List ℕ) (taken : List SlotBytes) (disk' : Disk) : Prop where
  slots : ∃ before x after, Spot name (rootSlots boot disk) before x after taken
    ∧ rootSlots boot disk' = before ++ fileSlot name (new.head?.getD 0) contents.length :: after
  length : new.length = divCeil contents.length boot.clusterBytes
  bounded : new.length ≤ maxFileClusters
  free : ∀ cluster ∈ new, boot.hasCluster cluster = true ∧ entryOf boot disk cluster = .free
  linked : ∀ first, new.head? = some first → IsChain boot (entryOf boot disk') first new
  bytes : (chainData boot disk' new).take contents.length = contents
  word : ∀ table cluster, table < boot.fatCount → boot.hasCluster cluster = true → cluster ∉ new →
    cluster ∉ chainsOf boot (entryOf boot disk) taken →
      wordOf boot disk' table cluster = wordOf boot disk table cluster
  data : ∀ cluster, boot.hasCluster cluster = true → cluster ∉ new →
    cluster ∉ chainOf boot (entryOf boot disk) boot.rootCluster →
      clusterData boot disk' cluster = clusterData boot disk cluster

section Kinds

variable {boot : BootSector} {disk disk' : Disk} {name : EncodedName} {contents : List UInt8}
  {new : List ℕ} {taken : List SlotBytes}

/-- The length of a file that is not too long fits its entry, -/
lemma length_lt (hboot : boot.WellFormed) {n : ℕ}
    (h : divCeil n boot.clusterBytes ≤ maxFileClusters) :
    n < 2 ^ 32 := by
  have hle := @le_divCeil_mul n _ (clusterBytes_pos hboot)
  have hsectors := hboot.clusterSectors
  have hcluster : boot.clusterBytes < 2 ^ 17 := by
    rw [clusterBytes_eq hboot]
    omega
  have hmul : divCeil n boot.clusterBytes * boot.clusterBytes ≤ 64 * 2 ^ 17 :=
    Nat.mul_le_mul h hcluster.le
  omega

/-- and so does the number of its first cluster. -/
lemma head_lt (hboot : boot.WellFormed) (h : ∀ cluster ∈ new, boot.hasCluster cluster = true) :
    new.head?.getD 0 < 2 ^ 32 := by
  rcases hhead : new.head? with _ | first
  · decide
  · have hin := hasCluster_iff.mp (h first (List.mem_of_mem_head? hhead))
    have hfits := hboot.fits
    have htotal := hboot.total
    have hsectors := hboot.sectorsPerCluster
    have hmul : boot.clusters ≤ boot.clusters * boot.sectorsPerCluster :=
      Nat.le_mul_of_pos_right _ hsectors
    have hdata : 1 ≤ boot.firstDataSector := by
      have := hboot.reservedSectors
      rw [BootSector.firstDataSector]
      omega
    rw [Option.getD_some]
    omega

section Head

variable {fat : ℕ → Entry} (hlinked : ∀ first, new.head? = some first →
  IsChain boot fat first new)

include hlinked

/-- Clusters that are linked, if there are any, are the chain of the first. -/
lemma chainOf_head : chainOf boot fat (new.head?.getD 0) = new := by
  rcases hhead : new.head? with _ | first
  · rw [List.head?_eq_none_iff.mp hhead]
    exact chainOf_zero _ _
  · exact (hlinked first hhead).chainOf_eq

/-- An entry that names the first of them is a file, where there are enough. -/
lemma isFile_head {entry : DirectoryEntry} (hfirst : entry.firstCluster = new.head?.getD 0)
    (hsize : entry.size ≤ new.length * boot.clusterBytes) : IsFile boot fat entry := by
  have hchain := chainOf_head hlinked
  refine ⟨fun hne => ?_, ?_⟩
  · rcases hhead : new.head? with _ | first
    · rw [hfirst, hhead] at hne
      exact absurd rfl hne
    · rw [hfirst, hchain, hhead]
      exact hlinked first hhead
  · rw [hfirst, hchain]
    exact hsize

end Head

namespace Replaced

variable (h : Replaced boot disk name contents new taken disk') (hboot : boot.WellFormed)
  (hvolume : Consistent boot disk)

include h hboot

lemma entryOf_eq {cluster : ℕ} (hcluster : boot.hasCluster cluster = true)
    (hused : entryOf boot disk cluster ≠ .free)
    (hout : cluster ∉ chainsOf boot (entryOf boot disk) taken) :
    entryOf boot disk' cluster = entryOf boot disk cluster := by
  rw [entryOf, h.word 0 cluster hboot.fatCount hcluster
    (fun hmem => hused (h.free cluster hmem).2)
    hout, entryOf]

lemma same {cluster : ℕ} (hcluster : boot.hasCluster cluster = true)
    (hused : entryOf boot disk cluster ≠ .free)
    (hout : ∀ y ∈ taken, cluster ∉ chainOf boot (entryOf boot disk) (slotEntry y).firstCluster) :
    entryOf boot disk' cluster = entryOf boot disk cluster := by
  refine h.entryOf_eq hboot hcluster hused fun hmem => ?_
  obtain ⟨y, hy, hmem⟩ := List.mem_flatMap.mp hmem
  exact hout y hy hmem

lemma size_lt : contents.length < 2 ^ 32 := by
  have hbounded := h.bounded
  rw [h.length] at hbounded
  exact length_lt hboot hbounded

lemma first_lt : new.head?.getD 0 < 2 ^ 32 :=
  head_lt hboot fun cluster hmem => (h.free cluster hmem).1

/-- The slot written. -/
lemma slotEntry_new :
    (slotEntry (fileSlot name (new.head?.getD 0) contents.length)).firstCluster = new.head?.getD 0
      ∧ (slotEntry (fileSlot name (new.head?.getD 0) contents.length)).size = contents.length :=
  (slotEntry_fileSlot (h.first_lt hboot) (h.size_lt hboot)).2

/-- The clusters that were taken are the chain of the new file. -/
lemma chainOf_new :
    chainOf boot (entryOf boot disk')
      (slotEntry (fileSlot name (new.head?.getD 0) contents.length)).firstCluster = new := by
  rw [(h.slotEntry_new hboot).1]
  exact chainOf_head h.linked

lemma isFile_new :
    IsFile boot (entryOf boot disk')
      (slotEntry (fileSlot name (new.head?.getD 0) contents.length)) := by
  refine isFile_head h.linked (h.slotEntry_new hboot).1 ?_
  rw [(h.slotEntry_new hboot).2, h.length]
  exact le_divCeil_mul (clusterBytes_pos hboot)

lemma fileBytes_new :
    fileBytes boot disk' (slotEntry (fileSlot name (new.head?.getD 0) contents.length))
      = contents := by
  rw [fileBytes, h.chainOf_new hboot, (h.slotEntry_new hboot).2, h.bytes]

include hvolume

/-- **The volume with the new entry is consistent.** -/
theorem consistent (hname : name 0 ≠ entryNeverUsed ∧ name 0 ≠ entryDeleted) :
    Consistent boot disk' := by
  obtain ⟨before, x, after, hspot, hslots⟩ := h.slots
  rw [Consistent, hslots]
  refine hvolume.replace hspot
    (fun cluster hcluster hused hout => h.same hboot hcluster hused hout)
    (decodeSlot_fileSlot hname.1 hname.2) storesName_fileSlot
    (h.isFile_new hboot) fun cluster hmem => ?_
  rw [h.chainOf_new hboot] at hmem
  exact (h.free cluster hmem).2

omit hboot hvolume in
/-- The files of other names are still there. -/
lemma filter_others (hname : name 0 ≠ entryNeverUsed ∧ name 0 ≠ entryDeleted) :
    (rootEntries boot disk').filter (fun x => !storesName x name)
      = (rootEntries boot disk).filter (fun x => !storesName x name) := by
  obtain ⟨before, x, after, hspot, hslots⟩ := h.slots
  have hnew := hspot.replace (@decodeSlot_fileSlot _ (new.head?.getD 0) contents.length
    hname.1 hname.2) storesName_fileSlot
  rw [rootEntries, hslots, hnew.filter_others, rootEntries, hspot.filter_others]

omit hboot hvolume in
/-- The new entry is the one entry of its name. -/
lemma filter_named (hname : name 0 ≠ entryNeverUsed ∧ name 0 ≠ entryDeleted) :
    (rootEntries boot disk').filter (fun x => storesName x name)
        = [fileSlot name (new.head?.getD 0) contents.length]
      ∧ (rootEntries boot disk).filter (fun x => storesName x name) = taken := by
  obtain ⟨before, x, after, hspot, hslots⟩ := h.slots
  have hnew := hspot.replace (@decodeSlot_fileSlot _ (new.head?.getD 0) contents.length
    hname.1 hname.2) storesName_fileSlot
  rw [rootEntries, hslots, hnew.filter_named, rootEntries, hspot.filter_named]
  exact ⟨rfl, rfl⟩

/-- And have their bytes. -/
lemma fileBytes_others {x : SlotBytes}
    (hx : x ∈ (rootEntries boot disk).filter (fun x => !storesName x name)) :
    IsFile boot (entryOf boot disk') (slotEntry x)
      ∧ fileBytes boot disk' (slotEntry x) = fileBytes boot disk (slotEntry x) := by
  obtain ⟨before, y, after, hspot, hslots⟩ := h.slots
  rw [rootEntries, hspot.filter_others] at hx
  have hmem := hspot.others_sublist.subset hx
  obtain ⟨hfile, hchain⟩ := hvolume.file_replace hspot
    (fun cluster hcluster hused hout => h.same hboot hcluster hused hout) hx
  refine ⟨hfile, ?_⟩
  have hdata : chainData boot disk' (chainOf boot (entryOf boot disk) (slotEntry x).firstCluster)
      = chainData boot disk (chainOf boot (entryOf boot disk) (slotEntry x).firstCluster) := by
    refine List.flatMap_congr fun cluster hcluster => ?_
    obtain ⟨hin, hused⟩ := (hvolume.file x hmem).inside hcluster
    exact h.data cluster hin (fun hnew => hused (h.free cluster hnew).2)
      fun hroot => hvolume.disjointRoot x hmem hroot hcluster
  rw [fileBytes, hchain, hdata, fileBytes]

end Replaced

section Before

variable (hboot : boot.WellFormed) (hvolume : Consistent boot disk) (h : Before boot disk disk')

include hboot hvolume h

/-- Before the entry is written, the directory and every file are as they were. -/
lemma Before.kept :
    Consistent boot disk' ∧ rootSlots boot disk' = rootSlots boot disk
      ∧ ∀ x ∈ rootEntries boot disk, IsFile boot (entryOf boot disk') (slotEntry x)
        ∧ chainOf boot (entryOf boot disk') (slotEntry x).firstCluster
          = chainOf boot (entryOf boot disk) (slotEntry x).firstCluster
        ∧ fileBytes boot disk' (slotEntry x) = fileBytes boot disk (slotEntry x) := by
  obtain ⟨new, hfree, hsame⟩ := h
  have hentry : ∀ cluster, boot.hasCluster cluster = true → entryOf boot disk cluster ≠ .free →
      entryOf boot disk' cluster = entryOf boot disk cluster :=
    fun cluster hcluster hused =>
      hsame.entryOf hboot hcluster fun hmem => hused (hfree cluster hmem)
  have hroot := @Sound.root_congr _ _ (entryOf boot disk') _ hvolume fun cluster hmem =>
    hentry cluster (hvolume.root.inside cluster hmem) (hvolume.root.not_free hmem)
  have hslots : rootSlots boot disk' = rootSlots boot disk := by
    rw [rootSlots, hroot.2, rootSlots]
    exact List.map_congr_left fun place hplace => slotOf_congr hsame hvolume.root.inside
      (fun cluster hmem hnew => hvolume.root.not_free hmem (hfree cluster hnew)) hplace
  refine ⟨?_, hslots, fun x hx => ?_⟩
  · rw [Consistent, hslots]
    exact hvolume.congr hentry
  · obtain ⟨hfile, hchain⟩ := hvolume.file_congr hentry hx
    refine ⟨hfile, hchain, ?_⟩
    have hdata : chainData boot disk'
        (chainOf boot (entryOf boot disk) (slotEntry x).firstCluster)
        = chainData boot disk (chainOf boot (entryOf boot disk) (slotEntry x).firstCluster) := by
      refine List.flatMap_congr fun cluster hcluster => ?_
      obtain ⟨hin, hused⟩ := (hvolume.file x hx).inside hcluster
      exact hsame.clusterData hin fun hnew => hused (hfree cluster hnew)
    rw [fileBytes, hchain, hdata, fileBytes]

end Before

end Kinds

/-! ### The parts put together -/

section Write

variable {boot : BootSector} {disk : Disk} {name : EncodedName} {contents : List UInt8}

/-- The entry written over a disk whose new clusters are full and linked. -/
lemma replaced_putEntry (hboot : boot.WellFormed) (hvolume : Consistent boot disk)
    {new : List ℕ} {before after : List Place} {place : Place} {taken : List SlotBytes}
    (hspot : SpotAt name disk (rootPlaces boot disk) before place after taken)
    (hlength : new.length = divCeil contents.length boot.clusterBytes)
    (hbounded : new.length ≤ maxFileClusters)
    (hfree : ∀ cluster ∈ new, boot.hasCluster cluster = true ∧ entryOf boot disk cluster = .free)
    {disk' : Disk} (hsame : SameBut boot new new disk disk')
    (hlinked : ∀ first, new.head? = some first → IsChain boot (entryOf boot disk') first new)
    (hbytes : (chainData boot disk' new).take contents.length = contents) :
    let written := Function.update disk' place.1
      (putSlot (disk' place.1) place.2 (fileSlot name (new.head?.getD 0) contents.length))
    Replaced boot disk name contents new taken written ∧ ∀ cluster,
      boot.hasCluster cluster = true →
      cluster ∉ new → entryOf boot written cluster = entryOf boot disk cluster := by
  -- the sector written is one of the root directory
  have hplace : place ∈ rootPlaces boot disk := by
    rw [hspot.split]
    exact List.mem_append_right _ List.mem_cons_self
  obtain ⟨cluster, hcluster, offset, hoffset, hsector⟩ := mem_placesOf hplace
  have hin := hvolume.root.inside cluster hcluster
  have hnew : ∀ c ∈ chainOf boot (entryOf boot disk) boot.rootCluster, c ∉ new :=
    fun c hmem hnew => hvolume.root.not_free hmem (hfree c hnew).2
  have hwrite : SameBut boot [] [cluster] disk' (Function.update disk' place.1
      (putSlot (disk' place.1) place.2 (fileSlot name (new.head?.getD 0) contents.length))) := by
    rw [hsector]
    exact sameBut_data hboot _ hin hoffset
  have hentry : ∀ c, boot.hasCluster c = true → c ∉ new →
      entryOf boot (Function.update disk' place.1
      (putSlot (disk' place.1) place.2 (fileSlot name (new.head?.getD 0) contents.length))) c
        = entryOf boot disk c :=
    fun c hc hout => (hwrite.entryOf hboot hc List.not_mem_nil).trans
    (hsame.entryOf hboot hc hout)
  refine ⟨⟨⟨before.map (slotOf disk), slotOf disk place, after.map (slotOf disk), hspot.spot, ?_⟩,
    hlength, hbounded, hfree, fun first hfirst => ?_, ?_, fun table c htable hc hout _ => ?_,
    fun c hc hout hroot => ?_⟩, hentry⟩
  · have hroot := (hvolume.root_congr fun c hmem =>
      hentry c (hvolume.root.inside c hmem) (hnew c hmem)).2
    have hnodup : (before ++ place :: after).Nodup := by
      rw [← hspot.split]
      exact placesOf_nodup hboot hvolume.root.nodup hvolume.root.inside
    have hplaces : ∀ place' ∈ rootPlaces boot disk, slotOf disk' place' = slotOf disk place' :=
      fun place' hplace' => slotOf_congr hsame hvolume.root.inside hnew hplace'
    rw [rootSlots, hroot, ← rootPlaces, hspot.split, map_putSlot hnodup]
    rw [hspot.split] at hplaces
    congr 1
    · exact List.map_congr_left fun p hp => hplaces p (List.mem_append_left _ hp)
    · congr 1
      exact List.map_congr_left fun p hp =>
        hplaces p (List.mem_append_right _ (List.mem_cons_of_mem _ hp))
  · exact (hlinked first hfirst).congr fun c hc =>
      hwrite.entryOf hboot (hfree c hc).1 List.not_mem_nil
  · have hdata : chainData boot (Function.update disk' place.1
        (putSlot (disk' place.1) place.2 (fileSlot name (new.head?.getD 0) contents.length))) new
          = chainData boot disk' new :=
      List.flatMap_congr fun c hc => hwrite.clusterData (hfree c hc).1 fun hmem =>
        hnew cluster hcluster (List.mem_singleton.mp hmem ▸ hc)
    rw [hdata, hbytes]
  · exact (hwrite.word table c htable hc List.not_mem_nil).trans
      (hsame.word table c htable hc hout)
  · refine (hwrite.clusterData hc fun hmem => hroot ?_).trans (hsame.clusterData hc hout)
    rw [List.mem_singleton.mp hmem]
    exact hcluster

/-- Giving back what the file used before changes nothing of it. -/
lemma Replaced.freed (hboot : boot.WellFormed) (hvolume : Consistent boot disk) {new : List ℕ}
    {taken : List SlotBytes} {disk' disk'' : Disk}
    (h : Replaced boot disk name contents new taken disk')
    (hsame : SameBut boot (chainsOf boot (entryOf boot disk) taken) [] disk' disk'') :
    Replaced boot disk name contents new taken disk'' := by
  obtain ⟨before, x, after, hspot, hslots⟩ := h.slots
  -- neither the new chain nor that of the directory meets the old one
  have hold : ∀ c ∈ chainsOf boot (entryOf boot disk) taken, entryOf boot disk c ≠ .free
      ∧ c ∉ chainOf boot (entryOf boot disk) boot.rootCluster := by
    intro c hc
    obtain ⟨y, hy, hmem⟩ := List.mem_flatMap.mp hc
    have hy' := hspot.taken_subset hy
    exact ⟨((hvolume.file y hy').inside hmem).2,
      fun hroot => hvolume.disjointRoot y hy' hroot hmem⟩
  have hroot' : chainOf boot (entryOf boot disk') boot.rootCluster
      = chainOf boot (entryOf boot disk) boot.rootCluster :=
    (hvolume.root_replace hspot fun c hc hused hout => h.same hboot hc hused hout).2
  have hroot'' : chainOf boot (entryOf boot disk'') boot.rootCluster
      = chainOf boot (entryOf boot disk) boot.rootCluster :=
    (hvolume.root_congr fun c hmem => by
      rw [hsame.entryOf hboot (hvolume.root.inside c hmem) fun hc => (hold c hc).2 hmem,
        h.entryOf_eq hboot (hvolume.root.inside c hmem) (hvolume.root.not_free hmem)
          fun hc => (hold c hc).2 hmem]).2
  have hdata : ∀ c, boot.hasCluster c = true →
      clusterData boot disk'' c = clusterData boot disk' c :=
    fun c hc => hsame.clusterData hc List.not_mem_nil
  refine ⟨⟨before, x, after, hspot, ?_⟩, h.length, h.bounded, h.free, fun first hfirst => ?_, ?_,
    fun table c htable hc hout hout' => ?_, fun c hc hout hroot => ?_⟩
  · rw [← hslots, rootSlots, hroot'', rootSlots, hroot']
    exact List.map_congr_left fun place hplace => slotOf_congr hsame hvolume.root.inside
      (fun _ _ => List.not_mem_nil) hplace
  · refine (h.linked first hfirst).congr fun c hc =>
      hsame.entryOf hboot (h.free c hc).1 fun hc' => ?_
    exact (hold c hc').1 (h.free c hc).2
  · have hchain : chainData boot disk'' new = chainData boot disk' new :=
      List.flatMap_congr fun c hc => hdata c (h.free c hc).1
    rw [hchain, h.bytes]
  · exact (hsame.word table c htable hc hout').trans (h.word table c htable hc hout hout')
  · exact (hdata c hc).trans (h.data c hc hout hroot)

lemma freeOld_triple (hboot : boot.WellFormed) (hvolume : Consistent boot disk) {new : List ℕ}
    {taken : List SlotBytes} {disk' : Disk} (h : Replaced boot disk name contents new taken disk')
    (hentry : ∀ cluster, boot.hasCluster cluster = true → cluster ∉ new →
      entryOf boot disk' cluster = entryOf boot disk cluster) :
    Triple (fun dev => dev.disk = disk') (freeOld boot (taken.head?.map slotEntry) new)
      (fun _ dev => SameBut boot (chainsOf boot (entryOf boot disk) taken) [] disk' dev.disk
        ∧ ∀ cluster ∈ chainsOf boot (entryOf boot disk) taken, Says boot dev.disk cluster .free)
      (fun _ dev => SameBut boot (chainsOf boot (entryOf boot disk) taken)
        [] disk' dev.disk) := by
  obtain ⟨before, x, after, hspot, -⟩ := h.slots
  have hnothing : chainsOf boot (entryOf boot disk) taken = [] →
      Triple (fun dev : Device => dev.disk = disk') (Pure.pure () : Writing Unit)
        (fun _ dev => SameBut boot (chainsOf boot (entryOf boot disk) taken) [] disk' dev.disk
          ∧ ∀ cluster ∈ chainsOf boot (entryOf boot disk) taken, Says boot dev.disk cluster .free)
        (fun _ dev => SameBut boot (chainsOf boot (entryOf boot disk) taken)
          [] disk' dev.disk) := by
    intro hempty
    rw [hempty]
    refine Triple.pure fun dev hdev => ⟨?_, nofun⟩
    rw [hdev]
    exact .refl
  obtain htaken | htaken := hspot.holds
  · have hchains : chainsOf boot (entryOf boot disk) taken
        = chainOf boot (entryOf boot disk) (slotEntry x).firstCluster := by
      rw [htaken]
      exact List.flatMap_singleton _ _
    have hx : x ∈ rootEntries boot disk := by
      refine hspot.taken_subset ?_
      rw [htaken]
      exact List.mem_singleton_self x
    have hexisting : taken.head?.map slotEntry = some (slotEntry x) := by
      rw [htaken]
      rfl
    rw [hexisting, freeOld]
    by_cases hfirst : (slotEntry x).firstCluster = 0
    · rw [if_pos hfirst]
      refine hnothing ?_
      rw [hchains, hfirst, chainOf_zero]
    · rw [if_neg hfirst, hchains]
      -- the old chain is still there, and it is not the new one
      have hchain := (hvolume.file x hx).chain hfirst
      have hnew : ∀ c ∈ chainOf boot (entryOf boot disk) (slotEntry x).firstCluster, c ∉ new :=
        fun c hc hnew => hchain.not_free hc (h.free c hnew).2
      have hchain' := @IsChain.congr _ _ (entryOf boot disk') _ _ hchain fun c hc =>
        hentry c (hchain.inside c hc) (hnew c hc)
      exact freeChainFrom_triple hboot hchain' hnew hchain.length_le
  · rw [htaken, List.head?_nil, Option.map_none]
    rw [htaken] at hnothing
    exact hnothing rfl

/-- **Every disk `write_file` leaves.** Cut short, it is of one of the two kinds; after it
answers, the entry is the new one, and all the file used before is free. -/
theorem writeFile_triple (hboot : boot.WellFormed) (hvolume : Consistent boot disk)
    {text : List UInt8} (hname : encodeName text = some name) :
    Triple (fun dev => dev.disk = disk) (writeFile boot text contents)
      (fun entry dev => ∃ new taken, Replaced boot disk name contents new taken dev.disk
        ∧ (∀ cluster ∈ chainsOf boot (entryOf boot disk) taken, Says boot dev.disk cluster .free)
        ∧ entry = slotEntry (fileSlot name (new.head?.getD 0) contents.length)
        ∧ ∀ y ∈ taken, (slotEntry y).isDirectory = false)
      (fun _ dev => Before boot disk dev.disk
        ∨ ∃ new taken, Replaced boot disk name contents new taken dev.disk) := by
  have hbefore : ∀ dev : Device, dev.disk = disk → Before boot disk dev.disk := by
    rintro dev rfl
    exact ⟨[], nofun, .refl⟩
  obtain ⟨hused, hkept⟩ := encodeName_first hname
  rw [writeFile, hname]
  refine ((directorySlot_triple hvolume).conseq (fun _ h => h) (fun _ _ h => h)
    fun _ dev h => .inl (hbefore dev h)).bind fun found => ?_
  obtain ⟨place, existing⟩ := found
  rintro dev ⟨hdev, before, after, taken, hspot, rfl⟩
  revert hdev
  refine (?_ : Triple (fun dev => dev.disk = disk) _ _ _) dev
  dsimp only
  split
  · exact Triple.fail fun dev hdev => .inl (hbefore dev hdev)
  next hfile =>
  refine (freeClusters_triple.conseq (fun _ h => h) (fun _ _ h => h)
    fun _ dev h => .inl (hbefore dev h)).bind fun new => Triple.fact fun hnew => ?_
  obtain ⟨hlength, hbounded, hnodup, hfree⟩ := hnew
  have hinside := fun c hc => (hfree c hc).1
  have hnothing : ∀ {disk'}, SameBut boot new new disk disk' → Before boot disk disk' :=
    fun hsame => ⟨new, fun c hc => (hfree c hc).2, hsame⟩
  -- the bytes
  refine Triple.bindState ((writeClusters_triple hboot hinside hnodup).conseq (fun _ h => h)
    (fun _ _ h => h) fun _ dev h =>
    .inl (hnothing (h.mono (List.nil_subset _) (List.Subset.refl _))))
    fun _ dev1 hfilled => ?_
  obtain ⟨hsame1, hfilled⟩ := hfilled
  have hsame1 := hsame1.mono (List.nil_subset new) (List.Subset.refl new)
  -- the chain
  refine Triple.bindState ((@linkChain_triple _ dev1.disk hboot _ hinside hnodup).conseq
    (fun _ h => congrArg Device.disk h) (fun _ _ h => h)
    fun _ dev h => .inl
    (hnothing (hsame1.trans (h.mono (List.Subset.refl _) (List.nil_subset _)))))
    fun _ dev2 hlinked => ?_
  obtain ⟨hsame2, hlinked⟩ := hlinked
  have hlinked := hlinked hvolume.clusters
  have hdata : chainData boot dev2.disk new = chainData boot dev1.disk new :=
    List.flatMap_congr fun c hc => hsame2.clusterData (hinside c hc) List.not_mem_nil
  have hsame2 := hsame1.trans (hsame2.mono (List.Subset.refl _) (List.nil_subset _))
  have hbytes : (chainData boot dev2.disk new).take contents.length = contents := by
    rw [hdata]
    refine Filled.take_chainData hboot hfilled ?_
    rw [hlength]
    exact le_divCeil_mul (clusterBytes_pos hboot)
  -- the entry
  obtain ⟨hreplaced, hentry⟩ :=
    replaced_putEntry hboot hvolume hspot hlength (by omega) hfree hsame2
    hlinked hbytes
  refine Triple.bindState ((modifySector_triple (P := fun disk' => disk' = dev2.disk)
    (Q := fun disk' => disk' = Function.update dev2.disk place.1
      (putSlot (dev2.disk place.1) place.2
      (fileSlot name (new.head?.getD 0) contents.length))) (by rintro disk' rfl; rfl)).conseq
    (fun _ h => congrArg Device.disk h) (fun _ _ h => h) fun _ dev h =>
    .inl (hnothing (h ▸ hsame2)))
    fun _ dev3 hdev3 => ?_
  rw [← hdev3] at hreplaced hentry
  -- and what it replaced
  refine Triple.bindState ((freeOld_triple hboot hvolume hreplaced hentry).conseq
    (fun _ h => congrArg Device.disk h) (fun _ _ h => h)
    fun _ dev h => .inr ⟨new, taken, hreplaced.freed hboot hvolume h⟩) fun _ dev4 hfreed => ?_
  obtain ⟨hsame4, hfreed⟩ := hfreed
  have hreplaced4 := hreplaced.freed hboot hvolume hsame4
  have hhint : ∀ {disk'}, SameBut boot [] [] dev4.disk disk' →
      Replaced boot disk name contents new taken disk' := fun h =>
    hreplaced4.freed hboot hvolume (h.mono (List.nil_subset _) (List.Subset.refl _))
  refine Triple.bindState ((@updateFsInfo_triple _ dev4.disk).conseq
    (fun _ h => congrArg Device.disk h) (fun _ _ h => h) fun _ dev h =>
    .inr ⟨new, taken, hhint h⟩)
    fun _ dev5 hsame5 => ?_
  rw [decodeSlot_fileSlot hused hkept]
  refine Triple.pure fun dev hdev => ⟨new, taken, ?_, ?_, rfl, ?_⟩
  · rw [hdev]
    exact hhint hsame5
  · intro c hc
    rw [hdev]
    obtain ⟨y, hy, hmem⟩ := List.mem_flatMap.mp hc
    have hy' := hspot.spot.taken_subset hy
    exact (hfreed c hc).congr hsame5 ((hvolume.file y hy').inside hmem).1 List.not_mem_nil
  · intro y hy
    obtain htaken | htaken := hspot.spot.holds
    · rw [htaken] at hfile hy
      rw [List.mem_singleton.mp hy]
      simpa using hfile
    · rw [htaken] at hy
      exact absurd hy List.not_mem_nil

end Write

/-! ### A volume with nothing on it -/

/-- The boot sector of a volume of 65525 clusters of one sector. -/
def emptyBoot : BootSector := ⟨512, 1, 1, 1, 66038, 512, 2, 0, 65525, none⟩

/-- A volume as a formatter leaves it: the root directory is cluster 2, and has nothing in it. -/
def emptyDisk : Disk
  | 0 => fun i =>
      match i.val with
      | 12 => 2
      | 13 | 14 | 16 => 1
      | 32 => 0xF6
      | 33 | 34 => 1
      | 37 => 2
      | 44 => 2
      | 510 => 0x55
      | 511 => 0xAA
      | _ => 0
  | 1 => putWord (fun _ => 0) 8 endOfChain
  | _ => fun _ => 0

lemma parse_emptyDisk : BootSector.parse (emptyDisk 0) = .ok emptyBoot := by decide +kernel

/-- A volume whose root directory is one cluster with nothing in it is consistent. -/
lemma consistent_blank {boot : BootSector} {disk : Disk}
    (hclusters : boot.clusters + 2 ≤ 0x0FFFFFF7)
    (hroot : IsChain boot (entryOf boot disk) boot.rootCluster [boot.rootCluster])
    (hblank : ∀ offset < boot.sectorsPerCluster,
      disk (dataSector boot boot.rootCluster offset) = fun _ => 0) : Consistent boot disk := by
  have hslots : ∀ x ∈ rootSlots boot disk, x 0 = 0 := by
    intro x hx
    rw [rootSlots, hroot.chainOf_eq] at hx
    obtain ⟨place, hplace, rfl⟩ := List.mem_map.mp hx
    obtain ⟨cluster, hmem, offset, hoffset, hsector⟩ := mem_placesOf hplace
    obtain rfl := List.mem_singleton.mp hmem
    rw [slotOf, hsector, hblank offset hoffset]
    rfl
  have hnone := entriesOf_zero hslots
  refine ⟨hclusters, ?_, ?_, ?_, ?_, ?_, fun before x after hsplit _ y hy => ?_⟩
  · rw [hroot.chainOf_eq]
    exact hroot
  · rw [hnone]
    exact List.forall_mem_nil _
  · rw [hnone]
    exact List.forall_mem_nil _
  · rw [hnone]
    exact .nil
  · rw [hnone]
    exact .nil
  · refine hslots y ?_
    rw [hsplit]
    exact List.mem_append_right _ (List.mem_cons_of_mem _ hy)

lemma consistent_emptyDisk : Consistent emptyBoot emptyDisk := by
  refine consistent_blank (by decide) ⟨.single (by decide +kernel), fun cluster hmem => ?_⟩
    fun offset hoffset => ?_
  · rw [List.mem_singleton.mp hmem]
    decide +kernel
  · obtain rfl : offset = 0 := Nat.lt_one_iff.mp hoffset
    rfl

/-! ### A write cut short -/

section Crash

variable {boot : BootSector} {disk disk' : Disk}

/-- `read_file` gives these bytes for an entry, to a caller with room for them. -/
def Reads (boot : BootSector) (disk : Disk) (entry : DirectoryEntry)
    (bytes : List UInt8) : Prop :=
  ∀ left room, entry.size ≤ room → Returns (readFile boot entry room) ⟨disk, left⟩ bytes

/-- The entries of the root directory that have a name. -/
def named (boot : BootSector) (disk : Disk) (name : EncodedName) : List SlotBytes :=
  (rootEntries boot disk).filter fun x => storesName x name

/-- Those that have another. -/
def others (boot : BootSector) (disk : Disk) (name : EncodedName) : List SlotBytes :=
  (rootEntries boot disk).filter fun x => !storesName x name

lemma reads_of_isFile (hboot : boot.WellFormed) {entry : DirectoryEntry}
    (h : IsFile boot (entryOf boot disk) entry) :
    Reads boot disk entry (fileBytes boot disk entry) :=
  fun _ _ hroom => readFile_returns hboot h hroom

/-- An entry of a consistent volume that keeps its bytes is read as before. -/
lemma reads_same (hboot : boot.WellFormed) (hvolume : Consistent boot disk) {x : SlotBytes}
    (hx : x ∈ rootEntries boot disk) (hfile : IsFile boot (entryOf boot disk') (slotEntry x))
    (hbytes : fileBytes boot disk' (slotEntry x) = fileBytes boot disk (slotEntry x)) :
    ∃ bytes, Reads boot disk (slotEntry x) bytes ∧ Reads boot disk' (slotEntry x) bytes := by
  refine ⟨_, reads_of_isFile hboot (hvolume.file x hx), ?_⟩
  rw [← hbytes]
  exact reads_of_isFile hboot hfile

/-- Wherever it is cut, a write has left everything as it was, or has replaced the file. -/
lemma writeFile_kinds {name contents : List UInt8} {encoded : EncodedName}
    (hboot : boot.WellFormed) (hvolume : Consistent boot disk)
    (hname : encodeName name = some encoded) (k : ℕ)
    (hdisk' : disk' = (writeFile boot name contents ⟨disk, k⟩).2.disk) :
    Before boot disk disk' ∨ ∃ new taken,
      Replaced boot disk encoded contents new taken disk' := by
  have htriple := @writeFile_triple _ _ _ contents hboot hvolume _ hname ⟨disk, k⟩ rfl
  rcases hresult : writeFile boot name contents ⟨disk, k⟩ with ⟨err | entry, dev⟩
  · rw [hresult] at htriple hdisk'
    rw [hdisk']
    exact htriple
  · rw [hresult] at htriple hdisk'
    obtain ⟨new, taken, hreplaced, -⟩ := htriple
    rw [hdisk']
    exact .inr ⟨new, taken, hreplaced⟩

/-- Wherever it is cut, a file of another name is still there, with its bytes. -/
lemma writeFile_spares {name contents : List UInt8} {encoded : EncodedName}
    (hboot : boot.WellFormed) (hvolume : Consistent boot disk)
    (hname : encodeName name = some encoded) (k : ℕ)
    (hdisk' : disk' = (writeFile boot name contents ⟨disk, k⟩).2.disk) :
    Consistent boot disk' ∧ ∀ x ∈ rootEntries boot disk, storesName x encoded = false →
      x ∈ rootEntries boot disk' ∧ fileBytes boot disk' (slotEntry x)
        = fileBytes boot disk (slotEntry x) := by
  have hfirst := encodeName_first hname
  obtain hbefore | ⟨new, taken, hreplaced⟩ := writeFile_kinds hboot hvolume hname k hdisk'
  · obtain ⟨hvolume', hslots, hfiles⟩ := hbefore.kept hboot hvolume
    refine ⟨hvolume', fun x hx _ => ⟨?_, (hfiles x hx).2.2⟩⟩
    rwa [rootEntries, hslots]
  · refine ⟨hreplaced.consistent hboot hvolume hfirst, fun x hx hother => ?_⟩
    have hmem : x ∈ (rootEntries boot disk).filter fun x => !storesName x encoded :=
      List.mem_filter.mpr ⟨hx, by rw [hother]; rfl⟩
    have hmem' := hmem
    rw [← hreplaced.filter_others hfirst] at hmem'
    exact ⟨List.mem_of_mem_filter hmem', (hreplaced.fileBytes_others hboot hvolume hmem).2⟩

/-- **A write cut short is a write that was not made, or one that was.** On a consistent volume,
whatever number `k` of the writes of `write_file` take effect, the volume is consistent, every
entry of another name is still listed and read as before, and the name has what it had before or
one entry with the new contents. -/
theorem writeFile_crash {name contents : List UInt8} {encoded : EncodedName}
    (hparse : BootSector.parse (disk 0) = .ok boot) (hvolume : Consistent boot disk)
    (hname : encodeName name = some encoded) (k : ℕ)
    (hdisk' : disk' = (writeFile boot name contents ⟨disk, k⟩).2.disk) :
    Consistent boot disk'
      ∧ (∀ left, Returns (list boot) ⟨disk', left⟩ ((rootEntries boot disk').map slotEntry))
      ∧ others boot disk' encoded = others boot disk encoded
      ∧ (∀ x ∈ others boot disk encoded, ∃ bytes,
          Reads boot disk (slotEntry x) bytes ∧ Reads boot disk' (slotEntry x) bytes)
      ∧ ((named boot disk' encoded = named boot disk encoded
        ∧ ∀ x ∈ named boot disk encoded, ∃ bytes,
            Reads boot disk (slotEntry x) bytes ∧ Reads boot disk' (slotEntry x) bytes)
        ∨ ∃ x, named boot disk' encoded = [x] ∧ storedName x = encoded
            ∧ (slotEntry x).size = contents.length
              ∧ Reads boot disk' (slotEntry x) contents) := by
  have hboot := BootSector.parse_wellFormed hparse
  have hfirst := encodeName_first hname
  have hmem : ∀ {p : SlotBytes → Bool} {x}, x ∈ (rootEntries boot disk).filter p →
      x ∈ rootEntries boot disk := fun hx => List.mem_of_mem_filter hx
  obtain hbefore | ⟨new, taken, hreplaced⟩ := writeFile_kinds hboot hvolume hname k hdisk'
  · obtain ⟨hvolume', hslots, hfiles⟩ := hbefore.kept hboot hvolume
    have hentries : rootEntries boot disk' = rootEntries boot disk := by
      rw [rootEntries, hslots, rootEntries]
    refine ⟨hvolume', fun left => @list_returns _ ⟨disk', left⟩ _ hvolume'.root, ?_,
      fun x hx => ?_, .inl ⟨?_, fun x hx => ?_⟩⟩
    · rw [others, hentries, others]
    · obtain ⟨hfile, -, hbytes⟩ := hfiles x (hmem hx)
      exact reads_same hboot hvolume (hmem hx) hfile hbytes
    · rw [named, hentries, named]
    · obtain ⟨hfile, -, hbytes⟩ := hfiles x (hmem hx)
      exact reads_same hboot hvolume (hmem hx) hfile hbytes
  · have hvolume' := hreplaced.consistent hboot hvolume hfirst
    refine ⟨hvolume', fun left => @list_returns _ ⟨disk', left⟩ _ hvolume'.root,
      hreplaced.filter_others hfirst, fun x hx => ?_,
      .inr ⟨_, (hreplaced.filter_named hfirst).1, storedName_fileSlot,
        (hreplaced.slotEntry_new hboot).2, ?_⟩⟩
    · obtain ⟨hfile, hbytes⟩ := hreplaced.fileBytes_others hboot hvolume hx
      exact reads_same hboot hvolume (hmem hx) hfile hbytes
    · have hreads := reads_of_isFile hboot (hreplaced.isFile_new hboot)
      rwa [hreplaced.fileBytes_new hboot] at hreads

/-- The bytes of a file of two clusters. -/
def longContents : List UInt8 := List.replicate 600 0x61

/-- A volume with a file `A` of two clusters. -/
def withA : Disk := (writeFile emptyBoot [0x41] longContents ⟨emptyDisk, 32⟩).2.disk

/-- A volume with a file `A` of two clusters and a file `B` of one. -/
def twoFiles : Disk := (writeFile emptyBoot [0x42] [0x68] ⟨withA, 32⟩).2.disk

/-- The name `A`, as a slot has it. -/
def nameA : EncodedName := fun i => if i = 0 then 0x41 else space

lemma encodeName_A : encodeName [0x41] = some nameA := by decide

lemma consistent_twoFiles : Consistent emptyBoot twoFiles := by
  have hboot := BootSector.parse_wellFormed parse_emptyDisk
  have hwithA : Consistent emptyBoot withA :=
    (writeFile_spares hboot consistent_emptyDisk encodeName_A 32 rfl).1
  exact (writeFile_spares hboot hwithA
    (Option.some_get (by decide : (encodeName [0x42]).isSome)).symm 32 rfl).1

lemma parse_twoFiles : BootSector.parse (twoFiles 0) = .ok emptyBoot := by decide +kernel

/-- Writing `A` anew beside `B`, cut after two writes: `B` is there, and `A` is the one it was. -/
theorem writeFile_crash_twoFiles :
    let cut := (writeFile emptyBoot [0x41] [0x68] ⟨twoFiles, 2⟩).2.disk
    (others emptyBoot twoFiles nameA).length = 1 ∧ (named emptyBoot twoFiles nameA).length = 1
      ∧ Consistent emptyBoot cut ∧ others emptyBoot cut nameA = others emptyBoot twoFiles nameA
      ∧ (named emptyBoot cut nameA).map (fun x => (slotEntry x).size) = [600] := by
  have h := @writeFile_crash _ _ _ [0x41]
    [0x68] _ parse_twoFiles consistent_twoFiles encodeName_A 2 rfl
  exact ⟨by decide +kernel, by decide +kernel, h.1, h.2.2.1, by decide +kernel⟩

end Crash

/-! ### A run of writes -/

section Run

variable {boot : BootSector} {disk disk' : Disk}

/-- A call of `write_file` that answered. -/
def Wrote (boot : BootSector) (disk disk' : Disk) : Prop :=
  ∃ name contents left entry left',
    writeFile boot name contents ⟨disk, left⟩ = (.ok entry, ⟨disk', left'⟩)

/-- What a call that answered did to a volume: `old` are the clusters of what it replaced, and
`new` those of the file. -/
structure WroteExactly (boot : BootSector) (name : EncodedName) (contents : List UInt8)
    (entry : DirectoryEntry) (disk disk' : Disk) (old new : List ℕ) : Prop where
  consistent : Consistent boot disk'
  replaced : old = chainsOf boot (entryOf boot disk) (named boot disk name)
  needed : new.length = divCeil contents.length boot.clusterBytes
  chain : chainOf boot (entryOf boot disk') entry.firstCluster = new ∧ new.Nodup
  /-- It makes free exactly the chain it replaced, -/
  freed : ∀ cluster, boot.hasCluster cluster = true →
    (entryOf boot disk cluster ≠ .free ∧ entryOf boot disk' cluster = .free ↔ cluster ∈ old)
  /-- takes exactly the clusters of the file, -/
  taken : ∀ cluster, boot.hasCluster cluster = true →
    (entryOf boot disk cluster = .free ∧ entryOf boot disk' cluster ≠ .free ↔ cluster ∈ new)
  /-- and changes no other entry of any copy of the table. -/
  word : ∀ table cluster, table < boot.fatCount → boot.hasCluster cluster = true → cluster ∉ old →
    cluster ∉ new → wordOf boot disk' table cluster = wordOf boot disk table cluster
  kept : others boot disk' name = others boot disk name
  bytes : ∀ x ∈ others boot disk name, ∃ bytes,
    Reads boot disk (slotEntry x) bytes ∧ Reads boot disk' (slotEntry x) bytes
  one : ∃ x, named boot disk' name = [x] ∧ slotEntry x = entry
  holds : Reads boot disk' entry contents

lemma wroteExactly (hboot : boot.WellFormed) (hvolume : Consistent boot disk)
    {name contents : List UInt8} {left : ℕ} {entry : DirectoryEntry} {dev : Device}
    (h : writeFile boot name contents ⟨disk, left⟩ = (.ok entry, dev)) :
    ∃ encoded old new, encodeName name = some encoded
      ∧ WroteExactly boot encoded contents entry disk dev.disk old new := by
  cases hname : encodeName name with
  | none =>
      rw [writeFile, hname] at h
      cases h
  | some encoded =>
      obtain ⟨new, taken, hreplaced, hfreed, rfl, -⟩ :=
        (@writeFile_triple _ _ _ contents hboot hvolume _ hname).ok rfl h
      have hfirst := encodeName_first hname
      obtain ⟨hnamed', hnamed⟩ := hreplaced.filter_named hfirst
      have hvolume' := hreplaced.consistent hboot hvolume hfirst
      have hchain := hreplaced.chainOf_new hboot
      -- a cluster of the new chain is in use after, one of an old chain before
      have hinside : ∀ c ∈ new, entryOf boot dev.disk c ≠ .free := by
        intro c hc
        rw [← hchain] at hc
        exact ((hreplaced.isFile_new hboot).inside hc).2
      have hold : ∀ c ∈ chainsOf boot (entryOf boot disk) taken, entryOf boot disk c ≠ .free := by
        intro c hc
        obtain ⟨y, hy, hmem⟩ := List.mem_flatMap.mp hc
        rw [← hnamed] at hy
        exact ((hvolume.file y (List.mem_of_mem_filter hy)).inside hmem).2
      -- the others say what they said
      have hsame : ∀ c, boot.hasCluster c = true → c ∉ chainsOf boot (entryOf boot disk) taken →
          c ∉ new → entryOf boot dev.disk c = entryOf boot disk c := by
        intro c hc hout hout'
        rw [entryOf, hreplaced.word 0 c hboot.fatCount hc hout' hout, entryOf]
      have hnodup : new.Nodup := by
        rcases hhead : new.head? with _ | first
        · rw [List.head?_eq_none_iff.mp hhead]
          exact List.nodup_nil
        · exact (hreplaced.linked first hhead).nodup
      -- so the clusters freed are the old ones, and those taken the new ones
      refine ⟨encoded, chainsOf boot (entryOf boot disk) taken, new, rfl, hvolume', ?_,
        hreplaced.length, ⟨hchain, hnodup⟩, fun c hc => ?_, fun c hc => ?_,
        fun table c htable hc hout hout' => hreplaced.word table c htable hc hout' hout,
        hreplaced.filter_others hfirst, fun x hx => ?_, ⟨_, hnamed', rfl⟩, ?_⟩
      · rw [named, hnamed]
      · refine ⟨?_, fun hmem => ⟨hold c hmem, (hfreed c hmem).entryOf hboot⟩⟩
        rintro ⟨hused, hfree⟩
        by_contra hout
        have hout' : c ∉ new := fun hnew => hused (hreplaced.free c hnew).2
        rw [hsame c hc hout hout'] at hfree
        exact hused hfree
      · refine ⟨?_, fun hmem => ⟨(hreplaced.free c hmem).2, hinside c hmem⟩⟩
        rintro ⟨hfree, hused⟩
        by_contra hout'
        have hout : c ∉ chainsOf boot (entryOf boot disk) taken := fun hmem => hold c hmem hfree
        rw [hsame c hc hout hout'] at hused
        exact hused hfree
      · obtain ⟨hfile, hbytes⟩ := hreplaced.fileBytes_others hboot hvolume hx
        exact reads_same hboot hvolume (List.mem_of_mem_filter hx) hfile hbytes
      · have hreads := reads_of_isFile hboot (hreplaced.isFile_new hboot)
        rwa [hreplaced.fileBytes_new hboot] at hreads

/-- A run of writes keeps a volume consistent. -/
lemma consistent_of_run (hboot : boot.WellFormed) (hvolume : Consistent boot disk)
    (hrun : Relation.ReflTransGen (Wrote boot) disk disk') : Consistent boot disk' := by
  induction hrun with
  | refl => exact hvolume
  | tail _ hstep ih =>
      obtain ⟨name, contents, left, entry, left', hwrote⟩ := hstep
      obtain ⟨encoded, old, new, -, hexactly⟩ := wroteExactly hboot ih hwrote
      exact hexactly.consistent

/-- **After any run of writes the volume is consistent**, and each write does exactly what it
should: it gives back what it replaced, takes what it needs and leaves everything else. -/
theorem writeFile_run (hparse : BootSector.parse (disk 0) = .ok boot)
    (hvolume : Consistent boot disk) (hrun : Relation.ReflTransGen (Wrote boot) disk disk') :
    Consistent boot disk' ∧ ∀ name contents left entry dev,
      writeFile boot name contents ⟨disk', left⟩ = (.ok entry, dev) →
      ∃ encoded old new, encodeName name = some encoded
        ∧ WroteExactly boot encoded contents entry disk' dev.disk old new := by
  have hboot := BootSector.parse_wellFormed hparse
  have hvolume' := consistent_of_run hboot hvolume hrun
  exact ⟨hvolume', fun name contents left entry dev h => wroteExactly hboot hvolume' h⟩

/-- Writing `A`, of two clusters, and `B`, and then `A` anew, of one: the two are given back. -/
theorem writeFile_run_twoFiles :
    Relation.ReflTransGen (Wrote emptyBoot) emptyDisk twoFiles ∧ Consistent emptyBoot twoFiles
      ∧ ∃ encoded old new dev, encodeName [0x41] = some encoded
        ∧ writeFile emptyBoot [0x41] [0x68] ⟨twoFiles, 32⟩ = (.ok ⟨[0x41], 0x20, 6, 1⟩, dev)
        ∧ WroteExactly emptyBoot encoded [0x68] ⟨[0x41], 0x20, 6, 1⟩ twoFiles dev.disk old new
        ∧ 3 ∈ old ∧ 4 ∈ old ∧ 6 ∈ new := by
  have hanswerA : (writeFile emptyBoot [0x41] longContents ⟨emptyDisk, 32⟩).1
      = .ok ⟨[0x41], 0x20, 3, 600⟩ := by
    decide +kernel
  have hanswerB : (writeFile emptyBoot [0x42] [0x68] ⟨withA, 32⟩).1
      = .ok ⟨[0x42], 0x20, 5, 1⟩ := by
    decide +kernel
  have hanswer : (writeFile emptyBoot [0x41] [0x68] ⟨twoFiles, 32⟩).1
      = .ok ⟨[0x41], 0x20, 6, 1⟩ := by
    decide +kernel
  have hrun : Relation.ReflTransGen (Wrote emptyBoot) emptyDisk twoFiles :=
    .tail (.single ⟨[0x41], longContents, 32, _, _, Prod.ext hanswerA rfl⟩)
      ⟨[0x42], [0x68], 32, _, _, Prod.ext hanswerB rfl⟩
  have hwrite : writeFile emptyBoot [0x41] [0x68] ⟨twoFiles, 32⟩
      = (.ok ⟨[0x41], 0x20, 6, 1⟩, _) :=
    Prod.ext hanswer rfl
  obtain ⟨hvolume, hwrites⟩ := writeFile_run parse_emptyDisk consistent_emptyDisk hrun
  obtain ⟨encoded, old, new, hname, hexactly⟩ := hwrites _ _ _ _ _ hwrite
  refine ⟨hrun, hvolume, encoded, old, new, _, hname, hwrite, hexactly, ?_, ?_, ?_⟩
  · exact (hexactly.freed 3 (by decide)).mp ⟨by decide +kernel, by decide +kernel⟩
  · exact (hexactly.freed 4 (by decide)).mp ⟨by decide +kernel, by decide +kernel⟩
  · exact (hexactly.taken 6 (by decide)).mp ⟨by decide +kernel, by decide +kernel⟩

end Run

end Harlan.Fat
