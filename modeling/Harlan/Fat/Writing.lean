import Mathlib.Tactic
import Harlan.Fat.Directory

/-!
What each part of writing a file does to what a disk shows, whether it ends or is cut short.

Every triple here has the disk before as a parameter. What it says of an error holds of the
disk that is left after any number of the writes.

* `setNextCluster_triple`, `linkChain_triple`, `freeChain_triple`: the table.
* `freeClusters_triple`: finding free clusters.
* `writeClusters_triple`: the bytes of a file.
* `updateFsInfo_triple`: the hint, which nothing reads.
* `decodeSlot_fileSlot`, `storesName_fileSlot`: the slot of the new file.
-/

namespace Harlan.Fat

open Eff

variable {boot : BootSector} {disk : Disk}

/-! ### One sector -/

lemma writeSector_triple {sector : ℕ} {bytes : Sector} {P Q : Disk → Prop}
    (h : ∀ disk, P disk → Q (Function.update disk sector bytes)) :
    Triple (fun dev => P dev.disk) (writeSector sector bytes) (fun _ dev => Q dev.disk)
      (fun _ dev => P dev.disk) := by
  rintro ⟨disk, _ | left⟩ hP
  · exact hP
  · exact h disk hP

/-- Reading a sector and writing it back changed. -/
lemma modifySector_triple {sector : ℕ} {change : Sector → Sector} {P Q : Disk → Prop}
    (h : ∀ disk, P disk → Q (Function.update disk sector (change (disk sector)))) :
    Triple (fun dev => P dev.disk)
      (readSector sector >>= fun bytes => writeSector sector (change bytes))
      (fun _ dev => Q dev.disk) (fun _ dev => P dev.disk) := by
  rintro ⟨disk, _ | left⟩ hP
  · exact hP
  · exact h disk hP

/-! ### The table -/

/-- What every copy of the table says of a cluster. -/
def Says (boot : BootSector) (disk : Disk) (cluster : ℕ) (entry : Entry) : Prop :=
  ∀ table < boot.fatCount, Entry.decode (wordOf boot disk table cluster) = entry

lemma Says.entryOf (hboot : boot.WellFormed) {cluster : ℕ} {entry : Entry}
    (h : Says boot disk cluster entry) : entryOf boot disk cluster = entry :=
  h 0 hboot.fatCount

lemma Says.congr {disk' : Disk} {linked filled : List ℕ} {cluster : ℕ} {entry : Entry}
    (h : Says boot disk cluster entry) (hsame : SameBut boot linked filled disk disk')
    (hcluster : boot.hasCluster cluster = true) (hout : cluster ∉ linked) :
    Says boot disk' cluster entry := by
  intro table htable
  rw [hsame.word table cluster htable hcluster hout]
  exact h table htable

section Table

variable (hboot : boot.WellFormed)

include hboot

/-- Writing an entry of the table changes that one, in every copy. -/
lemma setNextCluster_triple {cluster value : ℕ} (hcluster : boot.hasCluster cluster = true) :
    Triple (fun dev => dev.disk = disk) (setNextCluster boot cluster value)
      (fun _ dev => SameBut boot [cluster] [] disk dev.disk
        ∧ Says boot dev.disk cluster (Entry.decode value))
      (fun _ dev => SameBut boot [cluster] [] disk dev.disk) := by
  rw [setNextCluster, if_pos hcluster]
  let I : List ℕ → Disk → Prop := fun done disk' => SameBut boot [cluster] [] disk disk'
    ∧ ∀ table ∈ done, Entry.decode (wordOf boot disk' table cluster) = Entry.decode value
  refine (Triple.forEach (I := fun done dev => I done dev.disk) fun done table rest
    hitems => ?_).conseq
    (fun dev hdev => ?_) (fun _ dev hdev => ?_) fun _ dev hdev => hdev
  · have htable : table < boot.fatCount := by
      rw [← List.mem_range, hitems]
      exact List.mem_append_right _ List.mem_cons_self
    refine (modifySector_triple (P := I done)
      (Q := I (done ++ [table])) fun disk' hdisk' => ?_).conseq
      (fun dev hdev => hdev) (fun _ dev hdev => hdev) fun _ dev hdev => hdev.1
    obtain ⟨hsame, hdone⟩ := hdisk'
    refine ⟨hsame.trans (sameBut_putEntry hboot _ _ rfl htable hcluster),
      fun table' htable' => ?_⟩
    by_cases heq : table' = table
    · rw [heq]
      exact decode_wordOf_putEntry hboot value
    · have hold : table' ∈ done := by
        simpa [heq] using htable'
      rw [← hdone table' hold]
      exact congrArg Entry.decode
        (wordOf_putEntry_of_ne hboot _ _ rfl hcluster hcluster (.inl heq))
  · refine ⟨?_, nofun⟩
    rw [hdev]
    exact .refl
  · exact ⟨hdev.1, fun table htable => hdev.2 table (List.mem_range.mpr htable)⟩

/-- Linking clusters makes a chain of them. -/
lemma linkChain_triple {clusters : List ℕ}
    (hinside : ∀ cluster ∈ clusters, boot.hasCluster cluster = true) (hnodup : clusters.Nodup) :
    Triple (fun dev => dev.disk = disk) (linkChain boot clusters)
      (fun _ dev => SameBut boot clusters [] disk dev.disk ∧ (boot.clusters + 2 ≤ 0x0FFFFFF7 →
        ∀ first, clusters.head? = some first →
          IsChain boot (entryOf boot dev.disk) first clusters))
      (fun _ dev => SameBut boot clusters [] disk dev.disk) := by
  induction clusters generalizing disk with
  | nil =>
      refine Triple.pure fun dev hdev => ⟨?_, fun _ => nofun⟩
      rw [hdev]
      exact .refl
  | cons cluster rest ih =>
      have hcluster := hinside cluster List.mem_cons_self
      obtain ⟨hout, hrest⟩ := List.nodup_cons.mp hnodup
      have hin := fun c hc => hinside c (List.mem_cons_of_mem cluster hc)
      have hfirst : [cluster] ⊆ cluster :: rest := by simp
      refine Triple.bindState ((setNextCluster_triple hboot hcluster).conseq (fun _ h => h)
        (fun _ _ h => h) fun _ dev h => h.mono hfirst (List.Subset.refl _)) fun _ dev hset => ?_
      obtain ⟨hset, hword⟩ := hset
      have hset := hset.mono hfirst (List.Subset.refl _)
      have hmono : rest ⊆ cluster :: rest := List.subset_cons_self _ _
      refine (@ih dev.disk hin hrest).conseq (fun _ h => congrArg Device.disk h)
        (fun _ dev' h => ?_) fun _ dev' h => hset.trans (h.mono hmono (List.Subset.refl _))
      obtain ⟨hlinked, hchain⟩ := h
      refine ⟨hset.trans (hlinked.mono hmono (List.Subset.refl _)),
        fun hnumbers first hhead => ?_⟩
      obtain rfl : cluster = first := by simpa using hhead
      have hentry := (hword.congr hlinked hcluster hout).entryOf hboot
      refine ⟨?_, hinside⟩
      cases rest with
      | nil => exact .single (hentry.trans decode_endOfChain)
      | cons next rest =>
          have hnext := hasCluster_iff.mp (hin next List.mem_cons_self)
          rw [List.head?_cons, Option.getD_some, decode_cluster hnext.1 (by omega)] at hentry
          exact .cons (nextLink_eq_some.mpr hentry) (hchain hnumbers next rfl).chain

/-- Freeing a chain frees every cluster of it, and no other. -/
lemma freeChainFrom_triple {first left : ℕ} {clusters keep : List ℕ}
    (h : IsChain boot (entryOf boot disk) first clusters) (hkeep : clusters.Disjoint keep)
    (hleft : clusters.length ≤ left) :
    Triple (fun dev => dev.disk = disk) (freeChainFrom boot keep left first)
      (fun _ dev => SameBut boot clusters [] disk dev.disk
        ∧ ∀ cluster ∈ clusters, Says boot dev.disk cluster .free)
      (fun _ dev => SameBut boot clusters [] disk dev.disk) := by
  induction clusters generalizing disk first left with
  | nil => exact absurd rfl h.chain.ne_nil
  | cons cluster rest ih =>
      obtain rfl : first = cluster := by simpa using h.chain.head_eq.symm
      have hcluster := h.inside first List.mem_cons_self
      have hout := (List.nodup_cons.mp h.nodup).1
      have hfirst : [first] ⊆ first :: rest := by simp
      rw [freeChainFrom]
      have hread : Triple (fun dev => dev.disk = disk) (reading (nextCluster boot first))
          (fun next dev => next = entryOf boot disk first ∧ dev.disk = disk)
          (fun _ dev => SameBut boot (first :: rest) [] disk dev.disk) := by
        refine Returns.triple fun dev hdev =>
          ⟨_, (nextCluster_returns hcluster).mapError, ?_, hdev⟩
        rw [hdev]
      refine hread.bind fun next => Triple.fact fun hnext => ?_
      have hused : ¬ (next = .free ∨ first ∈ keep) := by
        rintro (hfree | hmem)
        · exact h.not_free List.mem_cons_self (hnext ▸ hfree)
        · exact hkeep List.mem_cons_self hmem
      rw [if_neg hused]
      refine Triple.bindState ((setNextCluster_triple hboot hcluster).conseq (fun _ h => h)
        (fun _ _ h => h) fun _ dev h => h.mono hfirst (List.Subset.refl _)) fun _ dev hset => ?_
      obtain ⟨hset, hword⟩ := hset
      rw [decode_zero] at hword
      obtain _ | left := left
      · simp at hleft
      cases h.chain with
      | single hend =>
          rw [hnext, hend]
          refine Triple.pure fun dev' hdev' => ?_
          rw [hdev']
          refine ⟨hset, fun cluster hmem => ?_⟩
          rw [List.mem_singleton.mp hmem]
          exact hword
      | @cons _ second _ hlink hrest =>
          rw [hnext, nextLink_eq_some.mp hlink]
          have hset' := hset.mono hfirst (List.Subset.refl _)
          have hmono : rest ⊆ first :: rest := List.subset_cons_self _ _
          -- what is left of the chain does not pass the cluster just freed
          have hchain : IsChain boot (entryOf boot dev.disk) second rest :=
            IsChain.congr ⟨hrest, fun c hc => h.inside c (List.mem_cons_of_mem _ hc)⟩
              fun c hc => hset.entryOf hboot (h.inside c (List.mem_cons_of_mem _ hc)) fun hmem =>
                hout (List.mem_singleton.mp hmem ▸ hc)
          refine (ih hchain (List.disjoint_of_disjoint_cons_left hkeep)
            (Nat.le_of_succ_le_succ hleft)).conseq (fun _ h => congrArg Device.disk h)
            (fun _ dev' h' => ?_) fun _ dev' h' =>
            hset'.trans (h'.mono hmono (List.Subset.refl _))
          obtain ⟨hfreed, hall⟩ := h'
          refine ⟨hset'.trans (hfreed.mono hmono (List.Subset.refl _)), fun cluster hmem => ?_⟩
          obtain rfl | hmem := List.mem_cons.mp hmem
          · exact hword.congr hfreed hcluster hout
          · exact hall cluster hmem

end Table

/-! ### Free clusters -/

/-- The free ones of some clusters that follow one another. -/
def freeFrom (boot : BootSector) (disk : Disk) (cluster left : ℕ) : List ℕ :=
  (List.range' cluster left).filter fun cluster => entryOf boot disk cluster = .free

/-- The free clusters of a volume. -/
def freeOnes (boot : BootSector) (disk : Disk) : List ℕ :=
  freeFrom boot disk firstDataCluster boot.clusters

lemma mem_freeOnes {cluster : ℕ} :
    cluster ∈ freeOnes boot disk ↔ boot.hasCluster cluster = true ∧ entryOf boot disk cluster
      = .free := by
  rw [freeOnes, freeFrom, List.mem_filter, List.mem_range'_1, decide_eq_true_eq, hasCluster_iff]
  rfl

lemma nodup_freeOnes : (freeOnes boot disk).Nodup :=
  List.Nodup.filter _ (List.nodup_range' (h := by decide))

/-- Looking for free clusters from one on, with some found before it. -/
lemma freeClustersFrom_returns {count left cluster : ℕ} {found : List ℕ} {dev : Device}
    (hbounds : 2 ≤ cluster ∧ cluster + left = 2 + boot.clusters) (hcount : found.length ≤ count) :
    Returns (freeClustersFrom boot count left cluster found) dev
      (found ++ (freeFrom boot dev.disk cluster left).take (count - found.length)) := by
  induction left generalizing cluster found with
  | zero =>
      rw [freeClustersFrom, freeFrom, List.range'_zero, List.filter_nil, List.take_nil,
        List.append_nil]
      exact .pure
  | succ left ih =>
      rw [freeClustersFrom]
      by_cases hmore : found.length < count
      · have hcluster : boot.hasCluster cluster = true := hasCluster_iff.mpr (by omega)
        rw [if_pos hmore]
        refine (nextCluster_returns hcluster).bind ?_
        rw [freeFrom, List.range'_succ, List.filter_cons]
        by_cases hfree : entryOf boot dev.disk cluster = .free
        · have hrest := @ih (cluster + 1) (found ++ [cluster]) (by omega) (by simp; omega)
          have hsub : count - found.length = count - (found ++ [cluster]).length + 1 := by
            rw [List.length_append, List.length_singleton]
            omega
          rw [if_pos hfree, if_pos (decide_eq_true hfree), hsub, List.take_succ_cons]
          rwa [List.append_assoc, List.singleton_append, freeFrom] at hrest
        · rw [if_neg hfree, if_neg (by simpa using hfree)]
          exact ih (by omega) hcount
      · rw [if_neg hmore, Nat.sub_eq_zero_of_le (Nat.le_of_not_lt hmore), List.take_zero,
          List.append_nil]
        exact .pure

/-- `free_clusters` answers the first free clusters, where there are as many as asked for. -/
lemma freeClusters_eq (count : ℕ) (dev : Device) :
    freeClusters boot count dev
      = (if maxFileClusters < count then .error (.tooManyClusters count)
        else if (freeOnes boot dev.disk).length < count then
          .error (.full count (freeOnes boot dev.disk).length)
        else .ok ((freeOnes boot dev.disk).take count), dev) := by
  have hfrom := @freeClustersFrom_returns boot count boot.clusters firstDataCluster [] dev
    ⟨le_refl _, rfl⟩ (Nat.zero_le _)
  rw [List.nil_append, List.length_nil, Nat.sub_zero, ← freeOnes] at hfrom
  rw [freeClusters]
  split
  · rfl
  next hmany =>
    have hfrom' : reading (freeClustersFrom boot count boot.clusters firstDataCluster []) dev
        = (.ok ((freeOnes boot dev.disk).take count), dev) := hfrom.mapError
    rw [bind_ok hfrom', List.length_take]
    split
    next hfew => rw [if_pos (by omega), min_eq_right (by omega), fail]
    next henough => rw [if_neg (by omega), pure_apply]

/-- `free_clusters` finds as many free clusters as were asked for, or fails. -/
lemma freeClusters_triple {count : ℕ} :
    Triple (fun dev => dev.disk = disk) (freeClusters boot count)
      (fun found dev => (found.length = count ∧ count ≤ maxFileClusters ∧ found.Nodup
        ∧ ∀ c ∈ found, boot.hasCluster c = true ∧ entryOf boot disk c = .free) ∧ dev.disk = disk)
      (fun _ dev => dev.disk = disk) := by
  rintro dev rfl
  rw [freeClusters_eq]
  split_ifs with hmany hfew
  · rfl
  · rfl
  · refine ⟨⟨?_, by omega, nodup_freeOnes.take, fun c hc => ?_⟩, rfl⟩
    · rw [List.length_take]
      omega
    · exact mem_freeOnes.mp (List.mem_of_mem_take hc)

/-! ### The bytes -/

/-- Pieces of one length that hold a list in order hold all of it. -/
lemma flatMap_take {α : Type} {f : α → List UInt8} {length : ℕ} (hf : ∀ a, (f a).length = length)
    {contents : List UInt8} (pieces : List α) (k : ℕ)
    (hpieces : ∀ a i, (a, i) ∈ pieces.zipIdx k →
      (f a).take (contents.length - i * length) = (contents.drop (i * length)).take length) :
    (pieces.flatMap f).take (contents.length - k * length)
      = (contents.drop (k * length)).take (pieces.length * length) := by
  induction pieces generalizing k with
  | nil => simp
  | cons a rest ih =>
      have hrest := ih (k + 1) fun b i hb => hpieces b i (by simp [List.zipIdx_cons, hb])
      have hfirst := hpieces a k (by simp [List.zipIdx_cons])
      have hsub : contents.length - k * length - length = contents.length - (k + 1) * length := by
        rw [Nat.succ_mul, Nat.sub_sub]
      rw [List.flatMap_cons, List.take_append, hf, hsub, hrest, hfirst, List.length_cons,
        Nat.succ_mul rest.length, Nat.add_comm _ length, List.take_add, List.drop_drop,
        Nat.succ_mul]

lemma take_sectorOf (contents : List UInt8) (start : ℕ) :
    (List.ofFn (sectorOf contents start)).take (contents.length - start)
      = (contents.drop start).take 512 := by
  refine List.ext_getElem ?_ fun i hi hi' => ?_
  · rw [List.length_take, List.length_ofFn, List.length_take, List.length_drop, Nat.min_comm]
  · rw [List.length_take, List.length_ofFn] at hi
    rw [List.getElem_take, List.getElem_ofFn, List.getElem_take, List.getElem_drop, sectorOf,
      List.getD_eq_getElem?_getD, List.getElem?_eq_getElem (by simp; omega), Option.getD_some]

/-- The sectors of the file's `index`-th cluster hold its bytes. -/
def Filled (boot : BootSector) (contents : List UInt8) (disk : Disk) (cluster index : ℕ) : Prop :=
  ∀ offset < boot.sectorsPerCluster, index * boot.clusterBytes + offset * 512 < contents.length →
    disk (dataSector boot cluster offset)
      = sectorOf contents (index * boot.clusterBytes + offset * 512)

lemma Filled.take_clusterData (hboot : boot.WellFormed) {contents : List UInt8}
    {cluster index : ℕ} (h : Filled boot contents disk cluster index) :
    (clusterData boot disk cluster).take (contents.length - index * boot.clusterBytes)
      = (contents.drop (index * boot.clusterBytes)).take boot.clusterBytes := by
  have hsectors := @flatMap_take _
    (fun offset => List.ofFn (disk (dataSector boot cluster offset))) _
    (fun _ => List.length_ofFn) (contents.drop (index * boot.clusterBytes))
    (List.range boot.sectorsPerCluster) 0 (fun offset i hmem => ?_)
  · rw [Nat.zero_mul, Nat.sub_zero, List.drop_zero, List.length_drop, List.length_range,
      Nat.mul_comm _ 512, ← clusterBytes_eq hboot] at hsectors
    exact hsectors
  · obtain ⟨hrange, rfl⟩ : offset < boot.sectorsPerCluster ∧ offset = i := by
      have := List.mem_zipIdx hmem
      simp only [List.length_range, List.getElem_range] at this
      omega
    rw [List.length_drop, List.drop_drop, Nat.sub_sub]
    by_cases hin : index * boot.clusterBytes + offset * 512 < contents.length
    · rw [h offset hrange hin]
      exact take_sectorOf _ _
    · rw [Nat.sub_eq_zero_of_le (Nat.le_of_not_lt hin), List.take_zero,
        List.drop_of_length_le (Nat.le_of_not_lt hin), List.take_nil]

lemma Filled.take_chainData (hboot : boot.WellFormed) {contents : List UInt8} {clusters : List ℕ}
    (h : ∀ cluster index, (cluster, index) ∈ clusters.zipIdx →
      Filled boot contents disk cluster index)
    (hlength : contents.length ≤ clusters.length * boot.clusterBytes) :
    (chainData boot disk clusters).take contents.length = contents := by
  have hclusters := @flatMap_take _ (clusterData boot disk) _
    (fun cluster => (length_clusterData disk cluster).trans (clusterBytes_eq hboot).symm) contents
    clusters 0 fun cluster index hmem => (h cluster index hmem).take_clusterData hboot
  rw [Nat.zero_mul, Nat.sub_zero, List.drop_zero, List.take_of_length_le hlength] at hclusters
  exact hclusters

/-- A sector of the file's `index`-th cluster holds its bytes, if the file comes that far. -/
def HoldsSector (boot : BootSector) (contents : List UInt8) (disk : Disk)
    (cluster index offset : ℕ) : Prop :=
  index * boot.clusterBytes + offset * 512 < contents.length →
    disk (dataSector boot cluster offset)
      = sectorOf contents (index * boot.clusterBytes + offset * 512)

/-- The clusters of a file that have been written; nothing else has. -/
structure FilledTo (boot : BootSector) (contents : List UInt8) (clusters : List ℕ) (disk : Disk)
    (done : List (ℕ × ℕ)) (disk' : Disk) : Prop where
  same : SameBut boot [] clusters disk disk'
  filled : ∀ cluster index, (cluster, index) ∈ done → Filled boot contents disk' cluster index

/-- A cluster has one place in the file. -/
lemma index_eq {clusters : List ℕ} {cluster index index' : ℕ} (hnodup : clusters.Nodup)
    (hmem : (cluster, index) ∈ clusters.zipIdx) (hmem' : (cluster, index') ∈ clusters.zipIdx) :
    index = index' := by
  have hat := List.mk_mem_zipIdx_iff_getElem?.mp hmem
  have hat' := List.mk_mem_zipIdx_iff_getElem?.mp hmem'
  have hne := List.nodup_iff_getElem?_ne_getElem?.mp hnodup
  rcases Nat.lt_trichotomy index index' with hlt | heq | hlt
  · exact absurd (hat.trans hat'.symm) (hne _ _ hlt (List.getElem?_eq_some_iff.mp hat').1)
  · exact heq
  · exact absurd (hat'.trans hat.symm) (hne _ _ hlt (List.getElem?_eq_some_iff.mp hat).1)

section Clusters

variable (hboot : boot.WellFormed) {clusters : List ℕ} {contents : List UInt8}
    (hinside : ∀ cluster ∈ clusters, boot.hasCluster cluster = true) (hnodup : clusters.Nodup)
    {cluster index offset : ℕ} (hmem : (cluster, index) ∈ clusters.zipIdx)

include hboot hinside hnodup hmem

/-- Writing a sector of a file puts that one, and takes away no other. -/
lemma HoldsSector.update {cluster' index' offset' : ℕ} (hoffset : offset < boot.sectorsPerCluster)
    (hmem' : (cluster', index') ∈ clusters.zipIdx) (hoffset' : offset' < boot.sectorsPerCluster)
    (h : HoldsSector boot contents disk cluster' index' offset' ∨ cluster' = cluster
      ∧ offset' = offset) :
    HoldsSector boot contents (Function.update disk (dataSector boot cluster offset)
      (sectorOf contents (index * boot.clusterBytes + offset * 512))) cluster' index'
        offset' := by
  intro hin
  have hcluster := hinside cluster (List.fst_mem_of_mem_zipIdx hmem)
  by_cases hsame : dataSector boot cluster' offset' = dataSector boot cluster offset
  · obtain ⟨rfl, rfl⟩ :=
      dataSector_inj hboot (hinside cluster' (List.fst_mem_of_mem_zipIdx hmem')) hcluster
      hoffset' hoffset hsame
    rw [index_eq hnodup hmem' hmem, Function.update_self]
  · rw [Function.update_of_ne hsame]
    refine (h.resolve_right ?_) hin
    rintro ⟨rfl, rfl⟩
    exact hsame rfl

/-- The loop over the sectors of a cluster. -/
lemma writeCluster_triple {done : List (ℕ × ℕ)} (hdone : ∀ pair ∈ done, pair ∈ clusters.zipIdx) :
    Triple (fun dev => FilledTo boot contents clusters disk done dev.disk)
      (Eff.forEach (List.range boot.sectorsPerCluster) fun offset =>
        if contents.length ≤ index * boot.clusterBytes + offset * 512 then pure ()
        else writeSector (dataSector boot cluster offset)
          (sectorOf contents (index * boot.clusterBytes + offset * 512)))
      (fun _ dev => FilledTo boot contents clusters disk (done ++ [(cluster, index)]) dev.disk)
      (fun _ dev => SameBut boot [] clusters disk dev.disk) := by
  have hclusters : cluster ∈ clusters := List.fst_mem_of_mem_zipIdx hmem
  have hcluster := hinside cluster hclusters
  -- after some sectors of the cluster: those hold the contents
  let J : List ℕ → Disk → Prop :=
    fun offsets disk' => FilledTo boot contents clusters disk done disk'
    ∧ ∀ offset ∈ offsets, HoldsSector boot contents disk' cluster index offset
  refine (Triple.forEach (I := fun offsets dev => J offsets dev.disk)
    fun offsets offset rest hoffsets => ?_).conseq (fun dev hdev => ⟨hdev, nofun⟩)
    (fun _ dev hdev => ?_) fun _ dev hdev => hdev
  · have hoffset : offset < boot.sectorsPerCluster := by
      rw [← List.mem_range, hoffsets]
      exact List.mem_append_right _ List.mem_cons_self
    have hbefore : ∀ {offset'}, offset' ∈ offsets → offset' < boot.sectorsPerCluster := by
      intro offset' hmem'
      rw [← List.mem_range, hoffsets]
      exact List.mem_append_left _ hmem'
    split
    -- behind the end of the contents nothing is written
    next hpast =>
      refine Triple.pure fun dev hdev => ⟨hdev.1, fun offset' hmem' => ?_⟩
      obtain hmem' | hmem' := List.mem_append.mp hmem'
      · exact hdev.2 offset' hmem'
      · rw [List.mem_singleton.mp hmem']
        exact fun hin => absurd hin (Nat.not_lt.mpr hpast)
    next hin =>
      refine (writeSector_triple (P := J offsets) (Q := J (offsets ++ [offset]))
        fun disk' hdisk' => ?_).conseq (fun _ h => h) (fun _ _ h => h) fun _ _ h => h.1.same
      obtain ⟨⟨hsame, hfilled⟩, hsectors⟩ := hdisk'
      have hwrite := @sameBut_data _ disk' hboot _ _
        (sectorOf contents (index * boot.clusterBytes + offset * 512)) hcluster hoffset
      refine ⟨⟨hsame.trans (hwrite.mono (List.Subset.refl _) (by simpa using hclusters)), ?_⟩, ?_⟩
      · intro cluster' index' hmem' offset' hoffset'
        exact HoldsSector.update hboot hinside hnodup hmem hoffset (hdone _ hmem') hoffset'
          (.inl (hfilled cluster' index' hmem' offset' hoffset'))
      · intro offset' hmem'
        obtain hmem' | hmem' := List.mem_append.mp hmem'
        · exact HoldsSector.update hboot hinside hnodup hmem hoffset hmem (hbefore hmem')
            (.inl (hsectors offset' hmem'))
        · rw [List.mem_singleton.mp hmem']
          exact HoldsSector.update hboot hinside hnodup hmem hoffset hmem hoffset
            (.inr ⟨rfl, rfl⟩)
  · obtain ⟨⟨hsame, hfilled⟩, hsectors⟩ := hdev
    refine ⟨hsame, fun cluster' index' hmem' => ?_⟩
    obtain hmem' | hmem' := List.mem_append.mp hmem'
    · exact hfilled cluster' index' hmem'
    · obtain ⟨rfl, rfl⟩ := Prod.mk.inj (List.mem_singleton.mp hmem')
      exact fun offset hoffset => hsectors offset (List.mem_range.mpr hoffset)

end Clusters

/-- Writing the bytes of a file touches its own clusters. -/
lemma writeClusters_triple (hboot : boot.WellFormed) {clusters : List ℕ} {contents : List UInt8}
    (hinside : ∀ cluster ∈ clusters, boot.hasCluster cluster = true) (hnodup : clusters.Nodup) :
    Triple (fun dev => dev.disk = disk) (writeClusters boot clusters contents)
      (fun _ dev => SameBut boot [] clusters disk dev.disk ∧ ∀ cluster index,
        (cluster, index) ∈ clusters.zipIdx → Filled boot contents dev.disk cluster index)
      (fun _ dev => SameBut boot [] clusters disk dev.disk) := by
  refine (Triple.forEach (I := fun done dev => FilledTo boot contents clusters disk done dev.disk)
    fun done item rest hitems => ?_).conseq (fun dev hdev => ?_)
    (fun _ dev hdev => ⟨hdev.same, hdev.filled⟩)
    fun _ dev hdev => hdev
  · obtain ⟨cluster, index⟩ := item
    have hmem : (cluster, index) ∈ clusters.zipIdx := by
      rw [hitems]
      exact List.mem_append_right _ List.mem_cons_self
    dsimp only
    rw [sectorOfCluster_eq (hinside cluster (List.fst_mem_of_mem_zipIdx hmem))]
    refine writeCluster_triple hboot hinside hnodup hmem fun pair hpair => ?_
    rw [hitems]
    exact List.mem_append_left _ hpair
  · refine ⟨?_, nofun⟩
    rw [hdev]
    exact .refl

/-! ### The hint -/

lemma countFreeSectors_returns {dev : Device} (sectors : List ℕ) (state : ℕ × ℕ) :
    ∃ counted, Returns (countFreeSectors boot sectors state) dev counted := by
  induction sectors generalizing state with
  | nil => exact ⟨state, .pure⟩
  | cons sector rest ih =>
      obtain ⟨counted, hcounted⟩ := ih (countFree boot sector
        (dev.disk (boot.firstFatSector + sector)) state)
      exact ⟨counted, (readSector_returns _).bind hcounted⟩

/-- The hint is in the reserved sectors, outside all that a reader looks at. -/
lemma updateFsInfo_triple :
    Triple (fun dev => dev.disk = disk) (updateFsInfo boot)
      (fun _ dev => SameBut boot [] [] disk dev.disk)
      (fun _ dev => SameBut boot [] [] disk dev.disk) := by
  have hsame : ∀ dev : Device, dev.disk = disk → SameBut boot [] [] disk dev.disk := by
    rintro dev rfl
    exact .refl
  rw [updateFsInfo]
  by_cases hnone : boot.fsInfoSector = 0 ∨ boot.reservedSectors ≤ boot.fsInfoSector
  · rw [if_pos hnone]
    exact Triple.pure hsame
  · rw [if_neg hnone]
    refine Triple.bind (Q := fun _ dev => dev.disk = disk)
      (Returns.triple fun dev hdev => ⟨_, readSector_returns _, hdev⟩) fun bytes => ?_
    by_cases hother : wordAt bytes 0 ≠ fsInfoLead ∨ wordAt bytes 484 ≠ fsInfoStructure
    · rw [if_pos hother]
      exact Triple.pure hsame
    · rw [if_neg hother]
      have hcount : Triple (fun dev => dev.disk = disk)
          (countFreeSectors boot (List.range' (firstDataCluster / 128)
            ((firstDataCluster + boot.clusters - 1) / 128 + 1 - firstDataCluster / 128)) (0, 0))
          (fun _ dev => dev.disk = disk) (fun _ dev => SameBut boot [] [] disk dev.disk) := by
        refine Returns.triple fun dev hdev => ?_
        obtain ⟨counted, hcounted⟩ := @countFreeSectors_returns boot dev _ (0, 0)
        exact ⟨counted, hcounted, hdev⟩
      refine hcount.bind fun counted => ?_
      obtain ⟨free, firstFree⟩ := counted
      refine (writeSector_triple (P := fun disk' => disk' = disk)
        (Q := fun disk' => SameBut boot [] [] disk disk') fun disk' hdisk' => ?_).conseq
        (fun _ h => h) (fun _ _ h => h) fun _ dev h => hsame dev h
      rw [hdisk']
      exact sameBut_reserved _ (by omega)

/-! ### The slot of the new file -/

section FileSlot

variable {name : EncodedName} {first size : ℕ}

lemma storedName_fileSlot : storedName (fileSlot name first size) = name := by
  funext i
  rw [storedName, fileSlot, dif_pos i.isLt]

lemma storesName_fileSlot : storesName (fileSlot name first size) name = true := by
  rw [storesName_iff, storedName_fileSlot]
  exact fun i => rfl

lemma fileSlot_first : fileSlot name first size 0 = name 0 := rfl

lemma slotEntry_fileSlot (hfirst : first < 2 ^ 32) (hsize : size < 2 ^ 32) :
    (slotEntry (fileSlot name first size)).attributes = attrArchive
      ∧ (slotEntry (fileSlot name first size)).firstCluster = first
      ∧ (slotEntry (fileSlot name first size)).size = size := by
  refine ⟨rfl, ?_, ?_⟩
  · change 2 ^ 16 * le16 (leByte first 2) (leByte first 3) + le16 (leByte first 0)
      (leByte first 1) = first
    rw [le16_leByte, le16_leByte]
    omega
  · exact le32_leByte hsize

lemma decodeSlot_fileSlot (hused : name 0 ≠ entryNeverUsed) (hkept : name 0 ≠ entryDeleted) :
    decodeSlot (fileSlot name first size) = .entry (slotEntry (fileSlot name first size)) := by
  have hattr : fileSlot name first size 11 = attrArchive := rfl
  rw [decodeSlot, if_neg (by rwa [fileSlot_first]), if_neg (by rwa [fileSlot_first]), hattr,
    if_neg (by decide), ← hattr]
  rfl

end FileSlot

end Harlan.Fat
