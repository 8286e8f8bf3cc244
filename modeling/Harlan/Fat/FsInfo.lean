import Mathlib.Tactic
import Harlan.Fat.Table

/-!
What `update_fs_info` counts.

The source reads the table a sector at a time and looks at all 128 entries of each, the two
reserved ones and the padding after the last cluster among them.

* `tally`: a count and the first thing counted, over a list.
* `countFreeSectors_eq`: the walk over sectors is a walk over clusters.
* `updateFsInfo_counts`: **the count it stores is that of the clusters `next_cluster` says are
  free**, and it writes nothing else.
-/

namespace Harlan.Fat

open Eff

/-! ### Counting over a list -/

/-- Counts the elements with `p`, and notes the first. -/
def tally (p : ℕ → Prop) [DecidablePred p] (state : ℕ × ℕ) (c : ℕ) : ℕ × ℕ :=
  if p c then (state.1 + 1, if state.2 = 0 then c else state.2) else state

lemma foldl_tally {p : ℕ → Prop} [DecidablePred p] {l : List ℕ} (hpos : ∀ c, p c → c ≠ 0)
    (free first : ℕ) :
    l.foldl (tally p) (free, first)
      = (free + (l.filter p).length, if first = 0 then (l.filter p).head?.getD 0 else first) := by
  induction l generalizing free first with
  | nil => by_cases hfirst : first = 0 <;> simp [hfirst]
  | cons c rest ih =>
      rw [List.foldl_cons, tally]
      by_cases hc : p c
      · rw [if_pos hc, ih]
        by_cases hfirst : first = 0
        · simp [hfirst, hc, hpos c hc, Nat.add_assoc, Nat.add_comm 1]
        · simp [hfirst, hc, Nat.add_assoc, Nat.add_comm 1]
      · rw [if_neg hc, ih]
        simp [hc]

/-- Runs of a width, one after the other, are one run. -/
lemma flatMap_range' (width first count : ℕ) :
    (List.range' first count).flatMap (fun k => List.range' (k * width) width)
      = List.range' (first * width) (count * width) := by
  induction count generalizing first with
  | zero => simp
  | succ count ih =>
      rw [List.range'_succ, List.flatMap_cons, ih, Nat.succ_mul, Nat.succ_mul,
        Nat.add_comm (count * width), List.range'_append_1]

/-- The first of an increasing list is its least. -/
lemma head_getD_eq_min {l : List ℕ} (h : l.Pairwise (· < ·)) :
    l.head?.getD 0 = if hne : l.toFinset.Nonempty then l.toFinset.min' hne else 0 := by
  cases l with
  | nil => rfl
  | cons c rest =>
      have hne : (c :: rest).toFinset.Nonempty := ⟨c, by simp⟩
      rw [dif_pos hne, List.head?_cons, Option.getD_some]
      refine le_antisymm (Finset.le_min' _ _ _ fun d hd => ?_) (Finset.min'_le _ _ (by simp))
      rcases List.mem_cons.mp (List.mem_toFinset.mp hd) with rfl | hmem
      · exact le_refl _
      · exact (List.rel_of_pairwise_cons h hmem).le

/-! ### The walk -/

section Count

variable {boot : BootSector} (hboot : boot.WellFormed) {disk : Disk}

/-- The table says that a cluster of the volume is free. -/
def FreeIn (boot : BootSector) (disk : Disk) (c : ℕ) : Prop :=
  boot.hasCluster c = true ∧ entryOf boot disk c = .free

instance (boot : BootSector) (disk : Disk) : DecidablePred (FreeIn boot disk) :=
  fun _ => instDecidableAnd

lemma FreeIn.ne_zero {c : ℕ} (h : FreeIn boot disk c) : c ≠ 0 := by
  have := hasCluster_iff.mp h.1
  omega

lemma decode_eq_free (word : ℕ) : Entry.decode word = .free ↔ word &&& entryMask = 0 := by
  rw [Entry.decode]
  split_ifs with hzero <;> simp [hzero]

/-- What is free is what `next_cluster` says is. -/
lemma freeIn_iff {dev : Device} {c : ℕ} (hc : boot.hasCluster c = true) :
    FreeIn boot dev.disk c ↔ Returns (nextCluster boot c) dev .free := by
  have hreturns := @nextCluster_returns boot dev c hc
  constructor
  · rintro ⟨-, hfree⟩
    rwa [hfree] at hreturns
  · intro hfree
    rw [Returns, hreturns] at hfree
    exact ⟨hc, Except.ok.inj (Prod.mk.inj hfree).1⟩

/-- The clusters it goes through are those of the volume, and others that are not free in it. -/
lemma counted_all {c : ℕ} (h : FreeIn boot disk c) :
    c ∈ List.range' (firstDataCluster / 128 * 128)
      (((firstDataCluster + boot.clusters - 1) / 128 + 1 - firstDataCluster / 128) * 128) := by
  have hc := hasCluster_iff.mp h.1
  rw [List.mem_range'_1, firstDataCluster]
  omega

include hboot

/-- One sector is walked as its clusters. -/
lemma countFree_eq (hclusters : 0 < boot.clusters) (sector : ℕ) (state : ℕ × ℕ) :
    countFree boot sector (disk (boot.firstFatSector + sector)) state
      = (List.range' (sector * 128) 128).foldl (tally (FreeIn boot disk)) state := by
  have hrange : List.range' (sector * 128) 128 = (List.range 128).map fun entry =>
      sector * 128 + entry := by
    rw [List.range'_eq_map_range]
  rw [hrange, List.foldl_map, countFree]
  refine List.foldl_ext _ _ _ fun state entry hentry => ?_
  have hentry := List.mem_range.mp hentry
  obtain ⟨free, first⟩ := state
  have hword : wordOf boot disk 0 (sector * 128 + entry)
      = wordAt (disk (boot.firstFatSector + sector)) (entry * 4) := by
    have hdiv : (sector * 128 + entry) / 128 = sector := by omega
    have hmod : (sector * 128 + entry) % 128 = entry := by omega
    rw [wordOf, tableSector, entriesPerSector_eq hboot, hdiv, hmod, Nat.zero_mul, Nat.add_zero]
  have hfree : FreeIn boot disk (sector * 128 + entry)
      ↔ ¬(sector * 128 + entry < firstDataCluster
        ∨ firstDataCluster + boot.clusters - 1 < sector * 128 + entry)
        ∧ wordAt (disk (boot.firstFatSector + sector)) (entry * 4) &&& entryMask = 0 := by
    rw [FreeIn, entryOf, decode_eq_free, hword, hasCluster_iff, firstDataCluster]
    refine and_congr_left fun _ => ?_
    omega
  dsimp only
  rw [tally]
  by_cases hout : sector * 128 + entry < firstDataCluster
      ∨ firstDataCluster + boot.clusters - 1 < sector * 128 + entry
  · rw [if_pos hout, if_neg fun h => (hfree.mp h).1 hout]
  · by_cases hzero : wordAt (disk (boot.firstFatSector + sector)) (entry * 4) &&& entryMask = 0
    · rw [if_neg hout, if_pos hzero, if_pos (hfree.mpr ⟨hout, hzero⟩)]
    · rw [if_neg hout, if_neg hzero, if_neg fun h => hzero (hfree.mp h).2]

/-- The walk over sectors is a walk over clusters. -/
lemma countFreeSectors_eq (hclusters : 0 < boot.clusters) {left : ℕ} (first count : ℕ)
    (state : ℕ × ℕ) :
    Returns (countFreeSectors boot (List.range' first count) state) ⟨disk, left⟩
      ((List.range' (first * 128) (count * 128)).foldl (tally (FreeIn boot disk)) state) := by
  induction count generalizing first state with
  | zero => exact .pure
  | succ count ih =>
      rw [List.range'_succ, countFreeSectors, ← flatMap_range', List.range'_succ,
        List.flatMap_cons, List.foldl_append, flatMap_range',
        ← countFree_eq hboot hclusters first state]
      exact (readSector_returns _).bind (ih (first + 1) _)

end Count

/-! ### What is stored -/

section Stored

variable {boot : BootSector} {dev : Device}

/-- There is an FSInfo sector where the boot sector says, and it can be written. -/
structure Rewrites (boot : BootSector) (dev : Device) : Prop where
  sector : boot.fsInfoSector ≠ 0 ∧ boot.fsInfoSector < boot.reservedSectors
  lead : wordAt (dev.disk boot.fsInfoSector) 0 = fsInfoLead
  structure' : wordAt (dev.disk boot.fsInfoSector) 484 = fsInfoStructure
  left : 0 < dev.left

/-- What `update_fs_info` does where it writes, and where it does not. -/
lemma updateFsInfo_eq (hboot : boot.WellFormed) (hclusters : 0 < boot.clusters) :
    (¬Rewrites boot dev ∧ (updateFsInfo boot dev).2 = dev)
      ∨ Rewrites boot dev ∧ ∃ counted : List ℕ, counted.Pairwise (· < ·)
        ∧ (∀ c, c ∈ counted ↔ FreeIn boot dev.disk c)
        ∧ updateFsInfo boot dev = (.ok (), ⟨Function.update dev.disk boot.fsInfoSector
            (putWord (putWord (dev.disk boot.fsInfoSector) 488 counted.length) 492
              (counted.head?.getD 0)), dev.left - 1⟩) := by
  obtain ⟨disk, left⟩ := dev
  rw [updateFsInfo]
  by_cases hnone : boot.fsInfoSector = 0 ∨ boot.reservedSectors ≤ boot.fsInfoSector
  · rw [if_pos hnone]
    refine .inl ⟨fun h => ?_, rfl⟩
    have := h.sector
    omega
  rw [if_neg hnone, bind_ok (readSector_returns boot.fsInfoSector)]
  dsimp only
  by_cases hother : wordAt (disk boot.fsInfoSector) 0 ≠ fsInfoLead
      ∨ wordAt (disk boot.fsInfoSector) 484 ≠ fsInfoStructure
  · rw [if_pos hother]
    refine .inl ⟨fun h => ?_, rfl⟩
    rcases hother with hlead | hstructure
    · exact hlead h.lead
    · exact hstructure h.structure'
  rw [if_neg hother, bind_ok (countFreeSectors_eq hboot hclusters _ _ _),
    foldl_tally (fun c hc => hc.ne_zero), if_pos rfl, Nat.zero_add]
  rw [not_or, not_not, not_not] at hother
  cases left with
  | zero => exact .inl ⟨fun h => absurd h.left (lt_irrefl _), rfl⟩
  | succ left =>
      refine .inr ⟨⟨by omega, hother.1, hother.2, Nat.succ_pos _⟩, _, ?_, fun c => ?_, rfl⟩
      · exact (List.pairwise_lt_range' _).filter _
      · rw [List.mem_filter, decide_eq_true_iff]
        exact ⟨fun h => h.2, fun h => ⟨counted_all h, h⟩⟩

lemma putWord_outside {bytes : Sector} {offset value : ℕ} {i : Fin 512}
    (h : i.val < offset ∨ offset + 4 ≤ i.val) : putWord bytes offset value i = bytes i := by
  rw [putWord, if_neg (by omega)]

lemma clusters_pos {sector : Sector} (h : BootSector.parse sector = .ok boot) :
    0 < boot.clusters := by
  simp only [BootSector.parse, ite_error_eq_ok] at h
  obtain ⟨-, -, -, -, -, -, -, -, -, hclusters, -, h⟩ := h
  rw [Except.ok.injEq] at h
  subst h
  exact lt_of_lt_of_le (by decide) (Nat.le_of_not_lt hclusters)

/-- There are no more free clusters than clusters. -/
lemma counted_length {counted : List ℕ} (hsorted : counted.Pairwise (· < ·))
    (hcounted : ∀ c ∈ counted, boot.hasCluster c = true) :
    counted.length ≤ firstDataCluster + boot.clusters := by
  have hsub : counted ⊆ List.range (firstDataCluster + boot.clusters) := fun c hc => by
    have := hasCluster_iff.mp (hcounted c hc)
    rw [List.mem_range, firstDataCluster]
    omega
  have hnodup : counted.Nodup := hsorted.imp ne_of_lt
  have hle := (hnodup.subperm hsub).length_le
  rwa [List.length_range] at hle

lemma head_getD_lt {counted : List ℕ} (hcounted : ∀ c ∈ counted, boot.hasCluster c = true) :
    counted.head?.getD 0 < firstDataCluster + boot.clusters := by
  cases counted with
  | nil => exact Nat.add_pos_left (by decide) _
  | cons c rest =>
      have := hasCluster_iff.mp (hcounted c List.mem_cons_self)
      rw [List.head?_cons, Option.getD_some, firstDataCluster]
      omega

/-- **The fast count is the slow one.** On any volume that is accepted and whatever its table
holds, `update_fs_info` writes nothing but bytes 488 to 496 of the FSInfo sector; when it writes
them, the first four are the number of clusters `next_cluster` says are free and the others the
least of these, zero if there is none; and when it does not, nothing is different. -/
theorem updateFsInfo_counts {sector : Sector} (hparse : BootSector.parse sector = .ok boot)
    (dev : Device) :
    (∀ n, n ≠ boot.fsInfoSector → (updateFsInfo boot dev).2.disk n = dev.disk n)
      ∧ (∀ i : Fin 512, i.val < 488 ∨ 496 ≤ i.val →
        (updateFsInfo boot dev).2.disk boot.fsInfoSector i = dev.disk boot.fsInfoSector i)
      ∧ (Rewrites boot dev → (updateFsInfo boot dev).1 = .ok ()
        ∧ ∃ free : Finset ℕ,
          (∀ c, c ∈ free ↔ boot.hasCluster c = true ∧ Returns (nextCluster boot c) dev .free)
            ∧ wordAt ((updateFsInfo boot dev).2.disk boot.fsInfoSector) 488 = free.card
            ∧ wordAt ((updateFsInfo boot dev).2.disk boot.fsInfoSector) 492
              = if h : free.Nonempty then free.min' h else 0)
      ∧ (¬Rewrites boot dev → (updateFsInfo boot dev).2 = dev) := by
  have hboot := BootSector.parse_wellFormed hparse
  rcases @updateFsInfo_eq boot dev hboot (clusters_pos hparse) with ⟨hnot, hsame⟩
      | ⟨hrewrites, counted, hsorted, hcounted, heq⟩
  · rw [hsame]
    exact ⟨fun _ _ => rfl, fun _ _ => rfl, fun h => absurd h hnot, fun _ => rfl⟩
  have hlt := clusters_lt hboot
  have hhas : ∀ c ∈ counted, boot.hasCluster c = true := fun c hc => ((hcounted c).mp hc).1
  rw [heq]
  dsimp only
  refine ⟨fun n hn => Function.update_of_ne hn _ _, fun i hi => ?_,
    fun _ => ⟨rfl, counted.toFinset, fun c => ?_, ?_, ?_⟩, fun h => absurd hrewrites h⟩
  · rw [Function.update_self, putWord_outside (by omega), putWord_outside (by omega)]
  · rw [List.mem_toFinset, hcounted]
    exact ⟨fun h => ⟨h.1, (freeIn_iff h.1).mp h⟩, fun h => (freeIn_iff h.1).mpr h.2⟩
  · rw [Function.update_self, wordAt_putWord_of_ne (by omega) (by omega),
      wordAt_putWord_self (by omega) (lt_of_le_of_lt (counted_length hsorted hhas) hlt),
      List.toFinset_card_of_nodup (hsorted.imp ne_of_lt)]
  · rw [Function.update_self, wordAt_putWord_self (by omega) (lt_trans (head_getD_lt hhas) hlt),
      head_getD_eq_min hsorted]

/-- The boot sector of a volume with nothing on it, with an FSInfo sector after the boot
sector. -/
def hintedBoot : BootSector := ⟨512, 1, 2, 1, 66039, 512, 2, 1, 65525, none⟩

/-- A disk whose boot sector names a sector for the counts, and where that sector holds them. -/
def hintedDisk : Disk
  | 0 => fun i =>
      match i.val with
      | 14 => 2
      | 32 => 0xF7
      | 48 => 1
      | _ => emptyDisk 0 i
  | 1 => putWord (putWord (fun _ => 0) 0 fsInfoLead) 484 fsInfoStructure
  | 2 => emptyDisk 1
  | _ => fun _ => 0

/-- What is stored there counts cluster 3, and not the root directory. -/
theorem updateFsInfo_counts_hintedDisk :
    BootSector.parse (hintedDisk 0) = .ok hintedBoot ∧ Rewrites hintedBoot ⟨hintedDisk, 1⟩
      ∧ ∃ free : Finset ℕ, 2 ∉ free ∧ 3 ∈ free
        ∧ wordAt ((updateFsInfo hintedBoot ⟨hintedDisk, 1⟩).2.disk hintedBoot.fsInfoSector) 488
          = free.card := by
  have hparse : BootSector.parse (hintedDisk 0) = .ok hintedBoot := by decide +kernel
  have hrewrites : Rewrites hintedBoot ⟨hintedDisk, 1⟩ :=
    ⟨by decide, by decide +kernel, by decide +kernel, by decide⟩
  obtain ⟨-, -, hdoes, -⟩ := updateFsInfo_counts hparse ⟨hintedDisk, 1⟩
  obtain ⟨-, free, hfree, hcount, -⟩ := hdoes hrewrites
  refine ⟨hparse, hrewrites, free, fun hmem => ?_, (hfree 3).mpr ⟨by decide, ?_⟩, hcount⟩
  · have hin : FreeIn hintedBoot hintedDisk 2 :=
      (@freeIn_iff hintedBoot ⟨hintedDisk, 1⟩ 2 (by decide)).mpr ((hfree 2).mp hmem).2
    exact absurd hin (by decide +kernel)
  · exact (@freeIn_iff hintedBoot ⟨hintedDisk, 1⟩ 3 (by decide)).mp (by decide +kernel)

end Stored

end Harlan.Fat
