import Mathlib.Tactic
import Harlan.Fat.Reading

/-!
The root directory as a list of slots, and what makes a volume consistent.

* `Sound`, `Consistent`: every chain of the directory is whole, no two of them meet, and no two
  entries have one name.
* `Sound.congr`, `Sound.replace`: what keeps a volume so; the second is one slot replaced by
  the entry of a file in clusters that were free.
* `Spot`: where a file of a name is, or would go; `directorySlot_triple` says that is what
  `directory_slot` finds.
* `map_putSlot`: a slot written to the disk is that slot of the directory.
-/

namespace Harlan.Fat

open Eff

/-! ### Names -/

/-- The eleven bytes of a slot's name. -/
def storedName (bytes : SlotBytes) : EncodedName := fun i => bytes ⟨i, stored_lt i⟩

lemma storesName_iff {bytes : SlotBytes} {name : EncodedName} :
    storesName bytes name = true
      ↔ ∀ i, toAsciiUppercase (storedName bytes i) = toAsciiUppercase (name i) := by
  simp [storesName, eqIgnoreAsciiCase, storedName]

/-- Two slots that store one name have the same name. -/
lemma storesName_trans {x y : SlotBytes} {name : EncodedName} (hx : storesName x name = true)
    (hy : storesName y name = true) : storesName x (storedName y) = true := by
  rw [storesName_iff] at hx hy ⊢
  exact fun i => (hx i).trans (hy i).symm

lemma storesName_congr {x y : SlotBytes} {name : EncodedName}
    (hxy : storesName x (storedName y) = true) (hy : storesName y name = true) :
    storesName x name = true := by
  rw [storesName_iff] at hxy hy ⊢
  exact fun i => (hxy i).trans (hy i)

/-! ### Lists of slots -/

lemma decodeSlot_end {bytes : SlotBytes} (h : bytes 0 = 0) : decodeSlot bytes = .end' :=
  if_pos h

lemma decodeSlot_deleted {bytes : SlotBytes} (h : bytes 0 = entryDeleted) :
    decodeSlot bytes = .skip := by
  rw [decodeSlot, if_neg (by rw [h]; decide), if_pos h]

lemma entriesOf_append {slots slots' : List SlotBytes} (h : ∀ x ∈ slots, decodeSlot x ≠ .end') :
    entriesOf (slots ++ slots') = entriesOf slots ++ entriesOf slots' := by
  induction slots with
  | nil => rfl
  | cons x rest ih =>
      have hrest := ih fun y hy => h y (List.mem_cons_of_mem _ hy)
      have hx := h x List.mem_cons_self
      rw [List.cons_append, entriesOf, entriesOf]
      rcases hslot : decodeSlot x with entry | _ | _
      · dsimp only
        rw [hrest, List.cons_append]
      · exact hrest
      · exact absurd hslot hx

lemma entriesOf_zero {slots : List SlotBytes} (h : ∀ x ∈ slots, x 0 = 0) :
    entriesOf slots = [] := by
  cases slots with
  | nil => rfl
  | cons x rest => rw [entriesOf, decodeSlot_end (h x List.mem_cons_self)]

/-! ### What makes a volume consistent -/

/-- The directory and the table of a volume agree. -/
structure Sound (boot : BootSector) (fat : ℕ → Entry) (slots : List SlotBytes) : Prop where
  /-- No cluster has a number the table uses for something else. -/
  clusters : boot.clusters + 2 ≤ 0x0FFFFFF7
  root : IsChain boot fat boot.rootCluster (chainOf boot fat boot.rootCluster)
  /-- Chains are in range, end, and are long enough; none is a size of zero. -/
  file : ∀ x ∈ entriesOf slots, IsFile boot fat (slotEntry x)
  disjointRoot : ∀ x ∈ entriesOf slots, (chainOf boot fat boot.rootCluster).Disjoint
    (chainOf boot fat (slotEntry x).firstCluster)
  disjoint : (entriesOf slots).Pairwise fun x y =>
    (chainOf boot fat (slotEntry x).firstCluster).Disjoint
    (chainOf boot fat (slotEntry y).firstCluster)
  names : (entriesOf slots).Pairwise fun x y => storesName x (storedName y) = false
  /-- Past the end of the directory nothing was ever used. -/
  ended : ∀ before x after, slots = before ++ x :: after → decodeSlot x = .end' →
    ∀ y ∈ after, y 0 = 0

/-- The volume on a disk is consistent. -/
def Consistent (boot : BootSector) (disk : Disk) : Prop :=
  Sound boot (entryOf boot disk) (rootSlots boot disk)

section Keep

variable {boot : BootSector} {fat fat' : ℕ → Entry} {slots : List SlotBytes}

lemma IsChain.chainOf_congr {first : ℕ} {clusters : List ℕ} (h : IsChain boot fat first clusters)
    (hsame : ∀ cluster ∈ clusters, fat' cluster = fat cluster) :
    chainOf boot fat' first = chainOf boot fat first := by
  rw [(h.congr hsame).chainOf_eq, h.chainOf_eq]

/-- A file depends on the entries of its own clusters. -/
lemma IsFile.congr {entry : DirectoryEntry} (h : IsFile boot fat entry)
    (hsame : ∀ cluster ∈ chainOf boot fat entry.firstCluster, fat' cluster = fat cluster) :
    IsFile boot fat' entry
      ∧ chainOf boot fat' entry.firstCluster = chainOf boot fat entry.firstCluster := by
  have hchain : chainOf boot fat' entry.firstCluster = chainOf boot fat entry.firstCluster := by
    by_cases hfirst : entry.firstCluster = 0
    · rw [hfirst, chainOf_zero, chainOf_zero]
    · exact (h.chain hfirst).chainOf_congr hsame
  refine ⟨⟨fun hfirst => ?_, ?_⟩, hchain⟩
  · rw [hchain]
    exact (h.chain hfirst).congr hsame
  · rw [hchain]
    exact h.size

lemma IsFile.inside {entry : DirectoryEntry} (h : IsFile boot fat entry) {cluster : ℕ}
    (hmem : cluster ∈ chainOf boot fat entry.firstCluster) :
    boot.hasCluster cluster = true ∧ fat cluster ≠ .free := by
  by_cases hfirst : entry.firstCluster = 0
  · rw [hfirst, chainOf_zero] at hmem
    exact absurd hmem List.not_mem_nil
  · exact ⟨(h.chain hfirst).inside cluster hmem, (h.chain hfirst).not_free hmem⟩

namespace Sound

/-- Where the clusters in use keep their entries, the chain of an entry stays the same. -/
lemma file_congr (h : Sound boot fat slots)
    (hsame : ∀ cluster, boot.hasCluster cluster = true → fat cluster ≠ .free →
      fat' cluster = fat cluster) {x : SlotBytes} (hx : x ∈ entriesOf slots) :
    IsFile boot fat' (slotEntry x) ∧ chainOf boot fat' (slotEntry x).firstCluster
      = chainOf boot fat (slotEntry x).firstCluster := by
  refine (h.file x hx).congr fun cluster hmem => ?_
  obtain ⟨hin, hused⟩ := (h.file x hx).inside hmem
  exact hsame cluster hin hused

lemma root_congr (h : Sound boot fat slots)
    (hsame : ∀ cluster ∈ chainOf boot fat boot.rootCluster, fat' cluster = fat cluster) :
    IsChain boot fat' boot.rootCluster (chainOf boot fat' boot.rootCluster)
      ∧ chainOf boot fat' boot.rootCluster = chainOf boot fat boot.rootCluster := by
  have hchain := h.root.congr hsame
  rw [hchain.chainOf_eq]
  exact ⟨hchain, rfl⟩

/-- A volume stays consistent while nothing changes but entries of free clusters. -/
lemma congr (h : Sound boot fat slots)
    (hsame : ∀ cluster, boot.hasCluster cluster = true → fat cluster ≠ .free →
      fat' cluster = fat cluster) : Sound boot fat' slots := by
  have hroot := @Sound.root_congr _ _ fat' _ h fun cluster hmem =>
    hsame cluster (h.root.inside cluster hmem) (h.root.not_free hmem)
  refine ⟨h.clusters, hroot.1, fun x hx => (h.file_congr hsame hx).1, fun x hx => ?_, ?_, h.names,
    h.ended⟩
  · rw [hroot.2, (h.file_congr hsame hx).2]
    exact h.disjointRoot x hx
  · refine h.disjoint.imp_of_mem fun {x y} hx hy hxy => ?_
    rw [(h.file_congr hsame hx).2, (h.file_congr hsame hy).2]
    exact hxy

end Sound

end Keep

/-! ### Replacing a slot -/

/-- A slot `x` of a directory that holds the entry of a name, or is where one would go. -/
structure Spot (name : EncodedName) (slots before : List SlotBytes) (x : SlotBytes)
    (after taken : List SlotBytes) : Prop where
  split : slots = before ++ x :: after
  goesOn : ∀ y ∈ before, decodeSlot y ≠ .end'
  entries : entriesOf slots = entriesOf before ++ taken ++ entriesOf after
  /-- What is in the slot now: the entry of the name, or nothing. -/
  holds : taken = [x] ∨ taken = []
  named : ∀ y ∈ taken, storesName y name = true
  others : ∀ y ∈ entriesOf before ++ entriesOf after, storesName y name = false

namespace Spot

variable {boot : BootSector} {name : EncodedName} {fat fat' : ℕ → Entry} {x new : SlotBytes}
  {slots before after taken : List SlotBytes}

/-- The directory with the slot replaced has the new entry in place of what was there. -/
lemma entriesOf_replace (h : Spot name slots before x after taken) {entry : DirectoryEntry}
    (hnew : decodeSlot new = .entry entry) :
    entriesOf (before ++ new :: after) = entriesOf before ++ new :: entriesOf after := by
  rw [entriesOf_append h.goesOn, entriesOf, hnew]

lemma filter_others (h : Spot name slots before x after taken) :
    (entriesOf slots).filter
    (fun y => !storesName y name) = entriesOf before ++ entriesOf after := by
  have hout : taken.filter (fun y => !storesName y name) = [] := by
    rw [List.filter_eq_nil_iff]
    intro y hy
    simp [h.named y hy]
  have hkeep : ∀ part, part ⊆ entriesOf before ++ entriesOf after →
      part.filter (fun y => !storesName y name) = part := by
    intro part hpart
    rw [List.filter_eq_self]
    intro y hy
    simp [h.others y (hpart hy)]
  rw [h.entries, List.filter_append, List.filter_append, hout, List.append_nil,
    hkeep _ (List.subset_append_left _ _), hkeep _ (List.subset_append_right _ _)]

lemma filter_named (h : Spot name slots before x after taken) :
    (entriesOf slots).filter (fun y => storesName y name) = taken := by
  have hout : ∀ part, part ⊆ entriesOf before ++ entriesOf after →
      part.filter (fun y => storesName y name) = [] := by
    intro part hpart
    rw [List.filter_eq_nil_iff]
    intro y hy
    simp [h.others y (hpart hy)]
  have hkeep : taken.filter (fun y => storesName y name) = taken :=
    List.filter_eq_self.mpr h.named
  rw [h.entries, List.filter_append, List.filter_append, hkeep,
    hout _ (List.subset_append_left _ _), hout _ (List.subset_append_right _ _), List.append_nil,
    List.nil_append]

/-- The new entry is at the same spot. -/
lemma replace (h : Spot name slots before x after taken) {entry : DirectoryEntry}
    (hnew : decodeSlot new = .entry entry) (hname : storesName new name = true) :
    Spot name (before ++ new :: after) before new after [new] := by
  refine ⟨rfl, h.goesOn, ?_, .inl rfl, ?_, h.others⟩
  · rw [h.entriesOf_replace hnew, List.append_assoc, List.singleton_append]
  · intro y hy
    rw [List.mem_singleton.mp hy]
    exact hname

lemma others_sublist (h : Spot name slots before x after taken) :
    (entriesOf before ++ entriesOf after).Sublist (entriesOf slots) := by
  rw [h.entries, List.append_assoc]
  exact (List.Sublist.refl _).append (List.sublist_append_right _ _)

lemma taken_subset (h : Spot name slots before x after taken) : taken ⊆ entriesOf slots := by
  rw [h.entries]
  exact fun y hy => List.mem_append_left _ (List.mem_append_right _ hy)

end Spot

section Replace

variable {boot : BootSector} {name : EncodedName} {fat fat' : ℕ → Entry} {x new : SlotBytes}
  {slots before after taken : List SlotBytes} (h : Sound boot fat slots)
  (hspot : Spot name slots before x after taken)
  (hsame : ∀ cluster, boot.hasCluster cluster = true → fat cluster ≠ .free →
    (∀ y ∈ taken, cluster ∉ chainOf boot fat (slotEntry y).firstCluster) →
      fat' cluster = fat cluster)

include h hspot hsame

namespace Sound

/-- The files of other names keep their chains when nothing else in use changes. -/
lemma file_replace {y : SlotBytes} (hy : y ∈ entriesOf before ++ entriesOf after) :
    IsFile boot fat' (slotEntry y) ∧ chainOf boot fat' (slotEntry y).firstCluster
      = chainOf boot fat (slotEntry y).firstCluster := by
  have hmem := hspot.others_sublist.subset hy
  refine (h.file y hmem).congr fun cluster hcluster => ?_
  obtain ⟨hin, hused⟩ := (h.file y hmem).inside hcluster
  refine hsame cluster hin hused fun t ht hcluster' => ?_
  have hne : y ≠ t := by
    rintro rfl
    exact absurd (hspot.named y ht) (by simp [hspot.others y hy])
  have : Std.Symm fun x y : SlotBytes => (chainOf boot fat (slotEntry x).firstCluster).Disjoint
      (chainOf boot fat (slotEntry y).firstCluster) := ⟨fun _ _ hxy => hxy.symm⟩
  have hdisjoint := h.disjoint.forall hmem (hspot.taken_subset ht) hne
  exact hdisjoint hcluster hcluster'

lemma root_replace :
    IsChain boot fat' boot.rootCluster (chainOf boot fat' boot.rootCluster)
      ∧ chainOf boot fat' boot.rootCluster = chainOf boot fat boot.rootCluster := by
  refine h.root_congr fun cluster hmem => ?_
  refine hsame cluster (h.root.inside cluster hmem) (h.root.not_free hmem) fun t ht hcluster => ?_
  exact h.disjointRoot t (hspot.taken_subset ht) hmem hcluster

/-- A volume stays consistent when the entry of a name is replaced by that of a file in
clusters that were free, and nothing in use changes but the chain it had. -/
lemma replace (hnew : decodeSlot new = .entry (slotEntry new))
    (hname : storesName new name = true) (hfile : IsFile boot fat' (slotEntry new))
    (hfree : ∀ cluster ∈ chainOf boot fat' (slotEntry new).firstCluster, fat cluster = .free) :
    Sound boot fat' (before ++ new :: after) := by
  have hroot := h.root_replace hspot hsame
  have hothers := fun y hy => h.file_replace hspot hsame (y := y) hy
  -- what is new meets nothing that was in use
  have hfresh : ∀ y ∈ entriesOf before ++ entriesOf after,
      (chainOf boot fat' (slotEntry new).firstCluster).Disjoint
        (chainOf boot fat' (slotEntry y).firstCluster) := by
    intro y hy cluster hcluster hcluster'
    rw [(hothers y hy).2] at hcluster'
    exact ((h.file y (hspot.others_sublist.subset hy)).inside hcluster').2
      (hfree cluster hcluster)
  have hmem : ∀ {y}, y ∈ entriesOf (before ++ new :: after) →
      y = new ∨ y ∈ entriesOf before ++ entriesOf after := by
    intro y hy
    rw [hspot.entriesOf_replace hnew] at hy
    simp only [List.mem_append, List.mem_cons] at hy ⊢
    tauto
  refine ⟨h.clusters, hroot.1, fun y hy => ?_, fun y hy => ?_, ?_, ?_, ?_⟩
  · obtain rfl | hy := hmem hy
    · exact hfile
    · exact (hothers y hy).1
  · obtain rfl | hy := hmem hy
    · rw [hroot.2]
      exact fun cluster hroot hcluster => h.root.not_free hroot (hfree cluster hcluster)
    · rw [hroot.2, (hothers y hy).2]
      exact h.disjointRoot y (hspot.others_sublist.subset hy)
  · rw [hspot.entriesOf_replace hnew, List.pairwise_middle fun hxy => hxy.symm,
      List.pairwise_cons]
    refine ⟨hfresh, (h.disjoint.sublist hspot.others_sublist).imp_of_mem fun {y z} hy
      hz hyz => ?_⟩
    rw [(hothers y hy).2, (hothers z hz).2]
    exact hyz
  · have hsymm : ∀ {y z : SlotBytes}, storesName y (storedName z) = false →
        storesName z (storedName y) = false := by
      intro y z hyz
      rw [Bool.eq_false_iff, ne_eq, storesName_iff] at hyz ⊢
      exact fun hzy => hyz fun i => (hzy i).symm
    rw [hspot.entriesOf_replace hnew, List.pairwise_middle hsymm, List.pairwise_cons]
    refine ⟨fun y hy => hsymm ?_, h.names.sublist hspot.others_sublist⟩
    rw [Bool.eq_false_iff]
    intro hsame'
    have := storesName_congr hsame' hname
    rw [hspot.others y hy] at this
    cases this
  · intro before' y after' hsplit hend
    -- an end of the directory is past the slot replaced, where nothing changed
    rcases List.append_eq_append_iff.mp hsplit with ⟨mid, hbefore', hmid⟩ | ⟨mid, hbefore, hmid⟩
    · cases mid with
      | nil =>
          rw [List.nil_append, List.cons.injEq] at hmid
          rw [← hmid.1, hnew] at hend
          cases hend
      | cons z mid =>
          rw [List.cons_append, List.cons.injEq] at hmid
          refine h.ended (before ++ x :: mid) y after' ?_ hend
          rw [hspot.split, hmid.2, List.append_assoc, List.cons_append]
    · cases mid with
      | nil =>
          rw [List.nil_append, List.cons.injEq] at hmid
          rw [hmid.1, hnew] at hend
          cases hend
      | cons z mid =>
          rw [List.cons_append, List.cons.injEq] at hmid
          refine absurd hend (hspot.goesOn y ?_)
          rw [hbefore, hmid.1]
          exact List.mem_append_right _ List.mem_cons_self

end Sound

end Replace

/-! ### Finding the slot -/

section Find

variable {name : EncodedName} {disk : Disk}

/-- None of some slots ends the directory, and none has the entry of the name. -/
def Passed (name : EncodedName) (disk : Disk) (places : List Place) : Prop :=
  ∀ place ∈ places, decodeSlot (slotOf disk place) ≠ .end'
    ∧ ∀ entry, decodeSlot (slotOf disk place) = .entry entry →
      storesName (slotOf disk place) name = false

/-- The slot of a place was deleted. -/
def deleted (disk : Disk) (place : Place) : Bool := slotOf disk place 0 == entryDeleted

lemma Passed.entriesOf {places : List Place} (h : Passed name disk places) :
    ∀ y ∈ entriesOf (places.map (slotOf disk)), storesName y name = false := by
  induction places with
  | nil => nofun
  | cons place rest ih =>
      intro y hy
      have hrest := ih fun p hp => h p (List.mem_cons_of_mem _ hp)
      rw [List.map_cons, Fat.entriesOf] at hy
      rcases hslot : decodeSlot (slotOf disk place) with entry | _ | _
      · rw [hslot] at hy
        obtain rfl | hy := List.mem_cons.mp hy
        · exact (h place List.mem_cons_self).2 entry hslot
        · exact hrest y hy
      · rw [hslot] at hy
        exact hrest y hy
      · exact absurd hslot (h place List.mem_cons_self).1

/-- What the scan of `directory_slot` may end with: the first deleted slot, when it passed them
all, the entry of the name, or where the directory ends. -/
def Scanned (name : EncodedName) (disk : Disk) (places : List Place) (free : Option Place) :
    Except (Place × Option DirectoryEntry) (Option Place) → Prop
  | .ok free' => Passed name disk places ∧ free' = free.or (places.find? (deleted disk))
  | .error (place, some entry) => ∃ before after, places = before ++ place :: after
      ∧ Passed name disk before ∧ decodeSlot (slotOf disk place) = .entry entry
      ∧ storesName (slotOf disk place) name = true
  | .error (place, none) => ∃ before last after, places = before ++ last :: after
      ∧ Passed name disk before ∧ decodeSlot (slotOf disk last) = .end'
      ∧ place = (free.or (before.find? (deleted disk))).getD last

/-- A slot that is passed leaves the rest of them. -/
lemma Scanned.cons {place : Place} {rest : List Place} {free free' : Option Place}
    {result : Except (Place × Option DirectoryEntry) (Option Place)}
    (hpassed : Passed name disk [place])
    (hfree : free' = free.or (if deleted disk place then some place else none))
    (h : Scanned name disk rest free' result) :
    Scanned name disk (place :: rest) free result := by
  have hmore : ∀ before, Passed name disk before → Passed name disk (place :: before) := by
    intro before hbefore p hp
    obtain rfl | hp := List.mem_cons.mp hp
    · exact hpassed p (List.mem_singleton_self _)
    · exact hbefore p hp
  have hfind : ∀ before : List Place, free'.or (before.find? (deleted disk))
      = free.or ((place :: before).find? (deleted disk)) := by
    intro before
    rw [hfree, Option.or_assoc, List.find?_cons]
    cases deleted disk place <;> rfl
  rcases result with ⟨found, _ | entry⟩ | free''
  · obtain ⟨before, last, after, rfl, hbefore, hlast, rfl⟩ := h
    exact ⟨place :: before, last, after, rfl, hmore before hbefore, hlast, by rw [hfind]⟩
  · obtain ⟨before, after, rfl, hbefore, hentry, hname⟩ := h
    exact ⟨place :: before, after, rfl, hmore before hbefore, hentry, hname⟩
  · obtain ⟨hrest, rfl⟩ := h
    exact ⟨hmore rest hrest, hfind rest⟩

lemma scan_visitName (places : List Place) (free : Option Place) :
    Scanned name disk places free (scan (visitName name) disk places free) := by
  induction places generalizing free with
  | nil => exact ⟨List.forall_mem_nil _, Option.or_none.symm⟩
  | cons place rest ih =>
      have hcons : scan (visitName name) disk (place :: rest) free
          = match visitName name free place (slotOf disk place) with
            | .ok free => scan (visitName name) disk rest free
            | .error found => .error found := by
        rw [scan, List.foldlM_cons]
        cases visitName name free place (slotOf disk place) <;> rfl
      have hnothing : Passed name disk [] := List.forall_mem_nil _
      rw [hcons, visitName]
      rcases hslot : decodeSlot (slotOf disk place) with entry | _ | _
      · have hkept : deleted disk place = false := by
          rw [deleted, beq_eq_false_iff_ne]
          intro hgone
          rw [decodeSlot_deleted hgone] at hslot
          cases hslot
        dsimp only
        by_cases hname : storesName (slotOf disk place) name = true
        · rw [if_pos hname]
          exact ⟨[], rest, rfl, hnothing, hslot, hname⟩
        · rw [if_neg hname]
          refine .cons (fun p hp => ?_) (by rw [hkept]; simp) (ih free)
          rw [List.mem_singleton.mp hp]
          exact ⟨by simp [hslot], fun _ _ => Bool.eq_false_iff.mpr hname⟩
      · dsimp only
        refine .cons (fun p hp => ?_) ?_ (ih _)
        · rw [List.mem_singleton.mp hp]
          exact ⟨by simp [hslot], by simp [hslot]⟩
        · rw [deleted]
          cases free <;> simp
      · exact ⟨[], place, rest, rfl, hnothing, hslot, by simp⟩

/-- The places of a directory, around the one of a spot. -/
structure SpotAt (name : EncodedName) (disk : Disk) (places before : List Place) (place : Place)
    (after : List Place) (taken : List SlotBytes) : Prop where
  split : places = before ++ place :: after
  spot : Spot name (places.map (slotOf disk)) (before.map (slotOf disk)) (slotOf disk place)
    (after.map (slotOf disk)) taken

lemma Passed.goesOn {places : List Place} (h : Passed name disk places) :
    ∀ y ∈ places.map (slotOf disk), decodeSlot y ≠ .end' := by
  intro y hy
  obtain ⟨place, hplace, rfl⟩ := List.mem_map.mp hy
  exact (h place hplace).1

lemma Passed.mono {places places' : List Place} (h : Passed name disk places)
    (hsub : places' ⊆ places) :
    Passed name disk places' :=
  fun place hplace => h place (hsub hplace)

/-- A slot with nothing in it is a spot, where no entry has the name. -/
lemma spotAt_vacant {before after : List Place} {place : Place}
    (hbefore : Passed name disk before)
    (hvacant : entriesOf ((place :: after).map (slotOf disk))
      = entriesOf (after.map (slotOf disk)))
    (hnone : ∀ y ∈ entriesOf ((before ++ place :: after).map (slotOf disk)),
      storesName y name = false) :
    SpotAt name disk (before ++ place :: after) before place after [] := by
  have hentries : entriesOf ((before ++ place :: after).map (slotOf disk))
      = entriesOf (before.map (slotOf disk)) ++ entriesOf (after.map (slotOf disk)) := by
    rw [List.map_append, entriesOf_append hbefore.goesOn, hvacant]
  rw [hentries] at hnone
  refine ⟨rfl, ?_, hbefore.goesOn, ?_, .inr rfl, nofun, hnone⟩
  · rw [List.map_append, List.map_cons]
  · rw [hentries, List.append_nil]

lemma entriesOf_deleted {place : Place} (after : List Place) (h : deleted disk place = true) :
    entriesOf ((place :: after).map (slotOf disk)) = entriesOf (after.map (slotOf disk)) := by
  rw [List.map_cons, entriesOf, decodeSlot_deleted (beq_iff_eq.mp h)]

lemma entriesOf_end {last : Place} (before after : List Place) (hbefore : Passed name disk before)
    (h : decodeSlot (slotOf disk last) = .end') :
    entriesOf ((before ++ last :: after).map (slotOf disk))
      = entriesOf (before.map (slotOf disk)) := by
  rw [List.map_append, entriesOf_append hbefore.goesOn, List.map_cons, entriesOf, h,
    List.append_nil]

/-- What the scan stops with is a spot of the name. -/
lemma Scanned.spotAt {boot : BootSector} {fat : ℕ → Entry} {places : List Place}
    (h : Sound boot fat (places.map (slotOf disk))) {place : Place}
    {existing : Option DirectoryEntry}
    (hscan : Scanned name disk places none (.error (place, existing))) :
    ∃ before after taken, SpotAt name disk places before place after taken
      ∧ existing = taken.head?.map slotEntry := by
  rcases existing with _ | entry
  · obtain ⟨before, last, after, rfl, hbefore, hlast, hplace⟩ := hscan
    rw [Option.none_or] at hplace
    have hnone : ∀ y ∈ entriesOf ((before ++ last :: after).map (slotOf disk)),
        storesName y name = false := by
      rw [entriesOf_end before after hbefore hlast]
      exact hbefore.entriesOf
    rcases hfind : before.find? (deleted disk) with _ | found
    · -- nothing deleted on the way: the end of the directory itself
      rw [hfind, Option.getD_none] at hplace
      subst hplace
      refine ⟨before, after, [], spotAt_vacant hbefore ?_ hnone, rfl⟩
      have hafter : ∀ y ∈ after.map (slotOf disk), y 0 = 0 :=
        h.ended (before.map (slotOf disk)) (slotOf disk place) (after.map (slotOf disk))
          (by rw [List.map_append, List.map_cons]) hlast
      rw [List.map_cons, entriesOf, hlast, entriesOf_zero hafter]
    · rw [hfind, Option.getD_some] at hplace
      subst hplace
      obtain ⟨hdeleted, before', between, rfl, -⟩ := List.find?_eq_some_iff_append.mp hfind
      rw [List.append_assoc, List.cons_append] at hnone ⊢
      refine ⟨before', between ++ last :: after, [], spotAt_vacant ?_ ?_ hnone, rfl⟩
      · exact hbefore.mono (List.subset_append_left _ _)
      · exact entriesOf_deleted _ hdeleted
  · obtain ⟨before, after, rfl, hbefore, hentry, hname⟩ := hscan
    obtain rfl := eq_slotEntry hentry
    have hentries : entriesOf ((before ++ place :: after).map (slotOf disk))
        = entriesOf (before.map (slotOf disk)) ++ [slotOf disk place]
          ++ entriesOf (after.map (slotOf disk)) := by
      rw [List.map_append, entriesOf_append hbefore.goesOn, List.map_cons, entriesOf, hentry,
        List.append_assoc, List.singleton_append]
    refine ⟨before, after, [slotOf disk place],
      ⟨rfl, ?_, hbefore.goesOn, hentries, .inl rfl, ?_, ?_⟩, rfl⟩
    · rw [List.map_append, List.map_cons]
    · intro y hy
      rw [List.mem_singleton.mp hy]
      exact hname
    · intro y hy
      obtain hy | hy := List.mem_append.mp hy
      · exact hbefore.entriesOf y hy
      · -- no later entry has the name of this one
        have hnames := h.names
        rw [hentries, List.append_assoc, List.singleton_append] at hnames
        have hne := (List.pairwise_cons.mp (List.pairwise_append.mp hnames).2.1).1 y hy
        rw [Bool.eq_false_iff]
        intro hname'
        rw [storesName_trans hname hname'] at hne
        cases hne

/-- So is the first deleted slot of a directory with no end. -/
lemma Scanned.spotAt_ok {places : List Place} {place : Place}
    (hscan : Scanned name disk places none (.ok (some place))) :
    ∃ before after, SpotAt name disk places before place after [] := by
  obtain ⟨hpassed, hfind⟩ := hscan
  rw [Option.none_or] at hfind
  obtain ⟨hdeleted, before, after, rfl, -⟩ := List.find?_eq_some_iff_append.mp hfind.symm
  refine ⟨before, after, spotAt_vacant ?_ (entriesOf_deleted _ hdeleted) hpassed.entriesOf⟩
  exact hpassed.mono (List.subset_append_left _ _)

end Find

section Slot

variable {boot : BootSector} {disk : Disk} {name : EncodedName}

/-- The places of the root directory. -/
def rootPlaces (boot : BootSector) (disk : Disk) : List Place :=
  placesOf boot (chainOf boot (entryOf boot disk) boot.rootCluster)

/-- `directory_slot` finds the spot of a name, and writes nothing. -/
lemma directorySlot_triple (h : Consistent boot disk) :
    Triple (fun dev => dev.disk = disk) (directorySlot boot name)
      (fun found dev => dev.disk = disk ∧ ∃ before after taken,
        SpotAt name disk (rootPlaces boot disk) before found.1 after taken
          ∧ found.2 = taken.head?.map slotEntry)
      (fun _ dev => dev.disk = disk) := by
  have hscan := @scan_visitName name disk (rootPlaces boot disk) none
  have hwalk : Triple (fun dev => dev.disk = disk)
      (reading (walkRoot boot (visitName name) boot.clusters boot.rootCluster none))
      (fun found dev => dev.disk = disk ∧ ∃ last, found
        = (scan (visitName name) disk (rootPlaces boot disk) none).map fun free =>
          (free, last, .end'))
      (fun _ dev => dev.disk = disk) := by
    refine Returns.triple fun dev hdev => ?_
    obtain rfl := hdev
    obtain ⟨last, hwalk⟩ := walkRoot_returns (visitName name) h.root h.root.length_le none
    exact ⟨_, hwalk.mapError, rfl, last, rfl⟩
  refine hwalk.bind fun found dev hdev => ?_
  obtain ⟨hdev, last, rfl⟩ := hdev
  rcases hresult : scan (visitName name) disk (rootPlaces boot disk) none
    with ⟨place, existing⟩ | free
  · rw [hresult] at hscan
    exact ⟨hdev, hscan.spotAt h⟩
  · rw [hresult] at hscan
    rcases free with _ | place
    · exact hdev
    · obtain ⟨before, after, hspot⟩ := hscan.spotAt_ok
      exact ⟨hdev, before, after, [], hspot, rfl⟩

/-! ### Writing it -/

lemma slotOf_putSlot (place place' : Place) (slot : SlotBytes) :
    slotOf (Function.update disk place.1 (putSlot (disk place.1) place.2 slot)) place'
      = if place' = place then slot else slotOf disk place' := by
  rw [slotOf, slotOf]
  by_cases hsector : place'.1 = place.1
  · rw [hsector, Function.update_self, slotAt_putSlot]
    simp only [Prod.ext_iff, hsector, true_and]
  · rw [Function.update_of_ne hsector, if_neg]
    rintro rfl
    exact hsector rfl

lemma mem_placesOf {clusters : List ℕ} {place : Place} (h : place ∈ placesOf boot clusters) :
    ∃ cluster ∈ clusters, ∃ offset < boot.sectorsPerCluster,
      place.1 = dataSector boot cluster offset := by
  obtain ⟨cluster, hcluster, hplace⟩ := List.mem_flatMap.mp h
  obtain ⟨offset, hoffset, hplace⟩ := List.mem_flatMap.mp hplace
  obtain ⟨index, -, rfl⟩ := List.mem_map.mp hplace
  exact ⟨cluster, hcluster, offset, List.mem_range.mp hoffset, rfl⟩

/-- No slot of a chain is visited twice. -/
lemma placesOf_nodup (hboot : boot.WellFormed) {clusters : List ℕ} (hnodup : clusters.Nodup)
    (hinside : ∀ cluster ∈ clusters, boot.hasCluster cluster = true) :
    (placesOf boot clusters).Nodup := by
  have hslots : ∀ sector, (slotsOf sector).Nodup := fun sector =>
    (List.nodup_finRange 16).map fun i j hij => (Prod.mk.inj hij).2
  have hsector : ∀ {sector place}, place ∈ slotsOf sector → place.1 = sector := by
    rintro sector place hplace
    obtain ⟨index, -, rfl⟩ := List.mem_map.mp hplace
    rfl
  refine List.nodup_flatMap.mpr ⟨fun cluster hcluster => List.nodup_flatMap.mpr
    ⟨fun offset _ => hslots _, ?_⟩, ?_⟩
  · refine (List.nodup_range (n := boot.sectorsPerCluster)).imp_of_mem
      fun {offset offset'} hoffset hoffset' hne place hplace hplace' => hne ?_
    have hsame := (hsector hplace).symm.trans (hsector hplace')
    exact (dataSector_inj hboot (hinside cluster hcluster) (hinside cluster hcluster)
      (List.mem_range.mp hoffset) (List.mem_range.mp hoffset') hsame).2
  · refine hnodup.imp_of_mem fun {cluster cluster'} hcluster hcluster' hne place hplace hplace' =>
      hne ?_
    obtain ⟨offset, hoffset, hplace⟩ := List.mem_flatMap.mp hplace
    obtain ⟨offset', hoffset', hplace'⟩ := List.mem_flatMap.mp hplace'
    have hsame := (hsector hplace).symm.trans (hsector hplace')
    exact (dataSector_inj hboot (hinside cluster hcluster) (hinside cluster' hcluster')
      (List.mem_range.mp hoffset) (List.mem_range.mp hoffset') hsame).1

/-- Writing a slot replaces it among the others. -/
lemma map_putSlot {before after : List Place} {place : Place}
    (hnodup : (before ++ place :: after).Nodup) (slot : SlotBytes) :
    (before ++ place :: after).map
        (slotOf (Function.update disk place.1 (putSlot (disk place.1) place.2 slot)))
      = before.map (slotOf disk) ++ slot :: after.map (slotOf disk) := by
  obtain ⟨-, hafter, hdisjoint⟩ := List.nodup_append.mp hnodup
  have hpart : ∀ part : List Place, place ∉ part →
      part.map (slotOf (Function.update disk place.1 (putSlot (disk place.1) place.2 slot)))
        = part.map (slotOf disk) := by
    intro part hout
    refine List.map_congr_left fun place' hplace' => ?_
    rw [slotOf_putSlot, if_neg]
    rintro rfl
    exact hout hplace'
  rw [List.map_append, List.map_cons, slotOf_putSlot, if_pos rfl,
    hpart before fun hmem => hdisjoint place hmem place List.mem_cons_self rfl,
    hpart after (List.nodup_cons.mp hafter).1]

/-- The slots of a directory depend on the sectors of its clusters. -/
lemma slotOf_congr {disk' : Disk} {linked filled clusters : List ℕ}
    (h : SameBut boot linked filled disk disk')
    (hinside : ∀ cluster ∈ clusters, boot.hasCluster cluster = true)
    (hout : ∀ cluster ∈ clusters, cluster ∉ filled) {place : Place}
    (hplace : place ∈ placesOf boot clusters) : slotOf disk' place = slotOf disk place := by
  obtain ⟨cluster, hcluster, offset, hoffset, hsector⟩ := mem_placesOf hplace
  rw [slotOf, slotOf, hsector,
    h.data cluster offset (hinside cluster hcluster) hoffset (hout cluster hcluster)]

end Slot

end Harlan.Fat
