import Mathlib.Tactic
import Harlan.Fat.Walk

/-! Freeing a chain that may go anywhere: out of the volume, around in a loop, into free clusters
or into another file.

* `Settles`, `Sure`, `EndsAt`: with writes enough a computation has one outcome; with fewer it
  fails as the device does.
* `LeadsOut`, `leadsOut_step`: the links from a cluster on come to a number that is no cluster.
* `freeChainFrom_any`, `freeOld_any`: freeing a chain fails where its links lead out of the
  volume, keeps the clusters it is told to keep, and never goes round a loop twice. -/

namespace Harlan.Fat

open Eff

/-! ### Writes enough -/

section Settles

variable {α β : Type} {x : Writing α} {disk disk' disk'' : Disk}

/-- With writes enough the outcome is `result` and the disk `disk'`; with fewer the device
fails. -/
def Settles (x : Writing α) (disk : Disk) (result : Except WriteError α) (disk' : Disk) : Prop :=
  ∃ n, (∀ left < n, (x ⟨disk, left⟩).1 = .error .device) ∧ ∀ left,
    x ⟨disk, n + left⟩ = (result, ⟨disk', left⟩)

lemma Settles.look {result : Except WriteError α}
    (h : ∀ left, x ⟨disk, left⟩ = (result, ⟨disk, left⟩)) :
    Settles x disk result disk := by
  refine ⟨0, nofun, fun left => ?_⟩
  rw [Nat.zero_add]
  exact h left

/-- What fails at first fails whatever comes after it. -/
lemma bind_failed {f : α → Writing β} {dev : Device} {err : WriteError}
    (h : (x dev).1 = .error err) :
    ((x >>= f) dev).1 = .error err := by
  rw [bind_apply]
  rcases hrun : x dev with ⟨err' | a, dev'⟩
  · rw [hrun] at h
    exact congrArg Except.error (Except.error.inj h)
  · rw [hrun] at h
    cases h

lemma Settles.bind {f : α → Writing β} {a : α} {result : Except WriteError β}
    (hx : Settles x disk (.ok a) disk') (hf : Settles (f a) disk' result disk'') :
    Settles (x >>= f) disk result disk'' := by
  obtain ⟨n, hfew, henough⟩ := hx
  obtain ⟨m, hfew', henough'⟩ := hf
  refine ⟨n + m, fun left hleft => ?_, fun left => ?_⟩
  · rcases Nat.lt_or_ge left n with hlt | hge
    · exact bind_failed (hfew left hlt)
    · obtain ⟨k, rfl⟩ := Nat.exists_eq_add_of_le hge
      rw [bind_ok (henough k)]
      exact hfew' k (by omega)
  · rw [Nat.add_assoc, bind_ok (henough (m + left))]
    exact henough' left

lemma Settles.bind_error {f : α → Writing β} {err : WriteError}
    (hx : Settles x disk (.error err) disk') :
    Settles (x >>= f) disk (.error err) disk' := by
  obtain ⟨n, hfew, henough⟩ := hx
  refine ⟨n, fun left hleft => ?_, fun left => ?_⟩
  · exact bind_failed (hfew left hleft)
  · rw [bind_apply, henough left]

/-- With writes enough it answers. -/
def Sure (x : Writing α) : Prop := ∀ disk, ∃ a disk', Settles x disk (.ok a) disk'

lemma Sure.pure (a : α) : Sure (Pure.pure a : Writing α) :=
  fun disk => ⟨a, disk, .look fun _ => rfl⟩

lemma Sure.readSector (sector : ℕ) : Sure (Fat.readSector sector : Writing Sector) :=
  fun disk => ⟨disk sector, disk, .look fun _ => rfl⟩

lemma Sure.writeSector (sector : ℕ) (bytes : Sector) : Sure (Fat.writeSector sector bytes) := by
  refine fun disk =>
    ⟨(), Function.update disk sector bytes, 1, fun left hleft => ?_, fun left => ?_⟩
  · obtain rfl : left = 0 := by omega
    rfl
  · rw [Nat.add_comm]
    rfl

lemma Sure.bind {f : α → Writing β} (hx : Sure x) (hf : ∀ a, Sure (f a)) : Sure (x >>= f) := by
  intro disk
  obtain ⟨a, disk', hsettles⟩ := hx disk
  obtain ⟨b, disk'', hsettles'⟩ := hf a disk'
  exact ⟨b, disk'', hsettles.bind hsettles'⟩

lemma Sure.forEach {items : List α} {body : α → Writing Unit}
    (h : ∀ item ∈ items, Sure (body item)) :
    Sure (Eff.forEach items body) := by
  induction items with
  | nil => exact .pure ()
  | cons item rest ih =>
      exact (h item List.mem_cons_self).bind fun _ =>
        ih fun item' hmem => h item' (List.mem_cons_of_mem _ hmem)

/-- With writes enough it comes to an end, and not because of the device. -/
def EndsAt (x : Writing α) (disk : Disk) : Prop :=
  ∃ result disk', result ≠ .error .device ∧ Settles x disk result disk'

lemma Sure.endsAt (hx : Sure x) (disk : Disk) : EndsAt x disk := by
  obtain ⟨a, disk', hsettles⟩ := hx disk
  exact ⟨.ok a, disk', nofun, hsettles⟩

lemma EndsAt.fail {err : WriteError} (herr : err ≠ .device) (disk : Disk) :
    EndsAt (Eff.fail err : Writing α) disk :=
  ⟨.error err, disk, fun h => herr (Except.error.inj h), .look fun _ => rfl⟩

lemma Sure.bindEndsAt {f : α → Writing β} (hx : Sure x) (disk : Disk)
    (hf : ∀ a disk', EndsAt (f a) disk') :
    EndsAt (x >>= f) disk := by
  obtain ⟨a, disk', hsettles⟩ := hx disk
  obtain ⟨result, disk'', hresult, hsettles'⟩ := hf a disk'
  exact ⟨result, disk'', hresult, hsettles.bind hsettles'⟩

lemma EndsAt.bind {f : α → Writing β} (hx : EndsAt x disk) (hf : ∀ a disk', EndsAt (f a) disk') :
    EndsAt (x >>= f) disk := by
  obtain ⟨err | a, disk', hresult, hsettles⟩ := hx
  · exact ⟨.error err, disk', fun h => hresult (congrArg Except.error (Except.error.inj h)),
      hsettles.bind_error⟩
  · obtain ⟨result, disk'', hresult', hsettles'⟩ := hf a disk'
    exact ⟨result, disk'', hresult', hsettles.bind hsettles'⟩

lemma Settles.congr {x y : Writing α} {result : Except WriteError α}
    (h : ∀ left, x ⟨disk, left⟩ = y ⟨disk, left⟩) (hy : Settles y disk result disk') :
    Settles x disk result disk' := by
  obtain ⟨n, hfew, henough⟩ := hy
  refine ⟨n, fun left hleft => ?_, fun left => ?_⟩
  · rw [h]
    exact hfew left hleft
  · rw [h]
    exact henough left

lemma EndsAt.congr {x y : Writing α} (h : ∀ left, x ⟨disk, left⟩ = y ⟨disk, left⟩)
    (hy : EndsAt y disk) :
    EndsAt x disk := by
  obtain ⟨result, disk', hresult, hsettles⟩ := hy
  exact ⟨result, disk', hresult, hsettles.congr h⟩

lemma Sure.error_eq (hx : Sure x) {dev dev' : Device} {err : WriteError}
    (h : x dev = (.error err, dev')) :
    err = .device := by
  obtain ⟨a, disk', n, hfew, henough⟩ := hx dev.disk
  rcases Nat.lt_or_ge dev.left n with hlt | hge
  · have herr := hfew dev.left hlt
    rw [h] at herr
    exact Except.error.inj herr
  · obtain ⟨k, hk⟩ := Nat.exists_eq_add_of_le hge
    have hdev : dev = ⟨dev.disk, n + k⟩ := by rw [← hk]
    rw [hdev, henough k] at h
    cases h

/-- So a triple for it has no error but the device's. -/
lemma Sure.triple (hx : Sure x) {P : Device → Prop} {Q : α → Device → Prop}
    {R : WriteError → Device → Prop} (h : Triple P x Q R) :
    Triple P x Q fun err dev => err = .device ∧ R err dev := by
  intro dev hdev
  have hout := h dev hdev
  rcases hrun : x dev with ⟨err | a, dev'⟩
  · rw [hrun] at hout
    exact ⟨hx.error_eq hrun, hout⟩
  · rw [hrun] at hout
    exact hout

end Settles

section Parts

variable {boot : BootSector}

lemma sure_setNextCluster {cluster : ℕ} (hcluster : boot.hasCluster cluster = true) (entry : ℕ) :
    Sure (setNextCluster boot cluster entry) := by
  rw [setNextCluster, if_pos hcluster]
  exact .forEach fun table _ => (Sure.readSector _).bind fun _ => .writeSector _ _

lemma sure_linkChain {clusters : List ℕ}
    (h : ∀ cluster ∈ clusters, boot.hasCluster cluster = true) :
    Sure (linkChain boot clusters) := by
  induction clusters with
  | nil => exact .pure ()
  | cons cluster rest ih =>
      exact (sure_setNextCluster (h cluster List.mem_cons_self) _).bind fun _ =>
        ih fun c hc => h c (List.mem_cons_of_mem _ hc)

lemma sure_writeClusters {clusters : List ℕ}
    (h : ∀ cluster ∈ clusters, boot.hasCluster cluster = true) (contents : List UInt8) :
    Sure (writeClusters boot clusters contents) := by
  refine .forEach fun item hitem => ?_
  obtain ⟨cluster, index⟩ := item
  dsimp only
  rw [sectorOfCluster_eq (h cluster (List.fst_mem_of_mem_zipIdx hitem))]
  refine .forEach fun offset _ => ?_
  split
  · exact .pure ()
  · exact .writeSector _ _

lemma sure_putEntry (place : Place) (slot : SlotBytes) : Sure (putEntry place slot) :=
  (Sure.readSector _).bind fun _ => .writeSector _ _

lemma sure_updateFsInfo : Sure (updateFsInfo boot) := by
  have hcount : ∀ sectors state, Sure (countFreeSectors boot sectors state) := by
    intro sectors
    induction sectors with
    | nil => exact fun state => .pure state
    | cons sector rest ih => exact fun state => (Sure.readSector _).bind fun _ => ih _
  rw [updateFsInfo]
  split
  · exact .pure ()
  · refine (Sure.readSector _).bind fun bytes => ?_
    split
    · exact .pure ()
    · exact (hcount _ _).bind fun _ => .writeSector _ _

end Parts

/-! ### Freeing a chain, wherever it goes -/

/-- The cluster a table links to from one the volume has. -/
def linkInside (boot : BootSector) (fat : ℕ → Entry) (cluster : ℕ) : Option ℕ :=
  if boot.hasCluster cluster then nextLink fat cluster else none

/-- The links from a cluster on come to a number that is no cluster of the volume. -/
def LeadsOut (boot : BootSector) (fat : ℕ → Entry) (first : ℕ) : Prop :=
  ∃ nodes, Chain (linkInside boot fat)
    (fun cluster => boot.hasCluster cluster = false) first nodes

/-- The links from a cluster on come to another. -/
def Linked (boot : BootSector) (fat : ℕ → Entry) : ℕ → ℕ → Prop :=
  Relation.ReflTransGen fun cluster next => linkInside boot fat cluster = some next

/-- The table with some clusters taken out of it. -/
def hide (keep : List ℕ) (fat : ℕ → Entry) (cluster : ℕ) : Entry :=
  if cluster ∈ keep then .free else fat cluster

/-- What freeing a chain may change: entries of clusters it links, but none that are kept. -/
def FreedFrom (boot : BootSector) (keep : List ℕ) (first : ℕ) (disk disk' : Disk) : Prop :=
  ∃ freed, SameBut boot freed [] disk disk'
    ∧ ∀ cluster ∈ freed, cluster ∉ keep
      ∧ Linked boot (hide keep (entryOf boot disk)) first cluster

/-- Every cluster that was linked is free, but those that are kept. -/
def AllFreed (boot : BootSector) (keep : List ℕ) (first : ℕ) (disk disk' : Disk) : Prop :=
  ∀ cluster, Linked boot (hide keep (entryOf boot disk)) first cluster →
    boot.hasCluster cluster = true →
    cluster ∉ keep → entryOf boot disk' cluster = .free

/-- How many clusters of a volume are in use. -/
def used (boot : BootSector) (disk : Disk) : ℕ :=
  ((List.range' firstDataCluster boot.clusters).filter fun c =>
    entryOf boot disk c ≠ .free).length

section Free

variable {boot : BootSector} {disk disk' : Disk} {fat fat' : ℕ → Entry} {keep : List ℕ}
  {first next : ℕ}

lemma linkInside_out {cluster : ℕ} (h : boot.hasCluster cluster = false) :
    linkInside boot fat cluster = none := by
  rw [linkInside, if_neg (by rw [h]; decide)]

lemma leadsOut_of_out (h : boot.hasCluster first = false) : LeadsOut boot fat first :=
  ⟨_, .single h⟩

/-- A cluster with no link leads nowhere. -/
lemma not_leadsOut (hfirst : boot.hasCluster first = true)
    (h : linkInside boot fat first = none) :
    ¬ LeadsOut boot fat first := by
  rintro ⟨nodes, hchain⟩
  cases hchain with
  | single hout =>
      rw [hfirst] at hout
      cases hout
  | cons hnext _ =>
      rw [h] at hnext
      cases hnext

/-- Nor do the links of a chain of the volume. -/
lemma IsChain.not_leadsOut {clusters : List ℕ} (h : IsChain boot fat first clusters) :
    ¬ LeadsOut boot fat first := by
  obtain ⟨hchain, hinside⟩ := h
  induction hchain with
  | single hend =>
      refine Fat.not_leadsOut (hinside _ List.mem_cons_self) ?_
      rw [linkInside, nextLink_end _ hend, ite_self]
  | cons hnext _ ih =>
      rintro ⟨nodes, hout⟩
      have hin := hinside _ List.mem_cons_self
      cases hout with
      | single hlast =>
          rw [hin] at hlast
          cases hlast
      | cons hlink hrest =>
          rw [linkInside, if_pos hin, hnext] at hlink
          obtain rfl := Option.some.inj hlink
          exact ih (fun cluster hmem => hinside cluster (List.mem_cons_of_mem _ hmem)) ⟨_, hrest⟩

/-- A walk that leads out does not come back to where it was, so the cluster it was at may be
freed. -/
lemma leadsOut_step (hfirst : boot.hasCluster first = true)
    (hnext : linkInside boot fat first = some next) (hfree : linkInside boot fat' first = none)
    (hsame : ∀ cluster ≠ first, linkInside boot fat' cluster = linkInside boot fat cluster) :
    LeadsOut boot fat first ↔ LeadsOut boot fat' next := by
  constructor
  · rintro ⟨nodes, hchain⟩
    have hnodup := hchain.nodup fun cluster => linkInside_out
    cases hchain with
    | single hout =>
        rw [hfirst] at hout
        cases hout
    | cons hlink hrest =>
        obtain rfl := Option.some.inj (hnext.symm.trans hlink)
        refine ⟨_, hrest.congr (fun cluster hmem => hsame cluster ?_) fun _ _ h => h⟩
        rintro rfl
        exact (List.nodup_cons.mp hnodup).1 hmem
  · rintro ⟨nodes, hchain⟩
    refine ⟨_, .cons hnext
      (hchain.congr (fun cluster hmem => (hsame cluster ?_).symm) fun _ _ h => h)⟩
    rintro rfl
    rcases hchain.linked hmem with hout | ⟨c, hc⟩
    · rw [hfirst] at hout
      cases hout
    · rw [hfree] at hc
      cases hc

/-- Where the link of a cluster is cut, what was linked still is, or is so from where that link
led. -/
lemma linked_cut (hnext : linkInside boot fat first = some next)
    (hsame : ∀ cluster ≠ first, linkInside boot fat' cluster = linkInside boot fat cluster)
    {start cluster : ℕ} (h : Linked boot fat start cluster) : Linked boot fat' start cluster
      ∨ Linked boot fat' next cluster := by
  induction h using Relation.ReflTransGen.head_induction_on with
  | refl => exact .inl .refl
  | @head start middle hstep _ ih =>
      obtain hlinked | hlinked := ih
      · by_cases hstart : start = first
        · -- the link that was cut: what it led to is `next`
          rw [hstart, hnext] at hstep
          obtain rfl := Option.some.inj hstep
          exact .inr hlinked
        · exact .inl (.head (by rw [hsame start hstart, hstep]) hlinked)
      · exact .inr hlinked

/-- From a cluster without a link nothing else is linked. -/
lemma Linked.eq_of_none {cluster : ℕ} (h : Linked boot fat first cluster)
    (hnone : linkInside boot fat first = none) : cluster = first := by
  induction h using Relation.ReflTransGen.head_induction_on with
  | refl => rfl
  | head hstep _ _ =>
      rw [hnone] at hstep
      cases hstep

lemma linkInside_hide (hfirst : boot.hasCluster first = true) (h : first ∉ keep) :
    linkInside boot (hide keep fat) first = nextLink fat first := by
  rw [linkInside, if_pos hfirst, nextLink, hide, if_neg h, nextLink]

/-- Where the loop of `free_chain` stops there is no link. -/
lemma linkInside_stop (h : fat first = .free ∨ first ∈ keep) :
    linkInside boot (hide keep fat) first = none := by
  have hfree : hide keep fat first = .free := by
    rw [hide]
    split
    · rfl
    next hout => exact h.resolve_right hout
  rw [linkInside, nextLink, hfree]
  split <;> rfl

/-- What is freed of a chain after its first cluster. -/
lemma FreedFrom.cons {disk'' : Disk} (hfirst : first ∉ keep)
    (hset : SameBut boot [first] [] disk disk')
    (hlink : linkInside boot (hide keep (entryOf boot disk)) first = some next)
    (hmono : ∀ a b, linkInside boot (hide keep (entryOf boot disk')) a = some b →
      linkInside boot (hide keep (entryOf boot disk)) a = some b)
    (h : FreedFrom boot keep next disk' disk'') : FreedFrom boot keep first disk disk'' := by
  obtain ⟨freed, hsame, hfreed⟩ := h
  refine ⟨first :: freed, (hset.mono (by simp) (List.Subset.refl _)).trans
    (hsame.mono (List.subset_cons_self _ _) (List.Subset.refl _)), fun cluster hmem => ?_⟩
  obtain rfl | hmem := List.mem_cons.mp hmem
  · exact ⟨hfirst, .refl⟩
  · exact ⟨(hfreed cluster hmem).1,
      .head hlink (Relation.ReflTransGen.mono hmono _ _ (hfreed cluster hmem).2)⟩

/-- The rest of the loop of `free_chain`, once a cluster with an entry is free. -/
def freeRest (boot : BootSector) (keep : List ℕ) : ℕ → Entry → Writing Unit
  | 0, _ => fail (.reading .chainLoops)
  | left + 1, .next next => freeChainFrom boot keep left next
  | _ + 1, _ => Pure.pure ()

/-- One turn of the loop of `free_chain`. -/
lemma freeChainFrom_apply (left : ℕ) (dev : Device) :
    freeChainFrom boot keep left first dev
      = if boot.hasCluster first = true then
          if entryOf boot dev.disk first = .free ∨ first ∈ keep then (.ok (), dev)
          else (setNextCluster boot first 0 >>= fun _ =>
            freeRest boot keep left (entryOf boot dev.disk first)) dev
        else (.error (.reading (.badCluster first)), dev) := by
  rw [freeChainFrom]
  by_cases hfirst : boot.hasCluster first = true
  · have hnext : reading (nextCluster boot first) dev
        = (.ok (entryOf boot dev.disk first), dev) :=
      (nextCluster_returns hfirst).mapError
    rw [bind_ok hnext, if_pos hfirst]
    split
    · rfl
    · cases left with
      | zero => rfl
      | succ left => cases entryOf boot dev.disk first <;> rfl
  · rw [if_neg hfirst, bind_apply, reading, mapError, nextCluster, if_neg hfirst]
    rfl

lemma FreedFrom.refl : FreedFrom boot keep first disk disk := ⟨[], .refl, nofun⟩

lemma allFreed_stop (h : entryOf boot disk first = .free ∨ first ∈ keep) :
    AllFreed boot keep first disk disk := by
  intro cluster hlinked _ hkept
  obtain rfl := hlinked.eq_of_none (linkInside_stop h)
  exact h.resolve_right hkept

/-- A cluster that is free stays so while others are freed. -/
lemma FreedFrom.free_stays (h : FreedFrom boot keep next disk disk')
    (hall : AllFreed boot keep next disk disk') (hboot : boot.WellFormed)
    (hfirst : boot.hasCluster first = true) (hfree : entryOf boot disk first = .free) :
    entryOf boot disk' first = .free := by
  obtain ⟨freed, hsame, hfreed⟩ := h
  by_cases hmem : first ∈ freed
  · exact hall first (hfreed first hmem).2 hfirst (hfreed first hmem).1
  · rw [hsame.entryOf hboot hfirst hmem, hfree]

/-- What is free of a chain, when its first cluster is and all after it. -/
lemma FreedFrom.allFreed_cons {disk'' : Disk} (h : FreedFrom boot keep next disk' disk'')
    (hall : AllFreed boot keep next disk' disk'') (hboot : boot.WellFormed)
    (hfirst : boot.hasCluster first = true) (hfree : entryOf boot disk' first = .free)
    (hlink : linkInside boot (hide keep (entryOf boot disk)) first = some next)
    (hsame : ∀ cluster ≠ first, linkInside boot (hide keep (entryOf boot disk')) cluster
      = linkInside boot (hide keep (entryOf boot disk)) cluster) : AllFreed boot keep first disk
        disk'' := by
  intro cluster hlinked hcluster hkept
  obtain hhere | hlinked := linked_cut hlink hsame hlinked
  · obtain rfl := hhere.eq_of_none (linkInside_stop (.inl hfree))
    exact h.free_stays hall hboot hfirst hfree
  · exact hall cluster hlinked hcluster hkept

lemma used_pos (hfirst : boot.hasCluster first = true) (hused : entryOf boot disk first ≠ .free) :
    0 < used boot disk := by
  refine List.length_pos_of_mem (a := first) ?_
  rw [List.mem_filter, List.mem_range'_1, decide_eq_true_eq]
  exact ⟨hasCluster_iff.mp hfirst, hused⟩

/-- With writes enough freeing a chain comes to an end, and not because of the device. -/
lemma freeChainFrom_endsAt (left : ℕ) (disk : Disk) :
    EndsAt (freeChainFrom boot keep left first) disk := by
  have hturn : ∀ left first, (∀ entry disk', EndsAt (freeRest boot keep left entry) disk') →
      ∀ disk, EndsAt (freeChainFrom boot keep left first) disk := by
    intro left first hrest disk
    by_cases hfirst : boot.hasCluster first = true
    · by_cases hstop : entryOf boot disk first = .free ∨ first ∈ keep
      · refine .congr (fun _ => ?_) ((Sure.pure ()).endsAt disk)
        rw [freeChainFrom_apply, if_pos hfirst, if_pos hstop, pure_apply]
      · refine .congr (fun _ => ?_) ((sure_setNextCluster hfirst 0).bindEndsAt disk fun _ =>
          hrest (entryOf boot disk first))
        rw [freeChainFrom_apply, if_pos hfirst, if_neg hstop]
    · refine .congr (fun _ => ?_)
        (.fail (by simp : WriteError.reading (.badCluster first) ≠ .device) disk)
      rw [freeChainFrom_apply, if_neg hfirst, fail]
  induction left generalizing first disk with
  | zero =>
      exact hturn 0 first
        (fun _ => .fail (by simp : WriteError.reading .chainLoops ≠ .device)) disk
  | succ left ih =>
      refine hturn (left + 1) first (fun entry => ?_) disk
      cases entry with
      | next next => exact ih
      | free | reserved | bad | end' => exact (Sure.pure ()).endsAt

variable (hboot : boot.WellFormed)

include hboot

/-- Freeing a cluster leaves one less in use. -/
lemma used_freed {disk' : Disk} (hset : SameBut boot [first] [] disk disk')
    (hfirst : boot.hasCluster first = true) (hused : entryOf boot disk first ≠ .free)
    (hfree : entryOf boot disk' first = .free) : used boot disk' + 1 ≤ used boot disk := by
  have hmem : first ∈ (List.range' firstDataCluster boot.clusters).filter
      fun c => entryOf boot disk c ≠ .free := by
    rw [List.mem_filter, List.mem_range'_1]
    exact ⟨hasCluster_iff.mp hfirst, by simpa using hused⟩
  have hsub : (List.range' firstDataCluster boot.clusters).filter
      (fun c => entryOf boot disk' c ≠ .free)
      ⊆ ((List.range' firstDataCluster boot.clusters).filter
        fun c => entryOf boot disk c ≠ .free).erase first := by
    intro c hc
    rw [List.mem_filter, decide_eq_true_eq] at hc
    have hin : boot.hasCluster c = true := hasCluster_iff.mpr (List.mem_range'_1.mp hc.1)
    have hne : c ≠ first := by
      rintro rfl
      exact hc.2 hfree
    rw [List.mem_erase_of_ne hne, List.mem_filter, decide_eq_true_eq]
    refine ⟨hc.1, ?_⟩
    rw [← hset.entryOf hboot hin (by simpa using hne)]
    exact hc.2
  have hnodup := List.Nodup.filter (fun c => decide (entryOf boot disk' c ≠ .free))
    (List.nodup_range' (s := firstDataCluster) (n := boot.clusters))
  have hle := (List.subperm_of_subset hnodup hsub).length_le
  have hpos := List.length_pos_of_mem hmem
  rw [List.length_erase_of_mem hmem] at hle
  rw [used, used]
  omega

/-- **Freeing a chain, on any table.** It fails where the links lead out of the volume, and there
only, unless the device does; where it does not fail all of the chain is free. -/
theorem freeChainFrom_any {left : ℕ} (hleft : used boot disk ≤ left) :
    Triple (fun dev => dev.disk = disk) (freeChainFrom boot keep left first)
      (fun _ dev => ¬ LeadsOut boot (hide keep (entryOf boot disk)) first
        ∧ FreedFrom boot keep first disk dev.disk ∧ AllFreed boot keep first disk dev.disk)
      (fun err dev => (err = .device ∨ LeadsOut boot (hide keep (entryOf boot disk)) first)
        ∧ FreedFrom boot keep first disk dev.disk) := by
  induction left generalizing disk first with
  | zero =>
      rintro dev rfl
      rw [freeChainFrom_apply]
      split_ifs with hfirst hstop
      · exact ⟨not_leadsOut hfirst (linkInside_stop hstop), .refl, allFreed_stop hstop⟩
      · have hpos := used_pos hfirst fun h => hstop (.inl h)
        omega
      · exact ⟨.inr (leadsOut_of_out (Bool.eq_false_iff.mpr hfirst)), .refl⟩
  | succ left ih =>
      rintro dev rfl
      rw [freeChainFrom_apply]
      split_ifs with hfirst hstop
      · exact ⟨not_leadsOut hfirst (linkInside_stop hstop), .refl, allFreed_stop hstop⟩
      · obtain ⟨hused, hkept⟩ := not_or.mp hstop
        have hlink := @linkInside_hide _ (entryOf boot dev.disk) _ _ hfirst hkept
        have hone : ∀ {disk'}, SameBut boot [first] [] dev.disk disk' →
            FreedFrom boot keep first dev.disk disk' :=
              fun h => ⟨[first], h, fun cluster hmem => by
          rw [List.mem_singleton.mp hmem]
          exact ⟨hkept, .refl⟩⟩
        have hset := (sure_setNextCluster hfirst 0).triple
          (@setNextCluster_triple _ dev.disk hboot _ 0 hfirst)
        refine Triple.bindState (hset.conseq (fun _ h => h) (fun _ _ h => h)
          fun _ _ h => ⟨.inl h.1, hone h.2⟩) (fun _ dev1 hdev1 => ?_) dev rfl
        obtain ⟨hsame, hfree⟩ := hdev1
        rw [decode_zero] at hfree
        have hfree := hfree.entryOf hboot
        -- the table is the same, without the link of the cluster freed
        have hnone := @linkInside_stop boot (entryOf boot dev1.disk) keep first (.inl hfree)
        have hothers : ∀ cluster ≠ first,
            linkInside boot (hide keep (entryOf boot dev1.disk)) cluster
            = linkInside boot (hide keep (entryOf boot dev.disk)) cluster := by
          intro cluster hne
          rw [linkInside, linkInside, nextLink, nextLink, hide, hide]
          split
          next hin => rw [hsame.entryOf hboot hin (by simpa using hne)]
          next => rfl
        have hsub : ∀ a b, linkInside boot (hide keep (entryOf boot dev1.disk)) a = some b →
            linkInside boot (hide keep (entryOf boot dev.disk)) a = some b := by
          intro a b hab
          by_cases hne : a = first
          · rw [hne, hnone] at hab
            cases hab
          · rwa [hothers a hne] at hab
        have hend : nextLink (entryOf boot dev.disk) first = none →
            Triple (· = dev1) (Pure.pure () : Writing Unit)
              (fun _ dev' => ¬ LeadsOut boot (hide keep (entryOf boot dev.disk)) first
                ∧ FreedFrom boot keep first dev.disk dev'.disk
                  ∧ AllFreed boot keep first dev.disk dev'.disk)
              (fun err dev' => (err = .device
                ∨ LeadsOut boot (hide keep (entryOf boot dev.disk)) first)
                ∧ FreedFrom boot keep first dev.disk dev'.disk) := by
          intro hnolink
          refine Triple.pure fun dev' hdev' => ?_
          rw [hdev']
          refine ⟨not_leadsOut hfirst (hlink.trans hnolink), hone hsame,
            fun cluster hlinked _ _ => ?_⟩
          obtain rfl := hlinked.eq_of_none (hlink.trans hnolink)
          exact hfree
        cases hentry : entryOf boot dev.disk first with
        | next next =>
            have hstep := hlink.trans (nextLink_eq_some.mpr hentry)
            have hiff := leadsOut_step hfirst hstep hnone hothers
            have hcount := used_freed hboot hsame hfirst hused hfree
            refine (@ih dev1.disk next (by omega)).conseq (fun _ h => congrArg Device.disk h)
              (fun _ dev' h => ⟨mt hiff.mp h.1, h.2.1.cons hkept hsame hstep hsub,
                h.2.1.allFreed_cons h.2.2 hboot hfirst hfree hstep hothers⟩)
              fun _ dev' h => ⟨h.1.imp_right hiff.mpr, h.2.cons hkept hsame hstep hsub⟩
        | free | reserved | bad | end' => exact hend (by rw [nextLink, hentry])
      · exact ⟨.inr (leadsOut_of_out (Bool.eq_false_iff.mpr hfirst)), .refl⟩

end Free

/-! ### Freeing what a file had -/

/-- The clusters an old file had, if there is one and it had any. -/
def Replaces (existing : Option DirectoryEntry) (first : ℕ) : Prop :=
  ∃ old, existing = some old ∧ old.firstCluster = first ∧ first ≠ 0

section FreeOld

variable {boot : BootSector} {disk : Disk} {existing : Option DirectoryEntry} {keep : List ℕ}

lemma used_le : used boot disk ≤ boot.clusters := by
  rw [used]
  exact (List.length_filter_le _ _).trans (by rw [List.length_range'])

/-- Giving back what a file used before, on any table. -/
lemma freeOld_any (hboot : boot.WellFormed) :
    Triple (fun dev => dev.disk = disk) (freeOld boot existing keep)
      (fun _ dev => (∀ first, Replaces existing first →
        ¬ LeadsOut boot (hide keep (entryOf boot disk)) first)
        ∧ (dev.disk = disk ∨ ∃ first, Replaces existing first
          ∧ FreedFrom boot keep first disk dev.disk)
        ∧ ∀ first, Replaces existing first → AllFreed boot keep first disk dev.disk)
      (fun err dev => (err = .device ∨ ∃ first, Replaces existing first
          ∧ LeadsOut boot (hide keep (entryOf boot disk)) first)
        ∧ (dev.disk = disk ∨ ∃ first, Replaces existing first
          ∧ FreedFrom boot keep first disk dev.disk)) := by
  rcases existing with _ | old
  · refine Triple.pure fun dev hdev => ⟨?_, .inl hdev, ?_⟩ <;>
    · rintro first ⟨old, hold, -⟩
      cases hold
  · rw [freeOld]
    split
    next hzero =>
      refine Triple.pure fun dev hdev => ⟨?_, .inl hdev, ?_⟩ <;>
      · rintro first ⟨old', hold, hfirst, hne⟩
        obtain rfl := Option.some.inj hold
        exact absurd (hfirst.symm.trans hzero) hne
    next hne =>
      have hreplaces : Replaces (some old) old.firstCluster := ⟨old, rfl, rfl, hne⟩
      refine (freeChainFrom_any hboot used_le).conseq (fun _ h => h) (fun _ dev h => ⟨?_, ?_, ?_⟩)
        fun err dev h => ⟨h.1.imp_right fun hout => ⟨_, hreplaces, hout⟩,
          .inr ⟨_, hreplaces, h.2⟩⟩
      · rintro first ⟨old', hold, rfl, -⟩
        obtain rfl := Option.some.inj hold
        exact h.1
      · exact .inr ⟨_, hreplaces, h.2.1⟩
      · rintro first ⟨old', hold, rfl, -⟩
        obtain rfl := Option.some.inj hold
        exact h.2.2

lemma freeOld_endsAt (disk : Disk) : EndsAt (freeOld boot existing keep) disk := by
  rcases existing with _ | old
  · exact (Sure.pure ()).endsAt disk
  · rw [freeOld]
    split
    · exact (Sure.pure ()).endsAt disk
    · exact freeChainFrom_endsAt _ disk

end FreeOld

end Harlan.Fat
