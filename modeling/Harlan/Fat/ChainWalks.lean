import Mathlib.Tactic
import Harlan.Lib.Loops
import Harlan.Fat.Freeing
import Harlan.Fat.Table

/-! The loops of `hal/src/fat.rs` that follow a chain, as the source has them: no recursion on
what is left, but a count of the clusters seen that is compared with those of the volume.

* `chainTurn`, `chainFrom`: a turn of such a loop, and the walk it makes; the loops of
  `read_root`, `directory_slot`, `read_file` and the two of `read_at` are `chainTurn` with their
  own work at a cluster.
* `chainTurn_ends`: it leaves, whatever the table says.
* `chainFrom_chain`: along a chain of the volume that ends, it never says that the chain loops.
* `chainWalks_end`: both, of all four.
* `Frees`, `freeChainFrom_settles`: what `free_chain` does to a table, link by link.
* `freeChain_contained`: it ends, and changes nothing but the entries of what the chain links.
-/

namespace Harlan.Fat

open Eff Harlan.Loops

/-! ### One loop for all of them -/

/-- Where a walk along a chain is: at which cluster, how many it has seen before, and what it
keeps. -/
structure Along (σ : Type) where
  cluster : ℕ
  seen : ℕ
  kept : σ

section Walk

variable {σ ε α : Type} (boot : BootSector) (wrap : VolumeError → ε)
  (work : ℕ → σ → Eff Device ε (Turn σ α)) (stop : σ → ℕ → Entry → Eff Device ε α)

/-- A turn of a walk. There is some work at the cluster, which may be all that was left to do;
then the count, and the link. `stop` is what is made of an entry that is no link. -/
def chainTurn (here : Along σ) : Eff Device ε (Turn (Along σ) α) := do
  match ← work here.cluster here.kept with
  | .leave a => pure (.leave a)
  | .again kept =>
      if boot.clusters < here.seen + 1 then fail (wrap .chainLoops)
      else
        match ← mapError wrap (nextCluster boot here.cluster) with
        | .next next => pure (.again ⟨next, here.seen + 1, kept⟩)
        | entry => do pure (.leave (← stop kept here.cluster entry))

/-- The walk, with `left` clusters still to be seen. -/
def chainFrom : ℕ → ℕ → σ → Eff Device ε α
  | left, cluster, kept => do
      match ← work cluster kept with
      | .leave a => pure a
      | .again kept =>
          match left with
          | 0 => fail (wrap .chainLoops)
          | left + 1 =>
              match ← mapError wrap (nextCluster boot cluster) with
              | .next next => chainFrom left next kept
              | entry => stop kept cluster entry

variable {boot wrap work stop}

lemma chainTurn_unrolls (here : Along σ) :
    Unrolls (chainTurn boot wrap work stop)
      (fun here => chainFrom boot wrap work stop
        (boot.clusters - here.seen) here.cluster here.kept) here := by
  obtain ⟨cluster, seen, kept⟩ := here
  rw [Unrolls]
  dsimp only
  rw [chainFrom, chainTurn, bind_assoc]
  congr 1
  funext turn
  cases turn with
  | leave a => rfl
  | again kept =>
      dsimp only
      split
      · rename_i hleft
        rw [if_pos (by omega), fail_bind]
      · rename_i left hleft
        have hless : boot.clusters - (seen + 1) = left := by omega
        rw [if_neg (by omega), bind_assoc]
        congr 1
        funext entry
        cases entry with
        | next next =>
            rw [pure_bind]
            dsimp only
            rw [hless]
        | free | reserved | bad | end' => simp only [bind_assoc, pure_bind, bind_pure]

/-- A turn that goes on has seen one more cluster, and no more than there are. -/
lemma chainTurn_again {here here' : Along σ} {dev dev' : Device}
    (h : chainTurn boot wrap work stop here dev = (.ok (.again here'), dev')) :
    here'.seen = here.seen + 1 ∧ here'.seen ≤ boot.clusters := by
  rw [chainTurn, bind_apply] at h
  rcases hwork : work here.cluster here.kept dev with ⟨err | kept | a, dev1⟩
  · rw [hwork] at h
    cases h
  · rw [hwork] at h
    dsimp only at h
    split at h
    · cases h
    · rename_i hseen
      rw [bind_apply] at h
      rcases hnext : mapError wrap (nextCluster boot here.cluster) dev1 with ⟨err | entry, dev2⟩
      · rw [hnext] at h
        cases h
      · rw [hnext] at h
        cases entry with
        | next next =>
            cases h
            exact ⟨rfl, by dsimp only; omega⟩
        | free | reserved | bad | end' =>
            dsimp only at h
            rw [bind_apply] at h
            split at h <;> cases h
  · rw [hwork] at h
    cases h

/-- The loop leaves, with what the walk answers. -/
lemma chainTurn_ends (here : Along σ) (dev : Device) :
    ∃ turns ≤ boot.clusters - here.seen + 1,
      Leaves (inEff (chainTurn boot wrap work stop)) turns (here, dev)
        (chainFrom boot wrap work stop
          (boot.clusters - here.seen) here.cluster here.kept dev) := by
  refine inEff_leaves (fun here => boot.clusters - here.seen) chainTurn_unrolls ?_ here dev
  intro here dev here' dev' hturn
  obtain ⟨hmore, hbound⟩ := chainTurn_again hturn
  omega

/-- Neither changes the device nor says that a chain loops. -/
def Harmless (wrap : VolumeError → ε) (dev : Device) (x : Eff Device ε α) : Prop :=
  Triple (· = dev) x (fun _ dev' => dev' = dev) (fun err _ => err ≠ wrap .chainLoops)

/-- A walk with a cluster to spare is harmless where what it does at the entry of its cluster
is. -/
lemma chainFrom_step {cluster left : ℕ} (hcluster : boot.hasCluster cluster = true)
    (hwork : ∀ kept, Harmless wrap dev (work cluster kept))
    (hrest : ∀ kept, Harmless wrap dev (match entryOf boot dev.disk cluster with
      | .next next => chainFrom boot wrap work stop left next kept
      | entry => stop kept cluster entry)) (kept : σ) :
    Harmless wrap dev (chainFrom boot wrap work stop (left + 1) cluster kept) := by
  have hlink : Triple (· = dev) (mapError wrap (nextCluster boot cluster))
      (fun entry dev' => entry = entryOf boot dev.disk cluster ∧ dev' = dev)
      (fun err _ => err ≠ wrap .chainLoops) := by
    refine Returns.triple ?_
    rintro dev rfl
    exact ⟨_, (nextCluster_returns hcluster).mapError, rfl, rfl⟩
  rw [chainFrom]
  refine Triple.bind (hwork kept) fun turn => ?_
  cases turn with
  | leave a => exact Triple.pure fun _ h => h
  | again kept =>
      refine Triple.bind hlink fun entry => Triple.fact ?_
      rintro rfl
      exact hrest kept

/-- Along a chain of the volume that ends, every cluster has been seen before the count is too
high. -/
lemma chainFrom_chain {dev : Device} {first : ℕ} {clusters : List ℕ}
    (h : IsChain boot (entryOf boot dev.disk) first clusters)
    (hwork : ∀ cluster kept, Harmless wrap dev (work cluster kept))
    (hstop : ∀ kept cluster entry, Harmless wrap dev (stop kept cluster entry)) {left : ℕ}
    (hleft : clusters.length ≤ left) (kept : σ) :
    Harmless wrap dev (chainFrom boot wrap work stop left first kept) := by
  obtain ⟨hchain, hinside⟩ := h
  induction hchain generalizing left kept with
  | @single cluster hend =>
      obtain _ | left := left
      · simp at hleft
      · refine chainFrom_step (hinside cluster (by simp)) (hwork cluster) (fun kept => ?_) kept
        rw [hend]
        exact hstop kept cluster .end'
  | @cons cluster next rest hnext _ ih =>
      obtain _ | left := left
      · simp at hleft
      · refine chainFrom_step (hinside cluster (by simp)) (hwork cluster) (fun kept => ?_) kept
        rw [nextLink_eq_some.mp hnext]
        exact ih (by simpa using hleft) kept fun c hc => hinside c (List.mem_cons_of_mem _ hc)

end Walk

/-! ### The four walks -/

section Loops

variable {σ : Type} (boot : BootSector)

/-- The work of the two that go through a directory: the slots of a cluster. -/
def visitWork {β : Type} (visit : σ → Place → SlotBytes → Except β σ) (cluster : ℕ) (s : σ) :
    Reading (Turn σ β) := do
  match ← visitCluster boot visit cluster s with
  | .error b => pure (.leave b)
  | .ok s => pure (.again s)

/-- What `read_root` makes of a slot: it stops at the end of the directory and where `each` says
so. -/
def visitEntry (each : σ → DirectoryEntry → σ × Bool) (s : σ) (_ : Place) (bytes : SlotBytes) :
    Except σ σ :=
  match decodeSlot bytes with
  | .end' => .error s
  | .skip => .ok s
  | .entry entry => if (each s entry).2 then .ok (each s entry).1 else .error (each s entry).1

/-- Of the entries of a directory's clusters only one that says the end is the end. -/
def stopAtEnd (s : σ) (cluster : ℕ) : Entry → Reading σ
  | .end' => pure s
  | entry => fail (.brokenChain cluster entry)

/-- A file whose size is not reached has to have a next cluster. -/
def stopBroken {α : Type} (_ : σ) (cluster : ℕ) (entry : Entry) : Reading α :=
  fail (.brokenChain cluster entry)

/-- The end of a directory, whatever its entry, is where the slot noted on the way is taken. -/
def stopAtFree (free : Option Place) (_ : ℕ) (_ : Entry) :
    Writing (Place × Option DirectoryEntry) :=
  match free with
  | some place => pure (place, none)
  | none => fail .directoryFull

/-- One turn of the walk over the root directory: a cluster's entries, then the next cluster. -/
def readRootTurn (each : σ → DirectoryEntry → σ × Bool) : Along σ → Reading (Turn (Along σ) σ) :=
  chainTurn boot id (visitWork boot (visitEntry each)) stopAtEnd

/-- One turn of the search for the slot of `name`. -/
def directorySlotTurn (name : EncodedName) :
    Along (Option Place) →
      Writing (Turn (Along (Option Place)) (Place × Option DirectoryEntry)) :=
  chainTurn boot WriteError.reading
    (fun cluster free => reading (visitWork boot (visitName name) cluster free))
    stopAtFree

/-- The sectors of a cluster of a file, unless `size` bytes have been read. -/
def readFileWork (size cluster : ℕ) (read : List UInt8) :
    Reading (Turn (List UInt8) (List UInt8)) :=
  if read.length < size then
    match boot.sectorOfCluster cluster with
    | none => fail (.badCluster cluster)
    | some first => do
        let read ← readSectors size ((List.range boot.sectorsPerCluster).map (first + ·)) read
        if read.length = size then pure (.leave read) else pure (.again read)
  else pure (.leave read)

/-- One turn of reading a file: a cluster's bytes, then the next cluster. -/
def readFileTurn (size : ℕ) : Along (List UInt8) →
      Reading (Turn (Along (List UInt8)) (List UInt8)) :=
  chainTurn boot id (readFileWork boot size) stopBroken

/-- No work but to count the steps still to go. -/
def skipWork (cluster : ℕ) : ℕ → Reading (Turn ℕ ℕ)
  | 0 => pure (.leave cluster)
  | steps + 1 => pure (.again steps)

/-- The first loop of `read_at` goes to the cluster that holds the offset. -/
def skipTurn : Along ℕ → Reading (Turn (Along ℕ) ℕ) := chainTurn boot id skipWork stopBroken

/-- The sectors of a cluster from `inside` on, unless `want` bytes have been read. -/
def readAtWork (want cluster : ℕ) : ℕ × List UInt8 → Reading (Turn (ℕ × List UInt8) (List UInt8))
  | (inside, read) =>
      if read.length < want then
        match boot.sectorOfCluster cluster with
        | none => fail (.badCluster cluster)
        | some first => do
            let sectors := ((List.range boot.sectorsPerCluster).drop (inside / sectorBytes)).map
              (first + ·)
            let read ← readSectorsAt want sectors (inside % sectorBytes) read
            if read.length = want then pure (.leave read) else pure (.again (0, read))
      else pure (.leave read)

/-- The second one copies. -/
def readAtTurn (want : ℕ) :
    Along (ℕ × List UInt8) → Reading (Turn (Along (ℕ × List UInt8)) (List UInt8)) :=
  chainTurn boot id (readAtWork boot want) stopBroken

variable {boot}

lemma walkRoot_chainFrom {β ε : Type} (visit : σ → Place → SlotBytes → Except β σ)
    (wrap : VolumeError → ε) (stop : σ → ℕ → Entry → Eff Device ε β) (left cluster : ℕ) (s : σ) :
    (mapError wrap (walkRoot boot visit left cluster s) >>= fun
      | .error b => pure b
      | .ok (s, cluster, entry) => stop s cluster entry)
      = chainFrom boot wrap (fun cluster s => mapError wrap (visitWork boot visit cluster s)) stop
          left cluster s := by
  induction left generalizing cluster s with
  | zero =>
      rw [walkRoot, chainFrom, visitWork]
      simp only [mapError_bind, bind_assoc]
      congr 1
      funext visited
      cases visited with
      | error b => rfl
      | ok s => rfl
  | succ left ih =>
      rw [walkRoot, chainFrom, visitWork]
      simp only [mapError_bind, bind_assoc]
      congr 1
      funext visited
      cases visited with
      | error b => rfl
      | ok s =>
          have hagain : mapError wrap (pure (.again s) : Reading (Turn σ β))
              = pure (.again s) := rfl
          simp only [mapError_bind, bind_assoc, hagain, pure_bind]
          congr 1
          funext entry
          cases entry with
          | next next => exact ih next s
          | free | reserved | bad | end' => rfl

lemma readRoot_chainFrom (each : σ → DirectoryEntry → σ × Bool) (init : σ) :
    readRoot boot each init
      = chainFrom boot id (visitWork boot (visitEntry each)) stopAtEnd boot.clusters
        boot.rootCluster init := by
  have hwalk := @walkRoot_chainFrom σ boot σ VolumeError
    (visitEntry each) id stopAtEnd boot.clusters
    boot.rootCluster init
  simp only [mapError_id] at hwalk
  rw [← hwalk, readRoot]
  congr 1
  funext walked
  rcases walked with s | ⟨s, cluster, entry⟩
  · rfl
  · cases entry <;> rfl

lemma directorySlot_chainFrom (name : EncodedName) :
    directorySlot boot name
      = chainFrom boot WriteError.reading
          (fun cluster free => reading (visitWork boot (visitName name) cluster free)) stopAtFree
          boot.clusters boot.rootCluster none := by
  have hwalk := @walkRoot_chainFrom _ boot _ WriteError
    (visitName name) WriteError.reading stopAtFree boot.clusters
    boot.rootCluster none
  simp only [reading]
  rw [← hwalk, directorySlot]
  congr 1
  funext walked
  rcases walked with found | ⟨_ | place, cluster, entry⟩ <;> rfl

lemma nextOfFile_bind {α : Type} (cluster : ℕ) (f : ℕ → Reading α) :
    nextOfFile boot cluster >>= f = nextCluster boot cluster >>= fun
      | .next next => f next
      | entry => fail (.brokenChain cluster entry) := by
  rw [nextOfFile, bind_assoc]
  congr 1
  funext entry
  cases entry <;> rfl

/-- A function whose turns are those of a walk over the chain of a file is that walk. -/
lemma chainFrom_of_turn {α : Type} {f : ℕ → ℕ → σ → Reading α} {work : ℕ → σ → Reading (Turn σ α)}
    (hturn : ∀ left cluster s, f left cluster s = work cluster s >>= fun
      | .leave a => pure a
      | .again s =>
          match left with
          | 0 => fail .chainLoops
          | left + 1 =>
              nextOfFile boot cluster >>= fun next => f left next s) (left cluster : ℕ) (s : σ) :
    f left cluster s = chainFrom boot id work stopBroken left cluster s := by
  induction left generalizing cluster s with
  | zero =>
      rw [hturn, chainFrom]
      rfl
  | succ left ih =>
      rw [hturn, chainFrom]
      congr 1
      funext turn
      cases turn with
      | leave a => rfl
      | again s =>
          simp only [mapError_id, nextOfFile_bind]
          congr 1
          funext entry
          cases entry with
          | next next => exact ih next s
          | free | reserved | bad | end' => rfl

lemma readFileFrom_chainFrom (size left cluster : ℕ) (read : List UInt8) :
    readFileFrom boot size left cluster read
      = chainFrom boot id (readFileWork boot size) stopBroken left cluster read := by
  refine chainFrom_of_turn (fun left cluster read => ?_) left cluster read
  rw [readFileFrom, readFileWork]
  split
  · cases boot.sectorOfCluster cluster with
    | none => rfl
    | some first =>
        simp only [bind_assoc]
        congr 1
        funext read
        split <;> rfl
  · rfl

lemma skipClusters_chainFrom (steps left cluster : ℕ) :
    skipClusters boot steps left cluster
      = chainFrom boot id skipWork stopBroken left cluster steps >>= fun cluster =>
        pure (left - steps, cluster) := by
  induction steps generalizing left cluster with
  | zero =>
      rw [skipClusters, chainFrom, skipWork]
      rfl
  | succ steps ih =>
      cases left with
      | zero =>
          rw [skipClusters, chainFrom, skipWork]
          rfl
      | succ left =>
          rw [skipClusters, chainFrom, skipWork, nextOfFile_bind]
          simp only [pure_bind, mapError_id, bind_assoc]
          congr 1
          funext entry
          cases entry with
          | next next =>
              rw [Nat.succ_sub_succ]
              exact ih left next
          | free | reserved | bad | end' => rfl

lemma readAtFrom_chainFrom (want left cluster inside : ℕ) (read : List UInt8) :
    readAtFrom boot want left cluster inside read
      = chainFrom boot id (readAtWork boot want) stopBroken left cluster (inside, read) := by
  refine chainFrom_of_turn
    (f := fun left cluster at' => readAtFrom boot want left cluster at'.1 at'.2) ?_
    left cluster (inside, read)
  rintro left cluster ⟨inside, read⟩
  rw [readAtFrom, readAtWork]
  split
  · cases boot.sectorOfCluster cluster with
    | none => rfl
    | some first =>
        simp only [bind_assoc]
        congr 1
        funext read
        split <;> rfl
  · rfl

/-! ### No work says that a chain loops -/

variable {dev : Device}

/-- Reading that only looks is harmless. -/
lemma Harmless.looks {α : Type} {x : Reading α} (h : ∀ dev, ∃ a, Returns x dev a) :
    Harmless id dev x := by
  refine Returns.triple ?_
  rintro dev rfl
  obtain ⟨a, hx⟩ := h dev
  exact ⟨a, hx, rfl⟩

lemma Harmless.pure {ε α : Type} {wrap : VolumeError → ε} (a : α) :
    Harmless wrap dev (Pure.pure a : Eff Device ε α) := Triple.pure fun _ h => h

lemma Harmless.fail {ε α : Type} {wrap : VolumeError → ε} {err : ε}
    (herr : err ≠ wrap .chainLoops) :
    Harmless wrap dev (Eff.fail err : Eff Device ε α) := Triple.fail fun _ _ => herr

lemma Harmless.bind {ε α β : Type} {wrap : VolumeError → ε} {x : Eff Device ε α}
    {f : α → Eff Device ε β} (hx : Harmless wrap dev x) (hf : ∀ a, Harmless wrap dev (f a)) :
    Harmless wrap dev (x >>= f) :=
  Triple.bind hx hf

/-- As part of writing it is harmless too. -/
lemma Harmless.reading {α : Type} {x : Reading α} (hx : Harmless id dev x) :
    Harmless WriteError.reading dev (Fat.reading x) := by
  refine Triple.mapError
    (Triple.conseq hx (fun _ h => h) (fun _ _ h => h) fun err _ herr heq => ?_)
  exact herr (WriteError.reading.inj heq)

lemma Harmless.ne_error {ε α : Type} {wrap : VolumeError → ε} {x : Eff Device ε α}
    (h : Harmless wrap dev x) : (x dev).1 ≠ .error (wrap .chainLoops) := by
  intro heq
  have hout := h dev rfl
  rcases hx : x dev with ⟨err | a, dev'⟩
  · rw [hx] at hout heq
    exact hout (Except.error.inj heq)
  · rw [hx] at heq
    cases heq

lemma visitWork_harmless {β : Type} (visit : σ → Place → SlotBytes → Except β σ)
    (cluster : ℕ) (s : σ) :
    Harmless id dev (visitWork boot visit cluster s) := by
  refine Harmless.bind ?_ fun visited => ?_
  · rw [visitCluster]
    split
    · exact .fail (by simp)
    · exact .looks fun dev => ⟨_, visitSectors_returns visit _ s⟩
  · cases visited <;> exact .pure _

lemma readSectors_looks (size : ℕ) (sectors : List ℕ) (read : List UInt8) :
    ∃ read', Returns (readSectors size sectors read) dev read' := by
  induction sectors generalizing read with
  | nil => exact ⟨read, .pure⟩
  | cons sector rest ih =>
      rw [readSectors]
      split
      · exact ⟨read, .pure⟩
      · obtain ⟨read', hrest⟩ :=
          ih (read ++ (List.ofFn (dev.disk sector)).take (size - read.length))
        exact ⟨read', (readSector_returns sector).bind hrest⟩

lemma readSectorsAt_looks (want : ℕ) (sectors : List ℕ) (within : ℕ) (read : List UInt8) :
    ∃ read', Returns (readSectorsAt want sectors within read) dev read' := by
  induction sectors generalizing within read with
  | nil => exact ⟨read, .pure⟩
  | cons sector rest ih =>
      rw [readSectorsAt]
      split
      · obtain ⟨read', hrest⟩ :=
          ih 0 (read ++ ((List.ofFn (dev.disk sector)).drop within).take (want - read.length))
        exact ⟨read', (readSector_returns sector).bind hrest⟩
      · exact ⟨read, .pure⟩

lemma readFileWork_harmless (size cluster : ℕ) (read : List UInt8) :
    Harmless id dev (readFileWork boot size cluster read) := by
  rw [readFileWork]
  split
  · split
    · exact .fail (by simp)
    · refine Harmless.bind (.looks fun _ => readSectors_looks _ _ _) fun read => ?_
      split <;> exact .pure _
  · exact .pure _

lemma readAtWork_harmless (want cluster : ℕ) (at' : ℕ × List UInt8) :
    Harmless id dev (readAtWork boot want cluster at') := by
  rw [readAtWork]
  split
  · split
    · exact .fail (by simp)
    · refine Harmless.bind (.looks fun _ => readSectorsAt_looks _ _ _ _) fun read => ?_
      split <;> exact .pure _
  · exact .pure _

lemma stopAtEnd_harmless (s : σ) (cluster : ℕ) (entry : Entry) :
    Harmless id dev (stopAtEnd s cluster entry) := by
  cases entry with
  | end' => exact .pure s
  | free | reserved | bad | next => exact .fail (by simp)

lemma stopBroken_harmless {α : Type} (s : σ) (cluster : ℕ) (entry : Entry) :
    Harmless id dev (stopBroken s cluster entry : Reading α) := .fail nofun

lemma stopAtFree_harmless (free : Option Place) (cluster : ℕ) (entry : Entry) :
    Harmless WriteError.reading dev (stopAtFree free cluster entry) := by
  cases free with
  | none => exact .fail (by simp)
  | some place => exact .pure _

/-- What skipping leaves of a chain is a chain, with clusters enough still to be seen. -/
lemma skipClusters_chain {first : ℕ} {clusters : List ℕ}
    (h : IsChain boot (entryOf boot dev.disk) first clusters) {left : ℕ}
    (hleft : clusters.length ≤ left) (steps : ℕ) :
    Triple (· = dev) (skipClusters boot steps left first)
      (fun at' dev' => (∃ rest, IsChain boot (entryOf boot dev.disk) at'.2 rest
        ∧ rest.length ≤ at'.1)
        ∧ dev' = dev)
      (fun err _ => err ≠ .chainLoops) := by
  induction steps generalizing first clusters left with
  | zero =>
      rw [skipClusters]
      exact Triple.pure fun _ hdev => ⟨⟨clusters, h, hleft⟩, hdev⟩
  | succ steps ih =>
      have hcluster := h.inside first h.chain.mem_self
      obtain _ | left := left
      · exact absurd (List.eq_nil_of_length_eq_zero (Nat.le_zero.mp hleft)) h.chain.ne_nil
      · rw [skipClusters, nextOfFile_bind]
        have hlink : Triple (· = dev) (nextCluster boot first)
            (fun entry dev' => entry = entryOf boot dev.disk first ∧ dev' = dev)
            (fun err _ => err ≠ .chainLoops) := by
          refine Returns.triple ?_
          rintro dev rfl
          exact ⟨_, nextCluster_returns hcluster, rfl, rfl⟩
        refine hlink.bind fun entry => Triple.fact ?_
        rintro rfl
        obtain ⟨hchain, hinside⟩ := h
        cases hchain with
        | single hend =>
            rw [hend]
            exact Triple.fail fun _ _ => by simp
        | @cons _ next rest hnext hrest =>
            rw [nextLink_eq_some.mp hnext]
            exact ih ⟨hrest, fun c hc => hinside c (List.mem_cons_of_mem _ hc)⟩
              (by simpa using hleft)

lemma readAt_harmless {entry : DirectoryEntry} {clusters : List ℕ}
    (h : IsChain boot (entryOf boot dev.disk) entry.firstCluster clusters) (offset room : ℕ) :
    Harmless id dev (readAt boot entry offset room) := by
  rw [readAt]
  split
  · exact .pure _
  · dsimp only
    split
    · exact .pure _
    · refine Triple.bind (skipClusters_chain h h.length_le _) fun at' => Triple.fact ?_
      rintro ⟨rest, hrest, hleft⟩
      rw [readAtFrom_chainFrom]
      exact chainFrom_chain hrest (fun _ _ => readAtWork_harmless _ _ _)
        (fun _ _ _ => stopBroken_harmless _ _ _) hleft _

lemma readFile_harmless {entry : DirectoryEntry} {clusters : List ℕ}
    (h : IsChain boot (entryOf boot dev.disk) entry.firstCluster clusters) (room : ℕ) :
    Harmless id dev (readFile boot entry room) := by
  rw [readFile]
  split
  · exact .fail (by simp)
  · rw [readFileFrom_chainFrom]
    exact chainFrom_chain h (fun _ _ => readFileWork_harmless _ _ _)
      (fun _ _ _ => stopBroken_harmless _ _ _) h.length_le _

lemma readRoot_harmless {clusters : List ℕ}
    (h : IsChain boot (entryOf boot dev.disk) boot.rootCluster clusters)
    (each : σ → DirectoryEntry → σ × Bool) (init : σ) :
    Harmless id dev (readRoot boot each init) := by
  rw [readRoot_chainFrom]
  exact chainFrom_chain h (fun _ _ => visitWork_harmless _ _ _)
    (fun _ _ _ => stopAtEnd_harmless _ _ _)
    h.length_le _

lemma directorySlot_harmless {clusters : List ℕ}
    (h : IsChain boot (entryOf boot dev.disk) boot.rootCluster clusters) (name : EncodedName) :
    Harmless WriteError.reading dev (directorySlot boot name) := by
  rw [directorySlot_chainFrom]
  exact chainFrom_chain h (fun _ _ => (visitWork_harmless _ _ _).reading)
    (fun _ _ _ => stopAtFree_harmless _ _ _) h.length_le _

/-! ### The walks end -/

/-- The chain from a cluster is made of clusters of the volume and reaches an end. -/
def WellChained (boot : BootSector) (dev : Device) (first : ℕ) : Prop :=
  ∃ clusters, IsChain boot (entryOf boot dev.disk) first clusters

/-- From `here` a loop leaves with `result`, after at most as many turns as the volume has
clusters, and one. -/
def Ends {σ ε α : Type} (boot : BootSector) (body : Along σ → Eff Device ε (Turn (Along σ) α))
    (here : Along σ) (dev : Device) (result : Except ε α × Device) : Prop :=
  ∃ turns ≤ boot.clusters + 1, Leaves (inEff body) turns (here, dev) result

lemma chainFrom_ends {σ ε α : Type} {wrap : VolumeError → ε}
    {work : ℕ → σ → Eff Device ε (Turn σ α)} {stop : σ → ℕ → Entry → Eff Device ε α}
    (here : Along σ) :
    Ends boot (chainTurn boot wrap work stop) here dev
      (chainFrom boot wrap work stop (boot.clusters - here.seen) here.cluster here.kept dev) := by
  obtain ⟨turns, hturns, hleaves⟩ := chainTurn_ends here dev
  exact ⟨turns, by omega, hleaves⟩

/-- The first loop of `read_at` leaves with a cluster or an error, and from the cluster the second
one leaves with what `read_at` answers. -/
def ReadAtEnds (boot : BootSector) (entry : DirectoryEntry) (offset room : ℕ)
    (dev : Device) : Prop :=
  let perCluster := boot.sectorsPerCluster * sectorBytes
  ∃ skipped, Ends boot (skipTurn boot) ⟨entry.firstCluster, 0, offset / perCluster⟩ dev skipped
    ∧ match skipped with
      | (.error err, dev') => readAt boot entry offset room dev = (.error err, dev')
      | (.ok cluster, dev') =>
          Ends boot (readAtTurn boot (min (entry.size - offset) room))
            ⟨cluster, offset / perCluster, (offset % perCluster, [])⟩ dev'
            (readAt boot entry offset room dev)

lemma readAt_ends {entry : DirectoryEntry} {offset room : ℕ} (hoffset : offset < entry.size)
    (hroom : 0 < room) : ReadAtEnds boot entry offset room dev := by
  dsimp only [ReadAtEnds]
  have hskip := @chainFrom_ends boot dev _ _ _ id skipWork stopBroken
    ⟨entry.firstCluster, 0, offset / (boot.sectorsPerCluster * sectorBytes)⟩
  refine ⟨_, hskip, ?_⟩
  rw [readAt, if_neg (by omega)]
  dsimp only
  rw [if_neg (by omega), skipClusters_chainFrom, bind_assoc, bind_apply, Nat.sub_zero]
  rcases chainFrom boot id skipWork stopBroken boot.clusters entry.firstCluster
    (offset / (boot.sectorsPerCluster * sectorBytes)) dev with ⟨err | cluster, dev'⟩
  · rfl
  · dsimp only
    rw [pure_bind]
    dsimp only
    rw [readAtFrom_chainFrom]
    exact chainFrom_ends _

/-- **Walking a chain ends, and never cries loop at a good chain.** On an accepted volume,
whatever its tables say: the loops of `read_root`, `directory_slot`, `read_file` and `read_at`
leave, with what these answer, and their count of clusters stays a 32-bit number; and where the
chain they walk is made of clusters of the volume and reaches an end, none of them answers that
the chain loops. -/
theorem chainWalks_end {sector : Sector} {boot : BootSector}
    (hparse : BootSector.parse sector = .ok boot) (dev : Device) :
    boot.clusters + 1 < 2 ^ 32
      ∧ (∀ (σ : Type) (each : σ → DirectoryEntry → σ × Bool) (init : σ),
          Ends boot (readRootTurn boot each) ⟨boot.rootCluster, 0, init⟩ dev
            (readRoot boot each init dev)
            ∧ (WellChained boot dev boot.rootCluster →
              (readRoot boot each init dev).1 ≠ .error .chainLoops))
      ∧ (∀ name,
          Ends boot (directorySlotTurn boot name) ⟨boot.rootCluster, 0, none⟩ dev
            (directorySlot boot name dev)
            ∧ (WellChained boot dev boot.rootCluster →
                (directorySlot boot name dev).1 ≠ .error (.reading .chainLoops)))
      ∧ (∀ entry room,
          (if room < entry.size then readFile boot entry room dev
            = (.error (.tooBig entry.size), dev)
            else Ends boot (readFileTurn boot entry.size) ⟨entry.firstCluster, 0, []⟩ dev
              (readFile boot entry room dev))
            ∧ (WellChained boot dev entry.firstCluster →
              (readFile boot entry room dev).1 ≠ .error .chainLoops))
      ∧ (∀ entry offset room,
          (if entry.size ≤ offset ∨ room = 0 then readAt boot entry offset room dev
            = (.ok [], dev)
            else ReadAtEnds boot entry offset room dev)
            ∧ (WellChained boot dev entry.firstCluster →
                (readAt boot entry offset room dev).1 ≠ .error .chainLoops)) := by
  have hboot := BootSector.parse_wellFormed hparse
  have hclusters : firstDataCluster + boot.clusters < 2 ^ 32 := clusters_lt hboot
  refine ⟨?_, fun σ each init => ⟨?_, ?_⟩, fun name => ⟨?_, ?_⟩, fun entry room => ⟨?_, ?_⟩,
    fun entry offset room => ⟨?_, ?_⟩⟩
  · rw [firstDataCluster] at hclusters
    omega
  · rw [readRoot_chainFrom]
    exact chainFrom_ends _
  · rintro ⟨clusters, h⟩
    exact (readRoot_harmless h each init).ne_error
  · rw [directorySlot_chainFrom]
    exact chainFrom_ends _
  · rintro ⟨clusters, h⟩
    exact (directorySlot_harmless h name).ne_error
  · rw [readFile]
    split
    · rfl
    · rw [readFileFrom_chainFrom]
      exact chainFrom_ends _
  · rintro ⟨clusters, h⟩
    exact (readFile_harmless h room).ne_error
  · split
    · rename_i hnone
      rw [readAt]
      split
      · rfl
      · dsimp only
        rw [if_pos (by omega)]
        rfl
    · exact readAt_ends (by omega) (by omega)
  · rintro ⟨clusters, h⟩
    exact (readAt_harmless h offset room).ne_error

/-- The two clusters of a file, from its first, are read to their end. -/
theorem chainWalks_end_twoFiles :
    WellChained emptyBoot ⟨twoFiles, 0⟩ 3
      ∧ (readFile emptyBoot ⟨[0x41], 0x20, 3, 600⟩ 600 ⟨twoFiles, 0⟩).1 ≠ .error .chainLoops := by
  have hchain : WellChained emptyBoot ⟨twoFiles, 0⟩ 3 :=
    ⟨[3, 4], .cons (by decide +kernel : _ = some 4) (.single (by decide +kernel)), by decide⟩
  exact ⟨hchain, ((chainWalks_end parse_twoFiles ⟨twoFiles, 0⟩).2.2.2.1
    ⟨[0x41], 0x20, 3, 600⟩ 600).2 hchain⟩

end Loops

/-! ### Freeing a chain -/

/-- A turn of the loop of `free_chain`: the cluster it is at, and how many it has freed before. -/
def freeChainTurn (boot : BootSector) (keep : List ℕ) : ℕ × ℕ → Writing (Turn (ℕ × ℕ) Unit)
  | (cluster, seen) => do
      let next ← reading (nextCluster boot cluster)
      if next = .free ∨ cluster ∈ keep then pure (.leave ())
      else do
        setNextCluster boot cluster 0
        if boot.clusters < seen + 1 then fail (.reading .chainLoops)
        else
          match next with
          | .next next => pure (.again (next, seen + 1))
          | _ => pure (.leave ())

/-- What `free_chain` makes of a disk whose writes all take effect, from a cluster on: a number
that is no cluster is refused, a free or a kept one is where it stops, and any other is freed
before its link is followed. -/
inductive Frees (boot : BootSector) (keep : List ℕ) : Disk → ℕ →
      Except WriteError Unit → Disk → Prop
  | out {disk : Disk} {cluster : ℕ} (hout : boot.hasCluster cluster = false) :
      Frees boot keep disk cluster (.error (.reading (.badCluster cluster))) disk
  | stop {disk : Disk} {cluster : ℕ} (hin : boot.hasCluster cluster = true)
      (hstop : entryOf boot disk cluster = .free ∨ cluster ∈ keep) :
    Frees boot keep disk cluster (.ok ()) disk
  | last {disk : Disk} {cluster : ℕ} (hin : boot.hasCluster cluster = true)
      (hgo : ¬ (entryOf boot disk cluster = .free ∨ cluster ∈ keep))
      (hlast : nextLink (entryOf boot disk) cluster = none) :
      Frees boot keep disk cluster (.ok ()) (withEntry boot disk cluster 0)
  | step {disk disk' : Disk} {cluster next : ℕ} {result : Except WriteError Unit}
      (hin : boot.hasCluster cluster = true)
        (hgo : ¬ (entryOf boot disk cluster = .free ∨ cluster ∈ keep))
      (hnext : nextLink (entryOf boot disk) cluster = some next)
      (hrest : Frees boot keep (withEntry boot disk cluster 0) next result disk') :
      Frees boot keep disk cluster result disk'

section FreeChain

variable {boot : BootSector} {keep : List ℕ} {disk disk' : Disk} {first : ℕ}
  {result : Except WriteError Unit}

lemma freeChainTurn_unrolls (at' : ℕ × ℕ) :
    Unrolls (freeChainTurn boot keep)
      (fun at' => freeChainFrom boot keep (boot.clusters - at'.2) at'.1) at' := by
  obtain ⟨cluster, seen⟩ := at'
  rw [Unrolls]
  dsimp only
  rw [freeChainFrom, freeChainTurn, bind_assoc]
  congr 1
  funext next
  split
  · rfl
  · rw [bind_assoc]
    congr 1
    funext _
    split
    · rename_i hleft
      rw [if_pos (by omega)]
      rfl
    · rename_i left hleft
      have hless : boot.clusters - (seen + 1) = left := by omega
      rw [if_neg (by omega)]
      cases next with
      | next next =>
          rw [pure_bind]
          dsimp only
          rw [hless]
      | free | reserved | bad | end' => rfl

/-- A turn that goes on has freed one more cluster, and no more than there are. -/
lemma freeChainTurn_again {at' next : ℕ × ℕ} {dev dev' : Device}
    (h : freeChainTurn boot keep at' dev = (.ok (.again next), dev')) :
    next.2 = at'.2 + 1 ∧ next.2 ≤ boot.clusters := by
  obtain ⟨cluster, seen⟩ := at'
  rw [freeChainTurn, bind_apply] at h
  rcases hentry : reading (nextCluster boot cluster) dev with ⟨err | entry, dev1⟩
  · rw [hentry] at h
    cases h
  · rw [hentry] at h
    dsimp only at h
    split at h
    · cases h
    · rw [bind_apply] at h
      rcases hset : setNextCluster boot cluster 0 dev1 with ⟨err | done, dev2⟩
      · rw [hset] at h
        cases h
      · rw [hset] at h
        dsimp only at h
        split at h
        · cases h
        · cases entry with
          | next next =>
              cases h
              exact ⟨rfl, by dsimp only; omega⟩
          | free | reserved | bad | end' => cases h

lemma freeChainTurn_ends (first : ℕ) (dev : Device) :
    ∃ turns ≤ boot.clusters + 1,
      Leaves (inEff (freeChainTurn boot keep)) turns ((first, 0), dev)
        (freeChain boot first keep dev) := by
  refine inEff_leaves (fun at' => boot.clusters - at'.2) freeChainTurn_unrolls ?_ (first, 0) dev
  intro at' dev next dev' hturn
  obtain ⟨hmore, hbound⟩ := freeChainTurn_again hturn
  omega

/-! ### What is freed -/

lemma Frees.result_eq (h : Frees boot keep disk first result disk') :
    result = .ok () ∨ ∃ cluster, result = .error (.reading (.badCluster cluster)) := by
  induction h with
  | @out _ cluster _ => exact .inr ⟨cluster, rfl⟩
  | stop | last => exact .inl rfl
  | step _ _ _ _ ih => exact ih

variable (hboot : boot.WellFormed)

include hboot

/-- With writes enough, `set_next_cluster` edits the one entry. -/
lemma setNextCluster_settles {cluster : ℕ} (hin : boot.hasCluster cluster = true) :
    Settles (setNextCluster boot cluster 0) disk (.ok ()) (withEntry boot disk cluster 0) := by
  obtain ⟨_, disk', hsettles⟩ := sure_setNextCluster hin 0 disk
  obtain ⟨n, hfew, henough⟩ := hsettles
  obtain rfl := (setNextCluster_withEntry hboot hin).ok rfl (henough 0)
  exact ⟨n, hfew, henough⟩

lemma entryOf_withEntry_self {cluster : ℕ} : entryOf boot (withEntry boot disk cluster 0) cluster
      = .free := by
  rw [entryOf, wordOf_withEntry hboot hboot.fatCount, decode_mergeEntry, decode_zero]

lemma entryOf_withEntry_of_ne {cluster other : ℕ} (hin : boot.hasCluster cluster = true)
    (hother : boot.hasCluster other = true) (hne : other ≠ cluster) :
    entryOf boot (withEntry boot disk cluster 0) other = entryOf boot disk other := by
  rw [entryOf, wordOf_withEntry_of_ne hboot hin hother hne, entryOf]

/-- A freed cluster is one less in use. -/
lemma used_withEntry {cluster : ℕ} (hin : boot.hasCluster cluster = true)
    (hused : entryOf boot disk cluster ≠ .free) :
    used boot (withEntry boot disk cluster 0) + 1 ≤ used boot disk := by
  obtain ⟨n, -, henough⟩ := @setNextCluster_settles boot disk hboot cluster hin
  have hsame := ((setNextCluster_triple hboot hin).ok rfl (henough 0)).1
  exact used_freed hboot hsame hin hused (entryOf_withEntry_self hboot)

/-- Each turn that goes on leaves one cluster less in use, so the loop stops before the count is
too high. -/
lemma freeChainFrom_settles {left : ℕ} (hleft : used boot disk ≤ left) :
    ∃ result disk', Frees boot keep disk first result disk'
      ∧ Settles (freeChainFrom boot keep left first) disk result disk' := by
  induction left using Nat.strong_induction_on generalizing disk first with
  | _ left ih =>
      by_cases hin : boot.hasCluster first = true
      · by_cases hstop : entryOf boot disk first = .free ∨ first ∈ keep
        · refine ⟨_, _, .stop hin hstop, .look fun _ => ?_⟩
          rw [freeChainFrom_apply, if_pos hin, if_pos hstop]
        · have hless := used_withEntry hboot hin fun h => hstop (.inl h)
          obtain ⟨left, rfl⟩ : ∃ left', left = left' + 1 := ⟨left - 1, by omega⟩
          have hset := @setNextCluster_settles boot disk hboot first hin
          have hturn : ∀ writes, freeChainFrom boot keep (left + 1) first ⟨disk, writes⟩
              = (setNextCluster boot first 0 >>= fun _ =>
                  freeRest boot keep (left + 1) (entryOf boot disk first)) ⟨disk, writes⟩ := by
            intro writes
            rw [freeChainFrom_apply, if_pos hin, if_neg hstop]
          cases hentry : entryOf boot disk first with
          | next next =>
              rw [hentry] at hturn
              obtain ⟨result, disk', hfrees, hrest⟩ :=
                @ih left (Nat.lt_succ_self _) (withEntry boot disk first 0) next (by omega)
              exact ⟨result, disk', .step hin hstop (nextLink_eq_some.mpr hentry) hfrees,
                (hset.bind hrest).congr hturn⟩
          | free | reserved | bad | end' =>
              rw [hentry] at hturn
              refine ⟨.ok (), _, .last hin hstop (by rw [nextLink, hentry]),
                (hset.bind ?_).congr hturn⟩
              exact .look fun _ => rfl
      · refine ⟨_, _, .out (Bool.eq_false_iff.mpr hin), .look fun _ => ?_⟩
        rw [freeChainFrom_apply, if_neg hin]

/-- The links that are left after one was freed are links that were there before. -/
lemma Linked.of_withEntry {cluster next other : ℕ} (hin : boot.hasCluster cluster = true)
    (hnext : nextLink (entryOf boot disk) cluster = some next)
    (h : Linked boot (entryOf boot (withEntry boot disk cluster 0)) next other) :
    Linked boot (entryOf boot disk) cluster other := by
  have hmono : ∀ a b, linkInside boot (entryOf boot (withEntry boot disk cluster 0)) a = some b →
      linkInside boot (entryOf boot disk) a = some b := by
    intro a b hab
    rw [linkInside] at hab ⊢
    split
    · rename_i ha
      rw [if_pos ha, nextLink_eq_some] at hab
      by_cases hne : a = cluster
      · rw [hne, entryOf_withEntry_self hboot] at hab
        cases hab
      · rw [nextLink_eq_some, ← hab, entryOf_withEntry_of_ne hboot hin ha hne]
    · rename_i ha
      rw [if_neg ha] at hab
      cases hab
  have hfirst : linkInside boot (entryOf boot disk) cluster = some next := by
    rw [linkInside, if_pos hin, hnext]
  exact .head hfirst (Relation.ReflTransGen.mono hmono _ _ h)

/-- What may become of the entry of a cluster in one copy of the table. -/
lemma Frees.word {table cluster : ℕ} (h : Frees boot keep disk first result disk')
    (htable : table < boot.fatCount) (hcluster : boot.hasCluster cluster = true) :
    wordOf boot disk' table cluster = wordOf boot disk table cluster
      ∨ (cluster ∉ keep ∧ Linked boot (entryOf boot disk) first cluster
          ∧ wordOf boot disk' table cluster = mergeEntry (wordOf boot disk table cluster) 0) := by
  induction h with
  | out | stop => exact .inl rfl
  | @last disk first hin hgo _ =>
      by_cases hhere : cluster = first
      · subst hhere
        exact .inr ⟨(not_or.mp hgo).2, .refl, wordOf_withEntry hboot htable 0⟩
      · exact .inl (wordOf_withEntry_of_ne hboot hin hcluster hhere 0)
  | @step disk disk' first next result hin hgo hnext _ ih =>
      by_cases hhere : cluster = first
      · subst hhere
        refine .inr ⟨(not_or.mp hgo).2, .refl, ?_⟩
        have hset := @wordOf_withEntry boot disk cluster hboot table htable 0
        obtain hsame | ⟨-, -, hfreed⟩ := ih
        · exact hsame.trans hset
        · rw [hfreed, hset, mergeEntry_mergeEntry]
      · rw [wordOf_withEntry_of_ne hboot hin hcluster hhere 0] at ih
        exact ih.imp_right fun ⟨hkept, hlinked, hfreed⟩ =>
          ⟨hkept, hlinked.of_withEntry hboot hin hnext, hfreed⟩

omit hboot

/-- **Freeing a chain is contained**: on an accepted volume, whatever its tables say and whatever
`first` is, on a device whose writes take effect. The loop leaves, and not with `ChainLoops`; the
entry of a cluster in `keep` is as it was; and an entry that is not, in any copy of the table, is
now free and that of a cluster that the links of the table as it was lead to from `first`. -/
theorem freeChain_contained {sector : Sector} (hparse : BootSector.parse sector = .ok boot)
    (disk : Disk) (first : ℕ) (keep : List ℕ) :
    (∀ dev, ∃ turns ≤ boot.clusters + 1,
        Leaves (inEff (freeChainTurn boot keep)) turns ((first, 0), dev)
          (freeChain boot first keep dev))
      ∧ ∃ result disk', Settles (freeChain boot first keep) disk result disk'
          ∧ result ≠ .error (.reading .chainLoops) ∧ result ≠ .error .device
          ∧ ∀ table < boot.fatCount, ∀ cluster, boot.hasCluster cluster = true →
              (cluster ∈ keep → wordOf boot disk' table cluster = wordOf boot disk table cluster)
                ∧ (wordOf boot disk' table cluster ≠ wordOf boot disk table cluster →
                    Entry.decode (wordOf boot disk' table cluster) = .free
                      ∧ Linked boot (entryOf boot disk) first cluster) := by
  have hboot := BootSector.parse_wellFormed hparse
  refine ⟨freeChainTurn_ends first, ?_⟩
  obtain ⟨result, disk', hfrees, hsettles⟩ :=
    @freeChainFrom_settles boot keep disk first hboot _ used_le
  refine ⟨result, disk', hsettles, ?_, ?_, fun table htable cluster hcluster => ?_⟩
  · rintro rfl
    simpa using hfrees.result_eq
  · rintro rfl
    simpa using hfrees.result_eq
  · obtain hsame | ⟨hkept, hlinked, hfreed⟩ := hfrees.word hboot htable hcluster
    · exact ⟨fun _ => hsame, fun hne => absurd hsame hne⟩
    · refine ⟨fun hkeep => absurd hkeep hkept, fun _ => ⟨?_, hlinked⟩⟩
      rw [hfreed, decode_mergeEntry, decode_zero]

/-- Freeing a file of two clusters, with the second of them kept: the first is free. -/
theorem freeChain_contained_twoFiles :
    ∃ result disk', Settles (freeChain emptyBoot 3 [4]) twoFiles result disk'
      ∧ result ≠ .error (.reading .chainLoops)
      ∧ wordOf emptyBoot disk' 0 4 = wordOf emptyBoot twoFiles 0 4
      ∧ wordOf emptyBoot twoFiles 0 3 = 4 ∧ Entry.decode (wordOf emptyBoot disk' 0 3)
        = .free := by
  obtain ⟨result, disk', hsettles, hresult, -, hword⟩ :=
    (freeChain_contained parse_twoFiles twoFiles 3 [4]).2
  have hlinked : wordOf emptyBoot twoFiles 0 3 = 4 := by decide +kernel
  refine ⟨result, disk', hsettles, hresult,
    (hword 0 (by decide) 4 (by decide)).1 (by decide), hlinked,
    ((hword 0 (by decide) 3 (by decide)).2 ?_).1⟩
  -- with writes enough, the word of 3 is another
  obtain ⟨n, hfew, henough⟩ := hsettles
  have hok : (freeChain emptyBoot 3 [4] ⟨twoFiles, 8⟩).1 = .ok () := by decide +kernel
  have hn : n ≤ 8 := by
    by_contra hlt
    rw [hfew 8 (by omega)] at hok
    cases hok
  have hrun := henough (8 - n)
  rw [Nat.add_sub_cancel' hn] at hrun
  have hzero : wordOf emptyBoot (freeChain emptyBoot 3 [4] ⟨twoFiles, 8⟩).2.disk 0 3 = 0 := by
    decide +kernel
  rw [hrun] at hzero
  rw [hzero, hlinked]
  decide

end FreeChain

end Harlan.Fat
