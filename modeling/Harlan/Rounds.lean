import Mathlib.Tactic
import Harlan.Starting

/-!
The rounds of the kernel (`kernel/src/lib.rs`): processes are started and added to the
scheduler, run until none can, and those that are dead are destroyed; then the next round, over
the same scheduler.

A slot that is dead stays dead, so every teardown destroys again what the ones before it
destroyed (`kernel/src/scheduler.rs`, `dead_processes`). A `Machine` keeps what of the scheduler
that takes; beside it, each slot records the number its process was started under and whether
it was destroyed before. A kernel that an assertion has stopped takes no more steps.

* `Act`, `step`: what the kernel does in a round, and what everybody else does between any two
  steps of it.
* `Invariant`, `Invariant.step`: every process not destroyed yet has what it was given.
* `destroy_returns_held`: in every state reached by teardowns that come to no process destroyed
  before, the next `destroy` does what it should exactly where it comes to none either.
* `destroy_returns_others`: a run in which it returns somebody else's frame, and stops.
-/

namespace Harlan.Rounds

open Paging (Memory PageTables Use World tablesOf)
open Radix (follow)

/-! ### The machine -/

/-- How a process is to be started. -/
inductive ToStart where
  | flat (program : List UInt8)
  | elf (program : Elf.Program) (file : List UInt8)

/-- Builds the process, by the one way or the other. -/
def ToStart.spawn (what : ToStart) (mapper : PageTables) (stack : Stack) :
    Eff Kernel SpawnError Process :=
  match what with
  | .flat program => Harlan.spawn mapper program stack
  | .elf program file => spawnElf mapper program file stack

/-- How many processes the scheduler has room for. -/
def maxProcesses : ℕ := 16

/-- A slot of the process table. -/
structure Slot where
  process : Process
  dead : Bool
  /-- Record: the number it was started under. -/
  id : ℕ
  /-- Record: it has been destroyed. -/
  gone : Bool

/-- The kernel, its processes and what they were given. -/
structure Machine where
  kernel : Kernel
  /-- The slots in use, in order; none is ever given up. -/
  slots : List Slot
  /-- Of what `dead_processes` yields, the slots still to be destroyed. -/
  queue : List ℕ
  /-- Record: the number of the next process. -/
  nextId : ℕ

/-- What one round does to the machine. -/
inductive Act where
  | start (guard : ℕ) (what : ToStart)
  /-- Every process runs until it ends, and writes to its memory and its kernel stack. -/
  | runUntilEmpty (mem : Memory)
  | teardown
  | destroyNext
  /-- Somebody else takes a frame, gives one back, or writes to one. -/
  | allocate (purpose : FramePurpose)
  | free (frame : PhysFrame) (purpose : FramePurpose)
  | write (mem : Memory)

section Step

variable (mapper : PageTables)

/-- Everything handed out from now on is for `client`. -/
def onBehalf (k : Kernel) (client : Client) : Kernel := (k.1, { k.2 with client })

/-- A stack, a process on it, and a slot for the process. -/
def start (guard : ℕ) (what : ToStart) (m : Machine) : Machine :=
  match mapWithGuard mapper guard syscallStackPages (onBehalf m.kernel (.process m.nextId)) with
  | (.error _, k) => { m with kernel := k, nextId := m.nextId + 1 }
  | (.ok stack, k) =>
      match what.spawn mapper stack k with
      | (.error _, k) => { m with kernel := k, nextId := m.nextId + 1 }
      | (.ok process, k) =>
          { m with
            kernel := k
            slots := if m.slots.length < maxProcesses
              then m.slots ++ [⟨process, false, m.nextId, false⟩]
              else m.slots
            nextId := m.nextId + 1 }

/-- The slots `dead_processes` yields. -/
def deadProcesses (m : Machine) : List ℕ :=
  (List.range m.slots.length).filter fun i => (m.slots[i]?).any Slot.dead

/-- What an act does. -/
def perform (m : Machine) : Act → Machine
  | .start guard what => start mapper guard what m
  | .runUntilEmpty mem =>
      { m with
        kernel := (mem, m.kernel.2)
        slots := m.slots.map fun slot => { slot with dead := true } }
  | .teardown => { m with queue := deadProcesses m }
  | .destroyNext =>
      match m.queue with
      | [] => m
      | i :: rest =>
          match m.slots[i]? with
          | none => { m with queue := rest }
          | some slot =>
              { m with
                kernel := (destroy mapper slot.process m.kernel).2
                slots := m.slots.set i { slot with gone := true }
                queue := rest }
  | .allocate purpose =>
      { m with
        kernel := ((KernelFrames.source purpose).allocateFrame m.kernel.1
          (onBehalf m.kernel .other).2).2 }
  | .free frame purpose =>
      { m with kernel := (m.kernel.1, (m.kernel.2.deallocateAs frame purpose).2) }
  | .write mem => { m with kernel := (mem, m.kernel.2) }

/-- A step, of a kernel that runs. -/
def step (m : Machine) (act : Act) : Machine :=
  if m.kernel.2.stopped then m else perform mapper m act

/-- Memory a process writes to while it runs: its own, and its kernel stack. -/
def Slot.Writes (slot : Slot) (mem : Memory) (n : ℕ) : Prop :=
  (∃ x ∈ slot.process.frames, x.1.start = n)
    ∨ ∃ page ∈ slot.process.kernelStack.pages, ∃ t, mapper.translate mem page = some t
      ∧ t.phys = n

/-- When a step can happen. Kernel stacks are mapped in the kernel half, and whoever gives a
frame back or writes to it without being a process holds it. -/
def Allowed (m : Machine) : Act → Prop
  | .start guard _ => m.queue = [] ∧ guard % frameSize = 0 ∧ Paging.kernelSpaceBase ≤ guard
      ∧ guard + (syscallStackPages + 1) * frameSize < 2 ^ 64
  | .runUntilEmpty mem => m.queue = []
      ∧ ∀ n, mem n ≠ m.kernel.1 n → ∃ slot ∈ m.slots, slot.dead = false
        ∧ slot.Writes mapper m.kernel.1 n
  | .teardown => m.queue = []
  | .destroyNext => True
  | .allocate _ => True
  | .free frame _ => m.kernel.2.holder frame.start = some .other
  | .write mem => ∀ n, mem n ≠ m.kernel.1 n → m.kernel.2.holder n = some .other

/-- No teardown comes to a process destroyed before. -/
def DestroysOnce (m : Machine) (act : Act) : Prop :=
  act = .destroyNext → ∀ i rest slot, m.queue = i :: rest → m.slots[i]? = some slot →
    slot.gone = false

/-- Before the first round: the kernel's tables are a tree of which nothing is free, what is held
is held by the kernel and is no table, and purposes, if recorded, are for every frame. -/
structure Initial (m : Machine) : Prop where
  slots : m.slots = []
  queue : m.queue = []
  ready : m.kernel.2.Ready
  covers : ∀ table ∈ m.kernel.2.inner.purposes, m.kernel.2.inner.coveredFrames ≤ table.length
  running : m.kernel.2.stopped = false
  tree : ∀ p q n, p.length ≤ 3 → q.length ≤ 3 →
    follow Paging.next m.kernel.1 mapper.root p = some n →
    follow Paging.next m.kernel.1 mapper.root q = some n → p = q
  free : ∀ frame, m.kernel.2.IsFree frame →
    frame.start ∉ tablesOf m.kernel.1 mapper.root ∧ m.kernel.2.holder frame.start = none
  held : ∀ n, m.kernel.2.holder n = none
    ∨ m.kernel.2.holder n = some .other ∧ n ∉ tablesOf m.kernel.1 mapper.root

/-- The states reached by steps of which no teardown comes to a process destroyed before. -/
inductive Reached : Machine → Prop
  | init {m : Machine} (h : Initial mapper m) : Reached m
  | step {m : Machine} {act : Act} (h : Reached m) (hallowed : Allowed mapper m act)
      (honce : DestroysOnce m act) : Reached (step mapper m act)

end Step

/-! ### The invariant -/

/-- Only processes numbered below `bound` are on record. -/
structure Under (inv : Inventory) (bound : ℕ) : Prop where
  spaces : ∀ x ∈ inv.spaces, x.1 < bound
  stackPages : ∀ x ∈ inv.stackPages, x.1 < bound
  memory : ∀ x ∈ inv.memory, x.1 < bound

/-- Every process that was not destroyed has what it was given. -/
structure Invariant (mapper : PageTables) (m : Machine) : Prop where
  good : ∃ use inv, Good use mapper inv m.kernel ∧ Under inv m.nextId
    ∧ ∀ slot ∈ m.slots, slot.gone = false → Owns inv slot.id slot.process
  ids : (m.slots.map Slot.id).Nodup
  old : ∀ slot ∈ m.slots, slot.id < m.nextId
  stacked : ∀ slot ∈ m.slots, slot.process.kernelStack.pages ≠ []
  dead : ∀ slot ∈ m.slots, slot.gone = true → slot.dead = true
  queued : ∀ i ∈ m.queue, ∀ slot, m.slots[i]? = some slot → slot.dead = true

section Invariant

variable {mapper : PageTables} {m : Machine} {use : ℕ → Use} {inv : Inventory}

lemma without_of_under {id : ℕ} (h : Under inv id) : inv.without id = inv := by
  have hsame : ∀ s : Set (ℕ × ℕ), (∀ x ∈ s, x.1 < id) → {x ∈ s | x.1 ≠ id} = s := by
    intro s hs
    ext x
    exact ⟨fun hx => hx.1, fun hx => ⟨hx, (hs x hx).ne⟩⟩
  obtain ⟨spaces, stackPages, memory⟩ := inv
  rw [Inventory.without]
  simp only [hsame _ h.spaces, hsame _ h.stackPages, hsame _ h.memory]

lemma sub_of_without {inv' : Inventory} {id : ℕ} (h : inv'.without id = inv) : inv.Sub inv' := by
  rw [← h]
  exact ⟨fun _ hx => hx.1, fun _ hx => hx.1, fun _ hx => hx.1⟩

lemma under_of_without {inv' : Inventory} {id : ℕ} (h : inv'.without id = inv)
    (hunder : Under inv id) : Under inv' (id + 1) := by
  subst h
  refine ⟨fun x hx => ?_, fun x hx => ?_, fun x hx => ?_⟩ <;> by_cases hid : x.1 = id
  · omega
  · exact (hunder.spaces x ⟨hx, hid⟩).trans (Nat.lt_succ_self id)
  · omega
  · exact (hunder.stackPages x ⟨hx, hid⟩).trans (Nat.lt_succ_self id)
  · omega
  · exact (hunder.memory x ⟨hx, hid⟩).trans (Nat.lt_succ_self id)

lemma under_without (h : Under inv m.nextId) (id : ℕ) : Under (inv.without id) m.nextId :=
  ⟨fun x hx => h.spaces x hx.1, fun x hx => h.stackPages x hx.1, fun x hx => h.memory x hx.1⟩

lemma owns_without {id id' : ℕ} {process : Process} (h : Owns inv id' process) (hne : id' ≠ id) :
    Owns (inv.without id) id' process :=
  ⟨⟨h.space, hne⟩, h.aligned, fun x hx => ⟨h.frames x hx, hne⟩,
    fun page hpage => ⟨h.stack page hpage, hne⟩, h.stacked⟩

/-- On whose behalf the next frames are handed out is no part of it. -/
lemma good_onBehalf {k : Kernel} (h : Good use mapper inv k) (client : Client) :
    Good use mapper inv (onBehalf k client) :=
  ⟨⟨h.ready.sound, h.ready.small⟩, h.supply, h.running, h.world, h.free, h.stackMapped, h.stack,
    h.memory, h.holder, h.others⟩

/-! ### Starting a process -/

/-- What a start leaves, whether or not it succeeds. -/
lemma Invariant.afterFailed {k : Kernel} (h : Invariant mapper m)
    (hk : ∀ inv, (∃ use, Good use mapper inv m.kernel) → Under inv m.nextId →
      Failed mapper inv k) :
    Invariant mapper { m with kernel := k, nextId := m.nextId + 1 } := by
  obtain ⟨use, inv, hgood, hunder, howns⟩ := h.good
  obtain ⟨use', hgood'⟩ := hk inv ⟨use, hgood⟩ hunder
  refine ⟨⟨use', inv, hgood', ?_, howns⟩, h.ids, fun slot hslot => ?_, h.stacked,
    h.dead, h.queued⟩
  · exact ⟨fun x hx => (hunder.spaces x hx).trans (Nat.lt_succ_self _),
      fun x hx => (hunder.stackPages x hx).trans (Nat.lt_succ_self _),
      fun x hx => (hunder.memory x hx).trans (Nat.lt_succ_self _)⟩
  · exact (h.old slot hslot).trans (Nat.lt_succ_self _)

lemma Invariant.start {guard : ℕ} {what : ToStart} (h : Invariant mapper m)
    (hallowed : Allowed mapper m (.start guard what)) :
    Invariant mapper (start mapper guard what m) := by
  obtain ⟨hidle, halign, hlow, hhigh⟩ := hallowed
  have hmap : ∀ inv, (∃ use, Good use mapper inv m.kernel) → Under inv m.nextId → _ :=
    fun inv ⟨use, hgood⟩ hunder => mapWithGuard_stage halign hlow hhigh (without_of_under hunder)
      (by decide) (onBehalf m.kernel (.process m.nextId)) ⟨⟨use, good_onBehalf hgood _⟩, rfl⟩
  have hspawn : ∀ inv stack, Eff.Triple (HasStack mapper inv m.nextId stack)
      (what.spawn mapper stack) (Started mapper inv m.nextId) fun _ => Failed mapper inv := by
    intro inv stack
    cases what with
    | flat program => exact spawn_stage program
    | elf program file => exact spawnElf_stage program file
  rw [Rounds.start]
  -- no stack: everything is as it was
  rcases hguard : mapWithGuard mapper guard syscallStackPages
    (onBehalf m.kernel (.process m.nextId)) with ⟨err | stack, k₁⟩
  · refine h.afterFailed fun inv hgood hunder => ?_
    have := hmap inv hgood hunder
    rwa [hguard] at this
  · dsimp only
    have hspawned : ∀ inv, (∃ use, Good use mapper inv m.kernel) → Under inv m.nextId → _ :=
      fun inv hgood hunder => hspawn inv stack k₁ (by
        have := hmap inv hgood hunder
        rwa [hguard] at this)
    -- no process: what was built is given back
    rcases hres : what.spawn mapper stack k₁ with ⟨err | process, k₂⟩
    · refine h.afterFailed fun inv hgood hunder => ?_
      have := hspawned inv hgood hunder
      rwa [hres] at this
    · dsimp only
      -- a process: it owns what was built, and the others what they had
      obtain ⟨use, inv, hgood, hunder, howns⟩ := h.good
      have hstarted := hspawned inv ⟨use, hgood⟩ hunder
      rw [hres] at hstarted
      obtain ⟨inv', hstage, howns'⟩ := hstarted
      obtain ⟨use', hgood'⟩ := hstage.good
      have hsub := sub_of_without hstage.rest
      have hmem : ∀ slot ∈ (if m.slots.length < maxProcesses then
          m.slots ++ [⟨process, false, m.nextId, false⟩] else m.slots),
          slot ∈ m.slots ∨ slot = ⟨process, false, m.nextId, false⟩ := by
        intro slot hslot
        split at hslot
        · obtain hslot | hslot := List.mem_append.mp hslot
          · exact .inl hslot
          · exact .inr (List.mem_singleton.mp hslot)
        · exact .inl hslot
      refine ⟨⟨use', inv', hgood', under_of_without hstage.rest hunder,
        fun slot hslot hgone => ?_⟩, ?_, fun slot hslot => ?_, fun slot hslot => ?_,
        fun slot hslot hgone => ?_,
        fun i hi => by simp [hidle] at hi⟩
      · obtain hold | rfl := hmem slot hslot
        · exact (howns slot hold hgone).mono hsub
        · exact howns'
      · split
        · rw [List.map_append, List.nodup_append]
          refine ⟨h.ids, by simp, fun id hid id' hid' => ?_⟩
          obtain ⟨slot, hslot, rfl⟩ := List.mem_map.mp hid
          obtain rfl : id' = m.nextId := by simpa using hid'
          exact (h.old slot hslot).ne
        · exact h.ids
      · obtain hold | rfl := hmem slot hslot
        · exact (h.old slot hold).trans (Nat.lt_succ_self _)
        · exact Nat.lt_succ_self _
      · obtain hold | rfl := hmem slot hslot
        · exact h.stacked slot hold
        · exact howns'.stacked
      · obtain hold | rfl := hmem slot hslot
        · exact h.dead slot hold hgone
        · cases hgone

/-! ### Running, and everybody else -/

/-- A step that keeps what is on record keeps the invariant. -/
lemma Invariant.keep {k : Kernel} (h : Invariant mapper m)
    (hk : ∀ use inv, Good use mapper inv m.kernel →
      (∀ slot ∈ m.slots, slot.gone = false → Owns inv slot.id slot.process) →
      ∃ use', Good use' mapper inv k) : Invariant mapper { m with kernel := k } := by
  obtain ⟨use, inv, hgood, hunder, howns⟩ := h.good
  obtain ⟨use', hgood'⟩ := hk use inv hgood howns
  exact ⟨⟨use', inv, hgood', hunder, howns⟩, h.ids, h.old, h.stacked, h.dead, h.queued⟩

/-- What a process writes to is no table. -/
lemma noTable_of_writes {slot : Slot} {n : ℕ} (h : Good use mapper inv m.kernel)
    (howns : Owns inv slot.id slot.process) (hn : slot.Writes mapper m.kernel.1 n) :
    NoTable (use n) := by
  obtain ⟨x, hx, rfl⟩ | ⟨page, hpage, t, ht, rfl⟩ := hn
  · rw [h.memory _ _ (howns.frames x hx)]
    exact noTable_held _ _
  · obtain ⟨hkernel, table, htable, hpres, hu⟩ := h.stackMapped _ _ (howns.stack page hpage)
    obtain ⟨t', ht', hphys⟩ := @translate_phys mapper _ _ _ hkernel htable hpres
    obtain rfl : t = t' := Option.some.inj (ht.symm.trans ht')
    rw [hphys, hu]
    exact noTable_held _ _

lemma Invariant.runUntilEmpty {mem : Memory} (h : Invariant mapper m)
    (hallowed : Allowed mapper m (.runUntilEmpty mem)) :
    Invariant mapper (perform mapper m (.runUntilEmpty mem)) := by
  have hkept : Invariant mapper { m with kernel := (mem, m.kernel.2) } := by
    refine h.keep fun use inv hgood howns => ⟨use, hgood.write fun n hn => ?_⟩
    obtain ⟨slot, hslot, hlive, hwrites⟩ := hallowed.2 n hn
    refine noTable_of_writes hgood (howns slot hslot ?_) hwrites
    by_contra hgone
    rw [h.dead slot hslot (by simpa using hgone)] at hlive
    cases hlive
  obtain ⟨use, inv, hgood, hunder, howns⟩ := hkept.good
  refine ⟨⟨use, inv, hgood, hunder, fun slot hslot hgone => ?_⟩, ?_, fun slot hslot => ?_,
    fun slot hslot => ?_, fun slot hslot _ => ?_, fun i hi => ?_⟩
  · obtain ⟨old, hold, rfl⟩ := List.mem_map.mp hslot
    exact howns old hold hgone
  · have hids : (m.slots.map fun slot => { slot with dead := true }).map Slot.id
        = m.slots.map Slot.id := by
      rw [List.map_map]
      rfl
    exact hids ▸ h.ids
  · obtain ⟨old, hold, rfl⟩ := List.mem_map.mp hslot
    exact h.old old hold
  · obtain ⟨old, hold, rfl⟩ := List.mem_map.mp hslot
    exact h.stacked old hold
  · obtain ⟨old, hold, rfl⟩ := List.mem_map.mp hslot
    rfl
  · have hidle : (perform mapper m (.runUntilEmpty mem)).queue = [] := hallowed.1
    rw [hidle] at hi
    cases hi

/-- A frame somebody else takes. -/
lemma good_allocate {mem : Memory} {kf : KernelFrames} (h : Good use mapper inv (mem, kf))
    (purpose : FramePurpose) :
    ∃ use', Good use' mapper inv ((KernelFrames.source purpose).allocateFrame mem kf).2 := by
  obtain hnone | ⟨frame, kf', hsome, hgrows, hfree, -, hother⟩ :=
    KernelFrames.allocateFor_cases h.ready purpose
  · rw [Paging.FrameSource.allocateFrame, KernelFrames.source_take, hnone]
    exact ⟨use, h⟩
  · rw [Paging.FrameSource.allocateFrame, KernelFrames.source_take, hsome]
    have huse := h.free frame hfree
    have hne : ∀ {n}, use n ≠ .free → n ≠ frame.start := by
      rintro n hn rfl
      exact hn huse
    have hholder : ∀ {n}, n ≠ frame.start → kf'.holder n = kf.holder n := by
      intro n hn
      refine hgrows.old n fun f hf hf' hstart => hn ?_
      have hsame : f = frame := by
        by_contra hdiff
        exact hf' ((hother f).mpr ⟨hf, hdiff⟩)
      rw [← hstart, hsame]
    refine ⟨Function.update use frame.start .other, hgrows.ready, hgrows.supply h.supply,
      hgrows.stopped.trans h.running, (h.world.zero huse _).retype huse _, fun f hf => ?_,
      fun id page hpage => ?_, fun f id page hn => ?_, fun id n hn => ?_, fun n id hn => ?_,
      fun n hn => ?_⟩
    · obtain ⟨hf, hdiff⟩ := (hother f).mp hf
      rw [Function.update_of_ne, h.free f hf]
      intro hstart
      exact hdiff (PhysFrame.ext_start hstart)
    · obtain ⟨hkernel, hmapped⟩ := h.stackMapped id page hpage
      refine ⟨hkernel, hmapped.keep (mem_rootsOf_mapper _) (h.world.zero_keepsLeaves huse _)
        fun n hn => ?_⟩
      rw [Function.update_of_ne (hne (by rw [hn]; exact Use.noConfusion)), hn]
    · by_cases hsame : f.start = frame.start
      · rw [hsame, Function.update_self] at hn
        cases hn
      · rw [Function.update_of_ne hsame] at hn
        exact hgrows.stack f (h.stack f id page hn)
    · have hu := h.memory id n hn
      rw [Function.update_of_ne (hne (by rw [hu]; exact Use.noConfusion)), hu]
    · by_cases hsame : n = frame.start
      · rw [belongs, Set.mem_ofPred_eq, hsame, Function.update_self] at hn
        obtain ⟨slot, hn⟩ | ⟨p, hn⟩ := hn <;> cases hn
      · rw [belongs, Set.mem_ofPred_eq, Function.update_of_ne hsame] at hn
        exact (hholder hsame).trans (h.holder n id hn)
    · by_cases hsame : n = frame.start
      · rw [hsame, Function.update_self]
      · rw [Function.update_of_ne hsame]
        exact h.others n ((hholder hsame).symm.trans hn)

/-- A frame somebody else gives back. -/
lemma good_free {mem : Memory} {kf : KernelFrames} {frame : PhysFrame}
    (h : Good use mapper inv (mem, kf)) (hheld : kf.holder frame.start = some .other)
    (purpose : FramePurpose) :
    ∃ use', Good use' mapper inv (mem, (kf.deallocateAs frame purpose).2) := by
  have hleaving : Leaving {frame.start} .other kf.returned mapper inv (mem, kf) := by
    refine ⟨⟨use, h, fun n hn => ?_⟩, fun other hother => .inr ?_, [], (List.append_nil _).symm,
      fun _ he => by cases he⟩
    · rw [Set.mem_singleton_iff.mp hn]
      exact .inl (h.others _ hheld)
    · rw [Set.mem_singleton_iff.mp hother]
      exact hheld
  obtain ⟨use', hgood, -⟩ := (@Leaving.deallocateAs _ _ _ _ _ _ _ hleaving frame rfl purpose).good
  exact ⟨use', hgood⟩

/-! ### Tearing down -/

/-- Marking one slot leaves the others, which have other numbers. -/
lemma mem_set_slot {slots : List Slot} {slot x v : Slot} {i : ℕ}
    (hids : (slots.map Slot.id).Nodup) (hslot : slots[i]? = some slot) (hx : x ∈ slots.set i v) :
    x = v ∨ x ∈ slots ∧ x.id ≠ slot.id := by
  obtain ⟨j, hj⟩ := List.mem_iff_getElem?.mp hx
  rw [List.getElem?_set] at hj
  split_ifs at hj with hij hlt
  · exact .inl (Option.some.inj hj).symm
  · refine .inr ⟨List.mem_of_getElem? hj, fun hid => hij ?_⟩
    have hi : (slots.map Slot.id)[i]? = some slot.id := by rw [List.getElem?_map, hslot]; rfl
    have hj' : (slots.map Slot.id)[j]? = some slot.id := by
      rw [List.getElem?_map, hj, Option.map_some, hid]
    exact (List.getElem?_inj (List.getElem?_eq_some_iff.mp hi).1 hids).mp (hi.trans hj'.symm)

lemma map_id_set {slots : List Slot} {slot : Slot} {i : ℕ} (hslot : slots[i]? = some slot) :
    (slots.set i { slot with gone := true }).map Slot.id = slots.map Slot.id := by
  obtain ⟨hi, rfl⟩ := List.getElem?_eq_some_iff.mp hslot
  rw [List.map_set]
  refine List.ext_getElem (by simp) fun j hj _ => ?_
  rw [List.getElem_set]
  split_ifs with hij
  · subst hij
    rw [List.getElem_map]
  · rfl

lemma Invariant.destroyNext (h : Invariant mapper m) (honce : DestroysOnce m .destroyNext) :
    Invariant mapper (perform mapper m .destroyNext) := by
  rw [perform]
  cases hqueue : m.queue with
  | nil => exact h
  | cons i rest =>
      have hqueued : ∀ j ∈ rest, ∀ slot, m.slots[j]? = some slot → slot.dead = true :=
        fun j hj => h.queued j (by rw [hqueue]; exact List.mem_cons_of_mem i hj)
      dsimp only
      cases hslot : m.slots[i]? with
      | none => exact ⟨h.good, h.ids, h.old, h.stacked, h.dead, hqueued⟩
      | some slot =>
          dsimp only
          have hmem := List.mem_of_getElem? hslot
          have hdead := h.queued i (by rw [hqueue]; exact List.mem_cons_self) slot hslot
          have hset := fun x =>
            mem_set_slot (x := x) (v := { slot with gone := true }) h.ids hslot
          have hgood : ∃ use inv, Good use mapper inv (destroy mapper slot.process m.kernel).2
              ∧ Under inv m.nextId ∧ ∀ x ∈ m.slots.set i { slot with gone := true },
                x.gone = false → Owns inv x.id x.process := by
            obtain ⟨use, inv, hgood, hunder, howns⟩ := h.good
            obtain ⟨⟨use', hgood'⟩, -⟩ :=
              destroy_holder hgood (howns slot hmem (honce rfl i rest slot hqueue hslot))
            refine ⟨use', _, hgood', under_without hunder _, fun x hx hgone => ?_⟩
            obtain rfl | ⟨hx, hne⟩ := hset x hx
            · cases hgone
            · exact owns_without (howns x hx hgone) hne
          generalize (destroy mapper slot.process m.kernel).2 = k at hgood ⊢
          refine ⟨hgood, (map_id_set hslot) ▸ h.ids, fun x hx => ?_, fun x hx => ?_,
            fun x hx hgone => ?_, fun j hj x hx => ?_⟩
          · obtain rfl | ⟨hx, -⟩ := hset x hx
            · exact h.old slot hmem
            · exact h.old x hx
          · obtain rfl | ⟨hx, -⟩ := hset x hx
            · exact h.stacked slot hmem
            · exact h.stacked x hx
          · obtain rfl | ⟨hx, -⟩ := hset x hx
            · exact hdead
            · exact h.dead x hx hgone
          · dsimp only at hx
            rw [List.getElem?_set] at hx
            split_ifs at hx
            · rw [← Option.some.inj hx]
              exact hdead
            · exact hqueued j hj x hx

lemma mem_deadProcesses {i : ℕ} {slot : Slot} (hi : i ∈ deadProcesses m)
    (hslot : m.slots[i]? = some slot) : slot.dead = true := by
  rw [deadProcesses, List.mem_filter, hslot] at hi
  simpa using hi.2

/-- **One step keeps the invariant.** -/
lemma Invariant.step {act : Act} (h : Invariant mapper m) (hallowed : Allowed mapper m act)
    (honce : DestroysOnce m act) : Invariant mapper (step mapper m act) := by
  rw [Rounds.step]
  split
  · exact h
  cases act with
  | start guard what => exact h.start hallowed
  | runUntilEmpty mem => exact h.runUntilEmpty hallowed
  | teardown =>
      exact ⟨h.good, h.ids, h.old, h.stacked, h.dead, fun i hi slot => mem_deadProcesses hi⟩
  | destroyNext => exact h.destroyNext honce
  | allocate purpose =>
      exact h.keep fun use inv hgood _ => good_allocate (good_onBehalf hgood .other) purpose
  | free frame purpose => exact h.keep fun use inv hgood _ => good_free hgood hallowed purpose
  | write mem =>
      refine h.keep fun use inv hgood _ => ⟨use, hgood.write fun n hn => ?_⟩
      rw [hgood.others n (hallowed n hn)]
      exact noTable_of_loose (.inl rfl)

open Classical in
/-- The invariant holds before the first round. -/
lemma Initial.invariant (h : Initial mapper m) : Invariant mapper m := by
  -- every table is in use as the end of its one path
  let use : ℕ → Use := fun n =>
    if hn : ∃ p : List (Fin 512), p.length ≤ 3
        ∧ follow Paging.next m.kernel.1 mapper.root p = some n then .shared hn.choose
    else if m.kernel.2.holder n = some .other then .other else .free
  have htable : ∀ p n, p.length ≤ 3 → follow Paging.next m.kernel.1 mapper.root p = some n →
      use n = .shared p := by
    intro p n hp hn
    have hex : ∃ p : List (Fin 512), p.length ≤ 3
      ∧ follow Paging.next m.kernel.1 mapper.root p = some n := ⟨p, hp, hn⟩
    simp only [use, dif_pos hex]
    rw [h.tree _ p n hex.choose_spec.1 hp hex.choose_spec.2 hn]
  have hrest : ∀ n, n ∉ tablesOf m.kernel.1 mapper.root →
      use n = if m.kernel.2.holder n = some .other then .other else .free :=
        fun n hn => dif_neg hn
  have hnone : ∀ n id, n ∉ belongs use id := by
    intro n id hn
    rw [belongs, Set.mem_ofPred_eq] at hn
    by_cases hreach : n ∈ tablesOf m.kernel.1 mapper.root
    · obtain ⟨p, hp, hpn⟩ := hreach
      rw [htable p n hp hpn] at hn
      obtain ⟨slot, hn⟩ | ⟨q, hn⟩ := hn <;> cases hn
    · rw [hrest n hreach] at hn
      split at hn <;> obtain ⟨slot, hn⟩ | ⟨q, hn⟩ := hn <;> cases hn
  refine ⟨⟨use, ⟨∅, ∅, ∅⟩, ⟨h.ready, ⟨h.ready.sound, h.covers⟩, h.running, ⟨?_, ?_⟩,
    fun frame hf => ?_, fun _ _ h => h.elim,
    fun _ id page hn => absurd (.inl ⟨_, hn⟩) (hnone _ id), fun _ _ h => h.elim,
    fun n id hn => absurd hn (hnone n id), fun n hn => ?_⟩, ?_, ?_⟩, by simp [h.slots],
    ?_, ?_, ?_, ?_⟩
  · rintro o root (heq | ⟨_, _, hmem, -⟩) p n hp hn
    · obtain ⟨rfl, rfl⟩ := Prod.mk.inj heq
      exact htable p n hp hn
    · exact hmem.elim
  · rintro id root (heq | ⟨_, _, hmem, -⟩)
    · cases heq
    · exact hmem.elim
  · obtain ⟨hout, hholder⟩ := h.free frame hf
    rw [hrest _ hout, hholder]
    rfl
  · obtain hnone' | ⟨-, hout⟩ := h.held n
    · rw [hnone'] at hn
      cases hn
    · rw [hrest n hout, if_pos hn]
  · exact ⟨fun _ h => h.elim, fun _ h => h.elim, fun _ h => h.elim⟩
  · rw [h.slots]
    exact fun _ hslot => by cases hslot
  · rw [h.slots]
    exact fun _ hslot => by cases hslot
  · rw [h.slots]
    exact fun _ hslot => by cases hslot
  · rw [h.slots]
    exact fun _ hslot => by cases hslot
  · rw [h.queue]
    exact fun _ hi => by cases hi

lemma Reached.invariant (h : Reached mapper m) : Invariant mapper m := by
  induction h with
  | init h => exact h.invariant
  | step _ hallowed honce ih => exact ih.step hallowed honce

/-- **No frame is given back by a process that does not hold it**, in any state reached by
rounds whose teardowns come to no process destroyed before. There a call of `destroy`, for the
process of whichever slot the queue has next, does what it should exactly if that process was not
destroyed before: no assertion stops it, and whatever it returns that very process holds at that
moment. A process destroyed before would have to return nothing, with nothing changed, and never
does: it stops, or takes the pages of somebody else's stack. -/
theorem destroy_returns_held {slot : Slot} (h : Reached mapper m) (hmem : slot ∈ m.slots) :
    ((destroy mapper slot.process m.kernel).2.2.stopped = false
        ∧ (∃ entries, (destroy mapper slot.process m.kernel).2.2.returned
            = m.kernel.2.returned ++ entries ∧ ∀ e ∈ entries, e.2 = some (.process slot.id))
        ∧ (slot.gone = true → destroy mapper slot.process m.kernel = (0, m.kernel)))
      ↔ slot.gone = false := by
  constructor
  · rintro ⟨hrunning, -, hsame⟩
    by_contra hgone
    refine destroy_ne (h.invariant.stacked slot hmem) hrunning ?_
    rw [hsame (by simpa using hgone)]
  · intro hlive
    obtain ⟨use, inv, hgood, -, howns⟩ := h.invariant.good
    obtain ⟨⟨use', hgood'⟩, hheld⟩ := destroy_holder hgood (howns slot hmem hlive)
    exact ⟨hgood'.running, hheld, fun hgone => absurd hgone (by simp [hlive])⟩

end Invariant

/-! ### Two rounds on a small machine -/

/-- A kernel with the physical window in slot 260 of its root. -/
def smallMapper : PageTables := ⟨0x1000, 0xFFFF820000000000⟩

/-- Sixty frames from `0x4000` on, with what each is for on record. -/
def smallFrames : KernelFrames where
  inner := { BitmapFrameAllocator.new [0] [⟨0x4000, 60, .usable⟩] with
    purposes := some (List.replicate 64 0) }
  client := .other
  holder := fun _ => none
  returned := []
  stopped := false

/-- A machine without processes. -/
def booted : Machine := ⟨(Paging.identityBelow 260, smallFrames), [], [], 0⟩

lemma follow_identityBelow {p : List (Fin 512)} {n : ℕ}
    (hn : follow Paging.next (Paging.identityBelow 260) 0x1000 p = some n) :
    p = [] ∧ n = 0x1000 ∨ p = [260] ∧ n = 0x2000 := by
  cases p with
  | nil => exact .inl ⟨rfl, (Option.some.inj hn).symm⟩
  | cons i p =>
      rw [follow] at hn
      obtain ⟨x, hx, hn⟩ := Option.bind_eq_some_iff.mp hn
      obtain rfl := Paging.next_root_identityBelow hx
      have hi : i = 260 := by
        by_contra hne
        rw [show Paging.identityBelow 260 0x1000 i = 0 by simp [Paging.identityBelow, hne]] at hx
        cases hx
      cases p with
      | nil => exact .inr ⟨by rw [hi], (Option.some.inj hn).symm⟩
      | cons j p =>
          rw [follow, Paging.next_large_identityBelow] at hn
          cases hn

/-- Recording purposes is no part of what makes an allocator sound. -/
lemma sound_purposes {a : BitmapFrameAllocator} (h : a.Sound) (purposes : Option (List UInt8)) :
    BitmapFrameAllocator.Sound { a with purposes } :=
  ⟨h.free_eq, h.clear_managed⟩

lemma booted_initial : Initial smallMapper booted := by
  have hsound := sound_purposes (BitmapFrameAllocator.sound_new [0] [⟨0x4000, 60, .usable⟩])
    (some (List.replicate 64 0))
  refine ⟨rfl, rfl, ⟨hsound, by decide +kernel⟩, by decide +kernel, rfl,
    fun p q n _ _ hp hq => ?_, fun frame hfree => ⟨fun hmem => ?_, rfl⟩, fun _ => .inl rfl⟩
  · obtain ⟨rfl, rfl⟩ | ⟨rfl, rfl⟩ := follow_identityBelow hp
    · obtain ⟨rfl, -⟩ | ⟨-, h⟩ := follow_identityBelow hq
      · rfl
      · cases h
    · obtain ⟨-, h⟩ | ⟨rfl, -⟩ := follow_identityBelow hq
      · cases h
      · rfl
  · obtain ⟨-, -, ⟨r, hr, -, hlow, -⟩, -⟩ := hsound.clear_managed _ hfree
    obtain rfl : r = ⟨0x4000, 60, .usable⟩ := List.mem_singleton.mp hr
    have hfirst : (inwardFrames ⟨0x4000, 60, .usable⟩).1 = 4 := by decide
    have hstart := frame.start_eq
    have htables := Paging.tablesOf_identityBelow 260 hmem
    simp only [Set.mem_insert_iff, Set.mem_singleton_iff] at htables
    omega

/-- The first round: one flat program is started, runs and ends, and a teardown begins. -/
def started : Machine := step smallMapper booted (.start Paging.kernelSpaceBase (.flat [0xF4]))

/-- Its processes have run to their end. -/
def ended : Machine := step smallMapper started (.runUntilEmpty started.kernel.1)

/-- The first teardown has begun. -/
def firstRound : Machine := step smallMapper ended .teardown

/-- After it: somebody else takes six frames for the kernel, and the next teardown begins. -/
def destroyed : Machine := step smallMapper firstRound .destroyNext

/-- The frames that came back, handed out again. -/
def taken (k : ℕ) : Machine :=
  (List.replicate k (Act.allocate .kernel)).foldl (step smallMapper) destroyed

/-- The second teardown has begun. -/
def secondRound : Machine := step smallMapper (taken 6) .teardown

lemma Reached.other {mapper : PageTables} {m : Machine} {act : Act} (h : Reached mapper m)
    (hallowed : Allowed mapper m act) (hne : act ≠ .destroyNext) :
    Reached mapper (Rounds.step mapper m act) :=
  h.step hallowed fun hact => absurd hact hne

lemma reached_firstRound : Reached smallMapper firstRound := by
  have hstarted : Reached smallMapper started :=
    Reached.other (.init booted_initial) ⟨rfl, by decide, by decide, by decide⟩ nofun
  have hidle : started.queue = [] := by decide +kernel
  have hended : Reached smallMapper ended :=
    Reached.other hstarted ⟨hidle, fun n hn => absurd rfl hn⟩ nofun
  have hidle : ended.queue = [] := by decide +kernel
  exact Reached.other hended hidle nofun

/-- The one process of the first round returns ten frames, all of them its own. -/
theorem destroy_returns_held_firstRound :
    ∃ slot entries, firstRound.slots[0]? = some slot
      ∧ (destroy smallMapper slot.process firstRound.kernel).2.2.stopped = false
      ∧ (destroy smallMapper slot.process firstRound.kernel).2.2.returned = [] ++ entries
      ∧ entries.length = 10 ∧ ∀ e ∈ entries, e.2 = some (.process slot.id) := by
  have hlive : (firstRound.slots[0]?).map Slot.gone = some false := by decide +kernel
  have hcount : (firstRound.slots[0]?).map (fun slot =>
      (destroy smallMapper slot.process firstRound.kernel).2.2.returned.length) = some 10 := by
    decide +kernel
  have hbefore : firstRound.kernel.2.returned = [] := by decide +kernel
  obtain ⟨slot, hslot, hgone⟩ := Option.map_eq_some_iff.mp hlive
  obtain ⟨hrunning, ⟨entries, hreturned, hmine⟩, -⟩ :=
    (destroy_returns_held reached_firstRound (List.mem_of_getElem? hslot)).mpr hgone
  rw [hbefore] at hreturned
  rw [hslot, Option.map_some, Option.some.injEq, hreturned, List.nil_append] at hcount
  exact ⟨slot, entries, hslot, hrunning, hreturned, hcount, hmine⟩

/-- **A process destroyed before gives back somebody else's frame.** Its record still names
the frame its code was in; the kernel has taken that frame since, for the same purpose, and
the next teardown returns it. Then no page of its kernel stack is mapped, and an assertion stops
the kernel. -/
theorem destroy_returns_others :
    Reached smallMapper secondRound ∧ secondRound.queue = [0]
      ∧ ∃ slot, secondRound.slots[0]? = some slot ∧ slot.gone = true
        ∧ (destroy smallMapper slot.process secondRound.kernel).2.2.returned
          = secondRound.kernel.2.returned ++ [(.containingAddress 0xC000, some .other)]
        ∧ (destroy smallMapper slot.process secondRound.kernel).2.2.stopped = true := by
  have hgone : (secondRound.slots[0]?).map Slot.gone = some true := by decide +kernel
  have hreturned : (secondRound.slots[0]?).map (fun slot =>
      (destroy smallMapper slot.process secondRound.kernel).2.2.returned)
        = some (secondRound.kernel.2.returned ++ [(.containingAddress 0xC000, some .other)]) := by
    decide +kernel
  have hstopped : (secondRound.slots[0]?).map (fun slot =>
      (destroy smallMapper slot.process secondRound.kernel).2.2.stopped) = some true := by
    decide +kernel
  obtain ⟨slot, hslot, hgone⟩ := Option.map_eq_some_iff.mp hgone
  rw [hslot, Option.map_some, Option.some.injEq] at hreturned hstopped
  refine ⟨?_, by decide +kernel, slot, hslot, hgone, hreturned, hstopped⟩
  have hlive : (firstRound.slots[0]?).map Slot.gone = some false := by decide +kernel
  have hqueue : firstRound.queue = [0] := by decide +kernel
  have hdestroyed : Reached smallMapper destroyed := by
    refine Reached.step reached_firstRound trivial fun _ i rest slot hqueue' hslot' => ?_
    obtain ⟨rfl, -⟩ := List.cons.inj (hqueue.symm.trans hqueue')
    rw [hslot', Option.map_some] at hlive
    exact Option.some.inj hlive
  have htaken : ∀ (k : ℕ) (m : Machine), Reached smallMapper m → Reached smallMapper
      ((List.replicate k (Act.allocate .kernel)).foldl (step smallMapper) m) := by
    intro k
    induction k with
    | zero => exact fun m h => h
    | succ k ih => exact fun m h => ih _ (h.other trivial nofun)
  have hidle : (taken 6).queue = [] := by decide +kernel
  exact Reached.other (htaken 6 destroyed hdestroyed) hidle nofun

end Harlan.Rounds
