import Mathlib.Tactic
import Harlan.Arch.PageWorld
import Harlan.Spawn

/-!
Who holds which frame while processes are built and given back.

* `Good`: the invariant. Every table a root reaches, and every frame a process was given,
  is in use as that and held by that process; nothing that is free is in use.
* `Good.takeFrame`, `Good.mapPage`, `Good.newAddressSpace`, `Good.deallocateAs`: it is kept by
  the steps processes are built and given back with.
-/

namespace Harlan

open Paging (Memory FrameSource PageTables Use World kindOf)
open Radix (follow)

/-! ### The invariant -/

/-- What processes are known to have, by their numbers: address spaces by their roots, pages
of kernel stack, and frames of memory by their starts. -/
structure Inventory where
  spaces : Set (ℕ × ℕ)
  stackPages : Set (ℕ × ℕ)
  memory : Set (ℕ × ℕ)

/-- The same, less everything of one process. -/
def Inventory.without (inv : Inventory) (id : ℕ) : Inventory :=
  ⟨{x ∈ inv.spaces | x.1 ≠ id}, {x ∈ inv.stackPages | x.1 ≠ id}, {x ∈ inv.memory | x.1 ≠ id}⟩

/-- The kernel's root, and those of the processes. -/
def rootsOf (mapper : PageTables) (spaces : Set (ℕ × ℕ)) : Set (Option ℕ × ℕ) :=
  {x | x = (none, mapper.root) ∨ ∃ id root, (id, root) ∈ spaces ∧ x = (some id, root)}

/-- A page of the kernel half, as a 64-bit address. -/
def KernelPage (page : ℕ) : Prop :=
  Paging.kernelSpaceBase ≤ page ∧ page < 2 ^ 64 ∧ page % frameSize = 0

/-- A page is mapped below a root, to a frame in use as `u`. -/
def MappedAs (use : ℕ → Use) (root : ℕ) (mem : Memory) (page : ℕ) (u : Use) : Prop :=
  ∃ table, follow Paging.next mem root ((Paging.tableIndices page).take 3) = some table
    ∧ Paging.has (mem table (Paging.tableIndex page 12)) Paging.present = true
    ∧ use (mem table (Paging.tableIndex page 12) &&& Paging.addressMask) = u

/-- The frames in use as something of a process. -/
def belongs (use : ℕ → Use) (id : ℕ) : Set ℕ :=
  {n | (∃ page, use n = .held id page) ∨ ∃ p, use n = .table id p}

/-- Every table, and every frame a process was given, is in use as that and held by that
process; nothing that is free is in use, and no assertion has failed. -/
structure Good (use : ℕ → Use) (mapper : PageTables) (inv : Inventory) (k : Kernel) : Prop where
  ready : k.2.Ready
  supply : Stacks.Supply k.2.inner
  running : k.2.stopped = false
  world : World use (rootsOf mapper inv.spaces) k.1
  free : ∀ frame, k.2.IsFree frame → use frame.start = .free
  stackMapped : ∀ id page, (id, page) ∈ inv.stackPages →
    KernelPage page ∧ MappedAs use mapper.root k.1 page (.held id (some page))
  /-- What is behind a page of kernel stack can be given back as a stack's. -/
  stack : ∀ frame id page, use frame.start = .held id (some page) → Stacks.Held k.2.inner frame
  memory : ∀ id n, (id, n) ∈ inv.memory → use n = .held id none
  holder : ∀ n id, n ∈ belongs use id → k.2.holder n = some (.process id)
  others : ∀ n, k.2.holder n = some .other → use n = .other

/-- What is no table of any root. -/
def NoTable (u : Use) : Prop := ∀ o p, u ≠ kindOf o p

lemma noTable_of_loose {u : Use} (h : u = .other ∨ u = .free) : NoTable u := by
  rintro o p rfl
  obtain h | h := h
  · cases o with
    | none => cases h
    | some id =>
        simp only [kindOf] at h
        split at h <;> cases h
  · exact Paging.kindOf_ne_free o p h

lemma noTable_held (id : ℕ) (slot : Option ℕ) : NoTable (.held id slot) := by
  intro o p h
  cases o with
  | none => cases h
  | some id =>
      simp only [kindOf] at h
      split at h <;> cases h

section Good

variable {use : ℕ → Use} {mapper : PageTables} {inv : Inventory} {mem : Memory}
  {kf : KernelFrames}

lemma mem_rootsOf_mapper (spaces : Set (ℕ × ℕ)) : (none, mapper.root) ∈ rootsOf mapper spaces :=
  .inl rfl

lemma mem_rootsOf_space {spaces : Set (ℕ × ℕ)} {id root : ℕ} (h : (id, root) ∈ spaces) :
    (some id, root) ∈ rootsOf mapper spaces :=
  .inr ⟨id, root, h, rfl⟩

/-- What leaves the leaves alone leaves the pages mapped as they were. -/
lemma MappedAs.keep {use' : ℕ → Use} {mem' : Memory} {page : ℕ} {u : Use}
    {roots : Set (Option ℕ × ℕ)} {o : Option ℕ} {root : ℕ} (h : MappedAs use root mem page u)
    (hroot : (o, root) ∈ roots) (hleaves : World.KeepsLeaves roots mem mem')
    (huse : ∀ n, use n = u → use' n = u) : MappedAs use' root mem' page u := by
  obtain ⟨table, htable, hpres, hu⟩ := h
  obtain ⟨htable', hkeep⟩ := hleaves o root hroot _ table rfl htable
  refine ⟨table, htable', ?_, ?_⟩
  · rw [hkeep _ hpres, hpres]
  · rw [hkeep _ hpres]
    exact huse _ hu

/-- More frames were handed out on behalf of a process, and the tables among them typed. -/
lemma Good.grow {use' : ℕ → Use} {mem' : Memory} {kf' : KernelFrames} {id : ℕ}
    (h : Good use mapper inv (mem, kf)) (hgrows : kf.Grows kf')
    (hclient : kf.client = .process id) (hworld : World use' (rootsOf mapper inv.spaces) mem')
    (hleaves : World.KeepsLeaves (rootsOf mapper inv.spaces) mem mem')
    (hold : ∀ n, (∀ frame, kf.IsFree frame → ¬kf'.IsFree frame → frame.start ≠ n) →
      use' n = use n)
    (hnew : ∀ n id', n ∈ belongs use' id' → use n = .free → id' = id)
    (hstack : ∀ frame id' page, use' frame.start = .held id' (some page) →
      use frame.start = .free → Stacks.Held kf'.inner frame) :
    Good use' mapper inv (mem', kf') := by
  -- what was in use was not handed out in between
  have hsame : ∀ n, use n ≠ .free → use' n = use n ∧ kf'.holder n = kf.holder n := by
    intro n hn
    have hout : ∀ frame, kf.IsFree frame → ¬kf'.IsFree frame → frame.start ≠ n := by
      rintro frame hf - rfl
      exact hn (h.free frame hf)
    exact ⟨hold n hout, hgrows.old n hout⟩
  have hheld : ∀ n id' slot, use n = .held id' slot → use' n = .held id' slot := by
    intro n id' slot hn
    rw [(hsame n (by rw [hn]; exact Use.noConfusion)).1, hn]
  refine ⟨hgrows.ready, hgrows.supply h.supply, hgrows.stopped.trans h.running, hworld,
    fun frame hf => ?_, fun id' page hpage => ?_, fun frame id' page hn => ?_, fun id' n hn => ?_,
    fun n id' hn => ?_, fun n hn => ?_⟩
  · rw [hold, h.free frame (hgrows.free frame hf)]
    rintro other - hother heq
    have hnum : other.number = frame.number := by rw [PhysFrame.number, PhysFrame.number, heq]
    exact hother (by rw [KernelFrames.IsFree, hnum]; exact hf)
  · obtain ⟨hkernel, hmapped⟩ := h.stackMapped id' page hpage
    exact ⟨hkernel, hmapped.keep (mem_rootsOf_mapper _) hleaves fun n => hheld n id' _⟩
  · by_cases hfree : use frame.start = .free
    · exact hstack frame id' page hn hfree
    · rw [(hsame _ hfree).1] at hn
      exact hgrows.stack frame (h.stack frame id' page hn)
  · exact hheld n id' none (h.memory id' n hn)
  · by_cases hfree : use n = .free
    · obtain rfl := hnew n id' hn hfree
      by_contra hne
      have hout : ∀ frame, kf.IsFree frame → ¬kf'.IsFree frame → frame.start ≠ n := by
        rintro frame hf hf' rfl
        exact hne ((hgrows.new frame hf hf').trans (congrArg some hclient))
      rw [belongs, Set.mem_ofPred_eq, hold n hout, hfree] at hn
      obtain ⟨slot, hn⟩ | ⟨p, hn⟩ := hn <;> cases hn
    · obtain ⟨huse, hholder⟩ := hsame n hfree
      rw [belongs, Set.mem_ofPred_eq, huse] at hn
      rw [hholder]
      exact h.holder n id' hn
  · by_cases hout : ∀ frame, kf.IsFree frame → ¬kf'.IsFree frame → frame.start ≠ n
    · rw [hgrows.old n hout] at hn
      rw [hold n hout]
      exact h.others n hn
    · push Not at hout
      obtain ⟨frame, hf, hf', rfl⟩ := hout
      rw [hgrows.new frame hf hf', hclient] at hn
      cases hn

/-- A frame taken for a process; for a page of its kernel stack, it is taken as a stack's. -/
lemma Good.takeFrame {id : ℕ} (h : Good use mapper inv (mem, kf))
    (hclient : kf.client = .process id) {purpose : FramePurpose} {slot : Option ℕ}
    (hslot : ∀ page, slot = some page → purpose = .stack) :
    (KernelFrames.source purpose).allocateFrame mem kf = (none, mem, kf)
      ∨ ∃ frame mem' kf', (KernelFrames.source purpose).allocateFrame mem kf
            = (some frame, mem', kf')
          ∧ kf.Grows kf' ∧ frame.start < 2 ^ 52
          ∧ Good (Function.update use frame.start (.held id slot)) mapper inv (mem', kf') := by
  obtain hnone | ⟨frame, kf', hsome, hgrows, hfree, hlt, hother⟩ :=
    KernelFrames.allocateFor_cases h.ready purpose
  · left
    rw [FrameSource.allocateFrame, KernelFrames.source_take, hnone]
  · right
    have huse := h.free frame hfree
    refine ⟨frame, Radix.fill mem frame.start fun _ => 0, kf', ?_, hgrows, hlt, ?_⟩
    · rw [FrameSource.allocateFrame, KernelFrames.source_take, hsome]
      rfl
    · refine h.grow hgrows hclient ((h.world.zero huse _).retype huse _)
        (h.world.zero_keepsLeaves huse _) (fun n hn => ?_) (fun n id' hn hnfree => ?_)
        fun other id' page hn hnfree => ?_
      · refine Function.update_of_ne ?_ _ _
        rintro rfl
        exact hn frame hfree (fun hf => ((hother frame).mp hf).2 rfl) rfl
      · by_cases heq : n = frame.start
        · subst heq
          rw [belongs, Set.mem_ofPred_eq, Function.update_self] at hn
          obtain ⟨slot', hn⟩ | ⟨p, hn⟩ := hn
          · exact (Use.held.inj hn).1.symm
          · cases hn
        · rw [belongs, Set.mem_ofPred_eq, Function.update_of_ne heq, hnfree] at hn
          obtain ⟨slot', hn⟩ | ⟨p, hn⟩ := hn <;> cases hn
      · by_cases heq : other.start = frame.start
        · rw [heq, Function.update_self] at hn
          obtain rfl := hslot page (Use.held.inj hn).2
          obtain rfl := PhysFrame.ext_start heq
          exact KernelFrames.allocateFor_stack h.supply hsome
        · rw [Function.update_of_ne heq, hnfree] at hn
          cases hn

/-- A call of `map` on behalf of a process, through the kernel's root or its own. -/
lemma Good.mapPage {id : ℕ} {tables : PageTables} {o : Option ℕ}
    (h : Good use mapper inv (mem, kf)) (hclient : kf.client = .process id)
    (hroot : (o, tables.root) ∈ rootsOf mapper inv.spaces)
    (ho : o = none ∨ o = some id) (page : ℕ) (frame : PhysFrame) (flags : PageFlags) :
    ∃ result mem' kf', Harlan.mapPage tables page frame flags (mem, kf) = (result, (mem', kf'))
      ∧ kf.Grows kf'
      ∧ World.KeepsLeaves (rootsOf mapper inv.spaces) mem mem'
      ∧ (∃ use', Good use' mapper inv (mem', kf') ∧ ∀ n, use n ≠ .free → use' n = use n)
      ∧ (result = .ok () →
          ∃ table, follow Paging.next mem' tables.root ((Paging.tableIndices page).take 3)
            = some table
            ∧ mem' table (Paging.tableIndex page 12) = PageTables.leafEntry frame flags
            ∧ ∀ table', follow Paging.next mem tables.root ((Paging.tableIndices page).take 3)
                = some table' →
              Paging.has (mem table' (Paging.tableIndex page 12)) Paging.present = false) := by
  have havoid : ∀ frame, kf.IsFree frame → frame.start ∉ {n | use n ≠ .free} :=
    fun frame hf hne => hne (h.free frame hf)
  have hfresh := KernelFrames.fresh h.ready .pageTable havoid 3
  have htaken : ∀ n, n ∈ (KernelFrames.source .pageTable).taken kf
      (tables.map (KernelFrames.source .pageTable) page frame flags mem kf).2.2 →
      ∃ f, f.start = n ∧ kf.IsFree f
        ∧ ¬(tables.map (KernelFrames.source .pageTable) page frame flags mem kf).2.2.IsFree f :=
    fun n hn => KernelFrames.taken_free h.ready hn
  have hlater := (@Paging.map_cases _ (fun _ => True) tables _ page frame flags _ _
    (hfresh.mono fun n hn hfree => h.world.not_reached hroot hfree hn) trivial).1
  have hgrows := KernelFrames.later_grows h.ready hlater
  obtain ⟨hleaves, ⟨use', hworld, hold, hkind⟩, hok⟩ :=
    @Paging.World.map _ _ _ h.world _ _ _ hroot _ page frame flags _ hfresh fun n hn => by
      obtain ⟨f, rfl, hf, -⟩ := htaken n hn
      exact h.free f hf
  have hsame : ∀ n, (∀ f, kf.IsFree f →
      ¬(tables.map (KernelFrames.source .pageTable) page frame flags mem kf).2.2.IsFree f →
      f.start ≠ n) → use' n = use n := by
    intro n hn
    refine hold n fun hmem => ?_
    obtain ⟨f, hf, hfree, hfree'⟩ := htaken n hmem
    exact hn f hfree hfree' hf
  refine ⟨_, _, _, rfl, hgrows, hleaves,
    ⟨use', h.grow hgrows hclient hworld hleaves hsame ?_ ?_, ?_⟩, hok⟩
  · intro n id' hn hfree
    rw [belongs, Set.mem_ofPred_eq] at hn
    obtain heq | ⟨p, hp, heq⟩ := hkind n
    · rw [heq, hfree] at hn
      obtain ⟨slot, hn⟩ | ⟨p, hn⟩ := hn <;> cases hn
    · rw [heq] at hn
      obtain rfl | rfl := ho
      · obtain ⟨slot, hn⟩ | ⟨p, hn⟩ := hn <;> cases hn
      · simp only [kindOf] at hn
        split at hn
        · obtain ⟨slot, hn⟩ | ⟨p, hn⟩ := hn <;> cases hn
        · obtain ⟨slot, hn⟩ | ⟨p, hn⟩ := hn
          · cases hn
          · exact (Use.table.inj hn).1.symm
  · intro other id' slot hn hfree
    -- a table is no frame of a stack
    obtain heq | ⟨p, -, heq⟩ := hkind other.start
    · rw [heq, hfree] at hn
      cases hn
    · exact absurd (heq.symm.trans hn).symm (noTable_held id' (some slot) o p)
  · intro n hn
    refine hsame n ?_
    rintro f hf - rfl
    exact hn (h.free f hf)

/-! ### Writes outside the tables -/

/-- Writing to what is no table. -/
lemma Good.write {mem' : Memory} (h : Good use mapper inv (mem, kf))
    (hmem : ∀ n, mem' n ≠ mem n → NoTable (use n)) : Good use mapper inv (mem', kf) := by
  have hsame : ∀ o root, (o, root) ∈ rootsOf mapper inv.spaces → ∀ n,
      Radix.Reached Paging.next mem root 3 n → mem' n = mem n := by
    rintro o root hroot n ⟨p, hp, hn⟩
    by_contra hne
    exact hmem n hne o p (h.world.kind o root hroot p n hp hn)
  refine ⟨h.ready, h.supply, h.running,
    h.world.congr (Set.Subset.refl _) hsame fun _ _ _ _ _ => rfl, h.free,
    fun id page hpage => ?_, h.stack, h.memory, h.holder, h.others⟩
  obtain ⟨hkernel, table, htable, hpres, hu⟩ := h.stackMapped id page hpage
  have hroot := @mem_rootsOf_mapper mapper inv.spaces
  have htable' : follow Paging.next mem' mapper.root ((Paging.tableIndices page).take 3)
      = some table := by
    rw [← htable]
    refine Radix.follow_congr fun q j hq x hx => ?_
    have hlen := hq.length_le
    simp only [List.length_append, List.length_singleton, List.length_take,
      Paging.length_tableIndices] at hlen
    rw [hsame none mapper.root hroot x ⟨q, by omega, hx⟩]
  have hleaf := hsame none mapper.root hroot table ⟨_, le_refl 3, htable⟩
  refine ⟨hkernel, table, htable', ?_, ?_⟩
  · dsimp only
    rw [hleaf]
    exact hpres
  · dsimp only
    rw [hleaf]
    exact hu

/-! ### A process that leaves -/

open Classical in
/-- Frames that are followed no further. -/
noncomputable def forget (T : Set ℕ) (use : ℕ → Use) : ℕ → Use := fun n =>
  if n ∈ T then .other else use n

lemma forget_of_mem {T : Set ℕ} {n : ℕ} (h : n ∈ T) : forget T use n = .other := if_pos h

lemma forget_of_notMem {T : Set ℕ} {n : ℕ} (h : n ∉ T) : forget T use n = use n := if_neg h

/-- Forgetting everything of one process. -/
lemma Good.forget {k : Kernel} (h : Good use mapper inv k) (id : ℕ) :
    Good (forget (belongs use id) use) mapper (inv.without id) k := by
  have hheld : ∀ {n id' slot}, use n = .held id' slot → id' ≠ id → n ∉ belongs use id := by
    rintro n id' slot hn hne (⟨slot', hn'⟩ | ⟨p, hn'⟩)
    · rw [hn] at hn'
      exact hne (Use.held.inj hn').1
    · rw [hn] at hn'
      cases hn'
  have hfree : ∀ {n}, use n = .free → n ∉ belongs use id := by
    rintro n hn (⟨slot, hn'⟩ | ⟨p, hn'⟩) <;> rw [hn] at hn' <;> cases hn'
  have hother : ∀ {n}, use n = .other → n ∉ belongs use id := by
    rintro n hn (⟨slot, hn'⟩ | ⟨p, hn'⟩) <;> rw [hn] at hn' <;> cases hn'
  -- a table another root reaches is none of this process's own
  have htable : ∀ o root, (o, root) ∈ rootsOf mapper (inv.without id).spaces → ∀ n,
      Radix.Reached Paging.next k.1 root 3 n → n ∉ belongs use id := by
    rintro o root hroot n ⟨p, hp, hn⟩ hmem
    obtain heq | ⟨id', root', ⟨hspace, hne⟩, heq⟩ := hroot
    · obtain ⟨rfl, rfl⟩ := Prod.mk.inj heq
      have hkind := h.world.kind none mapper.root (mem_rootsOf_mapper _) p n hp hn
      obtain ⟨slot, hn'⟩ | ⟨q, hn'⟩ := hmem <;> rw [hkind] at hn' <;> cases hn'
    · obtain ⟨rfl, rfl⟩ := Prod.mk.inj heq
      have hkind := h.world.kind _ root (mem_rootsOf_space hspace) p n hp hn
      simp only [kindOf] at hkind
      obtain ⟨slot, hn'⟩ | ⟨q, hn'⟩ := hmem <;> rw [hkind] at hn' <;> split at hn'
      · cases hn'
      · cases hn'
      · cases hn'
      · exact hne (Use.table.inj hn').1
  refine ⟨h.ready, h.supply, h.running,
    h.world.congr ?_ (fun _ _ _ _ _ => rfl) fun o root hroot n hn => ?_,
    fun frame hf => ?_, fun id' page hpage => ?_, fun frame id' page hn => ?_, fun id' n hn => ?_,
    fun n id' hn => ?_, fun n hn => ?_⟩
  · rintro x (rfl | ⟨id', root, ⟨hspace, -⟩, rfl⟩)
    · exact mem_rootsOf_mapper _
    · exact mem_rootsOf_space hspace
  · exact forget_of_notMem (htable o root hroot n hn)
  · rw [forget_of_notMem (hfree (h.free frame hf)), h.free frame hf]
  · obtain ⟨hkernel, table, hpath, hpres, hu⟩ := h.stackMapped id' page hpage.1
    refine ⟨hkernel, table, hpath, hpres, ?_⟩
    rw [forget_of_notMem (hheld hu hpage.2), hu]
  · by_cases hmem : frame.start ∈ belongs use id
    · rw [forget_of_mem hmem] at hn
      cases hn
    · rw [forget_of_notMem hmem] at hn
      exact h.stack frame id' page hn
  · have hu := h.memory id' n hn.1
    rw [forget_of_notMem (hheld hu hn.2), hu]
  · by_cases hmem : n ∈ belongs use id
    · rw [belongs, Set.mem_ofPred_eq, forget_of_mem hmem] at hn
      obtain ⟨slot, hn⟩ | ⟨p, hn⟩ := hn <;> cases hn
    · rw [belongs, Set.mem_ofPred_eq, forget_of_notMem hmem] at hn
      exact h.holder n id' hn
  · have hu := h.others n hn
    rw [forget_of_notMem (hother hu), hu]

/-- Somebody gives back what is in `T`: nobody else uses it, they hold what of it is not free
yet, and everything they have given back so far they held. -/
structure Leaving (T : Set ℕ) (who : Client) (before : List (PhysFrame × Option Client))
    (mapper : PageTables) (inv : Inventory) (k : Kernel) : Prop where
  good : ∃ use, Good use mapper inv k ∧ ∀ n ∈ T, use n = .other ∨ use n = .free
  held : ∀ frame : PhysFrame, frame.start ∈ T →
    k.2.IsFree frame ∨ k.2.holder frame.start = some who
  log : ∃ entries, k.2.returned = before ++ entries ∧ ∀ e ∈ entries, e.2 = some who

lemma Good.leave {k : Kernel} (h : Good use mapper inv k) (id : ℕ) :
    Leaving (belongs use id) (.process id) k.2.returned mapper (inv.without id) k :=
  ⟨⟨_, h.forget id, fun _ hn => .inl (forget_of_mem hn)⟩, fun _ hf => .inr (h.holder _ id hf),
    [], (List.append_nil _).symm, fun _ he => by cases he⟩

section Leaving

variable {T : Set ℕ} {who : Client} {before : List (PhysFrame × Option Client)}

/-- Offering one frame back. -/
lemma Leaving.deallocateAs (h : Leaving T who before mapper inv (mem, kf)) {frame : PhysFrame}
    (hframe : frame.start ∈ T) (purpose : FramePurpose) :
    Leaving T who before mapper inv (mem, (kf.deallocateAs frame purpose).2) := by
  obtain ⟨use, hgood, hloose⟩ := h.good
  obtain heq | ⟨-, kf', heq, hback⟩ := KernelFrames.deallocateAs_cases hgood.ready frame purpose
  · rw [heq]
    exact h
  · rw [heq]
    -- a loose frame is no table and holds nothing of anybody else
    have hnot := noTable_of_loose (hloose _ hframe)
    have hne : ∀ {n id' slot}, use n = .held id' slot → n ≠ frame.start := by
      rintro n id' slot hn rfl
      obtain hu | hu := hloose _ hframe <;> rw [hu] at hn <;> cases hn
    have hholder : ∀ {n}, n ≠ frame.start → kf'.holder n = kf.holder n := by
      intro n hn
      rw [hback.holder, Function.update_of_ne hn]
    -- of the map of uses only this frame changes: it is free now
    refine ⟨⟨Function.update use frame.start .free, ⟨hback.ready, hback.supply hgood.supply,
      hback.stopped.trans hgood.running, ?_, fun other hf => ?_, fun id' page hpage => ?_,
      fun other id' page hn => ?_, fun id' n hn => ?_, fun n id' hn => ?_, fun n hn => ?_⟩,
      fun n hn => ?_⟩, fun other hother => ?_, ?_⟩
    · refine hgood.world.congr (Set.Subset.refl _) (fun _ _ _ _ _ => rfl) ?_
      rintro o root hroot n ⟨p, hp, hn⟩
      refine Function.update_of_ne ?_ _ _
      rintro rfl
      exact hnot o p (hgood.world.kind o root hroot p _ hp hn)
    · by_cases hsame : other.start = frame.start
      · rw [hsame, Function.update_self]
      · rw [Function.update_of_ne hsame]
        obtain hf | rfl := (hback.free other).mp hf
        · exact hgood.free other hf
        · exact absurd rfl hsame
    · obtain ⟨hkernel, table, htable, hpres, hu⟩ := hgood.stackMapped id' page hpage
      exact ⟨hkernel, table, htable, hpres, by rw [Function.update_of_ne (hne hu), hu]⟩
    · by_cases hsame : other.start = frame.start
      · rw [hsame, Function.update_self] at hn
        cases hn
      · rw [Function.update_of_ne hsame] at hn
        exact hback.stack other (fun heq => hsame (by rw [heq])) (hgood.stack other id' page hn)
    · have hu := hgood.memory id' n hn
      rw [Function.update_of_ne (hne hu), hu]
    · by_cases hsame : n = frame.start
      · rw [belongs, Set.mem_ofPred_eq, hsame, Function.update_self] at hn
        obtain ⟨slot, hn⟩ | ⟨p, hn⟩ := hn <;> cases hn
      · rw [belongs, Set.mem_ofPred_eq, Function.update_of_ne hsame] at hn
        exact (hholder hsame).trans (hgood.holder n id' hn)
    · have hsame : n ≠ frame.start := by
        rintro rfl
        simp only at hn
        rw [hback.holder, Function.update_self] at hn
        cases hn
      rw [Function.update_of_ne hsame]
      exact hgood.others n ((hholder hsame).symm.trans hn)
    · by_cases hsame : n = frame.start
      · rw [hsame, Function.update_self]
        exact .inr rfl
      · rw [Function.update_of_ne hsame]
        exact hloose n hn
    · rw [hback.free]
      by_cases hsame : other = frame
      · exact .inl (.inr hsame)
      · have hstart : other.start ≠ frame.start := by
          intro hstart
          exact hsame (PhysFrame.ext_start hstart)
        obtain hf | hheld := h.held other hother
        · exact .inl (.inl hf)
        · exact .inr ((hholder hstart).trans hheld)
    -- the log has one entry more, and it was ours
    · obtain ⟨entries, hlog, hentries⟩ := h.log
      have hmine : kf.holder frame.start = some who :=
        (h.held frame hframe).resolve_left hback.held
      refine ⟨entries ++ [(frame, kf.holder frame.start)], ?_, fun e he => ?_⟩
      · rw [hback.returned, ← List.append_assoc]
        congr 1
      · obtain he | he := List.mem_append.mp he
        · exact hentries e he
        · rw [List.mem_singleton.mp he]
          exact hmine

/-- Writing to a frame that is given back. -/
lemma Leaving.write (h : Leaving T who before mapper inv (mem, kf)) {n : ℕ} (hn : n ∈ T)
    (i : Fin 512) (e : ℕ) : Leaving T who before mapper inv (Radix.write mem n i e, kf) := by
  obtain ⟨use, hgood, hloose⟩ := h.good
  refine ⟨⟨use, hgood.write fun x hx => ?_, hloose⟩, h.held, h.log⟩
  obtain rfl : x = n := by
    by_contra hne
    refine hx (funext fun j => Radix.write_of_ne ?_)
    rintro ⟨rfl, -⟩
    exact hne rfl
  exact noTable_of_loose (hloose _ hn)

end Leaving

end Good

end Harlan
