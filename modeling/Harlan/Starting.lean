import Mathlib.Tactic
import Harlan.Destroy

/-!
What starting a process takes, and what a start that fails leaves behind.

* `Stage`: what a process is being built out of, and nobody else's, is on record.
* `mapWithGuard_stage`, `spawn_stage`, `spawnElf_stage`: a start that succeeds hands over a
  process that has everything it was given; one that fails leaves the others with what they
  had.
-/

namespace Harlan

open Paging (Memory FrameSource PageTables Use World kindOf)
open Radix (follow)
open Eff (Triple)

/-! ### Adding to the record -/

namespace Inventory

/-- More is on record. -/
structure Sub (inv inv' : Inventory) : Prop where
  spaces : inv.spaces ⊆ inv'.spaces
  stackPages : inv.stackPages ⊆ inv'.stackPages
  memory : inv.memory ⊆ inv'.memory

/-- One address space more. -/
def addSpace (inv : Inventory) (id root : ℕ) : Inventory :=
  { inv with spaces := insert (id, root) inv.spaces }

/-- One stack page more. -/
def addStackPage (inv : Inventory) (id page : ℕ) : Inventory :=
  { inv with stackPages := insert (id, page) inv.stackPages }

/-- One frame of a process's memory more. -/
def addMemory (inv : Inventory) (id n : ℕ) : Inventory :=
  { inv with memory := insert (id, n) inv.memory }

variable (inv : Inventory) (id n : ℕ)

lemma sub_addMemory : inv.Sub (inv.addMemory id n) :=
  ⟨Set.Subset.refl _, Set.Subset.refl _, Set.subset_insert _ _⟩

private lemma without_insert (s : Set (ℕ × ℕ)) (id n : ℕ) :
    {x ∈ insert (id, n) s | x.1 ≠ id} = {x ∈ s | x.1 ≠ id} := by
  ext x
  simp only [Set.mem_ofPred_eq, Set.mem_insert_iff]
  constructor
  · rintro ⟨rfl | hx, hne⟩
    · exact absurd rfl hne
    · exact ⟨hx, hne⟩
  · rintro ⟨hx, hne⟩
    exact ⟨.inr hx, hne⟩

lemma without_addSpace : (inv.addSpace id n).without id = inv.without id := by
  simp only [without, addSpace, without_insert]

lemma without_addStackPage : (inv.addStackPage id n).without id = inv.without id := by
  simp only [without, addStackPage, without_insert]

lemma without_addMemory : (inv.addMemory id n).without id = inv.without id := by
  simp only [without, addMemory, without_insert]

end Inventory

lemma Owns.mono {inv inv' : Inventory} {id : ℕ} {process : Process} (h : Owns inv id process)
    (hsub : inv.Sub inv') : Owns inv' id process :=
  ⟨hsub.spaces h.space, h.aligned, fun x hx => hsub.memory (h.frames x hx),
    fun page hpage => hsub.stackPages (h.stack page hpage), h.stacked⟩

/-! ### Stages -/

/-- A process is being built, out of what `inv` has beside `inv₀`. -/
structure Stage (mapper : PageTables) (inv₀ : Inventory) (id : ℕ) (inv : Inventory) (k : Kernel) :
    Prop where
  good : ∃ use, Good use mapper inv k
  client : k.2.client = .process id
  rest : inv.without id = inv₀

/-- What a start that failed leaves: the others, with what they had. -/
def Failed (mapper : PageTables) (inv₀ : Inventory) (k : Kernel) : Prop :=
  ∃ use, Good use mapper inv₀ k

section Stage

variable {mapper : PageTables} {inv₀ inv : Inventory} {id : ℕ} {mem : Memory} {kf : KernelFrames}

lemma Stage.failed {k : Kernel} (h : Stage mapper inv₀ id inv k) : Failed mapper inv₀ k := by
  obtain ⟨use, hgood⟩ := h.good
  have := hgood.forget id
  rw [h.rest] at this
  exact ⟨_, this⟩

/-- A start that gives up: what it had goes back, whoever asks for it. -/
lemma Stage.leave {k : Kernel} (h : Stage mapper inv₀ id inv k) :
    ∃ T back before, Leaving T (.process id) before mapper inv₀ k
      ∧ (∀ n, (id, n) ∈ inv.memory → n ∈ T)
      ∧ ∀ page, (id, page) ∈ inv.stackPages → Going T back mapper inv₀ k page := by
  obtain ⟨use, hgood⟩ := h.good
  have hleave := hgood.leave id
  rw [h.rest] at hleave
  refine ⟨_, behind use, _, hleave, fun n hn => .inl ⟨_, hgood.memory id n hn⟩,
    fun page hpage => ?_⟩
  rw [← h.rest]
  exact hgood.going hpage

lemma Leaving.failed {T : Set ℕ} {before : List (PhysFrame × Option Client)} {k : Kernel}
    (h : Leaving T (.process id) before mapper inv₀ k) : Failed mapper inv₀ k := by
  obtain ⟨use, hgood, -⟩ := h.good
  exact ⟨use, hgood⟩

lemma Stage.addMemory {k : Kernel} {n : ℕ} {use : ℕ → Use} (hgood : Good use mapper inv k)
    (hclient : k.2.client = .process id) (hrest : inv.without id = inv₀)
    (hn : use n = .held id none) :
    Stage mapper inv₀ id (inv.addMemory id n) k := by
  refine ⟨⟨use, hgood.ready, hgood.supply, hgood.running, hgood.world, hgood.free,
    hgood.stackMapped, hgood.stack, ?_, hgood.holder, hgood.others⟩, hclient,
    (inv.without_addMemory id n).trans hrest⟩
  rintro id' n' (heq | hmem)
  · obtain ⟨rfl, rfl⟩ := Prod.mk.inj heq
    exact hn
  · exact hgood.memory id' n' hmem

/-- A frame for the process. -/
lemma takeFrame_stage (h : Stage mapper inv₀ id inv (mem, kf)) (purpose : FramePurpose) :
    (KernelFrames.source purpose).allocateFrame mem kf = (none, mem, kf)
      ∨ ∃ frame mem' kf', (KernelFrames.source purpose).allocateFrame mem kf
            = (some frame, mem', kf')
          ∧ frame.start < 2 ^ 52
          ∧ Stage mapper inv₀ id (inv.addMemory id frame.start) (mem', kf') := by
  obtain ⟨use, hgood⟩ := h.good
  obtain hnone | ⟨frame, mem', kf', heq, hgrows, hlt, hgood'⟩ :=
    @Good.takeFrame _ _ _ _ _ _ hgood h.client purpose none fun page h => by cases h
  · exact .inl hnone
  · refine .inr ⟨frame, mem', kf', heq, hlt, ?_⟩
    exact Stage.addMemory hgood' (hgrows.client.trans h.client) h.rest
      (Function.update_self _ _ _)

/-- Bytes copied to a frame of the process. -/
lemma Stage.fill (h : Stage mapper inv₀ id inv (mem, kf)) {n : ℕ} (hn : (id, n) ∈ inv.memory)
    (entries : Fin 512 → ℕ) : Stage mapper inv₀ id inv (Radix.fill mem n entries, kf) := by
  obtain ⟨use, hgood⟩ := h.good
  refine ⟨⟨use, hgood.write fun x hx => ?_⟩, h.client, h.rest⟩
  obtain rfl : x = n := by
    by_contra hne
    exact hx (Radix.fill_of_ne hne)
  rw [hgood.memory id x hn]
  exact noTable_held id none

/-- A page mapped below the root of the process. -/
lemma mapPage_stage {space : PageTables} (hspace : (id, space.root) ∈ inv.spaces) (page : ℕ)
    (frame : PhysFrame) (flags : PageFlags) :
    Triple (Stage mapper inv₀ id inv) (mapPage space page frame flags)
      (fun _ => Stage mapper inv₀ id inv) fun _ => Stage mapper inv₀ id inv := by
  rintro ⟨mem, kf⟩ h
  obtain ⟨use, hgood⟩ := h.good
  obtain ⟨result, mem', kf', heq, hgrows, -, ⟨use', hgood', -⟩, -⟩ :=
    @Good.mapPage _ _ _ _ _ _ space _ hgood h.client (mem_rootsOf_space hspace) (.inr rfl) page
      frame flags
  have hstage : Stage mapper inv₀ id inv (mem', kf') :=
    ⟨⟨use', hgood'⟩, hgrows.client.trans h.client, h.rest⟩
  rw [heq]
  cases result <;> exact hstage

/-- A process is being built, and there is a frame for a page of its kernel stack. -/
structure StackFrame (mapper : PageTables) (inv₀ : Inventory) (id : ℕ)
    (inv : Inventory) (page : ℕ) (frame : PhysFrame) (k : Kernel) : Prop where
  good : ∃ use, Good use mapper inv k ∧ use frame.start = .held id (some page)
  client : k.2.client = .process id
  rest : inv.without id = inv₀

/-- A frame for a page of kernel stack. -/
lemma takeStackFrame_stage (h : Stage mapper inv₀ id inv (mem, kf)) (page : ℕ) :
    (KernelFrames.source .stack).allocateFrame mem kf = (none, mem, kf)
      ∨ ∃ frame mem' kf', (KernelFrames.source .stack).allocateFrame mem kf
            = (some frame, mem', kf')
          ∧ frame.start < 2 ^ 52 ∧ StackFrame mapper inv₀ id inv page frame (mem', kf') := by
  obtain ⟨use, hgood⟩ := h.good
  obtain hnone | ⟨frame, mem', kf', heq, hgrows, hlt, hgood'⟩ :=
    @Good.takeFrame _ _ _ _ _ _ hgood h.client .stack (some page) fun _ _ => rfl
  · exact .inl hnone
  · exact .inr ⟨frame, mem', kf', heq, hlt, ⟨_, hgood', Function.update_self _ _ _⟩,
      hgrows.client.trans h.client, h.rest⟩

/-- A page of kernel stack mapped to its frame. -/
lemma mapStackPage_stage {page : ℕ} {frame : PhysFrame} {flags : PageFlags}
    (hpage : KernelPage page) (hlt : frame.start < 2 ^ 52) :
    Triple (StackFrame mapper inv₀ id inv page frame) (mapPage mapper page frame flags)
      (fun _ => Stage mapper inv₀ id (inv.addStackPage id page))
      fun _ => StackFrame mapper inv₀ id inv page frame := by
  rintro ⟨mem, kf⟩ h
  obtain ⟨use, hgood, hu⟩ := h.good
  obtain ⟨result, mem', kf', heq, hgrows, -, ⟨use', hgood', hkept⟩, hok⟩ :=
    hgood.mapPage h.client (mem_rootsOf_mapper inv.spaces) (.inl rfl) page frame flags
  have hclient := hgrows.client.trans h.client
  have huse : use' frame.start = .held id (some page) := by
    rw [hkept _ (by rw [hu]; exact Use.noConfusion), hu]
  rw [heq]
  cases result with
  | error err => exact ⟨⟨use', hgood', huse⟩, hclient, h.rest⟩
  | ok u =>
      obtain ⟨table, htable, hleaf, -⟩ := hok rfl
      refine ⟨⟨use', hgood'.ready, hgood'.supply, hgood'.running, hgood'.world, hgood'.free, ?_,
        hgood'.stack, hgood'.memory, hgood'.holder, hgood'.others⟩, hclient,
        (inv.without_addStackPage id page).trans h.rest⟩
      rintro id' page' (hnew | hmem)
      · obtain ⟨rfl, rfl⟩ := Prod.mk.inj hnew
        refine ⟨hpage, table, htable, ?_, ?_⟩
        · dsimp only
          rw [hleaf]
          exact Paging.has_present_leaf frame flags
        · dsimp only
          rw [hleaf, Paging.leafEntry_address hlt]
          exact huse
      · exact hgood'.stackMapped id' page' hmem

/-- A frame that could not be mapped goes back, and what was mapped before may go as well. -/
lemma StackFrame.giveBack {page : ℕ} {frame : PhysFrame}
    (h : StackFrame mapper inv₀ id inv page frame (mem, kf)) :
    ∃ T back before, Leaving T (.process id) before mapper inv₀ (mem, kf.returnStackFrame frame)
      ∧ ∀ page', page' ≠ page → (id, page') ∈ inv.stackPages →
        Going T back mapper inv₀ (mem, kf.returnStackFrame frame) page' := by
  obtain ⟨use, hgood, hu⟩ := h.good
  have hleave := hgood.leave id
  rw [h.rest] at hleave
  rw [returnStackFrame_eq (hgood.stack frame id page hu) hgood.supply]
  refine ⟨_, behind use, _, hleave.deallocateAs (.inl ⟨_, hu⟩) .stack, fun page' hne hpage' => ?_⟩
  have hgoing := hgood.going hpage'
  rw [h.rest] at hgoing
  refine hgoing.deallocateAs hgood.ready ?_ .stack
  rw [behind, hu]
  exact fun heq => hne (Option.some.inj heq).symm

/-- A frame made a root that shares the kernel half is a space of the process. -/
lemma Good.addSpace {use : ℕ → Use} {kf' : KernelFrames} {frame : PhysFrame}
    {entries : Fin 512 → ℕ} (h : Good use mapper inv (mem, kf))
    (hclient : kf.client = .process id) (hgrows : kf.Grows kf') (hfree : kf.IsFree frame)
    (hused : ¬kf'.IsFree frame)
    (hcopied : ∀ i, PageTables.kernelSlot ≤ i.val → entries i = mem mapper.root i)
    (hempty : ∀ i, i.val < PageTables.kernelSlot → entries i = 0) :
    Good (Function.update use frame.start (.table id [])) mapper (inv.addSpace id frame.start)
      (Radix.fill mem frame.start entries, kf') := by
  have huse := h.free frame hfree
  have hworld := @Paging.World.addRoot _ _ _ h.world _ _ id _ (mem_rootsOf_mapper inv.spaces) huse
    hcopied hempty
  have hold : Good (Function.update use frame.start (.table id [])) mapper inv
      (Radix.fill mem frame.start entries, kf') := by
    refine h.grow hgrows hclient (hworld.congr (Set.subset_insert _ _) (fun _ _ _ _ _ => rfl)
      fun _ _ _ _ _ => rfl) (h.world.zero_keepsLeaves huse entries) (fun n hn => ?_)
      (fun n id' hn hnfree => ?_) fun other id' page hn hnfree => ?_
    · refine Function.update_of_ne ?_ _ _
      rintro rfl
      exact hn frame hfree hused rfl
    · by_cases heq : n = frame.start
      · rw [belongs, Set.mem_ofPred_eq, heq, Function.update_self] at hn
        obtain ⟨slot, hn⟩ | ⟨p, hn⟩ := hn
        · cases hn
        · exact (Use.table.inj hn).1.symm
      · rw [belongs, Set.mem_ofPred_eq, Function.update_of_ne heq, hnfree] at hn
        obtain ⟨slot, hn⟩ | ⟨p, hn⟩ := hn <;> cases hn
    · by_cases heq : other.start = frame.start
      · rw [heq, Function.update_self] at hn
        cases hn
      · rw [Function.update_of_ne heq, hnfree] at hn
        cases hn
  refine ⟨hold.ready, hold.supply, hold.running,
    hworld.congr ?_ (fun _ _ _ _ _ => rfl) fun _ _ _ _ _ => rfl, hold.free,
    hold.stackMapped, hold.stack, hold.memory, hold.holder, hold.others⟩
  rintro x (rfl | ⟨id', root, hmem | hmem, rfl⟩)
  · exact .inr (mem_rootsOf_mapper _)
  · obtain ⟨rfl, rfl⟩ := Prod.mk.inj hmem
    exact .inl rfl
  · exact .inr (mem_rootsOf_space hmem)

/-- An address space for the process. -/
lemma newAddressSpace_stage :
    Triple (Stage mapper inv₀ id inv) (newAddressSpace mapper)
      (fun space k => space.root % frameSize = 0
        ∧ Stage mapper inv₀ id (inv.addSpace id space.root) k)
      fun _ => Failed mapper inv₀ := by
  refine Triple.mapError ?_
  rintro ⟨mem, kf⟩ h
  rw [Eff.run]
  dsimp only
  rw [PageTables.newProcessSpace, PageTables.newTable]
  obtain ⟨use, hgood⟩ := h.good
  obtain hnone | ⟨frame, kf', hsome, hgrows, hfree, -, hother⟩ :=
    KernelFrames.allocateFor_cases hgood.ready .pageTable
  · rw [FrameSource.allocateFrame, KernelFrames.source_take, hnone]
    exact h.failed
  · have hused : ¬kf'.IsFree frame := fun hf => ((hother frame).mp hf).2 rfl
    have htake : (KernelFrames.source .pageTable).allocateFrame mem kf
        = (some frame, Radix.fill mem frame.start fun _ => 0, kf') := by
      rw [FrameSource.allocateFrame, KernelFrames.source_take, hsome]
      rfl
    -- a root that is not reached is lost: its frame stays in use
    have hleaked : Failed mapper inv₀ (Radix.fill mem frame.start fun _ => 0, kf') := by
      obtain heq | ⟨frame', mem', kf'', heq, -, hstage⟩ := takeFrame_stage h .pageTable
      · rw [htake] at heq
        cases heq
      · rw [htake] at heq
        obtain ⟨-, heq⟩ := Prod.mk.inj heq
        rw [heq]
        exact hstage.failed
    have hne : mapper.root ≠ frame.start := by
      rintro heq
      have hkind := hgood.world.root_kind (mem_rootsOf_mapper inv.spaces)
      rw [heq, hgood.free frame hfree] at hkind
      cases hkind
    rw [htake]
    dsimp only
    generalize mapper.translate (Radix.fill mem frame.start fun _ => 0)
      (wrap64 (mapper.window + frame.start)) = reached
    rcases reached with _ | t
    · exact hleaked
    · dsimp only
      cases t.phys == frame.start && t.writable with
      | false => exact hleaked
      | true =>
          refine ⟨frame.aligned, ⟨Function.update use frame.start (.table id []), ?_⟩,
            hgrows.client.trans h.client, (inv.without_addSpace id _).trans h.rest⟩
          -- the root is zeroed, and has the kernel half of the mapper
          have hfill : ∀ entries, Radix.fill (Radix.fill (Radix.fill mem frame.start fun _ => 0)
              frame.start fun _ => 0) frame.start entries
                = Radix.fill mem frame.start entries := by
            intro entries
            funext n i
            simp only [Radix.fill]
            split <;> rfl
          rw [hfill]
          refine hgood.addSpace h.client hgrows hfree hused (fun i hi => ?_) fun i hi => ?_
          · rw [if_pos hi, Radix.fill_of_ne hne, Radix.fill_of_ne hne]
          · rw [if_neg (by omega), Radix.fill_self]

/-! ### Kernel stacks -/

/-- What a stack that was mapped for the process leaves to build on. -/
def HasStack (mapper : PageTables) (inv₀ : Inventory) (id : ℕ) (stack : Stack)
    (k : Kernel) : Prop :=
  ∃ inv, Stage mapper inv₀ id inv k ∧ (∀ page ∈ stack.pages, (id, page) ∈ inv.stackPages)
    ∧ stack.pages ≠ []

/-- The pages of a stack directly above its guard page. -/
lemma stackPage_kernel {guard pages index : ℕ} (halign : guard % frameSize = 0)
    (hlow : Paging.kernelSpaceBase ≤ guard) (hhigh : guard + (pages + 1) * frameSize < 2 ^ 64)
    (hindex : index < pages) :
    KernelPage (pageContaining (guard + frameSize + index * frameSize)) := by
  simp only [KernelPage, pageContaining, frameSize] at *
  omega

/-- A stack under construction: its first `index` pages are mapped. -/
def StackStage (mapper : PageTables) (inv₀ : Inventory) (id bottom index : ℕ)
    (k : Kernel) : Prop :=
  ∃ inv, Stage mapper inv₀ id inv k
    ∧ ∀ page ∈ stackPages bottom index, (id, page) ∈ inv.stackPages

/-- A stack that is not finished gives back what it took. -/
lemma rollbackStack_failed {bottom index : ℕ} {k : Kernel} {T : Set ℕ} {back : ℕ → Option ℕ}
    {before : List (PhysFrame × Option Client)} (h : Leaving T (.process id) before mapper inv₀ k)
    (hpages : ∀ page ∈ stackPages bottom index, Going T back mapper inv₀ k page) :
    Failed mapper inv₀ (rollbackStack mapper bottom index k) :=
  (h.rollbackPages hpages (stackPages_nodup bottom index)).1.failed

lemma mapStackPages_stage {bottom : ℕ} (more index : ℕ)
    (hkernel : ∀ j, j < index + more → KernelPage (pageContaining (bottom + j * frameSize))) :
    Triple (StackStage mapper inv₀ id bottom index) (mapStackPages mapper bottom more index)
      (fun _ => StackStage mapper inv₀ id bottom (index + more))
      fun _ => Failed mapper inv₀ := by
  induction more generalizing index with
  | zero => exact Triple.pure fun _ h => h
  | succ more ih =>
      rintro ⟨mem, kf⟩ ⟨inv, h, hpages⟩
      rw [mapStackPages, Eff.bind_apply, takeFrame, Eff.step]
      dsimp only
      obtain heq | ⟨frame, mem', kf', heq, hlt, h'⟩ :=
        takeStackFrame_stage h (pageContaining (bottom + index * frameSize))
      · rw [heq]
        obtain ⟨T, back, before, hleave, -, hgoing⟩ := h.leave
        exact rollbackStack_failed hleave fun page hpage => hgoing page (hpages page hpage)
      · rw [heq]
        dsimp only
        rw [Eff.run]
        have hmap := @mapStackPage_stage _ _ _ _ _ _ (.kernel true false)
          (hkernel index (by omega))
          hlt _ h'
        rcases hres : mapPage mapper (pageContaining (bottom + index * frameSize)) frame
          (.kernel true false) (mem', kf') with ⟨err | u, mem₂, kf₂⟩
        · rw [hres] at hmap
          obtain ⟨T, back, before, hleave, hgoing⟩ := StackFrame.giveBack hmap
          refine rollbackStack_failed hleave fun page hpage => hgoing page ?_ (hpages page hpage)
          -- the page that could not be mapped comes after those that were
          rintro rfl
          have hnodup := stackPages_nodup bottom (index + 1)
          rw [stackPages_succ] at hnodup
          exact (List.nodup_append.mp hnodup).2.2 _ hpage _ (List.mem_singleton_self _) rfl
        · rw [hres] at hmap
          have hnext : StackStage mapper inv₀ id bottom (index + 1) (mem₂, kf₂) := by
            refine ⟨_, hmap, fun page hmem => ?_⟩
            rw [stackPages_succ, List.mem_append, List.mem_singleton] at hmem
            obtain hmem | rfl := hmem
            · exact Set.mem_insert_of_mem _ (hpages page hmem)
            · exact Set.mem_insert _ _
          have hrest := ih (index + 1) (fun j hj => hkernel j (by omega)) _ hnext
          rw [show index + 1 + more = index + (more + 1) by omega] at hrest
          exact hrest

/-- A stack for the process, with a guard page below it. -/
lemma mapWithGuard_stage {guard pages : ℕ} (halign : guard % frameSize = 0)
    (hlow : Paging.kernelSpaceBase ≤ guard) (hhigh : guard + (pages + 1) * frameSize < 2 ^ 64)
    (hnew : inv₀.without id = inv₀) (hpages : 0 < pages) :
    Triple (fun k => (∃ use, Good use mapper inv₀ k) ∧ k.2.client = .process id)
      (mapWithGuard mapper guard pages)
      (HasStack mapper inv₀ id) fun _ => Failed mapper inv₀ := by
  refine Triple.bind (Q := fun _ => StackStage mapper inv₀ id (guard + frameSize) pages) ?_
    fun _ => Triple.pure fun k h => ?_
  · refine (@mapStackPages_stage _ _ id _ pages 0 fun j hj => ?_).conseq (fun k hk => ?_)
      (fun _ k hk => ?_)
      fun _ _ h => h
    · exact stackPage_kernel halign hlow hhigh (by omega)
    · exact ⟨inv₀, ⟨hk.1, hk.2, hnew⟩, fun page hpage => by cases hpage⟩
    · rwa [Nat.zero_add] at hk
  · have hstack : (⟨guard + frameSize, guard + frameSize + pages * frameSize⟩ : Stack).pages
        = stackPages (guard + frameSize) pages := by
      rw [Stack.pages, Stack.size]
      dsimp only
      rw [Nat.add_sub_cancel_left, Nat.mul_div_cancel _ (by decide)]
    obtain ⟨inv, hstage, hmem⟩ := h
    refine ⟨inv, hstage, fun page hpage => hmem page (hstack ▸ hpage), ?_⟩
    rw [hstack, stackPages]
    simp only [ne_eq, List.map_eq_nil_iff, List.range_eq_nil]
    omega

/-! ### Building -/

variable {b : Building} {stack : Stack} {held : List PhysFrame}

/-- What is being built has what it was given, and so far has these frames beside. -/
def BuildStage (mapper : PageTables) (inv₀ : Inventory) (id : ℕ) (stack : Stack) (b : Building)
    (held : List PhysFrame) (k : Kernel) : Prop :=
  ∃ inv, Stage mapper inv₀ id inv k ∧ Owns inv id (b.finish 0 stack)
    ∧ ∀ frame ∈ held, (id, frame.start) ∈ inv.memory

lemma BuildStage.failed {k : Kernel} (h : BuildStage mapper inv₀ id stack b held k) :
    Failed mapper inv₀ k := by
  obtain ⟨inv, hstage, -⟩ := h
  exact hstage.failed

lemma takeOrFail_stage (purpose : FramePurpose) :
    Triple (BuildStage mapper inv₀ id stack b held) (takeOrFail purpose)
      (fun frame => BuildStage mapper inv₀ id stack b (frame :: held))
      fun _ => BuildStage mapper inv₀ id stack b held := by
  rintro ⟨mem, kf⟩ ⟨inv, hstage, howns, hheld⟩
  rw [takeOrFail, Eff.bind_apply, takeFrame, Eff.step]
  dsimp only
  obtain heq | ⟨frame, mem', kf', heq, -, hstage'⟩ := takeFrame_stage hstage purpose
  · rw [heq]
    exact ⟨inv, hstage, howns, hheld⟩
  · rw [heq]
    refine ⟨_, hstage', howns.mono (inv.sub_addMemory id _), fun other hother => ?_⟩
    obtain rfl | hother := List.mem_cons.mp hother
    · exact Set.mem_insert _ _
    · exact Set.mem_insert_of_mem _ (hheld other hother)

lemma copyTo_stage {ε : Type} {frame : PhysFrame} (hframe : frame ∈ held) (skip : ℕ)
    (bytes : List UInt8) {R : ε → Kernel → Prop} :
    Triple (BuildStage mapper inv₀ id stack b held) (copyTo ε frame skip bytes)
      (fun _ => BuildStage mapper inv₀ id stack b held) R := by
  refine Triple.step ?_
  rintro ⟨mem, kf⟩ ⟨inv, hstage, howns, hheld⟩
  exact ⟨inv, hstage.fill (hheld frame hframe) _, howns, hheld⟩

lemma mapPage_buildStage (page : ℕ) (frame : PhysFrame) (flags : PageFlags) :
    Triple (BuildStage mapper inv₀ id stack b held) (mapPage b.space page frame flags)
      (fun _ => BuildStage mapper inv₀ id stack b held)
      fun _ => BuildStage mapper inv₀ id stack b held := by
  rintro k ⟨inv, hstage, howns, hheld⟩
  have hmap := mapPage_stage howns.space page frame flags k hstage
  rcases hres : mapPage b.space page frame flags k with ⟨err | u, k'⟩
  · rw [show (b.finish 0 stack).space = b.space from rfl, hres] at hmap
    exact ⟨inv, hmap, howns, hheld⟩
  · rw [show (b.finish 0 stack).space = b.space from rfl, hres] at hmap
    exact ⟨inv, hmap, howns, hheld⟩

lemma took_stage {frame : PhysFrame} (hframe : frame ∈ held) (purpose : FramePurpose) :
    Triple (BuildStage mapper inv₀ id stack b held) (liftBuild (b.took frame purpose))
      (fun b' k => b'.space = b.space ∧ BuildStage mapper inv₀ id stack b' held k)
      fun _ => BuildStage mapper inv₀ id stack b held := by
  rw [Building.took]
  split
  · exact Triple.fail fun _ h => h
  · refine Triple.pure ?_
    rintro k ⟨inv, hstage, howns, hheld⟩
    refine ⟨rfl, inv, hstage,
      ⟨howns.space, howns.aligned, fun x hx => ?_, howns.stack, howns.stacked⟩, hheld⟩
    obtain hx | hx := List.mem_append.mp hx
    · exact howns.frames x hx
    · rw [List.mem_singleton.mp hx]
      exact hheld frame hframe

lemma own_stage (range : PhysRange) (writable : Bool) :
    Triple (BuildStage mapper inv₀ id stack b held) (liftBuild (b.own range writable))
      (fun b' k => b'.space = b.space ∧ BuildStage mapper inv₀ id stack b' held k)
      fun _ => BuildStage mapper inv₀ id stack b held := by
  rw [Building.own]
  split
  · exact Triple.fail fun _ h => h
  · refine Triple.pure ?_
    rintro k ⟨inv, hstage, howns, hheld⟩
    exact ⟨rfl, inv, hstage,
      ⟨howns.space, howns.aligned, howns.frames, howns.stack, howns.stacked⟩, hheld⟩

/-- A process that is finished. -/
def Started (mapper : PageTables) (inv₀ : Inventory) (id : ℕ) (process : Process) (k : Kernel) :
    Prop :=
  ∃ inv, Stage mapper inv₀ id inv k ∧ Owns inv id process

lemma BuildStage.started {k : Kernel} (h : BuildStage mapper inv₀ id stack b held k) (entry : ℕ) :
    Started mapper inv₀ id (b.finish entry stack) k := by
  obtain ⟨inv, hstage, howns, -⟩ := h
  exact ⟨inv, hstage, howns.space, howns.aligned, howns.frames, howns.stack, howns.stacked⟩

lemma newAddressSpace_buildStage :
    Triple (HasStack mapper inv₀ id stack) (newAddressSpace mapper)
      (fun space => BuildStage mapper inv₀ id stack (Building.new space) [])
      fun _ => Failed mapper inv₀ := by
  rintro k ⟨inv, hstage, hpages, hstacked⟩
  have hspace := newAddressSpace_stage k hstage
  rcases hres : newAddressSpace mapper k with ⟨err | space, k'⟩
  · rw [hres] at hspace
    exact hspace
  · rw [hres] at hspace
    refine ⟨_, hspace.2, ⟨Set.mem_insert _ _, hspace.1, ?_, hpages, hstacked⟩, ?_⟩
    · exact fun x hx => by cases hx
    · exact fun x hx => by cases hx

/-- Building a process around a flat program. -/
lemma spawn_stage (program : List UInt8) :
    Triple (HasStack mapper inv₀ id stack) (spawn mapper program stack)
      (Started mapper inv₀ id) fun _ => Failed mapper inv₀ := by
  rw [spawn]
  split
  · refine Triple.fail ?_
    rintro k ⟨inv, hstage, -⟩
    exact hstage.failed
  · refine Triple.bind newAddressSpace_buildStage fun space => ?_
    refine Triple.bind ((takeOrFail_stage .kernel).conseq (fun _ h => h) (fun _ _ h => h)
      fun _ _ h => h.failed) fun code => ?_
    refine Triple.bind ((takeOrFail_stage .stack).conseq (fun _ h => h) (fun _ _ h => h)
      fun _ _ h => h.failed) fun stackFrame => ?_
    refine Triple.bind (copyTo_stage (by simp) 0 program) fun _ => ?_
    refine Triple.bind (Triple.mapError ((mapPage_buildStage codeBase code _).conseq
      (fun _ h => h) (fun _ _ h => h) fun _ _ h => h.failed)) fun _ => ?_
    refine Triple.bind (Triple.mapError ((mapPage_buildStage stackBase stackFrame _).conseq
      (fun _ h => h) (fun _ _ h => h) fun _ _ h => h.failed)) fun _ => ?_
    refine Triple.bind ((took_stage (by simp) .kernel).conseq (fun _ h => h) (fun _ _ h => h.2)
      fun _ _ h => h.failed) fun b₁ => ?_
    refine Triple.bind ((took_stage (by simp) .stack).conseq (fun _ h => h) (fun _ _ h => h.2)
      fun _ _ h => h.failed) fun b₂ => ?_
    refine Triple.bind ((own_stage _ _).conseq (fun _ h => h) (fun _ _ h => h.2)
      fun _ _ h => h.failed) fun b₃ => ?_
    refine Triple.bind ((own_stage _ _).conseq (fun _ h => h) (fun _ _ h => h.2)
      fun _ _ h => h.failed) fun b₄ => ?_
    exact Triple.pure fun k h => h.started codeBase

/-! ### The loader -/

/-- What a load that stopped leaves: what it had taken by then. -/
def Stopped (mapper : PageTables) (inv₀ : Inventory) (id : ℕ) (stack : Stack)
    (err : SpawnError × Building) : Kernel → Prop :=
  BuildStage mapper inv₀ id stack err.2 []

lemma BuildStage.drop {k : Kernel} (h : BuildStage mapper inv₀ id stack b held k) :
    BuildStage mapper inv₀ id stack b [] k := by
  obtain ⟨inv, hstage, howns, -⟩ := h
  exact ⟨inv, hstage, howns, fun _ h => by cases h⟩

lemma loadPage_stage (segment : Elf.Segment) (file : List UInt8) (page : ℕ) :
    Triple (BuildStage mapper inv₀ id stack b []) (loadPage segment file page b)
      (fun b' => BuildStage mapper inv₀ id stack b' []) (Stopped mapper inv₀ id stack) := by
  refine Triple.bind (Triple.mapError (takeOrFail_stage .kernel)) fun frame => ?_
  refine Triple.bind (Triple.mapError ((@took_stage _ _ _ _ _ [frame] _ (by simp) .kernel).conseq
    (fun _ h => h) (fun _ _ h => h.2) fun _ _ h => h.drop)) fun b' => ?_
  refine Triple.bind (copyTo_stage (by simp) _ _) fun _ => ?_
  refine Triple.bind (Triple.mapError ((@mapPage_buildStage _ _ _ _ _ [frame] page frame _).conseq
    (fun _ h => h) (fun _ _ h => h) fun _ _ h => h.drop)) fun _ => ?_
  exact Triple.pure fun _ h => h.drop

lemma loadPages_stage (segment : Elf.Segment) (file : List UInt8) (pages : List ℕ) :
    Triple (BuildStage mapper inv₀ id stack b []) (loadPages segment file pages b)
      (fun b' => BuildStage mapper inv₀ id stack b' []) (Stopped mapper inv₀ id stack) := by
  induction pages generalizing b with
  | nil => exact Triple.pure fun _ h => h
  | cons page rest ih => exact Triple.bind (loadPage_stage segment file page) fun _ => ih

lemma loadSegments_stage (file : List UInt8) (segments : List Elf.Segment) :
    Triple (BuildStage mapper inv₀ id stack b []) (loadSegments file segments b)
      (fun b' => BuildStage mapper inv₀ id stack b' []) (Stopped mapper inv₀ id stack) := by
  induction segments generalizing b with
  | nil => exact Triple.pure fun _ h => h
  | cons segment rest ih =>
      refine Triple.bind (loadPages_stage segment file segment.pages) fun b' => ?_
      refine Triple.bind (Triple.mapError ((own_stage _ _).conseq (fun _ h => h)
        (fun _ _ h => h.2) fun _ _ h => h)) fun _ => ih

lemma load_stage (program : Elf.Program) (file : List UInt8) :
    Triple (BuildStage mapper inv₀ id stack b []) (load program file b)
      (fun b' => BuildStage mapper inv₀ id stack b' []) (Stopped mapper inv₀ id stack) := by
  refine Triple.bind (loadSegments_stage file program.segments) fun b₁ => ?_
  refine Triple.bind (Triple.mapError (takeOrFail_stage .stack)) fun frame => ?_
  refine Triple.bind (Triple.mapError ((@took_stage _ _ _ _ _ [frame] _ (by simp) .stack).conseq
    (fun _ h => h) (fun _ _ h => h.2) fun _ _ h => h.drop)) fun b₂ => ?_
  refine Triple.bind (Triple.mapError ((@mapPage_buildStage _ _ _ _ _ [frame] _ _ _).conseq
    (fun _ h => h) (fun _ _ h => h.drop) fun _ _ h => h.drop)) fun _ => ?_
  exact Triple.mapError ((own_stage _ _).conseq (fun _ h => h) (fun _ _ h => h.2) fun _ _ h => h)

lemma giveBack_failed {k : Kernel} (h : BuildStage mapper inv₀ id stack b [] k) :
    Failed mapper inv₀ (k.1, b.giveBack k.2) := by
  obtain ⟨inv, hstage, howns, -⟩ := h
  obtain ⟨T, back, before, hleave, hmine, -⟩ := hstage.leave
  have hframes : ∀ x ∈ b.frames, x.1.start ∈ T := fun x hx => hmine _ (howns.frames x hx)
  have hback : ∀ (frames : List (PhysFrame × FramePurpose)) (kf : KernelFrames),
      (∀ x ∈ frames, x.1.start ∈ T) → Leaving T (.process id) before mapper inv₀ (k.1, kf) →
      Leaving T (.process id) before mapper inv₀
        (k.1, frames.foldl (fun kf x => (kf.deallocateAs x.1 x.2).2) kf) := by
    intro frames
    induction frames with
    | nil => exact fun _ _ h => h
    | cons x rest ih =>
        intro kf hmem hkf
        exact ih _ (fun x hx => hmem x (List.mem_cons_of_mem _ hx))
          (hkf.deallocateAs (hmem x List.mem_cons_self) x.2)
  exact (hback b.frames k.2 hframes hleave).failed

/-- Building a process out of an ELF. -/
lemma spawnElf_stage (program : Elf.Program) (file : List UInt8) :
    Triple (HasStack mapper inv₀ id stack) (spawnElf mapper program file stack)
      (Started mapper inv₀ id) fun _ => Failed mapper inv₀ := by
  refine Triple.bind newAddressSpace_buildStage fun space => ?_
  intro k hk
  have hload := load_stage program file k hk
  rw [Eff.run]
  rcases hres : load program file (Building.new space) k with ⟨⟨err, b⟩ | b, mem, kf⟩
  · rw [hres] at hload
    exact giveBack_failed hload
  · rw [hres] at hload
    exact hload.started program.entry

end Stage

end Harlan
