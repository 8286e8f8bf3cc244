import Mathlib.Tactic
import Harlan.Arch.UserHalf
import Harlan.Spawn

/-!
The loader and the kernel half (`kernel/src/process.rs`, `load`).

* `Loading`: what holds of memory and of the kernel's frames while a program is mapped into a
  space, as long as no page of it has bit 47 set.
* `load_loading`: the loader keeps it, whether or not it gets to the end.
* `userMap_keeps_kernelHalf`: a user mapping that succeeds keeps the kernel half exactly when
  bit 47 of its page is clear, and loading a program whose pages have it clear does so all
  the way.
* `userMap_breaks_kernelHalf`: a program `elf::parse` accepts, with a page the loader would
  map through a slot of the kernel half.
-/

namespace Harlan

open Paging (Memory FrameSource PageTables Half OwnHalf Edit Edits KernelTablesSame KernelHalfKept
  ProcessSpace tablesOf tableIndex tableIndices kernelSpaceBase)
open Radix (follow Reached)
open Eff (Triple)

/-! ### What holds while a program is loaded -/

/-- No walk of the space reads a frame that is free, and of the kernel half the walks read
what they read at the start. -/
structure Loading (space : PageTables) (mem₀ : Memory) (k : Kernel) : Prop where
  ready : k.2.Ready
  apart : ∀ frame, k.2.IsFree frame → frame.start ∉ tablesOf k.1 space.root
  own : OwnHalf Half.lower.Slot k.1 space.root
  same : KernelTablesSame space.root mem₀ k.1

section Loading

variable {space : PageTables} {mem₀ mem : Memory} {kf kf' : KernelFrames}

/-- Writing to a frame that is no table, with the frames still free among those that were. -/
lemma Loading.fill (h : Loading space mem₀ (mem, kf)) {n : ℕ} (hn : n ∉ tablesOf mem space.root)
    (entries : Fin 512 → ℕ) (hready : kf'.Ready)
    (hfree : ∀ frame, kf'.IsFree frame → kf.IsFree frame) :
    Loading space mem₀ (Radix.fill mem n entries, kf') := by
  have hfollow : ∀ q : List (Fin 512), q.length ≤ 4 →
      follow Paging.next (Radix.fill mem n entries) space.root q
        = follow Paging.next mem space.root q := fun q hq => Radix.follow_fill hn hq
  have hentry : ∀ p x j, p.length ≤ 3 → follow Paging.next mem space.root p = some x →
      Radix.fill mem n entries x j = mem x j := by
    intro p x j hp hx
    rw [Radix.fill_of_ne]
    rintro rfl
    exact hn ⟨p, hp, hx⟩
  refine ⟨hready, fun frame hf => ?_, ⟨fun p x hp hown hx q hq hqx => ?_,
    fun p x j hp hown hx hpres => ?_⟩, h.same.trans fun p x j hp _ hx => hentry p x j hp hx⟩
  · rw [Paging.tablesOf_congr hfollow]
    exact h.apart frame (hfree frame hf)
  · rw [hfollow p (by omega)] at hx
    rw [hfollow q (by omega)] at hqx
    exact h.own.alone p x hp hown hx q hq hqx
  · rw [hfollow p (by omega)] at hx
    have hsame := hentry p x j (by omega) hx
    dsimp only at hpres ⊢
    rw [hsame] at hpres ⊢
    exact h.own.linked p x j hp hown hx hpres

/-- A frame that was taken, beside the rest: it is no table. -/
def HasFrame (space : PageTables) (mem₀ : Memory) (frame : PhysFrame) (k : Kernel) : Prop :=
  Loading space mem₀ k ∧ frame.start ∉ tablesOf k.1 space.root

lemma takeOrFail_loading (purpose : FramePurpose) :
    Triple (Loading space mem₀) (takeOrFail purpose) (HasFrame space mem₀)
      fun _ => Loading space mem₀ := by
  rintro ⟨mem, kf⟩ h
  rw [takeOrFail, Eff.bind_apply, takeFrame, Eff.step]
  dsimp only
  obtain hnone | ⟨frame, kf', hsome, hgrows, hfree, -, -⟩ :=
    KernelFrames.allocateFor_cases h.ready purpose
  · rw [FrameSource.allocateFrame, KernelFrames.source_take, hnone]
    exact h
  · rw [FrameSource.allocateFrame, KernelFrames.source_take, hsome]
    have hout := h.apart frame hfree
    refine ⟨h.fill hout _ hgrows.ready hgrows.free, ?_⟩
    show frame.start ∉ tablesOf (Radix.fill mem frame.start fun _ => 0) space.root
    rwa [Paging.tablesOf_congr fun q hq => Radix.follow_fill hout hq]

lemma copyTo_loading {ε : Type} (frame : PhysFrame) (skip : ℕ) (bytes : List UInt8) :
    Triple (HasFrame space mem₀ frame) (copyTo ε frame skip bytes) (fun _ => Loading space mem₀)
      fun _ => Loading space mem₀ :=
  Triple.step fun ⟨_, _⟩ h => h.1.fill h.2 _ h.1.ready fun _ hf => hf

lemma mapPage_loading {page : ℕ} (hpage : page.testBit 47 = false) (frame : PhysFrame)
    (flags : PageFlags) :
    Triple (Loading space mem₀) (mapPage space page frame flags) (fun _ => Loading space mem₀)
      fun _ => Loading space mem₀ := by
  suffices h : ∀ k, Loading space mem₀ k →
      Loading space mem₀ (mapPage space page frame flags k).2 by
    intro k hk
    have := h k hk
    split <;> simp_all
  rintro ⟨mem, kf⟩ h
  have hfresh := KernelFrames.fresh h.ready .pageTable h.apart 3
  have hlater := (@Paging.map_cases _ Half.lower.Slot space _ _ frame flags _ _
    hfresh (Paging.tableIndex_lower.mpr hpage)).1
  have hgrows := KernelFrames.later_grows h.ready hlater
  refine ⟨hgrows.ready, fun f hf hmem => ?_,
    Paging.map_ownHalf h.own (Paging.tableIndex_lower.mpr hpage) hfresh,
    h.same.trans (Paging.map_kernelTablesSame h.own hpage hfresh)⟩
  obtain hold | htaken := Paging.map_tablesOf_subset h.own hpage hfresh hmem
  · exact h.apart f (hgrows.free f hf) hold
  · obtain ⟨f', hstart, -, hused⟩ := KernelFrames.taken_free h.ready htaken
    have hsame : f'.number = f.number := by rw [PhysFrame.number, PhysFrame.number, hstart]
    refine hused ?_
    rw [KernelFrames.IsFree, hsame]
    exact hf

end Loading

/-! ### The loader -/

section Load

variable {space : PageTables} {mem₀ : Memory}

/-- What one step of the loader leaves, if it gets to the end of it: the same space. -/
def Built (space : PageTables) (mem₀ : Memory) (b : Building) (k : Kernel) : Prop :=
  b.space = space ∧ Loading space mem₀ k

lemma Building.took_space {b b' : Building} {frame : PhysFrame} {purpose : FramePurpose}
    (h : b.took frame purpose = .ok b') : b'.space = b.space := by
  rw [Building.took, ite_error_eq_ok] at h
  obtain ⟨-, h⟩ := h
  cases h
  rfl

lemma Building.own_space {b b' : Building} {range : PhysRange} {writable : Bool}
    (h : b.own range writable = .ok b') : b'.space = b.space := by
  rw [Building.own, ite_error_eq_ok] at h
  obtain ⟨-, h⟩ := h
  cases h
  rfl

lemma liftBuild_triple {P : Kernel → Prop} {x : Except SpawnError Building} {b : Building}
    (hx : ∀ b', x = .ok b' → b'.space = b.space) :
    Triple P (liftBuild x) (fun b' k => b'.space = b.space ∧ P k) fun _ => P := by
  cases x with
  | error err => exact Triple.fail fun _ h => h
  | ok b' => exact Triple.pure fun _ h => ⟨hx b' rfl, h⟩

lemma loadPage_loading {segment : Elf.Segment} {file : List UInt8} {page : ℕ} {b : Building}
    (hpage : page.testBit 47 = false) (hspace : b.space = space) :
    Triple (Loading space mem₀) (loadPage segment file page b) (Built space mem₀)
      fun _ => Loading space mem₀ := by
  refine Triple.bind (Triple.mapError (takeOrFail_loading .kernel)) fun frame => ?_
  refine Triple.bind (Q := fun b' k => b'.space = space ∧ HasFrame space mem₀ frame k)
    (Triple.mapError ?_) fun b' => Triple.fact fun hspace' => ?_
  · exact (liftBuild_triple fun b' => Building.took_space).conseq (fun _ h => h)
      (fun b' k h => ⟨h.1.trans hspace, h.2⟩) fun _ k h => h.1
  · refine Triple.bind (copyTo_loading frame _ _) fun _ => ?_
    refine Triple.bind (Q := fun _ => Loading space mem₀) (Triple.mapError ?_)
      fun _ => Triple.pure fun k h => ⟨hspace', h⟩
    rw [hspace']
    exact mapPage_loading hpage frame _

lemma loadPages_loading {segment : Elf.Segment} {file : List UInt8} {pages : List ℕ}
    {b : Building} (hpages : ∀ page ∈ pages, page.testBit 47 = false) (hspace : b.space = space) :
    Triple (Loading space mem₀) (loadPages segment file pages b) (Built space mem₀)
      fun _ => Loading space mem₀ := by
  induction pages generalizing b with
  | nil => exact Triple.pure fun _ h => ⟨hspace, h⟩
  | cons page rest ih =>
      refine Triple.bind (loadPage_loading (hpages page List.mem_cons_self) hspace) fun b' =>
        Triple.fact fun hspace' => ?_
      exact ih (fun page' h => hpages page' (List.mem_cons_of_mem page h)) hspace'

/-- Recording a range is no step of memory. -/
lemma own_loading {b : Building} (range : PhysRange) (writable : Bool)
    (hspace : b.space = space) :
    Triple (Loading space mem₀) (Eff.mapError (·, b) (liftBuild (b.own range writable)))
      (Built space mem₀) fun _ => Loading space mem₀ :=
  Triple.mapError <| (liftBuild_triple fun _ => Building.own_space).conseq (fun _ h => h)
    (fun _ _ h => ⟨h.1.trans hspace, h.2⟩) fun _ _ h => h

lemma loadSegments_loading {file : List UInt8} {segments : List Elf.Segment} {b : Building}
    (hpages : ∀ segment ∈ segments, ∀ page ∈ segment.pages, page.testBit 47 = false)
    (hspace : b.space = space) :
    Triple (Loading space mem₀) (loadSegments file segments b) (Built space mem₀)
      fun _ => Loading space mem₀ := by
  induction segments generalizing b with
  | nil => exact Triple.pure fun _ h => ⟨hspace, h⟩
  | cons segment rest ih =>
      refine Triple.bind (loadPages_loading (hpages segment List.mem_cons_self) hspace) fun b' =>
        Triple.fact fun hspace' => ?_
      refine Triple.bind (own_loading _ _ hspace') fun b'' => Triple.fact fun hspace'' => ?_
      exact ih (fun segment' h => hpages segment' (List.mem_cons_of_mem segment h)) hspace''

/-- The loader keeps the kernel half of the space it loads into. -/
lemma load_loading {program : Elf.Program} {file : List UInt8} {b : Building}
    (hpages : ∀ segment ∈ program.segments, ∀ page ∈ segment.pages, page.testBit 47 = false)
    (hspace : b.space = space) :
    Triple (Loading space mem₀) (load program file b) (Built space mem₀)
      fun _ => Loading space mem₀ := by
  refine Triple.bind (loadSegments_loading hpages hspace) fun b₁ => Triple.fact fun hspace₁ => ?_
  refine Triple.bind (Q := fun _ => Loading space mem₀) (Triple.mapError
    ((takeOrFail_loading .stack).conseq (fun _ h => h) (fun _ _ h => h.1) fun _ _ h => h))
    fun frame => ?_
  refine Triple.bind (Q := Built space mem₀) (Triple.mapError ?_) fun b₂ =>
    Triple.fact fun hspace₂ => ?_
  · exact (liftBuild_triple fun b' => Building.took_space).conseq (fun _ h => h)
      (fun b' k' h => ⟨h.1.trans hspace₁, h.2⟩) fun _ _ h => h
  · refine Triple.bind (Q := fun _ => Loading space mem₀) (Triple.mapError ?_)
      fun _ => own_loading _ _ hspace₂
    rw [hspace₂]
    exact mapPage_loading (by decide) frame _

end Load

/-! ### User mappings and the kernel half -/

/-- **Which user mappings keep the kernel half.** In a process space, a user mapping that
succeeds writes no slot of the kernel half and no table below one, and lets ring 3 reach
nothing there, exactly when bit 47 of its page is clear. Every page of a program `elf::parse`
accepts lies below the kernel half, and where all of them have bit 47 clear, loading the
program keeps the kernel half, whether it gets to the end or not. -/
theorem userMap_keeps_kernelHalf {space : PageTables} {mem : Memory}
    (hspace : ProcessSpace space mem) :
    (∀ {σ : Type} (src : FrameSource σ) (s : σ) (page : ℕ) (frame : PhysFrame)
      (flags : PageFlags), flags.user = true → src.Fresh 3 (tablesOf mem space.root) s →
      (space.map src page frame flags mem s).1 = .ok () →
      (KernelHalfKept space mem (space.map src page frame flags mem s).2.1
        ↔ page.testBit 47 = false))
    ∧ ∀ {file : List UInt8} {program : Elf.Program},
      Elf.parse file kernelSpaceBase = .ok program →
      (∀ segment ∈ program.segments, ∀ page ∈ segment.pages, page < kernelSpaceBase)
      ∧ ((∀ segment ∈ program.segments, ∀ page ∈ segment.pages, page.testBit 47 = false) →
        ∀ kf : KernelFrames, kf.Ready →
          (∀ frame, kf.IsFree frame → frame.start ∉ tablesOf mem space.root) →
          KernelHalfKept space mem (load program file (Building.new space) (mem, kf)).2.1) := by
  refine ⟨fun src s page frame flags _ hfresh hok =>
    Paging.map_kernelHalf_iff hspace.ownHalf hfresh hok, fun {file _} hparse => ⟨?_, ?_⟩⟩
  · intro segment hsegment page hpage
    exact Elf.Segment.page_lt (Elf.parse_segment hparse segment hsegment) hpage
  · intro hpages kf hready hapart
    have hstart : Loading space mem (mem, kf) :=
      ⟨hready, hapart, hspace.ownHalf, fun _ _ _ _ _ _ => rfl⟩
    have hload := @load_loading _ _ _ file (Building.new space) hpages rfl (mem, kf) hstart
    refine KernelTablesSame.kept ?_
    split at hload
    · rename_i hres
      rw [hres]
      exact hload.2.same
    · rename_i hres
      rw [hres]
      exact hload.same

/-! ### A program of one page -/

/-- An ELF of one segment: a page of executable zeroes at an address, and its entry there. -/
def onePageFile (addr : List UInt8) : List UInt8 :=
  [0x7F, 0x45, 0x4C, 0x46, 2, 1, 1, 0, 0, 0, 0, 0, 0, 0, 0, 0] ++ [2, 0, 0x3E, 0, 1, 0, 0, 0]
    ++ addr ++ [64, 0, 0, 0, 0, 0, 0, 0] ++ [0, 0, 0, 0, 0, 0, 0, 0]
    ++ [0, 0, 0, 0, 64, 0, 56, 0, 1, 0, 0, 0, 0, 0, 0, 0]
    ++ [1, 0, 0, 0, 5, 0, 0, 0] ++ [0, 0, 0, 0, 0, 0, 0, 0] ++ addr ++ addr
    ++ [0, 0, 0, 0, 0, 0, 0, 0] ++ [0, 0x10, 0, 0, 0, 0, 0, 0] ++ [0, 0x10, 0, 0, 0, 0, 0, 0]

/-- Sixteen free frames from `0x4000` on. -/
def sixteenFrames : KernelFrames :=
  ⟨.new [0] [⟨0x4000, 16, .usable⟩], .other, fun _ => none, [], false⟩

lemma sixteenFrames_ready : sixteenFrames.Ready :=
  ⟨BitmapFrameAllocator.sound_new _ _, by decide +kernel⟩

lemma le_of_free_sixteenFrames {frame : PhysFrame} (h : sixteenFrames.IsFree frame) :
    0x4000 ≤ frame.start := by
  obtain ⟨-, -, ⟨r, hr, -, hlow, -⟩, -⟩ :=
    (BitmapFrameAllocator.sound_new [0] [⟨0x4000, 16, .usable⟩]).clear_managed _ h
  obtain rfl : r = ⟨0x4000, 16, .usable⟩ := List.mem_singleton.mp hr
  have hfirst : (inwardFrames ⟨0x4000, 16, .usable⟩).1 = 4 := by decide
  have hstart := frame.start_eq
  omega

/-- Loading a page of code at `0x400000` into a space just made, over sixteen frames. -/
theorem userMap_keeps_kernelHalf_onePage :
    (bareSpace.map Paging.frameList codeBase (.containingAddress 0x7000) (.ofUser false true)
        bareMemory ([0x4000, 0x5000, 0x6000].map PhysFrame.containingAddress)).1 = .ok ()
      ∧ KernelHalfKept bareSpace bareMemory
        (bareSpace.map Paging.frameList codeBase (.containingAddress 0x7000) (.ofUser false true)
          bareMemory ([0x4000, 0x5000, 0x6000].map PhysFrame.containingAddress)).2.1
      ∧ (load ⟨codeBase, [⟨0, 0, codeBase, 0x1000, 5⟩]⟩ (onePageFile [0, 0, 0x40, 0, 0, 0, 0, 0])
          (Building.new bareSpace) (bareMemory, sixteenFrames)).1.isOk = true
      ∧ KernelHalfKept bareSpace bareMemory
        (load ⟨codeBase, [⟨0, 0, codeBase, 0x1000, 5⟩]⟩ (onePageFile [0, 0, 0x40, 0, 0, 0, 0, 0])
          (Building.new bareSpace) (bareMemory, sixteenFrames)).2.1 := by
  have hparse : Elf.parse (onePageFile [0, 0, 0x40, 0, 0, 0, 0, 0]) kernelSpaceBase
      = .ok ⟨codeBase, [⟨0, 0, codeBase, 0x1000, 5⟩]⟩ := by decide +kernel
  have hok : (bareSpace.map Paging.frameList codeBase (.containingAddress 0x7000)
      (.ofUser false true) bareMemory
      ([0x4000, 0x5000, 0x6000].map PhysFrame.containingAddress)).1 = .ok () := by decide +kernel
  refine ⟨hok, ?_, by decide +kernel, ?_⟩
  · refine ((userMap_keeps_kernelHalf bareSpace_processSpace).1 _ _ _ _ _ (by decide)
      (Paging.frameList_fresh (fun a ha => ?_) (by decide)) hok).mpr (by decide)
    have ha : a = 0x4000 ∨ a = 0x5000 ∨ a = 0x6000 := by simpa using ha
    refine ⟨?_, by omega, fun h => ?_⟩
    · obtain rfl | rfl | rfl := ha <;> decide
    · have hmem := tablesOf_bareMemory h
      simp only [Set.mem_insert_iff, Set.mem_singleton_iff] at hmem
      omega
  · refine ((userMap_keeps_kernelHalf bareSpace_processSpace).2 hparse).2 (by decide +kernel)
      sixteenFrames sixteenFrames_ready ?_
    intro frame hfree hmem
    have hstart := le_of_free_sixteenFrames hfree
    have htables := tablesOf_bareMemory hmem
    simp only [Set.mem_insert_iff, Set.mem_singleton_iff] at htables
    omega

/-- **A program that takes a slot of the kernel half.** Its only page is at `2^47`, below the
bound `elf::parse` is given but not canonical; mapping that page fills slot 256 of the root. -/
theorem userMap_breaks_kernelHalf :
    Elf.parse (onePageFile [0, 0, 0, 0, 0, 0x80, 0, 0]) kernelSpaceBase
        = .ok ⟨2 ^ 47, [⟨0, 0, 2 ^ 47, 0x1000, 5⟩]⟩
      ∧ (⟨0, 0, 2 ^ 47, 0x1000, 5⟩ : Elf.Segment).pages = [2 ^ 47]
      ∧ ProcessSpace bareSpace bareMemory
      ∧ (bareSpace.map Paging.frameList (2 ^ 47) (.containingAddress 0x7000) (.ofUser false true)
          bareMemory ([0x4000, 0x5000, 0x6000].map PhysFrame.containingAddress)).1 = .ok ()
      ∧ ¬KernelHalfKept bareSpace bareMemory
        (bareSpace.map Paging.frameList (2 ^ 47) (.containingAddress 0x7000) (.ofUser false true)
          bareMemory ([0x4000, 0x5000, 0x6000].map PhysFrame.containingAddress)).2.1 := by
  refine ⟨by decide +kernel, by decide +kernel, bareSpace_processSpace, by decide +kernel,
    fun hkept => ?_⟩
  have hslot := hkept.slots 256 (by decide)
  revert hslot
  decide +kernel

end Harlan
