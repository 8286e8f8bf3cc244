import Mathlib.Tactic
import Harlan.Loader

/-!
What a start of a process that fails leaves taken.

`spawn_elf` gives back the memory it took when a load stops half way, `spawn` nothing. Neither
gives back a page table: the root of the space that will not be used stays taken, and with it
whatever tables were linked below it.

* `Kept`: a frame that is held stays held.
* `spawnElf_kept`, `spawn_kept`: the root does, whatever happens after it was taken.
* `failedSpawn_atomic_iff`: a start that fails leaves the frames as they were exactly when it
  could take none.
-/

namespace Harlan

open Paging (Memory FrameSource PageTables)
open Eff (Triple)

/-- The same frames are free, and those that are not are held for the same. -/
structure SameFrames (kf kf' : KernelFrames) : Prop where
  free : ∀ frame, kf'.IsFree frame ↔ kf.IsFree frame
  purpose : ∀ frame, ¬kf.IsFree frame → kf'.inner.purposeOf frame = kf.inner.purposeOf frame

/-! ### Calls only take -/

section Later

variable {σ : Type*} {src : FrameSource σ} {tables : PageTables} {mem : Memory} {s : σ}

lemma Paging.newTable_later : src.Later s (tables.newTable src mem s).2.2 := by
  rw [PageTables.newTable, FrameSource.allocateFrame]
  rcases htake : src.take s with ⟨_ | frame, s'⟩
  · exact .single ⟨_, htake⟩
  · have hlater : src.Later s s' := .single ⟨_, htake⟩
    dsimp only
    split
    · split
      · exact hlater
      · exact hlater
    · exact hlater

lemma Paging.descend_later {isUser : Bool} {indices : List (Fin 512)} {table : ℕ} :
    src.Later s (tables.descend src isUser indices table mem s).2.2 := by
  induction indices generalizing table mem s with
  | nil => exact .refl
  | cons index rest ih =>
      rw [PageTables.descend]
      dsimp only
      split
      · have hnew := @Paging.newTable_later _ src tables mem s
        rcases hres : tables.newTable src mem s with ⟨err | new, mem₁, s₁⟩
        · rw [hres] at hnew
          exact hnew
        · rw [hres] at hnew
          exact hnew.trans ih
      · split
        · exact .refl
        · exact ih

lemma Paging.map_later {page : ℕ} {frame : PhysFrame} {flags : PageFlags} :
    src.Later s (tables.map src page frame flags mem s).2.2 := by
  rw [PageTables.map]
  split
  · exact .refl
  · have hdescend := @Paging.descend_later _ src tables mem s flags.user
      ((Paging.tableIndices page).take 3) tables.root
    rcases hres : tables.descend src flags.user
      ((Paging.tableIndices page).take 3) tables.root mem s
      with ⟨err | table, mem₁, s₁⟩
    · rw [hres] at hdescend
      exact hdescend
    · rw [hres] at hdescend
      dsimp only
      split
      · exact hdescend
      · exact hdescend

end Later

/-! ### A frame that stays taken -/

/-- A frame is held. -/
def Kept (frame : PhysFrame) (k : Kernel) : Prop := k.2.Ready ∧ ¬k.2.IsFree frame

/-- A frame is held, and it is none of what would be given back. -/
def KeptApart (frame : PhysFrame) (b : Building) (k : Kernel) : Prop :=
  Kept frame k ∧ ∀ x ∈ b.frames, x.1 ≠ frame

section Kept

variable {root : PhysFrame} {b : Building}

lemma Kept.grow {mem mem' : Memory} {kf kf' : KernelFrames} (h : Kept root (mem, kf))
    (hgrows : kf.Grows kf') : Kept root (mem', kf') :=
  ⟨hgrows.ready, fun hfree => h.2 (hgrows.free root hfree)⟩

/-- What is taken next is another frame. -/
lemma takeOrFail_kept (purpose : FramePurpose) :
    Triple (Kept root) (takeOrFail purpose) (fun frame k => frame ≠ root ∧ Kept root k)
      fun _ => Kept root := by
  rintro ⟨mem, kf⟩ h
  rw [takeOrFail, Eff.bind_apply, takeFrame, Eff.step]
  dsimp only
  obtain hnone | ⟨frame, kf', hsome, hgrows, hfree, -, -⟩ :=
    KernelFrames.allocateFor_cases h.1 purpose
  · rw [FrameSource.allocateFrame, KernelFrames.source_take, hnone]
    exact h
  · rw [FrameSource.allocateFrame, KernelFrames.source_take, hsome]
    refine ⟨?_, h.grow hgrows⟩
    rintro rfl
    exact h.2 hfree

lemma copyTo_kept {ε : Type} (frame : PhysFrame) (skip : ℕ) (bytes : List UInt8) :
    Triple (Kept root) (copyTo ε frame skip bytes) (fun _ => Kept root) fun _ => Kept root :=
  Triple.step fun ⟨_, _⟩ h => h

lemma mapPage_kept (tables : PageTables) (page : ℕ) (frame : PhysFrame) (flags : PageFlags) :
    Triple (Kept root) (mapPage tables page frame flags) (fun _ => Kept root)
      fun _ => Kept root := by
  rintro ⟨mem, kf⟩ h
  have hgrows := KernelFrames.later_grows h.1 (@Paging.map_later _
    (KernelFrames.source .pageTable) tables mem kf page frame flags)
  have hkept : Kept root (mapPage tables page frame flags (mem, kf)).2 := h.grow hgrows
  split
  · rename_i heq
    rwa [heq] at hkept
  · rename_i heq
    rwa [heq] at hkept

lemma took_kept {frame : PhysFrame} (hne : frame ≠ root) (purpose : FramePurpose) :
    Triple (KeptApart root b) (liftBuild (b.took frame purpose)) (fun b' => KeptApart root b')
      fun _ => KeptApart root b := by
  rw [Building.took]
  split
  · exact Triple.fail fun _ h => h
  · refine Triple.pure fun k h => ⟨h.1, fun x hx => ?_⟩
    rcases List.mem_append.mp hx with hx | hx
    · exact h.2 x hx
    · rw [List.mem_singleton.mp hx]
      exact hne

lemma own_kept (range : PhysRange) (writable : Bool) :
    Triple (KeptApart root b) (liftBuild (b.own range writable)) (fun b' => KeptApart root b')
      fun _ => KeptApart root b := by
  rw [Building.own]
  split
  · exact Triple.fail fun _ h => h
  · exact Triple.pure fun k h => h

lemma takeOrFail_keptApart (purpose : FramePurpose) :
    Triple (KeptApart root b) (takeOrFail purpose)
      (fun frame k => frame ≠ root ∧ KeptApart root b k)
      fun _ => KeptApart root b := by
  intro k h
  have htake := takeOrFail_kept purpose k h.1
  split
  · rename_i heq
    rw [heq] at htake
    exact ⟨htake.1, htake.2, h.2⟩
  · rename_i heq
    rw [heq] at htake
    exact ⟨htake, h.2⟩

lemma mapPage_keptApart (tables : PageTables) (page : ℕ) (frame : PhysFrame) (flags : PageFlags) :
    Triple (KeptApart root b) (mapPage tables page frame flags) (fun _ => KeptApart root b)
      fun _ => KeptApart root b := by
  intro k h
  have hmap := mapPage_kept tables page frame flags k h.1
  split
  · rename_i heq
    rw [heq] at hmap
    exact ⟨hmap, h.2⟩
  · rename_i heq
    rw [heq] at hmap
    exact ⟨hmap, h.2⟩

/-! ### The loader -/

lemma loadPage_kept (segment : Elf.Segment) (file : List UInt8) (page : ℕ) :
    Triple (KeptApart root b) (loadPage segment file page b) (fun b' => KeptApart root b')
      fun err => KeptApart root err.2 := by
  refine Triple.bind (Triple.mapError (takeOrFail_keptApart .kernel)) fun frame =>
    Triple.fact fun hne => ?_
  refine Triple.bind (Triple.mapError (took_kept hne .kernel)) fun b' => ?_
  refine Triple.bind (Q := fun _ => KeptApart root b') ?_ fun _ => ?_
  · exact Triple.step fun ⟨_, _⟩ h => h
  · exact Triple.bind (Triple.mapError (mapPage_keptApart _ _ _ _)) fun _ =>
      Triple.pure fun _ h => h

lemma loadPages_kept (segment : Elf.Segment) (file : List UInt8) (pages : List ℕ) :
    Triple (KeptApart root b) (loadPages segment file pages b) (fun b' => KeptApart root b')
      fun err => KeptApart root err.2 := by
  induction pages generalizing b with
  | nil => exact Triple.pure fun _ h => h
  | cons page rest ih => exact Triple.bind (loadPage_kept segment file page) fun _ => ih

lemma loadSegments_kept (file : List UInt8) (segments : List Elf.Segment) :
    Triple (KeptApart root b) (loadSegments file segments b) (fun b' => KeptApart root b')
      fun err => KeptApart root err.2 := by
  induction segments generalizing b with
  | nil => exact Triple.pure fun _ h => h
  | cons segment rest ih =>
      refine Triple.bind (loadPages_kept segment file segment.pages) fun b' => ?_
      exact Triple.bind (Triple.mapError (own_kept _ _)) fun _ => ih

lemma load_kept (program : Elf.Program) (file : List UInt8) :
    Triple (KeptApart root b) (load program file b) (fun b' => KeptApart root b')
      fun err => KeptApart root err.2 := by
  refine Triple.bind (loadSegments_kept file program.segments) fun b₁ => ?_
  refine Triple.bind (Triple.mapError (takeOrFail_keptApart .stack)) fun frame =>
    Triple.fact fun hne => ?_
  refine Triple.bind (Triple.mapError (took_kept hne .stack)) fun b₂ => ?_
  refine Triple.bind (Triple.mapError (mapPage_keptApart _ _ _ _)) fun _ => ?_
  exact Triple.mapError (own_kept _ _)

/-- Giving back what was taken leaves it held. -/
lemma giveBack_kept {k : Kernel} (h : KeptApart root b k) : Kept root (k.1, b.giveBack k.2) := by
  obtain ⟨hkept, hapart⟩ := h
  rw [Building.giveBack]
  suffices hback : ∀ (frames : List (PhysFrame × FramePurpose)) (kf : KernelFrames),
      (∀ x ∈ frames, x.1 ≠ root) → kf.Ready → ¬kf.IsFree root →
      Kept root (k.1, frames.foldl (fun kf x => (kf.deallocateAs x.1 x.2).2) kf) from
    hback b.frames k.2 hapart hkept.1 hkept.2
  intro frames
  induction frames with
  | nil => exact fun kf _ hready hheld => ⟨hready, hheld⟩
  | cons x rest ih =>
      obtain ⟨frame, purpose⟩ := x
      intro kf hne hready hheld
      have hrest := fun x' hx' => hne x' (List.mem_cons_of_mem _ hx')
      rw [List.foldl_cons]
      obtain heq | ⟨-, kf', heq, hback⟩ := KernelFrames.deallocateAs_cases hready frame purpose
      · dsimp only
        rw [heq]
        exact ih kf hrest hready hheld
      · dsimp only
        rw [heq]
        refine ih kf' hrest hback.ready fun hfree => ?_
        rcases (hback.free root).mp hfree with hfree | rfl
        · exact hheld hfree
        · exact hne _ List.mem_cons_self rfl

end Kept

/-! ### The root of a space that is not used -/

section Root

variable {mapper : PageTables} {mem : Memory} {kf : KernelFrames}

/-- With no frame free there is nothing to take. -/
lemma newAddressSpace_of_none (hready : kf.Ready) (hnone : ∀ frame, ¬kf.IsFree frame) :
    newAddressSpace mapper (mem, kf) = (.error (.space .outOfFrames), (mem, kf)) := by
  have htake : KernelFrames.allocateFor .pageTable kf = (none, kf) := by
    obtain htake | ⟨frame, kf', -, -, hfree, -, -⟩ :=
      KernelFrames.allocateFor_cases hready .pageTable
    · exact htake
    · exact absurd hfree (hnone frame)
  simp only [newAddressSpace, Eff.mapError, Eff.run, PageTables.newProcessSpace,
    PageTables.newTable, FrameSource.allocateFrame, KernelFrames.source_take, htake,
    PageTables.PagingError.ofMapError]

/-- With one free, the first is taken for the root, and stays so. -/
lemma newAddressSpace_kept (hready : kf.Ready) {free : PhysFrame} (hfree : kf.IsFree free) :
    ∃ root, kf.IsFree root ∧ Kept root (newAddressSpace mapper (mem, kf)).2 := by
  obtain htake | ⟨root, kf', htake, hgrows, hroot, -, hother⟩ :=
    KernelFrames.allocateFor_cases hready .pageTable
  · -- an allocator that has a free frame hands one out
    exfalso
    obtain ⟨hzero, -⟩ | ⟨n, -, -, heq⟩ := BitmapFrameAllocator.allocate_spec hready.sound
    · have hman := hready.sound.clear_managed _ hfree
      have hpos : 0 < Bitmap.clearBits kf.inner.bitmap :=
        Bitmap.clearBits_pos_iff.mpr ⟨_, hman.lt_length, hfree⟩
      rw [← hready.sound.free_eq] at hpos
      omega
    · rw [KernelFrames.allocateFor, BitmapFrameAllocator.allocateFor, heq] at htake
      cases htake
  · have hheld : ¬kf'.IsFree root := fun hfree' => ((hother root).mp hfree').2 rfl
    have hstate : (newAddressSpace mapper (mem, kf)).2.2 = kf' := by
      simp only [newAddressSpace, Eff.mapError, Eff.run, PageTables.newProcessSpace,
        PageTables.newTable, FrameSource.allocateFrame, KernelFrames.source_take, htake]
      rcases mapper.translate _ (wrap64 (mapper.window + root.start)) with _ | t
      · rfl
      · dsimp only
        cases t.phys == root.start && t.writable with
        | false => rfl
        | true => rfl
    exact ⟨root, hroot, by rw [hstate]; exact hgrows.ready, by rw [hstate]; exact hheld⟩

/-- Once there is a space, its root stays taken. -/
lemma spawnElf_kept {program : Elf.Program} {file : List UInt8} {stack : Stack}
    (hready : kf.Ready) {free : PhysFrame} (hfree : kf.IsFree free) :
    ∃ root, kf.IsFree root ∧ Kept root (spawnElf mapper program file stack (mem, kf)).2 := by
  obtain ⟨root, hroot, hkept⟩ := @newAddressSpace_kept mapper mem kf hready free hfree
  refine ⟨root, hroot, ?_⟩
  rw [spawnElf, Eff.bind_apply]
  rcases hspace : newAddressSpace mapper (mem, kf) with ⟨err | space, k⟩
  · rw [hspace] at hkept
    exact hkept
  · rw [hspace] at hkept
    have hload := @load_kept root (Building.new space) program file k
      ⟨hkept, fun x hx => by cases hx⟩
    simp only [Eff.run]
    rcases hres : load program file (Building.new space) k with ⟨⟨err, b⟩ | b, k'⟩
    · rw [hres] at hload
      exact giveBack_kept hload
    · rw [hres] at hload
      exact hload.1

lemma spawn_kept {program : List UInt8} {stack : Stack} (hready : kf.Ready)
    (hsize : ¬frameSize < program.length) {free : PhysFrame} (hfree : kf.IsFree free) :
    ∃ root, kf.IsFree root ∧ Kept root (spawn mapper program stack (mem, kf)).2 := by
  obtain ⟨root, hroot, hkept⟩ := @newAddressSpace_kept mapper mem kf hready free hfree
  refine ⟨root, hroot, ?_⟩
  have hlift : ∀ x : Except SpawnError Building,
      Triple (Kept root) (liftBuild x) (fun _ => Kept root) fun _ => Kept root := by
    intro x
    cases x with
    | error err => exact Triple.fail fun _ h => h
    | ok b => exact Triple.pure fun _ h => h
  have hrest : ∀ space, Triple (Kept root) (do
      let codeFrame ← takeOrFail .kernel
      let stackFrame ← takeOrFail .stack
      copyTo SpawnError codeFrame 0 program
      Eff.mapError SpawnError.mapping (mapPage space codeBase codeFrame (.ofUser false true))
      Eff.mapError SpawnError.mapping (mapPage space stackBase stackFrame (.ofUser true false))
      let b ← liftBuild ((Building.new space).took codeFrame .kernel)
      let b ← liftBuild (b.took stackFrame .stack)
      let b ← liftBuild (b.own ⟨codeBase, frameSize⟩ false)
      let b ← liftBuild (b.own ⟨stackBase, frameSize⟩ true)
      pure (b.finish codeBase stack)) (fun _ => Kept root) fun _ => Kept root := by
    intro space
    refine Triple.bind (takeOrFail_kept .kernel) fun codeFrame => Triple.fact fun _ => ?_
    refine Triple.bind (takeOrFail_kept .stack) fun stackFrame => Triple.fact fun _ => ?_
    refine Triple.bind (copyTo_kept _ _ _) fun _ => ?_
    refine Triple.bind (Triple.mapError (mapPage_kept _ _ _ _)) fun _ => ?_
    refine Triple.bind (Triple.mapError (mapPage_kept _ _ _ _)) fun _ => ?_
    refine Triple.bind (hlift _) fun _ => Triple.bind (hlift _) fun _ => ?_
    exact Triple.bind (hlift _) fun _ => Triple.bind (hlift _) fun _ => Triple.pure fun _ h => h
  rw [spawn, if_neg hsize, Eff.bind_apply]
  rcases hspace : newAddressSpace mapper (mem, kf) with ⟨err | space, k⟩
  · rw [hspace] at hkept
    exact hkept
  · rw [hspace] at hkept
    have hend := hrest space k hkept
    dsimp only
    split at hend
    · rename_i heq
      rw [heq]
      exact hend
    · rename_i heq
      rw [heq]
      exact hend

end Root

/-- **A start that fails leaves the frames as they were** exactly when it could take none: when no
frame was free, or, for a flat program, when it is longer than a page. -/
theorem failedSpawn_atomic_iff {mapper : PageTables} {mem : Memory} {kf : KernelFrames}
    (hready : kf.Ready) (stack : Stack) :
    (∀ program file err k, spawnElf mapper program file stack (mem, kf) = (.error err, k) →
      (SameFrames kf k.2 ↔ ∀ frame, ¬kf.IsFree frame))
    ∧ ∀ program err k, spawn mapper program stack (mem, kf) = (.error err, k) →
      (SameFrames kf k.2 ↔ frameSize < program.length ∨ ∀ frame, ¬kf.IsFree frame) := by
  have hrefl : SameFrames kf kf := ⟨fun _ => Iff.rfl, fun _ _ => rfl⟩
  -- a frame that was free and stays held
  have hlost : ∀ {k : Kernel} {root : PhysFrame}, kf.IsFree root → Kept root k →
      ¬SameFrames kf k.2 :=
    fun hroot hkept hsame => hkept.2 ((hsame.free _).mpr hroot)
  refine ⟨fun program file err k hrun => ⟨fun hsame frame hfree => ?_, fun hnone => ?_⟩,
    fun program err k hrun => ⟨fun hsame => ?_, ?_⟩⟩
  · obtain ⟨root, hroot, hkept⟩ :=
      @spawnElf_kept mapper mem kf program file stack hready frame hfree
    rw [hrun] at hkept
    exact hlost hroot hkept hsame
  · rw [spawnElf, Eff.bind_apply, newAddressSpace_of_none hready hnone] at hrun
    cases hrun
    exact hrefl
  · by_contra hnot
    push Not at hnot
    obtain ⟨hsize, frame, hfree⟩ := hnot
    obtain ⟨root, hroot, hkept⟩ :=
      @spawn_kept mapper mem kf program stack hready (by omega) frame hfree
    rw [hrun] at hkept
    exact hlost hroot hkept hsame
  · rintro (hsize | hnone)
    · rw [spawn, if_pos hsize] at hrun
      cases hrun
      exact hrefl
    · by_cases hsize : frameSize < program.length
      · rw [spawn, if_pos hsize] at hrun
        cases hrun
        exact hrefl
      · rw [spawn, if_neg hsize, Eff.bind_apply, newAddressSpace_of_none hready hnone] at hrun
        cases hrun
        exact hrefl

/-! ### One page of code -/

/-- A number of free frames from `0x4000` on. -/
def framesLeft (count : ℕ) : KernelFrames :=
  ⟨.new [0] [⟨0x4000, count, .usable⟩], .other, fun _ => none, [], false⟩

/-- Starting a program of one page with so many frames left. -/
def startOnePage (count : ℕ) : Except SpawnError Process × Kernel :=
  spawnElf windowTables ⟨codeBase, [⟨0, 0, codeBase, 0x1000, 5⟩]⟩
    (onePageFile [0, 0, 0x40, 0, 0, 0, 0, 0]) ⟨0, 0⟩ (Paging.identityBelow 260, framesLeft count)

theorem failedSpawn_atomic_iff_noFrames :
    (∃ err, (startOnePage 0).1 = .error err) ∧ SameFrames (framesLeft 0)
    (startOnePage 0).2.2 := by
  have hready : (framesLeft 0).Ready := ⟨BitmapFrameAllocator.sound_new _ _, by decide +kernel⟩
  have hempty : Bitmap.clearBits (framesLeft 0).inner.bitmap = 0 := by decide +kernel
  have hnone : ∀ frame, ¬(framesLeft 0).IsFree frame := by
    intro frame hfree
    have hman := hready.sound.clear_managed _ hfree
    have hpos := Bitmap.clearBits_pos_iff.mpr ⟨_, hman.lt_length, hfree⟩
    rw [hempty] at hpos
    exact absurd hpos (lt_irrefl 0)
  have herr : (startOnePage 0).1.isOk = false := by decide +kernel
  rcases hrun : startOnePage 0 with ⟨err | process, k⟩
  · exact ⟨⟨err, rfl⟩, ((failedSpawn_atomic_iff hready _).1 _ _ _ _ hrun).mpr hnone⟩
  · rw [hrun] at herr
    cases herr

/-- **A start that runs out of frames leaves one taken.** With two frames left, the first becomes
the root of the space and the second the program's page; there is none for a table. The page goes
back, and the root does not. -/
theorem failedSpawn_leaks :
    (framesLeft 2).Ready ∧ (startOnePage 2).1.isOk = false
      ∧ (framesLeft 2).IsFree (.containingAddress 0x4000)
      ∧ ¬SameFrames (framesLeft 2) (startOnePage 2).2.2 := by
  have hbefore : (framesLeft 2).IsFree (.containingAddress 0x4000) := by
    show Bitmap.bit _ _ = false
    decide +kernel
  have hafter : Bitmap.bit (startOnePage 2).2.2.inner.bitmap
      (PhysFrame.containingAddress 0x4000).number = true := by
    decide +kernel
  refine ⟨⟨BitmapFrameAllocator.sound_new _ _, by decide +kernel⟩, by decide +kernel, hbefore,
    fun hsame => ?_⟩
  have hfree := (hsame.free (.containingAddress 0x4000)).mpr hbefore
  rw [KernelFrames.IsFree, hafter] at hfree
  cases hfree

end Harlan
