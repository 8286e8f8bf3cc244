import Mathlib.Tactic
import Harlan.Arch.PageEdits
import Harlan.Memory.FrameRuns
import Harlan.Memory.StackFrames

/-!
The kernel's frames (`kernel/src/memory/zeroed_frames.rs`): the bitmap allocator, zeroing each
frame on its way out.

Beside the allocator, `KernelFrames` keeps a record the code does not have: whom each frame was
last handed out to, and of each frame that came back, who held it at that moment. The
operations write that record and never read it.

* `KernelFrames.Grows`: what asking for frames does to them, and to the record.
* `KernelFrames.TookBack`: what giving one back does.
* `KernelFrames.fresh`, `KernelFrames.taken_free`: what is handed out was free.
-/

namespace Harlan

open Paging (FrameSource)
open Bitmap (bit)

/-! ### The kernel's frames -/

/-- On whose behalf a frame is handed out. -/
inductive Client where
  | process (id : ℕ)
  | other
deriving DecidableEq

/-- The bitmap allocator, zeroing on the way out. -/
structure KernelFrames where
  inner : BitmapFrameAllocator
  /-- Record: whom what is handed out now is for. -/
  client : Client
  /-- Record: whom a frame, by its start, was handed out to and has not come back from. -/
  holder : ℕ → Option Client
  /-- Record: the frames that came back, oldest first, with who held each at that moment. -/
  returned : List (PhysFrame × Option Client)
  /-- Record: a debug assertion failed, and the kernel, a dev build, stopped there. -/
  stopped : Bool

namespace KernelFrames

/-- Hands out a frame, recording what it is for. -/
def allocateFor (purpose : FramePurpose) (kf : KernelFrames) : Option PhysFrame × KernelFrames :=
  match kf.inner.allocateFor purpose with
  | (some frame, inner) =>
      (some frame,
        { kf with inner, holder := Function.update kf.holder frame.start (some kf.client) })
  | (none, inner) => (none, { kf with inner })

/-- The frames as a source: each zeroed on its way out. -/
def source (purpose : FramePurpose) : FrameSource KernelFrames := ⟨allocateFor purpose, true⟩

/-- Gives a frame back, checking it is what the caller thinks it is; whether it was. -/
def deallocateAs (kf : KernelFrames) (frame : PhysFrame) (purpose : FramePurpose) :
    Bool × KernelFrames :=
  match kf.inner.deallocateAs frame purpose with
  | (.ok (), inner) =>
      (true,
        { kf with
          inner
          holder := Function.update kf.holder frame.start none
          returned := kf.returned ++ [(frame, kf.holder frame.start)] })
  | (.error _, inner) => (false, { kf with inner })

/-- A debug assertion. -/
def debugAssert (kf : KernelFrames) (holds : Bool) : KernelFrames :=
  { kf with stopped := kf.stopped || !holds }

/-- Gives back a frame of a stack, which the caller is sure is taken. -/
def returnStackFrame (kf : KernelFrames) (frame : PhysFrame) : KernelFrames :=
  let (returned, kf) := kf.deallocateAs frame .stack
  kf.debugAssert returned

end KernelFrames

/-! ### What the kernel's frames hand out -/

namespace KernelFrames

/-- A frame that may be handed out next. -/
def IsFree (kf : KernelFrames) (frame : PhysFrame) : Prop :=
  Bitmap.bit kf.inner.bitmap frame.number = false

/-- The allocator is sound, and covers no address above the 52 bits an entry holds. -/
structure Ready (kf : KernelFrames) : Prop where
  sound : kf.inner.Sound
  small : kf.inner.coveredFrames ≤ 2 ^ 40

/-- `kf'` is `kf` after some frames were handed out. -/
structure Grows (kf kf' : KernelFrames) : Prop where
  ready : kf'.Ready
  client : kf'.client = kf.client
  returned : kf'.returned = kf.returned
  stopped : kf'.stopped = kf.stopped
  /-- What is held for a stack stays so. -/
  stack : ∀ frame, Stacks.Held kf.inner frame → Stacks.Held kf'.inner frame
  supply : Stacks.Supply kf.inner → Stacks.Supply kf'.inner
  free : ∀ frame, kf'.IsFree frame → kf.IsFree frame
  /-- What was handed out is held by the client. -/
  new : ∀ frame, kf.IsFree frame → ¬kf'.IsFree frame → kf'.holder frame.start = some kf.client
  old : ∀ n, (∀ frame, kf.IsFree frame → ¬kf'.IsFree frame → frame.start ≠ n) →
    kf'.holder n = kf.holder n

lemma Grows.refl {kf : KernelFrames} (h : kf.Ready) : kf.Grows kf :=
  ⟨h, rfl, rfl, rfl, fun _ h => h, id, fun _ h => h, fun _ h h' => absurd h h', fun _ _ => rfl⟩

lemma Grows.trans {kf kf' kf'' : KernelFrames} (h : kf.Grows kf') (h' : kf'.Grows kf'') :
    kf.Grows kf'' := by
  refine ⟨h'.ready, h'.client.trans h.client, h'.returned.trans h.returned,
    h'.stopped.trans h.stopped, fun frame hf => h'.stack frame (h.stack frame hf),
    fun hs => h'.supply (h.supply hs), fun frame hf => h.free frame (h'.free frame hf),
    fun frame hf hf'' => ?_, fun n hn => ?_⟩
  · by_cases hf' : kf'.IsFree frame
    · rw [h'.new frame hf' hf'', h.client]
    · rw [h'.old, h.new frame hf hf']
      rintro other hother - heq
      have hsame : other.number = frame.number := by rw [PhysFrame.number, PhysFrame.number, heq]
      rw [IsFree, hsame] at hother
      exact hf' hother
  · rw [h'.old, h.old]
    · exact fun frame hf hf' => hn frame hf fun hf'' => hf' (h'.free frame hf'')
    · exact fun frame hf' hf'' => hn frame (h.free frame hf') hf''

/-- What asking for one frame does. -/
lemma allocateFor_cases {kf : KernelFrames} (h : kf.Ready) (purpose : FramePurpose) :
    allocateFor purpose kf = (none, kf)
      ∨ ∃ frame kf', allocateFor purpose kf = (some frame, kf') ∧ kf.Grows kf' ∧ kf.IsFree frame
          ∧ frame.start < 2 ^ 52 ∧ ∀ other, kf'.IsFree other
            ↔ kf.IsFree other ∧ other ≠ frame := by
  obtain ⟨n, hsome, hlt, hclear, hmarks⟩ | heq :=
    BitmapFrameAllocator.allocateFor_marks h.sound purpose
  · right
    have hnum := BitmapFrameAllocator.number_frameOf hlt
    obtain ⟨frame, hframe⟩ : ∃ frame, frame = BitmapFrameAllocator.frameOf n := ⟨_, rfl⟩
    rw [← hframe] at hsome hnum
    have hinner : kf.inner.allocateFor purpose
        = (some frame, (kf.inner.allocateFor purpose).2) := Prod.ext hsome rfl
    have hfree : kf.IsFree frame := by rwa [IsFree, hnum]
    -- of all the bits only that of the frame is another
    have hother : ∀ other : PhysFrame,
        bit (kf.inner.allocateFor purpose).2.bitmap other.number = false
          ↔ kf.IsFree other ∧ other ≠ frame := by
      intro other
      rw [hmarks.bits, IsFree]
      by_cases hn : other.number = n
      · have hsame : other = frame := PhysFrame.ext_number (hn.trans hnum.symm)
        rw [if_pos hn]
        simp [hsame]
      · have hne : other ≠ frame := by
          rintro rfl
          exact hn hnum
        rw [if_neg hn]
        simp [hne]
    refine ⟨frame,
      { kf with
        inner := (kf.inner.allocateFor purpose).2
        holder := Function.update kf.holder frame.start (some kf.client) },
      by rw [allocateFor, hinner],
      ⟨⟨hmarks.sound, ?_⟩, rfl, rfl, rfl, fun other hheld => hheld.mark hmarks ?_,
        fun hs => Stacks.supply_mark hs hmarks, fun other hf => ((hother other).mp hf).1, ?_, ?_⟩,
      hfree, ?_, hother⟩
    · have hsame := hmarks.same.length_eq
      rw [BitmapFrameAllocator.coveredFrames, hsame]
      exact h.small
    · rintro rfl
      rw [hheld.set] at hclear
      cases hclear
    · intro other hf hf'
      obtain rfl : other = frame := by
        by_contra hne
        exact hf' ((hother other).mpr ⟨hf, hne⟩)
      exact Function.update_self _ _ _
    · intro m hm
      refine Function.update_of_ne ?_ _ _
      rintro rfl
      exact hm frame hfree (fun hf => ((hother _).mp hf).2 rfl) rfl
    · have hcov := hmarks.managed.2.1
      have hsmall := h.small
      rw [PhysFrame.start_eq, hnum]
      omega
  · left
    rw [allocateFor, heq]

/-- A frame handed out for a stack is held for one. -/
lemma allocateFor_stack {kf kf' : KernelFrames} {frame : PhysFrame} (h : Stacks.Supply kf.inner)
    (htake : allocateFor .stack kf = (some frame, kf')) : Stacks.Held kf'.inner frame := by
  obtain ⟨n, hsome, hlt, -, hmarks⟩ | heq :=
    BitmapFrameAllocator.allocateFor_marks h.sound .stack
  · have hinner : kf.inner.allocateFor .stack = (some (BitmapFrameAllocator.frameOf n),
        (kf.inner.allocateFor .stack).2) := Prod.ext hsome rfl
    rw [allocateFor, hinner] at htake
    obtain ⟨hframe, rfl⟩ := Prod.mk.inj htake
    obtain rfl := Option.some.inj hframe
    exact Stacks.held_of_mark h (by rwa [BitmapFrameAllocator.number_frameOf hlt])
  · rw [allocateFor, heq] at htake
    cases htake

/-- What giving a frame back does: nothing, or clear its bit and write it down. -/
structure TookBack (kf : KernelFrames) (frame : PhysFrame) (kf' : KernelFrames) : Prop where
  ready : kf'.Ready
  held : ¬kf.IsFree frame
  free : ∀ other, kf'.IsFree other ↔ kf.IsFree other ∨ other = frame
  client : kf'.client = kf.client
  holder : kf'.holder = Function.update kf.holder frame.start none
  returned : kf'.returned = kf.returned ++ [(frame, kf.holder frame.start)]
  stopped : kf'.stopped = kf.stopped
  /-- What else is held for a stack stays so. -/
  stack : ∀ other, other ≠ frame → Stacks.Held kf.inner other → Stacks.Held kf'.inner other
  supply : Stacks.Supply kf.inner → Stacks.Supply kf'.inner

lemma deallocateAs_cases {kf : KernelFrames} (h : kf.Ready) (frame : PhysFrame)
    (purpose : FramePurpose) :
    kf.deallocateAs frame purpose = (false, kf)
      ∨ (kf.inner.purposes = none ∨ kf.inner.purposeOf frame = some purpose)
        ∧ ∃ kf', kf.deallocateAs frame purpose = (true, kf') ∧ kf.TookBack frame kf' := by
  obtain ⟨err, heq⟩ | ⟨hman, hbit, hpurpose, heq⟩ :=
    BitmapFrameAllocator.deallocateAs_cases kf.inner frame purpose
  · left
    rw [deallocateAs, heq]
  · have hmarks : BitmapFrameAllocator.Marks kf.inner (kf.inner.deallocateAs frame purpose).2
        frame.number none := by
      rw [heq]
      exact ⟨⟨rfl, rfl, by simp⟩, @BitmapFrameAllocator.TakesBack.sound _ _ [.returned frame]
        h.sound ⟨frame, hbit, hman, rfl, ⟨rfl, rfl, by simp⟩, rfl, rfl⟩, hman,
        fun m => Bitmap.bit_setBit (by norm_num) hman.lt_length _ _, rfl⟩
    have hres : kf.deallocateAs frame purpose = (true, { kf with
        inner := (kf.inner.deallocateAs frame purpose).2
        holder := Function.update kf.holder frame.start none
        returned := kf.returned ++ [(frame, kf.holder frame.start)] }) := by
      rw [deallocateAs, heq]
    rw [heq] at hres hmarks
    refine .inr ⟨hpurpose, _, hres, ⟨⟨hmarks.sound, ?_⟩, ?_, fun other => ?_, rfl, rfl, rfl, rfl,
      fun other hne hheld => hheld.mark hmarks ?_, fun hs => Stacks.supply_mark hs hmarks⟩⟩
    · simpa [BitmapFrameAllocator.coveredFrames] using h.small
    · simp [IsFree, hbit]
    · simp only [IsFree, Bitmap.bit_setBit (by norm_num) hman.lt_length]
      by_cases hn : other.number = frame.number
      · simp [PhysFrame.ext_number hn]
      · have hne : other ≠ frame := by
          rintro rfl
          exact hn rfl
        simp [hn, hne]
    · exact fun hn => hne (PhysFrame.ext_number hn)

/-- What is held for a stack is taken back. -/
lemma deallocateAs_stack {kf : KernelFrames} {frame : PhysFrame} (h : Stacks.Held kf.inner frame)
    (hs : Stacks.Supply kf.inner) : (kf.deallocateAs frame .stack).1 = true := by
  obtain ⟨inner, heq, -⟩ := h.deallocateAs hs
  rw [deallocateAs, heq]

lemma source_take (purpose : FramePurpose) (kf : KernelFrames) :
    (source purpose).take kf = allocateFor purpose kf := rfl

/-- A frame that was handed out. -/
lemma source_took {kf kf' : KernelFrames} {purpose : FramePurpose} {frame : PhysFrame}
    (h : kf.Ready) (htake : (source purpose).take kf = (some frame, kf')) :
    kf.Grows kf' ∧ kf.IsFree frame ∧ frame.start < 2 ^ 52
      ∧ ∀ other, kf'.IsFree other ↔ kf.IsFree other ∧ other ≠ frame := by
  obtain hnone | ⟨frame', kf'', hsome, htook⟩ := allocateFor_cases h purpose
  · rw [source_take, hnone] at htake
    cases htake
  · rw [source_take, hsome] at htake
    obtain ⟨hframe, rfl⟩ := Prod.mk.inj htake
    obtain rfl := Option.some.inj hframe
    exact htook

/-- Nothing the kernel's frames hand out is among what is not free. -/
lemma fresh {kf : KernelFrames} (h : kf.Ready) (purpose : FramePurpose) {avoid : Set ℕ}
    (havoid : ∀ frame, kf.IsFree frame → frame.start ∉ avoid) (k : ℕ) :
    (source purpose).Fresh k avoid kf := by
  induction k generalizing kf avoid with
  | zero => trivial
  | succ k ih =>
      intro frame kf' htake
      obtain ⟨hgrows, hfree, hlt, hother⟩ := source_took h htake
      refine ⟨hlt, havoid _ hfree, ih hgrows.ready fun other hf hmem => ?_⟩
      obtain ⟨hf, hne⟩ := (hother other).mp hf
      obtain heq | hmem := hmem
      · refine hne (PhysFrame.ext_number ?_)
        rw [PhysFrame.number, PhysFrame.number, heq]
      · exact havoid other hf hmem

lemma later_grows {kf kf' : KernelFrames} {purpose : FramePurpose} (h : kf.Ready)
    (hlater : (source purpose).Later kf kf') : kf.Grows kf' := by
  induction hlater with
  | refl => exact .refl h
  | tail _ hstep ih =>
      obtain ⟨frame, htake⟩ := hstep
      obtain hnone | ⟨frame', kf'', hsome, hgrows, -⟩ := allocateFor_cases ih.ready purpose
      · rw [source_take, hnone] at htake
        obtain ⟨-, rfl⟩ := Prod.mk.inj htake
        exact ih
      · rw [source_take, hsome] at htake
        obtain ⟨-, rfl⟩ := Prod.mk.inj htake
        exact ih.trans hgrows

/-- Whatever was taken on the way was free before and is not after. -/
lemma taken_free {kf kf' : KernelFrames} {purpose : FramePurpose} (h : kf.Ready) {n : ℕ}
    (hn : n ∈ (source purpose).taken kf kf') :
    ∃ frame, frame.start = n ∧ kf.IsFree frame ∧ ¬kf'.IsFree frame := by
  obtain ⟨frame, kf₁, kf₂, hbefore, htake, hafter, rfl⟩ := hn
  have hgrows₁ := later_grows h hbefore
  obtain ⟨hgrows, hfree, -, hother⟩ := source_took hgrows₁.ready htake
  refine ⟨frame, rfl, hgrows₁.free _ hfree, fun hf => ?_⟩
  exact ((hother frame).mp ((later_grows hgrows.ready hafter).free _ hf)).2 rfl

end KernelFrames

end Harlan
