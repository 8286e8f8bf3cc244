import Harlan.Memory.FrameAllocator

/-!
The frame allocator over whole runs: any sequence of operations after `new`, with the
frames handed out and given back recorded as they go.

* `Op`, `step`: one operation and what a caller sees of it, a list of at most one `Event`.
* `step_cases`: the four things a step can do (hand out a frame whose bit was clear, take
  back a held one, reclaim the boot services' memory, or leave the bitmap alone).
* `Tracked`: the invariant of a run, preserved by every step (`Tracked.step`) and hence by
  every run (`Run.tracked`): the allocator is sound, and a frame handed out and not given
  back since has its bit set and is managed, which is what keeps the reclaim off it.
* `frameAllocator_safe`: what follows for every run.
-/

namespace Harlan

namespace BitmapFrameAllocator

open Bitmap (bit setBit clearBits)

/-- What a caller of the allocator sees. -/
inductive Event where
  | handedOut (frame : PhysFrame)
  | returned (frame : PhysFrame)
deriving DecidableEq

/-- The operations of the allocator. `adopt` is the move to a copy of the bitmap, over the
same map and with the same flag. -/
inductive Op where
  | allocate
  | allocateFor (purpose : FramePurpose)
  | allocateFrame
  | deallocateAs (frame : PhysFrame) (purpose : FramePurpose)
  | label (frame : PhysFrame) (purpose : FramePurpose)
  | withPurposes (table : List UInt8)
  | reclaimBootServices
  | adopt

/-- One operation; `none` where the source panics. -/
def step (a : BitmapFrameAllocator) : Op → Option (BitmapFrameAllocator × List Event)
  | .allocate => some (a.allocate.2, a.allocate.1.toList.map .handedOut)
  | .allocateFor purpose =>
      some ((a.allocateFor purpose).2, (a.allocateFor purpose).1.toList.map .handedOut)
  | .allocateFrame => some (a.allocateFrame.2, a.allocateFrame.1.toList.map .handedOut)
  | .deallocateAs frame purpose =>
      match a.deallocateAs frame purpose with
      | (.ok (), a') => some (a', [.returned frame])
      | (.error _, a') => some (a', [])
  | .label frame purpose => some ((a.label frame purpose).2, [])
  | .withPurposes table => (a.withPurposes table).map fun a' => (a', [])
  | .reclaimBootServices => some (a.reclaimBootServices.2, [])
  | .adopt => some (.adopt a.bitmap a.map a.bootServicesReclaimed, [])

/-- A run over `storage` and `map`: what has been handed out and given back, oldest
first. -/
inductive Run (storage : List (BitVec 64)) (map : List MemoryRegion) :
    BitmapFrameAllocator → List Event → Prop
  | new : Run storage map (.new storage map) []
  | step {a a' : BitmapFrameAllocator} {trace events : List Event} (op : Op) :
      Run storage map a trace → a.step op = some (a', events) →
        Run storage map a' (trace ++ events)

/-! ### What a step can do -/

/-- Two allocators over the same map, with the same flag and a bitmap of the same size. -/
structure SameMap (a a' : BitmapFrameAllocator) : Prop where
  map_eq : a'.map = a.map
  flag_eq : a'.bootServicesReclaimed = a.bootServicesReclaimed
  length_eq : a'.bitmap.length = a.bitmap.length

lemma SameMap.managed {a a' : BitmapFrameAllocator} (h : SameMap a a') {n : ℕ} :
    a'.Managed n ↔ a.Managed n :=
  Managed.congr h.map_eq h.flag_eq h.length_eq

/-- The step hands out the frame of a clear bit. -/
def HandsOut (a a' : BitmapFrameAllocator) (events : List Event) : Prop :=
  ∃ n, bit a.bitmap n = false ∧ events = [.handedOut (frameOf n)] ∧ SameMap a a'
    ∧ a'.bitmap = setBit a.bitmap n true ∧ a'.free + 1 = a.free

/-- The step takes back a managed frame whose bit was set. -/
def TakesBack (a a' : BitmapFrameAllocator) (events : List Event) : Prop :=
  ∃ frame, bit a.bitmap frame.number = true ∧ a.Managed frame.number
    ∧ events = [.returned frame] ∧ SameMap a a'
    ∧ a'.bitmap = setBit a.bitmap frame.number false ∧ a'.free = a.free + 1

/-- The step reclaims the boot services' memory for the first time. -/
def Reclaims (a a' : BitmapFrameAllocator) (events : List Event) : Prop :=
  events = [] ∧ a.bootServicesReclaimed = false ∧ a.reclaimBootServices.2 = a'

/-- The step leaves map, bitmap and counter alone. -/
def LeavesAlone (a a' : BitmapFrameAllocator) (events : List Event) : Prop :=
  events = [] ∧ SameMap a a' ∧ a'.bitmap = a.bitmap ∧ a'.free = a.free

lemma LeavesAlone.refl (a : BitmapFrameAllocator) : LeavesAlone a a [] :=
  ⟨rfl, ⟨rfl, rfl, rfl⟩, rfl, rfl⟩

/-- Handing out the frame of a clear bit keeps the counter and the bitmap in step. -/
lemma HandsOut.sound {a a' : BitmapFrameAllocator} {events : List Event} (hs : Sound a)
    (h : HandsOut a a' events) : Sound a' := by
  obtain ⟨n, hbit, -, hsame, hmap, hfree⟩ := h
  refine ⟨?_, fun m hm => ?_⟩
  · have := Bitmap.clearBits_setBit_true (by norm_num) hbit
    have := hs.free_eq
    rw [hmap]
    omega
  · rw [hmap, Bitmap.bit_setBit (by norm_num) (hs.clear_managed n hbit).lt_length] at hm
    rw [hsame.managed]
    by_cases hmn : m = n
    · simp [hmn] at hm
    · exact hs.clear_managed m (by simpa [hmn] using hm)

/-- So does taking back a managed frame whose bit was set. -/
lemma TakesBack.sound {a a' : BitmapFrameAllocator} {events : List Event} (hs : Sound a)
    (h : TakesBack a a' events) : Sound a' := by
  obtain ⟨frame, hbit, hman, -, hsame, hmap, hfree⟩ := h
  refine ⟨?_, fun m hm => ?_⟩
  · rw [hmap, Bitmap.clearBits_setBit_false (by norm_num) hman.lt_length hbit, hfree, hs.free_eq]
  · rw [hmap, Bitmap.bit_setBit (by norm_num) hman.lt_length] at hm
    rw [hsame.managed]
    by_cases hmn : m = frame.number
    · exact hmn ▸ hman
    · exact hs.clear_managed m (by simpa [hmn] using hm)

lemma allocate_cases {a : BitmapFrameAllocator} (h : Sound a) :
    HandsOut a a.allocate.2 (a.allocate.1.toList.map .handedOut)
      ∨ LeavesAlone a a.allocate.2 (a.allocate.1.toList.map .handedOut) := by
  rcases allocate_spec h with ⟨-, heq⟩ | ⟨n, hbit, hfree, heq⟩
  · rw [heq]
    exact Or.inr (LeavesAlone.refl a)
  · rw [heq]
    refine Or.inl ⟨n, hbit, rfl, ⟨rfl, rfl, by simp⟩, rfl, ?_⟩
    simp only
    omega

/-- Recording a purpose touches nothing a run is about. -/
lemma allocateFor_cases {a : BitmapFrameAllocator} (h : Sound a) (purpose : FramePurpose) :
    HandsOut a (a.allocateFor purpose).2 ((a.allocateFor purpose).1.toList.map .handedOut)
      ∨ LeavesAlone a (a.allocateFor purpose).2
          ((a.allocateFor purpose).1.toList.map .handedOut) := by
  rcases allocate_spec h with ⟨-, heq⟩ | ⟨n, hbit, hfree, heq⟩
  · rw [allocateFor, heq]
    exact Or.inr (LeavesAlone.refl a)
  · rw [allocateFor, heq]
    refine Or.inl ⟨n, hbit, rfl, ⟨rfl, rfl, by simp [setPurpose]⟩, rfl, ?_⟩
    simp only [setPurpose]
    omega

/-- **What a step can do**: hand out a frame, take one back, reclaim, or leave the bitmap
alone. -/
lemma step_cases {a a' : BitmapFrameAllocator} {op : Op} {events : List Event} (hs : Sound a)
    (h : a.step op = some (a', events)) :
    HandsOut a a' events ∨ TakesBack a a' events ∨ Reclaims a a' events
      ∨ LeavesAlone a a' events := by
  cases op with
  | allocate =>
      obtain ⟨rfl, rfl⟩ := Prod.mk.inj (Option.some.inj h)
      exact (allocate_cases hs).imp_right fun h => Or.inr (Or.inr h)
  | allocateFor purpose =>
      obtain ⟨rfl, rfl⟩ := Prod.mk.inj (Option.some.inj h)
      exact (allocateFor_cases hs purpose).imp_right fun h => Or.inr (Or.inr h)
  | allocateFrame =>
      obtain ⟨rfl, rfl⟩ := Prod.mk.inj (Option.some.inj h)
      exact (allocateFor_cases hs .pageTable).imp_right fun h => Or.inr (Or.inr h)
  | deallocateAs frame purpose =>
      rcases deallocateAs_cases a frame purpose with ⟨e, heq⟩ | ⟨hman, hbit, -, heq⟩
      · rw [step, heq] at h
        obtain ⟨rfl, rfl⟩ := Prod.mk.inj (Option.some.inj h)
        exact Or.inr (Or.inr (Or.inr (LeavesAlone.refl a)))
      · rw [step, heq] at h
        obtain ⟨rfl, rfl⟩ := Prod.mk.inj (Option.some.inj h)
        exact Or.inr (Or.inl ⟨frame, hbit, hman, rfl, ⟨rfl, rfl, by simp⟩, rfl, rfl⟩)
  | label frame purpose =>
      obtain ⟨rfl, rfl⟩ := Prod.mk.inj (Option.some.inj h)
      refine Or.inr (Or.inr (Or.inr ?_))
      rw [label]
      split
      · exact ⟨rfl, ⟨rfl, rfl, rfl⟩, rfl, rfl⟩
      · exact LeavesAlone.refl a
  | withPurposes table =>
      rw [step, withPurposes] at h
      split at h
      · simp at h
      · obtain ⟨rfl, rfl⟩ := Prod.mk.inj (Option.some.inj h)
        exact Or.inr (Or.inr (Or.inr ⟨rfl, ⟨rfl, rfl, rfl⟩, rfl, rfl⟩))
  | reclaimBootServices =>
      obtain ⟨rfl, rfl⟩ := Prod.mk.inj (Option.some.inj h)
      cases hflag : a.bootServicesReclaimed with
      | false => exact Or.inr (Or.inr (Or.inl ⟨rfl, hflag, rfl⟩))
      | true =>
          refine Or.inr (Or.inr (Or.inr ?_))
          rw [reclaimBootServices, hflag, if_pos rfl]
          exact LeavesAlone.refl a
  | adopt =>
      obtain ⟨rfl, rfl⟩ := Prod.mk.inj (Option.some.inj h)
      refine Or.inr (Or.inr (Or.inr ⟨rfl, ⟨rfl, rfl, rfl⟩, rfl, ?_⟩))
      exact (sound_adopt hs).free_eq.trans hs.free_eq.symm

/-! ### The invariant of a run -/

/-- `frame` has been handed out and not given back since. -/
def Outstanding (trace : List Event) (frame : PhysFrame) : Prop :=
  ∃ before after, trace = before ++ .handedOut frame :: after ∧ .returned frame ∉ after

/-- Between two times a frame is handed out, it has been given back. -/
def HandedOutOnce (trace : List Event) : Prop :=
  ∀ frame before between after,
    trace = before ++ .handedOut frame :: (between ++ .handedOut frame :: after) →
      .returned frame ∈ between

/-- The invariant of a run. -/
structure Tracked (map : List MemoryRegion) (a : BitmapFrameAllocator) (trace : List Event) :
    Prop where
  map_eq : a.map = map
  sound : Sound a
  held : ∀ frame, Outstanding trace frame →
    bit a.bitmap frame.number = true ∧ a.Managed frame.number
  once : HandedOutOnce trace

/-- Where an event of a trace grown by one is: at the end, or among the earlier ones. -/
lemma snoc_eq_split {trace before after : List Event} {last event : Event}
    (h : trace ++ [last] = before ++ event :: after) :
    (after = [] ∧ event = last ∧ trace = before)
      ∨ ∃ after', after = after' ++ [last] ∧ trace = before ++ event :: after' := by
  rcases List.eq_nil_or_concat after with rfl | ⟨after', x, rfl⟩
  · obtain ⟨htrace, hlast⟩ := List.append_inj' h rfl
    exact Or.inl ⟨rfl, (List.cons.inj hlast).1.symm, htrace⟩
  · rw [List.concat_eq_append, ← List.cons_append, ← List.append_assoc] at h
    obtain ⟨htrace, hlast⟩ := List.append_inj' h rfl
    obtain rfl := (List.cons.inj hlast).1
    exact Or.inr ⟨after', List.concat_eq_append, htrace⟩

lemma outstanding_handedOut {trace : List Event} {frame new : PhysFrame}
    (h : Outstanding (trace ++ [.handedOut new]) frame) :
    frame = new ∨ Outstanding trace frame := by
  obtain ⟨before, after, heq, hret⟩ := h
  rcases snoc_eq_split heq with ⟨-, hlast, -⟩ | ⟨after', rfl, htrace⟩
  · exact Or.inl (Event.handedOut.inj hlast)
  · exact Or.inr ⟨before, after', htrace, fun hmem => hret (List.mem_append_left _ hmem)⟩

lemma outstanding_returned {trace : List Event} {frame old : PhysFrame}
    (h : Outstanding (trace ++ [.returned old]) frame) :
    frame ≠ old ∧ Outstanding trace frame := by
  obtain ⟨before, after, heq, hret⟩ := h
  rcases snoc_eq_split heq with ⟨-, hlast, -⟩ | ⟨after', rfl, htrace⟩
  · exact Event.noConfusion hlast
  · refine ⟨?_, before, after', htrace, fun hmem => hret (List.mem_append_left _ hmem)⟩
    rintro rfl
    exact hret (List.mem_append_right _ (List.mem_singleton_self _))

/-- A trace stays one where nothing is handed out twice as long as what is handed out was
not outstanding. -/
lemma HandedOutOnce.snoc {trace : List Event} {last : Event} (h : HandedOutOnce trace)
    (hlast : ∀ frame, last = .handedOut frame → ¬Outstanding trace frame) :
    HandedOutOnce (trace ++ [last]) := by
  intro frame before between after heq
  rw [← List.cons_append, ← List.append_assoc] at heq
  rcases snoc_eq_split heq with ⟨-, hframe, htrace⟩ | ⟨after', rfl, htrace⟩
  · by_contra hmem
    exact hlast frame hframe.symm ⟨before, between, htrace, hmem⟩
  · rw [List.append_assoc, List.cons_append] at htrace
    exact h frame before between after' htrace

/-- The frame of a clear bit is not outstanding, and it is the bit's own frame. -/
lemma Tracked.frameOf_clear {map : List MemoryRegion} {a : BitmapFrameAllocator}
    {trace : List Event} (h : Tracked map a trace) {n : ℕ} (hbit : bit a.bitmap n = false) :
    (frameOf n).number = n ∧ ¬Outstanding trace (frameOf n) := by
  have hnum := number_frameOf (h.sound.clear_managed n hbit).lt
  refine ⟨hnum, fun hout => ?_⟩
  have hset := (h.held _ hout).1
  rw [hnum, hbit] at hset
  exact Bool.noConfusion hset

/-- Every step preserves the invariant. -/
lemma Tracked.step {map : List MemoryRegion} {a a' : BitmapFrameAllocator}
    {trace events : List Event} {op : Op} (h : Tracked map a trace)
    (hstep : a.step op = some (a', events)) : Tracked map a' (trace ++ events) := by
  have h64 : 0 < 64 := by norm_num
  rcases step_cases h.sound hstep with ⟨n, hbit, rfl, hsame, hmap, hfree⟩
    | ⟨frame, hbit, hman, rfl, hsame, hmap, hfree⟩ | ⟨rfl, hflag, rfl⟩ | ⟨rfl, hsame, hmap, hfree⟩
  · -- a frame is handed out: its bit was clear, so it was not outstanding
    have hman := h.sound.clear_managed n hbit
    obtain ⟨hnum, hout⟩ := h.frameOf_clear hbit
    have hset := Bitmap.bit_setBit h64 hman.lt_length
    refine ⟨hsame.map_eq.trans h.map_eq,
      HandsOut.sound h.sound ⟨n, hbit, rfl, hsame, hmap, hfree⟩, fun frame hf => ?_,
      h.once.snoc ?_⟩
    · rw [hmap, hset, hsame.managed]
      rcases outstanding_handedOut hf with rfl | hold
      · exact ⟨by simp [hnum], hnum.symm ▸ hman⟩
      · exact ⟨by simp [(h.held frame hold).1], (h.held frame hold).2⟩
    · intro frame hframe
      exact Event.handedOut.inj hframe ▸ hout
  · -- a frame comes back: no other bit moves
    have hset := Bitmap.bit_setBit h64 hman.lt_length
    refine ⟨hsame.map_eq.trans h.map_eq,
      TakesBack.sound h.sound ⟨frame, hbit, hman, rfl, hsame, hmap, hfree⟩, fun other hf => ?_,
      h.once.snoc fun _ hevent => Event.noConfusion hevent⟩
    · obtain ⟨hne, hold⟩ := outstanding_returned hf
      rw [hmap, hset, hsame.managed]
      have hnum : other.number ≠ frame.number := fun hn => hne (PhysFrame.ext_number hn)
      simpa [hnum] using h.held other hold
  · -- the reclaim: what it clears was not managed before, so it was not outstanding
    have hsound := h.sound.reclaim hflag
    obtain ⟨words, added, heq, hlen, -, hall⟩ := reclaim_spec a hflag
    rw [heq] at hsound
    rw [heq, List.append_nil]
    refine ⟨h.map_eq, hsound, fun frame hf => ?_, h.once⟩
    · obtain ⟨hset, hman⟩ := h.held frame hf
      rw [managed_reclaimed hlen]
      refine ⟨?_, hman.of_reclaim⟩
      by_contra hbit
      rw [Bool.not_eq_true, hall] at hbit
      rcases hbit with hold | ⟨⟨r, hr, hkind, hin⟩, -⟩
      · rw [hset] at hold
        exact Bool.noConfusion hold
      · exact hman.not_bootServices hflag hr hkind hin
  · rw [List.append_nil]
    refine ⟨hsame.map_eq.trans h.map_eq, ⟨?_, fun m hm => ?_⟩, fun frame hf => ?_, h.once⟩
    · rw [hmap, hfree, h.sound.free_eq]
    · rw [hmap] at hm
      rw [hsame.managed]
      exact h.sound.clear_managed m hm
    · rw [hmap, hsame.managed]
      exact h.held frame hf

/-- Every run keeps the invariant. -/
lemma Run.tracked {storage : List (BitVec 64)} {map : List MemoryRegion}
    {a : BitmapFrameAllocator} {trace : List Event} (h : Run storage map a trace) :
    Tracked map a trace := by
  induction h with
  | new =>
      refine ⟨rfl, sound_new storage map, ?_, ?_⟩
      · rintro frame ⟨before, after, heq, -⟩
        simp at heq
      · intro frame before between after heq
        simp at heq
  | step op _ hstep ih => exact ih.step hstep

/-- A frame that a step hands out is one whose bit was clear. -/
lemma Tracked.managed_of_handedOut {map : List MemoryRegion} {a a' : BitmapFrameAllocator}
    {trace events : List Event} {op : Op} (h : Tracked map a trace)
    (hstep : a.step op = some (a', events)) {frame : PhysFrame}
    (hmem : .handedOut frame ∈ events) : a.Managed frame.number := by
  rcases step_cases h.sound hstep with ⟨n, hbit, rfl, -⟩ | ⟨_, -, -, rfl, -⟩ | ⟨rfl, -⟩ | ⟨rfl, -⟩
  · obtain rfl : frame = frameOf n := by simpa using hmem
    rw [(h.frameOf_clear hbit).1]
    exact h.sound.clear_managed n hbit
  · simp at hmem
  · simp at hmem
  · simp at hmem

/-- **The frame allocator over whole runs.** After any operations on any map and bitmap: no
frame is handed out twice without having been given back in between; whatever the next
operation hands out is not frame 0, is covered, lies wholly inside an allocatable region and
is touched by no region that is not allocatable then; `free` counts the clear bits;
`allocate` fails exactly when it is zero; and a refused deallocation changes nothing. -/
theorem frameAllocator_safe (storage : List (BitVec 64)) (map : List MemoryRegion)
    {a : BitmapFrameAllocator} {trace : List Event} (h : Run storage map a trace) :
    HandedOutOnce trace
      ∧ (∀ op a' events frame, a.step op = some (a', events) → .handedOut frame ∈ events →
          frame.number ≠ 0 ∧ frame.number < a.coveredFrames
          ∧ (∃ r ∈ map, allocatable a.bootServicesReclaimed r.kind = true ∧ r.Holds frame)
          ∧ ∀ r ∈ map, allocatable a.bootServicesReclaimed r.kind = false → ¬r.Touches frame)
      ∧ a.free = clearBits a.bitmap
      ∧ (a.allocate.1 = none ↔ a.free = 0)
      ∧ ∀ frame purpose e a', a.deallocateAs frame purpose = (.error e, a') → a' = a := by
  have ht := h.tracked
  refine ⟨ht.once, fun op a' events frame hstep hmem => ?_, ht.sound.free_eq, ?_,
    fun frame purpose e a' herr => deallocateAs_error herr⟩
  · have hman := ht.managed_of_handedOut hstep hmem
    refine ⟨hman.1, hman.2.1, ?_, fun r hr hkind => ?_⟩
    · rw [← ht.map_eq]
      exact inside_of_managed hman
    · exact untouched_of_managed hman (ht.map_eq ▸ hr) hkind
  · rcases allocate_spec ht.sound with ⟨hfree, heq⟩ | ⟨n, -, hfree, heq⟩
    · simp [heq, hfree]
    · simp only [heq, reduceCtorEq, false_iff]
      omega

/-- Eight usable pages and one allocation: frame 1 is handed out and six are left. -/
theorem frameAllocator_safe_eightPages :
    let a := (new [0] [⟨0, 8, .usable⟩]).allocate.2
    Run [0] [⟨0, 8, .usable⟩] a [.handedOut (frameOf 1)] ∧ a.free = 6
      ∧ HandedOutOnce [.handedOut (frameOf 1)] ∧ a.free = clearBits a.bitmap := by
  have hrun : Run [0] [⟨0, 8, .usable⟩] (new [0] [⟨0, 8, .usable⟩]).allocate.2
      [.handedOut (frameOf 1)] :=
    Run.step .allocate Run.new (by decide +kernel)
  obtain ⟨honce, -, hfree, -⟩ := frameAllocator_safe [0] [⟨0, 8, .usable⟩] hrun
  exact ⟨hrun, by decide +kernel, honce, hfree⟩

end BitmapFrameAllocator

end Harlan
