import Harlan.Memory.FrameRuns

/-!
What reclaiming the boot services' memory leaves out.

The bitmap is edited region by region, inside each of the boot services' regions; which frames are
managed is read off the whole map. The two agree except for a frame that lies inside a usable
region and that a region of the boot services reaches into without holding it whole: it is managed
after the reclaim, and nothing clears its bit.

* `Straddled`: such a frame.
* `Complete`: a managed frame whose bit is set is handed out; `Complete.step` keeps it.
* `reclaim_complete_iff`: over all runs, bits and hand-outs agree exactly on maps without one.
-/

namespace Harlan

namespace BitmapFrameAllocator

open Bitmap (bit setBit clearBits)

/-- A frame a usable region holds and the boot services' memory only reaches into, of the frames a
bitmap of so many words covers. -/
def Straddled (words : ℕ) (map : List MemoryRegion) (n : ℕ) : Prop :=
  n ≠ 0 ∧ n < wrap64 (words * 64)
    ∧ (∃ r ∈ map, r.kind = .usable ∧ (inwardFrames r).1 ≤ n ∧ n < (inwardFrames r).2)
    ∧ (∃ r ∈ map, r.kind = .bootServices ∧ (outwardFrames r).1 ≤ n ∧ n < (outwardFrames r).2)
    ∧ (∀ r ∈ map, r.kind = .bootServices → ¬((inwardFrames r).1 ≤ n ∧ n < (inwardFrames r).2))
    ∧ ∀ r ∈ map, r.kind ≠ .usable → r.kind ≠ .bootServices →
        ¬((outwardFrames r).1 ≤ n ∧ n < (outwardFrames r).2)

/-- The bits of covered frames say which are free: managed, and not handed out. So what was never
handed out is not taken back. -/
def Accounted (a : BitmapFrameAllocator) (trace : List Event) : Prop :=
  (∀ frame : PhysFrame, frame.number < a.coveredFrames →
      (bit a.bitmap frame.number = false ↔ a.manages frame = true ∧ ¬Outstanding trace frame))
    ∧ ∀ frame purpose, .handedOut frame ∉ trace →
      ∃ err, (a.deallocateAs frame purpose).1 = .error err

/-! ### The frames that become managed -/

/-- A frame the reclaim makes managed, and whose bit it does not clear. -/
lemma straddled_of_reclaim {a : BitmapFrameAllocator} {n : ℕ}
    (hafter : ({ a with bootServicesReclaimed := true } : BitmapFrameAllocator).Managed n)
    (hbefore : ¬a.Managed n)
    (hout : ∀ r ∈ a.map, r.kind = .bootServices →
      ¬((inwardFrames r).1 ≤ n ∧ n < (inwardFrames r).2)) :
    Straddled a.bitmap.length a.map n := by
  obtain ⟨hzero, hcovered, ⟨r, hr, hkind, hin⟩, hclean⟩ := hafter
  have hother : ∀ r ∈ a.map, r.kind ≠ .usable → r.kind ≠ .bootServices →
      ¬((outwardFrames r).1 ≤ n ∧ n < (outwardFrames r).2) :=
    fun r hr husable hboot => hclean r hr (by simp [allocatable, husable, hboot])
  have husable : r.kind = .usable := by
    by_contra hne
    exact hout r hr (by simpa [allocatable, hne] using hkind) hin
  refine ⟨hzero, hcovered, ⟨r, hr, husable, hin⟩, ?_, hout, hother⟩
  -- what kept it from being managed before is no longer in the way
  by_contra hnone
  refine hbefore ⟨hzero, hcovered, ⟨r, hr, by simp [allocatable, husable], hin⟩,
    fun r' hr' hkind' => ?_⟩
  have hnot : r'.kind ≠ .usable := by
    intro heq
    simp [allocatable, heq] at hkind'
  by_cases hboot : r'.kind = .bootServices
  · exact fun htouch => hnone ⟨r', hr', hboot, htouch⟩
  · exact hother r' hr' hnot hboot

/-- And a straddled frame is one. -/
lemma Straddled.managed {a : BitmapFrameAllocator} {n : ℕ}
    (h : Straddled a.bitmap.length a.map n) :
    ({ a with bootServicesReclaimed := true } : BitmapFrameAllocator).Managed n
      ∧ (a.bootServicesReclaimed = false → ¬a.Managed n) := by
  obtain ⟨hzero, hcovered, ⟨r, hr, husable, hin⟩, ⟨r', hr', hboot, htouch⟩, -, hother⟩ := h
  refine ⟨⟨hzero, hcovered, ⟨r, hr, by simp [allocatable, husable], hin⟩, fun r₀ hr₀ hkind => ?_⟩,
    fun hflag hman => ?_⟩
  · refine hother r₀ hr₀ ?_ ?_
    · intro heq
      simp [allocatable, heq] at hkind
    · intro heq
      simp [allocatable, heq] at hkind
  · exact hman.2.2.2 r' hr' (by rw [hflag, hboot]; rfl) htouch

/-! ### Runs -/

/-- A managed frame whose bit is set is handed out. -/
def Complete (a : BitmapFrameAllocator) (trace : List Event) : Prop :=
  ∀ n, a.Managed n → bit a.bitmap n = true → Outstanding trace (frameOf n)

lemma Outstanding.handedOut {trace : List Event} {frame : PhysFrame} (h : Outstanding trace frame)
    (new : PhysFrame) : Outstanding (trace ++ [.handedOut new]) frame := by
  obtain ⟨before, after, rfl, hkept⟩ := h
  refine ⟨before, after ++ [.handedOut new], by simp, fun hmem => hkept ?_⟩
  simpa using hmem

lemma Outstanding.returned {trace : List Event} {frame old : PhysFrame}
    (h : Outstanding trace frame) (hne : frame ≠ old) :
    Outstanding (trace ++ [.returned old]) frame := by
  obtain ⟨before, after, rfl, hkept⟩ := h
  refine ⟨before, after ++ [.returned old], by simp, fun hmem => hkept ?_⟩
  simpa [hne] using hmem

lemma outstanding_snoc (trace : List Event) (frame : PhysFrame) :
    Outstanding (trace ++ [.handedOut frame]) frame :=
  ⟨trace, [], rfl, List.not_mem_nil⟩

/-- Every step keeps it, on a map with no straddled frame. -/
lemma Complete.step {map : List MemoryRegion} {a a' : BitmapFrameAllocator}
    {trace events : List Event} {op : Op} (h : Complete a trace) (ht : Tracked map a trace)
    (hclean : ∀ n, ¬Straddled a.bitmap.length map n) (hstep : a.step op = some (a', events)) :
    Complete a' (trace ++ events) := by
  have h64 : 0 < 64 := by norm_num
  intro m hman hbit
  rcases step_cases ht.sound hstep with ⟨n, hclear, rfl, hsame, hmap, -⟩
    | ⟨frame, hset, hheld, rfl, hsame, hmap, -⟩ | ⟨rfl, hflag, rfl⟩ | ⟨rfl, hsame, hmap, -⟩
  · rw [hsame.managed] at hman
    by_cases hmn : m = n
    · rw [hmn]
      exact outstanding_snoc trace _
    · refine (h m hman ?_).handedOut _
      rw [hmap, Bitmap.bit_setBit h64 (ht.sound.clear_managed n hclear).lt_length] at hbit
      simpa [hmn] using hbit
  · rw [hsame.managed] at hman
    rw [hmap, Bitmap.bit_setBit h64 hheld.lt_length] at hbit
    have hmn : m ≠ frame.number := by
      rintro rfl
      simp at hbit
    refine (h m hman (by simpa [hmn] using hbit)).returned fun heq => hmn ?_
    rw [← heq, number_frameOf hman.lt]
  · obtain ⟨words, added, heq, hlen, -, hall⟩ := reclaim_spec a hflag
    rw [heq] at hman hbit
    rw [List.append_nil]
    have hkept : bit words m ≠ false := by
      rw [hbit]
      decide
    rw [Ne, hall, not_or, not_and'] at hkept
    have hafter : ({ a with bootServicesReclaimed := true } : BitmapFrameAllocator).Managed m :=
      (managed_reclaimed hlen).mp hman
    by_cases hbefore : a.Managed m
    · exact h m hbefore (by simpa using hkept.1)
    · refine absurd ?_ (hclean m)
      rw [← ht.map_eq]
      exact straddled_of_reclaim hafter hbefore fun r hr hkind hin =>
        hkept.2 hafter ⟨r, hr, hkind, hin⟩
  · rw [List.append_nil]
    rw [hsame.managed] at hman
    exact h m hman (by rwa [hmap] at hbit)

lemma Run.length_eq {storage : List (BitVec 64)} {map : List MemoryRegion}
    {a : BitmapFrameAllocator} {trace : List Event} (h : Run storage map a trace) :
    a.bitmap.length = storage.length := by
  induction h with
  | new => exact length_new storage map
  | step op hrun hstep ih =>
      rcases step_cases hrun.tracked.sound hstep with ⟨n, -, -, hsame, -⟩
        | ⟨frame, -, -, -, hsame, -⟩
        | ⟨-, hflag, rfl⟩ | ⟨-, hsame, -⟩
      · exact hsame.length_eq.trans ih
      · exact hsame.length_eq.trans ih
      · obtain ⟨words, added, heq, hlen, -⟩ := reclaim_spec _ hflag
        rw [heq]
        exact hlen.trans ih
      · exact hsame.length_eq.trans ih

lemma Run.complete {storage : List (BitVec 64)} {map : List MemoryRegion}
    {a : BitmapFrameAllocator} {trace : List Event}
    (hclean : ∀ n, ¬Straddled storage.length map n) (h : Run storage map a trace) :
    Complete a trace := by
  induction h with
  | new =>
      intro n hman hbit
      rw [(bit_new storage map n).mpr hman] at hbit
      cases hbit
  | step op hrun hstep ih =>
      refine ih.step hrun.tracked (fun n => ?_) hstep
      rw [hrun.length_eq]
      exact hclean n

/-- What the invariants of a run say of the bits. -/
lemma Complete.accounted {map : List MemoryRegion} {a : BitmapFrameAllocator} {trace : List Event}
    (h : Complete a trace) (ht : Tracked map a trace) : Accounted a trace := by
  refine ⟨fun frame _ => ?_, fun frame purpose hnever => ?_⟩
  · rw [manages_iff]
    constructor
    · intro hclear
      refine ⟨ht.sound.clear_managed _ hclear, fun hout => ?_⟩
      rw [(ht.held frame hout).1] at hclear
      cases hclear
    · rintro ⟨hman, hkept⟩
      by_contra hset
      have hout := h frame.number hman (by simpa using hset)
      rw [show frameOf frame.number = frame from
        PhysFrame.ext_number (number_frameOf hman.lt)] at hout
      exact hkept hout
  · rcases deallocateAs_cases a frame purpose with ⟨err, heq⟩ | ⟨hman, hset, -, -⟩
    · exact ⟨err, by rw [heq]⟩
    · obtain ⟨before, after, rfl, -⟩ := h frame.number hman hset
      rw [show frameOf frame.number = frame from
        PhysFrame.ext_number (number_frameOf hman.lt)] at hnever
      exact absurd (List.mem_append_right _ List.mem_cons_self) hnever

/-- **Bits and hand-outs agree after every run, on exactly the maps without a straddled frame**: a
covered frame's bit is clear if and only if the frame is managed and not handed out, and a frame
that was never handed out is not taken back. -/
theorem reclaim_complete_iff (storage : List (BitVec 64)) (map : List MemoryRegion) :
    (∀ a trace, Run storage map a trace → Accounted a trace)
      ↔ ∀ n, ¬Straddled storage.length map n := by
  refine ⟨fun hall n hstraddled => ?_, fun hclean a trace hrun =>
    (hrun.complete hclean).accounted hrun.tracked⟩
  -- reclaiming at once leaves the bit of the straddled frame set
  rw [← length_new storage map] at hstraddled
  obtain ⟨hafter, hbefore⟩ := hstraddled.managed
  have hflag : (new storage map).bootServicesReclaimed = false := rfl
  obtain ⟨words, added, heq, hlen, -, hbits⟩ := reclaim_spec (new storage map) hflag
  have hrun : Run storage map (new storage map).reclaimBootServices.2 ([] ++ []) :=
    Run.step .reclaimBootServices Run.new rfl
  have hnumber := number_frameOf hafter.lt
  have haccounted := (hall _ _ hrun).1 (frameOf n)
  rw [heq, manages_iff, hnumber] at haccounted
  have hman : ({ new storage map with
      bitmap := words, bootServicesReclaimed := true, free := (new storage map).free + added } :
        BitmapFrameAllocator).Managed n :=
    (managed_reclaimed hlen).mpr hafter
  have hout : ¬Outstanding ([] ++ []) (frameOf n) := by
    rintro ⟨before, after, hsplit, -⟩
    simp at hsplit
  have hclear := (haccounted hman.2.1).mpr ⟨hman, hout⟩
  rcases (hbits n).mp hclear with hold | ⟨⟨r, hr, hkind, hin⟩, -⟩
  · exact hbefore hflag ((bit_new storage map n).mp hold)
  · exact hstraddled.2.2.2.2.1 r hr hkind hin

/-- Four usable pages from 0x1000 on, and one page of the boot services at 0x2800: after the
reclaim frame 2 is managed and not handed out, its bit is set, and it is taken back. -/
theorem reclaim_leaves_straddled :
    let map : List MemoryRegion := [⟨0x1000, 4, .usable⟩, ⟨0x2800, 1, .bootServices⟩]
    let a := (new [0] map).reclaimBootServices.2
    Run [0] map a [] ∧ ¬Accounted a [] ∧ a.manages (frameOf 2) = true ∧ bit a.bitmap 2 = true
      ∧ (a.deallocateAs (frameOf 2) .boot).1 = .ok () := by
  intro map a
  have hrun : Run [0] map a ([] ++ []) := Run.step .reclaimBootServices Run.new rfl
  have hfreed : (a.deallocateAs (frameOf 2) .boot).1 = .ok () := by decide +kernel
  refine ⟨hrun, fun h => ?_, by decide +kernel, by decide +kernel, hfreed⟩
  obtain ⟨err, herr⟩ := h.2 (frameOf 2) .boot List.not_mem_nil
  rw [hfreed] at herr
  cases herr

end BitmapFrameAllocator

end Harlan
