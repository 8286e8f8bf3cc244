import Mathlib.Tactic
import Harlan.Memory.FreeListOps

/-!
Runs of the heap: a region is handed over once, and then blocks are allocated, written to and
given back in any order.

* `HeapRun`: the heap and the blocks somebody has, and one use of it.
* `HeapRun.Sound`: the blocks and the holes tile the region.
* `HeapRun.Sound.step`: every use keeps it, and leaves the bytes of the blocks alone.
* `heap_tiles`: so does every run.
-/

namespace Harlan.Heap

/-- A block somebody has. -/
structure Block where
  addr : ℕ
  layout : Layout

/-- The memory of a block, in whole granules. -/
def Block.extent (block : Block) : Extent := ⟨block.addr, block.layout.rounded⟩

/-- A heap and the blocks that were handed out. -/
structure HeapRun where
  heap : FreeListHeap
  /-- The blocks allocated and not given back. -/
  live : List Block

/-- One use of the heap: the two calls, and a write by somebody who has a block. -/
inductive HeapOp where
  | allocate (layout : Layout)
  | deallocate (which : ℕ)
  | store (addr : ℕ) (byte : UInt8)

/-- One call of the heap. -/
def HeapRun.step (run : HeapRun) : HeapOp → Except Panic HeapRun
  | .allocate layout =>
      match allocate layout run.heap with
      | (.ok (some addr), heap) => .ok ⟨heap, run.live ++ [⟨addr, layout⟩]⟩
      | (.ok none, heap) => .ok { run with heap := heap }
      | (.error panic, _) => .error panic
  | .deallocate which =>
      match run.live[which]? with
      | some block =>
          match deallocate block.addr block.layout run.heap with
          | (.ok (), heap) => .ok ⟨heap, run.live.eraseIdx which⟩
          | (.error panic, _) => .error panic
      | none => .ok run
  | .store addr byte =>
      if ∃ block ∈ run.live, block.extent.Has addr then
        .ok { run with heap := { run.heap with mem := Function.update run.heap.mem addr byte } }
      else .ok run

/-- The calls one after the other, up to a panic. -/
def HeapRun.after (run : HeapRun) (ops : List HeapOp) : Except Panic HeapRun :=
  ops.foldlM HeapRun.step run

/-! ### What a run keeps -/

/-- The blocks and the holes tile the region, and every block is where it may be. -/
structure HeapRun.Sound (run : HeapRun) (holes : List Extent) : Prop where
  region : run.heap.Region
  holds : run.heap.Holds holes
  tiles : Tiles run.heap.start run.heap.endAddr (run.live.map Block.extent ++ holes)
  aligned : ∀ block ∈ run.live, block.addr % block.layout.alignment = 0

/-- A call wrote to no byte of a block that is live after it. -/
def Spares (run run' : HeapRun) : Prop :=
  ∀ block ∈ run'.live, ∀ a, block.extent.Has a → run'.heap.mem a = run.heap.mem a

variable {run : HeapRun} {holes : List Extent}

lemma Block.extent_pos (block : Block) : 0 < block.extent.size := block.layout.rounded_spec.2.1

/-- What is in a hole is in no block. -/
lemma HeapRun.Sound.apart (h : run.Sound holes) {block : Block} (hblock : block ∈ run.live)
    {hole : Extent} (hhole : hole ∈ holes) {a : ℕ} (ha : block.extent.Has a) : ¬hole.Has a := by
  obtain ⟨before, after, hsplit⟩ :=
    List.append_of_mem (List.mem_map_of_mem (f := Block.extent) hblock)
  have htiles := h.tiles
  rw [hsplit, List.append_assoc] at htiles
  exact htiles.not_both (List.mem_append_right _ (List.mem_append_right _ hhole)) ha

/-- A call that changed bytes in holes only spares the blocks. -/
lemma HeapRun.Sound.spares {run' : HeapRun} {holes' : List Extent} (h : run'.Sound holes')
    (hframe : Frame run.heap run'.heap holes') : Spares run run' :=
  fun _ hblock a ha => hframe a fun _ hhole => h.apart hblock hhole ha

lemma tiles_of_same {heap' : FreeListHeap} {extents : List Extent}
    (h : Tiles run.heap.start run.heap.endAddr extents) (hsame : SameRegion run.heap heap') :
    Tiles heap'.start heap'.endAddr extents := by
  rw [hsame.start, hsame.endAddr]
  exact h

lemma sound_allocate (h : run.Sound holes) (layout : Layout) :
    ∃ run' holes', run.step (.allocate layout) = .ok run' ∧ run'.Sound holes'
      ∧ SameRegion run.heap run'.heap ∧ Spares run run' := by
  obtain ⟨answer, heap', hrun, hdone, -⟩ := allocate_spec layout h.region h.holds
  rw [HeapRun.step, hrun]
  cases answer with
  | none =>
      obtain rfl := hdone
      exact ⟨run, holes, rfl, h, ⟨rfl, rfl, rfl⟩, fun _ _ _ _ => rfl⟩
  | some addr =>
      obtain ⟨before, hole, after, rfl, halign, hlow, hhigh, hholds, hsame, hframe⟩ := hdone
      have hsound : HeapRun.Sound ⟨heap', run.live ++ [⟨addr, layout⟩]⟩
          (before ++ (leftOf hole addr layout.rounded ++ after)) := by
        refine ⟨h.region.of_same hsame, hholds,
          tiles_of_same (h.tiles.congr fun a => ?_) hsame, ?_⟩
        · have hcut := covered_leftOf hlow hhigh a
          simp only [List.map_append, List.map_cons, List.map_nil, Block.extent, covered_append,
            covered_cons, covered_nil] at hcut ⊢
          omega
        · intro block hblock
          rcases List.mem_append.mp hblock with hin | hin
          · exact h.aligned block hin
          · rw [List.mem_singleton.mp hin]
            exact halign
      exact ⟨_, _, rfl, hsound, hsame, hsound.spares hframe⟩

lemma sound_deallocate (h : run.Sound holes) (which : ℕ) :
    ∃ run' holes', run.step (.deallocate which) = .ok run' ∧ run'.Sound holes'
      ∧ SameRegion run.heap run'.heap ∧ Spares run run' := by
  rcases hwhich : run.live[which]? with _ | block
  · refine ⟨run, holes, ?_, h, ⟨rfl, rfl, rfl⟩, fun _ _ _ _ => rfl⟩
    rw [HeapRun.step, hwhich]
  · obtain ⟨hlt, hget⟩ := List.getElem?_eq_some_iff.mp hwhich
    have hsplit : run.live = run.live.take which ++ block :: run.live.drop (which + 1) := by
      rw [← hget, List.getElem_cons_drop, List.take_append_drop]
    have hmem : block ∈ run.live := hget ▸ List.getElem_mem hlt
    have hrounded := block.layout.rounded_spec
    have htiles := h.tiles
    rw [hsplit, List.map_append, List.map_cons, List.append_assoc, List.cons_append] at htiles
    have hbounds := h.tiles.bounds
      (List.mem_append_left _ (List.mem_map_of_mem (f := Block.extent) hmem))
      block.extent_pos
    have hfits : run.heap.Fits block.extent := by
      refine ⟨?_, hrounded.1, hrounded.2.1, hbounds.1, hbounds.2⟩
      exact Nat.mod_eq_zero_of_dvd ((Nat.dvd_of_mod_eq_zero block.layout.alignment_whole).trans
        (Nat.dvd_of_mod_eq_zero (h.aligned block hmem)))
    obtain ⟨heap', holes', hfree, hholds, hsame, hframe, hcovered⟩ :=
      deallocate_spec block.layout h.region h.holds hfits fun hole hhole => by
        have := htiles.disjoint (List.mem_append_right _ (List.mem_append_right _ hhole))
          block.extent_pos (h.holds.fits hole hhole).pos
        simp only [Block.extent, Extent.endAddr] at this ⊢
        omega
    have hstep : run.step (.deallocate which)
        = .ok ⟨heap', run.live.take which ++ run.live.drop (which + 1)⟩ := by
      simp only [HeapRun.step, hwhich, hfree, List.eraseIdx_eq_take_drop_succ]
    have hsound : HeapRun.Sound ⟨heap', run.live.take which ++ run.live.drop (which + 1)⟩
        holes' := by
      refine ⟨h.region.of_same hsame, hholds, tiles_of_same (htiles.congr fun a => ?_) hsame, ?_⟩
      · have hmore : covered holes' a = covered (block.extent :: holes) a := hcovered a
        simp only [List.map_append, covered_append, covered_cons] at hmore ⊢
        omega
      · intro other hother
        refine h.aligned other ?_
        rcases List.mem_append.mp hother with hin | hin
        · exact List.mem_of_mem_take hin
        · exact List.mem_of_mem_drop hin
    exact ⟨_, _, hstep, hsound, hsame, hsound.spares hframe⟩

lemma sound_store (h : run.Sound holes) (addr : ℕ) (byte : UInt8) :
    ∃ run', run.step (.store addr byte) = .ok run' ∧ run'.Sound holes
      ∧ SameRegion run.heap run'.heap := by
  rw [HeapRun.step]
  by_cases hin : ∃ block ∈ run.live, block.extent.Has addr
  · rw [if_pos hin]
    obtain ⟨block, hblock, haddr⟩ := hin
    refine ⟨_, rfl, ⟨⟨h.region.1, h.region.2, h.region.3, h.region.4, h.region.5, h.region.6⟩,
      ⟨?_, fun hole hhole => ?_, h.holds.apart, h.holds.free⟩, h.tiles, h.aligned⟩,
      ⟨rfl, rfl, rfl⟩⟩
    · refine h.holds.linked.congr (h.holds.large h.region) fun hole hhole a ha => ?_
      refine Function.update_of_ne (fun heq => ?_) _ _
      exact h.apart hblock hhole haddr (heq ▸ ha)
    · exact (h.holds.fits hole hhole).of_same ⟨rfl, rfl, rfl⟩
  · rw [if_neg hin]
    exact ⟨run, rfl, h, rfl, rfl, rfl⟩

/-- A use of the heap that is one of its calls. -/
def HeapOp.IsCall : HeapOp → Prop
  | .store .. => False
  | _ => True

/-- **Every use keeps the tiling**, stops nowhere, and a call writes to no block. -/
theorem HeapRun.Sound.step (h : run.Sound holes) (op : HeapOp) :
    ∃ run' holes', run.step op = .ok run' ∧ run'.Sound holes' ∧ SameRegion run.heap run'.heap
      ∧ (op.IsCall → Spares run run') := by
  cases op with
  | allocate layout =>
      obtain ⟨run', holes', hstep, hsound, hsame, hspares⟩ := sound_allocate h layout
      exact ⟨run', holes', hstep, hsound, hsame, fun _ => hspares⟩
  | deallocate which =>
      obtain ⟨run', holes', hstep, hsound, hsame, hspares⟩ := sound_deallocate h which
      exact ⟨run', holes', hstep, hsound, hsame, fun _ => hspares⟩
  | store addr byte =>
      obtain ⟨run', hstep, hsound, hsame⟩ := sound_store h addr byte
      exact ⟨run', holes, hstep, hsound, hsame, fun hcall => absurd hcall id⟩

lemma HeapRun.Sound.after (h : run.Sound holes) (ops : List HeapOp) :
    ∃ run' holes', run.after ops = .ok run' ∧ run'.Sound holes'
      ∧ SameRegion run.heap run'.heap := by
  induction ops generalizing run holes with
  | nil => exact ⟨run, holes, rfl, h, rfl, rfl, rfl⟩
  | cons op rest ih =>
      obtain ⟨run₁, holes₁, hstep, hsound, hsame, -⟩ := h.step op
      obtain ⟨run₂, holes₂, hafter, hsound₂, hsame₂⟩ := ih hsound
      refine ⟨run₂, holes₂, ?_, hsound₂, hsame.trans hsame₂⟩
      rw [HeapRun.after, List.foldlM_cons, hstep]
      exact hafter

/-! ### From the start -/

/-- The region wraps around the end of the address space, the start rounded up. -/
def Wraps (start size : ℕ) : Prop :=
  checkedNextMultipleOf start granule = none ∨ checkedAdd start size = none

lemma init_wraps {mem : ByteMemory} {start size : ℕ} (h : Wraps start size) :
    (init start size (.empty mem)).1 = .error .regionWraps := by
  rw [init, Eff.get_bind,
    Eff.bind_ok (assert_ok (show (FreeListHeap.empty mem).base = 0 from rfl))]
  rcases hfirst : checkedNextMultipleOf start granule with _ | first
  · rfl
  · rw [Eff.bind_ok (expect_some _ _), h.resolve_left (by rw [hfirst]; nofun)]
    rfl

/-- What `init` makes of a region. -/
lemma init_spec (mem : ByteMemory) {start size : ℕ} (hstart : 0 < start) (h : ¬Wraps start size) :
    ∃ heap holes, init start size (.empty mem) = (.ok (), heap) ∧ HeapRun.Sound ⟨heap, []⟩ holes
      ∧ start ≤ heap.start ∧ heap.start < start + granule
      ∧ heap.endAddr = max ((start + size) / granule * granule) heap.start := by
  rw [Wraps, not_or, ← ne_eq, ← ne_eq, Option.ne_none_iff_exists',
    Option.ne_none_iff_exists'] at h
  obtain ⟨⟨first, hfirst⟩, last, hlast⟩ := h
  obtain ⟨hlow, hwhole, hhigh⟩ := checkedNextMultipleOf_granule hfirst
  rw [checkedAdd, Option.ite_none_right_eq_some] at hlast
  obtain ⟨hfits, hlast⟩ := hlast
  obtain rfl := Option.some.inj hlast
  have hgranule : granule = 16 := rfl
  set endAddr := max ((start + size) / granule * granule) first with hend
  have hendWhole : endAddr % granule = 0 := by
    rw [hend]
    rw [hgranule] at hwhole ⊢
    omega
  have hfirstTop : first < 2 ^ 64 := by
    rw [checkedNextMultipleOf] at hfirst
    split_ifs at hfirst with hmod
    · obtain rfl := Option.some.inj hfirst
      omega
    · rw [checkedAdd, Option.ite_none_right_eq_some] at hfirst
      obtain rfl := Option.some.inj hfirst.2
      exact hfirst.1
  -- the region, rounded inwards to whole granules
  have hregion : FreeListHeap.Region ⟨mem, start, first, endAddr, 0, 0⟩ := by
    refine ⟨by simp only; omega, by simp only; omega, hwhole, hendWhole, by simp only; omega, ?_⟩
    simp only [hend, hgranule]
    omega
  have hrun : init start size (.empty mem) = (if granule ≤ endAddr - first then do
        writeHole first ⟨endAddr - first, 0⟩
        modify fun heap => { heap with head := first, free := endAddr - first }
      else pure () : HeapM Unit) ⟨mem, start, first, endAddr, 0, 0⟩ := by
    rw [init, Eff.get_bind,
      Eff.bind_ok (assert_ok (show (FreeListHeap.empty mem).base = 0 from rfl)),
      hfirst, Eff.bind_ok (expect_some _ _), checkedAdd, if_pos hfits,
      Eff.bind_ok (expect_some _ _)]
    rfl
  rw [hrun]
  -- one hole that is the whole region, or none
  by_cases hroom : granule ≤ endAddr - first
  · have hhole : FreeListHeap.Fits ⟨mem, start, first, endAddr, 0, 0⟩
        ⟨first, endAddr - first⟩ := by
      refine ⟨hwhole, ?_, ?_, le_refl _, ?_⟩
        <;> simp only [Extent.endAddr, hgranule] at * <;> omega
    obtain ⟨heap, hwrite, hlinked, hsame, -⟩ :=
      @writeHole_spec _ [] _ 0 0 hregion hhole (by decide) rfl (List.forall_mem_nil _)
        (List.forall_mem_nil _)
    refine ⟨{ heap with head := first, free := endAddr - first }, [⟨first, endAddr - first⟩], ?_,
      ⟨hregion.of_same ⟨hsame.1, hsame.2, hsame.3⟩, ⟨hlinked, ?_, by simp, by simp⟩, ?_,
        List.forall_mem_nil _⟩, ?_⟩
    · rw [if_pos hroom, Eff.bind_ok hwrite]
      rfl
    · intro hole hin
      rw [List.mem_singleton.mp hin]
      exact hhole.of_same ⟨hsame.1, hsame.2, hsame.3⟩
    · simp only [List.map_nil, List.nil_append, hsame.start, hsame.endAddr]
      exact Tiles.single (by omega)
    · simp only [hsame.start, hsame.endAddr]
      exact ⟨hlow, hhigh, hend⟩
  · have hnone : endAddr = first := by
      rw [hgranule] at hroom hwhole hendWhole
      omega
    refine ⟨_, [], by rw [if_neg hroom]; rfl,
      ⟨hregion, ⟨rfl, List.forall_mem_nil _, .nil, rfl⟩, ?_, List.forall_mem_nil _⟩, hlow,
      hhigh, hend⟩
    intro a
    simp only [List.map_nil, List.nil_append, covered_nil, hnone]
    grind

/-- **The heap over whole runs.** A region is refused only if it wraps around the address space.
Otherwise, after any use of the heap: the live blocks and the holes tile `[start, end)`; every
block is aligned and large enough; the holes are those of the list in memory, in order, whole
granules and never touching, and their sizes add up to `free`; the check finds nothing wrong; and
no call stops, or writes to a byte of a block. -/
theorem heap_tiles (mem : ByteMemory) {start size : ℕ} (hstart : 0 < start) :
    (Wraps start size → (init start size (.empty mem)).1 = .error .regionWraps)
      ∧ (¬Wraps start size → ∃ heap, init start size (.empty mem) = (.ok (), heap)
        ∧ start ≤ heap.start ∧ heap.start < start + granule
        ∧ heap.endAddr = max ((start + size) / granule * granule) heap.start
        ∧ ∀ ops, ∃ run holes, (⟨heap, []⟩ : HeapRun).after ops = .ok run
          ∧ Tiles heap.start heap.endAddr (run.live.map Block.extent ++ holes)
          ∧ (∀ block ∈ run.live, block.addr % max block.layout.align granule = 0
            ∧ block.layout.size ≤ block.extent.size ∧ block.extent.size % granule = 0)
          ∧ LinkedTo run.heap.mem run.heap.head holes 0
          ∧ holes.Pairwise (fun hole next => hole.endAddr < next.addr)
          ∧ (∀ hole ∈ holes, hole.addr % granule = 0 ∧ hole.size % granule = 0 ∧ 0 < hole.size)
          ∧ run.heap.free = (holes.map (·.size)).sum
          ∧ (∃ stats, check run.heap = (.ok (.ok stats), run.heap))
          ∧ ∀ op, ∃ run', run.step op = .ok run' ∧ (op.IsCall → Spares run run')) := by
  refine ⟨init_wraps, fun hwraps => ?_⟩
  obtain ⟨heap, holes, hinit, hsound, hlow, hhigh, hend⟩ := init_spec mem hstart hwraps
  refine ⟨heap, hinit, hlow, hhigh, hend, fun ops => ?_⟩
  obtain ⟨run, holes', hafter, hkept, hsame⟩ := hsound.after ops
  refine ⟨run, holes', hafter, ?_, fun block hblock => ?_, hkept.holds.linked, hkept.holds.apart,
    fun hole hhole => ?_, hkept.holds.free, ⟨_, check_spec hkept.region hkept.holds⟩,
    fun op => ?_⟩
  · have htiles := hkept.tiles
    rwa [hsame.start, hsame.endAddr] at htiles
  · have hrounded := block.layout.rounded_spec
    exact ⟨hkept.aligned block hblock, hrounded.2.2, hrounded.1⟩
  · have hfits := hkept.holds.fits hole hhole
    exact ⟨hfits.aligned, hfits.whole, hfits.pos⟩
  · obtain ⟨run', -, hstep, -, -, hspares⟩ := hkept.step op
    exact ⟨run', hstep, hspares⟩

theorem heap_tiles_fourGranules :
    0 < 0x1008 ∧ ∃ heap, init 0x1008 72 (.empty fun _ => 0) = (.ok (), heap)
      ∧ heap.endAddr = 0x1050
      ∧ ∀ ops, ∃ run holes, (⟨heap, []⟩ : HeapRun).after ops = .ok run
        ∧ Tiles heap.start heap.endAddr (run.live.map Block.extent ++ holes) := by
  refine ⟨by decide, ?_⟩
  have hfits : ¬Wraps 0x1008 72 := by
    rintro (h | h) <;> cases h
  obtain ⟨heap, hinit, hlow, hhigh, hend, hruns⟩ :=
    (@heap_tiles (fun _ => 0) 0x1008 72 (by decide)).2 hfits
  have hgranule : granule = 16 := rfl
  rw [hgranule] at hhigh hend
  refine ⟨heap, hinit, by omega, fun ops => ?_⟩
  obtain ⟨run, holes, hafter, htiles, -⟩ := hruns ops
  exact ⟨run, holes, hafter, htiles⟩

end Harlan.Heap
