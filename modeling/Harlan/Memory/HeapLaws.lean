import Mathlib.Tactic
import Harlan.Memory.HeapRuns

/-!
Laws of the heap over whole runs.

* `allocate_firstFit`: **a block is refused only if no hole has room for it**, and otherwise is as
  low as it can be.
* `holes_of_live`: **the list of holes is told by the blocks that are live**, whatever was done
  before.
* `deallocate_panics_iff`: **what is not a block, or overlaps a hole, is not taken back**, and
  nothing is different after. -/

namespace Harlan.Heap

variable {run : HeapRun} {heap : FreeListHeap} {holes : List Extent}

/-! ### States that are reached -/

/-- What the calls lead to: the heap before it has a region, or with one and after any use. -/
def HeapRun.Reached (run : HeapRun) : Prop :=
  (∃ mem, run = ⟨.empty mem, []⟩)
    ∨ ∃ mem start size heap ops, 0 < start ∧ init start size (.empty mem) = (.ok (), heap)
      ∧ (⟨heap, []⟩ : HeapRun).after ops = .ok run

/-- A region that was taken does not wrap. -/
lemma not_wraps_of_init {mem : ByteMemory} {start size : ℕ}
    (h : init start size (.empty mem) = (.ok (), heap)) :
    ¬Wraps start size := by
  intro hwraps
  have hrefused := @init_wraps mem start size hwraps
  rw [h] at hrefused
  cases hrefused

/-- A run from a fresh region tiles it. -/
lemma sound_of_init {mem : ByteMemory} {start size : ℕ} {ops : List HeapOp} (hstart : 0 < start)
    (hinit : init start size (.empty mem) = (.ok (), heap))
    (hafter : (⟨heap, []⟩ : HeapRun).after ops = .ok run) :
    ∃ holes, run.Sound holes ∧ SameRegion heap run.heap := by
  obtain ⟨heap', holes, hinit', hsound, -⟩ := init_spec mem hstart (not_wraps_of_init hinit)
  obtain rfl : heap = heap' := (Prod.mk.inj (hinit.symm.trans hinit')).2
  obtain ⟨run', holes', hafter', hsound', hsame⟩ := hsound.after ops
  obtain rfl : run = run' := Except.ok.inj (hafter.symm.trans hafter')
  exact ⟨holes', hsound', hsame⟩

lemma HeapRun.Reached.cases (h : run.Reached) : (∃ mem, run = ⟨.empty mem, []⟩) ∨ ∃ holes,
      run.Sound holes := by
  rcases h with hempty | ⟨mem, start, size, heap, ops, hstart, hinit, hafter⟩
  · exact .inl hempty
  · obtain ⟨holes, hsound, -⟩ := sound_of_init hstart hinit hafter
    exact .inr ⟨holes, hsound⟩

lemma holds_empty (mem : ByteMemory) : (FreeListHeap.empty mem).Holds [] :=
  ⟨rfl, nofun, .nil, rfl⟩

/-! ### First fit -/

/-- An address of a hole where the block of a layout may start, with the bytes it takes behind
it. -/
def Room (layout : Layout) (hole : Extent) (p : ℕ) : Prop :=
  p % max layout.align granule = 0 ∧ hole.addr ≤ p ∧ ∃ size ∈ blockSize layout,
    p + size ≤ hole.endAddr

lemma room_iff {layout : Layout} {hole : Extent} {p : ℕ} :
    Room layout hole p
      ↔ p % layout.alignment = 0 ∧ hole.addr ≤ p ∧ p + layout.rounded ≤ hole.endAddr := by
  rw [Room, blockSize_eq, Layout.alignment]
  refine and_congr_right fun _ => and_congr_right fun _ => ⟨?_, fun h => ⟨_, rfl, h⟩⟩
  rintro ⟨size, hsize, h⟩
  rwa [← Option.some.inj hsize] at h

lemma Layout.alignment_pos (layout : Layout) : 0 < layout.alignment :=
  lt_of_lt_of_le layout.align_pos (le_max_left _ _)

/-- A hole has room where one finds a place in it, and the place is the lowest. -/
lemma Room.startIn {layout : Layout} {hole : Extent} {p : ℕ} (h : Room layout hole p)
    (hregion : heap.Region) (hfits : heap.Fits hole) :
    ∃ block, startIn layout.rounded layout.alignment hole = some block ∧ block ≤ p := by
  obtain ⟨halign, hlow, hhigh⟩ := room_iff.mp h
  exact startIn_of_room layout.alignment_pos
    (lt_of_le_of_lt hfits.high hregion.end_lt) halign hlow hhigh

lemma room_of_startIn {layout : Layout} {hole : Extent} {block : ℕ}
    (h : startIn layout.rounded layout.alignment hole = some block) : Room layout hole block := by
  rw [startIn, Option.map_eq_some_iff] at h
  obtain ⟨⟨start, last⟩, hplace, rfl⟩ := h
  obtain ⟨hlow, halign, rfl, hhigh⟩ := placeIn_eq_some layout.alignment_pos hplace
  exact room_iff.mpr ⟨halign, hlow, hhigh⟩

lemma findSome?_startIn_none (hregion : heap.Region) (h : heap.Holds holes) (layout : Layout) :
    holes.findSome? (startIn layout.rounded layout.alignment) = none
      ↔ ∀ hole ∈ holes, ∀ p, ¬Room layout hole p := by
  rw [List.findSome?_eq_none_iff]
  refine forall₂_congr fun hole hhole => ⟨fun hnone p hroom => ?_, fun hnone => ?_⟩
  · obtain ⟨block, hblock, -⟩ := hroom.startIn hregion (h.fits hole hhole)
    rw [hnone] at hblock
    cases hblock
  · rw [Option.eq_none_iff_forall_ne_some]
    exact fun block hblock => hnone block (room_of_startIn hblock)

lemma findSome?_startIn_some (hregion : heap.Region) (h : heap.Holds holes)
    {layout : Layout} {block : ℕ}
    (hfound : holes.findSome? (startIn layout.rounded layout.alignment) = some block) :
    ∃ hole ∈ holes, Room layout hole block ∧ (∀ p, Room layout hole p → block ≤ p)
      ∧ ∀ other ∈ holes, (∃ p, Room layout other p) → hole.addr ≤ other.addr := by
  obtain ⟨before, hole, after, rfl, hblock, hnone⟩ := List.findSome?_eq_some_iff.mp hfound
  refine ⟨hole, by simp, room_of_startIn hblock, fun p hroom => ?_,
    fun other hother ⟨p, hroom⟩ => ?_⟩
  · obtain ⟨block', hblock', hle⟩ := hroom.startIn hregion (h.fits hole (by simp))
    rw [hblock] at hblock'
    rwa [Option.some.inj hblock']
  · obtain ⟨block', hblock', -⟩ := hroom.startIn hregion (h.fits other hother)
    rcases List.mem_append.mp hother with hbefore | hafter
    · rw [hnone other hbefore] at hblock'
      cases hblock'
    · rcases List.mem_cons.mp hafter with rfl | hafter
      · exact le_refl _
      · have hsep := List.rel_of_pairwise_cons (List.pairwise_append.mp h.apart).2.1 hafter
        rw [Extent.endAddr] at hsep
        omega

/-- **First fit is complete, and failing has no effect.** In every state that is reached, with the
holes there are, `allocate` answers nothing exactly when no hole has room for the block, and then
head, count and every byte are as they were; otherwise the block is at the lowest address with
room of the lowest hole that has any. -/
theorem allocate_firstFit (h : run.Reached) (layout : Layout) :
    ∃ holes answer heap', run.heap.Holds holes ∧ allocate layout run.heap = (.ok answer, heap')
      ∧ (answer = none ↔ ∀ hole ∈ holes, ∀ p, ¬Room layout hole p)
      ∧ (answer = none → heap' = run.heap)
      ∧ ∀ block, answer = some block → ∃ hole ∈ holes, Room layout hole block
        ∧ (∀ p, Room layout hole p → block ≤ p)
        ∧ ∀ other ∈ holes, (∃ p, Room layout other p) → hole.addr ≤ other.addr := by
  rcases h.cases with ⟨mem, rfl⟩ | ⟨holes, hsound⟩
  · have hnone : allocate layout (.empty mem) = (.ok none, .empty mem) := by
      rw [allocate, blockSize_eq]
      rfl
    exact ⟨[], none, _, holds_empty mem, hnone, ⟨fun _ => List.forall_mem_nil _, fun _ => rfl⟩,
      fun _ => rfl, by simp⟩
  · obtain ⟨answer, heap', hrun, hdone, hanswer⟩ :=
      allocate_spec layout hsound.region hsound.holds
    refine ⟨holes, answer, heap', hsound.holds, hrun, ?_, ?_, ?_⟩
    · rw [hanswer]
      exact findSome?_startIn_none hsound.region hsound.holds layout
    · rintro rfl
      exact hdone
    · rintro block rfl
      exact findSome?_startIn_some hsound.region hsound.holds hanswer.symm

/-- One byte, on a boundary of 32. -/
def wideByte : Layout := ⟨1, 32, ⟨5, rfl⟩, by decide⟩

/-- In a hole that begins between two such boundaries. -/
theorem allocate_firstFit_wideByte :
    HeapRun.Reached ⟨(init 0x1010 64 (.empty fun _ => 0)).2, []⟩
      ∧ ∃ holes, (init 0x1010 64 (.empty fun _ => 0)).2.Holds holes ∧ ∃ hole ∈ holes,
        Room wideByte hole 0x1020 ∧ ∀ p, Room wideByte hole p → 0x1020 ≤ p := by
  have hreached : HeapRun.Reached ⟨(init 0x1010 64 (.empty fun _ => 0)).2, []⟩ :=
    .inr ⟨_, 0x1010, 64, _, [], by decide, Prod.ext rfl rfl, rfl⟩
  have hanswer : (allocate wideByte (init 0x1010 64 (.empty fun _ => 0)).2).1
      = .ok (some 0x1020) := rfl
  obtain ⟨holes, answer, heap', hholds, hrun, -, -, hlowest⟩ :=
    allocate_firstFit hreached wideByte
  rw [hrun] at hanswer
  obtain ⟨hole, hhole, hroom, hleast, -⟩ := hlowest 0x1020 (Except.ok.inj hanswer)
  exact ⟨hreached, holes, hholds, hole, hhole, hroom, hleast⟩

/-! ### What is live tells what is free -/

lemma LinkedTo.unique {mem : ByteMemory} {first : ℕ} {holes' : List Extent}
    (h : LinkedTo mem first holes 0) (h' : LinkedTo mem first holes' 0)
    (hpos : ∀ hole ∈ holes, 0 < hole.addr) (hpos' : ∀ hole ∈ holes', 0 < hole.addr) :
    holes = holes' := by
  induction holes generalizing first holes' with
  | nil =>
      cases holes' with
      | nil => rfl
      | cons hole rest =>
          have hzero : first = 0 := h
          have haddr := hpos' hole List.mem_cons_self
          have hfirst := h'.1
          omega
  | cons hole rest ih =>
      have haddr := hpos hole List.mem_cons_self
      obtain ⟨rfl, hsize, hrest⟩ := h
      cases holes' with
      | nil =>
          have hzero : hole.addr = 0 := h'
          omega
      | cons hole' rest' =>
          obtain ⟨hfirst, hsize', hrest'⟩ := h'
          obtain rfl : hole = hole' := by
            obtain ⟨addr, size⟩ := hole
            obtain ⟨addr', size'⟩ := hole'
            rw [Extent.mk.injEq]
            exact ⟨hfirst, hsize.symm.trans hsize'⟩
          rw [ih hrest hrest' (fun other hother => hpos other (List.mem_cons_of_mem _ hother))
            fun other hother => hpos' other (List.mem_cons_of_mem _ hother)]

/-- The list of holes in memory is this one and no other. -/
def FreeListHeap.ListIs (heap : FreeListHeap) (holes : List Extent) : Prop :=
  heap.Holds holes ∧ ∀ other, heap.Holds other → other = holes

lemma FreeListHeap.Holds.listIs (h : heap.Holds holes) (hregion : heap.Region) :
    heap.ListIs holes := by
  have hpos : ∀ {list : List Extent}, heap.Holds list → ∀ hole ∈ list, 0 < hole.addr :=
    fun hlist hole hhole =>
    ((hlist.fits hole hhole).bounds hregion).2.1
  exact ⟨h, fun other hother => hother.linked.unique h.linked (hpos hother) (hpos h)⟩

/-- No two live blocks begin at one address. -/
lemma HeapRun.Sound.nodup_addr (h : run.Sound holes) :
    ((run.live.map Block.extent).map Extent.addr).Nodup := by
  refine nodup_addr_of_covered_le (fun a => ?_) fun extent hextent => ?_
  · have hat := h.tiles a
    rw [covered_append] at hat
    split_ifs at hat <;> omega
  · obtain ⟨block, -, rfl⟩ := List.mem_map.mp hextent
    exact block.extent_pos

/-- What holes cover is told by what they tile a region with. -/
lemma holes_unique {lo hi : ℕ} {heap' : FreeListHeap} {live live' holes' : List Extent}
    (htiles : Tiles lo hi (live ++ holes)) (htiles' : Tiles lo hi (live' ++ holes'))
    (hlive : ∀ a, covered live a = covered live' a) (h : heap.Holds holes)
    (h' : heap'.Holds holes') :
    holes = holes' := by
  refine eq_of_covered h.apart h'.apart (fun hole hhole => (h.fits hole hhole).pos)
    (fun hole hhole => (h'.fits hole hhole).pos) fun a => ?_
  have hat := (htiles a).trans (htiles' a).symm
  rw [covered_append, covered_append, hlive] at hat
  omega

/-- Two states of one region with the same live extents have the same holes. -/
lemma HeapRun.Sound.same_holes {run' : HeapRun} {holes' : List Extent} (h : run.Sound holes)
    (h' : run'.Sound holes') (hstart : run.heap.start = run'.heap.start)
    (hend : run.heap.endAddr = run'.heap.endAddr)
    (hlive : ∀ extent, extent ∈ run.live.map Block.extent ↔ extent ∈ run'.live.map Block.extent) :
    holes = holes' := by
  have hperm : (run.live.map Block.extent).Perm (run'.live.map Block.extent) :=
    (List.perm_ext_iff_of_nodup (List.Nodup.of_map _ h.nodup_addr)
      (List.Nodup.of_map _ h'.nodup_addr)).mpr hlive
  have htiles := h.tiles
  rw [hstart, hend] at htiles
  exact holes_unique htiles h'.tiles (fun a => hperm.countP_eq _) h.holds h'.holds

/-- One region is one region. -/
lemma init_bounds {mem mem' : ByteMemory} {start size : ℕ} {heap' : FreeListHeap}
    (hstart : 0 < start) (h : init start size (.empty mem) = (.ok (), heap))
    (h' : init start size (.empty mem') = (.ok (), heap')) :
    heap.start = heap'.start ∧ heap.endAddr = heap'.endAddr := by
  obtain ⟨heap₁, _, hinit, hsound, hlow, hhigh, hend⟩ :=
    init_spec mem hstart (not_wraps_of_init h)
  obtain ⟨heap₂, _, hinit', hsound', hlow', hhigh', hend'⟩ :=
    init_spec mem' hstart (not_wraps_of_init h')
  obtain rfl : heap = heap₁ := (Prod.mk.inj (h.symm.trans hinit)).2
  obtain rfl : heap' = heap₂ := (Prod.mk.inj (h'.symm.trans hinit')).2
  have hwhole := hsound.region.start_whole
  have hwhole' := hsound'.region.start_whole
  rw [granule] at hwhole hwhole' hhigh hhigh'
  have hsame : heap.start = heap'.start := by
    simp only at hwhole hwhole'
    omega
  exact ⟨hsame, by rw [hend, hend', hsame]⟩

/-! ### Freeing -/

/-- Gives back the blocks that begin at some addresses, one after the other. -/
def HeapRun.freeing (run : HeapRun) (addrs : List ℕ) : Except Panic HeapRun :=
  addrs.foldlM (fun run addr => run.step (.deallocate (run.live.findIdx (·.addr == addr)))) run

lemma live_deallocate {run' : HeapRun} {which : ℕ} (h : run.step (.deallocate which) = .ok run') :
    run'.live = run.live.eraseIdx which := by
  rcases hwhich : run.live[which]? with _ | block
  · simp only [HeapRun.step, hwhich] at h
    rw [← Except.ok.inj h, List.eraseIdx_of_length_le (List.getElem?_eq_none_iff.mp hwhich)]
  · rcases hfree : deallocate block.addr block.layout run.heap with ⟨_ | _, heap'⟩
    · simp only [HeapRun.step, hwhich, hfree] at h
      cases h
    · simp only [HeapRun.step, hwhich, hfree] at h
      rw [← Except.ok.inj h]

/-- Where addresses are not repeated, taking one out is taking all of it out. -/
lemma eraseIdx_findIdx_addr {live : List Block} (h : (live.map Block.addr).Nodup) (addr : ℕ) :
    live.eraseIdx (live.findIdx (·.addr == addr)) = live.filter (·.addr != addr) := by
  induction live with
  | nil => rfl
  | cons block rest ih =>
      rw [List.map_cons, List.nodup_cons] at h
      rw [List.findIdx_cons]
      by_cases hfirst : block.addr = addr
      · have hothers : rest.filter (·.addr != addr) = rest := by
          refine List.filter_eq_self.mpr fun other hother => ?_
          rw [bne_iff_ne]
          rintro hsame
          exact h.1 (List.mem_map.mpr ⟨other, hother, hsame.trans hfirst.symm⟩)
        simp [hfirst, hothers]
      · rw [beq_false_of_ne hfirst, cond_false, List.eraseIdx_cons_succ, ih h.2,
          List.filter_cons_of_pos (by simpa using hfirst)]

/-- What is live after freeing is the rest. -/
lemma HeapRun.Sound.freeing (h : run.Sound holes) (addrs : List ℕ) :
    ∃ run' holes', run.freeing addrs = .ok run' ∧ run'.Sound holes'
      ∧ SameRegion run.heap run'.heap
      ∧ ∀ block, block ∈ run'.live ↔ block ∈ run.live ∧ block.addr ∉ addrs := by
  induction addrs generalizing run holes with
  | nil => exact ⟨run, holes, rfl, h, ⟨rfl, rfl, rfl⟩, fun block => by simp⟩
  | cons addr addrs ih =>
      obtain ⟨run₁, holes₁, hstep, hsound, hsame, -⟩ :=
        h.step (.deallocate (run.live.findIdx (·.addr == addr)))
      obtain ⟨run₂, holes₂, hrest, hsound₂, hsame₂, hlive₂⟩ := ih hsound
      have hnodup : (run.live.map Block.addr).Nodup := by
        have := h.nodup_addr
        rwa [List.map_map] at this
      refine ⟨run₂, holes₂, ?_, hsound₂, hsame.trans hsame₂, fun block => ?_⟩
      · rw [HeapRun.freeing, List.foldlM_cons, hstep]
        exact hrest
      · rw [hlive₂, live_deallocate hstep, eraseIdx_findIdx_addr hnodup,
          List.mem_filter, bne_iff_ne, List.mem_cons, not_or, and_assoc]

/-- **The list of holes is a function of what is live.** Two runs over one region that end with
the same live extents end with the same holes, at the same addresses with the same sizes and in
the same order, and the same count; so do two orders of freeing the same blocks; and freeing
everything leaves one hole, the whole of the heap. -/
theorem holes_of_live {mem₁ mem₂ : ByteMemory} {start size : ℕ} {heap₁ heap₂ : FreeListHeap}
    {ops₁ ops₂ : List HeapOp} {run₁ run₂ : HeapRun} (hstart : 0 < start)
    (hinit₁ : init start size (.empty mem₁) = (.ok (), heap₁))
    (hinit₂ : init start size (.empty mem₂) = (.ok (), heap₂))
    (hrun₁ : (⟨heap₁, []⟩ : HeapRun).after ops₁ = .ok run₁)
    (hrun₂ : (⟨heap₂, []⟩ : HeapRun).after ops₂ = .ok run₂) :
    ((∀ extent, extent ∈ run₁.live.map Block.extent ↔ extent ∈ run₂.live.map Block.extent) →
        run₁.heap.free = run₂.heap.free ∧ ∃ holes, run₁.heap.ListIs holes
          ∧ run₂.heap.ListIs holes)
      ∧ (∀ addrs addrs' : List ℕ, addrs.Perm addrs' → ∃ run run' holes,
        run₁.freeing addrs = .ok run
        ∧ run₁.freeing addrs' = .ok run' ∧ run.heap.free = run'.heap.free
        ∧ run.heap.ListIs holes ∧ run'.heap.ListIs holes)
      ∧ ∀ addrs, (∀ block ∈ run₁.live, block.addr ∈ addrs) → ∃ run, run₁.freeing addrs = .ok run
        ∧ run.live = [] ∧ run.heap.ListIs (piece heap₁.start heap₁.endAddr) := by
  obtain ⟨holes₁, hsound₁, hsame₁⟩ := sound_of_init hstart hinit₁ hrun₁
  obtain ⟨holes₂, hsound₂, hsame₂⟩ := sound_of_init hstart hinit₂ hrun₂
  obtain ⟨hbounds, hbounds'⟩ := init_bounds hstart hinit₁ hinit₂
  refine ⟨fun hlive => ?_, fun addrs addrs' hperm => ?_, fun addrs hall => ?_⟩
  · obtain rfl := hsound₁.same_holes hsound₂ (by rw [hsame₁.start, hsame₂.start, hbounds])
      (by rw [hsame₁.endAddr, hsame₂.endAddr, hbounds']) hlive
    exact ⟨hsound₁.holds.free.trans hsound₂.holds.free.symm, holes₁,
      hsound₁.holds.listIs hsound₁.region, hsound₂.holds.listIs hsound₂.region⟩
  · obtain ⟨run, holes, hfreed, hsound, hsame, hlive⟩ := hsound₁.freeing addrs
    obtain ⟨run', holes', hfreed', hsound', hsame', hlive'⟩ := hsound₁.freeing addrs'
    have hblocks : ∀ block, block ∈ run.live ↔ block ∈ run'.live := fun block => by
      rw [hlive, hlive', hperm.mem_iff]
    obtain rfl := hsound.same_holes hsound' (by rw [hsame.start, hsame'.start])
      (by rw [hsame.endAddr, hsame'.endAddr]) fun extent => by simp only [List.mem_map, hblocks]
    exact ⟨run, run', holes, hfreed, hfreed', hsound.holds.free.trans hsound'.holds.free.symm,
      hsound.holds.listIs hsound.region, hsound'.holds.listIs hsound'.region⟩
  · obtain ⟨run, holes, hfreed, hsound, hsame, hlive⟩ := hsound₁.freeing addrs
    have hnone : run.live = [] := List.eq_nil_iff_forall_not_mem.mpr fun block hblock =>
      ((hlive block).mp hblock).2 (hall block ((hlive block).mp hblock).1)
    refine ⟨run, hfreed, hnone, ?_⟩
    have htiles := hsound.tiles
    rw [hnone, List.map_nil, List.nil_append, hsame.start, hsame.endAddr, hsame₁.start,
      hsame₁.endAddr] at htiles
    have hle := hsound.region.start_le
    rw [hsame.start, hsame.endAddr, hsame₁.start, hsame₁.endAddr] at hle
    obtain rfl : holes = piece heap₁.start heap₁.endAddr := by
      refine eq_of_covered hsound.holds.apart ?_
        (fun hole hhole => (hsound.holds.fits hole hhole).pos) ?_ ?_
      · rw [piece]
        split <;> simp
      · intro hole hhole
        obtain ⟨rfl, hlt⟩ := mem_piece hhole
        exact Nat.sub_pos_of_lt hlt
      · exact fun a => (htiles a).trans ((covered_piece _ _ a).trans (Tiles.single hle a)).symm
    exact hsound.holds.listIs hsound.region

/-- A block taken and given back, over another memory. -/
theorem holes_of_live_givenBack :
    ∃ run, (⟨(init 0x1010 64 (.empty fun _ => 7)).2, []⟩ : HeapRun).after
      [.allocate wideByte, .deallocate 0]
        = .ok run
      ∧ ∃ holes, (init 0x1010 64 (.empty fun _ => 0)).2.ListIs holes ∧ run.heap.ListIs holes := by
  have hrun : (⟨(init 0x1010 64 (.empty fun _ => 7)).2, []⟩ : HeapRun).after
      [.allocate wideByte, .deallocate 0] = .ok _ := rfl
  have hlaw := holes_of_live (by decide : 0 < 0x1010) (Prod.ext rfl rfl) (Prod.ext rfl rfl)
    (rfl : (⟨(init 0x1010 64 (.empty fun _ => 0)).2, []⟩ : HeapRun).after [] = .ok _) hrun
  exact ⟨_, hrun, (hlaw.1 fun _ => Iff.rfl).2⟩

/-! ### What is not taken back -/

/-- What `deallocate` is to refuse: the size has no block, the block wraps, is not on a granule,
is not inside the heap or shares a byte with a hole. -/
def BadFree (heap : FreeListHeap) (holes : List Extent) (block : ℕ) (layout : Layout) : Prop :=
  match blockSize layout with
  | none => True
  | some size =>
      2 ^ 64 ≤ block + size ∨ block % granule ≠ 0 ∨ block < heap.start
        ∨ heap.endAddr < block + size
      ∨ ∃ hole ∈ holes, ∃ a, (⟨block, size⟩ : Extent).Has a ∧ hole.Has a

/-- The hole before a place, and where it ends. -/
lemma holeBefore_spec {before after : List Extent} {current : ℕ} (hregion : heap.Region)
    (h : heap.Holds (before ++ after)) (hlinked : LinkedTo heap.mem heap.head before current) :
    ∃ prevHole, holeBefore (lastAddr before) heap = (.ok prevHole, heap)
      ∧ ∀ hole ∈ before.getLast?, ∃ found ∈ prevHole, found.2 = hole.endAddr := by
  rcases List.eq_nil_or_concat' before with rfl | ⟨before, prev, rfl⟩
  · exact ⟨none, rfl, nofun⟩
  · have hprev := h.fits prev (by simp)
    obtain ⟨-, haddr, -, -, htop⟩ := hprev.bounds hregion
    obtain ⟨middle, -, rfl, hsize, -⟩ := linkedTo_append.mp hlinked
    have hlast : lastAddr (before ++ [prev]) = prev.addr := by simp [lastAddr]
    refine ⟨some (holeAt heap.mem prev.addr, prev.endAddr), ?_, fun hole hhole => ?_⟩
    · rw [hlast, holeBefore, if_neg (by omega),
        Eff.bind_ok (readHole_ok (hprev.holeFits hregion)), hsize, Eff.bind_ok (plus_ok htop)]
      rfl
    · rw [List.getLast?_append_of_ne_nil _ (by simp), List.getLast?_singleton] at hhole
      exact ⟨_, rfl, congrArg Extent.endAddr (Option.some.inj hhole)⟩

/-- A block that its two neighbours do not overlap overlaps nothing. -/
lemma disjoint_of_neighbours {before after : List Extent} {block blockEnd : ℕ}
    (hapart : (before ++ after).Pairwise fun hole next => hole.endAddr < next.addr)
    (hprev : ∀ hole ∈ before.getLast?, hole.endAddr ≤ block)
    (hnext : ∀ hole ∈ after.head?, blockEnd ≤ hole.addr) :
    ∀ hole ∈ before ++ after, hole.endAddr ≤ block ∨ blockEnd ≤ hole.addr := by
  obtain ⟨hbefore, hafter, -⟩ := List.pairwise_append.mp hapart
  intro hole hhole
  rcases List.mem_append.mp hhole with hin | hin
  · left
    rcases List.eq_nil_or_concat' before with rfl | ⟨front, prev, rfl⟩
    · cases hin
    · have hle := hprev prev (by simp)
      rcases List.mem_append.mp hin with hin | hin
      · have hsep := (List.pairwise_append.mp hbefore).2.2 hole hin prev (by simp)
        rw [Extent.endAddr] at hle
        omega
      · rwa [List.mem_singleton.mp hin]
  · right
    cases after with
    | nil => cases hin
    | cons next rest =>
        have hle := hnext next rfl
        rcases List.mem_cons.mp hin with rfl | hin
        · exact hle
        · have hsep := List.rel_of_pairwise_cons hafter hin
          rw [Extent.endAddr] at hsep
          omega

/-- Extents that are apart share no address. -/
lemma not_has_of_apart {extent other : Extent}
    (h : other.endAddr ≤ extent.addr ∨ extent.endAddr ≤ other.addr) {a : ℕ} (ha : extent.Has a) :
    ¬other.Has a := by
  intro hother
  have hlow := ha.1
  have hhigh := ha.2
  have hlow' := hother.1
  have hhigh' := hother.2
  omega

/-- **A bad free stops the kernel before it does harm.** -/
lemma deallocate_of_bad {block : ℕ} {layout : Layout} (hregion : heap.Region)
    (h : heap.Holds holes) (hbad : BadFree heap holes block layout) :
    ∃ panic, deallocate block layout heap = (.error panic, heap) := by
  rw [BadFree, blockSize_eq] at hbad
  dsimp only at hbad
  rw [deallocate, blockSize_eq, Eff.bind_ok (expect_some _ _), Eff.get_bind, checkedBlock_eq]
  by_cases hinside : block + layout.rounded < 2 ^ 64 ∧ heap.start ≤ block
      ∧ block + layout.rounded ≤ heap.endAddr ∧ block % granule = 0
  · obtain ⟨before, after, current, hsplit, hfind, hbefore, hafter, -, -⟩ :=
      @findPlace_spec heap [] holes block (heap.granules + 1) heap.head hregion h
        (List.forall_mem_nil _) rfl h.linked
        (Nat.lt_succ_of_le (h.length_le hregion))
    have hfound : findPlace block (heap.granules + 1) 0 heap.head heap
        = (.ok (lastAddr before, current), heap) := hfind
    rw [List.nil_append] at hsplit
    have hholds : heap.Holds (before ++ after) := hsplit ▸ h
    obtain ⟨prevHole, hprev, hends⟩ := holeBefore_spec hregion hholds hbefore
    refine ⟨.doubleFree, ?_⟩
    rw [if_pos hinside, Eff.bind_ok (expect_some _ _), Eff.bind_ok hfound]
    change (holeBefore (lastAddr before) >>= _) heap = _
    rw [Eff.bind_ok hprev, assert, if_neg ?_]
    · rfl
    · rintro ⟨hnotPrev, hnotNext⟩
      obtain ⟨htop, hlow, hhigh, haligned⟩ := hinside
      obtain ⟨hole, hhole, a, hin, hin'⟩ : ∃ hole ∈ holes, ∃ a,
          (⟨block, layout.rounded⟩ : Extent).Has a
          ∧ hole.Has a := by
        rcases hbad with hbad | hbad | hbad | hbad | hbad
        · omega
        · exact absurd haligned hbad
        · omega
        · omega
        · exact hbad
      have hapart := @disjoint_of_neighbours before after block
        (block + layout.rounded) hholds.apart
        (fun prev hlast => ?_) (fun next hfirst => ?_) hole (hsplit ▸ hhole)
      · exact not_has_of_apart hapart hin hin'
      · obtain ⟨found, hmem, hend⟩ := hends prev hlast
        by_contra hlt
        exact hnotPrev ⟨found, hmem, by omega⟩
      · cases after with
        | nil => cases hfirst
        | cons next' rest =>
            obtain rfl : next' = next := Option.some.inj hfirst
            have haddr := ((hholds.fits next' (by simp)).bounds hregion).2.1
            have hcurrent := hafter.1
            omega
  · rw [if_neg hinside]
    exact ⟨.notABlock, rfl⟩

/-- What is not bad is taken back. -/
lemma deallocate_of_not_bad {block : ℕ} {layout : Layout} (hregion : heap.Region)
    (h : heap.Holds holes) (hgood : ¬BadFree heap holes block layout) :
    ∃ heap', deallocate block layout heap = (.ok (), heap') := by
  rw [BadFree, blockSize_eq] at hgood
  dsimp only at hgood
  rw [not_or, not_or, not_or, not_or, not_not] at hgood
  obtain ⟨-, haligned, hlow, hhigh, hdisjoint⟩ := hgood
  obtain ⟨hwhole, hpos, -⟩ := layout.rounded_spec
  have hfits : heap.Fits ⟨block, layout.rounded⟩ :=
    ⟨haligned, hwhole, hpos, Nat.le_of_not_lt hlow, Nat.le_of_not_lt hhigh⟩
  obtain ⟨heap', -, hrun, -⟩ := deallocate_spec layout hregion h hfits fun hole hhole => by
    have hsize := (h.fits hole hhole).pos
    by_contra hmeet
    rw [not_or] at hmeet
    refine hdisjoint ⟨hole, hhole, max block hole.addr, ?_, ?_⟩ <;>
    · simp only [Extent.Has, Extent.endAddr] at hmeet ⊢
      omega
  exact ⟨heap', hrun⟩

/-- **Bad frees are caught before they do harm.** In every state that is reached, with the holes
there are, and for every address and layout, `deallocate` stops the kernel exactly when the free
is bad, and then nothing of the heap is different; and it does so for a block that was freed
before, as long as a byte of it has not been handed out again. -/
theorem deallocate_panics_iff (h : run.Reached) :
    (∃ holes, run.heap.Holds holes ∧ ∀ block layout,
        ((∃ panic heap', deallocate block layout run.heap = (.error panic, heap'))
            ↔ BadFree run.heap holes block layout)
          ∧ ∀ panic heap', deallocate block layout run.heap = (.error panic, heap') →
            heap' = run.heap)
      ∧ ∀ which block, run.live[which]? = some block →
        ∀ run₁, run.step (.deallocate which) = .ok run₁ →
        ∀ ops run₂, run₁.after ops = .ok run₂ →
        (∃ a, block.extent.Has a ∧ ∀ other ∈ run₂.live, ¬other.extent.Has a) →
        ∃ panic, deallocate block.addr block.layout run₂.heap = (.error panic, run₂.heap) := by
  rcases h.cases with ⟨mem, rfl⟩ | ⟨holes, hsound⟩
  · have hrefused : ∀ block layout, deallocate block layout (.empty mem)
        = (.error .notABlock, .empty mem) := by
      intro block layout
      have hpos := layout.rounded_spec.2.1
      rw [deallocate, blockSize_eq, Eff.bind_ok (expect_some _ _), Eff.get_bind,
        checkedBlock_eq, if_neg ?_]
      · rfl
      · rintro ⟨-, -, hzero, -⟩
        simp only [FreeListHeap.empty] at hzero
        omega
    refine ⟨⟨[], holds_empty mem,
      fun block layout => ⟨⟨fun _ => ?_, fun _ => ⟨_, _, hrefused block layout⟩⟩,
      fun panic heap' hrun => ?_⟩⟩, fun which block hwhich => absurd hwhich (by simp)⟩
    · rw [BadFree, blockSize_eq]
      have hpos := layout.rounded_spec.2.1
      refine .inr (.inr (.inr (.inl ?_)))
      simp only [FreeListHeap.empty]
      omega
    · rw [hrefused] at hrun
      exact (Prod.mk.inj hrun).2.symm
  refine ⟨⟨holes, hsound.holds, fun block layout => ?_⟩,
    fun which block hwhich run₁ hstep ops run₂ hafter hleft => ?_⟩
  · by_cases hbad : BadFree run.heap holes block layout
    · obtain ⟨panic, hrun⟩ := deallocate_of_bad hsound.region hsound.holds hbad
      refine ⟨⟨fun _ => hbad, fun _ => ⟨panic, _, hrun⟩⟩, fun panic' heap' hrun' => ?_⟩
      exact (Prod.mk.inj (hrun.symm.trans hrun')).2.symm
    · obtain ⟨heap', hrun⟩ := deallocate_of_not_bad hsound.region hsound.holds hbad
      have hno : ∀ panic heap'', deallocate block layout run.heap ≠ (.error panic, heap'') := by
        intro panic heap'' hpanic
        rw [hrun] at hpanic
        cases hpanic
      refine ⟨⟨?_, fun h => absurd h hbad⟩,
        fun panic heap'' hpanic => absurd hpanic (hno panic heap'')⟩
      rintro ⟨panic, heap'', hpanic⟩
      exact absurd hpanic (hno panic heap'')
  · obtain ⟨run₁', holes₁, hstep', hsound₁, hsame₁, -⟩ := hsound.step (.deallocate which)
    obtain rfl : run₁ = run₁' := Except.ok.inj (hstep.symm.trans hstep')
    obtain ⟨run₂', holes₂, hafter', hsound₂, hsame₂⟩ := hsound₁.after ops
    obtain rfl : run₂ = run₂' := Except.ok.inj (hafter.symm.trans hafter')
    obtain ⟨a, ha, hnotLive⟩ := hleft
    have hmem : block ∈ run.live := List.mem_of_getElem? hwhich
    -- the byte is in the region, so a hole has it where no block does
    have hrange := hsound.tiles.mem_range
      (List.mem_append_left _ (List.mem_map_of_mem (f := Block.extent) hmem)) ha
    have htile := hsound₂.tiles a
    rw [hsame₂.start, hsame₂.endAddr, hsame₁.start, hsame₁.endAddr, if_pos hrange,
      covered_append] at htile
    have hnone : covered (run₂.live.map Block.extent) a = 0 := by
      by_contra hsome
      obtain ⟨extent, hextent, hhas⟩ := exists_has_of_covered (Nat.pos_of_ne_zero hsome)
      obtain ⟨other, hother, rfl⟩ := List.mem_map.mp hextent
      exact hnotLive other hother hhas
    obtain ⟨hole, hhole, hhas⟩ := @exists_has_of_covered holes₂ a (by omega)
    refine deallocate_of_bad hsound₂.region hsound₂.holds ?_
    rw [BadFree, blockSize_eq]
    exact .inr (.inr (.inr (.inr ⟨hole, hhole, a, ha, hhas⟩)))

/-- A block of the heap that was never allocated. -/
theorem deallocate_panics_iff_foreign :
    HeapRun.Reached ⟨(init 0x1010 64 (.empty fun _ => 0)).2, []⟩
      ∧ ∃ holes, BadFree (init 0x1010 64 (.empty fun _ => 0)).2 holes 0x1020 wideByte := by
  have hreached : HeapRun.Reached ⟨(init 0x1010 64 (.empty fun _ => 0)).2, []⟩ :=
    .inr ⟨_, 0x1010, 64, _, [], by decide, Prod.ext rfl rfl, rfl⟩
  obtain ⟨⟨holes, -, hiff⟩, -⟩ := deallocate_panics_iff hreached
  exact ⟨hreached, holes, (hiff 0x1020 wideByte).1.mp ⟨.doubleFree, _, Prod.ext rfl rfl⟩⟩

end Harlan.Heap
