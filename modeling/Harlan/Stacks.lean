import Mathlib.Tactic
import Harlan.Memory.StackFrames
import Harlan.Destroy

/-!
Kernel stacks over any mapper (`kernel/src/memory/stacks.rs`).

The source takes whatever maps pages (`dyn PageMapper`), so it is a parameter here, of which is
known only what its calls do to what is mapped. Beside the mapper and the frames, `Site` keeps
records the code does not have: the frames taken for stacks and not given back, and whether a
debug assertion has failed, after which nothing more happens.

* `PageMapper`, `PageMapper.Lawful`: what maps pages, and what is relied on.
* `mapWithGuard`, `rollbackStack`, `mapKernelStacks`: the source's functions.
* `Placed`: the pages mapped so far and the frames behind them, beside what was mapped before.
* `mapPages_spec`: a loop that fails leaves what was placed before it, and one that does not adds
  its pages.
* `mapKernelStacks_allOrNothing`: **either all of it is mapped, or nothing has changed**; and no
  assertion fails. -/

namespace Harlan.Stacks

open BitmapFrameAllocator (Marks)
open Bitmap (bit)

/-! ### The mapper -/

/-- What maps pages to frames, over a state of its own. -/
structure PageMapper (σ : Type) where
  map : ℕ → PhysFrame → PageFlags → σ × BitmapFrameAllocator →
    Except MapError Unit × σ × BitmapFrameAllocator
  unmap : ℕ → σ → Except UnmapError PhysFrame × σ
  /-- What each page is mapped to. -/
  mapped : σ → ℕ → Option (PhysFrame × PageFlags)

/-- Frames were handed out for page tables, and nothing else was done to the allocator. -/
def Drawn : BitmapFrameAllocator → BitmapFrameAllocator → Prop :=
  Relation.ReflTransGen fun frames frames' => frames' = frames.allocateFrame.2

/-- A page that is not mapped may be mapped and one that is may be unmapped; what fails maps
nothing and unmaps nothing; and of the frames, only tables are drawn. -/
structure PageMapper.Lawful {σ : Type} (mapper : PageMapper σ) : Prop where
  map_ok : ∀ {page frame flags s frames s' frames'},
    mapper.map page frame flags (s, frames) = (.ok (), s', frames') → mapper.mapped s page = none
      ∧ mapper.mapped s' = Function.update (mapper.mapped s) page (some (frame, flags))
  map_error : ∀ {page frame flags s frames err s' frames'},
    mapper.map page frame flags (s, frames) = (.error err, s', frames') →
      mapper.mapped s' = mapper.mapped s
  map_frames : ∀ {page frame flags s frames},
    Drawn frames (mapper.map page frame flags (s, frames)).2.2
  unmap_ok : ∀ {page frame flags s}, mapper.mapped s page = some (frame, flags) →
    ∃ s', mapper.unmap page s = (.ok frame, s')
      ∧ mapper.mapped s' = Function.update (mapper.mapped s) page none
  unmap_error : ∀ {page s err s'}, mapper.unmap page s = (.error err, s') →
    mapper.mapped s' = mapper.mapped s

/-! ### The functions -/

/-- The mapper, the allocator and what stacks were given. -/
structure Site (σ : Type) where
  mapper : σ
  frames : BitmapFrameAllocator
  /-- Record: the frames taken for stacks and not given back. -/
  out : List PhysFrame
  /-- Record: a debug assertion failed, and the kernel, a dev build, stopped there. -/
  stopped : Bool

variable {σ : Type}

/-- The pages of a kernel stack. -/
def kernelStackPages : ℕ := 16
/-- The pages of the stack for double faults. -/
def doubleFaultStackPages : ℕ := 4

/-- A frame for a stack, if there is one. -/
def takeFrame : Eff (Site σ) MapError (Option PhysFrame) :=
  Eff.step fun site =>
    match site.frames.allocateFor .stack with
    | (some frame, frames) => (some frame, { site with frames, out := site.out ++ [frame] })
    | (none, frames) => (none, { site with frames })

/-- Gives a frame back as a stack's, asserting that it was taken. -/
def giveFrame (frame : PhysFrame) (site : Site σ) : Site σ :=
  match site.frames.deallocateAs frame .stack with
  | (.ok (), frames) => { site with frames, out := site.out.erase frame }
  | (.error _, frames) => { site with frames, stopped := true }

/-- Unmaps a page, asserting that it was mapped, and gives its frame back. Where an assertion has
failed nothing more happens. -/
def rollbackPage (mapper : PageMapper σ) (site : Site σ) (page : ℕ) : Site σ :=
  if site.stopped then site
  else
    match mapper.unmap page site.mapper with
    | (.ok frame, s) => giveFrame frame { site with mapper := s }
    | (.error _, s) => { site with mapper := s, stopped := true }

/-- Unmaps the first pages above `bottom` and gives their frames back. -/
def rollbackStack (mapper : PageMapper σ) (bottom mappedPages : ℕ) (site : Site σ) : Site σ :=
  (stackPages bottom mappedPages).foldl (rollbackPage mapper) site

/-- The loop of `map_with_guard`: `index` pages are mapped, and more are to come. -/
def mapPages (mapper : PageMapper σ) (bottom : ℕ) : ℕ → ℕ → Eff (Site σ) MapError Unit
  | 0, _ => pure ()
  | more + 1, index => do
      let some frame ← takeFrame
        | Eff.run fun site => (.error .outOfFrames, rollbackStack mapper bottom index site)
      Eff.run fun site =>
        match mapper.map (pageContaining (bottom + index * frameSize)) frame (.kernel true false)
            (site.mapper, site.frames) with
        | (.ok (), s, frames) =>
            mapPages mapper bottom more (index + 1) { site with mapper := s, frames }
        | (.error err, s, frames) =>
            (.error err, rollbackStack mapper bottom index
              (giveFrame frame { site with mapper := s, frames }))

/-- Maps writable, never-executable pages directly above `guard`, which is left unmapped. -/
def mapWithGuard (mapper : PageMapper σ) (guard pages : ℕ) : Eff (Site σ) MapError Stack := do
  let bottom := guard + frameSize
  mapPages mapper bottom pages 0
  pure ⟨bottom, bottom + pages * frameSize⟩

/-- Gives all pages of a stack back. -/
def unmapStack (mapper : PageMapper σ) (stack : Stack) (site : Site σ) : Site σ :=
  rollbackStack mapper stack.bottom (stack.size / frameSize) site

/-- The kernel's stack, the double-fault stack and the syscall stack, with a guard page below each
and above the last. -/
def mapKernelStacks (mapper : PageMapper σ) (base : ℕ) :
    Eff (Site σ) MapError (Stack × Stack × Stack) := do
  let kernel ← mapWithGuard mapper (pageContaining base) kernelStackPages
  Eff.run fun site =>
    match mapWithGuard mapper (pageContaining kernel.top) doubleFaultStackPages site with
    | (.error err, site) => (.error err, unmapStack mapper kernel site)
    | (.ok doubleFault, site) =>
        match mapWithGuard mapper (pageContaining doubleFault.top) syscallStackPages site with
        | (.error err, site) =>
            (.error err, unmapStack mapper kernel (unmapStack mapper doubleFault site))
        | (.ok syscall, site) => (.ok (kernel, doubleFault, syscall), site)

/-! ### Frames that can be given back -/

section Drawn

variable {a a' : BitmapFrameAllocator}

/-- Drawing frames for tables leaves every frame of a stack held. -/
lemma drawn_held (h : Supply a) (hdrawn : Drawn a a') :
    Supply a' ∧ ∀ frame, Held a frame → Held a' frame := by
  induction hdrawn with
  | refl => exact ⟨h, fun _ h => h⟩
  | tail _ hstep ih =>
      obtain ⟨hsupply, hheld⟩ := ih
      subst hstep
      rcases BitmapFrameAllocator.allocateFor_marks hsupply.sound .pageTable with ⟨n, -, -,
        hclear, hmarks⟩ | heq
      · refine ⟨supply_mark hsupply hmarks,
          fun frame hframe => (hheld frame hframe).mark hmarks ?_⟩
        rintro rfl
        rw [(hheld frame hframe).set] at hclear
        cases hclear
      · rw [BitmapFrameAllocator.allocateFrame, heq]
        exact ⟨hsupply, hheld⟩

end Drawn

/-! ### What is placed -/

/-- Some pages are mapped, each to a frame of its own that is held for it, and everything else is
mapped as it was before. -/
structure Placed (mapper : PageMapper σ) (before : ℕ → Option (PhysFrame × PageFlags))
    (placed : List (ℕ × PhysFrame)) (site : Site σ) : Prop where
  supply : Supply site.frames
  pages : (placed.map Prod.fst).Nodup
  frames : (placed.map Prod.snd).Nodup
  free : ∀ x ∈ placed, before x.1 = none
  here : ∀ x ∈ placed, mapper.mapped site.mapper x.1 = some (x.2, .kernel true false)
  elsewhere : ∀ page, page ∉ placed.map Prod.fst → mapper.mapped site.mapper page = before page
  held : ∀ x ∈ placed, Held site.frames x.2
  out : site.out = placed.map Prod.snd
  running : site.stopped = false

section Placed

variable {mapper : PageMapper σ} {before : ℕ → Option (PhysFrame × PageFlags)}
  {placed new : List (ℕ × PhysFrame)}
  {site : Site σ} {page : ℕ} {frame : PhysFrame}

/-- Where nothing is placed, nothing has changed. -/
lemma Placed.unchanged (h : Placed mapper before [] site) : mapper.mapped site.mapper = before
      ∧ site.out = [] :=
  ⟨funext fun page => h.elsewhere page List.not_mem_nil, h.out⟩

/-- A frame of a stack is given back. -/
lemma giveFrame_of_held (h : Held site.frames frame) (hsupply : Supply site.frames) :
    ∃ frames, giveFrame frame site = { site with frames, out := site.out.erase frame }
      ∧ Marks site.frames frames frame.number none := by
  obtain ⟨frames, heq, hmarks⟩ := h.deallocateAs hsupply
  exact ⟨frames, by rw [giveFrame, heq], hmarks⟩

/-- **Unmapping a page that is placed** leaves the others. -/
lemma Placed.remove (hlaw : mapper.Lawful)
    (h : Placed mapper before (placed ++ (page, frame) :: new) site) :
    Placed mapper before (placed ++ new) (rollbackPage mapper site page) := by
  have hmem : (page, frame) ∈ placed ++ (page, frame) :: new := by simp
  have hsub : (placed ++ new).Sublist (placed ++ (page, frame) :: new) :=
    (List.sublist_cons_self _ _).append_left _
  obtain ⟨s, hunmap, hmapped⟩ := hlaw.unmap_ok (h.here _ hmem)
  have hpages := h.pages
  have hframes := h.frames
  simp only [List.map_append, List.map_cons, List.nodup_middle, List.nodup_cons,
    List.mem_append] at hpages hframes
  obtain ⟨frames, hgive, hmarks⟩ :=
    @giveFrame_of_held σ { site with mapper := s } frame (h.held _ hmem) h.supply
  rw [rollbackPage, hunmap, if_neg (by simp [h.running])]
  dsimp only
  rw [hgive]
  refine ⟨supply_mark h.supply hmarks, h.pages.sublist (hsub.map _),
    h.frames.sublist (hsub.map _), fun x hx => h.free x (hsub.subset hx), fun x hx => ?_,
    fun other hother => ?_, fun x hx => ?_, ?_, h.running⟩
  · have hne : x.1 ≠ page := by
      rintro rfl
      refine hpages.1 ?_
      rw [← List.mem_append, ← List.map_append]
      exact List.mem_map_of_mem hx
    dsimp only
    rw [hmapped, Function.update_of_ne hne]
    exact h.here x (hsub.subset hx)
  · dsimp only
    rw [hmapped]
    by_cases heq : other = page
    · rw [heq, Function.update_self]
      exact (h.free _ hmem).symm
    · rw [Function.update_of_ne heq]
      refine h.elsewhere other ?_
      simp only [List.map_append, List.map_cons, List.mem_append, List.mem_cons] at hother ⊢
      tauto
  · refine (h.held x (hsub.subset hx)).mark hmarks fun hnumber => hframes.1 ?_
    rw [← PhysFrame.ext_number hnumber, ← List.mem_append, ← List.map_append]
    exact List.mem_map_of_mem hx
  · dsimp only
    rw [h.out, List.map_append, List.map_cons,
      List.erase_append_right _ (fun hin => hframes.1 (.inl hin)), List.erase_cons_head,
      List.map_append]

/-- Rolling back the pages placed last leaves what was placed before. -/
lemma Placed.rollback (hlaw : mapper.Lawful) (h : Placed mapper before (placed ++ new) site) :
    Placed mapper before placed ((new.map Prod.fst).foldl (rollbackPage mapper) site) := by
  induction new generalizing site with
  | nil => simpa using h
  | cons x new ih => exact ih (h.remove hlaw)

/-- Taking a frame leaves what is placed, and the frame is another. -/
lemma takeFrame_cases (h : Placed mapper before placed site) :
    (∃ site', takeFrame site = (.ok none, site') ∧ Placed mapper before placed site')
      ∨ ∃ frame frames, takeFrame site
        = (.ok (some frame), { site with frames, out := site.out ++ [frame] })
        ∧ Supply frames ∧ Held frames frame ∧ (∀ x ∈ placed, Held frames x.2)
          ∧ frame ∉ placed.map Prod.snd := by
  rcases BitmapFrameAllocator.allocateFor_marks h.supply.sound .stack with ⟨n, hsome, hlt, hclear,
    hmarks⟩ | heq
  · right
    have hnumber := BitmapFrameAllocator.number_frameOf hlt
    have heq : site.frames.allocateFor .stack
        = (some (BitmapFrameAllocator.frameOf n), (site.frames.allocateFor .stack).2) :=
          Prod.ext hsome rfl
    have hother : ∀ x ∈ placed, x.2.number ≠ n := by
      rintro x hx rfl
      rw [(h.held x hx).set] at hclear
      cases hclear
    refine ⟨BitmapFrameAllocator.frameOf n, (site.frames.allocateFor .stack).2, ?_,
      supply_mark h.supply hmarks, held_of_mark h.supply (by rwa [hnumber]),
      fun x hx => (h.held x hx).mark hmarks (hother x hx), fun hmem => ?_⟩
    · rw [takeFrame, Eff.step, heq]
    · obtain ⟨x, hx, hsame⟩ := List.mem_map.mp hmem
      exact hother x hx (by rw [hsame, hnumber])
  · refine .inl ⟨site, ?_, h⟩
    rw [takeFrame, Eff.step, heq]

/-- A page that could be mapped is placed. -/
lemma Placed.add (hlaw : mapper.Lawful) {frames frames' : BitmapFrameAllocator} {s : σ}
    (h : Placed mapper before placed site)
    (hsupply : Supply frames) (hheld : Held frames frame)
    (hothers : ∀ x ∈ placed, Held frames x.2) (hfresh : frame ∉ placed.map Prod.snd)
    (hmap : mapper.map page frame (.kernel true false) (site.mapper, frames)
      = (.ok (), s, frames')) :
    Placed mapper before (placed ++ [(page, frame)]) ⟨s, frames', site.out ++ [frame],
      site.stopped⟩ := by
  obtain ⟨hnone, hmapped⟩ := hlaw.map_ok hmap
  have hdrawn := @PageMapper.Lawful.map_frames σ mapper hlaw page frame
    (.kernel true false) site.mapper frames
  rw [hmap] at hdrawn
  obtain ⟨hsupply', hkept⟩ := drawn_held hsupply hdrawn
  have hnew : page ∉ placed.map Prod.fst := by
    intro hmem
    obtain ⟨x, hx, rfl⟩ := List.mem_map.mp hmem
    rw [h.here x hx] at hnone
    cases hnone
  refine ⟨hsupply', ?_, ?_, fun x hx => ?_, fun x hx => ?_, fun other hother => ?_,
    fun x hx => ?_, ?_, h.running⟩
  · rw [List.map_append, List.map_singleton]
    exact h.pages.append (List.nodup_singleton _) (by simpa using hnew)
  · rw [List.map_append, List.map_singleton]
    exact h.frames.append (List.nodup_singleton _) (by simpa using hfresh)
  · rcases List.mem_append.mp hx with hx | hx
    · exact h.free x hx
    · rw [List.mem_singleton.mp hx, ← h.elsewhere page hnew]
      exact hnone
  · dsimp only
    rw [hmapped]
    rcases List.mem_append.mp hx with hx | hx
    · have hne : x.1 ≠ page := fun heq => hnew (heq ▸ List.mem_map_of_mem hx)
      rw [Function.update_of_ne hne]
      exact h.here x hx
    · rw [List.mem_singleton.mp hx, Function.update_self]
  · rw [List.map_append, List.map_singleton, List.mem_append, List.mem_singleton,
      not_or] at hother
    dsimp only
    rw [hmapped, Function.update_of_ne hother.2]
    exact h.elsewhere other hother.1
  · rcases List.mem_append.mp hx with hx | hx
    · exact hkept _ (hothers x hx)
    · rw [List.mem_singleton.mp hx]
      exact hkept _ hheld
  · rw [h.out, List.map_append, List.map_singleton]

/-- A page that could not be mapped leaves what is placed, once its frame is given back. -/
lemma Placed.refused (hlaw : mapper.Lawful) {frames frames' : BitmapFrameAllocator} {s : σ}
    {err : MapError} (h : Placed mapper before placed site) (hsupply : Supply frames)
    (hheld : Held frames frame) (hothers : ∀ x ∈ placed, Held frames x.2)
    (hfresh : frame ∉ placed.map Prod.snd)
    (hmap : mapper.map page frame (.kernel true false) (site.mapper, frames)
      = (.error err, s, frames')) :
    Placed mapper before placed
      (giveFrame frame ⟨s, frames', site.out ++ [frame], site.stopped⟩) := by
  have hmapped := hlaw.map_error hmap
  have hdrawn := @PageMapper.Lawful.map_frames σ mapper hlaw page frame
    (.kernel true false) site.mapper frames
  rw [hmap] at hdrawn
  obtain ⟨hsupply', hkept⟩ := drawn_held hsupply hdrawn
  obtain ⟨frames'', hgive, hmarks⟩ :=
    @giveFrame_of_held σ ⟨s, frames', site.out ++ [frame], site.stopped⟩ frame
    (hkept _ hheld) hsupply'
  rw [hgive]
  refine ⟨supply_mark hsupply' hmarks, h.pages, h.frames, h.free, fun x hx => ?_,
    fun other hother => ?_, fun x hx => (hkept _ (hothers x hx)).mark hmarks fun hnumber =>
    hfresh ?_, ?_, h.running⟩
  · dsimp only
    rw [hmapped]
    exact h.here x hx
  · dsimp only
    rw [hmapped]
    exact h.elsewhere other hother
  · rw [← PhysFrame.ext_number hnumber]
    exact List.mem_map_of_mem hx
  · dsimp only
    rw [h.out, List.erase_append_right _ hfresh, List.erase_cons_head, List.append_nil]

/-- **The loop**: with its first pages placed, it places the others or leaves what was placed
before it. -/
lemma mapPages_spec (hlaw : mapper.Lawful) {bottom more index : ℕ} {mine : List (ℕ × PhysFrame)}
    (h : Placed mapper before (placed ++ mine) site)
    (hmine : mine.map Prod.fst = stackPages bottom index) :
    (∃ site' all, mapPages mapper bottom more index site = (.ok (), site')
        ∧ Placed mapper before (placed ++ all) site'
          ∧ all.map Prod.fst = stackPages bottom (index + more))
      ∨ ∃ err site', mapPages mapper bottom more index site = (.error err, site')
        ∧ Placed mapper before placed site' := by
  induction more generalizing index mine site with
  | zero => exact .inl ⟨site, mine, rfl, h, hmine⟩
  | succ more ih =>
      rw [mapPages]
      rcases takeFrame_cases h with ⟨site', htake, hkept⟩
        | ⟨frame, frames, htake, hsupply, hheld, hothers, hfresh⟩
      · rw [Eff.bind_ok htake]
        refine .inr ⟨.outOfFrames, rollbackStack mapper bottom index site', rfl, ?_⟩
        rw [rollbackStack, ← hmine]
        exact hkept.rollback hlaw
      · rw [Eff.bind_ok htake]
        dsimp only [Eff.run]
        rcases hmap : mapper.map (pageContaining (bottom + index * frameSize)) frame
          (.kernel true false)
            (site.mapper, frames) with ⟨err | _, s, frames'⟩
        · refine .inr ⟨err, _, rfl, ?_⟩
          rw [rollbackStack, ← hmine]
          exact (h.refused hlaw hsupply hheld hothers hfresh hmap).rollback hlaw
        · have hadded := h.add hlaw hsupply hheld hothers hfresh hmap
          rw [List.append_assoc] at hadded
          have hpages : (mine
              ++ [(pageContaining (bottom + index * frameSize), frame)]).map Prod.fst
              = stackPages bottom (index + 1) := by
            rw [List.map_append, hmine, stackPages_succ, List.map_singleton]
          have hnext := ih hadded hpages
          rw [Nat.add_right_comm, Nat.add_assoc] at hnext
          exact hnext

/-- A stack is placed above its guard, or nothing is. -/
lemma mapWithGuard_spec (hlaw : mapper.Lawful) (h : Placed mapper before placed site)
    (guard pages : ℕ) :
    (∃ site' mine, mapWithGuard mapper guard pages site
          = (.ok ⟨guard + frameSize, guard + frameSize + pages * frameSize⟩, site')
        ∧ Placed mapper before (placed ++ mine) site'
          ∧ mine.map Prod.fst = stackPages (guard + frameSize) pages)
      ∨ ∃ err site', mapWithGuard mapper guard pages site = (.error err, site')
        ∧ Placed mapper before placed site' := by
  have hstart : Placed mapper before (placed ++ []) site := by rwa [List.append_nil]
  rw [mapWithGuard]
  rcases @mapPages_spec σ mapper before placed site hlaw (guard + frameSize) pages 0 [] hstart rfl
    with ⟨site', mine, hrun, hplaced, hpages⟩ | ⟨err, site', hrun, hplaced⟩
  · rw [Nat.zero_add] at hpages
    exact .inl ⟨site', mine, Eff.bind_ok hrun, hplaced, hpages⟩
  · refine .inr ⟨err, site', ?_, hplaced⟩
    rw [Eff.bind_apply, hrun]

/-- Unmapping the stack placed last leaves the others. -/
lemma Placed.unmapStack (hlaw : mapper.Lawful) {bottom pages : ℕ}
    (h : Placed mapper before (placed ++ new) site)
    (hpages : new.map Prod.fst = stackPages bottom pages) :
    Placed mapper before placed
      (Stacks.unmapStack mapper ⟨bottom, bottom + pages * frameSize⟩ site) := by
  rw [Stacks.unmapStack, rollbackStack, Stack.size, Nat.add_sub_cancel_left,
    Nat.mul_div_cancel _ (by decide : 0 < frameSize), ← hpages]
  exact h.rollback hlaw

end Placed

/-! ### Every supply of frames -/

/-- The table of purposes covers the frames all along a run of the allocator. -/
lemma supply_of_run {storage : List (BitVec 64)} {map : List MemoryRegion}
    {a : BitmapFrameAllocator} {trace : List BitmapFrameAllocator.Event}
    (h : BitmapFrameAllocator.Run storage map a trace) : Supply a := by
  refine ⟨h.tracked.sound, ?_⟩
  induction h with
  | new =>
      intro table htable
      cases htable
  | @step a a' trace events op hrun hstep ih =>
      have hsupply : Supply a := ⟨hrun.tracked.sound, ih⟩
      -- a call that names a purpose leaves a table that covers all frames
      have hrecord : ∀ op, ∀ table ∈ (a.record op).1.purposes,
          (a.record op).1.coveredFrames ≤ table.length := by
        intro op
        rcases BitmapFrameAllocator.record_cases hsupply.sound op with ⟨frame, purpose, -, hmarks⟩
          | ⟨hflag, heq⟩ | heq
        · exact (supply_mark hsupply hmarks).covers
        · obtain ⟨words, added, hreclaim, hlen, -⟩ := BitmapFrameAllocator.reclaim_spec a hflag
          rw [heq, hreclaim]
          intro table htable
          rw [BitmapFrameAllocator.coveredFrames, hlen]
          exact ih table htable
        · rw [heq]
          exact ih
      cases op with
      | allocate =>
          obtain ⟨rfl, -⟩ := Prod.mk.inj (Option.some.inj hstep)
          rcases BitmapFrameAllocator.allocate_spec hsupply.sound with ⟨-, heq⟩ | ⟨n, -, -, heq⟩
          · rw [heq]
            exact ih
          · rw [heq]
            intro table htable
            rw [BitmapFrameAllocator.coveredFrames, Bitmap.length_setBit]
            exact ih table htable
      | allocateFor purpose =>
          obtain ⟨rfl, -⟩ := Prod.mk.inj (Option.some.inj hstep)
          exact hrecord (.allocateFor purpose)
      | allocateFrame =>
          obtain ⟨rfl, -⟩ := Prod.mk.inj (Option.some.inj hstep)
          exact hrecord .allocateFrame
      | deallocateAs frame purpose =>
          have hsame : (a.record (.deallocateAs frame purpose)).1 = a' := by
            rw [BitmapFrameAllocator.step] at hstep
            rw [BitmapFrameAllocator.record]
            rcases hback : a.deallocateAs frame purpose with ⟨_ | _, a''⟩
            · rw [hback] at hstep
              exact (Prod.mk.inj (Option.some.inj hstep)).1
            · rw [hback] at hstep
              exact (Prod.mk.inj (Option.some.inj hstep)).1
          rw [← hsame]
          exact hrecord (.deallocateAs frame purpose)
      | label frame purpose =>
          obtain ⟨rfl, -⟩ := Prod.mk.inj (Option.some.inj hstep)
          exact hrecord (.label frame purpose)
      | withPurposes given =>
          rw [BitmapFrameAllocator.step, Option.map_eq_some_iff] at hstep
          obtain ⟨a'', hgiven, hsame⟩ := hstep
          obtain ⟨rfl, -⟩ := Prod.mk.inj hsame
          rw [BitmapFrameAllocator.withPurposes, Option.ite_none_left_eq_some] at hgiven
          obtain ⟨hlong, hgiven⟩ := hgiven
          rw [← Option.some.inj hgiven]
          rintro table ⟨⟩
          rw [List.length_mapIdx]
          exact Nat.le_of_not_lt hlong
      | reclaimBootServices =>
          obtain ⟨rfl, -⟩ := Prod.mk.inj (Option.some.inj hstep)
          exact hrecord .reclaimBootServices
      | adopt =>
          obtain ⟨rfl, -⟩ := Prod.mk.inj (Option.some.inj hstep)
          intro table htable
          cases htable

/-! ### All or nothing -/

section Whole

variable {mapper : PageMapper σ} {before : ℕ → Option (PhysFrame × PageFlags)} {site : Site σ}

/-- So many pages above the page of the base. -/
def above (base pages : ℕ) : ℕ := pageContaining base + pages * frameSize

/-- Where the three stacks are. -/
def layout (base : ℕ) : Stack × Stack × Stack :=
  (⟨above base 1, above base 17⟩, ⟨above base 18, above base 22⟩, ⟨above base 23, above base 27⟩)

lemma pageContaining_above (base pages : ℕ) :
    pageContaining (above base pages) = above base pages := by
  simp only [above, pageContaining, frameSize]
  omega

lemma above_add (base pages more : ℕ) :
    above base pages + more * frameSize = above base (pages + more) := by
  rw [above, above, Nat.add_mul, Nat.add_assoc]

/-- One stack, from the page of its guard on. -/
lemma mapWithGuard_above (hlaw : mapper.Lawful) {placed : List (ℕ × PhysFrame)}
    (h : Placed mapper before placed site) (base guard pages : ℕ) :
    (∃ site' mine, mapWithGuard mapper (above base guard) pages site
          = (.ok ⟨above base (guard + 1), above base (guard + 1 + pages)⟩, site')
        ∧ Placed mapper before (placed ++ mine) site'
        ∧ mine.map Prod.fst = stackPages (above base (guard + 1)) pages)
      ∨ ∃ err site', mapWithGuard mapper (above base guard) pages site = (.error err, site')
        ∧ Placed mapper before placed site' := by
  have hguard := mapWithGuard_spec hlaw h (above base guard) pages
  have hbottom : above base guard + frameSize = above base (guard + 1) := by
    rw [← above_add, Nat.one_mul]
  rwa [hbottom, above_add] at hguard

lemma unmapStack_above (hlaw : mapper.Lawful) {placed mine : List (ℕ × PhysFrame)}
    {base first pages : ℕ} (h : Placed mapper before (placed ++ mine) site)
    (hpages : mine.map Prod.fst = stackPages (above base first) pages) :
    Placed mapper before placed
      (unmapStack mapper ⟨above base first, above base (first + pages)⟩ site) := by
  rw [← above_add]
  exact h.unmapStack hlaw hpages

/-- **The three stacks** are placed where they belong, or nothing is. -/
lemma mapKernelStacks_spec (hlaw : mapper.Lawful) (h : Placed mapper before [] site) (base : ℕ) :
    (∃ site' placed, mapKernelStacks mapper base site = (.ok (layout base), site')
        ∧ Placed mapper before placed site'
        ∧ placed.map Prod.fst = stackPages (above base 1) 16
          ++ stackPages (above base 18) 4 ++ stackPages (above base 23) 4)
      ∨ ∃ err site', mapKernelStacks mapper base site = (.error err, site')
        ∧ Placed mapper before [] site' := by
  have hbase : pageContaining base = above base 0 := by rw [above, Nat.zero_mul, Nat.add_zero]
  rw [mapKernelStacks, hbase]
  rcases mapWithGuard_above hlaw h base 0 kernelStackPages with ⟨site₁, kernel, hkernel,
    hplaced₁, hpages₁⟩
      | ⟨err, site₁, hkernel, hplaced₁⟩
  swap
  · exact .inr ⟨err, site₁, by rw [Eff.bind_apply, hkernel], hplaced₁⟩
  rw [Eff.bind_ok hkernel, Eff.run]
  dsimp only
  rw [pageContaining_above]
  rcases mapWithGuard_above hlaw hplaced₁ base (0 + 1 + kernelStackPages) doubleFaultStackPages
      with ⟨site₂, doubleFault, hdouble, hplaced₂, hpages₂⟩ | ⟨err, site₂, hdouble, hplaced₂⟩
  swap
  · rw [hdouble]
    exact .inr ⟨err, _, rfl, unmapStack_above hlaw hplaced₂ hpages₁⟩
  rw [hdouble]
  dsimp only
  rw [pageContaining_above]
  rcases mapWithGuard_above hlaw hplaced₂ base
    (0 + 1 + kernelStackPages + 1 + doubleFaultStackPages) syscallStackPages
      with ⟨site₃, syscall, hsyscall, hplaced₃, hpages₃⟩ | ⟨err, site₃, hsyscall, hplaced₃⟩
  swap
  · rw [hsyscall]
    exact .inr ⟨err, _, rfl,
      unmapStack_above hlaw (unmapStack_above hlaw hplaced₃ hpages₂) hpages₁⟩
  rw [hsyscall]
  refine .inl ⟨site₃, _, rfl, hplaced₃, ?_⟩
  rw [List.nil_append, List.map_append, List.map_append, hpages₁, hpages₂, hpages₃]
  rfl

lemma above_inj {base a b : ℕ} : above base a = above base b ↔ a = b := by
  simp only [above, frameSize]
  omega

lemma mem_stackPages_above {base first pages page : ℕ} :
    page ∈ stackPages (above base first) pages ↔ ∃ i < pages, page = above base (first + i) := by
  simp only [stackPages, List.mem_map, List.mem_range, above_add, pageContaining_above, eq_comm]

/-- The pages of a stack are those it is made of. -/
lemma pages_above (base first count : ℕ) :
    Stack.pages ⟨above base first, above base (first + count)⟩
      = stackPages (above base first) count := by
  rw [Stack.pages, Stack.size, ← above_add, Nat.add_sub_cancel_left,
    Nat.mul_div_cancel _ (by decide : 0 < frameSize)]

/-- What comes back with pages placed, or with an error and none, fails no assertion, and where it
fails, nothing is left. -/
lemma outcome_undone {α : Type} {x : Eff (Site σ) MapError α}
    (h : (∃ v site' placed, x site = (.ok v, site') ∧ Placed mapper before placed site')
      ∨ ∃ err site', x site = (.error err, site') ∧ Placed mapper before [] site') :
    (x site).2.stopped = false ∧ ∀ err site', x site = (.error err, site') →
      mapper.mapped site'.mapper = before ∧ site'.out = [] := by
  rcases h with ⟨v, site₁, placed, hok, hplaced⟩ | ⟨err, site₁, herr, hplaced⟩
  · rw [hok]
    refine ⟨hplaced.running, fun err site' hrun => ?_⟩
    cases hrun
  · rw [herr]
    refine ⟨hplaced.running, fun err' site' hrun => ?_⟩
    obtain rfl : site₁ = site' := (Prod.mk.inj hrun).2
    exact hplaced.unchanged

/-- Where it comes back with three stacks, they are where they belong, and the pages placed are
theirs. -/
lemma mapKernelStacks_placed (hlaw : mapper.Lawful) (h : Placed mapper before [] site)
    {base : ℕ} {kernel doubleFault syscall : Stack} {site' : Site σ}
    (hrun : mapKernelStacks mapper base site = (.ok (kernel, doubleFault, syscall), site')) :
    layout base = (kernel, doubleFault, syscall) ∧ ∃ placed, Placed mapper before placed site'
      ∧ placed.map Prod.fst = stackPages (above base 1) 16
        ++ stackPages (above base 18) 4 ++ stackPages (above base 23) 4 := by
  rcases mapKernelStacks_spec hlaw h base with ⟨site₁, placed, hok, hplaced, hpages⟩
    | ⟨err, site₁, herr, -⟩
  · obtain ⟨hstacks, hsite⟩ := Prod.mk.inj (hok.symm.trans hrun)
    obtain rfl : site₁ = site' := hsite
    exact ⟨Except.ok.inj hstacks, placed, hplaced, hpages⟩
  · rw [herr] at hrun
    cases hrun

/-- What is placed is mapped as a stack should be, each page to a frame of its own. -/
lemma Placed.own {placed : List (ℕ × PhysFrame)} (h : Placed mapper before placed site)
    {page : ℕ} (hpage : page ∈ placed.map Prod.fst) : ∃ frame flags,
      mapper.mapped site.mapper page = some (frame, flags)
        ∧ flags.writable = true ∧ flags.executable = false
        ∧ ∀ other ∈ placed.map Prod.fst, ∀ flags',
          mapper.mapped site.mapper other = some (frame, flags') → other = page := by
  obtain ⟨x, hx, rfl⟩ := List.mem_map.mp hpage
  refine ⟨x.2, _, h.here x hx, rfl, rfl, fun other hother flags' hother' => ?_⟩
  obtain ⟨y, hy, rfl⟩ := List.mem_map.mp hother
  rw [h.here y hy] at hother'
  have hsame : y.2 = x.2 := (Prod.mk.inj (Option.some.inj hother')).1
  exact congrArg Prod.fst (List.inj_on_of_nodup_map h.frames hy hx hsame)

/-- A guard is a page of none of the three, so it is mapped no more than before. -/
lemma Placed.guard {placed : List (ℕ × PhysFrame)} {base : ℕ}
    (h : Placed mapper before placed site)
    (hpages : placed.map Prod.fst = stackPages (above base 1) 16
      ++ stackPages (above base 18) 4 ++ stackPages (above base 23) 4)
    {k : ℕ} (hk : k ∈ [0, 17, 22, 27]) :
    mapper.mapped site.mapper (above base k) = before (above base k) := by
  refine h.elsewhere _ ?_
  rw [hpages, List.mem_append, List.mem_append, mem_stackPages_above, mem_stackPages_above,
    mem_stackPages_above]
  simp only [List.mem_cons, List.not_mem_nil, or_false] at hk
  simp only [above_inj]
  omega

/-- **Mapping stacks is all or nothing.** Over any lawful mapper, any frames and whatever is
mapped: if mapping a stack of any size, or the three kernel stacks, fails, what is mapped is
exactly what was mapped before and every frame taken for a stack has been given back. If the three
are mapped where nothing was, they are as large as they should be and do not overlap; every page
of each is mapped, writable and not executable, to a frame no other page of theirs has; and the
page below each and the page above the last are not mapped. However it goes, no assertion on the
way fails. -/
theorem mapKernelStacks_allOrNothing (hlaw : mapper.Lawful) {storage : List (BitVec 64)}
    {map : List MemoryRegion} {frames : BitmapFrameAllocator}
    {trace : List BitmapFrameAllocator.Event}
    (hframes : BitmapFrameAllocator.Run storage map frames trace) (s : σ) :
    (∀ guard pages, (mapWithGuard mapper guard pages ⟨s, frames, [], false⟩).2.stopped = false
        ∧ ∀ err site', mapWithGuard mapper guard pages ⟨s, frames, [], false⟩
          = (.error err, site') →
          mapper.mapped site'.mapper = mapper.mapped s ∧ site'.out = [])
      ∧ ∀ base, (mapKernelStacks mapper base ⟨s, frames, [], false⟩).2.stopped = false
        ∧ (∀ err site', mapKernelStacks mapper base ⟨s, frames, [], false⟩ = (.error err, site') →
          mapper.mapped site'.mapper = mapper.mapped s ∧ site'.out = [])
        ∧ ∀ kernel doubleFault syscall site',
          mapKernelStacks mapper base ⟨s, frames, [], false⟩
            = (.ok (kernel, doubleFault, syscall), site') →
          (∀ i < 28, mapper.mapped s (pageContaining base + i * frameSize) = none) →
          (kernel.size = kernelStackPages * frameSize
            ∧ doubleFault.size = doubleFaultStackPages * frameSize
              ∧ syscall.size = syscallStackPages * frameSize)
            ∧ (kernel.top ≤ doubleFault.bottom ∧ doubleFault.top ≤ syscall.bottom)
            ∧ (∀ page ∈ kernel.pages ++ doubleFault.pages ++ syscall.pages, ∃ frame flags,
              mapper.mapped site'.mapper page = some (frame, flags)
                ∧ flags.writable = true ∧ flags.executable = false
                ∧ ∀ other ∈ kernel.pages ++ doubleFault.pages ++ syscall.pages, ∀ flags',
                  mapper.mapped site'.mapper other = some (frame, flags') → other = page)
            ∧ ∀ guard ∈ [kernel.bottom - frameSize, doubleFault.bottom - frameSize,
              syscall.bottom - frameSize,
                syscall.top], mapper.mapped site'.mapper guard = none := by
  have hstart : Placed mapper (mapper.mapped s) [] ⟨s, frames, [], false⟩ :=
    ⟨supply_of_run hframes, .nil, .nil, nofun, nofun, fun _ _ => rfl, nofun, rfl, rfl⟩
  have hundone : ∀ base, (mapKernelStacks mapper base ⟨s, frames, [], false⟩).2.stopped = false
      ∧ ∀ err site', mapKernelStacks mapper base ⟨s, frames, [], false⟩ = (.error err, site') →
        mapper.mapped site'.mapper = mapper.mapped s ∧ site'.out = [] := by
    intro base
    refine outcome_undone ?_
    rcases mapKernelStacks_spec hlaw hstart base with ⟨site₁, placed, hok, hplaced, -⟩ | herr
    · exact .inl ⟨_, site₁, placed, hok, hplaced⟩
    · exact .inr herr
  refine ⟨fun guard pages => outcome_undone ?_, fun base => ⟨(hundone base).1, (hundone base).2,
    fun kernel doubleFault syscall site' hrun hnone => ?_⟩⟩
  · rcases mapWithGuard_spec hlaw hstart guard pages with ⟨site₁, mine, hok, hplaced, -⟩ | herr
    · exact .inl ⟨_, site₁, mine, hok, hplaced⟩
    · exact .inr herr
  obtain ⟨hlayout, placed, hplaced, hpages⟩ := mapKernelStacks_placed hlaw hstart hrun
  rw [layout, Prod.mk.injEq, Prod.mk.injEq] at hlayout
  obtain ⟨rfl, rfl, rfl⟩ := hlayout
  -- the pages of the three stacks are those placed, and a guard lies below each
  have hall : Stack.pages ⟨above base 1, above base 17⟩ ++ Stack.pages
      ⟨above base 18, above base 22⟩
      ++ Stack.pages ⟨above base 23, above base 27⟩ = placed.map Prod.fst := by
    rw [hpages, pages_above base 1 16, pages_above base 18 4, pages_above base 23 4]
  have hbelow : ∀ k, above base (k + 1) - frameSize = above base k := fun k => by
    rw [← above_add, Nat.one_mul, Nat.add_sub_cancel]
  rw [hall]
  refine ⟨⟨?_, ?_, ?_⟩, ⟨?_, ?_⟩, fun page hpage => hplaced.own hpage, fun guard hguard => ?_⟩
  · simp only [Stack.size, above, kernelStackPages, frameSize]
    omega
  · simp only [Stack.size, above, doubleFaultStackPages, frameSize]
    omega
  · simp only [Stack.size, above, syscallStackPages, frameSize]
    omega
  · simp only [above, frameSize]
    omega
  · simp only [above, frameSize]
    omega
  · obtain ⟨k, hk, hsmall, rfl⟩ : ∃ k ∈ [0, 17, 22, 27], k < 28 ∧ guard = above base k := by
      simp only [List.mem_cons, List.not_mem_nil, or_false, hbelow] at hguard
      rcases hguard with rfl | rfl | rfl | rfl
      · exact ⟨0, by decide, by decide, rfl⟩
      · exact ⟨17, by decide, by decide, rfl⟩
      · exact ⟨22, by decide, by decide, rfl⟩
      · exact ⟨27, by decide, by decide, rfl⟩
    rw [hplaced.guard hpages hk]
    exact hnone k hsmall

end Whole

/-! ### The mapper of the source's tests -/

/-- The mapper of the source's tests: a table of pages. -/
def fakeMap (page : ℕ) (frame : PhysFrame) (flags : PageFlags)
    (s : ℕ → Option (PhysFrame × PageFlags)) :
    Except MapError Unit × (ℕ → Option (PhysFrame × PageFlags)) :=
  match s page with
  | some _ => (.error .alreadyMapped, s)
  | none => (.ok (), Function.update s page (some (frame, flags)))

/-- Takes a page out of it. -/
def fakeUnmap (page : ℕ) (s : ℕ → Option (PhysFrame × PageFlags)) :
    Except UnmapError PhysFrame × (ℕ → Option (PhysFrame × PageFlags)) :=
  match s page with
  | some (frame, _) => (.ok frame, Function.update s page none)
  | none => (.error .notMapped, s)

/-- A table of pages, which needs no frames. -/
def fakeMapper : PageMapper (ℕ → Option (PhysFrame × PageFlags)) where
  map page frame flags site :=
    ((fakeMap page frame flags site.1).1, (fakeMap page frame flags site.1).2, site.2)
  unmap := fakeUnmap
  mapped s := s

lemma fakeMapper_lawful : fakeMapper.Lawful where
  map_ok {page frame flags s frames s' frames'} h := by
    rcases hs : s page with _ | _
    · simp only [fakeMapper, fakeMap, hs, Prod.mk.injEq] at h
      exact ⟨hs, h.2.1.symm⟩
    · simp [fakeMapper, fakeMap, hs] at h
  map_error {page frame flags s frames err s' frames'} h := by
    rcases hs : s page with _ | _
    · simp [fakeMapper, fakeMap, hs] at h
    · simp only [fakeMapper, fakeMap, hs, Prod.mk.injEq] at h
      exact h.2.1.symm
  map_frames := .refl
  unmap_ok {page frame flags s} h := by
    have hs : s page = some (frame, flags) := h
    exact ⟨Function.update s page none, by simp [fakeMapper, fakeUnmap, hs], rfl⟩
  unmap_error {page s err s'} h := by
    rcases hs : s page with _ | _
    · simp only [fakeMapper, fakeUnmap, hs, Prod.mk.injEq] at h
      exact h.2.symm
    · simp [fakeMapper, fakeUnmap, hs] at h

/-- The base of the stacks in the tests, and what they start from. -/
def testBase : ℕ := 0xffff810000000000

/-- An empty table of pages beside a small allocator. -/
def testSite (words : List (BitVec 64)) (pages : ℕ) : Site (ℕ → Option (PhysFrame × PageFlags)) :=
  ⟨fun _ => none, .new words [⟨0x1000, pages, .usable⟩], [], false⟩

/-- Sixty-four pages are enough for the three stacks, which then are mapped between their guards;
with four, none is mapped and the four are free again. -/
theorem mapKernelStacks_allOrNothing_tests :
    let enough := mapKernelStacks fakeMapper testBase (testSite [0, 0] 64)
    let few := mapKernelStacks fakeMapper testBase (testSite [0] 4)
    (enough.1 = .ok (layout testBase)
      ∧ fakeMapper.mapped enough.2.mapper (above testBase 27) = none)
      ∧ few.1 = .error .outOfFrames ∧ fakeMapper.mapped few.2.mapper
        = fakeMapper.mapped (fun _ => none)
      ∧ few.2.frames.free = 4 := by
  intro enough few
  have hok : enough.1 = .ok (layout testBase) := by decide +kernel
  have herr : few.1 = .error .outOfFrames := by decide +kernel
  have henough := Prod.fst_eq_iff.mp hok
  have hfew := Prod.fst_eq_iff.mp herr
  have hguards :=
    ((mapKernelStacks_allOrNothing fakeMapper_lawful .new fun _ => none).2 testBase).2.2
    _ _ _ _ henough fun _ _ => rfl
  have hnothing :=
    ((mapKernelStacks_allOrNothing fakeMapper_lawful .new fun _ => none).2 testBase).2.1 _ _ hfew
  have hguard := hguards.2.2.2 (above testBase 27)
    (by simp only [List.mem_cons, true_or, or_true])
  exact ⟨⟨hok, hguard⟩, herr, hnothing.1, by decide +kernel⟩

end Harlan.Stacks
