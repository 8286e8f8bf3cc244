import Mathlib.Tactic
import Harlan.Arch.Access
import Harlan.Loader

/-!
The program in memory is the program of the file (`kernel/src/process.rs`, `load`).

Each page the loader maps is a `Wanted`: its address, the bytes it is to hold and the rights it is
to have. The loader visits them in order; what it has done so far is an `Image`.

* `wantedPage`, `wantedStack`: the pages of a segment, and the stack.
* `wantedPage_byte`: what a byte of a segment is, from the file.
* `Image`: every page wanted so far is mapped, once, to a frame that is its own and holds its
  bytes.
* `spawnElf_builds`: a process that was built is the one the file describes.
-/

namespace Harlan

open Paging (Memory FrameSource PageTables Half OwnHalf OpenHalf LeafAt Rights tablesOf)
open Radix (follow Reached)
open Eff (Triple)

/-! ### Bytes of memory -/

/-- The byte at a physical address. -/
def byteAt (mem : Memory) (phys : ℕ) : UInt8 :=
  bytesOf (mem (pageContaining phys)) (phys % frameSize)

lemma bytesOf_wordsOf {bytes : ByteMemory} {a : ℕ} (ha : a < frameSize) :
    bytesOf (wordsOf bytes) a = bytes a := by
  rw [frameSize] at ha
  have hindex : (Fin.ofNat 512 (a / 8)).val = a / 8 := Nat.mod_eq_of_lt (by omega)
  rw [bytesOf, wordsOf, hindex, getWord_byte (Nat.mod_lt a (by norm_num)), Nat.div_add_mod]

lemma bytesOf_zero (a : ℕ) : bytesOf (fun _ => 0) a = 0 := by
  simp [bytesOf]

lemma byteAt_frame (mem : Memory) (frame : PhysFrame) (va : ℕ) :
    byteAt mem (frame.start + va % frameSize) = bytesOf (mem frame.start) (va % frameSize) := by
  have halign := frame.aligned
  have hlt : va % frameSize < frameSize := Nat.mod_lt va (by decide)
  have hoffset : (frame.start + va % frameSize) % frameSize = va % frameSize := by
    rw [Nat.add_mod, halign, Nat.zero_add, Nat.mod_mod, Nat.mod_mod]
  rw [byteAt, pageContaining, hoffset, Nat.add_sub_cancel]

/-! ### Pages to be built -/

/-- A page of a process: what it is to hold, and what may be done there. -/
structure Wanted where
  page : ℕ
  bytes : ByteMemory
  flags : PageFlags

/-- A page of a segment: what of it the file carries, and zero around that. -/
def wantedPage (file : List UInt8) (segment : Elf.Segment) (page : ℕ) : Wanted :=
  ⟨page, putBytes (fun _ => 0) (segment.addr - page) (pageBytes segment file page),
    .ofUser segment.writable segment.executable⟩

/-- The stack page: zeros, writable, not code. -/
def wantedStack : Wanted := ⟨stackBase, fun _ => 0, .ofUser true false⟩

/-- The pages of a program, in the order they are mapped. -/
def wantedPages (file : List UInt8) (segments : List Elf.Segment) : List Wanted :=
  segments.flatMap fun segment => segment.pages.map (wantedPage file segment)

/-- A byte of a segment is the file's, up to where the file has it, and zero from there on. -/
lemma wantedPage_byte {file : List UInt8} {segment : Elf.Segment} {i : ℕ} :
    (wantedPage file segment (pageContaining (segment.addr + i))).bytes
    ((segment.addr + i) % frameSize)
      = if i < segment.fileSize then file.getD (segment.fileOffset + i) 0 else 0 := by
  set va := segment.addr + i with hva
  have hpage : pageContaining va = va - va % frameSize := rfl
  have hmod : va % frameSize < frameSize := Nat.mod_lt va (by decide)
  have hle : va % frameSize ≤ va := Nat.mod_le va frameSize
  simp only [wantedPage, putBytes, pageBytes]
  by_cases hi : i < segment.fileSize
  · -- the byte is copied, from `i` bytes into what the file has of the segment
    have hinto : pageContaining va - segment.addr < segment.fileSize := by omega
    have htaken : (segment.addr - pageContaining va) ≤ va % frameSize
        ∧ va % frameSize < (segment.addr - pageContaining va)
          + min (segment.fileSize - (pageContaining va - segment.addr))
              (frameSize - (segment.addr - pageContaining va)) := by
      omega
    have hplace : segment.fileOffset + (pageContaining va - segment.addr)
        + (va % frameSize - (segment.addr - pageContaining va)) = segment.fileOffset + i := by
      omega
    rw [if_pos hinto, if_pos hi, List.length_take, List.length_drop]
    split
    · rw [List.getD_eq_getElem?_getD, List.getD_eq_getElem?_getD, List.getElem?_take,
        if_pos (by omega), List.getElem?_drop, hplace]
    · rw [List.getD_eq_getElem?_getD, List.getElem?_eq_none (by omega)]
      rfl
  · rw [if_neg hi]
    by_cases hinto : pageContaining va - segment.addr < segment.fileSize
    · rw [if_pos hinto, if_neg]
      rw [List.length_take, List.length_drop]
      omega
    · rw [if_neg hinto, if_neg]
      rw [List.length_nil]
      omega

/-! ### What has been built -/

/-- A frame is in use, but not as a table, and holds some bytes. -/
structure Holds (space : PageTables) (frame : PhysFrame) (bytes : ByteMemory)
    (k : Kernel) : Prop where
  low : frame.start < 2 ^ 52
  taken : ¬k.2.IsFree frame
  apart : frame.start ∉ tablesOf k.1 space.root
  bytes : ∀ a < frameSize, bytesOf (k.1 frame.start) a = bytes a

/-- The pages wanted so far are there, in frames other than those of `avoid`. -/
structure Image (space : PageTables) (mem₀ : Memory) (wanted : List Wanted) (avoid : Set ℕ)
    (k : Kernel) : Prop where
  loading : Loading space mem₀ k
  opened : OpenHalf k.1 space.root
  lower : ∀ w ∈ wanted, w.page.testBit 47 = false
  placed : ∀ w ∈ wanted, ∃ frame, frame.start ∉ avoid ∧ Holds space frame w.bytes k
    ∧ LeafAt k.1 space.root w.page (PageTables.leafEntry frame w.flags)
  once : (wanted.map Wanted.page).Nodup

section Image

variable {space : PageTables} {mem₀ mem : Memory} {wanted : List Wanted} {kf kf' : KernelFrames}
  {avoid : Set ℕ}

/-- Writing to a frame that is no table and none of the pages. -/
lemma Image.fill (h : Image space mem₀ wanted avoid (mem, kf)) {n : ℕ}
    (hn : n ∉ tablesOf mem space.root) (hfar : n ∈ avoid) (entries : Fin 512 → ℕ)
    (hready : kf'.Ready) (hfree : ∀ frame, kf'.IsFree frame → kf.IsFree frame) :
    Image space mem₀ wanted avoid (Radix.fill mem n entries, kf') := by
  have hfollow : ∀ q : List (Fin 512), q.length ≤ 4 →
      follow Paging.next (Radix.fill mem n entries) space.root q
        = follow Paging.next mem space.root q := fun q hq => Radix.follow_fill hn hq
  have hentry : ∀ p x, p.length ≤ 3 → follow Paging.next mem space.root p = some x →
      Radix.fill mem n entries x = mem x := by
    intro p x hp hx
    refine Radix.fill_of_ne ?_
    rintro rfl
    exact hn ⟨p, hp, hx⟩
  refine ⟨h.loading.fill hn entries hready hfree, fun p x j hp hown hx hpres => ?_, h.lower,
    fun w hw => ?_, h.once⟩
  · rw [hfollow p (by omega)] at hx
    dsimp only at hpres ⊢
    rw [hentry p x (by omega) hx] at hpres ⊢
    exact h.opened p x j hp hown hx hpres
  · obtain ⟨frame, hframe, hholds, hpres, table, htable, hleaf⟩ := h.placed w hw
    have hne : frame.start ≠ n := by
      rintro rfl
      exact hframe hfar
    refine ⟨frame, hframe, ⟨hholds.low, fun hf => hholds.taken (hfree frame hf), ?_, ?_⟩,
      hpres, table, ?_, ?_⟩
    · rw [Paging.tablesOf_congr hfollow]
      exact hholds.apart
    · dsimp only
      rw [Radix.fill_of_ne hne]
      exact hholds.bytes
    · rw [hfollow _ (by simp), htable]
    · dsimp only at htable hleaf ⊢
      rw [hentry _ table (by simp) htable, hleaf]

/-- A frame taken for the next page, beside those before it. -/
def NextPage (space : PageTables) (mem₀ : Memory) (wanted : List Wanted) (frame : PhysFrame)
    (bytes : ByteMemory) (k : Kernel) : Prop :=
  Image space mem₀ wanted {frame.start} k ∧ Holds space frame bytes k

lemma takeOrFail_image (purpose : FramePurpose) :
    Triple (Image space mem₀ wanted ∅) (takeOrFail purpose)
      (fun frame => NextPage space mem₀ wanted frame fun _ => 0) fun _ _ => True := by
  rintro ⟨mem, kf⟩ h
  rw [takeOrFail, Eff.bind_apply, takeFrame, Eff.step]
  dsimp only
  obtain hnone | ⟨frame, kf', hsome, hgrows, hfree, hlow, hother⟩ :=
    KernelFrames.allocateFor_cases h.loading.ready purpose
  · rw [FrameSource.allocateFrame, KernelFrames.source_take, hnone]
    trivial
  · rw [FrameSource.allocateFrame, KernelFrames.source_take, hsome]
    have hout := h.loading.apart frame hfree
    -- what was free is none of the frames in use
    have hfar : Image space mem₀ wanted {frame.start} (mem, kf) := by
      refine ⟨h.loading, h.opened, h.lower, fun w hw => ?_, h.once⟩
      obtain ⟨other, -, hholds, hleaf⟩ := h.placed w hw
      refine ⟨other, fun heq => ?_, hholds, hleaf⟩
      have hsame : other.number = frame.number := by
        rw [PhysFrame.number, PhysFrame.number, Set.mem_singleton_iff.mp heq]
      refine hholds.taken ?_
      rw [KernelFrames.IsFree, hsame]
      exact hfree
    refine ⟨hfar.fill hout (Set.mem_singleton _) _ hgrows.ready hgrows.free, hlow,
      fun hf => ((hother frame).mp hf).2 rfl, ?_, fun a _ => ?_⟩
    · show frame.start ∉ tablesOf (Radix.fill mem frame.start fun _ => 0) space.root
      rwa [Paging.tablesOf_congr fun q hq => Radix.follow_fill hout hq]
    · show bytesOf (Radix.fill mem frame.start (fun _ => 0) frame.start) a = 0
      rw [Radix.fill_self]
      exact bytesOf_zero a

lemma copyTo_image {ε : Type} {frame : PhysFrame} {before : ByteMemory} (skip : ℕ)
    (bytes : List UInt8) :
    Triple (NextPage space mem₀ wanted frame before) (copyTo ε frame skip bytes)
      (fun _ => NextPage space mem₀ wanted frame (putBytes before skip bytes)) fun _
        _ => True := by
  refine Triple.step ?_
  rintro ⟨mem, kf⟩ ⟨himage, hholds⟩
  refine ⟨himage.fill hholds.apart (Set.mem_singleton _) _ himage.loading.ready fun _ hf => hf,
    hholds.low, hholds.taken, ?_, fun a ha => ?_⟩
  · dsimp only
    rw [Paging.tablesOf_congr fun q hq => Radix.follow_fill hholds.apart hq]
    exact hholds.apart
  · dsimp only
    rw [Radix.fill_self, bytesOf_wordsOf ha, putBytes, putBytes]
    have hbefore := hholds.bytes a ha
    dsimp only at hbefore
    rw [hbefore]

/-- The page is mapped, and is one of those that are there. -/
lemma mapPage_image {page : ℕ} {frame : PhysFrame} {bytes : ByteMemory} {flags : PageFlags}
    (hpage : page.testBit 47 = false) (huser : flags.user = true) :
    Triple (NextPage space mem₀ wanted frame bytes) (mapPage space page frame flags)
      (fun _ => Image space mem₀ (wanted ++ [⟨page, bytes, flags⟩]) ∅) fun _ _ => True := by
  rintro ⟨mem, kf⟩ ⟨himage, hholds⟩
  have hloading := mapPage_loading hpage frame flags _ himage.loading
  have hfresh := KernelFrames.fresh himage.loading.ready .pageTable himage.loading.apart 3
  have hown := himage.loading.own
  have hcall : mapPage space page frame flags (mem, kf)
      = space.map (KernelFrames.source .pageTable) page frame flags mem kf := rfl
  rw [hcall] at hloading ⊢
  rcases hmap : space.map (KernelFrames.source .pageTable) page frame flags mem kf
    with ⟨err | _, mem', kf'⟩
  · trivial
  rw [hmap] at hloading
  dsimp only at hloading ⊢
  have hgrows := KernelFrames.later_grows himage.loading.ready
    (@Paging.map_cases _ Half.lower.Slot
    space _ _ frame flags _ _ hfresh (Paging.tableIndex_lower.mpr hpage)).1
  have htables := @Paging.map_tablesOf_subset _ _ _ _ _ frame flags _ hown hpage hfresh
  have hopen := @Paging.map_open _ _ _ _ _ frame flags _ himage.opened hown huser hpage hfresh
  obtain ⟨hnone, hleaf⟩ := @Paging.map_leafAt_new _ _ _ _ _ frame flags _ hown hpage hfresh
    (by rw [hmap])
  have hkeep := fun page' entry hentry hpage' =>
    @Paging.map_leafAt _ _ _ _ page frame flags _ page'
    entry hentry hown hpage hpage' hfresh
  have hsame := fun n hn htaken =>
    @Paging.map_same _ _ _ _ _ frame flags _ hpage hfresh n hn htaken
  rw [hmap] at hgrows htables hopen hleaf hkeep hsame
  dsimp only at hgrows htables hopen hleaf hkeep hsame
  -- a frame in use stays what it is
  have hstays : ∀ (other : PhysFrame) (bytes : ByteMemory), Holds space other bytes (mem, kf) →
      Holds space other bytes (mem', kf') := by
    intro other bytes hother
    have htaken : other.start ∉ (KernelFrames.source .pageTable).taken kf kf' := by
      intro htaken
      obtain ⟨f, hstart, hfree, -⟩ := KernelFrames.taken_free himage.loading.ready htaken
      have hnumber : f.number = other.number := by
        rw [PhysFrame.number, PhysFrame.number, hstart]
      refine hother.taken ?_
      rw [KernelFrames.IsFree, ← hnumber]
      exact hfree
    refine ⟨hother.low, fun hf => hother.taken (hgrows.free other hf), fun hmem => ?_, ?_⟩
    · rcases htables hmem with hold | hnew
      · exact hother.apart hold
      · exact htaken hnew
    · dsimp only
      rw [hsame other.start hother.apart htaken]
      exact hother.bytes
  refine ⟨hloading, hopen, fun w hw => ?_, fun w hw => ?_, ?_⟩
  · rw [List.mem_append, List.mem_singleton] at hw
    rcases hw with hw | rfl
    · exact himage.lower w hw
    · exact hpage
  · rw [List.mem_append, List.mem_singleton] at hw
    rcases hw with hw | rfl
    · obtain ⟨other, -, hother, hentry⟩ := himage.placed w hw
      exact ⟨other, Set.notMem_empty _, hstays other _ hother,
        hkeep _ _ hentry (himage.lower w hw)⟩
    · exact ⟨frame, Set.notMem_empty _, hstays frame bytes hholds, hleaf⟩
  · rw [List.map_append, List.map_singleton]
    refine List.nodup_append.mpr ⟨himage.once, List.nodup_singleton _, ?_⟩
    rintro x hx y hy rfl
    obtain rfl := List.mem_singleton.mp hy
    obtain ⟨w, hw, hwpage⟩ := List.mem_map.mp hx
    obtain ⟨other, -, -, hentry⟩ := himage.placed w hw
    rw [hwpage] at hentry
    exact hnone _ hentry

end Image

/-! ### The loader -/

section Load

variable {space : PageTables} {mem₀ : Memory} {wanted : List Wanted}
  {owned writable : List PhysRange}

/-- What a step of the loader leaves: the pages, and the ranges recorded so far. -/
def Loaded (space : PageTables) (mem₀ : Memory) (wanted : List Wanted)
    (owned writable : List PhysRange) (b : Building) (k : Kernel) : Prop :=
  (b.space = space ∧ b.owned = owned ∧ b.writable = writable) ∧ Image space mem₀ wanted ∅ k

/-- The range of a segment. -/
def segmentRange (segment : Elf.Segment) : PhysRange := ⟨segment.addr, segment.memorySize⟩

/-- Taking a frame down changes neither the space nor the ranges. -/
lemma took_image {b : Building} {P : Kernel → Prop} (frame : PhysFrame) (purpose : FramePurpose)
    (hb : b.space = space ∧ b.owned = owned ∧ b.writable = writable) :
    Triple P (Eff.mapError (·, b) (liftBuild (b.took frame purpose)))
      (fun b' k => (b'.space = space ∧ b'.owned = owned ∧ b'.writable = writable) ∧ P k)
      fun _ _ => True := by
  refine Triple.mapError ?_
  rcases htook : b.took frame purpose with err | b'
  · exact Triple.fail fun _ _ => trivial
  · refine Triple.pure fun k hk => ⟨?_, hk⟩
    rw [Building.took, ite_error_eq_ok] at htook
    obtain ⟨-, htook⟩ := htook
    cases htook
    exact hb

/-- Taking a range down. -/
lemma own_image {b : Building} (range : PhysRange) (w : Bool)
    (hb : b.space = space ∧ b.owned = owned ∧ b.writable = writable) :
    Triple (Image space mem₀ wanted ∅) (Eff.mapError (·, b) (liftBuild (b.own range w)))
      (Loaded space mem₀ wanted (owned ++ [range]) (if w then writable ++ [range] else writable))
      fun _ _ => True := by
  refine Triple.mapError ?_
  rcases hown : b.own range w with err | b'
  · exact Triple.fail fun _ _ => trivial
  · refine Triple.pure fun k hk => ⟨?_, hk⟩
    rw [Building.own, ite_error_eq_ok] at hown
    obtain ⟨-, hown⟩ := hown
    cases hown
    obtain ⟨rfl, rfl, rfl⟩ := hb
    exact ⟨rfl, rfl, rfl⟩

lemma loadPage_image {segment : Elf.Segment} {file : List UInt8} {page : ℕ} {b : Building}
    (hpage : page.testBit 47 = false)
    (hb : b.space = space ∧ b.owned = owned ∧ b.writable = writable) :
    Triple (Image space mem₀ wanted ∅) (loadPage segment file page b)
      (Loaded space mem₀ (wanted ++ [wantedPage file segment page]) owned writable)
      fun _ _ => True := by
  refine Triple.bind (Triple.mapError (takeOrFail_image .kernel)) fun frame => ?_
  refine Triple.bind (took_image frame .kernel hb) fun b' => Triple.fact fun hb' => ?_
  refine Triple.bind (copyTo_image _ _) fun _ => ?_
  refine Triple.bind (Q := fun _ => Image space mem₀ (wanted ++ [wantedPage file segment page]) ∅)
    (Triple.mapError ?_) fun _ => Triple.pure fun k h => ⟨hb', h⟩
  rw [hb'.1]
  exact mapPage_image hpage rfl

lemma loadPages_image {segment : Elf.Segment} {file : List UInt8} {pages : List ℕ} {b : Building}
    (hpages : ∀ page ∈ pages, page.testBit 47 = false)
    (hb : b.space = space ∧ b.owned = owned ∧ b.writable = writable) :
    Triple (Image space mem₀ wanted ∅) (loadPages segment file pages b)
      (Loaded space mem₀ (wanted ++ pages.map (wantedPage file segment)) owned writable)
      fun _ _ => True := by
  induction pages generalizing b wanted with
  | nil =>
      rw [List.map_nil, List.append_nil]
      exact Triple.pure fun _ h => ⟨hb, h⟩
  | cons page rest ih =>
      rw [List.map_cons, List.append_cons]
      refine Triple.bind (loadPage_image (hpages page List.mem_cons_self) hb) fun b' =>
        Triple.fact fun hb' => ?_
      exact ih (fun page' h => hpages page' (List.mem_cons_of_mem page h)) hb'

lemma loadSegments_image {file : List UInt8} {segments : List Elf.Segment} {b : Building}
    (hpages : ∀ segment ∈ segments, ∀ page ∈ segment.pages, page.testBit 47 = false)
    (hb : b.space = space ∧ b.owned = owned ∧ b.writable = writable) :
    Triple (Image space mem₀ wanted ∅) (loadSegments file segments b)
      (Loaded space mem₀ (wanted ++ wantedPages file segments)
        (owned ++ segments.map segmentRange)
        (writable ++ (segments.filter Elf.Segment.writable).map segmentRange)) fun _
          _ => True := by
  induction segments generalizing b wanted owned writable with
  | nil =>
      simp only [wantedPages, List.flatMap_nil, List.map_nil, List.filter_nil, List.append_nil]
      exact Triple.pure fun _ h => ⟨hb, h⟩
  | cons segment rest ih =>
      refine Triple.bind (loadPages_image (hpages segment List.mem_cons_self) hb) fun b' =>
        Triple.fact fun hb' => ?_
      refine Triple.bind (own_image _ _ hb') fun b'' => Triple.fact fun hb'' => ?_
      have hrest := @ih (wanted ++ segment.pages.map (wantedPage file segment)) _ _ b''
        (fun segment' h => hpages segment' (List.mem_cons_of_mem segment h)) hb''
      have hwritable : (if segment.writable then writable ++ [segmentRange segment] else writable)
            ++ (rest.filter Elf.Segment.writable).map segmentRange
          = writable ++ ((segment :: rest).filter Elf.Segment.writable).map segmentRange := by
        cases hw : segment.writable with
        | true => simp [hw]
        | false => simp [hw]
      have hpagesEq : wanted ++ segment.pages.map (wantedPage file segment)
          ++ wantedPages file rest
          = wanted ++ wantedPages file (segment :: rest) := by
        rw [wantedPages, wantedPages, List.flatMap_cons, List.append_assoc]
      rw [← hwritable, ← hpagesEq, List.map_cons, List.append_cons]
      exact hrest

lemma load_image {program : Elf.Program} {file : List UInt8}
    (hpages : ∀ segment ∈ program.segments, ∀ page ∈ segment.pages, page.testBit 47 = false) :
    Triple (Image space mem₀ [] ∅) (load program file (Building.new space))
      (Loaded space mem₀ (wantedPages file program.segments ++ [wantedStack])
        (program.segments.map segmentRange ++ [⟨stackBase, frameSize⟩])
        ((program.segments.filter Elf.Segment.writable).map segmentRange
          ++ [⟨stackBase, frameSize⟩]))
      fun _ _ => True := by
  refine Triple.bind (loadSegments_image hpages ⟨rfl, rfl, rfl⟩) fun b₁ =>
    Triple.fact fun hb₁ => ?_
  refine Triple.bind (Triple.mapError (takeOrFail_image .stack)) fun frame => ?_
  refine Triple.bind (took_image frame .stack hb₁) fun b₂ => Triple.fact fun hb₂ => ?_
  refine Triple.bind
    (Q := fun _ => Image space mem₀ (wantedPages file program.segments ++ [wantedStack]) ∅)
    (Triple.mapError ?_) fun _ => own_image _ _ hb₂
  rw [hb₂.1]
  exact mapPage_image (by decide) rfl

end Load

/-! ### The process -/

/-- What the CPU finds in a page that is there. -/
lemma Image.access {space : PageTables} {mem₀ : Memory} {wanted : List Wanted} {avoid : Set ℕ}
    {k : Kernel} (h : Image space mem₀ wanted avoid k) {w : Wanted} (hw : w ∈ wanted) {va : ℕ}
    (hva : va < 2 ^ 47) (hpage : pageContaining va = w.page) :
    ∃ phys, space.access k.1 va
      = some (phys, ⟨w.flags.writable, w.flags.user, w.flags.executable⟩)
      ∧ byteAt k.1 phys = w.bytes (va % frameSize) := by
  obtain ⟨frame, -, hholds, hleaf⟩ := h.placed w hw
  have haccess := hleaf.access h.loading.own h.opened hva hpage
  obtain ⟨-, hwritable, hexecutable, huser, -⟩ := Paging.leafEntry_rights hholds.low w.flags
  rw [Paging.leafEntry_address hholds.low] at haccess
  refine ⟨frame.start + va % frameSize, ?_, ?_⟩
  · rw [haccess]
    simp [Rights.through, Rights.all, hwritable, hexecutable, huser]
  · rw [byteAt_frame, hholds.bytes _ (Nat.mod_lt va (by decide))]

section Pages

variable {segment : Elf.Segment}

lemma Elf.Segment.page_mem {i : ℕ} (hi : i < segment.memorySize) :
    pageContaining (segment.addr + i) ∈ segment.pages := by
  simp only [Elf.Segment.pages, Elf.Segment.endAddr, List.mem_map, List.mem_range, pageContaining,
    frameSize]
  exact ⟨(segment.addr + i) / 4096 - segment.addr / 4096, by omega, by omega⟩

lemma Elf.Segment.page_aligned {page : ℕ} (h : page ∈ segment.pages) : page % frameSize = 0 := by
  simp only [Elf.Segment.pages, List.mem_map, List.mem_range, pageContaining, frameSize] at h
  obtain ⟨index, -, rfl⟩ := h
  rw [frameSize]
  omega

end Pages

/-- A range of a segment ends where the segment does. -/
lemma segmentRange_has {segment : Elf.Segment} {addr : ℕ} (hlow : segment.endAddr ≤ 2 ^ 47) :
    (segmentRange segment).Has addr ↔ ∃ i < segment.memorySize, addr = segment.addr + i := by
  rw [Elf.Segment.endAddr] at hlow
  rw [PhysRange.Has, PhysRange.endAddr, segmentRange, if_pos (by dsimp only; omega)]
  dsimp only
  constructor
  · rintro ⟨hfirst, hlast⟩
    exact ⟨addr - segment.addr, by omega, by omega⟩
  · rintro ⟨i, hi, rfl⟩
    exact ⟨by omega, by omega⟩

lemma stackRange_has {addr : ℕ} (h : (⟨stackBase, frameSize⟩ : PhysRange).Has addr) :
    addr < 2 ^ 47 ∧ pageContaining addr = stackBase := by
  obtain ⟨hfirst, hlast⟩ := h
  have hend : (⟨stackBase, frameSize⟩ : PhysRange).endAddr = 0x00501000 := by decide
  rw [hend] at hlast
  dsimp only at hfirst
  rw [stackBase] at hfirst
  rw [pageContaining, stackBase, frameSize]
  omega

/-- What is there before anything is loaded. -/
lemma newAddressSpace_image {mapper space : PageTables} {mem : Memory} {kf : KernelFrames}
    {k : Kernel} (hready : kf.Ready)
    (hfree : ∀ frame, kf.IsFree frame → frame.start ∉ tablesOf mem mapper.root)
    (h : newAddressSpace mapper (mem, kf) = (.ok space, k)) : Image space k.1 [] ∅ k := by
  have hfresh := KernelFrames.fresh hready .pageTable hfree 1
  have hspace : mapper.newProcessSpace (KernelFrames.source .pageTable) mem kf
      = (.ok space, k.1, k.2) := by
    rw [newAddressSpace, Eff.mapError, Eff.run] at h
    dsimp only at h
    rcases hnew : mapper.newProcessSpace (KernelFrames.source .pageTable) mem kf
      with ⟨err | tables, mem', kf'⟩
    · rw [hnew] at h
      cases h
    · rw [hnew] at h
      cases h
      rfl
  obtain ⟨hopen, hlater, htaken, htables⟩ := Paging.newProcessSpace_open hfresh hspace
  have hgrows := KernelFrames.later_grows hready hlater
  refine ⟨⟨hgrows.ready, fun frame hf hmem => ?_, Paging.newProcessSpace_ownHalf hfresh hspace,
    fun _ _ _ _ _ _ => rfl⟩, hopen, fun w hw => (by cases hw), fun w hw => (by cases hw),
    List.nodup_nil⟩
  rcases htables hmem with hroot | hold
  · obtain ⟨f, hstart, -, hused⟩ := KernelFrames.taken_free hready htaken
    have hsame : f.number = frame.number := by
      rw [PhysFrame.number, PhysFrame.number, hstart, ← hroot]
    refine hused ?_
    rw [KernelFrames.IsFree, hsame]
    exact hf
  · exact hfree frame (hgrows.free frame hf) hold

/-- What a process that was built is. -/
lemma spawnElf_image {mapper : PageTables} {mem : Memory} {kf : KernelFrames} {file : List UInt8}
    {program : Elf.Program} {stack : Stack} {process : Process} {k : Kernel} (hready : kf.Ready)
    (hfree : ∀ frame, kf.IsFree frame → frame.start ∉ tablesOf mem mapper.root)
    (hpages : ∀ segment ∈ program.segments, ∀ page ∈ segment.pages, page.testBit 47 = false)
    (hspawn : spawnElf mapper program file stack (mem, kf) = (.ok process, k)) :
    process.owned = program.segments.map segmentRange ++ [⟨stackBase, frameSize⟩]
      ∧ process.writable
        = (program.segments.filter Elf.Segment.writable).map segmentRange
          ++ [⟨stackBase, frameSize⟩]
      ∧ ∃ mem₀, Image process.space mem₀
        (wantedPages file program.segments ++ [wantedStack]) ∅ k := by
  rw [spawnElf, Eff.bind_apply] at hspawn
  rcases hspace : newAddressSpace mapper (mem, kf) with ⟨err | space, k₀⟩
  · rw [hspace] at hspawn
    cases hspawn
  · rw [hspace] at hspawn
    simp only [Eff.run] at hspawn
    have hload := @load_image _ _ program file hpages k₀
      (newAddressSpace_image hready hfree hspace)
    rcases hrun : load program file (Building.new space) k₀ with ⟨⟨err, b⟩ | b, k₁⟩
    · rw [hrun] at hspawn
      cases hspawn
    · rw [hrun] at hspawn hload
      obtain ⟨⟨hbspace, howned, hwritable⟩, himage⟩ := hload
      cases hspawn
      refine ⟨howned, hwritable, k₀.1, ?_⟩
      rw [Building.finish, hbspace]
      exact himage

/-- **The loader builds the program the file describes.** For a file `elf::parse` accepts, with
its segments below `2^47`, a process `spawn_elf` builds has at every address of a segment the byte
the file has for it, or zero past what the file has; its pages have the rights of their segment,
ring 3 passes, and none is writable and executable; every range it owns is mapped for ring 3, and
those it may write are writable; and no page belongs to two segments, or to one and the stack. -/
theorem spawnElf_builds {mapper : PageTables} {mem : Memory} {kf : KernelFrames}
    {file : List UInt8} {userSpaceEnd : ℕ} {program : Elf.Program} {stack : Stack}
    {process : Process} {k : Kernel} (hready : kf.Ready)
    (hfree : ∀ frame, kf.IsFree frame → frame.start ∉ tablesOf mem mapper.root)
    (hparse : Elf.parse file userSpaceEnd = .ok program)
    (hlow : ∀ segment ∈ program.segments, segment.endAddr ≤ 2 ^ 47)
    (hspawn : spawnElf mapper program file stack (mem, kf) = (.ok process, k)) :
    (∀ segment ∈ program.segments, ∀ i < segment.memorySize, ∃ phys,
        (process.space.translate k.1 (segment.addr + i)).map Paging.Translation.phys = some phys
          ∧ some (byteAt k.1 phys)
            = if i < segment.fileSize then file[segment.fileOffset + i]? else some 0)
      ∧ (∀ segment ∈ program.segments, ¬(segment.writable = true ∧ segment.executable = true)
          ∧ ∀ page ∈ segment.pages, ∀ offset < frameSize, ∃ phys,
            process.space.access k.1 (page + offset)
              = some (phys, ⟨segment.writable, true, segment.executable⟩))
      ∧ (∀ range ∈ process.owned, ∀ addr, range.Has addr → ∃ phys r,
          process.space.access k.1 addr = some (phys, r) ∧ r.user = true)
      ∧ (∀ range ∈ process.writable, ∀ addr, range.Has addr → ∃ phys r,
          process.space.access k.1 addr = some (phys, r) ∧ r.user = true ∧ r.writable = true)
      ∧ (program.segments.flatMap Elf.Segment.pages ++ [stackBase]).Nodup := by
  have hinside : ∀ segment ∈ program.segments, segment.Inside (2 ^ 47) := by
    intro segment hsegment
    obtain ⟨hpos, -, hwrap⟩ := Elf.parse_segment hparse segment hsegment
    exact ⟨hpos, hlow segment hsegment, hwrap⟩
  have hpagesLow : ∀ segment ∈ program.segments, ∀ page ∈ segment.pages, page < 2 ^ 47 :=
    fun segment hsegment page hpage => Elf.Segment.page_lt (hinside segment hsegment) hpage
  obtain ⟨howned, hwritable, mem₀, himage⟩ := spawnElf_image hready hfree
    (fun segment hsegment page hpage =>
      Nat.testBit_lt_two_pow (hpagesLow segment hsegment page hpage))
    hspawn
  have hwanted : ∀ segment ∈ program.segments, ∀ page ∈ segment.pages,
      wantedPage file segment page ∈ wantedPages file program.segments ++ [wantedStack] :=
    fun segment hsegment page hpage => List.mem_append_left _
      (List.mem_flatMap.mpr ⟨segment, hsegment, List.mem_map_of_mem hpage⟩)
  -- an address of a segment, in the page it is in
  have hsegments : ∀ segment ∈ program.segments, ∀ i < segment.memorySize, ∃ phys,
      process.space.access k.1 (segment.addr + i)
          = some (phys, ⟨segment.writable, true, segment.executable⟩)
        ∧ byteAt k.1 phys = if i < segment.fileSize then file.getD (segment.fileOffset + i) 0
          else 0 := by
    intro segment hsegment i hi
    have hend := hlow segment hsegment
    rw [Elf.Segment.endAddr] at hend
    obtain ⟨phys, haccess, hbyte⟩ := himage.access
      (hwanted segment hsegment _ (Elf.Segment.page_mem hi)) (by omega) rfl
    rw [wantedPage_byte] at hbyte
    exact ⟨phys, haccess, hbyte⟩
  have hstack : ∀ addr, (⟨stackBase, frameSize⟩ : PhysRange).Has addr → ∃ phys,
      process.space.access k.1 addr = some (phys, ⟨true, true, false⟩) := by
    intro addr haddr
    obtain ⟨hva, hpage⟩ := stackRange_has haddr
    obtain ⟨phys, haccess, -⟩ := himage.access
      (List.mem_append_right _ (List.mem_singleton.mpr rfl)) hva hpage
    exact ⟨phys, haccess⟩
  refine ⟨fun segment hsegment i hi => ?_,
    fun segment hsegment => ⟨?_, fun page hpage offset hoffset => ?_⟩,
    fun range hrange addr haddr => ?_, fun range hrange addr haddr => ?_, ?_⟩
  · obtain ⟨phys, haccess, hbyte⟩ := hsegments segment hsegment i hi
    have htranslate := Paging.access_translate process.space k.1 (segment.addr + i)
    rw [haccess, Option.map_some] at htranslate
    refine ⟨phys, ?_, ?_⟩
    · have hphys := congrArg (Option.map Prod.fst) htranslate
      rw [Option.map_some, Option.map_map] at hphys
      exact hphys.symm
    · have hfile := (Elf.parse_carried hparse segment hsegment).inFile
      rw [hbyte]
      split
      · rw [List.getD_eq_getElem?_getD, List.getElem?_eq_getElem (by omega), Option.getD_some]
      · rfl
  · exact (Elf.parse_carried hparse segment hsegment).exclusive
  · have halign := Elf.Segment.page_aligned hpage
    have hbelow := hpagesLow segment hsegment page hpage
    have hva : page + offset < 2 ^ 47 ∧ pageContaining (page + offset) = page := by
      rw [pageContaining]
      rw [frameSize] at *
      omega
    obtain ⟨phys, haccess, -⟩ := himage.access (hwanted segment hsegment page hpage) hva.1 hva.2
    exact ⟨phys, haccess⟩
  · rw [howned, List.mem_append, List.mem_singleton, List.mem_map] at hrange
    rcases hrange with ⟨segment, hsegment, rfl⟩ | rfl
    · obtain ⟨i, hi, rfl⟩ := (segmentRange_has (hlow segment hsegment)).mp haddr
      obtain ⟨phys, haccess, -⟩ := hsegments segment hsegment i hi
      exact ⟨phys, _, haccess, rfl⟩
    · obtain ⟨phys, haccess⟩ := hstack addr haddr
      exact ⟨phys, _, haccess, rfl⟩
  · rw [hwritable, List.mem_append, List.mem_singleton, List.mem_map] at hrange
    rcases hrange with ⟨segment, hsegment, rfl⟩ | rfl
    · obtain ⟨hsegment, hw⟩ := List.mem_filter.mp hsegment
      obtain ⟨i, hi, rfl⟩ := (segmentRange_has (hlow segment hsegment)).mp haddr
      obtain ⟨phys, haccess, -⟩ := hsegments segment hsegment i hi
      exact ⟨phys, _, haccess, rfl, hw⟩
    · obtain ⟨phys, haccess⟩ := hstack addr haddr
      exact ⟨phys, _, haccess, rfl, rfl⟩
  · have hpages : (wantedPages file program.segments ++ [wantedStack]).map Wanted.page
        = program.segments.flatMap Elf.Segment.pages ++ [stackBase] := by
      rw [List.map_append, wantedPages, List.map_flatMap]
      congr 1
      refine List.flatMap_congr fun segment _ => ?_
      rw [List.map_map]
      exact List.map_id _
    rw [← hpages]
    exact himage.once

/-- An ELF of one segment over two pages: the first four bytes of the file from two bytes before
the page boundary on, and four zeroes. -/
def straddlingFile : List UInt8 :=
  (onePageFile [0xFE, 0x0F, 0x40, 0, 0, 0, 0, 0]).take 96 ++ [4, 0, 0, 0, 0, 0, 0, 0]
    ++ [8, 0, 0, 0, 0, 0, 0, 0] ++ [0, 0x10, 0, 0, 0, 0, 0, 0]

/-- The third of them is the first byte of the second page. -/
theorem spawnElf_builds_straddling :
    ∃ process k, spawnElf windowTables ⟨0x400FFE, [⟨0, 4, 0x400FFE, 8, 5⟩]⟩ straddlingFile ⟨0, 0⟩
        (Paging.identityBelow 260, sixteenFrames) = (.ok process, k)
      ∧ ∃ phys, (process.space.translate k.1 0x401000).map Paging.Translation.phys = some phys
        ∧ byteAt k.1 phys = 0x4C := by
  have hparse : Elf.parse straddlingFile Paging.kernelSpaceBase
      = .ok ⟨0x400FFE, [⟨0, 4, 0x400FFE, 8, 5⟩]⟩ := by decide +kernel
  have hok : (spawnElf windowTables ⟨0x400FFE, [⟨0, 4, 0x400FFE, 8, 5⟩]⟩ straddlingFile ⟨0, 0⟩
      (Paging.identityBelow 260, sixteenFrames)).1.isOk = true := by decide +kernel
  rcases hspawn : spawnElf windowTables ⟨0x400FFE, [⟨0, 4, 0x400FFE, 8, 5⟩]⟩ straddlingFile ⟨0, 0⟩
    (Paging.identityBelow 260, sixteenFrames) with ⟨err | process, k⟩
  · rw [hspawn] at hok
    cases hok
  have hfree : ∀ frame, sixteenFrames.IsFree frame →
      frame.start ∉ tablesOf (Paging.identityBelow 260) windowTables.root := by
    intro frame hfree hmem
    have hstart := le_of_free_sixteenFrames hfree
    have htables := Paging.tablesOf_identityBelow 260 hmem
    simp only [Set.mem_insert_iff, Set.mem_singleton_iff] at htables
    omega
  obtain ⟨hbytes, -⟩ :=
    spawnElf_builds sixteenFrames_ready hfree hparse (by decide +kernel) hspawn
  obtain ⟨phys, htranslate, hbyte⟩ := hbytes ⟨0, 4, 0x400FFE, 8, 5⟩ (List.mem_singleton.mpr rfl) 2
    (by decide)
  exact ⟨process, k, rfl, phys, htranslate, Option.some.inj hbyte⟩

end Harlan
