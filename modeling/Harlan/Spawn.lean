import Mathlib.Tactic
import Harlan.Lib.Eff
import Harlan.Lib.Words
import Harlan.Elf
import Harlan.Memory.KernelFrames
import Harlan.Process

/-!
Building a process and giving it back (`kernel/src/memory/stacks.rs`, `kernel/src/process.rs`).

Everything here works on the machine's memory and on the kernel's frames (`Kernel`).

* `mapWithGuard`, `rollbackStack`, `unmapStack`: kernel stacks. Their debug assertions are kept as
  a record of whether the kernel, a dev build, has stopped; what comes after one that failed does
  nothing.
* `spawn`, `spawnElf`, `load`: the two ways a process is made.
* `destroy`: what a process that has ended gives back.
-/

namespace Harlan

open Paging (Memory FrameSource PageTables)

/-! ### The kernel's memory and frames -/

/-- The memory tables live in, and the frames it is handed out in. -/
abbrev Kernel := Memory × KernelFrames

/-- A zeroed frame for a purpose, if there is one. -/
def takeFrame (ε : Type) (purpose : FramePurpose) : Eff Kernel ε (Option PhysFrame) :=
  Eff.step fun (mem, kf) => (KernelFrames.source purpose).allocateFrame mem kf

/-- Maps a page, with table frames from the kernel's. -/
def mapPage (tables : PageTables) (page : ℕ) (frame : PhysFrame) (flags : PageFlags) :
    Eff Kernel MapError Unit :=
  Eff.run fun (mem, kf) => tables.map (KernelFrames.source .pageTable) page frame flags mem kf

/-! ### Kernel stacks -/

/-- How many pages the stack a syscall lands on gets. -/
def syscallStackPages : ℕ := 4

/-- Unmaps a page, which the caller is sure is mapped, and gives its frame back. Where an
assertion has failed nothing more happens. -/
def rollbackPage (mapper : PageTables) (k : Kernel) (page : ℕ) : Kernel :=
  if k.2.stopped then k
  else
    match mapper.unmap page k.1 with
    | (.ok frame, mem) => (mem, k.2.returnStackFrame frame)
    | (.error _, mem) => (mem, k.2.debugAssert false)

/-- The pages from `bottom` on. -/
def stackPages (bottom pages : ℕ) : List ℕ :=
  (List.range pages).map fun index => pageContaining (bottom + index * frameSize)

/-- Unmaps the first pages above `bottom` and gives their frames back. -/
def rollbackStack (mapper : PageTables) (bottom mappedPages : ℕ) (k : Kernel) : Kernel :=
  (stackPages bottom mappedPages).foldl (rollbackPage mapper) k

/-- The loop of `map_with_guard`: `index` pages are mapped, and more are to come. -/
def mapStackPages (mapper : PageTables) (bottom : ℕ) : ℕ → ℕ → Eff Kernel MapError Unit
  | 0, _ => pure ()
  | more + 1, index => do
      let some frame ← takeFrame MapError .stack
        | Eff.run fun k => (.error .outOfFrames, rollbackStack mapper bottom index k)
      Eff.run fun k =>
        match mapPage mapper (pageContaining (bottom + index * frameSize)) frame
            (.kernel true false) k with
        | (.ok (), k) => mapStackPages mapper bottom more (index + 1) k
        | (.error err, (mem, kf)) =>
            (.error err, rollbackStack mapper bottom index (mem, kf.returnStackFrame frame))

/-- Maps writable, never-executable pages directly above `guard`, which is left unmapped. -/
def mapWithGuard (mapper : PageTables) (guard pages : ℕ) : Eff Kernel MapError Stack := do
  let bottom := guard + frameSize
  mapStackPages mapper bottom pages 0
  pure ⟨bottom, bottom + pages * frameSize⟩

/-- Unmaps a stack and gives its frames back, answering how many. -/
def unmapStack (mapper : PageTables) (stack : Stack) (k : Kernel) : ℕ × Kernel :=
  let k' := rollbackStack mapper stack.bottom (stack.size / frameSize) k
  (k'.2.inner.free - k.2.inner.free, k')

/-! ### What a process is being built out of -/

/-- Where a flat program is mapped. -/
def codeBase : ℕ := 0x00400000
/-- Where its stack page is. -/
def stackBase : ℕ := 0x00500000

/-- How many ranges of memory a process may own, and how many frames behind them. -/
def maxRanges : ℕ := Elf.maxSegments + 1
/-- The frames that a process may have. -/
def maxFrames : ℕ := 32

/-- Why a process is not started. -/
inductive SpawnError where
  | outOfMemory
  | space (err : PageTables.PagingError)
  | mapping (err : MapError)
  | programTooBig
  | tooManyRanges
  | tooManyFrames
  | segmentsShareAPage (page : ℕ)
deriving DecidableEq

/-- A process as far as it is built. -/
structure Building where
  space : PageTables
  owned : List PhysRange
  writable : List PhysRange
  frames : List (PhysFrame × FramePurpose)

namespace Building

/-- A space with nothing in it yet. -/
def new (space : PageTables) : Building := ⟨space, [], [], []⟩

/-- Records a range as this process's, and whether it may write it. -/
def own (b : Building) (range : PhysRange) (writable : Bool) : Except SpawnError Building :=
  if b.owned.length = maxRanges then .error .tooManyRanges
  else
    .ok { b with
      owned := b.owned ++ [range]
      writable := if writable then b.writable ++ [range] else b.writable }

/-- Writes a frame down, while there is room for it. -/
def took (b : Building) (frame : PhysFrame) (purpose : FramePurpose) :
    Except SpawnError Building :=
  if b.frames.length = maxFrames then .error .tooManyFrames
  else .ok { b with frames := b.frames ++ [(frame, purpose)] }

/-- Gives back every frame taken so far. -/
def giveBack (b : Building) (kf : KernelFrames) : KernelFrames :=
  b.frames.foldl (fun kf (frame, purpose) => (kf.deallocateAs frame purpose).2) kf

/-- The process that was built. -/
def finish (b : Building) (entry : ℕ) (kernelStack : Stack) : Process :=
  ⟨b.space, b.owned, b.writable, b.frames, entry, kernelStack, OpenFiles.new⟩

end Building

/-! ### The two ways of starting one -/

/-- The bytes of a frame, from its words and back. -/
def bytesOf (words : Fin 512 → ℕ) : ByteMemory := fun a =>
  UInt8.ofNat (words (Fin.ofNat 512 (a / 8)) / 256 ^ (a % 8))

/-- The words of a page's bytes. -/
def wordsOf (bytes : ByteMemory) : Fin 512 → ℕ := fun i => getWord bytes (8 * i) 8

/-- Copies bytes into a frame from a place on, through the window. -/
def copyTo (ε : Type) (frame : PhysFrame) (skip : ℕ) (bytes : List UInt8) : Eff Kernel ε Unit :=
  Eff.step fun (mem, kf) =>
    ((), Radix.fill mem frame.start (wordsOf (putBytes (bytesOf (mem frame.start)) skip bytes)),
      kf)

/-- A pure step of building that may fail. -/
def liftBuild (x : Except SpawnError Building) : Eff Kernel SpawnError Building :=
  match x with
  | .ok b => pure b
  | .error err => Eff.fail err

/-- A space for a process: an empty lower half, and the kernel's higher half shared. -/
def newAddressSpace (mapper : PageTables) : Eff Kernel SpawnError PageTables :=
  Eff.mapError (fun err => .space (.ofMapError err)) <|
    Eff.run fun (mem, kf) => mapper.newProcessSpace (KernelFrames.source .pageTable) mem kf

/-- A frame, or the error a process that gets none ends with. -/
def takeOrFail (purpose : FramePurpose) : Eff Kernel SpawnError PhysFrame := do
  let some frame ← takeFrame SpawnError purpose | Eff.fail .outOfMemory
  pure frame

/-- Builds a process around a flat program: a page of code and a page of stack. -/
def spawn (mapper : PageTables) (program : List UInt8) (kernelStack : Stack) :
    Eff Kernel SpawnError Process :=
  if frameSize < program.length then Eff.fail .programTooBig
  else do
    let space ← newAddressSpace mapper
    let codeFrame ← takeOrFail .kernel
    let stackFrame ← takeOrFail .stack
    copyTo SpawnError codeFrame 0 program
    Eff.mapError SpawnError.mapping (mapPage space codeBase codeFrame (.ofUser false true))
    Eff.mapError SpawnError.mapping (mapPage space stackBase stackFrame (.ofUser true false))
    let b ← liftBuild ((Building.new space).took codeFrame .kernel)
    let b ← liftBuild (b.took stackFrame .stack)
    let b ← liftBuild (b.own ⟨codeBase, frameSize⟩ false)
    let b ← liftBuild (b.own ⟨stackBase, frameSize⟩ true)
    pure (b.finish codeBase kernelStack)

/-- What of a page of a segment the file carries. -/
def pageBytes (segment : Elf.Segment) (file : List UInt8) (page : ℕ) : List UInt8 :=
  let intoSegment := page - segment.addr
  let skipInPage := segment.addr - page
  if intoSegment < segment.fileSize then
    let taking := min (segment.fileSize - intoSegment) (frameSize - skipInPage)
    (file.drop (segment.fileOffset + intoSegment)).take taking
  else []

/-- How the loader reports why a page could not be mapped. -/
def loadError (page : ℕ) : MapError → SpawnError
  | .alreadyMapped => .segmentsShareAPage page
  | err => .mapping err

/-- Loads one page of a segment. The state carries what is being built, so that a load that
stops half way still knows what it has taken. -/
def loadPage (segment : Elf.Segment) (file : List UInt8) (page : ℕ) (b : Building) :
    Eff Kernel (SpawnError × Building) Building := do
  let frame ← Eff.mapError (·, b) (takeOrFail .kernel)
  let b ← Eff.mapError (·, b) (liftBuild (b.took frame .kernel))
  copyTo _ frame (segment.addr - page) (pageBytes segment file page)
  Eff.mapError (fun err => (loadError page err, b))
    (mapPage b.space page frame (.ofUser segment.writable segment.executable))
  pure b

/-- Loads the pages of a segment, in order. -/
def loadPages (segment : Elf.Segment) (file : List UInt8) :
    List ℕ → Building → Eff Kernel (SpawnError × Building) Building
  | [], b => pure b
  | page :: rest, b => do
      let b ← loadPage segment file page b
      loadPages segment file rest b

/-- Loads the segments of a program, in order. -/
def loadSegments (file : List UInt8) :
    List Elf.Segment → Building → Eff Kernel (SpawnError × Building) Building
  | [], b => pure b
  | segment :: rest, b => do
      let b ← loadPages segment file segment.pages b
      let b ← Eff.mapError (·, b)
        (liftBuild (b.own ⟨segment.addr, segment.memorySize⟩ segment.writable))
      loadSegments file rest b

/-- Maps a program's segments and its stack. -/
def load (program : Elf.Program) (file : List UInt8) (b : Building) :
    Eff Kernel (SpawnError × Building) Building := do
  let b ← loadSegments file program.segments b
  let stackFrame ← Eff.mapError (·, b) (takeOrFail .stack)
  let b ← Eff.mapError (·, b) (liftBuild (b.took stackFrame .stack))
  Eff.mapError (fun err => (.mapping err, b))
    (mapPage b.space stackBase stackFrame (.ofUser true false))
  Eff.mapError (·, b) (liftBuild (b.own ⟨stackBase, frameSize⟩ true))

/-- Builds a process out of an ELF; a load that fails gives back the frames it took. -/
def spawnElf (mapper : PageTables) (program : Elf.Program) (file : List UInt8)
    (kernelStack : Stack) : Eff Kernel SpawnError Process := do
  let space ← newAddressSpace mapper
  Eff.run fun k =>
    match load program file (Building.new space) k with
    | (.ok b, k) => (.ok (b.finish program.entry kernelStack), k)
    | (.error (err, b), (mem, kf)) => (.error err, (mem, b.giveBack kf))

/-! ### Giving one back -/

/-- Offers a recorded frame back, counting it if it was taken. -/
def offerFrame (state : ℕ × KernelFrames) (x : PhysFrame × FramePurpose) : ℕ × KernelFrames :=
  match state.2.deallocateAs x.1 x.2 with
  | (true, kf) => (state.1 + 1, kf)
  | (false, kf) => (state.1, kf)

/-- How the tables of a space are offered back. -/
def giveBackTable (frame : PhysFrame) (kf : KernelFrames) : Bool × KernelFrames :=
  kf.deallocateAs frame .pageTable

/-- Gives back everything a process that has ended was using: its memory, its kernel stack,
and the page tables of its own half; how many frames came back. It goes no further than an
assertion that fails on the way. -/
def destroy (mapper : PageTables) (process : Process) (k : Kernel) : ℕ × Kernel :=
  let memory := process.frames.foldl offerFrame (0, k.2)
  let stack := unmapStack mapper process.kernelStack (k.1, memory.2)
  if stack.2.2.stopped then (memory.1 + stack.1, stack.2)
  else
    let tables := process.space.freeLowerHalf giveBackTable stack.2.1 stack.2.2
    (memory.1 + stack.1 + tables.1, tables.2)

end Harlan
