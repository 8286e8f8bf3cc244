import Mathlib.Tactic
import Harlan.Lib.Loops
import Harlan.Lib.Text
import Harlan.Fat.Lookup
import Harlan.Snapshot
import Harlan.TextPieces

/-! The shell (`user/shell/src`), a program in ring 3: it reaches files and the console by way of
syscalls only.

`cat` reads a file in pieces of a fixed number of bytes and hands each of them to `console_write`,
which takes a piece that is text and refuses one that is not. The shell does not look at the
answer.

* `Program`, `syscall`: a program as what it does to the machine, and the calls of its library
  (`user/abi/src/lib.rs`).
* `Cats`: what `cat` comes to.
* `Ready`: the program runs, with some files open and some text on the console; what each call
  keeps of it.
* `cat_keeps`: `cat` prints the pieces that are text.
* `cat_prints_iff`: it prints the whole file exactly where no piece ends inside a character.
-/

namespace Harlan.Shell

open Turns Loops
open Text (utf8)

/-! ### Lines -/

/-- Bytes in the memory of a program, and where they begin. -/
structure Slice where
  ptr : ℕ
  bytes : List UInt8

/-- The longest name this filesystem holds. -/
def maxName : ℕ := 12

/-- The line without the spaces at either end. -/
def trimmed (line : Slice) : Slice :=
  let text := line.bytes.dropWhile (· == Fat.space)
  ⟨line.ptr + (line.bytes.length - text.length), text.rdropWhile (· == Fat.space)⟩

/-- The first word, and everything after the spaces that follow it. -/
def splitOnce (line : Slice) : Slice × Slice :=
  let line := trimmed line
  match line.bytes.findIdx? (· == Fat.space) with
  | some i => (⟨line.ptr, line.bytes.take i⟩, trimmed ⟨line.ptr + i, line.bytes.drop i⟩)
  -- what has no bytes is nowhere in particular
  | none => (line, ⟨line.ptr, []⟩)

/-- A word as a name, if it could be one. -/
def asName (word : Slice) : Option Slice :=
  if word.bytes = [] ∨ maxName < word.bytes.length then none
  else if Fat.validUtf8 word.bytes then some word else none

/-! ### Programs -/

/-- A program, as what it does to the machine. It fails where the CPU does not come back to it. -/
abbrev Program (α : Type) := Eff Machine Unit α

/-- What a program runs with. -/
structure Context where
  /-- Where its image has a literal. -/
  constant : List UInt8 → ℕ
  /-- Where `cat` has its buffer. -/
  piece : ℕ
  /-- What is in the registers that a call does not set. -/
  registers : SyscallFrame
  medium : Fs.Medium

section Calls

variable (ctx : Context)

/-- A call, and the number it comes back with. -/
def syscall (call : SyscallFrame) : Program Int64 := fun m =>
  match m.step (.syscall call ctx.medium) with
  | none => (.error (), m)
  | some m' =>
      match m'.trace.getLast? with
      | some (.answer _ _ frame _) => (.ok frame.rax.toInt64, m')
      | _ => (.error (), m')

/-- Process code writes bytes in its memory. -/
def store (ptr : ℕ) (bytes : List UInt8) : Program Unit := fun m =>
  match m.step (.compute (putBytes (m.memory m.cr3) ptr bytes)) with
  | none => (.error (), m)
  | some m' => (.ok (), m')

/-- `open`: a descriptor for the file, or an error. -/
def open' (name : Slice) : Program Int64 :=
  syscall ctx { ctx.registers with
    rax := 5, rdi := UInt64.ofNat name.ptr, rsi := UInt64.ofNat name.bytes.length }

/-- `read`: up to `len` bytes into the buffer. -/
def read (descriptor : Int64) (ptr len : ℕ) : Program Int64 :=
  syscall ctx { ctx.registers with
    rax := 6, rdi := descriptor.toUInt64, rsi := UInt64.ofNat ptr, rdx := UInt64.ofNat len }

/-- `close`: gives the descriptor up. -/
def close (descriptor : Int64) : Program Int64 :=
  syscall ctx { ctx.registers with rax := 7, rdi := descriptor.toUInt64 }

/-- `console_write`: the text onto the screen. -/
def consoleWrite (ptr len : ℕ) : Program Int64 :=
  syscall ctx { ctx.registers with rax := 10, rdi := UInt64.ofNat ptr, rsi := UInt64.ofNat len }

/-! ### The shell -/

/-- Writes to the console, dropping the answer. -/
def say (ptr len : ℕ) : Program Unit := do
  let _ ← consoleWrite ctx ptr len

/-- Writes a literal. -/
def sayText (text : String) : Program Unit :=
  say ctx (ctx.constant (utf8 text)) (utf8 text).length

/-- Says what went wrong in words. -/
def complain (what : String) (name : Slice) (err : Int64) : Program Unit := do
  sayText ctx what
  sayText ctx ": "
  say ctx name.ptr name.bytes.length
  sayText ctx ": "
  sayText ctx
    (if err = errNoSuchFile.toInt64 then "no such file\n"
    else if err = errBadArgument.toInt64 then "not a name this disk can hold\n"
    else if err = errFileIsOpen.toInt64 then "something has it open\n"
    else if err = errVolumeFull.toInt64 then "the disk is full\n"
    else if err = errTooManyOpen.toInt64 then "too many files open\n"
    else if err = errDisk.toInt64 then "the disk would not answer\n"
    else "refused\n")

/-- How much of a file `cat` moves at a time. -/
def pieceBytes : ℕ := 64

/-- A turn of the loop of `cat`. -/
def catTurn (descriptor : Int64) (_ : Unit) : Program (Turn Unit Unit) := do
  let got ← read ctx descriptor ctx.piece pieceBytes
  if got ≤ 0 then pure (.leave ())
  -- a slice that goes past the buffer is the end of the process
  else if pieceBytes < got.toUInt64.toNat then Eff.fail ()
  else do
    say ctx ctx.piece got.toUInt64.toNat
    pure (.again ())

/-- What `cat`, with the rest of the line, makes of a machine. -/
inductive Cats (rest : Slice) (m m' : Machine) : Prop
  | nameless (hname : asName (splitOnce rest).1 = none)
      (hsaid : sayText ctx "cat: give it a name\n" m = (.ok (), m'))
  | refused {name : Slice} {descriptor : Int64} {opened : Machine}
      (hname : asName (splitOnce rest).1 = some name)
      (hopen : open' ctx name m = (.ok descriptor, opened)) (hrefused : descriptor < 0)
      (hsaid : complain ctx "cat" name descriptor opened = (.ok (), m'))
  | printed {name : Slice} {descriptor answer : Int64} {opened ready done : Machine} {turns : ℕ}
      (hname : asName (splitOnce rest).1 = some name)
      (hopen : open' ctx name m = (.ok descriptor, opened)) (hopened : ¬descriptor < 0)
      (hready : store ctx.piece (List.replicate pieceBytes 0) opened = (.ok (), ready))
      (hloop : Leaves (inEff (catTurn ctx descriptor)) turns ((), ready) (.ok (), done))
      (hclose : close ctx descriptor done = (.ok answer, m'))

end Calls

/-- The console was handed this text and took it. -/
def Prints (text : List UInt8) (m m' : Machine) : Prop :=
  ∃ before after, m.console = some before ∧ m'.console = some after
    ∧ after.written = before.written ++ text

/-- There is one thing `cat` comes to. -/
lemma Cats.unique {ctx : Context} {rest : Slice} {m m' m'' : Machine} (h : Cats ctx rest m m')
    (h' : Cats ctx rest m m'') : m' = m'' := by
  cases h with
  | nameless hname hsaid =>
      cases h' with
      | nameless _ hsaid' => exact (Prod.mk.inj (hsaid.symm.trans hsaid')).2
      | refused hname' => cases hname.symm.trans hname'
      | printed hname' => cases hname.symm.trans hname'
  | refused hname hopen hrefused hsaid =>
      cases h' with
      | nameless hname' => cases hname.symm.trans hname'
      | refused hname' hopen' _ hsaid' =>
          obtain rfl := Option.some.inj (hname.symm.trans hname')
          obtain ⟨hdescriptor, rfl⟩ := Prod.mk.inj (hopen.symm.trans hopen')
          obtain rfl := Except.ok.inj hdescriptor
          exact (Prod.mk.inj (hsaid.symm.trans hsaid')).2
      | printed hname' hopen' hopened' =>
          obtain rfl := Option.some.inj (hname.symm.trans hname')
          obtain rfl := Except.ok.inj (Prod.mk.inj (hopen.symm.trans hopen')).1
          exact absurd hrefused hopened'
  | printed hname hopen hopened hready hloop hclose =>
      cases h' with
      | nameless hname' => cases hname.symm.trans hname'
      | refused hname' hopen' hrefused' =>
          obtain rfl := Option.some.inj (hname.symm.trans hname')
          obtain rfl := Except.ok.inj (Prod.mk.inj (hopen.symm.trans hopen')).1
          exact absurd hrefused' hopened
      | printed hname' hopen' _ hready' hloop' hclose' =>
          obtain rfl := Option.some.inj (hname.symm.trans hname')
          obtain ⟨hdescriptor, rfl⟩ := Prod.mk.inj (hopen.symm.trans hopen')
          obtain rfl := Except.ok.inj hdescriptor
          obtain rfl := (Prod.mk.inj (hready.symm.trans hready')).2
          obtain rfl := (Prod.mk.inj (hloop.value_eq hloop')).2
          exact (Prod.mk.inj (hclose.symm.trans hclose')).2

/-! ### What the calls come to -/

section Serve

variable {m : Machine} {stack : ℕ} {call : SyscallFrame} {running : Running}

/-- The console takes what is text, and nothing of what is not. -/
lemma serveConsoleWrite_taken {console : Console} {bytes : List UInt8}
    (howned : running.owns call.rdi.toNat call.rsi.toNat = true)
    (hlength : call.rsi.toNat ≤ maxLog) (hbytes : m.bytesAt call.rdi.toNat call.rsi.toNat = bytes)
    (hconsole : m.console = some console) :
    ∃ rax, m.serveConsoleWrite stack call running
      = { m.note (.reads call.rdi.toNat call.rsi.toNat) with
          console := some { console with
            written := console.written ++ if Fat.validUtf8 bytes then bytes else [] } }.reply
              stack call rax := by
  have hallowed : ¬((!running.owns call.rdi.toNat call.rsi.toNat) = true
      ∨ maxLog < call.rsi.toNat) := by
    rw [howned, not_or, Nat.not_lt]
    exact ⟨by decide, hlength⟩
  rw [Machine.serveConsoleWrite]
  dsimp only
  rw [if_neg hallowed, hbytes]
  cases htext : Fat.validUtf8 bytes with
  | true =>
      refine ⟨call.rsi, ?_⟩
      rw [if_neg (by decide), if_pos rfl]
      dsimp only [Machine.note]
      rw [hconsole]
  | false =>
      refine ⟨errBadArgument, ?_⟩
      rw [if_pos (by decide), if_neg (by decide), List.append_nil]
      dsimp only [Machine.note]
      rw [← hconsole]

end Serve

/-! ### What the calls keep -/

/-- The program runs, in a process that has these files open, with this much on the console. -/
structure Ready (stack : ℕ) (process : Process) (mounted : Fs.Mounted) (files : OpenFiles)
    (written : List UInt8) (m : Machine) : Prop where
  control : m.control = .ring3 stack
  slot : ∃ slot, m.scheduler.runningSlot = some slot
    ∧ slot.process = { process with openFiles := files }
  disk : m.disk = some mounted
  console : ∃ console, m.console = some console ∧ console.written = written

section Ready

variable {ctx : Context} {stack : ℕ} {process : Process} {mounted : Fs.Mounted}
  {files : OpenFiles}
  {written : List UInt8} {m : Machine}

/-- Who runs still does, with other files open. -/
lemma runningSlot_withFiles {s : Scheduler} {slot : Slot} (h : s.runningSlot = some slot)
    (f : OpenFiles → OpenFiles) :
    (s.withFiles f).runningSlot = some { slot with
      process := { slot.process with openFiles := f slot.process.openFiles } } := by
  rw [Scheduler.runningSlot] at h
  split_ifs at h with hover
  rw [Option.filter_eq_some_iff] at h
  obtain ⟨hslot, halive⟩ := h
  have hself := Scheduler.change_self hslot (f := fun slot =>
    { slot with process := { slot.process with openFiles := f slot.process.openFiles } })
  have hsame : (s.withFiles f).slots (s.withFiles f).current
      = (s.withFiles f).slots s.current := rfl
  rw [Scheduler.runningSlot, if_pos (show (s.withFiles f).handedOver = true from hover), hsame,
    Scheduler.withFiles, hself, Option.filter_some, if_pos halive]

/-- A call that comes back at once comes back with its number. -/
lemma syscall_of_serve {slot : Slot} {call : SyscallFrame} {rax : UInt64} {base : Machine}
    (hcontrol : m.control = .ring3 stack) (hslot : m.scheduler.runningSlot = some slot)
    (hserve : m.serve stack call ⟨m.scheduler.current, slot.process.owned,
      slot.process.writable⟩ ctx.medium
      = base.reply stack call rax) :
    syscall ctx call m = (.ok rax.toInt64, base.reply stack call rax) := by
  have hstep : m.step (.syscall call ctx.medium) = some (base.reply stack call rax) := by
    simp only [Machine.step, hcontrol, Machine.handle, Scheduler.running, hslot, Option.map_some]
    exact congrArg some hserve
  have hlast : (base.reply stack call rax).trace.getLast?
      = some (.answer (base.scheduler.owner stack) call
      { call with rax } (base.memory base.cr3)) := by
    rw [Machine.reply, Machine.answer, List.getLast?_concat]
  rw [syscall, hstep]
  dsimp only
  rw [hlast]

/-- An address and a length that pass the kernel's check go through a register. -/
lemma toNat_owned {ranges : List PhysRange} {ptr len : ℕ} (h : ownedBy ranges ptr len = true) :
    (UInt64.ofNat ptr).toNat = ptr ∧ (UInt64.ofNat len).toNat = len := by
  obtain ⟨-, hend, -⟩ := ownedBy_iff.mp h
  have hsize : UInt64.size = 2 ^ 64 := rfl
  exact ⟨UInt64.toNat_ofNat_of_lt' (by omega), UInt64.toNat_ofNat_of_lt' (by omega)⟩

/-- So does a descriptor, also as a number with a sign. -/
lemma toNat_descriptor (d : Fin maxOpen) : (UInt64.ofNat d).toInt64.toUInt64.toNat = d := by
  rw [UInt64.toUInt64_toInt64]
  exact UInt64.toNat_ofNat_of_lt' (d.isLt.trans (by decide))

lemma store_ready (h : Ready stack process mounted files written m) (ptr : ℕ)
    (bytes : List UInt8) :
    ∃ m', store ptr bytes m = (.ok (), m') ∧ Ready stack process mounted files written m' := by
  let m' : Machine :=
    { m with memory := Function.update m.memory m.cr3 (putBytes (m.memory m.cr3) ptr bytes) }
  have hstep : m.step (.compute (putBytes (m.memory m.cr3) ptr bytes)) = some m' := by
    simp only [Machine.step, h.control, m']
  exact ⟨m', by rw [store, hstep], h.control, h.slot, h.disk, h.console⟩

lemma open_ready {name : Slice} {entry : Fat.DirectoryEntry} {d : Fin maxOpen}
    (h : Ready stack process mounted files written m)
    (howned : ownedBy process.owned name.ptr name.bytes.length = true)
    (hlength : name.bytes.length ≤ Turns.maxName)
    (hbytes : m.bytesAt name.ptr name.bytes.length = name.bytes)
    (htext : Fat.validUtf8 name.bytes = true)
    (hfind : Fs.find (some mounted) ctx.medium name.bytes = .ok entry)
    (hfree : (files.open' ⟨entry, 0⟩).1 = some d) :
    ∃ m', open' ctx name m = (.ok (UInt64.ofNat d).toInt64, m')
      ∧ Ready stack process mounted (files.open' ⟨entry, 0⟩).2 written m' := by
  obtain ⟨slot, hslot, hprocess⟩ := h.slot
  obtain ⟨hptr, hlen⟩ := toNat_owned howned
  let call : SyscallFrame := { ctx.registers with
    rax := 5, rdi := UInt64.ofNat name.ptr, rsi := UInt64.ofNat name.bytes.length }
  have hserve := @Machine.serveOpen_found m stack call ⟨m.scheduler.current, slot.process.owned,
    slot.process.writable⟩
    ctx.medium slot name.bytes entry d hslot
    (by rw [Running.owns, hprocess, hptr, hlen, howned]) (by rw [hlen]; exact hlength)
    (by rw [hptr, hlen, hbytes]) htext (by rw [h.disk, hfind]) (by rw [hprocess, hfree])
  refine ⟨_, syscall_of_serve h.control hslot hserve, rfl,
    ⟨_, runningSlot_withFiles hslot _, ?_⟩, h.disk, h.console⟩
  rw [hprocess]

lemma read_ready {d : Fin maxOpen} {file : OpenFile} {bytes : List UInt8} {len : ℕ}
    (h : Ready stack process mounted files written m) (hfile : files d = some file)
    (howned : ownedBy process.writable ctx.piece len = true) (hlength : len ≤ maxRead)
    (hread : Fs.readAt (some mounted) ctx.medium file.entry file.position len = .ok bytes) :
    ∃ m', read ctx (UInt64.ofNat d).toInt64 ctx.piece len m
      = (.ok (UInt64.ofNat bytes.length).toInt64, m')
      ∧ Ready stack process mounted
          (files.moveTo d (min (file.position + bytes.length) (2 ^ 32 - 1))) written m'
      ∧ m'.bytesAt ctx.piece bytes.length = bytes := by
  obtain ⟨slot, hslot, hprocess⟩ := h.slot
  obtain ⟨hptr, hlen⟩ := toNat_owned howned
  let call : SyscallFrame := { ctx.registers with
    rax := 6, rdi := (UInt64.ofNat d).toInt64.toUInt64, rsi := UInt64.ofNat ctx.piece, rdx :=
      UInt64.ofNat len }
  have hserve := @Machine.serveRead_open m stack call ⟨m.scheduler.current, slot.process.owned,
    slot.process.writable⟩
    ctx.medium slot file bytes hslot (by rw [Running.ownsWritable, hprocess, hptr, hlen, howned])
    (by rw [hlen]; exact hlength)
    (by rw [hprocess, toNat_descriptor, Machine.at_self]; exact hfile)
    (by rw [h.disk, hlen, hread])
  refine ⟨_, syscall_of_serve h.control hslot hserve,
    ⟨rfl, ⟨_, runningSlot_withFiles hslot _, ?_⟩, h.disk, h.console⟩, ?_⟩
  · rw [hprocess, toNat_descriptor]
  · have hmemory : (Function.update m.memory m.cr3
        (putBytes (m.memory m.cr3) call.rsi.toNat bytes)) m.cr3
        = putBytes (m.memory m.cr3) ctx.piece bytes := by
      rw [Function.update_self, hptr]
    rw [Machine.bytesAt]
    exact (congrArg (getBytes · ctx.piece bytes.length) hmemory).trans
      (getBytes_eq fun i hi => putBytes_add hi)

lemma close_ready {d : Fin maxOpen} {file : OpenFile}
    (h : Ready stack process mounted files written m) (hfile : files d = some file) :
    ∃ answer m', close ctx (UInt64.ofNat d).toInt64 m = (.ok answer, m')
      ∧ Ready stack process mounted (files.close d).2 written m' := by
  obtain ⟨slot, hslot, hprocess⟩ := h.slot
  let call : SyscallFrame :=
    { ctx.registers with rax := 7, rdi := (UInt64.ofNat d).toInt64.toUInt64 }
  have hserve := @Machine.serveClose_closed m stack call slot d file hslot (toNat_descriptor d)
    (by rw [hprocess]; exact hfile)
  refine ⟨_, _, syscall_of_serve h.control hslot hserve, rfl,
    ⟨_, runningSlot_withFiles hslot _, ?_⟩, h.disk, h.console⟩
  rw [hprocess]

/-- What is said and is text is on the console, and what is not is lost. -/
lemma say_ready {ptr len : ℕ} (h : Ready stack process mounted files written m)
    (howned : ownedBy process.owned ptr len = true) (hlength : len ≤ maxLog) :
    ∃ m', say ctx ptr len m = (.ok (), m')
      ∧ Ready stack process mounted files
          (written ++ if Fat.validUtf8 (m.bytesAt ptr len) then m.bytesAt ptr len
            else []) m' := by
  obtain ⟨slot, hslot, hprocess⟩ := h.slot
  obtain ⟨console, hconsole, rfl⟩ := h.console
  obtain ⟨hptr, hlen⟩ := toNat_owned howned
  let call : SyscallFrame := { ctx.registers with
    rax := 10, rdi := UInt64.ofNat ptr, rsi := UInt64.ofNat len }
  obtain ⟨rax, hserve⟩ := @serveConsoleWrite_taken m stack call
    ⟨m.scheduler.current, slot.process.owned, slot.process.writable⟩ console (m.bytesAt ptr len)
    (by rw [Running.owns, hprocess, hptr, hlen, howned]) (by rw [hlen]; exact hlength)
    (by rw [hptr, hlen]) hconsole
  have hsaid : say ctx ptr len m = _ := Eff.bind_ok (syscall_of_serve h.control hslot hserve)
  exact ⟨_, hsaid, rfl, ⟨slot, hslot, hprocess⟩, h.disk, _, rfl, rfl⟩

/-! ### The loop -/

/-- A count that fits is read as itself by a program, which is told apart from an error. -/
lemma toInt64_ofNat_nonpos {n : ℕ} (h : n < 2 ^ 63) : (UInt64.ofNat n).toInt64 ≤ 0 ↔ n = 0 := by
  rw [UInt64.toInt64_ofNat', Int64.le_iff_toInt_le, Int64.toInt_ofNat_of_lt h, Int64.toInt_zero]
  omega

lemma drop_length_take (contents : List UInt8) (n : ℕ) :
    contents.drop (contents.take n).length = contents.drop n := by
  rw [List.length_take]
  obtain hle | hlt := Nat.le_total n contents.length
  · rw [Nat.min_eq_left hle]
  · rw [Nat.min_eq_right hlt, List.drop_length, List.drop_eq_nil_of_le hlt]

variable {entry : Fat.DirectoryEntry} {contents : List UInt8} {d : Fin maxOpen}

/-- `cat` on its way, with so many bytes to go: what is on the console, and the pieces still to be
read that are text, are what was there before and all the pieces that are text. -/
def Going (stack : ℕ) (process : Process) (mounted : Fs.Mounted) (entry : Fat.DirectoryEntry)
    (contents written : List UInt8) (d : Fin maxOpen) (left : ℕ) (m : Machine) : Prop :=
  ∃ files position shown, position ≤ contents.length ∧ left = contents.length - position
    ∧ files d = some ⟨entry, position⟩ ∧ Ready stack process mounted files shown m
    ∧ shown ++ Fat.keptPieces pieceBytes (contents.drop position)
      = written ++ Fat.keptPieces pieceBytes contents

/-- `cat` at the end of the file: all the pieces that are text are on the console. -/
def Ended (stack : ℕ) (process : Process) (mounted : Fs.Mounted) (contents written : List UInt8)
    (d : Fin maxOpen) (m : Machine) : Prop :=
  ∃ files file, files d = some file
    ∧ Ready stack process mounted files (written ++ Fat.keptPieces pieceBytes contents) m

/-- A turn that reads nothing is the last one. -/
lemma catTurn_end {descriptor : Int64} {m m' : Machine}
    (hread : read ctx descriptor ctx.piece pieceBytes m = (.ok (UInt64.ofNat 0).toInt64, m')) :
    catTurn ctx descriptor () m = (.ok (.leave ()), m') := by
  rw [catTurn, Eff.bind_ok hread, if_pos ((toInt64_ofNat_nonpos (by decide)).mpr rfl),
    Eff.pure_apply]

/-- A turn that reads a piece says it, and another one follows. -/
lemma catTurn_piece {descriptor : Int64} {m m' m'' : Machine} {got : ℕ} (hpos : got ≠ 0)
    (hle : got ≤ pieceBytes)
    (hread : read ctx descriptor ctx.piece pieceBytes m = (.ok (UInt64.ofNat got).toInt64, m'))
    (hsay : say ctx ctx.piece got m' = (.ok (), m'')) :
    catTurn ctx descriptor () m = (.ok (.again ()), m'') := by
  have hsmall : got < 2 ^ 63 := hle.trans_lt (by decide)
  have hgot : (UInt64.ofNat got).toInt64.toUInt64.toNat = got := by
    rw [UInt64.toUInt64_toInt64]
    exact UInt64.toNat_ofNat_of_lt' (hle.trans_lt (by decide))
  rw [catTurn, Eff.bind_ok hread, if_neg (mt (toInt64_ofNat_nonpos hsmall).mp hpos), hgot,
    if_neg (Nat.not_lt.mpr hle), Eff.bind_ok hsay, Eff.pure_apply]

/-- A turn of the loop prints a piece, if it is text, or finds the end of the file. -/
lemma catTurn_triple (hpiece : ownedBy process.owned ctx.piece pieceBytes = true)
    (hwritable : ownedBy process.writable ctx.piece pieceBytes = true)
    (hlength : contents.length < 2 ^ 32)
    (hreads : ∀ position, Fs.readAt (some mounted) ctx.medium entry position pieceBytes
      = .ok ((contents.drop position).take pieceBytes)) (left : ℕ) :
    Eff.Triple (Going stack process mounted entry contents written d left)
      (catTurn ctx (UInt64.ofNat d).toInt64 ())
      (fun turn m => turn.Post
        (fun _ => ∃ left' < left, Going stack process mounted entry contents written d left' m)
        fun _ => Ended stack process mounted contents written d m)
      fun _ _ => False := by
  rintro m ⟨files, position, shown, hposition, rfl, hfile, hready, hshown⟩
  obtain ⟨m', hread, hready', hbytes⟩ :=
    read_ready hready hfile hwritable (by decide) (hreads position)
  generalize htake : (contents.drop position).take pieceBytes = bytes at hread hready' hbytes
  have hcount : bytes.length = min pieceBytes (contents.length - position) := by
    rw [← htake, List.length_take, List.length_drop]
  have hsmall : bytes.length ≤ pieceBytes := hcount ▸ Nat.min_le_left _ _
  have hmoved : min (position + bytes.length) (2 ^ 32 - 1) = position + bytes.length := by omega
  have hrest : contents.drop (position + bytes.length)
      = (contents.drop position).drop pieceBytes := by
    rw [← List.drop_drop, ← htake, drop_length_take]
  rw [hmoved] at hready'
  by_cases hend : bytes.length = 0
  · -- nothing was read: no piece is left
    rw [hend] at hread
    have hnone : contents.drop position = [] := by
      rw [← List.length_eq_zero_iff, List.length_drop]
      have hpos : 0 < pieceBytes := by decide
      omega
    rw [hnone, Fat.keptPieces_nil, List.append_nil] at hshown
    rw [catTurn_end hread]
    exact ⟨_, _, Machine.moveTo_self hfile, hshown ▸ hready'⟩
  · -- the piece that was read is the next one of the file, and it is what is said
    have howned : ownedBy process.owned ctx.piece bytes.length = true :=
      ownedBy_le hpiece (Nat.pos_of_ne_zero hend) hsmall
    obtain ⟨m'', hsay, hready''⟩ := say_ready hready' howned (hsmall.trans (by decide))
    rw [hbytes] at hready''
    have hmore : contents.drop position ≠ [] := by
      intro hnone
      rw [hnone, List.take_nil] at htake
      exact hend (htake ▸ rfl)
    rw [Fat.keptPieces_of_ne (by decide) hmore, htake, ← List.append_assoc, ← hrest] at hshown
    rw [catTurn_piece hend hsmall hread hsay]
    exact ⟨contents.length - (position + bytes.length), by omega, _, _, _, by omega, rfl,
      Machine.moveTo_self hfile, hready'', hshown⟩

/-! ### `cat` -/

/-- What `cat` finds where the name it is given is that of a file that can be read: its own
memory, a descriptor that is free, and a console. -/
structure Served (ctx : Context) (slot : Slot) (name : Slice) (entry : Fat.DirectoryEntry)
    (contents : List UInt8) (m : Machine) : Prop where
  control : ∃ stack, m.control = .ring3 stack
  running : m.scheduler.runningSlot = some slot
  piece : ownedBy slot.process.owned ctx.piece pieceBytes = true
  writable : ownedBy slot.process.writable ctx.piece pieceBytes = true
  nameOwned : ownedBy slot.process.owned name.ptr name.bytes.length = true
  nameBytes : m.bytesAt name.ptr name.bytes.length = name.bytes
  free : ∃ d, slot.process.openFiles d = none
  works : ctx.medium.fails = false
  found : Fs.find m.disk ctx.medium name.bytes = .ok entry
  /-- The whole file can be read, with enough room for it. -/
  file : ∃ mounted room, m.disk = some mounted ∧ Fat.BootSector.parse (mounted.disk 0)
    = .ok mounted.boot
    ∧ (Fat.readFile mounted.boot entry room ⟨mounted.disk, 0⟩).1 = .ok contents
  console : m.console.isSome = true

lemma asName_eq_some {word name : Slice} (h : asName word = some name) :
    name.bytes.length ≤ maxName ∧ Fat.validUtf8 name.bytes = true := by
  rw [asName] at h
  split_ifs at h with hlength htext
  obtain rfl := Option.some.inj h
  exact ⟨Nat.not_lt.mp (not_or.mp hlength).2, htext⟩

/-- There is a descriptor for a file as long as one is free. -/
lemma open_of_free {files : OpenFiles} (h : ∃ d, files d = none) (file : OpenFile) :
    ∃ d, (files.open' file).1 = some d := by
  obtain ⟨d, hd⟩ := h
  rw [OpenFiles.open']
  cases hfree : Fin.find? fun i => (files i).isNone with
  | some free => exact ⟨free, rfl⟩
  | none =>
      have hused := Fin.find?_eq_none_iff.mp hfree d
      rw [hd] at hused
      cases hused

/-- A number that is a descriptor is no error. -/
lemma descriptor_nonneg (d : Fin maxOpen) : ¬(UInt64.ofNat d).toInt64 < 0 := by
  rw [UInt64.toInt64_ofNat', Int64.not_lt]
  exact Int64.zero_le_ofNat_of_lt (d.isLt.trans (by decide))

/-- **`cat` prints the pieces of a file that are text, one after another.** -/
lemma cat_keeps {slot : Slot} {rest name : Slice} (hname : asName (splitOnce rest).1 = some name)
    (h : Served ctx slot name entry contents m) :
    ∃ m', Cats ctx rest m m' ∧ Prints (Fat.keptPieces pieceBytes contents) m m' := by
  obtain ⟨stack, hcontrol⟩ := h.control
  obtain ⟨console, hconsole⟩ := Option.isSome_iff_exists.mp h.console
  obtain ⟨mounted, room, hdisk, hparse, hcontents⟩ := h.file
  obtain ⟨hlength, hreturns⟩ :=
    Fat.readAt_of_readFile (Fat.BootSector.parse_wellFormed hparse) hcontents
  have hfound := h.found
  rw [hdisk] at hfound
  have hsmall : contents.length < 2 ^ 32 := by
    obtain ⟨mounted', hmounted, hfind⟩ := Fs.find_ok hfound
    obtain ⟨bytes, rfl⟩ := Fat.find_isSlot hfind
    exact hlength ▸ Fat.BootSector.le32_lt _ _ _ _
  have hreads : ∀ position, Fs.readAt (some mounted) ctx.medium entry position pieceBytes
      = .ok ((contents.drop position).take pieceBytes) := by
    intro position
    have hread := hreturns position pieceBytes
    rw [Eff.Returns] at hread
    simp only [Fs.readAt, Fs.ask, h.works, Bool.false_eq_true, if_false, hread]
  -- the descriptor, and the loop over it
  obtain ⟨hshort, htext⟩ := asName_eq_some hname
  obtain ⟨d, hfree⟩ := open_of_free h.free ⟨entry, 0⟩
  have hstart : Ready stack slot.process mounted slot.process.openFiles console.written m :=
    ⟨hcontrol, ⟨slot, h.running, rfl⟩, hdisk, console, hconsole, rfl⟩
  obtain ⟨opened, hopen, hopened⟩ :=
    open_ready hstart h.nameOwned hshort h.nameBytes htext hfound hfree
  obtain ⟨ready, hstore, hready⟩ := store_ready hopened ctx.piece (List.replicate pieceBytes 0)
  have hgoing : Going stack slot.process mounted entry contents console.written d
      contents.length ready :=
    ⟨_, 0, _, Nat.zero_le _, rfl, Machine.open_self hfree, hready, rfl⟩
  obtain ⟨turns, ⟨⟩, done, hloop, files, file, hfile, hdone⟩ := @inEff_triple _ _ _ _
    (catTurn ctx (UInt64.ofNat d).toInt64)
    (fun left _ => Going stack slot.process mounted entry contents console.written d left)
    (fun _ => Ended stack slot.process mounted contents console.written d)
    (fun left _ => catTurn_triple h.piece h.writable hsmall hreads left) _ () ready hgoing
  obtain ⟨answer, m', hclose, hclosed⟩ := close_ready hdone hfile
  obtain ⟨after, hafter, hwritten⟩ := hclosed.console
  exact ⟨m', .printed hname hopen (descriptor_nonneg d) hstore hloop hclose, console, after,
    hconsole, hafter, hwritten⟩

/-- What `cat` prints is the whole file where no piece is lost. -/
lemma prints_iff {slot : Slot} {rest name : Slice} (hname : asName (splitOnce rest).1 = some name)
    (h : Served ctx slot name entry contents m) :
    (∃ m', Cats ctx rest m m' ∧ Prints contents m m')
      ↔ Fat.keptPieces pieceBytes contents = contents := by
  obtain ⟨m', hcats, hprints⟩ := cat_keeps hname h
  constructor
  · rintro ⟨other, hcats', before, after, hbefore, hafter, hwritten⟩
    obtain rfl := hcats.unique hcats'
    obtain ⟨before', after', hbefore', hafter', hkept⟩ := hprints
    obtain rfl := Option.some.inj (hbefore.symm.trans hbefore')
    obtain rfl := Option.some.inj (hafter.symm.trans hafter')
    exact List.append_cancel_left (hkept.symm.trans hwritten)
  · intro hkept
    exact ⟨m', hcats, hkept ▸ hprints⟩

/-- **`cat` prints the whole of a file that is text exactly where no multiple of its piece falls
inside a character.** A piece that ends inside one is refused, and so is the one after it. -/
theorem cat_prints_iff {slot : Slot} {rest name : Slice}
    (hname : asName (splitOnce rest).1 = some name) (h : Served ctx slot name entry contents m)
    (htext : Fat.validUtf8 contents = true) :
    (∃ m', Cats ctx rest m m' ∧ Prints contents m m')
      ↔ ∀ k, 0 < k → ∀ b ∈ contents[pieceBytes * k]?, Fat.isContinuation b = false :=
  (prints_iff hname h).trans (Fat.keptPieces_eq_iff (by decide) htext)

end Ready

/-! ### A file with an accent -/

open Machine (demo texts sane ourBoot ourDisk)

/-- So many letters, and one of two bytes. -/
def accented (count : ℕ) : List UInt8 := List.replicate count 0x61 ++ [0xC3, 0xA9]

/-- A program whose literals and whose buffer are at two fixed places. -/
def screen : Context := ⟨fun _ => 0x1000, 0x2000, ⟨0, 0, 0, 0, 0⟩, sane⟩

/-- The name `A`, as it was typed. -/
def typed : Slice := ⟨0x1000, [0x41]⟩

lemma asName_typed : asName (splitOnce typed).1 = some typed := rfl

/-- The kernel writes a file to `A`, and a process runs. -/
def written (contents : List UInt8) : Option Machine :=
  (Machine.boot texts (some (Fs.adopt ourBoot ourDisk)) (some ⟨[], []⟩) 0).run
    [.write [0x41] contents sane, .add (demo 1 0x10000), .runUntilEmpty 0, .handOver, .resume]

/-- The file's entry for `A`. -/
def entryA (contents : List UInt8) : Fat.DirectoryEntry := ⟨[0x41], 0x20, 3, contents.length⟩

/-- The volume gives the file's contents. -/
def givesA (contents : List UInt8) (mounted : Fs.Mounted) : Bool :=
  decide (Fat.BootSector.parse (mounted.disk 0) = .ok mounted.boot)
    && decide ((Fat.readFile mounted.boot (entryA contents) 128 ⟨mounted.disk, 0⟩).1
      = .ok contents)

/-- What `cat` needs to find for `A`. -/
def servesA (contents : List UInt8) (m : Machine) : Bool :=
  m.scheduler.runningSlot.any fun slot =>
    (match m.control with | .ring3 _ => true | _ => false)
      && ownedBy slot.process.owned screen.piece pieceBytes
      && ownedBy slot.process.writable screen.piece pieceBytes
      && ownedBy slot.process.owned typed.ptr typed.bytes.length
      && decide (m.bytesAt typed.ptr typed.bytes.length = typed.bytes)
      && (slot.process.openFiles ⟨0, by decide⟩).isNone
      && decide (Fs.find m.disk screen.medium typed.bytes = .ok (entryA contents))
      && m.disk.any (givesA contents)
      && m.console.isSome

/-- The contents are what a program reads of the file. -/
lemma file_of_givesA {contents : List UInt8} {disk : Option Fs.Mounted}
    (h : disk.any (givesA contents) = true) :
    ∃ mounted room, disk = some mounted ∧ Fat.BootSector.parse (mounted.disk 0) = .ok mounted.boot
      ∧ (Fat.readFile mounted.boot (entryA contents) room ⟨mounted.disk, 0⟩).1
        = .ok contents := by
  obtain ⟨mounted, hdisk, hgives⟩ := (Option.any_eq_true _ _).mp h
  rw [givesA, Bool.and_eq_true, decide_eq_true_eq, decide_eq_true_eq] at hgives
  exact ⟨mounted, 128, hdisk, hgives⟩

lemma served_of_servesA {contents : List UInt8}
    (h : (written contents).any (servesA contents) = true) :
    ∃ m slot, written contents = some m
      ∧ Served screen slot typed ⟨[0x41], 0x20, 3, contents.length⟩ contents m := by
  obtain ⟨m, hm, hserves⟩ := (Option.any_eq_true _ _).mp h
  obtain ⟨slot, hslot, hall⟩ := (Option.any_eq_true _ _).mp hserves
  simp only [Bool.and_eq_true, decide_eq_true_eq, Option.isNone_iff_eq_none, and_assoc] at hall
  obtain ⟨hcontrol, hpiece, hwritable, hname, hbytes, hfree, hfound, hfile, hconsole⟩ := hall
  have hring3 : ∃ stack, m.control = .ring3 stack := by
    split at hcontrol
    next stack hcontrol' => exact ⟨stack, hcontrol'⟩
    · cases hcontrol
  exact ⟨m, slot, hm, hring3, hslot, hpiece, hwritable, hname, hbytes, ⟨_, hfree⟩, rfl, hfound,
    file_of_givesA hfile, hconsole⟩

/-- An accent that ends with the first piece is printed. -/
theorem cat_prints_accented : ∃ m slot, written (accented 62) = some m
    ∧ Served screen slot typed ⟨[0x41], 0x20, 3, 64⟩ (accented 62) m
    ∧ ∃ m', Cats screen typed m m' ∧ Prints (accented 62) m m' := by
  obtain ⟨m, slot, hm, hserved⟩ := @served_of_servesA (accented 62) (by decide +kernel)
  have hcut : ∀ k, 0 < k → ∀ b ∈ (accented 62)[pieceBytes * k]?,
      Fat.isContinuation b = false := by
    intro k hk b hb
    have hlength : (accented 62).length = pieceBytes := rfl
    rw [List.getElem?_eq_none (by rw [hlength]; exact Nat.le_mul_of_pos_right _ hk)] at hb
    cases hb
  exact ⟨m, slot, hm, hserved, (cat_prints_iff asName_typed hserved (by decide)).mpr hcut⟩

/-- **An accent across the end of the first piece is lost**, with all that is in the two pieces it
is in. -/
theorem cat_loses_accented : ∃ m slot, written (accented 63) = some m
    ∧ Served screen slot typed ⟨[0x41], 0x20, 3, 65⟩ (accented 63) m
    ∧ Fat.validUtf8 (accented 63) = true ∧ (∃ m', Cats screen typed m m' ∧ Prints [] m m')
    ∧ ¬∃ m', Cats screen typed m m' ∧ Prints (accented 63) m m' := by
  obtain ⟨m, slot, hm, hserved⟩ := @served_of_servesA (accented 63) (by decide +kernel)
  have hkept : Fat.keptPieces pieceBytes (accented 63) = [] := by
    have hfirst : Fat.validUtf8 ((accented 63).take pieceBytes) = false := by decide
    have hrest : (accented 63).drop pieceBytes = [0xA9] := rfl
    have hlast : Fat.validUtf8 (([0xA9] : List UInt8).take pieceBytes) = false := by decide
    have hend : ([0xA9] : List UInt8).drop pieceBytes = [] := rfl
    rw [Fat.keptPieces_of_ne (by decide) (by decide), hfirst, hrest,
      Fat.keptPieces_of_ne (by decide) (List.cons_ne_nil _ _), hlast, hend, Fat.keptPieces_nil]
    rfl
  obtain ⟨m', hcats, hprints⟩ := cat_keeps asName_typed hserved
  rw [hkept] at hprints
  refine ⟨m, slot, hm, hserved, by decide, ⟨m', hcats, hprints⟩, fun hwhole => ?_⟩
  rw [prints_iff asName_typed hserved, hkept] at hwhole
  exact absurd hwhole (by decide)

end Harlan.Shell
