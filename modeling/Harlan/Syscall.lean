import Mathlib.Tactic
import Harlan.Switching

/-!
What a process may ask for (`kernel/src/user.rs`, the kernel's side of the boundary).

Each branch of `serve` is a definition of its own, over the machine as the call finds it. The
medium answers as the `Medium` of the call says.

* `Call`, the numbers of the errors, the limits.
* `serve`, `handle`: one syscall.
* `recvTurn`: one round of the loop of `recv`, which is also what a receiver that waited goes on
  with.
-/

namespace Harlan.Turns

open Fs

/-! ### Numbers -/

/-- What a program asks for. -/
inductive Call where
  | log
  | exit
  | yield
  | send
  | recv
  | open'
  | read
  | close
  | writeFile
  | list
  | consoleWrite
  | consoleRead
deriving DecidableEq

/-- The call with this number. -/
def Call.ofNumber (number : UInt64) : Option Call :=
  match number.toNat with
  | 0 => some log
  | 1 => some exit
  | 2 => some yield
  | 3 => some send
  | 4 => some recv
  | 5 => some open'
  | 6 => some read
  | 7 => some close
  | 8 => some writeFile
  | 9 => some list
  | 10 => some consoleWrite
  | 11 => some consoleRead
  | _ => none

/-- No call has this number. -/
def errUnknownCall : UInt64 := -1
/-- A range that is not the caller's, or an argument out of bounds. -/
def errBadArgument : UInt64 := -2
/-- The call is not for this process. -/
def errNoPermission : UInt64 := -3
/-- The receiver has not taken the last message yet. -/
def errMailboxFull : UInt64 := -4
/-- No process has this number. -/
def errNoSuchProcess : UInt64 := -5
/-- Nobody is left who could send. -/
def errWouldWaitForEver : UInt64 := -6
/-- No file is open under this descriptor. -/
def errBadDescriptor : UInt64 := -7
/-- The process has no descriptor left. -/
def errTooManyOpen : UInt64 := -8
/-- The volume has no file of this name. -/
def errNoSuchFile : UInt64 := -9
/-- The file is open and cannot be written. -/
def errFileIsOpen : UInt64 := -10
/-- The volume has no room for the file. -/
def errVolumeFull : UInt64 := -11
/-- The disk, or what stands on it, does not do. -/
def errDisk : UInt64 := -12

/-- The longest name this filesystem holds. -/
def maxName : ℕ := 12
/-- The most text one `log` or `console_write` will take. -/
def maxLog : ℕ := 4096
/-- How big one directory entry is on the wire. -/
def entryBytes : ℕ := 20
/-- The most one `read` will move. -/
def maxRead : ℕ := 4096
/-- The most one `write_file` will take. -/
def maxWrite : ℕ := Fat.maxFileClusters * Fat.sectorBytes

/-- Which number a program sees for something that went wrong on the disk. -/
def numberFor : FileError → UInt64
  | .noDisk => errDisk
  | .badName => errBadArgument
  | .noSuchFile => errNoSuchFile
  | .isADirectory => errNoSuchFile
  | .open' => errFileIsOpen
  | .notOurDisk => errNoPermission
  | .reading _ => errDisk
  | .device => errDisk
  | .writing (.full _ _) => errVolumeFull
  | .writing (.tooManyClusters _) => errVolumeFull
  | .writing .directoryFull => errVolumeFull
  | .writing _ => errDisk

/-- One directory entry as the bytes a program is given: the name, padded, the attributes and the
size. -/
def encodeEntry (entry : Fat.DirectoryEntry) : List UInt8 :=
  let name := entry.nameText.take 12
  name ++ List.replicate (12 - name.length) Fat.space ++ [entry.attributes, 0, 0, 0]
    ++ leBytes 4 entry.size

/-- A key, as a number a program can be given. -/
def encodeKey : Option ConsoleKey → UInt64
  | none => 0
  | some .enter => 1
  | some .backspace => 2
  | some (.char c) => if 0x20 ≤ c.toNat ∧ c.toNat ≤ 0x7E then UInt64.ofNat c.toNat else 3
  | some .unknown => 3

namespace Machine

/-! ### The memory of the process that is served -/

/-- Bytes of the space that is active. -/
def bytesAt (m : Machine) (ptr len : ℕ) : List UInt8 := getBytes (m.memory m.cr3) ptr len

/-- Fills a buffer in the space that is active. -/
def fill (m : Machine) (ptr : ℕ) (bytes : List UInt8) : Machine :=
  { m with
    memory := Function.update m.memory m.cr3 (putBytes (m.memory m.cr3) ptr bytes)
    trace := m.trace ++ [.writes ptr bytes.length] }

/-! ### The calls -/

section Calls

variable (m : Machine) (stack : ℕ) (call : SyscallFrame) (running : Running) (medium : Medium)

/-- The call comes back with a number. -/
def reply (rax : UInt64) : Machine := m.answer stack call { call with rax }

/-- `log`: a text into the kernel's log. -/
def serveLog : Machine :=
  let ptr := call.rdi.toNat
  let len := call.rsi.toNat
  if !running.owns ptr len ∨ maxLog < len then m.reply stack call errBadArgument
  else
    let bytes := m.bytesAt ptr len
    let m := m.note (.reads ptr len)
    if Fat.validUtf8 bytes then m.reply stack call call.rsi else m.reply stack call errBadArgument

/-- `yield`: whoever can run is run. -/
def serveYield : Machine :=
  m.switchToNext (.yield stack true call) (.yield stack false call) fun m => m.reply stack call 0

/-- `send`: the bytes into the mailbox of another process. -/
def serveSend : Machine :=
  let ptr := call.rsi.toNat
  let len := call.rdx.toNat
  if !running.owns ptr len ∨ capacity < len then m.reply stack call errBadArgument
  else
    let message := m.bytesAt ptr len
    let m := m.note (.reads ptr len)
    match m.scheduler.deliver call.rdi.toNat running.slot message with
    | (.ok _, scheduler) => { m with scheduler }.reply stack call call.rdx
    | (.error .busy, _) => m.reply stack call errMailboxFull
    | (.error .noSuchProcess, _) => m.reply stack call errNoSuchProcess
    | (.error (.rejected _), _) => m.reply stack call errBadArgument

/-- Parks whoever is running until somebody writes to its mailbox. -/
def waitForMessage (back : Machine → Machine) : Machine :=
  let current := m.scheduler.current
  match m.scheduler.nextAfter current with
  | some next =>
      if next ≠ current then
        match m.scheduler.block current with
        | (false, _) => back m
        | (true, scheduler) =>
            { m with scheduler }.switchTo current next (.wait stack call running)
      else back m
  | none => back m

/-- One round of the loop of `recv`. -/
def recvTurn : Machine :=
  match m.scheduler.takeMessage call.rsi.toNat with
  | (.ok (delivery, bytes), scheduler) =>
      ({ m with scheduler }.fill call.rdi.toNat bytes).answer stack call
        { call with rax := UInt64.ofNat delivery.len, rdx := UInt64.ofNat delivery.sender }
  | (.error (.tooLong _), _) => m.reply stack call errBadArgument
  | (.error .nothing, _) =>
      m.waitForMessage stack call running fun m => m.reply stack call errWouldWaitForEver

/-- `recv`: the message that waits, or waiting for one. -/
def serveRecv : Machine :=
  if !running.owns call.rdi.toNat call.rsi.toNat then m.reply stack call errBadArgument
  else m.recvTurn stack call running

/-- `open`: a descriptor for a file. -/
def serveOpen : Machine :=
  let ptr := call.rdi.toNat
  let len := call.rsi.toNat
  if !running.owns ptr len ∨ maxName < len then m.reply stack call errBadArgument
  else
    let name := m.bytesAt ptr len
    let m := m.note (.reads ptr len)
    if !Fat.validUtf8 name then m.reply stack call errBadArgument
    else
      match find m.disk medium name with
      | .error err => m.reply stack call (numberFor err)
      | .ok entry =>
          let (opened, scheduler) := m.scheduler.withRunning fun files => files.open' ⟨entry, 0⟩
          match opened.join with
          | some descriptor => { m with scheduler }.reply stack call (UInt64.ofNat descriptor)
          | none => { m with scheduler }.reply stack call errTooManyOpen

/-- `read`: bytes from where the descriptor stands. -/
def serveRead : Machine :=
  let descriptor := call.rdi.toNat
  let ptr := call.rsi.toNat
  let len := call.rdx.toNat
  if !running.ownsWritable ptr len ∨ maxRead < len then m.reply stack call errBadArgument
  else
    match (m.scheduler.withRunning fun files => (files.at' descriptor, files)).1.join with
    | none => m.reply stack call errBadDescriptor
    | some file =>
        match readAt m.disk medium file.entry file.position len with
        | .ok bytes =>
            let m := m.fill ptr bytes
            -- the position saturates, and moves only once the bytes have been read
            let position := min (file.position + bytes.length) (2 ^ 32 - 1)
            let (_, scheduler) :=
              m.scheduler.withRunning fun files => ((), files.moveTo descriptor position)
            { m with scheduler }.reply stack call (UInt64.ofNat bytes.length)
        | .error err => (m.fill ptr (medium.copied.take len)).reply stack call (numberFor err)

/-- `close`: gives a descriptor up. -/
def serveClose : Machine :=
  match m.scheduler.withRunning fun files => files.close call.rdi.toNat with
  | (some true, scheduler) => { m with scheduler }.reply stack call 0
  | (_, scheduler) => { m with scheduler }.reply stack call errBadDescriptor

/-- `write_file`: a whole file, anew. -/
def serveWriteFile : Machine :=
  let namePtr := call.rdi.toNat
  let nameLen := call.rsi.toNat
  let dataPtr := call.rdx.toNat
  let dataLen := call.r10.toNat
  if !running.owns namePtr nameLen ∨ maxName < nameLen then m.reply stack call errBadArgument
  else if !running.owns dataPtr dataLen ∨ maxWrite < dataLen then
    m.reply stack call errBadArgument
  else
    let name := m.bytesAt namePtr nameLen
    let contents := m.bytesAt dataPtr dataLen
    let m := (m.note (.reads namePtr nameLen)).note (.reads dataPtr dataLen)
    if !Fat.validUtf8 name then m.reply stack call errBadArgument
    else
      match writeFile m.disk medium m.scheduler.anyoneHasOpen name contents with
      | (.ok _, disk) => { m with disk }.reply stack call call.r10
      | (.error err, disk) => { m with disk }.reply stack call (numberFor err)

/-- `list`: one entry of the root directory. -/
def serveList : Machine :=
  let ptr := call.rsi.toNat
  let len := call.rdx.toNat
  if !running.ownsWritable ptr len ∨ len < entryBytes then m.reply stack call errBadArgument
  else
    match entryAt m.disk medium call.rdi.toNat with
    | .error err => m.reply stack call (numberFor err)
    | .ok entry => (m.fill ptr (encodeEntry entry)).reply stack call (UInt64.ofNat entryBytes)

/-- `console_write`: a text onto the screen. -/
def serveConsoleWrite : Machine :=
  let ptr := call.rdi.toNat
  let len := call.rsi.toNat
  if !running.owns ptr len ∨ maxLog < len then m.reply stack call errBadArgument
  else
    let bytes := m.bytesAt ptr len
    let m := m.note (.reads ptr len)
    if !Fat.validUtf8 bytes then m.reply stack call errBadArgument
    else
      match m.console with
      | none => m.reply stack call 0
      | some console =>
          { m with console := some { console with written := console.written ++ bytes } }.reply
            stack
            call call.rsi

/-- `console_read`: a key, if one is waiting. -/
def serveConsoleRead : Machine :=
  match m.console with
  | none => m.reply stack call (encodeKey none)
  | some console =>
      { m with console := some { console with keys := console.keys.tail } }.reply stack call
        (encodeKey console.keys.head?)

/-- The call itself, once it is known who asked. -/
def serve : Machine :=
  match Call.ofNumber call.rax with
  | some .log => m.serveLog stack call running
  | some .exit => m.endCurrent stack
  | some .yield => m.serveYield stack call
  | some .send => m.serveSend stack call running
  | some .recv => m.serveRecv stack call running
  | some .open' => m.serveOpen stack call running medium
  | some .read => m.serveRead stack call running medium
  | some .close => m.serveClose stack call
  | some .writeFile => m.serveWriteFile stack call running medium
  | some .list => m.serveList stack call running medium
  | some .consoleWrite => m.serveConsoleWrite stack call running
  | some .consoleRead => m.serveConsoleRead stack call
  | none => m.reply stack call errUnknownCall

/-- Handles one syscall. -/
def handle : Machine :=
  match m.scheduler.running with
  | none => m.reply stack call errUnknownCall
  | some running => m.serve stack call running medium

end Calls

end Machine

end Harlan.Turns
