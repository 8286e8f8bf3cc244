import Harlan.Boots
import Harlan.Contract
import Harlan.Shell
import Harlan.UserLibrary

/-! `ls` (`user/shell/src/main.rs`): one `list` call for each entry of the root directory, until
the kernel says there is no such index, and a line on the console for each.

* `decimal`: how the shell writes a number.
* `listTurn`, `Lists`: the loop, and what `list_files` comes to.
* `listLine`, `listing`: a line, and all of them.
* `entryAt_eq`: what the kernel says of an index.
* `ls_prints`: every entry of the root directory is printed, once and in order.
-/

namespace Harlan.Shell

open Turns Loops UserLibrary
open Text (utf8)

/-! ### The program -/

/-- `number` as decimal, with the ten places the source has for its digits. -/
def decimal (number : ℕ) : Option (List UInt8) :=
  (Events.digitsInto 10 number []).map List.reverse

/-- The places are enough for 32 bits. -/
lemma decimal_eq {number : ℕ} (h : number < 2 ^ 32) :
    decimal number = some (Events.decimal number) := by
  rw [decimal, Events.digitsInto_eq [] (by omega), List.nil_append, Option.map_some,
    List.reverse_reverse]

/-- What `list_files` runs with: where it has its buffers. -/
structure Desk extends Context where
  record : ℕ
  digits : ℕ

section Calls

variable (ctx : Desk)

/-- `list`: the entry with this number, into the buffer. -/
def list (index ptr len : ℕ) : Program Int64 :=
  syscall ctx.toContext { ctx.registers with
    rax := 9, rdi := UInt64.ofNat index, rsi := UInt64.ofNat ptr, rdx := UInt64.ofNat len }

/-- Process code reads bytes of its memory. -/
def load (ptr len : ℕ) : Program (List UInt8) := fun m => (.ok (m.bytesAt ptr len), m)

/-- Says a space so many times. -/
def pad : ℕ → Program Unit
  | 0 => pure ()
  | count + 1 => do
      sayText ctx.toContext " "
      pad count

/-- The size, as it is said of a file. -/
def saySize (record : List UInt8) : Program Unit :=
  match decimal ((entrySize record).getD 0) with
  | none => Eff.fail ()
  | some text => do
      store ctx.digits (List.replicate 10 0)
      store ctx.digits text
      say ctx.toContext ctx.digits text.length
      sayText ctx.toContext "\n"

/-- What is said of an entry. -/
def sayEntry (name record : List UInt8) : Program Unit := do
  say ctx.toContext ctx.record name.length
  pad ctx (Turns.maxName + 2 - name.length)
  if entryIsDirectory record then sayText ctx.toContext "   <dir>\n" else saySize ctx record

/-- A turn of the loop of `list_files`: `index`, and how many entries were shown. -/
def listTurn (state : ℕ × ℕ) : Program (Turn (ℕ × ℕ) ℕ) := do
  let got ← list ctx state.1 ctx.record entryBytes
  if got < 0 then pure (.leave state.2)
  else do
    let record ← load ctx.record entryBytes
    match entryName record with
    | none => pure (.leave state.2)
    | some name => do
        sayEntry ctx name record
        pure (.again (state.1 + 1, state.2 + 1))

/-- What `list_files` makes of a machine. -/
inductive Lists (m m' : Machine) : Prop
  | nothing {ready done : Machine} {turns : ℕ}
      (hready : store ctx.record (List.replicate entryBytes 0) m = (.ok (), ready))
      (hloop : Leaves (inEff (listTurn ctx)) turns ((0, 0), ready) (.ok 0, done))
      (hsaid : sayText ctx.toContext "nothing on the disk, or no disk\n" done = (.ok (), m'))
  | listed {ready : Machine} {turns shown : ℕ}
      (hready : store ctx.record (List.replicate entryBytes 0) m = (.ok (), ready))
      (hloop : Leaves (inEff (listTurn ctx)) turns ((0, 0), ready) (.ok shown, m'))
        (hshown : shown ≠ 0)

end Calls

/-- There is one thing `list_files` comes to. -/
lemma Lists.unique {ctx : Desk} {m m' m'' : Machine} (h : Lists ctx m m') (h' : Lists ctx m m'') :
    m' = m'' := by
  cases h with
  | nothing hready hloop hsaid =>
      cases h' with
      | nothing hready' hloop' hsaid' =>
          obtain rfl := (Prod.mk.inj (hready.symm.trans hready')).2
          obtain rfl := (Prod.mk.inj (hloop.value_eq hloop')).2
          exact (Prod.mk.inj (hsaid.symm.trans hsaid')).2
      | listed hready' hloop' hshown =>
          obtain rfl := (Prod.mk.inj (hready.symm.trans hready')).2
          exact absurd (Except.ok.inj (Prod.mk.inj (hloop.value_eq hloop')).1).symm hshown
  | listed hready hloop hshown =>
      cases h' with
      | nothing hready' hloop' =>
          obtain rfl := (Prod.mk.inj (hready.symm.trans hready')).2
          exact absurd (Except.ok.inj (Prod.mk.inj (hloop.value_eq hloop')).1) hshown
      | listed hready' hloop' =>
          obtain rfl := (Prod.mk.inj (hready.symm.trans hready')).2
          exact (Prod.mk.inj (hloop.value_eq hloop')).2

/-! ### What a program says of its own memory -/

/-- The program runs, and its memory is as it was but for what it writes itself. -/
structure Stands (own : Set ℕ) (mem : ByteMemory) (stack : ℕ) (process : Process)
    (mounted : Fs.Mounted) (files : OpenFiles) (written : List UInt8) (m : Machine) : Prop where
  ready : Ready stack process mounted files written m
  image : ∀ a ∉ own, m.memory m.cr3 a = mem a

/-- A literal is in the memory of a program, where the program does not write. -/
structure Literal (ctx : Context) (own : Set ℕ) (mem : ByteMemory) (process : Process)
    (text : String) : Prop where
  owned : ownedBy process.owned (ctx.constant (utf8 text)) (utf8 text).length = true
  bytes : getBytes mem (ctx.constant (utf8 text)) (utf8 text).length = utf8 text
  apart : ∀ i < (utf8 text).length, ctx.constant (utf8 text) + i ∉ own

section Stands

variable {ctx : Context} {own : Set ℕ} {mem : ByteMemory} {stack : ℕ} {process : Process}
  {mounted : Fs.Mounted}
  {files : OpenFiles} {written : List UInt8} {m m' : Machine}

lemma serveConsoleWrite_memory (m : Machine) (stack : ℕ) (call : SyscallFrame)
    (running : Running) :
    (m.serveConsoleWrite stack call running).memory = m.memory ∧
    (m.serveConsoleWrite stack call running).cr3 = m.cr3 := by
  rw [Machine.serveConsoleWrite]
  dsimp only
  split_ifs
  · exact ⟨rfl, rfl⟩
  · exact ⟨rfl, rfl⟩
  · cases (m.note (.reads call.rdi.toNat call.rsi.toNat)).console <;> exact ⟨rfl, rfl⟩

/-- What comes back from a call is what the kernel left. -/
lemma syscall_eq {call : SyscallFrame} {answer : Int64}
    (h : syscall ctx call m = (.ok answer, m')) (hcontrol : m.control = .ring3 stack) :
    m' = m.handle stack call ctx.medium := by
  have hstep : m.step (.syscall call ctx.medium) = some (m.handle stack call ctx.medium) := by
    simp only [Machine.step, hcontrol]
  rw [syscall, hstep] at h
  dsimp only at h
  split at h
  · exact (Prod.mk.inj h).2.symm
  · exact absurd (Prod.mk.inj h).1 (by simp)

/-- Saying something writes nowhere. -/
lemma say_memory {ptr len : ℕ} (h : say ctx ptr len m = (.ok (), m'))
    (hready : Ready stack process mounted files written m) :
    m'.memory = m.memory ∧ m'.cr3 = m.cr3 := by
  obtain ⟨slot, hslot, -⟩ := hready.slot
  let call : SyscallFrame :=
    { ctx.registers with rax := 10, rdi := UInt64.ofNat ptr, rsi := UInt64.ofNat len }
  rcases hcall : syscall ctx call m with ⟨err | answer, next⟩
  · have hsaid : say ctx ptr len m = _ := Eff.bind_apply _ _ _
    rw [consoleWrite, hcall] at hsaid
    exact absurd (Prod.mk.inj (hsaid.symm.trans h)).1 (by simp)
  · have hsaid : say ctx ptr len m = _ := Eff.bind_ok hcall
    obtain rfl := (Prod.mk.inj (hsaid.symm.trans h)).2
    rw [syscall_eq hcall hready.control]
    simp only [Machine.handle, Scheduler.running, hslot, Option.map_some]
    exact serveConsoleWrite_memory m stack call _

/-- What is said and is text is on the console. -/
lemma say_stands {ptr len : ℕ} {text : List UInt8}
    (h : Stands own mem stack process mounted files written m)
    (howned : ownedBy process.owned ptr len = true) (hlength : len ≤ maxLog)
    (hbytes : m.bytesAt ptr len = text) (htext : Fat.validUtf8 text = true) :
    ∃ m', say ctx ptr len m = (.ok (), m')
      ∧ Stands own mem stack process mounted files (written ++ text) m'
      ∧ m'.memory = m.memory ∧ m'.cr3 = m.cr3 := by
  obtain ⟨m', hsaid, hready⟩ := @say_ready ctx _ _ _ _ _ _ _ _ h.ready howned hlength
  obtain ⟨hmemory, hcr3⟩ := say_memory hsaid h.ready
  rw [hbytes, if_pos htext] at hready
  exact ⟨m', hsaid, ⟨hready, by rw [hmemory, hcr3]; exact h.image⟩, hmemory, hcr3⟩

/-- Saying nothing is refused, and says nothing. -/
lemma say_nothing (h : Stands own mem stack process mounted files written m) (ptr : ℕ) :
    ∃ m', say ctx ptr 0 m = (.ok (), m') ∧ Stands own mem stack process mounted files written m'
      ∧ m'.memory = m.memory ∧ m'.cr3 = m.cr3 := by
  obtain ⟨slot, hslot, hprocess⟩ := h.ready.slot
  let call : SyscallFrame :=
    { ctx.registers with rax := 10, rdi := UInt64.ofNat ptr, rsi := UInt64.ofNat 0 }
  let running : Running := ⟨m.scheduler.current, slot.process.owned, slot.process.writable⟩
  have hrefused : running.owns call.rdi.toNat call.rsi.toNat = false := by
    rw [Bool.eq_false_iff]
    intro howned
    exact Nat.lt_irrefl 0 (ownedBy_iff.mp howned).1
  have hserve : m.serve stack call running ctx.medium = m.reply stack call errBadArgument := by
    change m.serveConsoleWrite stack call running = _
    rw [Machine.serveConsoleWrite]
    dsimp only
    rw [if_pos (.inl (by rw [hrefused]; rfl))]
  have hsaid : say ctx ptr 0 m = _ := Eff.bind_ok (syscall_of_serve h.ready.control hslot hserve)
  exact ⟨_, hsaid, ⟨⟨rfl, ⟨slot, hslot, hprocess⟩, h.ready.disk, h.ready.console⟩, h.image⟩, rfl,
    rfl⟩

/-- A literal is said as it is. -/
lemma sayText_stands {text : String} (h : Stands own mem stack process mounted files written m)
    (hliteral : Literal ctx own mem process text) (htext : Fat.validUtf8 (utf8 text) = true)
    (hlength : (utf8 text).length ≤ maxLog) :
    ∃ m', sayText ctx text m = (.ok (), m')
      ∧ Stands own mem stack process mounted files (written ++ utf8 text) m'
      ∧ m'.memory = m.memory ∧ m'.cr3 = m.cr3 := by
  refine say_stands h hliteral.owned hlength (Eq.trans ?_ hliteral.bytes) htext
  exact List.map_congr_left fun i hi => h.image _ (hliteral.apart i (List.mem_range.mp hi))

/-- What a program writes where it may, it can read, and nothing else of its memory changes. -/
lemma store_stands (ptr : ℕ) (bytes : List UInt8)
    (h : Stands own mem stack process mounted files written m)
    (hown : ∀ i < bytes.length, ptr + i ∈ own) :
    ∃ m', store ptr bytes m = (.ok (), m') ∧ Stands own mem stack process mounted files written m'
      ∧ m'.memory m'.cr3 = putBytes (m.memory m.cr3) ptr bytes := by
  let m' : Machine :=
    { m with memory := Function.update m.memory m.cr3 (putBytes (m.memory m.cr3) ptr bytes) }
  have hstep : m.step (.compute (putBytes (m.memory m.cr3) ptr bytes)) = some m' := by
    simp only [Machine.step, h.ready.control, m']
  have hmemory : m'.memory m'.cr3 = putBytes (m.memory m.cr3) ptr bytes := by
    simp only [m', Function.update_self]
  refine ⟨m', by rw [store, hstep],
    ⟨⟨h.ready.control, h.ready.slot, h.ready.disk, h.ready.console⟩, fun a ha => ?_⟩,
    hmemory⟩
  rw [hmemory, putBytes_of_outside, h.image a ha]
  by_contra hin
  refine ha ?_
  have hinside := hown (a - ptr) (by omega)
  rwa [Nat.add_sub_cancel' (by omega)] at hinside

end Stands

/-! ### What the kernel says of an index -/

/-- Counting entries up to an index finds the one there. -/
lemma foldEntries_index (index : ℕ) (entries : List Fat.DirectoryEntry) {seen : ℕ}
    (hseen : seen ≤ index) :
    (Fat.foldEntries (fun (state : ℕ × Option Fat.DirectoryEntry) entry =>
        if state.1 = index then
          ((state.1, some entry), false) else ((state.1 + 1, state.2), true))
      (seen, none) entries).2 = entries[index - seen]? := by
  induction entries generalizing seen with
  | nil => rfl
  | cons entry rest ih =>
      rw [Fat.foldEntries]
      by_cases hhere : seen = index
      · rw [if_pos hhere, hhere, Nat.sub_self, List.getElem?_cons_zero]
        rfl
      · rw [if_neg hhere, if_pos rfl, ih (by omega),
          show index - seen = index - (seen + 1) + 1 by omega, List.getElem?_cons_succ]

/-- The entries of the root directory, as far as they can be read. -/
def rootListed (mounted : Fs.Mounted) (medium : Fs.Medium) : List Fat.DirectoryEntry :=
  if medium.fails then [] else (Fat.rootEntries mounted.boot mounted.disk).map Fat.slotEntry

/-- The kernel knows an index as long as there is an entry. -/
lemma entryAt_eq {mounted : Fs.Mounted} {clusters : List ℕ}
    (hroot : Fat.IsChain mounted.boot
      (Fat.entryOf mounted.boot mounted.disk) mounted.boot.rootCluster clusters)
    (medium : Fs.Medium) (index : ℕ) :
    (∀ entry, (rootListed mounted medium)[index]? = some entry →
      Fs.entryAt (some mounted) medium index = .ok entry)
      ∧ ((rootListed mounted medium)[index]? = none →
        ∃ err, Fs.entryAt (some mounted) medium index = .error err) := by
  rw [rootListed]
  cases hfails : medium.fails with
  | true =>
      refine ⟨fun entry h => absurd h (by simp), fun _ => ⟨.device, ?_⟩⟩
      simp only [Fs.entryAt, Fs.ask, hfails, if_true]
  | false =>
      rw [if_neg (by decide)]
      have hread := @Fat.readRoot_returns mounted.boot ⟨mounted.disk, 0⟩ _ (fun state entry =>
        if state.1 = index then
          ((state.1, some entry), false) else ((state.1 + 1, state.2), true)) clusters hroot
        ((0, none) : ℕ × Option Fat.DirectoryEntry)
      have hfound := foldEntries_index index
        ((Fat.rootEntries mounted.boot mounted.disk).map Fat.slotEntry)
        (Nat.zero_le index)
      rw [Nat.sub_zero] at hfound
      rw [Eff.Returns] at hread
      rw [← hfound]
      generalize Fat.foldEntries _ _ _ = state at hread
      obtain ⟨seen, found⟩ := state
      refine ⟨fun entry h => ?_, fun h => ⟨.noSuchFile, ?_⟩⟩
      · obtain rfl : found = some entry := h
        simp only [Fs.entryAt, Fs.ask, hfails, Bool.false_eq_true, if_false, hread]
      · obtain rfl : found = none := h
        simp only [Fs.entryAt, Fs.ask, hfails, Bool.false_eq_true, if_false, hread]

/-! ### The loop -/

/-- What `list_files` runs in: its buffers are its own, and apart. -/
structure Laid (ctx : Desk) (own : Set ℕ) (mem : ByteMemory) (process : Process) : Prop where
  record : ownedBy process.writable ctx.record entryBytes = true
  recordOwned : ownedBy process.owned ctx.record entryBytes = true
  digits : ownedBy process.owned ctx.digits 10 = true
  ownRecord : ∀ i < entryBytes, ctx.record + i ∈ own
  ownDigits : ∀ i < 10, ctx.digits + i ∈ own
  literal : ∀ text ∈ [" ", "   <dir>\n", "\n", "nothing on the disk, or no disk\n"],
    Literal ctx.toContext own mem process text

section List

variable {ctx : Desk} {own : Set ℕ} {mem : ByteMemory} {stack : ℕ} {process : Process}
  {mounted : Fs.Mounted}
  {files : OpenFiles} {written : List UInt8} {m : Machine} {index : ℕ}

/-- What the kernel does of the call. -/
lemma serve_list (h : Stands own mem stack process mounted files written m)
    (hlaid : Laid ctx own mem process) (hindex : index < 2 ^ 64) {slot : Slot}
    (hprocess : slot.process = { process with openFiles := files }) {call : SyscallFrame}
    (hcall : call = { ctx.registers with
      rax := 9, rdi := UInt64.ofNat index, rsi := UInt64.ofNat ctx.record, rdx :=
        UInt64.ofNat entryBytes }) :
    m.serve stack call ⟨m.scheduler.current, slot.process.owned, slot.process.writable⟩ ctx.medium
      = match Fs.entryAt (some mounted) ctx.medium index with
        | .error err => m.reply stack call (numberFor err)
        | .ok entry =>
            (m.fill ctx.record (encodeEntry entry)).reply stack call
              (UInt64.ofNat entryBytes) := by
  obtain ⟨hptr, hlen⟩ := toNat_owned hlaid.record
  subst hcall
  have howns : ownedBy slot.process.writable (UInt64.ofNat ctx.record).toNat
      (UInt64.ofNat entryBytes).toNat = true := by
    rw [hprocess, hptr, hlen, hlaid.record]
  change (if (!ownedBy slot.process.writable (UInt64.ofNat ctx.record).toNat
    (UInt64.ofNat entryBytes).toNat) = true
      ∨ (UInt64.ofNat entryBytes).toNat < entryBytes then _
    else match Fs.entryAt m.disk ctx.medium (UInt64.ofNat index).toNat with
      | .error err => _
      | .ok entry =>
          (m.fill (UInt64.ofNat ctx.record).toNat (encodeEntry entry)).reply stack _ _) = _
  rw [howns, hlen, if_neg (by decide), h.ready.disk, hptr, UInt64.toNat_ofNat_of_lt' hindex]

/-- An index with an entry: its record is in the buffer. -/
lemma list_found {entry : Fat.DirectoryEntry}
    (h : Stands own mem stack process mounted files written m) (hlaid : Laid ctx own mem process)
    (hindex : index < 2 ^ 64) (hentry : Fs.entryAt (some mounted) ctx.medium index = .ok entry) :
    ∃ m', list ctx index ctx.record entryBytes m = (.ok (UInt64.ofNat entryBytes).toInt64, m')
      ∧ Stands own mem stack process mounted files written m'
      ∧ m'.bytesAt ctx.record entryBytes = encodeEntry entry := by
  obtain ⟨slot, hslot, hprocess⟩ := h.ready.slot
  have hserve := serve_list h hlaid hindex hprocess rfl
  rw [hentry] at hserve
  have hlength := Machine.length_encodeEntry entry
  have hmemory : Function.update m.memory m.cr3
      (putBytes (m.memory m.cr3) ctx.record (encodeEntry entry)) m.cr3
      = putBytes (m.memory m.cr3) ctx.record (encodeEntry entry) := Function.update_self _ _ _
  refine ⟨_, syscall_of_serve h.ready.control hslot hserve,
    ⟨⟨rfl, ⟨slot, hslot, hprocess⟩, h.ready.disk, h.ready.console⟩, fun a ha => ?_⟩, ?_⟩
  · refine (congrFun hmemory a).trans ((putBytes_of_outside ?_).trans (h.image a ha))
    by_contra hin
    have hinside := hlaid.ownRecord (a - ctx.record) (by omega)
    rw [Nat.add_sub_cancel' (by omega)] at hinside
    exact ha hinside
  · rw [← hlength]
    refine (congrArg (getBytes · ctx.record (encodeEntry entry).length) hmemory).trans
      (getBytes_eq fun i hi => ?_)
    exact putBytes_add hi

/-- A number that says no is below zero to a program. -/
lemma toInt64_neg {rax : UInt64} (h : isError rax) : rax.toInt64 < 0 := by
  have hlarge : 2 ^ 63 ≤ rax.toBitVec.toNat := h
  rw [Int64.lt_iff_toInt_lt, Int64.toInt_zero]
  change rax.toBitVec.toInt < 0
  have hlt := rax.toBitVec.isLt
  rw [BitVec.toInt_eq_toNat_cond, if_neg (by omega)]
  omega

/-- An index without one: the answer is an error, and nothing changes. -/
lemma list_refused {err : Fs.FileError} (h : Stands own mem stack process mounted files written m)
    (hlaid : Laid ctx own mem process) (hindex : index < 2 ^ 64)
    (hentry : Fs.entryAt (some mounted) ctx.medium index = .error err) :
    ∃ answer m', list ctx index ctx.record entryBytes m = (.ok answer, m') ∧ answer < 0
      ∧ Stands own mem stack process mounted files written m' := by
  obtain ⟨slot, hslot, hprocess⟩ := h.ready.slot
  have hserve := serve_list h hlaid hindex hprocess rfl
  rw [hentry] at hserve
  exact ⟨_, _, syscall_of_serve h.ready.control hslot hserve,
    toInt64_neg (Machine.numberFor_isError err),
    ⟨⟨rfl, ⟨slot, hslot, hprocess⟩, h.ready.disk, h.ready.console⟩, h.image⟩⟩

/-! ### A line -/

/-- What is printed of an entry: its name, up to where sizes begin, and its size or what it is. -/
def listLine (entry : Fat.DirectoryEntry) : List UInt8 :=
  entry.nameText ++ List.replicate (Turns.maxName + 2 - entry.nameText.length) Fat.space
    ++ if entry.isDirectory then utf8 "   <dir>\n" else Events.decimal entry.size ++ utf8 "\n"

/-- What `ls` prints. -/
def listing (entries : List Fat.DirectoryEntry) : List UInt8 :=
  if entries = [] then utf8 "nothing on the disk, or no disk\n" else entries.flatMap listLine

lemma pad_stands (hliteral : Literal ctx.toContext own mem process " ") (count : ℕ)
    (h : Stands own mem stack process mounted files written m) :
    ∃ m', pad ctx count m = (.ok (), m')
      ∧ Stands own mem stack process mounted files (written ++ List.replicate count Fat.space) m'
      ∧ m'.memory = m.memory ∧ m'.cr3 = m.cr3 := by
  induction count generalizing m written with
  | zero => exact ⟨m, rfl, by rwa [List.replicate_zero, List.append_nil], rfl, rfl⟩
  | succ count ih =>
      obtain ⟨next, hsaid, hnext, hmemory, hcr3⟩ :=
        sayText_stands h hliteral (by decide) (by decide)
      obtain ⟨m', hpad, hm', hmemory', hcr3'⟩ := ih hnext
      refine ⟨m', ?_, ?_, hmemory'.trans hmemory, hcr3'.trans hcr3⟩
      · rw [pad, Eff.bind_ok hsaid, hpad]
      · rwa [List.append_assoc, show utf8 " " = [Fat.space] by decide, List.singleton_append,
          ← List.replicate_succ] at hm'

lemma saySize_stands {record : List UInt8} {size : ℕ} (hlaid : Laid ctx own mem process)
    (hrecord : entrySize record = some size) (hsize : size < 2 ^ 32)
    (h : Stands own mem stack process mounted files written m) :
    ∃ m', saySize ctx record m = (.ok (), m')
      ∧ Stands own mem stack process mounted files
        (written ++ (Events.decimal size ++ utf8 "\n")) m' := by
  have hlength := @Boots.length_decimal_le size (by omega)
  have hpos : 0 < (Events.decimal size).length :=
    List.length_pos_of_ne_nil (Boots.decimal_ne_nil size)
  have howned : ownedBy process.owned ctx.digits (Events.decimal size).length = true :=
    ownedBy_le hlaid.digits hpos hlength
  obtain ⟨zeroed, hzero, hzeroed, -⟩ := store_stands ctx.digits (List.replicate 10 0) h
    fun i hi => hlaid.ownDigits i (by rwa [List.length_replicate] at hi)
  obtain ⟨filled, hfill, hfilled, hmemory⟩ :=
    store_stands ctx.digits (Events.decimal size) hzeroed
    fun i hi => hlaid.ownDigits i (by omega)
  have htext : Fat.validUtf8 (Events.decimal size) = true := Fat.validUtf8_ascii fun b hb => by
    have hdigit := Boots.decimal_digit b hb
    omega
  have hbytes : filled.bytesAt ctx.digits (Events.decimal size).length = Events.decimal size :=
    (congrArg (getBytes · ctx.digits (Events.decimal size).length) hmemory).trans
      (getBytes_eq fun i hi => putBytes_add hi)
  obtain ⟨shown, hshow, hshown, -⟩ :=
    say_stands hfilled howned (hlength.trans (by decide)) hbytes htext
  obtain ⟨m', hend, hm', -⟩ :=
    sayText_stands hshown (hlaid.literal "\n" (by simp)) (by decide) (by decide)
  refine ⟨m', ?_, by rwa [List.append_assoc] at hm'⟩
  rw [saySize, hrecord, Option.getD_some, decimal_eq hsize]
  dsimp only
  rw [Eff.bind_ok hzero, Eff.bind_ok hfill, Eff.bind_ok hshow, hend]

/-- What is said of an entry whose record is in the buffer is its line. -/
lemma sayEntry_stands {bytes : Fat.SlotBytes} (hlaid : Laid ctx own mem process)
    (h : Stands own mem stack process mounted files written m)
    (hrecord : m.bytesAt ctx.record entryBytes = encodeEntry (Fat.slotEntry bytes)) :
    ∃ m', sayEntry ctx (Fat.slotEntry bytes).nameText (encodeEntry (Fat.slotEntry bytes)) m
      = (.ok (), m')
      ∧ Stands own mem stack process mounted files
        (written ++ listLine (Fat.slotEntry bytes)) m' := by
  obtain ⟨htext, hfits, -⟩ := nameText_slotEntry bytes
  have hsize : (Fat.slotEntry bytes).size < 2 ^ 32 := Fat.BootSector.le32_lt _ _ _ _
  generalize Fat.slotEntry bytes = entry at *
  have hname : m.bytesAt ctx.record entry.nameText.length = entry.nameText := by
    rw [Machine.bytesAt,
      ← take_getBytes _ _ (show entry.nameText.length ≤ entryBytes from hfits.trans (by decide))]
    rw [show getBytes (m.memory m.cr3) ctx.record entryBytes = encodeEntry entry from hrecord,
      encodeEntry, List.take_of_length_le hfits, List.append_assoc, List.append_assoc,
      List.take_left]
  obtain ⟨named, hsay, hnamed, -⟩ : ∃ m', say ctx.toContext ctx.record entry.nameText.length m
      = (.ok (), m')
      ∧ Stands own mem stack process mounted files (written ++ entry.nameText) m'
      ∧ m'.memory = m.memory ∧ m'.cr3 = m.cr3 := by
    rcases Nat.eq_zero_or_pos entry.nameText.length with hnone | hpos
    · rw [hnone, List.length_eq_zero_iff.mp hnone, List.append_nil]
      exact say_nothing h _
    · have hroom : entry.nameText.length ≤ entryBytes := hfits.trans (by decide)
      exact say_stands h (ownedBy_le hlaid.recordOwned hpos hroom)
        (hfits.trans (by decide)) hname htext
  obtain ⟨padded, hpad, hpadded, -⟩ := pad_stands (hlaid.literal " " (by simp))
    (Turns.maxName + 2 - entry.nameText.length) hnamed
  have hsaid : sayEntry ctx entry.nameText (encodeEntry entry) m
      = (if entryIsDirectory (encodeEntry entry) then sayText ctx.toContext "   <dir>\n"
        else saySize ctx (encodeEntry entry)) padded := by
    rw [sayEntry, Eff.bind_ok hsay, Eff.bind_ok hpad]
  rw [hsaid, entryIsDirectory_encodeEntry, listLine, ← List.append_assoc, ← List.append_assoc]
  cases entry.isDirectory with
  | true =>
      rw [if_pos rfl, if_pos rfl]
      obtain ⟨m', hend, hm', -⟩ :=
        sayText_stands hpadded (hlaid.literal "   <dir>\n" (by simp)) (by decide) (by decide)
      exact ⟨m', hend, hm'⟩
  | false =>
      rw [if_neg (by decide), if_neg (by decide)]
      exact saySize_stands hlaid (entrySize_encodeEntry hsize) hsize hpadded

/-- `ls` on its way: so many entries to go, the others printed. -/
def Showing (ctx : Desk) (own : Set ℕ) (mem : ByteMemory) (stack : ℕ) (process : Process)
    (mounted : Fs.Mounted) (files : OpenFiles) (written : List UInt8) (left : ℕ) (state : ℕ × ℕ)
    (m : Machine) : Prop :=
  state.2 = state.1 ∧ left + state.1 = (rootListed mounted ctx.medium).length
    ∧ Stands own mem stack process mounted files
        (written ++ ((rootListed mounted ctx.medium).take state.1).flatMap listLine) m

/-- Every entry that is listed is that of a slot. -/
lemma rootListed_slot {entry : Fat.DirectoryEntry} {medium : Fs.Medium}
    (h : entry ∈ rootListed mounted medium) :
    ∃ bytes, entry = Fat.slotEntry bytes := by
  rw [rootListed] at h
  split_ifs at h
  · exact absurd h List.not_mem_nil
  · obtain ⟨bytes, -, rfl⟩ := List.mem_map.mp h
    exact ⟨bytes, rfl⟩

/-- A turn prints the entry at its index, or finds that there is none. -/
lemma listTurn_triple {clusters : List ℕ} (hlaid : Laid ctx own mem process)
    (hroot : Fat.IsChain mounted.boot
      (Fat.entryOf mounted.boot mounted.disk) mounted.boot.rootCluster clusters)
    (hcount : (rootListed mounted ctx.medium).length < 2 ^ 31) (left : ℕ) (state : ℕ × ℕ) :
    Eff.Triple (Showing ctx own mem stack process mounted files written left state)
      (listTurn ctx state)
      (fun turn m => turn.Post
        (fun state' => ∃ left' < left,
          Showing ctx own mem stack process mounted files written left' state' m)
        fun shown => shown = (rootListed mounted ctx.medium).length
          ∧ Stands own mem stack process mounted files
              (written ++ (rootListed mounted ctx.medium).flatMap listLine) m)
      fun _ _ => False := by
  obtain ⟨index, shown⟩ := state
  rintro m ⟨hshown, hleft, hstands⟩
  obtain rfl : shown = index := hshown
  dsimp only at hleft hstands
  obtain ⟨hfound, hnone⟩ := entryAt_eq hroot ctx.medium shown
  rcases hindex : (rootListed mounted ctx.medium)[shown]? with _ | entry
  · obtain ⟨err, herr⟩ := hnone hindex
    obtain ⟨answer, m', hlist, hneg, hm'⟩ := list_refused hstands hlaid (by omega) herr
    have hturn : listTurn ctx (shown, shown) m = (.ok (.leave shown), m') := by
      rw [listTurn, Eff.bind_ok hlist, if_pos hneg, Eff.pure_apply]
    have hover := List.getElem?_eq_none_iff.mp hindex
    rw [hturn]
    refine ⟨by omega, ?_⟩
    rwa [List.take_of_length_le hover] at hm'
  · obtain ⟨hlt, hget⟩ := List.getElem?_eq_some_iff.mp hindex
    obtain ⟨bytes, rfl⟩ := rootListed_slot (hget ▸ List.getElem_mem hlt)
    obtain ⟨filled, hlist, hfilled, hrecord⟩ :=
      list_found hstands hlaid (by omega) (hfound _ hindex)
    obtain ⟨m', hsay, hm'⟩ := sayEntry_stands hlaid hfilled hrecord
    obtain ⟨htext, hfits, hspace⟩ := nameText_slotEntry bytes
    have hname := entryName_encodeEntry htext hfits hspace
    have hload : load ctx.record entryBytes filled
        = (.ok (encodeEntry (Fat.slotEntry bytes)), filled) := by
      rw [load, hrecord]
    have hturn : listTurn ctx (shown, shown) m = (.ok (.again (shown + 1, shown + 1)), m') := by
      rw [listTurn, Eff.bind_ok hlist, if_neg (by decide), Eff.bind_ok hload, hname]
      dsimp only
      rw [Eff.bind_ok hsay, Eff.pure_apply]
    rw [hturn]
    refine ⟨left - 1, by omega, rfl, by dsimp only; omega, ?_⟩
    dsimp only
    rwa [List.append_assoc, ← List.flatMap_singleton listLine, ← List.flatMap_append, ← hget,
      List.take_concat_get' _ _ hlt]
      at hm'

end List

/-- What `ls` finds where it can be served: its own memory, a console, and a root directory whose
chain ends. -/
structure Listable (ctx : Desk) (slot : Slot) (mounted : Fs.Mounted) (m : Machine) : Prop where
  control : ∃ stack, m.control = .ring3 stack
  running : m.scheduler.runningSlot = some slot
  laid : ∃ own, Laid ctx own (m.memory m.cr3) slot.process
  disk : m.disk = some mounted
  root : ∃ clusters,
    Fat.IsChain mounted.boot
      (Fat.entryOf mounted.boot mounted.disk) mounted.boot.rootCluster clusters
  /-- More of them than `shown` can count would be the end of the program. -/
  count : (rootListed mounted ctx.medium).length < 2 ^ 31
  console : m.console.isSome = true

/-- **`ls` prints the root directory.** It comes back, and what it printed is a line for each
entry in use, once and in the order of the directory, with the name, and the size in decimal or
that it is a directory; or that there is nothing, where there is no entry or the disk does not
answer. -/
theorem ls_prints {ctx : Desk} {slot : Slot} {mounted : Fs.Mounted} {m : Machine}
    (h : Listable ctx slot mounted m) :
    ∃ m', (∀ m'', Lists ctx m m'' ↔ m'' = m')
      ∧ Prints (listing (rootListed mounted ctx.medium)) m m' := by
  obtain ⟨stack, hcontrol⟩ := h.control
  obtain ⟨own, hlaid⟩ := h.laid
  obtain ⟨clusters, hroot⟩ := h.root
  obtain ⟨console, hconsole⟩ := Option.isSome_iff_exists.mp h.console
  have hstart : Stands own (m.memory m.cr3) stack slot.process mounted slot.process.openFiles
      console.written m :=
    ⟨⟨hcontrol, ⟨slot, h.running, rfl⟩, h.disk, console, hconsole, rfl⟩, fun a _ => rfl⟩
  obtain ⟨ready, hstore, hready, -⟩ :=
    store_stands ctx.record (List.replicate entryBytes 0) hstart
    fun i hi => hlaid.ownRecord i (by rwa [List.length_replicate] at hi)
  have hshowing : Showing ctx own
      (m.memory m.cr3) stack slot.process mounted slot.process.openFiles console.written
      (rootListed mounted ctx.medium).length (0, 0) ready :=
    ⟨rfl, rfl, by rwa [List.take_zero, List.flatMap_nil, List.append_nil]⟩
  obtain ⟨turns, shown, done, hloop, rfl, hdone⟩ := @inEff_triple _ _ _ _ (listTurn ctx)
    (fun left state =>
      Showing ctx own (m.memory m.cr3) stack slot.process mounted slot.process.openFiles
      console.written left state) _ (listTurn_triple hlaid hroot h.count) _ (0, 0) ready hshowing
  obtain ⟨m', hlists, hprints⟩ : ∃ m', Lists ctx m m'
      ∧ Prints (listing (rootListed mounted ctx.medium)) m m' := by
    rw [listing]
    by_cases hnone : rootListed mounted ctx.medium = []
    · rw [if_pos hnone]
      rw [hnone, List.flatMap_nil, List.append_nil] at hdone
      rw [hnone, List.length_nil] at hloop
      obtain ⟨m', hsaid, hm', -⟩ := sayText_stands hdone
        (hlaid.literal "nothing on the disk, or no disk\n" (by simp)) (by decide) (by decide)
      obtain ⟨after, hafter, hwritten⟩ := hm'.ready.console
      exact ⟨m', .nothing hstore hloop hsaid, console, after, hconsole, hafter, hwritten⟩
    · rw [if_neg hnone]
      obtain ⟨after, hafter, hwritten⟩ := hdone.ready.console
      exact ⟨done, .listed hstore hloop (mt List.length_eq_zero_iff.mp hnone), console, after,
        hconsole, hafter, hwritten⟩
  refine ⟨m', fun m'' => ⟨fun h'' => h''.unique hlists, ?_⟩, hprints⟩
  rintro rfl
  exact hlists

/-! ### A disk with one file -/

open Machine (demo sane ourBoot ourDisk)

/-- The literals of `ls`, as an image has them. -/
def literals : List String := [" ", "   <dir>\n", "\n", "nothing on the disk, or no disk\n"]

/-- A program with its literals at the start of its memory, and its buffers in a page of their
own. -/
def desk : Desk where
  constant := fun text => 0x1000 + ((literals.map utf8).takeWhile (· ≠ text)).flatten.length
  piece := 0x2000
  registers := ⟨0, 0, 0, 0, 0⟩
  medium := sane
  record := 0x2000
  digits := 0x2020

/-- The kernel writes a byte to `A`, and a process runs. -/
def withA : Option Machine :=
  (Machine.boot (fun _ => putBytes (fun _ => 0) 0x1000 (literals.map utf8).flatten)
      (some (Fs.adopt ourBoot ourDisk)) (some ⟨[], []⟩) 0).run
    [.write [0x41] [0x68] sane, .add (demo 1 0x10000), .runUntilEmpty 0, .handOver, .resume]

/-- What `ls` needs to find. -/
def servesList (m : Machine) : Bool :=
  m.scheduler.runningSlot.any fun slot =>
    (match m.control with | .ring3 _ => true | _ => false)
      && ownedBy slot.process.writable desk.record entryBytes
      && ownedBy slot.process.owned desk.record entryBytes
      && ownedBy slot.process.owned desk.digits 10
      && literals.all (fun text => ownedBy slot.process.owned (desk.constant (utf8 text))
        (utf8 text).length
        && decide (m.bytesAt (desk.constant (utf8 text)) (utf8 text).length = utf8 text))
      && m.disk.any (fun mounted =>
        decide (Fat.entryOf mounted.boot mounted.disk mounted.boot.rootCluster = .end'
        ∧ mounted.boot.hasCluster mounted.boot.rootCluster = true)
        && decide (rootListed mounted sane = [⟨[0x41], 0x20, 3, 1⟩]))
      && m.console.isSome

/-- The listing names the file, and says how long it is. -/
theorem ls_prints_withA : ∃ m m', withA = some m ∧ Lists desk m m'
      ∧ Prints (utf8 "A             1\n") m m' := by
  have hall : withA.any servesList = true := by decide +kernel
  obtain ⟨m, hm, hserves⟩ := (Option.any_eq_true _ _).mp hall
  obtain ⟨slot, hslot, hserves⟩ := (Option.any_eq_true _ _).mp hserves
  simp only [Bool.and_eq_true] at hserves
  obtain ⟨⟨⟨⟨⟨⟨hcontrol, hrecord⟩, howned⟩, hdigits⟩, hliterals⟩, hdisk⟩, hconsole⟩ := hserves
  obtain ⟨mounted, hmounted, hroot⟩ := (Option.any_eq_true _ _).mp hdisk
  rw [Bool.and_eq_true, decide_eq_true_eq, decide_eq_true_eq] at hroot
  obtain ⟨⟨hend, hinside⟩, hlisted⟩ := hroot
  have hring3 : ∃ stack, m.control = .ring3 stack := by
    split at hcontrol
    next stack hcontrol' => exact ⟨stack, hcontrol'⟩
    · cases hcontrol
  have hlaid : Laid desk {a | 0x2000 ≤ a} (m.memory m.cr3) slot.process := by
    refine ⟨hrecord, howned, hdigits, fun i _ => Nat.le_add_right _ _, fun i _ => ?_,
      fun text htext => ?_⟩
    · exact (by decide : 0x2000 ≤ 0x2020).trans (Nat.le_add_right _ _)
    · have htext' := List.all_eq_true.mp hliterals text htext
      rw [Bool.and_eq_true, decide_eq_true_eq] at htext'
      have hbelow : ∀ text ∈ literals, desk.constant (utf8 text) + (utf8 text).length
          ≤ 0x2000 := by decide
      refine ⟨htext'.1, htext'.2, fun i hi hmem => ?_⟩
      have hend := hbelow text htext
      have hlow : 0x2000 ≤ desk.constant (utf8 text) + i := hmem
      omega
  obtain ⟨m', hlists, hprints⟩ := @ls_prints desk slot mounted m
    ⟨hring3, hslot, ⟨_, hlaid⟩, hmounted,
      ⟨[mounted.boot.rootCluster], .single hend, fun cluster hmem => by
      rwa [List.mem_singleton.mp hmem]⟩,
        by rw [show desk.medium = sane from rfl, hlisted]; decide, hconsole⟩
  rw [show desk.medium = sane from rfl, hlisted] at hprints
  exact ⟨m, m', hm, (hlists m').mpr rfl, hprints⟩

end Harlan.Shell
