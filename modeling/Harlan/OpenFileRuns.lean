import Mathlib.Tactic
import Harlan.Fat.Names
import Harlan.SlotRuns

/-!
What a step does to the disk and to a file that is open.

* `yields`, `closes`, `opened`: what the answers say of a descriptor.
* `careful`: no file is written under its name and a dot while it is open under its name.
* `Effect.disk`: only a write of a file changes the disk.
* `writeFile_keeps`: a write leaves the volume consistent, and a careful one every open file as it
  is.
* `open_opened`: what is behind a descriptor that was handed out.
* `FileStep`, `Effect.files`: a file that is open stays open as it is, or is closed, or goes with
  its process, or is read from where it was read to last. -/

namespace Harlan.Turns

open Fs

/-! ### What the answers say -/

/-- The bytes an answer says a read of a descriptor yielded. -/
def Note.yields (i : Fin maxProcesses) (d : ℕ) : Note → List UInt8
  | .answer (some who) call frame memory =>
      if who = i ∧ Call.ofNumber call.rax = some .read ∧ ¬isError frame.rax
        ∧ call.rdi.toNat = d then
        getBytes memory call.rsi.toNat frame.rax.toNat
      else []
  | _ => []

/-- An answer says that a descriptor was closed. -/
def Note.closes (i : Fin maxProcesses) (d : ℕ) : Note → Bool
  | .answer (some who) call frame _ =>
      who = i ∧ Call.ofNumber call.rax = some .close ∧ ¬isError frame.rax ∧ call.rdi.toNat = d
  | _ => false

/-- Whose descriptor an answer says a file was opened as, and which. -/
def Note.opened : Note → Option (Fin maxProcesses × ℕ)
  | .answer (some who) call frame _ =>
      if Call.ofNumber call.rax = some .open' ∧ ¬isError frame.rax then
        some (who, frame.rax.toNat)
      else none
  | _ => none

/-- The bytes the reads of a descriptor yielded, one read after the other. -/
def readBytes (i : Fin maxProcesses) (d : ℕ) (notes : List Note) : List UInt8 :=
  notes.flatMap (Note.yields i d)

lemma readBytes_append (i : Fin maxProcesses) (d : ℕ) (notes rest : List Note) :
    readBytes i d (notes ++ rest) = readBytes i d notes ++ readBytes i d rest :=
  List.flatMap_append

lemma readBytes_silent {i : Fin maxProcesses} {d : ℕ} {notes : List Note}
    (h : ∀ note ∈ notes, note.yields i d = []) : readBytes i d notes = [] :=
  List.flatMap_eq_nil_iff.mpr h

/-- What is no read of the descriptor yields nothing. -/
lemma yields_of_call {i : Fin maxProcesses} {d : ℕ} {who : Option (Fin maxProcesses)}
    {call frame : SyscallFrame} {memory : ByteMemory} (h : Call.ofNumber call.rax ≠ some .read) :
    (Note.answer who call frame memory).yields i d = [] := by
  cases who with
  | none => rfl
  | some who => exact if_neg fun hread => h hread.2.1

lemma Note.Plain.yields {note : Note} (h : note.Plain) (i : Fin maxProcesses) (d : ℕ) :
    note.yields i d = [] := by
  cases note with
  | answer who call frame memory =>
      refine yields_of_call fun hread => ?_
      exact nomatch h.symm.trans hread
  | switch | reads | writes => rfl

lemma Note.IsAccess.yields {note : Note} (h : note.IsAccess) (i : Fin maxProcesses) (d : ℕ) :
    note.yields i d = [] := by
  cases note with
  | answer => exact h.elim
  | switch | reads | writes => rfl

lemma opened_of_error {who : Option (Fin maxProcesses)} {call frame : SyscallFrame}
    {memory : ByteMemory} (h : isError frame.rax) :
    (Note.answer who call frame memory).opened = none := by
  cases who with
  | none => rfl
  | some who => exact if_neg fun hopened => hopened.2 h

namespace Machine

variable {m m' : Machine} {event : Event} {stack : ℕ} {call : SyscallFrame} {running : Running}
  {medium : Medium} {rax : UInt64}

/-! ### The disk -/

/-- A name is that of an open file, with a dot after it. -/
def dotted (m : Machine) (name : List UInt8) : Bool :=
  Fat.endsInOnlyDot name && m.scheduler.anyoneHasOpen name.dropLast

/-- No file is written under its name and a dot while it is open under its name. -/
def careful (m : Machine) : Event → Bool
  | .write name _ _ => !m.dotted name
  | .syscall call _ =>
      !(Call.ofNumber call.rax
        = some .writeFile && m.dotted (m.bytesAt call.rdi.toNat call.rsi.toNat))
  | _ => true

/-- All the steps of a run are careful. -/
def carefulRun : Machine → List Event → Bool
  | _, [] => true
  | m, event :: rest =>
      m.careful event && match m.step event with
        | some m' => m'.carefulRun rest
        | none => true

/-- What every careful step keeps, every careful run keeps. -/
lemma carefulRun_keeps {P : Machine → Prop}
    (hstep : ∀ m event m', P m → m.careful event = true → m.step event = some m' → P m')
    {m m' : Machine} {events : List Event} (h : P m) (hcareful : m.carefulRun events = true)
    (hrun : m.run events = some m') : P m' := by
  induction events generalizing m with
  | nil =>
      obtain rfl := Option.some.inj hrun
      exact h
  | cons event rest ih =>
      rw [run, List.foldlM_cons, Option.bind_eq_bind, Option.bind_eq_some_iff] at hrun
      obtain ⟨next, hnext, hrest⟩ := hrun
      rw [carefulRun, hnext, Bool.and_eq_true] at hcareful
      exact ih (hstep m event next h hcareful.1 hnext) hcareful.2 hrest

lemma serveWriteFile_disk :
    (m.serveWriteFile stack call running medium).disk = m.disk
      ∨ (m.serveWriteFile stack call running medium).disk
          = (Fs.writeFile m.disk medium m.scheduler.anyoneHasOpen
            (m.bytesAt call.rdi.toNat call.rsi.toNat)
              (m.bytesAt call.rdx.toNat call.r10.toNat)).2 := by
  rw [serveWriteFile]
  dsimp only
  split_ifs
  · exact .inl rfl
  · exact .inl rfl
  · exact .inl rfl
  · refine .inr ?_
    dsimp only [note]
    split
    next h => rw [h]; rfl
    next h => rw [h]; rfl

/-- Only a write of a file changes the disk. -/
lemma Effect.disk (h : Effect m event m') :
    m'.disk = m.disk ∨ ∃ name contents medium,
      m'.disk = (Fs.writeFile m.disk medium m.scheduler.anyoneHasOpen name contents).2
        ∧ (m.careful event = true → m.dotted name = false) := by
  cases h with
  | left hlive h => exact .inl h.disk
  | idle hslots hdisk htrace => exact .inl hdisk
  | wrote name contents medium hevent h =>
      refine .inr ⟨name, contents, medium, by rw [h], fun hcareful => ?_⟩
      rw [hevent, careful, Bool.not_eq_true'] at hcareful
      exact hcareful
  | @answered stack call rax switching hserving hquiet herror hserve =>
      by_cases hcall : Call.ofNumber call.rax = some .writeFile
      · obtain ⟨running, medium, hevent, heq⟩ := hserve (by rw [hcall]; nofun)
        have hm' : m' = m.serveWriteFile stack call running medium := by
          rw [heq, serve, hcall]
        rcases @serveWriteFile_disk m stack call running medium with hsame | hwrote
        · exact .inl (by rw [hm', hsame])
        · refine .inr ⟨_, _, medium, by rw [hm', hwrote], fun hcareful => ?_⟩
          simpa [hevent, careful, hcall] using hcareful
      · exact .inl (hquiet.disk hcall)
  | sent hserving hcall h =>
      obtain ⟨-, -, -, -, -, -, -, -, -, rfl⟩ := h
      exact .inl rfl
  | took switching hserving hcall h =>
      obtain ⟨-, -, -, -, -, -, rfl⟩ := h
      exact .inl rfl
  | added free slot hfree hmailbox hslots hdisk htrace => exact .inl hdisk
  | gaveUp h =>
      rw [h]
      exact .inl rfl

/-- **A write leaves the volume consistent, and a careful one every file that is open as it
is.** -/
lemma writeFile_keeps {boot : Fat.BootSector} {disk : Fat.Disk} {ours : Bool}
    {name contents : List UInt8} (hboot : boot.WellFormed) (hvolume : Fat.Consistent boot disk) :
    ∃ disk', (Fs.writeFile (some ⟨boot, disk, ours⟩) medium m.scheduler.anyoneHasOpen
      name contents).2
        = some ⟨boot, disk', ours⟩ ∧ Fat.Consistent boot disk'
      ∧ (m.dotted name = false → ∀ x ∈ Fat.rootEntries boot disk,
        (∀ other, (Fat.slotEntry x).isNamed other = true →
          m.scheduler.anyoneHasOpen other = true) →
        x ∈ Fat.rootEntries boot disk'
          ∧ Fat.fileBytes boot disk' (Fat.slotEntry x)
            = Fat.fileBytes boot disk (Fat.slotEntry x)) := by
  rcases Fs.writeFile_cases (some ⟨boot, disk, ours⟩) medium m.scheduler.anyoneHasOpen
    name contents
    with hsame | ⟨mounted, hmounted, hname, hclosed, hwrote⟩
  · exact ⟨disk, hsame, hvolume, fun _ x hx _ => ⟨hx, rfl⟩⟩
  · obtain rfl := Option.some.inj hmounted
    obtain ⟨encoded, hencoded⟩ := Option.isSome_iff_exists.mp hname
    obtain ⟨hvolume', hspared⟩ := Fat.writeFile_spares hboot hvolume hencoded medium.left rfl
    refine ⟨_, hwrote, hvolume', fun hcareful x hx hopen =>
      hspared x hx (Bool.eq_false_iff.mpr fun hstores => ?_)⟩
    -- the slot that is replaced decodes to the name, or to the name without its dot
    by_cases hdot : Fat.endsInOnlyDot name = true
    · have hnamed := Fat.isNamed_dropLast_of_dotted (Fat.encodes hencoded) hdot hstores
      rw [dotted, hdot, hopen _ hnamed] at hcareful
      cases hcareful
    · have hnamed := ((Fat.storesName_iff_plain (Fat.encodes hencoded)
        (Bool.eq_false_iff.mpr hdot)).mp hstores).2
      rw [hopen _ hnamed] at hclosed
      cases hclosed

/-- A file that is open in a slot is one that somebody has open, whatever name it goes by. -/
lemma anyoneHasOpen_of {s : Scheduler} {i : Fin maxProcesses} {slot : Slot} {d : Fin maxOpen}
    {file : OpenFile} {name : List UInt8} (hslot : s.slots i = some slot)
    (hfile : slot.process.openFiles d = some file) (hname : file.entry.isNamed name = true) :
    s.anyoneHasOpen name = true := by
  refine List.any_eq_true.mpr ⟨i, List.mem_finRange i, ?_⟩
  rw [hslot, Option.any_some]
  refine List.any_eq_true.mpr ⟨d, List.mem_finRange d, ?_⟩
  rw [hfile, Option.any_some, hname]

/-! ### A descriptor -/

section Descriptor

variable {files : OpenFiles} {d : Fin maxOpen} {file : OpenFile} {n position : ℕ}

/-- Another file is opened as another descriptor. -/
lemma open_of_some (h : files d = some file) (other : OpenFile) :
    (files.open' other).2 d = some file := by
  rw [OpenFiles.open']
  cases hfree : Fin.find? fun i => (files i).isNone with
  | none => exact h
  | some free =>
      have hnone := Fin.eq_true_of_find?_eq_some hfree
      have hne : d ≠ free := by
        rintro rfl
        rw [h] at hnone
        cases hnone
      exact (Function.update_of_ne hne _ _).trans h

/-- A file is found under the descriptor it was opened as. -/
lemma open_self (h : (files.open' file).1 = some d) : (files.open' file).2 d = some file := by
  rw [OpenFiles.open'] at h ⊢
  cases hfree : Fin.find? fun i => (files i).isNone with
  | none =>
      rw [hfree] at h
      cases h
  | some free =>
      rw [hfree] at h
      obtain rfl := Option.some.inj h
      exact Function.update_self _ _ _

lemma close_of_ne (h : d.val ≠ n) : (files.close n).2 d = files d := by
  rw [OpenFiles.close]
  split
  · exact Function.update_of_ne (fun heq => h (congrArg Fin.val heq)) _ _
  · rfl

lemma at_self : files.at' d = files d := dif_pos d.isLt

lemma moveTo_of_ne (h : d.val ≠ n) : files.moveTo n position d = files d := if_neg h

lemma moveTo_self (h : files d = some file) :
    files.moveTo d position d = some { file with position } := by
  rw [OpenFiles.moveTo, if_pos rfl, h]
  rfl

end Descriptor

/-! ### The calls on a descriptor -/

/-- The file a process has open as a descriptor. -/
def openAt (m : Machine) (i : Fin maxProcesses) (d : Fin maxOpen) : Option OpenFile :=
  (m.scheduler.slots i).bind fun slot => slot.process.openFiles d

lemma openAt_eq_some {i : Fin maxProcesses} {d : Fin maxOpen} {file : OpenFile} :
    m.openAt i d = some file
      ↔ ∃ slot, m.scheduler.slots i = some slot ∧ slot.process.openFiles d = some file :=
  Option.bind_eq_some_iff

lemma openAt_of_slots {i : Fin maxProcesses} (h : m'.scheduler.slots i = m.scheduler.slots i)
    (d : Fin maxOpen) :
    m'.openAt i d = m.openAt i d := by
  rw [openAt, openAt, h]

lemma openAt_withFiles {f : OpenFiles → OpenFiles}
    (hscheduler : m'.scheduler = m.scheduler.withFiles f) {slot : Slot}
    (hslot : m.scheduler.slots m.scheduler.current = some slot) (d : Fin maxOpen) :
    m'.openAt m.scheduler.current d = f slot.process.openFiles d := by
  rw [openAt, hscheduler, Scheduler.withFiles, Scheduler.change_self hslot]
  rfl

lemma numberFor_isError (err : FileError) : isError (numberFor err) := by
  have hdisk : isError errDisk := by decide
  have hfull : isError errVolumeFull := by decide
  cases err with
  | noDisk | reading | device => exact hdisk
  | badName | noSuchFile | isADirectory | open' | notOurDisk => decide
  | writing err =>
      cases err with
      | full | tooManyClusters | directoryFull => exact hfull
      | _ => exact hdisk

lemma withRunning_of_some {α : Type} {s : Scheduler} {slot : Slot} (h : s.runningSlot = some slot)
    (operation : OpenFiles → α × OpenFiles) :
    s.withRunning operation = (some (operation slot.process.openFiles).1,
      s.withFiles fun files => (operation files).2) := by
  rw [Scheduler.withRunning, h]
  rfl

/-- A read of an open file yields bytes from where it was read to last. -/
lemma serveRead_open {slot : Slot} {file : OpenFile} {bytes : List UInt8}
    (hslot : m.scheduler.runningSlot = some slot)
    (howned : running.ownsWritable call.rsi.toNat call.rdx.toNat = true)
    (hlength : call.rdx.toNat ≤ maxRead)
    (hfile : slot.process.openFiles.at' call.rdi.toNat = some file)
    (hread : Fs.readAt m.disk medium file.entry file.position call.rdx.toNat = .ok bytes) :
    m.serveRead stack call running medium
      = { m.fill call.rsi.toNat bytes with
          scheduler := m.scheduler.withFiles fun files => files.moveTo call.rdi.toNat
            (min (file.position + bytes.length) (2 ^ 32 - 1)) }.reply stack call
              (UInt64.ofNat bytes.length) := by
  have hallowed : ¬((!running.ownsWritable call.rsi.toNat call.rdx.toNat) = true
      ∨ maxRead < call.rdx.toNat) := by
    rw [howned, not_or, Nat.not_lt]
    exact ⟨by decide, hlength⟩
  have hfilled : (m.fill call.rsi.toNat bytes).scheduler.runningSlot = some slot := hslot
  rw [serveRead]
  dsimp only
  rw [if_neg hallowed, withRunning_of_some hslot]
  dsimp only
  rw [hfile, Option.join_some]
  dsimp only
  rw [hread]
  dsimp only
  rw [withRunning_of_some hfilled]
  rfl

/-- What a read comes to: an error and the files as they were, or bytes from where the file was
read to last. -/
lemma serveRead_cases {slot : Slot} (h : m.scheduler.runningSlot = some slot) :
    (∃ rax, isError rax ∧ Quiet stack call rax m (m.serveRead stack call running medium)
        ∧ (m.serveRead stack call running medium).scheduler = m.scheduler)
      ∨ ∃ file bytes, slot.process.openFiles.at' call.rdi.toNat = some file
          ∧ Fs.readAt m.disk medium file.entry file.position call.rdx.toNat = .ok bytes
          ∧ bytes.length ≤ maxRead
          ∧ m.serveRead stack call running medium = { m.fill call.rsi.toNat bytes with
              scheduler := m.scheduler.withFiles fun files => files.moveTo call.rdi.toNat
                (min (file.position + bytes.length) (2 ^ 32 - 1)) }.reply stack call
                  (UInt64.ofNat bytes.length) := by
  rw [serveRead]
  dsimp only
  split_ifs with hbad
  · exact .inl ⟨_, by decide, quiet_refused, rfl⟩
  · rw [not_or, Nat.not_lt] at hbad
    rw [withRunning_of_some h]
    dsimp only
    cases hfile : slot.process.openFiles.at' call.rdi.toNat with
    | none => exact .inl ⟨_, by decide, quiet_refused, rfl⟩
    | some file =>
        rw [Option.join_some]
        dsimp only
        split
        next bytes hbytes =>
          refine .inr ⟨file, bytes, rfl, hbytes, (Fs.readAt_length hbytes).trans hbad.2, ?_⟩
          have hfilled : (m.fill call.rsi.toNat bytes).scheduler.runningSlot = some slot := h
          rw [withRunning_of_some hfilled]
          rfl
        next err herr =>
          exact .inl ⟨_, numberFor_isError err,
            quiet_after (.writes _ _) trivial rfl rfl rfl rfl rfl, rfl⟩

/-- A file that is there is opened as the first free descriptor. -/
lemma serveOpen_found {slot : Slot} {name : List UInt8} {entry : Fat.DirectoryEntry}
    {d : Fin maxOpen} (hslot : m.scheduler.runningSlot = some slot)
    (howned : running.owns call.rdi.toNat call.rsi.toNat = true)
    (hlength : call.rsi.toNat ≤ maxName) (hbytes : m.bytesAt call.rdi.toNat call.rsi.toNat = name)
    (htext : Fat.validUtf8 name = true) (hfind : Fs.find m.disk medium name = .ok entry)
    (hfree : (slot.process.openFiles.open' ⟨entry, 0⟩).1 = some d) :
    m.serveOpen stack call running medium
      = { m.note (.reads call.rdi.toNat call.rsi.toNat) with
          scheduler := m.scheduler.withFiles fun files =>
            (files.open' ⟨entry, 0⟩).2 }.reply stack call
            (UInt64.ofNat d) := by
  have hallowed : ¬((!running.owns call.rdi.toNat call.rsi.toNat) = true
      ∨ maxName < call.rsi.toNat) := by
    rw [howned, not_or, Nat.not_lt]
    exact ⟨by decide, hlength⟩
  have hnoted : (m.note (.reads call.rdi.toNat call.rsi.toNat)).scheduler.runningSlot
      = some slot := hslot
  have hfound : Fs.find (m.note (.reads call.rdi.toNat call.rsi.toNat)).disk medium name
      = .ok entry := hfind
  rw [serveOpen]
  dsimp only
  rw [if_neg hallowed, hbytes, htext, if_neg (by decide), hfound]
  dsimp only
  rw [withRunning_of_some hnoted]
  dsimp only
  rw [Option.join_some, hfree]
  rfl

/-- What an attempt to open a file comes to: an error, or a descriptor for the file that was
found. -/
lemma serveOpen_cases {slot : Slot} (h : m.scheduler.runningSlot = some slot)
    (hcall : Call.ofNumber call.rax = some .open') :
    (∃ rax, isError rax ∧ Quiet stack call rax m (m.serveOpen stack call running medium))
      ∨ ∃ entry d, Fs.find m.disk medium (m.bytesAt call.rdi.toNat call.rsi.toNat) = .ok entry
          ∧ (slot.process.openFiles.open' ⟨entry, 0⟩).1 = some d
          ∧ m.serveOpen stack call running medium
            = { m.note (.reads call.rdi.toNat call.rsi.toNat) with
                scheduler := m.scheduler.withFiles fun files =>
                  (files.open' ⟨entry, 0⟩).2 }.reply stack call
                  (UInt64.ofNat d) := by
  rw [serveOpen]
  dsimp only
  split_ifs
  · exact .inl ⟨_, by decide, quiet_refused⟩
  · exact .inl ⟨_, by decide, quiet_after (.reads _ _) trivial rfl rfl rfl rfl rfl⟩
  · split
    next err herr =>
      exact .inl ⟨_, numberFor_isError err, quiet_after (.reads _ _) trivial rfl rfl rfl rfl rfl⟩
    next entry hfound =>
      have hnoted : (m.note (.reads call.rdi.toNat call.rsi.toNat)).scheduler.runningSlot
          = some slot := h
      have hfiles : call.Files fun files => (files.open' ⟨entry, 0⟩).2 := by
        rw [SyscallFrame.Files, hcall]
        exact .inr ⟨entry, rfl⟩
      rw [withRunning_of_some hnoted, Option.join_some]
      cases hopened : (slot.process.openFiles.open' ⟨entry, 0⟩).1 with
      | none =>
          exact .inl ⟨_, by decide, quiet_reply [.reads _ _] hfiles rfl (fun _ => rfl) rfl rfl
            (isAccess_one trivial) rfl⟩
      | some d => exact .inr ⟨entry, d, hfound, hopened, rfl⟩

/-- A descriptor that is open is closed. -/
lemma serveClose_closed {slot : Slot} {d : Fin maxOpen} {file : OpenFile}
    (hslot : m.scheduler.runningSlot = some slot) (hd : call.rdi.toNat = d)
    (hfile : slot.process.openFiles d = some file) :
    m.serveClose stack call
      = { m with scheduler := m.scheduler.withFiles fun files => (files.close d).2 }.reply stack
        call 0 := by
  have hclose : (slot.process.openFiles.close d).1 = true := by
    rw [OpenFiles.close, dif_pos d.isLt, hfile]
    rfl
  rw [serveClose, withRunning_of_some hslot, hd, hclose]

/-- The call says so. -/
lemma serveClose_open {slot : Slot} {d : Fin maxOpen} {file : OpenFile}
    (h : m.scheduler.runningSlot = some slot) (hd : call.rdi.toNat = d)
    (hfile : slot.process.openFiles d = some file) :
    (m.serveClose stack call).trace
      = m.trace ++ [.answer ((m.serveClose stack call).scheduler.owner stack) call
        { call with rax := 0 }
          (m.memory m.cr3)] := by
  rw [serveClose_closed h hd hfile]
  rfl

/-- Who asked for a file and was given a descriptor has it open as that, from its start on. -/
lemma open_opened {n : ℕ} {i : Fin maxProcesses} (h : Invariant m) (hafter : Invariant m')
    (hcall : Call.ofNumber call.rax = some .open')
    (hstep : m.step (.syscall call medium) = some m')
    (hopened : m'.trace.getLast?.bind Note.opened = some (i, n)) :
    ∃ (d : Fin maxOpen) (entry : Fat.DirectoryEntry), d.val = n
      ∧ Fs.find m.disk medium (m.bytesAt call.rdi.toNat call.rsi.toNat) = .ok entry
      ∧ m'.openAt i d = some ⟨entry, 0⟩ ∧ m'.disk = m.disk := by
  rw [step] at hstep
  split at hstep
  next stack hcontrol =>
    obtain rfl := Option.some.inj hstep
    have hserving := h.serving hcontrol
    obtain ⟨slot, hslot, -, hrunning⟩ := hserving.runningSlot
    rw [handle, Scheduler.running, hrunning, Option.map_some] at hopened hafter ⊢
    dsimp only at hopened hafter ⊢
    rw [serve, hcall] at hopened hafter ⊢
    dsimp only at hopened hafter ⊢
    rcases @serveOpen_cases m stack call ⟨m.scheduler.current, slot.process.owned,
      slot.process.writable⟩
      medium slot hrunning hcall with ⟨rax, herror, hquiet⟩ | ⟨entry, d, hfound, hd, heq⟩
    · obtain ⟨accesses, -, htrace⟩ := hquiet.trace
      rw [htrace, List.getLast?_concat, Option.bind_some, opened_of_error herror] at hopened
      cases hopened
    · have hscheduler : (m.serveOpen stack call ⟨m.scheduler.current, slot.process.owned,
          slot.process.writable⟩ medium).scheduler
            = m.scheduler.withFiles fun files => (files.open' ⟨entry, 0⟩).2 := by
        rw [heq]
        rfl
      have hopen := (openAt_withFiles hscheduler hslot d).trans (open_self hd)
      rw [heq] at hopened hafter hopen ⊢
      have howner := (@Invariant.serving _ stack hafter rfl).owner
      rw [reply, answer, List.getLast?_concat, Option.bind_some] at hopened
      rw [reply, answer] at howner
      dsimp only at howner hopened
      rw [howner, Note.opened] at hopened
      split_ifs at hopened
      obtain ⟨rfl, rfl⟩ := Prod.mk.inj (Option.some.inj hopened)
      have hsmall : d.val < UInt64.size := d.isLt.trans (by decide)
      exact ⟨d, entry, (UInt64.toNat_ofNat_of_lt' hsmall).symm, hfound, hopen, rfl⟩
  · cases hstep

/-! ### What a step does to an open file -/

/-- The notes of a step, and what it left of the file a process has open as a descriptor. -/
inductive FileStep (i : Fin maxProcesses) (d : Fin maxOpen) (m m' : Machine)
    (notes : List Note) : Prop
  /-- Nothing was read, and the file is open as it was, or its process is gone. -/
  | silent (hnotes : readBytes i d notes = [])
      (h : ∀ file, m.openAt i d = some file → m'.openAt i d = some file
        ∨ ∃ slot, m'.scheduler.slots i = some slot ∧ slot.state = .dead)
  /-- Bytes were read from where the file was read to last. -/
  | read (file : OpenFile) (medium : Medium) (room : ℕ) (hfile : m.openAt i d = some file)
      (hread : Fs.readAt m.disk medium file.entry file.position room = .ok (readBytes i d notes))
      (hdisk : m'.disk = m.disk)
      (h : m'.openAt i d = some { file with
        position := min (file.position + (readBytes i d notes).length) (2 ^ 32 - 1) })
  | closed (note : Note) (hmem : note ∈ notes) (h : note.closes i d = true)

variable {i : Fin maxProcesses} {d : Fin maxOpen} {notes : List Note}

lemma FileStep.same (hnotes : ∀ note ∈ notes, note.yields i d = [])
    (h : m'.scheduler.slots i = m.scheduler.slots i) : FileStep i d m m' notes :=
  .silent (readBytes_silent hnotes) fun _ hfile => .inl ((openAt_of_slots h d).trans hfile)

/-- A slot whose files are what they were, or whose process is gone. -/
lemma FileStep.slot (hnotes : ∀ note ∈ notes, note.yields i d = [])
    (h : ∀ slot, m.scheduler.slots i = some slot → ∃ slot', m'.scheduler.slots i = some slot'
      ∧ (slot'.state = .dead ∨ slot'.process.openFiles = slot.process.openFiles)) :
    FileStep i d m m' notes := by
  refine .silent (readBytes_silent hnotes) fun file hfile => ?_
  obtain ⟨slot, hslot, hfile⟩ := openAt_eq_some.mp hfile
  obtain ⟨slot', hslot', hdead | hfiles⟩ := h slot hslot
  · exact .inr ⟨slot', hslot', hdead⟩
  · exact .inl (openAt_eq_some.mpr ⟨slot', hslot', by rw [hfiles, hfile]⟩)

/-- A slot was changed, and the files in it were not. -/
lemma change_files {s : Scheduler} {f : Slot → Slot} {j : Fin maxProcesses}
    (hf : ∀ slot, (f slot).process.openFiles = slot.process.openFiles) (slot : Slot)
    (hslot : s.slots i = some slot) :
    ∃ slot', (s.change j f).slots i = some slot'
      ∧ (slot'.state = .dead ∨ slot'.process.openFiles = slot.process.openFiles) := by
  by_cases hi : i = j
  · subst hi
    exact ⟨_, Scheduler.change_self hslot, .inr (hf slot)⟩
  · exact ⟨slot, (Scheduler.change_of_ne hi).trans hslot, .inr rfl⟩

/-- An answer to somebody else yields nothing. -/
lemma yields_of_ne {who : Fin maxProcesses} {frame : SyscallFrame} {memory : ByteMemory} {d : ℕ}
    (h : i ≠ who) : (Note.answer (some who) call frame memory).yields i d = [] :=
  if_neg fun hread => h hread.1.symm

/-- Nor does an error. -/
lemma yields_of_error {who : Option (Fin maxProcesses)} {frame : SyscallFrame}
    {memory : ByteMemory} {d : ℕ} (h : isError frame.rax) :
    (Note.answer who call frame memory).yields i d = [] := by
  cases who with
  | none => rfl
  | some who => exact if_neg fun hread => hread.2.2.1 h

lemma yields_of_descriptor {who : Option (Fin maxProcesses)} {frame : SyscallFrame}
    {memory : ByteMemory} {d : ℕ} (h : call.rdi.toNat ≠ d) :
    (Note.answer who call frame memory).yields i d = [] := by
  cases who with
  | none => rfl
  | some who => exact if_neg fun hread => h hread.2.2.2

/-- Accesses and an answer that yields nothing. -/
lemma yields_answer {accesses : List Note} {answer : Note}
    (haccesses : ∀ note ∈ accesses, note.IsAccess) {d : ℕ} (h : answer.yields i d = []) :
    ∀ note ∈ accesses ++ [answer], note.yields i d = [] := by
  intro note hnote
  rcases List.mem_append.mp hnote with hmem | hmem
  · exact (haccesses note hmem).yields i d
  · rwa [List.mem_singleton.mp hmem]

/-- A call that is no read came back after an access, and no file has changed but with the process
it belongs to. -/
lemma answer_files {access : Note} {who : Option (Fin maxProcesses)} {frame : SyscallFrame}
    {memory : ByteMemory} (haccess : ∀ note ∈ [access], note.IsAccess)
    (hcall : Call.ofNumber call.rax ≠ some .read)
    (htrace : m'.trace = m.trace ++ [access] ++ [.answer who call frame memory])
    (h : ∀ slot, m.scheduler.slots i = some slot → ∃ slot', m'.scheduler.slots i = some slot'
      ∧ (slot'.state = .dead ∨ slot'.process.openFiles = slot.process.openFiles)) :
    ∃ notes, m'.trace = m.trace ++ notes ∧ FileStep i d m m' notes :=
  ⟨_, htrace.trans (List.append_assoc _ _ _),
    .slot (yields_answer haccess (yields_of_call hcall)) h⟩

/-- A read of the descriptor. -/
lemma serveRead_files {slot : Slot} (hslot : m.scheduler.slots m.scheduler.current = some slot)
    (hrunning : m.scheduler.runningSlot = some slot) (hcall : Call.ofNumber call.rax = some .read)
    (hd : call.rdi.toNat = d)
    (howner : (m.serveRead stack call running medium).scheduler.owner stack
      = some m.scheduler.current) :
    ∃ notes, (m.serveRead stack call running medium).trace = m.trace ++ notes
      ∧ FileStep m.scheduler.current d m (m.serveRead stack call running medium) notes := by
  rcases @serveRead_cases m stack call running medium slot hrunning with ⟨rax, herror,
    hquiet, hsame⟩
    | ⟨file, bytes, hfile, hread, hlength, heq⟩
  · obtain ⟨accesses, haccesses, htrace⟩ := hquiet.trace
    refine ⟨_, htrace.trans (List.append_assoc _ _ _),
      .same (yields_answer haccesses ?_) (by rw [hsame])⟩
    exact yields_of_error herror
  · rw [hd, at_self] at hfile
    have hlen : (UInt64.ofNat bytes.length).toNat = bytes.length := by
      simp only [maxRead] at hlength
      exact UInt64.toNat_ofNat_of_lt' (by simp only [UInt64.size]; omega)
    have hok : ¬isError (UInt64.ofNat bytes.length) := by
      rw [isError, hlen]
      simp only [maxRead] at hlength
      omega
    have hbytes : readBytes m.scheduler.current d [.writes call.rsi.toNat bytes.length,
        .answer (some m.scheduler.current) call { call with rax := UInt64.ofNat bytes.length }
          (putBytes (m.memory m.cr3) call.rsi.toNat bytes)] = bytes := by
      simp only [readBytes, List.flatMap_cons, List.flatMap_nil, Note.yields, hcall,
        hok, hd, hlen, not_false_eq_true, and_self, if_true, List.append_nil, List.nil_append]
      exact getBytes_eq fun i hi => putBytes_add hi
    refine ⟨[.writes call.rsi.toNat bytes.length,
      .answer (some m.scheduler.current) call { call with rax := UInt64.ofNat bytes.length }
        (putBytes (m.memory m.cr3) call.rsi.toNat bytes)], ?_,
      .read file medium call.rdx.toNat (openAt_eq_some.mpr ⟨slot, hslot, hfile⟩) ?_ ?_ ?_⟩
    · rw [heq] at howner ⊢
      rw [reply, answer, fill] at howner ⊢
      dsimp only at howner ⊢
      rw [howner, List.append_assoc, Function.update_self]
      rfl
    · rw [hbytes]
      exact hread
    · rw [heq]
      rfl
    · have hscheduler : (m.serveRead stack call running medium).scheduler
          = m.scheduler.withFiles fun files => files.moveTo call.rdi.toNat
            (min (file.position + bytes.length) (2 ^ 32 - 1)) := by
        rw [heq]
        rfl
      rw [hbytes, openAt_withFiles hscheduler hslot d, hd]
      exact moveTo_self hfile

/-- What a call that is no read or close of a descriptor does to the file there. -/
lemma files_keeps {f : OpenFiles → OpenFiles} {files : OpenFiles} {file : OpenFile}
    (h : call.Files f) (hread : Call.ofNumber call.rax = some .read → call.rdi.toNat ≠ d)
    (hclose : Call.ofNumber call.rax = some .close → call.rdi.toNat ≠ d)
    (hfile : files d = some file) :
    f files d = some file := by
  rcases h with rfl | h
  · exact hfile
  · split at h
    · obtain ⟨entry, rfl⟩ := h
      exact open_of_some hfile _
    next hcall =>
      obtain ⟨position, rfl⟩ := h
      exact (moveTo_of_ne (hread hcall).symm).trans hfile
    next hcall =>
      rw [h]
      exact (close_of_ne (hclose hcall).symm).trans hfile
    · exact h.elim

/-- A call came back. -/
lemma answered_files {switching : Bool}
    (hserving : Serving { m with scheduler := { m.scheduler with switching } } stack)
    (hquiet : Quiet stack call rax { m with scheduler := { m.scheduler with switching } } m')
    (hserve : Call.ofNumber call.rax ≠ some .recv → ∃ running medium, event = .syscall call medium
      ∧ m' = m.serve stack call running medium)
    (howner : m'.scheduler.owner stack = some m.scheduler.current) (i : Fin maxProcesses)
    (d : Fin maxOpen) :
    ∃ notes, m'.trace = m.trace ++ notes ∧ FileStep i d m m' notes := by
  obtain ⟨slot, hslot, -, hrunning⟩ := hserving.runningSlot
  obtain ⟨f, hfiles, hscheduler⟩ := hquiet.scheduler
  obtain ⟨accesses, haccesses, htrace⟩ := hquiet.trace
  rw [howner, List.append_assoc] at htrace
  by_cases hi : i = m.scheduler.current
  · subst hi
    by_cases hread : Call.ofNumber call.rax = some .read ∧ call.rdi.toNat = d
    · obtain ⟨running, medium, -, rfl⟩ := hserve (by simp [hread.1])
      rw [serve, hread.1] at howner ⊢
      exact serveRead_files hslot hrunning hread.1 hread.2 howner
    by_cases hclose : Call.ofNumber call.rax = some .close ∧ call.rdi.toNat = d
    · obtain ⟨running, medium, -, rfl⟩ := hserve (by simp [hclose.1])
      rw [serve, hclose.1] at howner htrace ⊢
      dsimp only at howner htrace ⊢
      cases hfile : slot.process.openFiles d with
      | none =>
          refine ⟨_, htrace,
            .silent (readBytes_silent (yields_answer haccesses ?_)) fun file hopen => ?_⟩
          · exact yields_of_call (by simp [hclose.1])
          · obtain ⟨other, hother, hopen⟩ := openAt_eq_some.mp hopen
            obtain rfl := Option.some.inj (hslot.symm.trans hother)
            exact absurd (hfile.symm.trans hopen) (by simp)
      | some file =>
          have hclosed := @serveClose_open m stack call slot d file hrunning hclose.2 hfile
          rw [howner] at hclosed
          refine ⟨_, hclosed, .closed _ (List.mem_singleton_self _) ?_⟩
          rw [Note.closes, decide_eq_true_eq]
          exact ⟨rfl, hclose.1, (by decide : ¬isError 0), hclose.2⟩
    · refine ⟨_, htrace,
        .silent (readBytes_silent (yields_answer haccesses ?_)) fun file hopen => .inl ?_⟩
      · by_cases hcall : Call.ofNumber call.rax = some .read
        · exact yields_of_descriptor fun hd => hread ⟨hcall, hd⟩
        · exact yields_of_call hcall
      · obtain ⟨other, hother, hopen⟩ := openAt_eq_some.mp hopen
        obtain rfl := Option.some.inj (hslot.symm.trans hother)
        refine (openAt_withFiles hscheduler hslot d).trans ?_
        exact files_keeps hfiles (fun hcall hd => hread ⟨hcall, hd⟩)
          (fun hcall hd => hclose ⟨hcall, hd⟩)
          hopen
  · refine ⟨_, htrace, .same (yields_answer haccesses (yields_of_ne hi)) ?_⟩
    rw [hscheduler]
    exact Scheduler.change_of_ne hi

/-- **What a step does to a file that is open.** -/
lemma Effect.files (h : Effect m event m') (hafter : Invariant m') (i : Fin maxProcesses)
    (d : Fin maxOpen) :
    ∃ notes, m'.trace = m.trace ++ notes ∧ FileStep i d m m' notes := by
  cases h with
  | left hlive h =>
      obtain ⟨notes, htrace, hplain⟩ := h.trace
      refine ⟨notes, htrace,
        .slot (fun note hnote => (hplain note hnote).yields i d) fun slot hslot => ?_⟩
      by_cases hi : i = m.scheduler.current
      · subst hi
        exact h.slots.files slot hslot
      · exact ⟨slot, (h.slots.others i hi).trans hslot, .inr rfl⟩
  | idle hslots hdisk htrace =>
      obtain ⟨notes, htrace, hplain⟩ := htrace
      exact ⟨notes, htrace,
        .same (fun note hnote => (hplain note hnote).yields i d) (by rw [hslots])⟩
  | wrote name contents medium hevent h =>
      rw [h]
      exact ⟨[], (List.append_nil _).symm, .same nofun rfl⟩
  | answered switching hserving hquiet herror hserve =>
      refine answered_files hserving hquiet hserve ?_ i d
      obtain ⟨f, -, hscheduler⟩ := hquiet.scheduler
      rw [(hafter.serving hquiet.control).owner, hscheduler]
      rfl
  | sent hserving hcall h =>
      obtain ⟨j, -, -, mailbox, -, -, -, -, -, rfl⟩ := h
      exact answer_files (@isAccess_one (.reads _ _) trivial) (by rw [hcall]; nofun) rfl
        (change_files fun _ => rfl)
  | took switching hserving hcall h =>
      obtain ⟨-, -, -, mailbox, -, -, rfl⟩ := h
      exact answer_files (@isAccess_one (.writes _ _) trivial) (by rw [hcall]; nofun) rfl
        (change_files fun _ => rfl)
  | added free slot hfree hmailbox hslots hdisk htrace =>
      refine ⟨[], htrace.trans (List.append_nil _).symm,
        .slot nofun fun other hother => ⟨other, ?_, .inr rfl⟩⟩
      have hi : i ≠ free := by
        rintro rfl
        rw [hfree] at hother
        cases hother
      rw [hslots, Function.update_of_ne hi, hother]
  | gaveUp h =>
      rw [h]
      refine ⟨[], (List.append_nil _).symm, .slot nofun fun slot hslot => ?_⟩
      refine ⟨_, returned_slots.mpr ⟨slot, hslot, rfl⟩, ?_⟩
      split_ifs
      · exact .inl rfl
      · exact .inr rfl

end Machine

end Harlan.Turns
