import Mathlib.Tactic
import Harlan.OpenFileRuns

/-!
What a process reads of a file it has open, over whole runs.

* `run_volume`: every run leaves the volume consistent.
* `KeepsSnapshot`: what the reads of a descriptor yield, one after the other, is how the file
  began when it was opened.
* `Held`, `step_held`: what a careful step keeps while the file is open.
* `snapshot_kept`: so it is in every run whose steps are all careful.
* `dottedRun_breaks_snapshot`: a file that is written under its name and a dot while it is open.
-/

namespace Harlan.Turns

open Fs

namespace Machine

variable {m m' : Machine} {event : Event} {events : List Event} {i : Fin maxProcesses}
  {d : Fin maxOpen}
  {boot : Fat.BootSector} {disk : Fat.Disk} {ours : Bool}

/-! ### The volume -/

/-- The disk holds a consistent volume. -/
def Volume (boot : Fat.BootSector) (ours : Bool) (m : Machine) : Prop :=
  ∃ disk, m.disk = some ⟨boot, disk, ours⟩ ∧ Fat.Consistent boot disk

lemma Effect.volume (hboot : boot.WellFormed) (h : Effect m event m')
    (hvolume : m.Volume boot ours) :
    m'.Volume boot ours := by
  obtain ⟨disk, hdisk, hconsistent⟩ := hvolume
  rcases h.disk with hsame | ⟨name, contents, medium, hwrote, -⟩
  · exact ⟨disk, hsame.trans hdisk, hconsistent⟩
  · obtain ⟨disk', hdisk', hconsistent', -⟩ :=
      @writeFile_keeps m medium boot disk ours name contents hboot hconsistent
    rw [hdisk, hdisk'] at hwrote
    exact ⟨disk', hwrote, hconsistent'⟩

/-- Every run leaves the volume consistent. -/
lemma run_volume (hboot : boot.WellFormed) (h : Invariant m) (hvolume : m.Volume boot ours)
    (hrun : m.run events = some m') : Invariant m' ∧ m'.Volume boot ours := by
  refine @run_keeps (fun m => Invariant m ∧ m.Volume boot ours) ?_ _ _ _ ⟨h, hvolume⟩ hrun
  rintro m event m' ⟨h, hvolume⟩ hstep
  exact ⟨step_invariant h hstep, (step_effect h hstep).volume hboot hvolume⟩

/-! ### The file -/

/-- What was noted between two states of a run. -/
def notesSince (m m' : Machine) : List Note := m'.trace.drop m.trace.length

/-- A file was found under a name in one state and opened in the next. What the reads of the
descriptor have yielded since is how the contents it had then begin, and while it is open the
directory lists it and it has these contents. -/
def KeepsSnapshot (found opened m : Machine) (name : List UInt8) (i : Fin maxProcesses)
    (d : ℕ) : Prop :=
  ∃ mounted entry contents, found.disk = some mounted
    ∧ (Fat.find mounted.boot name ⟨mounted.disk, 0⟩).1 = .ok (some entry)
    ∧ Fat.Reads mounted.boot mounted.disk entry contents
    ∧ readBytes i d (opened.notesSince m) <+: contents
    ∧ ∀ descriptor : Fin maxOpen, descriptor.val = d → (m.openAt i descriptor).isSome = true →
      ∃ disk entries, m.disk = some { mounted with disk }
        ∧ (Fat.list mounted.boot ⟨disk, 0⟩).1 = .ok entries ∧ entry ∈ entries
        ∧ Fat.Reads mounted.boot disk entry contents

/-- What a careful run keeps of a file that was opened: the descriptor was closed since, or its
process is gone, or the file is open, still in its slot of the directory and with its contents,
and has been read up to a position. -/
structure Held (boot : Fat.BootSector) (ours : Bool) (x : Fat.SlotBytes) (contents : List UInt8)
    (i : Fin maxProcesses) (d : Fin maxOpen) (trace : List Note) (m : Machine) : Prop where
  invariant : Invariant m
  volume : m.Volume boot ours
  file : ∃ notes, m.trace = trace ++ notes
    ∧ ((∃ note ∈ notes, note.closes i d = true)
      ∨ ((∃ slot, m.scheduler.slots i = some slot ∧ slot.state = .dead)
          ∧ readBytes i d notes <+: contents)
      ∨ ∃ disk position, m.disk = some ⟨boot, disk, ours⟩ ∧ x ∈ Fat.rootEntries boot disk
          ∧ Fat.fileBytes boot disk (Fat.slotEntry x) = contents
          ∧ m.openAt i d = some ⟨Fat.slotEntry x, position⟩ ∧ position ≤ contents.length
          ∧ readBytes i d notes = contents.take position)

variable {x : Fat.SlotBytes} {contents : List UInt8} {trace notes : List Note}

/-- A file is no longer than a position can go. -/
lemma fileBytes_length_lt : (Fat.fileBytes boot disk (Fat.slotEntry x)).length < 2 ^ 32 := by
  rw [Fat.fileBytes, List.length_take]
  exact (Nat.min_le_left _ _).trans_lt (Fat.BootSector.le32_lt _ _ _ _)

/-- What was read and what is read next are how the file begins. -/
lemma take_append_read {position room : ℕ} {bytes : List UInt8}
    (hposition : position ≤ contents.length) (hlength : contents.length < 2 ^ 32)
    (hbytes : bytes = (contents.drop position).take room) :
    min (position + bytes.length) (2 ^ 32 - 1) ≤ contents.length
      ∧ contents.take position ++ bytes
        = contents.take (min (position + bytes.length) (2 ^ 32 - 1)) := by
  have hread : bytes.length = min room (contents.length - position) := by
    rw [hbytes, List.length_take, List.length_drop]
  have hmin : min (position + bytes.length) (2 ^ 32 - 1) = position + bytes.length := by omega
  have hcut : bytes = (contents.drop position).take bytes.length := by
    rw [hread, hbytes, List.take_eq_take_iff, List.length_drop, Nat.min_assoc, Nat.min_self]
  refine ⟨by omega, ?_⟩
  rw [hmin, List.take_add, ← hcut]

/-- Whoever is gone has nothing open. -/
lemma openAt_of_dead (h : Invariant m) {slot : Slot} (hslot : m.scheduler.slots i = some slot)
    (hdead : slot.state = .dead) : m.openAt i d = none := by
  rw [openAt, hslot, Option.bind_some, h.kept.dead hslot hdead]
  rfl

/-- A careful step leaves a file that is open in its slot of the directory, and with its
contents. -/
lemma Effect.spares (hboot : boot.WellFormed) (h : Effect m event m')
    (hcareful : m.careful event = true) (hconsistent : Fat.Consistent boot disk)
    (hdisk : m.disk = some ⟨boot, disk, ours⟩) (hx : x ∈ Fat.rootEntries boot disk) {position : ℕ}
    (hopen : m.openAt i d = some ⟨Fat.slotEntry x, position⟩) :
    ∃ disk', m'.disk = some ⟨boot, disk', ours⟩ ∧ x ∈ Fat.rootEntries boot disk'
      ∧ Fat.fileBytes boot disk' (Fat.slotEntry x)
        = Fat.fileBytes boot disk (Fat.slotEntry x) := by
  rcases h.disk with hsame | ⟨name, contents, medium, hwrote, hdotted⟩
  · exact ⟨disk, hsame.trans hdisk, hx, rfl⟩
  · obtain ⟨slot, hslot, hfile⟩ := openAt_eq_some.mp hopen
    obtain ⟨disk', hdisk', -, hspared⟩ :=
      @writeFile_keeps m medium boot disk ours name contents hboot hconsistent
    rw [hdisk, hdisk'] at hwrote
    exact ⟨disk', hwrote, hspared (hdotted hcareful) x hx fun other hnamed =>
      anyoneHasOpen_of hslot hfile hnamed⟩

/-- The bytes a read yields are those of the file from where it was read to last. -/
lemma readAt_bytes {medium : Medium} {entry : Fat.DirectoryEntry} {offset room : ℕ}
    {bytes : List UInt8} (hboot : boot.WellFormed)
    (hfile : Fat.IsFile boot (Fat.entryOf boot disk) entry)
    (h : Fs.readAt (some ⟨boot, disk, ours⟩) medium entry offset room = .ok bytes) :
    bytes = ((Fat.fileBytes boot disk entry).drop offset).take room := by
  obtain ⟨mounted, hmounted, hread⟩ := ask_ok h
  obtain rfl := Option.some.inj hmounted
  have hreturns := @Fat.readAt_returns boot ⟨disk, 0⟩ hboot entry offset room hfile
  rw [hreturns] at hread
  exact (Except.ok.inj hread).symm

/-- **What a careful step keeps.** -/
lemma step_held (hboot : boot.WellFormed) (h : Held boot ours x contents i d trace m)
    (hcareful : m.careful event = true) (hstep : m.step event = some m') :
    Held boot ours x contents i d trace m' := by
  have heffect := step_effect h.invariant hstep
  have hafter := step_invariant h.invariant hstep
  obtain ⟨notes, htrace, hfile⟩ := h.file
  obtain ⟨more, hmore, hstepped⟩ := heffect.files hafter i d
  rw [htrace, List.append_assoc] at hmore
  refine ⟨hafter, heffect.volume hboot h.volume, notes ++ more, hmore, ?_⟩
  rcases hfile with ⟨note, hmem, hcloses⟩ | ⟨⟨slot, hslot, hdead⟩, hread⟩
    | ⟨disk, position, hdisk, hx, hcontents, hopen, hposition, hread⟩
  · exact .inl ⟨note, List.mem_append_left _ hmem, hcloses⟩
  · have hnone := @openAt_of_dead m i d h.invariant slot hslot hdead
    cases hstepped with
    | silent hnotes hkept =>
        refine .inr (.inl ⟨⟨slot, heffect.dead hslot hdead, hdead⟩, ?_⟩)
        rwa [readBytes_append, hnotes, List.append_nil]
    | read file medium room hfile hbytes hsame hmoved => exact nomatch hnone.symm.trans hfile
    | closed note hmem hcloses => exact .inl ⟨note, List.mem_append_right _ hmem, hcloses⟩
  · obtain ⟨disk₀, hdisk₀, hconsistent⟩ := h.volume
    obtain ⟨-, rfl, -⟩ := Mounted.mk.inj (Option.some.inj (hdisk.symm.trans hdisk₀))
    obtain ⟨disk', hdisk', hx', hcontents'⟩ :=
      heffect.spares hboot hcareful hconsistent hdisk hx hopen
    cases hstepped with
    | silent hnotes hkept =>
        rcases hkept _ hopen with hsame | hdead
        · refine .inr (.inr ⟨disk', position, hdisk', hx', hcontents'.trans hcontents, hsame,
            hposition, ?_⟩)
          rwa [readBytes_append, hnotes, List.append_nil]
        · refine .inr (.inl ⟨hdead, ?_⟩)
          rw [readBytes_append, hnotes, List.append_nil, hread]
          exact List.take_prefix _ _
    | read file medium room hfile hbytes hsame hmoved =>
        obtain rfl := Option.some.inj (hopen.symm.trans hfile)
        rw [hdisk] at hbytes
        have hbytes' := readAt_bytes hboot (hconsistent.file x hx) hbytes
        rw [hcontents] at hbytes'
        obtain ⟨hposition', htake⟩ :=
          take_append_read hposition (hcontents ▸ fileBytes_length_lt) hbytes'
        refine .inr (.inr ⟨disk', _, hdisk', hx', hcontents'.trans hcontents, hmoved,
          hposition', ?_⟩)
        rw [readBytes_append, hread, htake]
    | closed note hmem hcloses => exact .inl ⟨note, List.mem_append_right _ hmem, hcloses⟩

lemma trace_notesSince (h : m'.trace = m.trace ++ notes) : m.notesSince m' = notes := by
  rw [notesSince, h, List.drop_left]

/-- A file that was just opened is held. -/
lemma held_of_open {call : SyscallFrame} {medium : Medium} {n : ℕ} (hboot : boot.WellFormed)
    (h : Invariant m) (hvolume : m.Volume boot ours)
    (hcall : Call.ofNumber call.rax = some .open')
    (hstep : m.step (.syscall call medium) = some m')
    (hopened : m'.trace.getLast?.bind Note.opened = some (i, n)) :
    ∃ (d : Fin maxOpen) (disk : Fat.Disk) (x : Fat.SlotBytes), d.val = n
      ∧ m.disk = some ⟨boot, disk, ours⟩
      ∧ (Fat.find boot (m.bytesAt call.rdi.toNat call.rsi.toNat) ⟨disk, 0⟩).1
        = .ok (some (Fat.slotEntry x))
      ∧ Fat.Reads boot disk (Fat.slotEntry x) (Fat.fileBytes boot disk (Fat.slotEntry x))
      ∧ Held boot ours x (Fat.fileBytes boot disk (Fat.slotEntry x)) i d m'.trace m' := by
  have hafter := step_invariant h hstep
  have hvolume' := (step_effect h hstep).volume hboot hvolume
  obtain ⟨disk, hdisk, hconsistent⟩ := hvolume
  obtain ⟨d, entry, hd, hfound, hopen, hsame⟩ := open_opened h hafter hcall hstep hopened
  obtain ⟨mounted, hmounted, hfind⟩ := find_ok hfound
  obtain rfl := Option.some.inj (hdisk.symm.trans hmounted)
  have hreturns := @Fat.find_returns boot ⟨disk, 0⟩ _ hconsistent.root
    (m.bytesAt call.rdi.toNat call.rsi.toNat)
  have hentry := hfind
  rw [hreturns] at hentry
  obtain ⟨x, hx, rfl⟩ := List.mem_map.mp (List.mem_of_find?_eq_some (Except.ok.inj hentry))
  refine ⟨d, disk, x, hd, hdisk, hfind, Fat.reads_of_isFile hboot (hconsistent.file x hx), hafter,
    hvolume', [], (List.append_nil _).symm, ?_⟩
  exact .inr (.inr ⟨disk, 0, hsame.trans hdisk, hx, rfl, hopen, Nat.zero_le _, rfl⟩)

/-- **A file that is open does not change under its reader, while nobody writes to its name with a
dot after it.** From a machine with a consistent volume, whatever was done before: once a process
has opened a file, and whatever is done then by anybody, so long as no file is written under its
name and a dot while it is open under its name, what the reads of the descriptor yield before it
is closed is, one after the other, how the contents the file had when it was opened begin; and
while it is open the directory lists it, with these contents. -/
theorem snapshot_kept {memory : ℕ → ByteMemory} {mounted : Mounted}
    {console : Option Console} {cr3 : ℕ} {before later : List Event} {found opened : Machine}
    {call : SyscallFrame} {medium : Medium} {d : ℕ}
    (hparse : Fat.BootSector.parse (mounted.disk 0) = .ok mounted.boot)
    (hvolume : Fat.Consistent mounted.boot mounted.disk)
    (hbefore : (Machine.boot memory (some mounted) console cr3).run before = some found)
    (hcall : Call.ofNumber call.rax = some .open')
    (hopen : found.step (.syscall call medium) = some opened)
    (hopened : opened.trace.getLast?.bind Note.opened = some (i, d))
    (hlater : opened.run later = some m) (hcareful : opened.carefulRun later = true)
    (hunclosed : ∀ note ∈ opened.notesSince m, note.closes i d = false) :
    KeepsSnapshot found opened m (found.bytesAt call.rdi.toNat call.rsi.toNat) i d := by
  have hboot := Fat.BootSector.parse_wellFormed hparse
  obtain ⟨hinvariant, hfound⟩ :=
    run_volume hboot (boot_invariant memory (some mounted) console cr3)
    ⟨mounted.disk, rfl, hvolume⟩ hbefore
  obtain ⟨d, disk, x, rfl, hdisk, hfind, hreads, hheld⟩ :=
    held_of_open hboot hinvariant hfound hcall hopen hopened
  have hafter := carefulRun_keeps (fun _ _ _ h hcareful hstep => step_held hboot h hcareful hstep)
    hheld hcareful hlater
  obtain ⟨notes, htrace, hfile⟩ := hafter.file
  rw [trace_notesSince htrace] at hunclosed
  refine ⟨_, _, _, hdisk, hfind, hreads, ?_, ?_⟩
  · rw [trace_notesSince htrace]
    rcases hfile with ⟨note, hmem, hcloses⟩ | ⟨-, hread⟩ | ⟨disk', position, -, -, -, -, -, hread⟩
    · rw [hunclosed note hmem] at hcloses
      cases hcloses
    · exact hread
    · rw [hread]
      exact List.take_prefix _ _
  · intro descriptor hdescriptor hopen
    obtain rfl := Fin.ext hdescriptor
    rcases hfile with ⟨note, hmem, hcloses⟩ | ⟨⟨slot, hslot, hdead⟩, -⟩
      | ⟨disk', position, hdisk', hx, hcontents, -, -, -⟩
    · rw [hunclosed note hmem] at hcloses
      cases hcloses
    · rw [openAt_of_dead hafter.invariant hslot hdead] at hopen
      cases hopen
    · obtain ⟨disk₀, hdisk₀, hconsistent⟩ := hafter.volume
      obtain ⟨-, rfl, -⟩ := Mounted.mk.inj (Option.some.inj (hdisk'.symm.trans hdisk₀))
      have hlist := @Fat.list_returns mounted.boot ⟨disk', 0⟩ _ hconsistent.root
      refine ⟨disk', _, hdisk', by rw [hlist], List.mem_map_of_mem hx, ?_⟩
      rw [← hcontents]
      exact Fat.reads_of_isFile hboot (hconsistent.file x hx)

/-! ### A volume that is ours -/

/-- The boot sector of a volume the kernel takes for its own. -/
def ourBoot : Fat.BootSector :=
  { Fat.emptyBoot with volumeId := some ⟨ourSerial, ourLabel ++ List.replicate 5 Fat.space⟩ }

/-- An empty volume that is ours. -/
def ourDisk : Fat.Disk
  | 0 => fun i =>
      match i.val with
      | 66 => 0x29
      | 67 => 0x4C
      | 68 => 0x52
      | 69 => 0x41
      | 70 => 0x48
      | _ =>
          if 71 ≤ i.val ∧ i.val < 82 then
            (ourLabel ++ List.replicate 5 Fat.space).getD (i.val - 71) 0
          else Fat.emptyDisk 0 i
  | sector => Fat.emptyDisk sector

lemma parse_ourDisk : Fat.BootSector.parse (ourDisk 0) = .ok ourBoot := by decide +kernel

lemma consistent_ourDisk : Fat.Consistent ourBoot ourDisk := by
  refine Fat.consistent_blank (by decide) ⟨.single (by decide +kernel), fun cluster hmem => ?_⟩
    fun offset hoffset => ?_
  · rw [List.mem_singleton.mp hmem]
    decide +kernel
  · obtain rfl : offset = 0 := Nat.lt_one_iff.mp hoffset
    rfl

/-- `A.`, `B`, `x` and `y`, in the memory of a process. -/
def texts : ℕ → ByteMemory := fun _ => putBytes (fun _ => 0) 0x1000 [0x41, 0x2E, 0x42, 0x78, 0x79]

/-- A medium that does what it is asked. -/
def sane : Medium := ⟨64, false, []⟩

/-- A machine with our volume. -/
def withOurDisk : Machine := Machine.boot texts (some (adopt ourBoot ourDisk)) none 0

/-- The kernel writes `h` to `A`, and a process runs. -/
def readerRun : List Event :=
  [.write [0x41] [0x68] sane, .add (demo 1 0x10000), .runUntilEmpty 0, .handOver, .resume]

/-- It opens `A`. -/
def opening : SyscallFrame := ⟨5, 0x1000, 1, 0, 0⟩

/-- It writes `x` and then `y` to another name, and reads what it has open. -/
def writing (ptr len : UInt64) : List Event :=
  [.syscall ⟨8, ptr, len, 0x1003, 1⟩ sane, .syscall ⟨8, ptr, len, 0x1004, 1⟩ sane,
    .syscall ⟨6, 0, 0x2000, 64, 0⟩ sane]

/-- Whatever is written to `B`, a reader of `A` reads what `A` held. -/
theorem snapshot_kept_readerRun : ∃ found opened m, withOurDisk.run readerRun = some found
    ∧ found.step (.syscall opening sane) = some opened ∧ opened.run (writing 0x1002 1) = some m
    ∧ opened.carefulRun (writing 0x1002 1) = true ∧ readBytes 0 0 (opened.notesSince m) = [0x68]
    ∧ KeepsSnapshot found opened m (found.bytesAt 0x1000 1) 0 0 := by
  have hall : ((withOurDisk.run readerRun).bind fun found =>
      (found.step (.syscall opening sane)).bind fun opened =>
        (opened.run (writing 0x1002 1)).map fun m =>
          (opened.trace.getLast?.bind Note.opened, opened.carefulRun (writing 0x1002 1),
            (opened.notesSince m).all (!Note.closes 0 0 ·), readBytes 0 0 (opened.notesSince m)))
        = some (some (0, 0), true, true, [0x68]) := by decide +kernel
  simp only [Option.bind_eq_some_iff, Option.map_eq_some_iff, Prod.mk.injEq, List.all_eq_true,
    Bool.not_eq_true'] at hall
  obtain ⟨found, hfound, opened, hopen, m, hlater, hopened, hcareful, hunclosed, hread⟩ := hall
  exact ⟨found, opened, m, hfound, hopen, hlater, hcareful, hread,
    @snapshot_kept _ _ _ _ _ _ _ _ _ _ opening sane _ parse_ourDisk consistent_ourDisk
    hfound rfl hopen
      (Option.bind_eq_some_iff.mpr hopened) hlater hcareful hunclosed⟩

/-- **A file that is written under its name and a dot, twice, while it is open**: the first time
frees its cluster, and the second takes it again, so that the reader of `A` reads what was written
to `A.`. -/
theorem dottedRun_breaks_snapshot : ∃ found opened m,
    Fat.BootSector.parse (ourDisk 0) = .ok ourBoot ∧ Fat.Consistent ourBoot ourDisk
    ∧ withOurDisk.run readerRun = some found ∧ Call.ofNumber opening.rax = some .open'
    ∧ found.step (.syscall opening sane) = some opened
    ∧ opened.trace.getLast?.bind Note.opened = some (0, 0)
      ∧ opened.run (writing 0x1000 2) = some m
    ∧ (∀ note ∈ opened.notesSince m, note.closes 0 0 = false)
    ∧ ¬KeepsSnapshot found opened m (found.bytesAt opening.rdi.toNat opening.rsi.toNat) 0 0 := by
  have hall : ((withOurDisk.run readerRun).bind fun found =>
      (found.step (.syscall opening sane)).bind fun opened =>
        (opened.run (writing 0x1000 2)).map fun m =>
          (opened.trace.getLast?.bind Note.opened, (opened.notesSince m).all (!Note.closes 0 0 ·),
            readBytes 0 0 (opened.notesSince m)))
        = some (some (0, 0), true, [0x79]) := by decide +kernel
  -- what the volume holds before the file is opened
  have hheld : ((withOurDisk.run readerRun).bind fun found => found.disk.map fun mounted =>
      ((Fat.find mounted.boot (found.bytesAt 0x1000 1) ⟨mounted.disk, 0⟩).1.toOption,
        (Fat.readFile mounted.boot ⟨[0x41], 0x20, 3, 1⟩ 1 ⟨mounted.disk, 0⟩).1.toOption))
        = some (some (some ⟨[0x41], 0x20, 3, 1⟩), some [0x68]) := by decide +kernel
  simp only [Option.bind_eq_some_iff, Option.map_eq_some_iff, Prod.mk.injEq, List.all_eq_true,
    Bool.not_eq_true'] at hall hheld
  obtain ⟨found, hfound, opened, hopen, m, hlater, hopened, hunclosed, hread⟩ := hall
  obtain ⟨other, hother, mounted, hdisk, hfind, hfile⟩ := hheld
  obtain rfl := Option.some.inj (hfound.symm.trans hother)
  refine ⟨found, opened, m, parse_ourDisk, consistent_ourDisk, hfound, rfl, hopen,
    Option.bind_eq_some_iff.mpr hopened, hlater, hunclosed, ?_⟩
  rintro ⟨other, entry, contents, hother, hentry, hreads, hstart, -⟩
  obtain rfl := Option.some.inj (hdisk.symm.trans hother)
  have hentry' : (Fat.find mounted.boot (found.bytesAt 0x1000 1) ⟨mounted.disk, 0⟩).1
      = .ok (some entry) := hentry
  rw [hentry'] at hfind
  obtain rfl := Option.some.inj (Option.some.inj hfind)
  rw [hreads 0 1 (le_refl _)] at hfile
  rw [hread, Option.some.inj hfile] at hstart
  exact absurd hstart (by decide)

end Machine

end Harlan.Turns
