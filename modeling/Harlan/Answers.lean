import Mathlib.Tactic
import Harlan.Machine

/-!
What a syscall can do to the machine.

* `Quiet`: it comes back, and only what no other process looks at has changed.
* `Sent`, `Took`, `Waited`: a message is put in a mailbox, or taken out of it, or waited for.
* `recvTurn_cases`, `serve_cases`: nothing else happens, but for the end of the caller and a turn
  given away.
-/

namespace Harlan.Turns

/-- A number that says no. -/
def isError (rax : UInt64) : Prop := 2 ^ 63 ≤ rax.toNat

instance (rax : UInt64) : Decidable (isError rax) := Nat.decLe _ _

/-- An access to the memory of a process. -/
def Note.IsAccess : Note → Prop
  | .reads _ _ => True
  | .writes _ _ => True
  | _ => False

/-- The scheduler with other open files for whoever is running. -/
def Scheduler.withFiles (s : Scheduler) (f : OpenFiles → OpenFiles) : Scheduler :=
  s.change s.current fun slot =>
    { slot with process := { slot.process with openFiles := f slot.process.openFiles } }

lemma Scheduler.withFiles_id (s : Scheduler) : s.withFiles id = s :=
  Scheduler.change_id fun _ _ => rfl

/-- What is done over the files of whoever is running changes these only. -/
lemma Scheduler.withRunning_files {α : Type} (s : Scheduler)
    (operation : OpenFiles → α × OpenFiles) :
    (s.withRunning operation).2 = s
      ∨ (s.withRunning operation).2 = s.withFiles fun files => (operation files).2 := by
  rw [withRunning]
  cases s.runningSlot with
  | none => exact .inl rfl
  | some slot => exact .inr rfl

/-- What a call may do to the files of its caller. -/
def SyscallFrame.Files (call : SyscallFrame) (f : OpenFiles → OpenFiles) : Prop :=
  f = id ∨ match Call.ofNumber call.rax with
    | some .open' => ∃ entry, f = fun files => (files.open' ⟨entry, 0⟩).2
    | some .read => ∃ position, f = fun files => files.moveTo call.rdi.toNat position
    | some .close => f = fun files => (files.close call.rdi.toNat).2
    | _ => False

namespace Machine

/-- A call came back with a number: only the files of the caller, memory, the disk and the console
may have changed, and the disk only if a file was written. -/
structure Quiet (stack : ℕ) (call : SyscallFrame) (rax : UInt64) (m m' : Machine) : Prop where
  scheduler : ∃ f, call.Files f ∧ m'.scheduler = m.scheduler.withFiles f
  disk : Call.ofNumber call.rax ≠ some .writeFile → m'.disk = m.disk
  control : m'.control = .ring3 stack
  kernelRsp : m'.kernelRsp = m.kernelRsp
  cr3 : m'.cr3 = m.cr3
  trace : ∃ accesses : List Note, (∀ note ∈ accesses, note.IsAccess)
    ∧ m'.trace = m.trace ++ accesses
        ++ [.answer (m'.scheduler.owner stack) call { call with rax } (m'.memory m'.cr3)]

/-- A message was put in a mailbox. -/
def Sent (stack : ℕ) (call : SyscallFrame) (sender : Fin maxProcesses) (m m' : Machine) : Prop :=
  ∃ (i : Fin maxProcesses) (slot : Slot) (delivery : Delivery) (mailbox : Mailbox),
    call.rdi.toNat = i ∧ call.rdx.toNat ≤ capacity
      ∧ m.scheduler.slots i = some slot ∧ slot.state ≠ .dead
      ∧ slot.mailbox.deliver sender (m.bytesAt call.rsi.toNat call.rdx.toNat)
        = (.ok delivery, mailbox)
      ∧ m' = { m.note (.reads call.rsi.toNat call.rdx.toNat) with
          scheduler := m.scheduler.change i (Scheduler.written mailbox) }.reply stack
            call call.rdx

/-- The message in the caller's mailbox was taken. -/
def Took (stack : ℕ) (call : SyscallFrame) (m m' : Machine) : Prop :=
  ∃ (slot : Slot) (delivery : Delivery) (bytes : List UInt8) (mailbox : Mailbox),
    m.scheduler.slots m.scheduler.current = some slot
      ∧ slot.mailbox.takeInto call.rsi.toNat = (.ok (delivery, bytes), mailbox)
      ∧ m' = ({ m with
          scheduler := m.scheduler.change m.scheduler.current fun slot =>
            { slot with mailbox } }.fill call.rdi.toNat bytes).answer stack call
          { call with rax := UInt64.ofNat delivery.len, rdx := UInt64.ofNat delivery.sender }

/-- The caller waits for a message, and another process has the CPU. -/
def Waited (stack : ℕ) (call : SyscallFrame) (running : Running) (m m' : Machine) : Prop :=
  ∃ (slot : Slot) (next : Fin maxProcesses),
    m.scheduler.slots m.scheduler.current = some slot ∧ slot.mailbox.isEmpty = true
      ∧ slot.state.canRun = true
      ∧ m.scheduler.nextAfter m.scheduler.current = some next ∧ next ≠ m.scheduler.current
      ∧ m' = { m with
          scheduler := m.scheduler.change m.scheduler.current fun slot =>
            { slot with state := .blocked } }.switchTo m.scheduler.current next (.wait stack call running)

variable {m m' : Machine} {stack : ℕ} {call : SyscallFrame} {running : Running}
  {medium : Fs.Medium} {rax : UInt64}

/-! ### Calls that only come back -/

/-- A call that comes back at once, after some accesses. -/
lemma quiet_reply (accesses : List Note) {f : OpenFiles → OpenFiles} (hfiles : call.Files f)
    (hscheduler : m'.scheduler = m.scheduler.withFiles f)
    (hdisk : Call.ofNumber call.rax ≠ some .writeFile → m'.disk = m.disk)
    (hkernel : m'.kernelRsp = m.kernelRsp) (hcr3 : m'.cr3 = m.cr3)
    (haccesses : ∀ note ∈ accesses, note.IsAccess) (htrace : m'.trace = m.trace ++ accesses) :
    Quiet stack call rax m (m'.reply stack call rax) := by
  refine ⟨⟨f, hfiles, hscheduler⟩, hdisk, rfl, hkernel, hcr3, accesses, haccesses, ?_⟩
  rw [reply, answer, htrace]

/-- The same, with nothing else done. -/
lemma quiet_refused : Quiet stack call rax m (m.reply stack call rax) :=
  quiet_reply [] (.inl rfl) m.scheduler.withFiles_id.symm (fun _ => rfl) rfl rfl nofun
    (List.append_nil _).symm

lemma isAccess_one {note : Note} (h : note.IsAccess) : ∀ other ∈ [note], other.IsAccess := by
  intro other hother
  rwa [List.mem_singleton.mp hother]

/-- A call that comes back with the scheduler and the disk as they were, after one access. -/
lemma quiet_after (access : Note) (haccess : access.IsAccess)
    (hscheduler : m'.scheduler = m.scheduler) (hdisk : m'.disk = m.disk)
    (hkernel : m'.kernelRsp = m.kernelRsp) (hcr3 : m'.cr3 = m.cr3)
    (htrace : m'.trace = m.trace ++ [access]) :
    Quiet stack call rax m (m'.reply stack call rax) :=
  quiet_reply [access] (.inl rfl) (hscheduler.trans m.scheduler.withFiles_id.symm)
    (fun _ => hdisk) hkernel
    hcr3 (isAccess_one haccess) htrace

/-- A call that comes back after something was done over the files of its caller. -/
lemma quiet_files {α : Type} {operation : OpenFiles → α × OpenFiles} (accesses : List Note)
    (hfiles : call.Files fun files => (operation files).2)
    (hscheduler : m'.scheduler = (m.scheduler.withRunning operation).2) (hdisk : m'.disk = m.disk)
    (hkernel : m'.kernelRsp = m.kernelRsp) (hcr3 : m'.cr3 = m.cr3)
    (haccesses : ∀ note ∈ accesses, note.IsAccess) (htrace : m'.trace = m.trace ++ accesses) :
    Quiet stack call rax m (m'.reply stack call rax) := by
  rcases m.scheduler.withRunning_files operation with hsame | hchanged
  · exact quiet_reply accesses (.inl rfl)
      (hscheduler.trans (hsame.trans m.scheduler.withFiles_id.symm))
      (fun _ => hdisk) hkernel hcr3 haccesses htrace
  · exact quiet_reply accesses hfiles (hscheduler.trans hchanged)
      (fun _ => hdisk) hkernel hcr3 haccesses
      htrace

lemma serveLog_quiet : ∃ rax, Quiet stack call rax m (m.serveLog stack call running) := by
  rw [serveLog]
  dsimp only
  split_ifs
  · exact ⟨_, quiet_refused⟩
  · exact ⟨_, quiet_after (.reads _ _) trivial rfl rfl rfl rfl rfl⟩
  · exact ⟨_, quiet_after (.reads _ _) trivial rfl rfl rfl rfl rfl⟩

lemma serveOpen_quiet (hcall : Call.ofNumber call.rax = some .open') :
    ∃ rax, Quiet stack call rax m (m.serveOpen stack call running medium) := by
  rw [serveOpen]
  dsimp only
  split_ifs
  · exact ⟨_, quiet_refused⟩
  · exact ⟨_, quiet_after (.reads _ _) trivial rfl rfl rfl rfl rfl⟩
  · split
    · exact ⟨_, quiet_after (.reads _ _) trivial rfl rfl rfl rfl rfl⟩
    next entry hfound =>
      have hfiles : call.Files fun files => (files.open' ⟨entry, 0⟩).2 := by
        rw [SyscallFrame.Files, hcall]
        exact .inr ⟨entry, rfl⟩
      split
      · exact ⟨_, quiet_files [.reads _ _] hfiles rfl rfl rfl rfl (isAccess_one trivial) rfl⟩
      · exact ⟨_, quiet_files [.reads _ _] hfiles rfl rfl rfl rfl (isAccess_one trivial) rfl⟩

lemma serveRead_quiet (hcall : Call.ofNumber call.rax = some .read) :
    ∃ rax, Quiet stack call rax m (m.serveRead stack call running medium) := by
  rw [serveRead]
  split_ifs
  · exact ⟨_, quiet_refused⟩
  · dsimp only
    split
    · exact ⟨_, quiet_refused⟩
    next file hfile =>
      split
      next bytes hbytes =>
        have hfiles : call.Files fun files =>
            files.moveTo call.rdi.toNat (min (file.position + bytes.length) (2 ^ 32 - 1)) := by
          rw [SyscallFrame.Files, hcall]
          exact .inr ⟨_, rfl⟩
        exact ⟨_, @quiet_files m _ _ _ _ Unit (fun files => ((), files.moveTo call.rdi.toNat
          (min (file.position + bytes.length) (2 ^ 32 - 1)))) [.writes _ _] hfiles rfl rfl rfl rfl
          (isAccess_one trivial) rfl⟩
      · exact ⟨_, quiet_after (.writes _ _) trivial rfl rfl rfl rfl rfl⟩

lemma serveClose_quiet (hcall : Call.ofNumber call.rax = some .close) :
    ∃ rax, Quiet stack call rax m (m.serveClose stack call) := by
  have hfiles : call.Files fun files => (files.close call.rdi.toNat).2 := by
    rw [SyscallFrame.Files, hcall]
    exact .inr rfl
  rw [serveClose]
  split
  next h =>
      exact ⟨_, quiet_files [] hfiles (by rw [h]) rfl rfl rfl nofun (List.append_nil _).symm⟩
  next h =>
      exact ⟨_, quiet_files [] hfiles (by rw [h]) rfl rfl rfl nofun (List.append_nil _).symm⟩

lemma serveWriteFile_quiet (hcall : Call.ofNumber call.rax = some .writeFile) :
    ∃ rax, Quiet stack call rax m (m.serveWriteFile stack call running medium) := by
  have haccesses : ∀ note ∈ [Note.reads call.rdi.toNat call.rsi.toNat,
      .reads call.rdx.toNat call.r10.toNat], note.IsAccess := by
    intro note hnote
    rcases List.mem_pair.mp hnote with rfl | rfl <;> trivial
  have htrace : m.trace ++ [Note.reads call.rdi.toNat call.rsi.toNat]
      ++ [Note.reads call.rdx.toNat call.r10.toNat]
        = m.trace ++ [.reads call.rdi.toNat call.rsi.toNat,
          .reads call.rdx.toNat call.r10.toNat] := List.append_assoc _ _ _
  rw [serveWriteFile]
  dsimp only
  split_ifs
  · exact ⟨_, quiet_refused⟩
  · exact ⟨_, quiet_refused⟩
  · exact ⟨_, quiet_reply _ (.inl rfl) m.scheduler.withFiles_id.symm
      (absurd hcall) rfl rfl haccesses htrace⟩
  · split
    · exact ⟨_, quiet_reply _ (.inl rfl) m.scheduler.withFiles_id.symm
        (absurd hcall) rfl rfl haccesses htrace⟩
    · exact ⟨_, quiet_reply _ (.inl rfl) m.scheduler.withFiles_id.symm
        (absurd hcall) rfl rfl haccesses htrace⟩

lemma serveList_quiet :
    ∃ rax, Quiet stack call rax m (m.serveList stack call running medium) := by
  rw [serveList]
  split_ifs
  · exact ⟨_, quiet_refused⟩
  · split
    · exact ⟨_, quiet_refused⟩
    · exact ⟨_, quiet_after (.writes _ _) trivial rfl rfl rfl rfl rfl⟩

lemma serveConsoleWrite_quiet :
    ∃ rax, Quiet stack call rax m (m.serveConsoleWrite stack call running) := by
  rw [serveConsoleWrite]
  dsimp only
  split_ifs
  · exact ⟨_, quiet_refused⟩
  · exact ⟨_, quiet_after (.reads _ _) trivial rfl rfl rfl rfl rfl⟩
  · split
    · exact ⟨_, quiet_after (.reads _ _) trivial rfl rfl rfl rfl rfl⟩
    · exact ⟨_, quiet_after (.reads _ _) trivial rfl rfl rfl rfl rfl⟩

lemma serveConsoleRead_quiet : ∃ rax, Quiet stack call rax m (m.serveConsoleRead stack call) := by
  rw [serveConsoleRead]
  split
  · exact ⟨_, quiet_refused⟩
  · exact ⟨_, quiet_reply [] (.inl rfl) m.scheduler.withFiles_id.symm (fun _ => rfl) rfl rfl nofun
      (List.append_nil _).symm⟩

/-! ### Messages -/

/-- What a message that is sent comes to. -/
lemma serveSend_cases :
    (∃ rax, isError rax ∧ Quiet stack call rax m (m.serveSend stack call running))
      ∨ Sent stack call running.slot m (m.serveSend stack call running) := by
  rw [serveSend]
  split_ifs with hargument
  · exact .inl ⟨_, by decide, quiet_refused⟩
  · rw [not_or, Nat.not_lt] at hargument
    rcases @Scheduler.deliver_cases m.scheduler call.rdi.toNat running.slot
      (m.bytesAt call.rsi.toNat call.rdx.toNat) with ⟨err, herr⟩ | ⟨i, slot, delivery,
        mailbox, hi, hslot, hdead, hdeliver, hok⟩
    · refine .inl ?_
      dsimp only [note]
      rw [herr]
      cases err with
      | noSuchProcess =>
          exact ⟨_, by decide, quiet_after (.reads _ _) trivial rfl rfl rfl rfl rfl⟩
      | busy => exact ⟨_, by decide, quiet_after (.reads _ _) trivial rfl rfl rfl rfl rfl⟩
      | rejected why => exact ⟨_, by decide, quiet_after (.reads _ _) trivial rfl rfl rfl rfl rfl⟩
    · refine .inr ⟨i, slot, delivery, mailbox, hi.symm, hargument.2, hslot, hdead, hdeliver, ?_⟩
      dsimp only [note]
      rw [hok]

lemma waitForMessage_cases
    (hempty : ∀ slot, m.scheduler.slots m.scheduler.current = some slot →
      slot.mailbox.isEmpty = true) :
    m.waitForMessage stack call running (fun m => m.reply stack call rax) = m.reply stack call rax
      ∨ Waited stack call running m
          (m.waitForMessage stack call running fun m => m.reply stack call rax) := by
  rw [waitForMessage]
  split
  next next hnext =>
    split_ifs with hne
    · rcases hblock : m.scheduler.block m.scheduler.current with ⟨_ | _, scheduler⟩
      · exact .inl rfl
      · obtain ⟨slot, state, hslot, hstate, rfl⟩ := Scheduler.moveTo_true hblock
        rw [State.waiting] at hstate
        split_ifs at hstate with hrun
        obtain rfl := Option.some.inj hstate
        exact .inr ⟨slot, next, hslot, hempty slot hslot, hrun, hnext, hne, rfl⟩
    · exact .inl rfl
  · exact .inl rfl

/-- What a round of `recv` comes to. -/
lemma recvTurn_cases :
    (∃ rax, isError rax ∧ Quiet stack call rax m (m.recvTurn stack call running))
      ∨ Took stack call m (m.recvTurn stack call running)
      ∨ Waited stack call running m (m.recvTurn stack call running) := by
  rw [recvTurn]
  rcases @Scheduler.takeMessage_cases m.scheduler call.rsi.toNat with ⟨err, herr, hempty⟩ | ⟨slot,
    delivery, bytes, mailbox, hslot, htake, hok⟩
  · rw [herr]
    cases err with
    | nothing =>
        dsimp only
        rcases @waitForMessage_cases m stack call running errWouldWaitForEver (hempty rfl)
          with hback | hwaited
        · rw [hback]
          exact .inl ⟨_, by decide, quiet_refused⟩
        · exact .inr (.inr hwaited)
    | tooLong len => exact .inl ⟨_, by decide, quiet_refused⟩
  · rw [hok]
    exact .inr (.inl ⟨slot, delivery, bytes, mailbox, hslot, htake, rfl⟩)

/-- **What a syscall can do.** -/
lemma serve_cases :
    (∃ rax, Quiet stack call rax m (m.serve stack call running medium)
        ∧ (Call.ofNumber call.rax = some .send ∨ Call.ofNumber call.rax = some .recv →
          isError rax))
      ∨ (Call.ofNumber call.rax = some .send
          ∧ Sent stack call running.slot m (m.serve stack call running medium))
      ∨ (Call.ofNumber call.rax = some .recv
          ∧ (Took stack call m (m.serve stack call running medium)
            ∨ Waited stack call running m (m.serve stack call running medium)))
      ∨ m.serve stack call running medium = m.endCurrent stack
      ∨ (Call.ofNumber call.rax = some .yield
          ∧ m.serve stack call running medium = m.serveYield stack call) := by
  rw [serve]
  cases hcall : Call.ofNumber call.rax with
  | none => exact .inl ⟨_, quiet_refused, by simp⟩
  | some kind =>
      cases kind with
      | log =>
          obtain ⟨rax, hquiet⟩ := @serveLog_quiet m stack call running
          exact .inl ⟨rax, hquiet, by simp⟩
      | exit => exact .inr (.inr (.inr (.inl rfl)))
      | yield => exact .inr (.inr (.inr (.inr ⟨rfl, rfl⟩)))
      | send =>
          rcases @serveSend_cases m stack call running with ⟨rax, herror, hquiet⟩ | hsent
          · exact .inl ⟨rax, hquiet, fun _ => herror⟩
          · exact .inr (.inl ⟨rfl, hsent⟩)
      -- a range that is not owned is refused; else there is a message, or nobody to send one, or
      -- waiting
      | recv =>
          dsimp only
          rw [serveRecv]
          split_ifs with howns
          · exact .inl ⟨_, quiet_refused, fun _ => by decide⟩
          · rcases @recvTurn_cases m stack call running with ⟨rax, herror, hquiet⟩ | hrest
            · exact .inl ⟨rax, hquiet, fun _ => herror⟩
            · exact .inr (.inr (.inl ⟨rfl, hrest⟩))
      | open' =>
          obtain ⟨rax, hquiet⟩ := @serveOpen_quiet m stack call running medium hcall
          exact .inl ⟨rax, hquiet, by simp⟩
      | read =>
          obtain ⟨rax, hquiet⟩ := @serveRead_quiet m stack call running medium hcall
          exact .inl ⟨rax, hquiet, by simp⟩
      | close =>
          obtain ⟨rax, hquiet⟩ := @serveClose_quiet m stack call hcall
          exact .inl ⟨rax, hquiet, by simp⟩
      | writeFile =>
          obtain ⟨rax, hquiet⟩ := @serveWriteFile_quiet m stack call running medium hcall
          exact .inl ⟨rax, hquiet, by simp⟩
      | list =>
          obtain ⟨rax, hquiet⟩ := @serveList_quiet m stack call running medium
          exact .inl ⟨rax, hquiet, by simp⟩
      | consoleWrite =>
          obtain ⟨rax, hquiet⟩ := @serveConsoleWrite_quiet m stack call running
          exact .inl ⟨rax, hquiet, by simp⟩
      | consoleRead =>
          obtain ⟨rax, hquiet⟩ := @serveConsoleRead_quiet m stack call
          exact .inl ⟨rax, hquiet, by simp⟩

end Machine

end Harlan.Turns
