import Mathlib.Tactic
import Harlan.Syscall

/-!
What a call sees of memory.

A call is served alike by two machines that differ in their memory, as long as what is read of it
is the same in both.

* `Alike`: two machines that came to differ in no more than what memory holds, with the same bytes
  written.
* `ReadsOnly`: what the bytes outside some ranges are makes no difference.
* `serve_readsOnly`, `recvTurn_readsOnly`: a syscall reads nothing but the memory of its process,
  as far as its ranges say what that is. -/

namespace Harlan.Turns

open Fs

/-- A note without the memory it shows. -/
def Note.blind : Note → Note
  | .switch slot state => .switch slot state
  | .reads ptr len => .reads ptr len
  | .writes ptr len => .writes ptr len
  | .answer who call frame _ => .answer who call frame fun _ => 0

namespace Machine

/-- Two machines, of which one had one memory to begin with and the other another, differ in no
more than what memory holds, and each byte of it is what it was in both or is the same in both. -/
structure Alike (before before' : ℕ → ByteMemory) (m m' : Machine) : Prop where
  rest : m' = { m with memory := m'.memory, trace := m'.trace }
  trace : m'.trace.map Note.blind = m.trace.map Note.blind
  memory : ∀ root addr,
    (m.memory root addr = before root addr ∧ m'.memory root addr = before' root addr)
    ∨ m'.memory root addr = m.memory root addr

/-- What a step does depends on no byte of the active space outside some ranges, and on no other
space. -/
def ReadsOnly (ranges : List PhysRange) (m : Machine) (step : Machine → Machine) : Prop :=
  ∀ memory : ℕ → ByteMemory,
    (∀ range ∈ ranges, ∀ addr, range.Has addr → memory m.cr3 addr = m.memory m.cr3 addr) →
      Alike m.memory memory (step m) (step { m with memory })

section Alike

variable {m m' : Machine} {before before' : ℕ → ByteMemory} {stack : ℕ} {call : SyscallFrame}
  {running : Running} {medium : Medium}

lemma Alike.refl {memory : ℕ → ByteMemory} : Alike m.memory memory m { m with memory } :=
  ⟨rfl, rfl, fun _ _ => .inl ⟨rfl, rfl⟩⟩

lemma Alike.form (h : Alike before before' m m') : ∃ memory trace,
      m' = { m with memory, trace } :=
  ⟨_, _, h.rest⟩

lemma Alike.scheduler (h : Alike before before' m m') :
    m'.scheduler = m.scheduler := by rw [h.rest]

lemma Alike.disk (h : Alike before before' m m') : m'.disk = m.disk := by rw [h.rest]

lemma Alike.console (h : Alike before before' m m') : m'.console = m.console := by rw [h.rest]

/-- Something other than memory changes. -/
lemma Alike.update (h : Alike before before' m m') (f : Machine → Machine)
    (hf : ∀ (m : Machine) memory trace, f { m with memory, trace } = { f m with memory, trace }) :
    Alike before before' (f m) (f m') := by
  have hkept : ∀ m : Machine, (f m).memory = m.memory ∧ (f m).trace = m.trace := by
    intro m
    have hsame : f m = { f m with memory := m.memory, trace := m.trace } := hf m m.memory m.trace
    exact ⟨(congrArg Machine.memory hsame :), (congrArg Machine.trace hsame :)⟩
  refine ⟨?_, ?_, fun root addr => ?_⟩
  · rw [(hkept m').1, (hkept m').2]
    conv_lhs => rw [h.rest]
    exact hf m m'.memory m'.trace
  · rw [(hkept m).2, (hkept m').2]
    exact h.trace
  · rw [(hkept m).1, (hkept m').1]
    exact h.memory root addr

/-- Both note the same, but for the memory shown. -/
lemma Alike.note {what what' : Note} (h : Alike before before' m m')
    (hwhat : what'.blind = what.blind) :
    Alike before before' (m.note what) (m'.note what') := by
  refine ⟨?_, ?_, h.memory⟩
  · obtain ⟨memory, trace, rfl⟩ := h.form
    rfl
  · rw [Machine.note, Machine.note, List.map_append, List.map_append, h.trace, List.map_singleton,
      List.map_singleton, hwhat]

/-- A call comes back from both. -/
lemma Alike.answer (h : Alike before before' m m') (frame : SyscallFrame) :
    Alike before before' (m.answer stack call frame) (m'.answer stack call frame) := by
  have hcontrol := h.update (fun m => { m with control := .ring3 stack }) fun _ _ _ => rfl
  obtain ⟨memory, trace, rfl⟩ := h.form
  exact hcontrol.note rfl

lemma Alike.reply (h : Alike before before' m m') (rax : UInt64) :
    Alike before before' (m.reply stack call rax) (m'.reply stack call rax) := h.answer _

/-- Both write the same bytes. -/
lemma Alike.fill (h : Alike before before' m m') (ptr : ℕ) (bytes : List UInt8) :
    Alike before before' (m.fill ptr bytes) (m'.fill ptr bytes) := by
  obtain ⟨memory, trace, rfl⟩ := h.form
  refine ⟨rfl, ?_, fun root addr => ?_⟩
  · rw [Machine.fill, Machine.fill, List.map_append, List.map_append, h.trace]
  · rw [Machine.fill, Machine.fill]
    dsimp only
    by_cases hroot : root = m.cr3
    · rw [hroot, Function.update_self, Function.update_self, putBytes, putBytes]
      split_ifs
      · exact .inr rfl
      · exact h.memory m.cr3 addr
    · rw [Function.update_of_ne hroot, Function.update_of_ne hroot]
      exact h.memory root addr

/-! ### Giving the CPU away -/

lemma Alike.stop (h : Alike before before' m m') : Alike before before' m.stop m'.stop :=
  h.update Machine.stop fun _ _ _ => rfl

lemma Alike.prepareCpuFor (h : Alike before before' m m') (i : Fin maxProcesses) :
    Alike before before' (m.prepareCpuFor i) (m'.prepareCpuFor i) := by
  refine h.update (fun m => m.prepareCpuFor i) fun m memory trace => ?_
  rw [Machine.prepareCpuFor, Machine.prepareCpuFor]
  cases m.scheduler.slots i <;> rfl

lemma Alike.switchTo (h : Alike before before' m m') (source target : Fin maxProcesses)
    (here : Saved) :
    Alike before before' (m.switchTo source target here) (m'.switchTo source target here) := by
  have hleft := h.update
    (fun m => { m with scheduler := { m.scheduler with switching := true, current := target } })
    fun _ _ _ => rfl
  have hprepared := hleft.prepareCpuFor target
  obtain ⟨memory, trace, rfl⟩ := h.form
  rw [Machine.switchTo, Machine.switchTo]
  dsimp only
  cases m.scheduler.slots target with
  | none => exact hleft.stop
  | some next =>
      have hswitched := hprepared.update (fun m =>
        { m with
          scheduler := m.scheduler.change source fun slot => { slot with kernelRsp := here }
          cr3 := next.process.space.root
          control := .resuming next.kernelRsp }) fun _ _ _ => rfl
      have hkept : ∀ m : Machine, (m.prepareCpuFor target).scheduler = m.scheduler := fun m => by
        obtain ⟨top, htop⟩ := m.prepareCpuFor_eq target
        rw [htop]
      dsimp only at hswitched ⊢
      rw [hkept, hkept] at hswitched ⊢
      cases m.scheduler.slots source with
      | none => exact hprepared.stop
      | some _ => exact hswitched.note rfl

/-- The stack that is left for the kernel's own. -/
lemma Alike.leaveForTheKernel (h : Alike before before' m m') (here : Saved)
    {back : Machine → Machine} (hback : Alike before before' (back m) (back m')) :
    Alike before before' (m.leaveForTheKernel here back) (m'.leaveForTheKernel here back) := by
  have hleft := h.update (fun m =>
    { m with
      scheduler := m.scheduler.change m.scheduler.current fun slot =>
        { slot with kernelRsp := here }
      cr3 := m.kernelCr3
      control := if m.kernelRsp then .returning else .stopped }) fun _ _ _ => rfl
  obtain ⟨memory, trace, rfl⟩ := h.form
  rw [Machine.leaveForTheKernel, Machine.leaveForTheKernel]
  dsimp only
  cases m.scheduler.slots m.scheduler.current with
  | none => exact hback
  | some slot => exact hleft

lemma Alike.switchToNext (h : Alike before before' m m') (switched left : Saved)
    {back : Machine → Machine} (hback : Alike before before' (back m) (back m')) :
    Alike before before' (m.switchToNext switched left back)
      (m'.switchToNext switched left back) := by
  have hleave := h.leaveForTheKernel left hback
  have hswitch := h.switchTo m.scheduler.current
  obtain ⟨memory, trace, rfl⟩ := h.form
  rw [Machine.switchToNext, Machine.switchToNext]
  dsimp only
  split_ifs
  · exact hback
  · cases m.scheduler.nextAfter m.scheduler.current with
    | none => exact hleave
    | some next =>
        dsimp only
        split_ifs
        · exact hback
        · exact hswitch next switched

lemma Alike.endCurrent (h : Alike before before' m m') :
    Alike before before' (m.endCurrent stack) (m'.endCurrent stack) := by
  have hkilled := h.update (fun m => { m with scheduler := m.scheduler.kill m.scheduler.current })
    fun _ _ _ => rfl
  have hleave := hkilled.leaveForTheKernel (.ended stack) hkilled.stop
  have hswitch := hkilled.switchTo m.scheduler.current
  obtain ⟨memory, trace, rfl⟩ := h.form
  rw [Machine.endCurrent, Machine.endCurrent]
  dsimp only
  cases (m.scheduler.kill m.scheduler.current).nextAfter m.scheduler.current with
  | none => exact hleave
  | some next =>
      dsimp only
      split_ifs
      · exact hswitch next _
      · exact hleave

lemma Alike.waitForMessage (h : Alike before before' m m') {back : Machine → Machine}
    (hback : Alike before before' (back m) (back m')) :
    Alike before before' (m.waitForMessage stack call running back)
      (m'.waitForMessage stack call running back) := by
  have hblocked : ∀ scheduler, Alike before before' { m with scheduler } { m' with scheduler } :=
    fun scheduler => h.update (fun m => { m with scheduler }) fun _ _ _ => rfl
  obtain ⟨memory, trace, rfl⟩ := h.form
  rw [Machine.waitForMessage, Machine.waitForMessage]
  dsimp only
  cases m.scheduler.nextAfter m.scheduler.current with
  | none => exact hback
  | some next =>
      dsimp only
      split_ifs
      · rcases m.scheduler.block m.scheduler.current with ⟨_ | _, scheduler⟩
        · exact hback
        · exact (hblocked scheduler).switchTo _ _ _
      · exact hback

end Alike

/-! ### Each call -/

section Calls

variable {m : Machine} {stack : ℕ} {call : SyscallFrame} {running : Running} {medium : Medium}
  {memory : ℕ → ByteMemory}

/-- What lies in memory the process owns is the same in both. -/
lemma bytesAt_same {ptr len limit : ℕ}
    (hsame : ∀ range ∈ running.ranges, ∀ addr, range.Has addr →
      memory m.cr3 addr = m.memory m.cr3 addr)
    (h : ¬((!running.owns ptr len) = true ∨ limit < len)) :
    { m with memory }.bytesAt ptr len = m.bytesAt ptr len := by
  rw [not_or, Bool.not_eq_true, Bool.not_eq_false'] at h
  obtain ⟨-, -, range, hmem, hinside⟩ := ownedBy_iff.mp h.1
  rw [bytesAt, bytesAt, getBytes, getBytes]
  refine List.map_congr_left fun i hi => hsame range hmem (ptr + i) (hinside (ptr + i) ?_ ?_)
  · omega
  · have := List.mem_range.mp hi
    omega

lemma serveLog_readsOnly : ReadsOnly running.ranges m fun m => m.serveLog stack call running := by
  intro memory hsame
  dsimp only
  rw [serveLog, serveLog]
  dsimp only
  by_cases hbad : (!running.owns call.rdi.toNat call.rsi.toNat) = true ∨ maxLog < call.rsi.toNat
  · rw [if_pos hbad, if_pos hbad]
    exact Alike.refl.reply _
  · have hread := (@Alike.refl m memory).note
      (@rfl _ (Note.reads call.rdi.toNat call.rsi.toNat).blind)
    rw [if_neg hbad, if_neg hbad, bytesAt_same hsame hbad]
    split_ifs
    · exact hread.reply _
    · exact hread.reply _

lemma serveYield_readsOnly :
    ReadsOnly running.ranges m fun m => m.serveYield stack call := fun _ _ =>
  Alike.refl.switchToNext _ _ (Alike.refl.reply 0)

lemma serveSend_readsOnly :
    ReadsOnly running.ranges m fun m => m.serveSend stack call running := by
  intro memory hsame
  dsimp only
  rw [serveSend, serveSend]
  dsimp only
  by_cases hbad : (!running.owns call.rsi.toNat call.rdx.toNat) = true ∨ capacity < call.rdx.toNat
  · rw [if_pos hbad, if_pos hbad]
    exact Alike.refl.reply _
  · have hread := (@Alike.refl m memory).note
      (@rfl _ (Note.reads call.rsi.toNat call.rdx.toNat).blind)
    rw [if_neg hbad, if_neg hbad, bytesAt_same hsame hbad]
    rw [hread.scheduler]
    rcases (m.note (.reads call.rsi.toNat call.rdx.toNat)).scheduler.deliver call.rdi.toNat
      running.slot
      (m.bytesAt call.rsi.toNat call.rdx.toNat) with ⟨err | _, scheduler⟩
    · cases err <;> exact hread.reply _
    · exact (hread.update (fun m => { m with scheduler }) fun _ _ _ => rfl).reply _

/-- A round of `recv` reads nothing. -/
lemma recvTurn_readsOnly : ReadsOnly running.ranges m fun m => m.recvTurn stack call running := by
  intro memory hsame
  dsimp only
  rw [recvTurn, recvTurn]
  dsimp only
  rcases m.scheduler.takeMessage call.rsi.toNat with ⟨err | ⟨delivery, bytes⟩, scheduler⟩
  · cases err with
    | nothing => exact Alike.refl.waitForMessage (Alike.refl.reply _)
    | tooLong => exact Alike.refl.reply _
  · exact ((Alike.refl.update (fun m => { m with scheduler }) fun _ _ _ => rfl).fill _ _).answer _

lemma serveRecv_readsOnly :
    ReadsOnly running.ranges m fun m => m.serveRecv stack call running := by
  intro memory hsame
  dsimp only
  rw [serveRecv, serveRecv]
  split_ifs
  · exact Alike.refl.reply _
  · exact recvTurn_readsOnly memory hsame

lemma serveOpen_readsOnly :
    ReadsOnly running.ranges m fun m => m.serveOpen stack call running medium := by
  intro memory hsame
  dsimp only
  rw [serveOpen, serveOpen]
  dsimp only
  by_cases hbad : (!running.owns call.rdi.toNat call.rsi.toNat) = true ∨ maxName < call.rsi.toNat
  · rw [if_pos hbad, if_pos hbad]
    exact Alike.refl.reply _
  · have hread := (@Alike.refl m memory).note
      (@rfl _ (Note.reads call.rdi.toNat call.rsi.toNat).blind)
    rw [if_neg hbad, if_neg hbad, bytesAt_same hsame hbad]
    split_ifs
    · exact hread.reply _
    · rw [hread.disk, hread.scheduler]
      rcases find (m.note (.reads call.rdi.toNat call.rsi.toNat)).disk medium
        (m.bytesAt call.rdi.toNat call.rsi.toNat) with err | entry
      · exact hread.reply _
      · dsimp only
        rcases (m.note (.reads call.rdi.toNat call.rsi.toNat)).scheduler.withRunning
          fun files => files.open' ⟨entry, 0⟩ with ⟨opened, scheduler⟩
        dsimp only
        cases opened.join <;> exact (hread.update (fun m => { m with scheduler }) fun _ _ _ =>
          rfl).reply _

lemma serveRead_readsOnly :
    ReadsOnly running.ranges m fun m => m.serveRead stack call running medium := by
  intro memory hsame
  dsimp only
  rw [serveRead, serveRead]
  dsimp only
  split_ifs
  · exact Alike.refl.reply _
  · cases (m.scheduler.withRunning fun files => (files.at' call.rdi.toNat, files)).1.join with
    | none => exact Alike.refl.reply _
    | some file =>
        dsimp only
        cases readAt m.disk medium file.entry file.position call.rdx.toNat with
        | error err => exact (Alike.refl.fill _ _).reply _
        | ok bytes =>
            exact ((Alike.refl.fill _ _).update (fun m =>
              { m with
                scheduler := (m.scheduler.withRunning fun files =>
                  ((), files.moveTo call.rdi.toNat
                  (min (file.position + bytes.length) (2 ^ 32 - 1)))).2 }) fun _ _ _ => rfl).reply _

lemma serveClose_readsOnly : ReadsOnly running.ranges m fun m => m.serveClose stack call := by
  intro memory hsame
  dsimp only
  rw [serveClose, serveClose]
  dsimp only
  rcases m.scheduler.withRunning fun files =>
    files.close call.rdi.toNat with ⟨_ | _ | _, scheduler⟩ <;>
  · exact (Alike.refl.update (fun m => { m with scheduler }) fun _ _ _ => rfl).reply _

lemma serveWriteFile_readsOnly :
    ReadsOnly running.ranges m fun m => m.serveWriteFile stack call running medium := by
  intro memory hsame
  dsimp only
  rw [serveWriteFile, serveWriteFile]
  dsimp only
  by_cases hname : (!running.owns call.rdi.toNat call.rsi.toNat) = true ∨ maxName < call.rsi.toNat
  · rw [if_pos hname, if_pos hname]
    exact Alike.refl.reply _
  by_cases hdata : (!running.owns call.rdx.toNat call.r10.toNat) = true
    ∨ maxWrite < call.r10.toNat
  · rw [if_neg hname, if_neg hname, if_pos hdata, if_pos hdata]
    exact Alike.refl.reply _
  have hread := ((@Alike.refl m memory).note
    (@rfl _ (Note.reads call.rdi.toNat call.rsi.toNat).blind)).note
    (@rfl _ (Note.reads call.rdx.toNat call.r10.toNat).blind)
  rw [if_neg hname, if_neg hname, if_neg hdata, if_neg hdata, bytesAt_same hsame hname,
    bytesAt_same hsame hdata]
  split_ifs
  · exact hread.reply _
  · rw [hread.disk, hread.scheduler]
    rcases writeFile _ medium _ (m.bytesAt call.rdi.toNat call.rsi.toNat)
      (m.bytesAt call.rdx.toNat call.r10.toNat) with ⟨err | _, disk⟩ <;>
    · exact (hread.update (fun m => { m with disk }) fun _ _ _ => rfl).reply _

lemma serveList_readsOnly :
    ReadsOnly running.ranges m fun m => m.serveList stack call running medium := by
  intro memory hsame
  dsimp only
  rw [serveList, serveList]
  dsimp only
  split_ifs
  · exact Alike.refl.reply _
  · cases entryAt m.disk medium call.rdi.toNat with
    | error err => exact Alike.refl.reply _
    | ok entry => exact (Alike.refl.fill _ _).reply _

lemma serveConsoleWrite_readsOnly :
    ReadsOnly running.ranges m fun m => m.serveConsoleWrite stack call running := by
  intro memory hsame
  dsimp only
  rw [serveConsoleWrite, serveConsoleWrite]
  dsimp only
  by_cases hbad : (!running.owns call.rdi.toNat call.rsi.toNat) = true ∨ maxLog < call.rsi.toNat
  · rw [if_pos hbad, if_pos hbad]
    exact Alike.refl.reply _
  · have hread := (@Alike.refl m memory).note
      (@rfl _ (Note.reads call.rdi.toNat call.rsi.toNat).blind)
    rw [if_neg hbad, if_neg hbad, bytesAt_same hsame hbad]
    split_ifs
    · exact hread.reply _
    · rw [hread.console]
      cases (m.note (.reads call.rdi.toNat call.rsi.toNat)).console with
      | none => exact hread.reply _
      | some console =>
          dsimp only
          generalize console.written ++ m.bytesAt call.rdi.toNat call.rsi.toNat = written
          exact (hread.update (fun m => { m with console := some { console with written } })
            fun _ _ _ => rfl).reply _

lemma serveConsoleRead_readsOnly :
    ReadsOnly running.ranges m fun m => m.serveConsoleRead stack call := by
  intro memory hsame
  dsimp only
  rw [serveConsoleRead, serveConsoleRead]
  dsimp only
  rcases hconsole : m.console with _ | console
  · have hreply := @Alike.reply m _ _ _ stack call (@Alike.refl m memory) (encodeKey none)
    rw [hconsole] at hreply
    exact hreply
  · dsimp only
    exact (Alike.refl.update (fun m =>
      { m with console := some ⟨console.written, console.keys.tail⟩ }) fun _ _ _ => rfl).reply _

/-- **A syscall reads nothing but the memory of its process**: with other bytes anywhere else it
answers, writes and leaves behind the same. -/
theorem serve_readsOnly :
    ReadsOnly running.ranges m fun m => m.serve stack call running medium := by
  intro memory hsame
  dsimp only
  rw [serve, serve]
  cases Call.ofNumber call.rax with
  | none => exact Alike.refl.reply _
  | some kind =>
      cases kind with
      | log => exact serveLog_readsOnly memory hsame
      | exit => exact Alike.refl.endCurrent
      | yield => exact serveYield_readsOnly memory hsame
      | send => exact serveSend_readsOnly memory hsame
      | recv => exact serveRecv_readsOnly memory hsame
      | open' => exact serveOpen_readsOnly memory hsame
      | read => exact serveRead_readsOnly memory hsame
      | close => exact serveClose_readsOnly memory hsame
      | writeFile => exact serveWriteFile_readsOnly memory hsame
      | list => exact serveList_readsOnly memory hsame
      | consoleWrite => exact serveConsoleWrite_readsOnly memory hsame
      | consoleRead => exact serveConsoleRead_readsOnly memory hsame

end Calls

end Machine

end Harlan.Turns
