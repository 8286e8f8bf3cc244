import Mathlib.Tactic
import Harlan.Sight
import Harlan.SlotRuns

/-!
The memory a syscall may touch.

* `Piece`, `SyscallFrame.pieces`: the pointers and lengths a call names, and whether the kernel
  fills what is there.
* `Accesses`: whatever was read lies inside the memory of the process, and whatever was written
  inside the memory it may write.
* `Contract`: a call that names memory it may not use is refused and nothing else happens, and
  what is touched may be touched.
* `KeepsContract`: and what is read is no more than that, so that other bytes elsewhere make no
  difference.
* `FillsUnwritable`: the one call that is served and should not be.
* `serve_contract_iff`: the contract is kept by every other call, and by no such one.
-/

namespace Harlan.Turns

open Fs

/-! ### What a call names -/

/-- Some bytes of a process, inside one of its ranges. -/
def Inside (ranges : List PhysRange) (ptr len : ℕ) : Prop :=
  ∃ range ∈ ranges, ∀ addr, ptr ≤ addr → addr < ptr + len → range.Has addr

/-- Memory a call names. -/
structure Piece where
  ptr : ℕ
  len : ℕ
  /-- Whether the kernel is to fill it. -/
  filled : Bool

/-- Whether a process may have it used: there is something, and it lies inside one of its ranges,
one it may write where the kernel is to fill it. -/
def Piece.Allowed (running : Running) (piece : Piece) : Prop :=
  0 < piece.len ∧ Inside (if piece.filled then running.writable else running.ranges)
    piece.ptr piece.len

/-- The memory a call names. -/
def SyscallFrame.pieces (call : SyscallFrame) : List Piece :=
  match Call.ofNumber call.rax with
  | some .log | some .open' | some .consoleWrite => [⟨call.rdi.toNat, call.rsi.toNat, false⟩]
  | some .send => [⟨call.rsi.toNat, call.rdx.toNat, false⟩]
  | some .recv => [⟨call.rdi.toNat, call.rsi.toNat, true⟩]
  | some .read | some .list => [⟨call.rsi.toNat, call.rdx.toNat, true⟩]
  | some .writeFile =>
      [⟨call.rdi.toNat, call.rsi.toNat, false⟩, ⟨call.rdx.toNat, call.r10.toNat, false⟩]
  | some .exit | some .yield | some .close | some .consoleRead | none => []

/-- A range ends where an address can still be. -/
lemma endAddr_lt (range : PhysRange) : range.endAddr < 2 ^ 64 := by
  rw [PhysRange.endAddr]
  split_ifs with h
  · exact h
  · decide

/-- The check of the code is the question it stands for. -/
lemma ownedBy_eq_true {ranges : List PhysRange} {ptr len : ℕ} :
    ownedBy ranges ptr len = true ↔ 0 < len ∧ Inside ranges ptr len := by
  rw [ownedBy_iff]
  refine ⟨fun h => ⟨h.1, h.2.2⟩, fun ⟨hlen, range, hmem, hinside⟩ =>
    ⟨hlen, ?_, range, hmem, hinside⟩⟩
  have hlast := (hinside (ptr + len - 1) (by omega) (by omega)).2
  have hend := endAddr_lt range
  omega

lemma Inside.shorter {ranges : List PhysRange} {ptr len len' : ℕ} (h : Inside ranges ptr len)
    (hlen : len' ≤ len) : Inside ranges ptr len' := by
  obtain ⟨range, hmem, hinside⟩ := h
  exact ⟨range, hmem, fun addr hlow hhigh => hinside addr hlow (by omega)⟩

/-- An access lies inside the memory of the process. -/
def Note.Within (running : Running) : Note → Prop
  | .reads ptr len => Inside running.ranges ptr len
  | .writes ptr len => Inside running.writable ptr len
  | _ => True

namespace Machine

variable {m m' m'' : Machine} {stack : ℕ} {call : SyscallFrame} {running : Running}
  {medium : Medium} {rax : UInt64}

/-! ### What is touched -/

/-- Whatever was read lies inside the memory of the process, and whatever was written, or has
changed, inside the memory it may write. -/
structure Accesses (running : Running) (m m' : Machine) : Prop where
  trace : ∃ notes, m'.trace = m.trace ++ notes ∧ ∀ note ∈ notes, note.Within running
  memory : ∀ root addr, m'.memory root addr ≠ m.memory root addr →
    root = m.cr3 ∧ ∃ range ∈ running.writable, range.Has addr

lemma Accesses.refl : Accesses running m m :=
  ⟨⟨[], (List.append_nil _).symm, nofun⟩, fun _ _ hne => absurd rfl hne⟩

/-- Something happened that touched nothing. -/
lemma Accesses.silent (h : Accesses running m m') (hmemory : m''.memory = m'.memory)
    (htrace : m''.trace = m'.trace) : Accesses running m m'' := by
  refine ⟨htrace ▸ h.trace, fun root addr hne => h.memory root addr ?_⟩
  rwa [hmemory] at hne

/-- Something was noted that is within the memory of the process. -/
lemma Accesses.noting {note : Note} (h : Accesses running m m') (hmemory : m''.memory = m'.memory)
    (htrace : m''.trace = m'.trace ++ [note]) (hnote : note.Within running) :
    Accesses running m m'' := by
  obtain ⟨notes, hnotes, hwithin⟩ := h.trace
  refine ⟨⟨notes ++ [note], ?_, fun other hother => ?_⟩,
    fun root addr hne => h.memory root addr ?_⟩
  · rw [htrace, hnotes, List.append_assoc]
  · rcases List.mem_append.mp hother with hmem | hmem
    · exact hwithin other hmem
    · rwa [List.mem_singleton.mp hmem]
  · rwa [hmemory] at hne

lemma Accesses.reads {ptr len : ℕ} (h : Accesses running m m')
    (hinside : Inside running.ranges ptr len) :
    Accesses running m (m'.note (.reads ptr len)) := h.noting rfl rfl hinside

/-- A call comes back. -/
lemma Accesses.answer {frame : SyscallFrame} (h : Accesses running m m')
    (hmemory : m''.memory = m'.memory) (htrace : m''.trace = m'.trace) :
    Accesses running m (m''.answer stack call frame) :=
  h.noting hmemory (congrArg (· ++ _) htrace) trivial

/-- A call comes back at once. -/
lemma accesses_reply : Accesses running m (m.reply stack call rax) := Accesses.refl.answer rfl rfl

/-- A buffer is filled. -/
lemma Accesses.fill {ptr : ℕ} {bytes : List UInt8} (h : Accesses running m m')
    (hcr3 : m'.cr3 = m.cr3) (hinside : Inside running.writable ptr bytes.length) :
    Accesses running m (m'.fill ptr bytes) := by
  obtain ⟨notes, hnotes, hwithin⟩ := h.trace
  refine ⟨⟨notes ++ [.writes ptr bytes.length], ?_, fun other hother => ?_⟩,
    fun root addr hne => ?_⟩
  · rw [Machine.fill, hnotes, List.append_assoc]
  · rcases List.mem_append.mp hother with hmem | hmem
    · exact hwithin other hmem
    · rw [List.mem_singleton.mp hmem]
      exact hinside
  · -- a byte that has changed had changed before, or is one that was just written
    by_cases hsame : (m'.fill ptr bytes).memory root addr = m'.memory root addr
    · exact h.memory root addr fun heq => hne (hsame.trans heq)
    · rw [Machine.fill] at hsame
      dsimp only at hsame
      by_cases hroot : root = m'.cr3
      · rw [hroot, Function.update_self] at hsame
        obtain ⟨range, hmem, hhas⟩ := hinside
        refine ⟨hroot.trans hcr3, range, hmem, ?_⟩
        by_contra hout
        refine hsame (putBytes_of_outside ?_)
        by_contra hin
        exact hout (hhas addr (by omega) (by omega))
      · rw [Function.update_of_ne hroot] at hsame
        exact absurd rfl hsame

/-- Giving the CPU away touches nothing. -/
lemma OnlyIn.accesses {c : Fin maxProcesses} (h : OnlyIn c m m') : Accesses running m m' := by
  obtain ⟨notes, htrace, hplain⟩ := h.trace
  refine ⟨⟨notes, htrace, fun note hnote => ?_⟩,
    fun root addr hne => absurd (by rw [h.memory]) hne⟩
  have hnote := hplain note hnote
  cases note with
  | answer => trivial
  | switch => trivial
  | reads => exact hnote.elim
  | writes => exact hnote.elim

/-! ### Each call -/

lemma owns_inside {ptr len limit : ℕ} (h : ¬((!running.owns ptr len) = true ∨ limit < len)) :
    Inside running.ranges ptr len := by
  rw [not_or, Bool.not_eq_true, Bool.not_eq_false'] at h
  exact (ownedBy_eq_true.mp h.1).2

lemma ownsWritable_inside {ptr len : ℕ} (h : running.ownsWritable ptr len = true) :
    Inside running.writable ptr len := (ownedBy_eq_true.mp h).2

lemma serveLog_accesses : Accesses running m (m.serveLog stack call running) := by
  rw [serveLog]
  dsimp only
  split_ifs with hbad
  · exact accesses_reply
  · exact (Accesses.refl.reads (owns_inside hbad)).answer rfl rfl
  · exact (Accesses.refl.reads (owns_inside hbad)).answer rfl rfl

lemma serveSend_accesses : Accesses running m (m.serveSend stack call running) := by
  rw [serveSend]
  dsimp only
  split_ifs with hbad
  · exact accesses_reply
  · have hread := @Accesses.reads m m running _ _ Accesses.refl (owns_inside hbad)
    split
    · exact hread.answer rfl rfl
    · exact hread.answer rfl rfl
    · exact hread.answer rfl rfl
    · exact hread.answer rfl rfl

/-- A round of `recv` with a buffer the process may write. -/
lemma recvTurn_accesses (h : Inside running.writable call.rdi.toNat call.rsi.toNat) :
    Accesses running m (m.recvTurn stack call running) := by
  rw [recvTurn]
  rcases @Scheduler.takeMessage_cases m.scheduler call.rsi.toNat with ⟨err, herr, hempty⟩ | ⟨slot,
    delivery, bytes, mailbox, -, htake, hok⟩
  · rw [herr]
    cases err with
    | nothing =>
        dsimp only
        rcases @waitForMessage_cases m stack call running errWouldWaitForEver (hempty rfl)
          with hback | hwaited
        · rw [hback]
          exact accesses_reply
        · exact hwaited.onlyIn.accesses
    | tooLong len => exact accesses_reply
  · rw [hok]
    obtain ⟨-, -, hlength, -, hroom, -⟩ := Mailbox.takeInto_ok htake
    dsimp only
    refine Accesses.answer
      (Accesses.fill (Accesses.refl.silent rfl rfl) rfl (h.shorter ?_)) rfl rfl
    omega

lemma serveRead_accesses : Accesses running m (m.serveRead stack call running medium) := by
  rw [serveRead]
  dsimp only
  split_ifs with hbad
  · exact accesses_reply
  · rw [not_or, Bool.not_eq_true, Bool.not_eq_false'] at hbad
    have hinside := ownsWritable_inside hbad.1
    split
    · exact accesses_reply
    · split
      next bytes hbytes =>
        exact (Accesses.refl.fill rfl (hinside.shorter (readAt_length hbytes))).answer rfl rfl
      · refine (Accesses.refl.fill rfl (hinside.shorter ?_)).answer rfl rfl
        exact List.length_take_le _ _

lemma serveClose_accesses : Accesses running m (m.serveClose stack call) := by
  rw [serveClose]
  split
  · exact Accesses.refl.answer rfl rfl
  · exact Accesses.refl.answer rfl rfl

lemma serveWriteFile_accesses :
    Accesses running m (m.serveWriteFile stack call running medium) := by
  rw [serveWriteFile]
  dsimp only
  split_ifs with hname hdata
  · exact accesses_reply
  · exact accesses_reply
  · exact ((Accesses.refl.reads (owns_inside hname)).reads (owns_inside hdata)).answer rfl rfl
  · have hread := (@Accesses.reads m m running _ _ Accesses.refl (owns_inside hname)).reads
      (owns_inside hdata)
    split
    · exact hread.answer rfl rfl
    · exact hread.answer rfl rfl

lemma length_encodeEntry (entry : Fat.DirectoryEntry) :
    (encodeEntry entry).length = entryBytes := by
  have hname : (entry.nameText.take 12).length ≤ 12 := List.length_take_le _ _
  rw [encodeEntry]
  simp only [List.length_append, List.length_replicate, List.length_cons, List.length_nil,
    length_leBytes, entryBytes]
  omega

lemma serveList_accesses : Accesses running m (m.serveList stack call running medium) := by
  rw [serveList]
  split_ifs with hbad
  · exact accesses_reply
  · rw [not_or, Bool.not_eq_true, Bool.not_eq_false', Nat.not_lt] at hbad
    split
    · exact accesses_reply
    · refine (Accesses.refl.fill rfl ((ownsWritable_inside hbad.1).shorter ?_)).answer rfl rfl
      rw [length_encodeEntry]
      exact hbad.2

lemma serveConsoleWrite_accesses :
    Accesses running m (m.serveConsoleWrite stack call running) := by
  rw [serveConsoleWrite]
  dsimp only
  split_ifs with hbad
  · exact accesses_reply
  · exact (Accesses.refl.reads (owns_inside hbad)).answer rfl rfl
  · have hread := @Accesses.reads m m running _ _ Accesses.refl (owns_inside hbad)
    split
    · exact hread.answer rfl rfl
    · exact hread.answer rfl rfl

lemma serveConsoleRead_accesses : Accesses running m (m.serveConsoleRead stack call) := by
  rw [serveConsoleRead]
  split
  · exact accesses_reply
  · exact Accesses.refl.answer rfl rfl

lemma serveOpen_accesses : Accesses running m (m.serveOpen stack call running medium) := by
  rw [serveOpen]
  dsimp only
  split_ifs with hbad
  · exact accesses_reply
  · exact (Accesses.refl.reads (owns_inside hbad)).answer rfl rfl
  · have hread := @Accesses.reads m m running _ _ Accesses.refl (owns_inside hbad)
    split
    · exact hread.answer rfl rfl
    · split
      · exact hread.answer rfl rfl
      · exact hread.answer rfl rfl

/-! ### The contract -/

/-- A call is served as the memory of its process allows: what is touched may be touched, and a
call that names memory it may not use is refused, and nothing else happens. -/
structure Contract (stack : ℕ) (call : SyscallFrame) (running : Running)
    (m m' : Machine) : Prop where
  touches : Accesses running m m'
  refuses : (∃ piece ∈ call.pieces, ¬piece.Allowed running) →
    m' = m.reply stack call errBadArgument

/-- The contract of a whole call: also of each round a receiver goes on with after it waited. What
is done depends on no byte outside the ranges of the process. -/
structure KeepsContract (m : Machine) (stack : ℕ) (call : SyscallFrame) (running : Running)
    (medium : Medium) : Prop where
  first : Contract stack call running m (m.serve stack call running medium)
  reads : ReadsOnly running.ranges m fun m => m.serve stack call running medium
  again : Call.ofNumber call.rax = some .recv →
    Waited stack call running m (m.serve stack call running medium) →
      ∀ later : Machine, Accesses running later (later.recvTurn stack call running)
        ∧ ReadsOnly running.ranges later fun m => m.recvTurn stack call running

/-- A message waits for whoever is running that is longer than the buffer of a `recv`. -/
def TooLongWaits (m : Machine) (call : SyscallFrame) : Prop :=
  ∃ slot delivery, m.scheduler.slots m.scheduler.current = some slot
    ∧ slot.mailbox.waiting = some delivery ∧ call.rsi.toNat < delivery.len

/-- A `recv` names a buffer that its process owns and may not write, and no message waits that is
too long for it. -/
def FillsUnwritable (m : Machine) (call : SyscallFrame) (running : Running) : Prop :=
  Call.ofNumber call.rax = some .recv ∧ running.owns call.rdi.toNat call.rsi.toNat = true
    ∧ running.ownsWritable call.rdi.toNat call.rsi.toNat = false ∧ ¬m.TooLongWaits call

lemma owns_of_not_allowed {ptr len : ℕ} (h : ¬Piece.Allowed running ⟨ptr, len, false⟩) :
    running.owns ptr len = false :=
  Bool.eq_false_iff.mpr fun howns => h (ownedBy_eq_true.mp howns)

lemma ownsWritable_of_not_allowed {ptr len : ℕ} (h : ¬Piece.Allowed running ⟨ptr, len, true⟩) :
    running.ownsWritable ptr len = false :=
  Bool.eq_false_iff.mpr fun howns => h (ownedBy_eq_true.mp howns)

/-- A `recv` a message is too long for. -/
lemma recvTurn_tooLong (h : m.TooLongWaits call) :
    m.recvTurn stack call running = m.reply stack call errBadArgument := by
  obtain ⟨len, hlong⟩ := Scheduler.takeMessage_tooLong.mpr h
  rw [recvTurn, hlong]

/-- Everything but a `recv` into memory that may not be written is refused where it should be. -/
lemma serve_refuses (h : ∃ piece ∈ call.pieces, ¬piece.Allowed running)
    (hfills : ¬m.FillsUnwritable call running) :
    m.serve stack call running medium = m.reply stack call errBadArgument := by
  rw [SyscallFrame.pieces] at h
  rw [serve]
  cases hcall : Call.ofNumber call.rax with
  | none => simp [hcall] at h
  | some kind =>
      cases kind with
      | exit => simp [hcall] at h
      | yield => simp [hcall] at h
      | close => simp [hcall] at h
      | consoleRead => simp [hcall] at h
      | log =>
          simp only [hcall, List.mem_singleton, exists_eq_left] at h
          exact if_pos (.inl (by rw [owns_of_not_allowed h]; rfl))
      | send =>
          simp only [hcall, List.mem_singleton, exists_eq_left] at h
          exact if_pos (.inl (by rw [owns_of_not_allowed h]; rfl))
      | open' =>
          simp only [hcall, List.mem_singleton, exists_eq_left] at h
          exact if_pos (.inl (by rw [owns_of_not_allowed h]; rfl))
      | consoleWrite =>
          simp only [hcall, List.mem_singleton, exists_eq_left] at h
          exact if_pos (.inl (by rw [owns_of_not_allowed h]; rfl))
      | read =>
          simp only [hcall, List.mem_singleton, exists_eq_left] at h
          exact if_pos (.inl (by rw [ownsWritable_of_not_allowed h]; rfl))
      | list =>
          simp only [hcall, List.mem_singleton, exists_eq_left] at h
          exact if_pos (.inl (by rw [ownsWritable_of_not_allowed h]; rfl))
      -- the name and the contents are checked by one condition
      | writeFile =>
          simp only [hcall, List.mem_cons, List.not_mem_nil, or_false, exists_eq_or_imp,
            exists_eq_left] at h
          dsimp only
          rw [serveWriteFile]
          rcases h with hname | hdata
          · exact if_pos (.inl (by rw [owns_of_not_allowed hname]; rfl))
          · dsimp only
            split_ifs with hbad hbad'
            · rfl
            · rfl
            · exact absurd (.inl (by rw [owns_of_not_allowed hdata]; rfl)) hbad'
            · exact absurd (.inl (by rw [owns_of_not_allowed hdata]; rfl)) hbad'
      | recv =>
          simp only [hcall, List.mem_singleton, exists_eq_left] at h
          dsimp only
          rw [serveRecv]
          split_ifs with howns
          · rfl
          · rw [Bool.not_eq_true, Bool.not_eq_false'] at howns
            -- the range is owned and not writable: only a message too long for it is refused
            refine recvTurn_tooLong (by_contra fun hshort => ?_)
            exact hfills ⟨hcall, howns, ownsWritable_of_not_allowed h, hshort⟩

/-- Whoever waits has left its stack. -/
lemma Waited.control_ne (h : Waited stack call running m m') (stack' : ℕ) :
    m'.control ≠ .ring3 stack' := by
  obtain ⟨slot, next, -, -, -, -, -, rfl⟩ := h
  rw [switchTo]
  dsimp only
  split
  · intro hcontrol
    cases hcontrol
  · split
    · intro hcontrol
      cases hcontrol
    · intro hcontrol
      cases hcontrol

/-- A `recv` that is not refused comes to something else than a refusal, unless a message is too
long for it. -/
lemma recvTurn_ne (h : ¬m.TooLongWaits call) :
    m.recvTurn stack call running ≠ m.reply stack call errBadArgument := by
  rw [recvTurn]
  rcases @Scheduler.takeMessage_cases m.scheduler call.rsi.toNat with ⟨err, herr, hempty⟩ | ⟨slot,
    delivery, bytes, mailbox, hslot, htake, hok⟩
  · rw [herr]
    cases err with
    | nothing =>
        intro heq
        rcases @waitForMessage_cases m stack call running errWouldWaitForEver (hempty rfl)
          with hback | hwaited
        · have htrace := congrArg Machine.trace (hback.symm.trans heq)
          obtain ⟨hanswer, -⟩ := List.cons.inj (List.append_cancel_left htrace)
          obtain ⟨-, -, hframe, -⟩ := Note.answer.inj hanswer
          exact absurd (SyscallFrame.mk.inj hframe).1 (by decide)
        · exact hwaited.control_ne stack (congrArg Machine.control heq)
    | tooLong len => exact absurd (Scheduler.takeMessage_tooLong.mp ⟨len, herr⟩) h
  · rw [hok]
    intro heq
    have htrace := congrArg (fun m => m.trace.length) heq
    simp only [answer, fill, reply, List.length_append, List.length_singleton] at htrace
    omega

lemma serve_accesses (h : ¬m.FillsUnwritable call running) :
    Accesses running m (m.serve stack call running medium) := by
  rw [serve]
  cases hcall : Call.ofNumber call.rax with
  | none => exact accesses_reply
  | some kind =>
      cases kind with
      | log => exact serveLog_accesses
      | exit => exact endCurrent_onlyIn.accesses
      | yield => exact (serveYield_onlyIn hcall).accesses
      | send => exact serveSend_accesses
      | recv =>
          dsimp only
          rw [serveRecv]
          split_ifs with howns
          · exact accesses_reply
          · rw [Bool.not_eq_true, Bool.not_eq_false'] at howns
            by_cases hwritable : running.ownsWritable call.rdi.toNat call.rsi.toNat = true
            · exact recvTurn_accesses (ownsWritable_inside hwritable)
            · have hlong : m.TooLongWaits call := by_contra fun hshort =>
                h ⟨hcall, howns, Bool.eq_false_iff.mpr hwritable, hshort⟩
              rw [recvTurn_tooLong hlong]
              exact accesses_reply
      | open' => exact serveOpen_accesses
      | read => exact serveRead_accesses
      | close => exact serveClose_accesses
      | writeFile => exact serveWriteFile_accesses
      | list => exact serveList_accesses
      | consoleWrite => exact serveConsoleWrite_accesses
      | consoleRead => exact serveConsoleRead_accesses

/-- A `recv` into memory that may not be written is not refused. -/
lemma FillsUnwritable.not_kept (h : m.FillsUnwritable call running) :
    ¬m.KeepsContract stack call running medium := by
  obtain ⟨hcall, howns, hwritable, hshort⟩ := h
  intro hkept
  have hpiece : ∃ piece ∈ call.pieces, ¬piece.Allowed running := by
    rw [SyscallFrame.pieces, hcall]
    refine ⟨_, List.mem_singleton_self _, fun hallowed => ?_⟩
    have howned : running.ownsWritable call.rdi.toNat call.rsi.toNat = true :=
      ownedBy_eq_true.mpr hallowed
    exact Bool.false_ne_true (hwritable.symm.trans howned)
  have hrefused := hkept.first.refuses hpiece
  rw [serve, hcall] at hrefused
  dsimp only at hrefused
  rw [serveRecv, howns, if_neg (by decide)] at hrefused
  exact recvTurn_ne hshort hrefused

/-- **The memory a syscall may touch.** A call reads memory of its process only inside one of its
ranges, so that other bytes elsewhere make no difference to it, and writes only inside one it may
write, and it is refused, with nothing changed, whenever it names memory that is neither, if and
only if it is not a `recv` into a buffer its process owns and may not write (with no message
waiting that is too long for it). -/
theorem serve_contract_iff (m : Machine) (stack : ℕ) (call : SyscallFrame) (running : Running)
    (medium : Medium) : m.KeepsContract stack call running medium
      ↔ ¬m.FillsUnwritable call running := by
  refine ⟨fun hkept hfills => hfills.not_kept hkept,
    fun hfills => ⟨⟨serve_accesses hfills, fun h =>
    serve_refuses h hfills⟩, serve_readsOnly,
      fun hcall hwaited later => ⟨?_, recvTurn_readsOnly⟩⟩⟩
  by_cases hpiece : ∃ piece ∈ call.pieces, ¬piece.Allowed running
  · rw [serve_refuses hpiece hfills] at hwaited
    exact absurd rfl (hwaited.control_ne stack)
  · rw [SyscallFrame.pieces, hcall] at hpiece
    push Not at hpiece
    exact recvTurn_accesses (hpiece _ (List.mem_singleton_self _)).2

/-- Two processes, the second of which writes `h` to the first, which then has its turn. -/
def unreadRun : List Event :=
  [.add (demo 1 0x10000), .add (demo 2 0x20000), .runUntilEmpty 0, .handOver, .resume,
    .syscall ⟨2, 0, 0, 0, 0⟩ ⟨0, false, []⟩, .resume, .compute fun _ => 0x68,
    .syscall ⟨3, 0, 0x2000, 1, 0⟩ ⟨0, false, []⟩,
    .syscall ⟨2, 0, 0, 0, 0⟩ ⟨0, false, []⟩, .resume]

/-- The first takes its message into the page of its code, which it may only read. -/
theorem unreadRun_breaks_contract : ∃ m, (boot (fun _ _ => 0) none none 0).run unreadRun = some m
    ∧ m.control = .ring3 0x10000
    ∧ m.scheduler.running = some ⟨0, (demo 1 0x10000).owned, (demo 1 0x10000).writable⟩
    ∧ (m.serve 0x10000 ⟨4, 0x1000, 64, 0, 0⟩
      ⟨0, (demo 1 0x10000).owned, (demo 1 0x10000).writable⟩
        ⟨0, false, []⟩).memory 1 0x1000 = 0x68
    ∧ ¬m.KeepsContract 0x10000 ⟨4, 0x1000, 64, 0, 0⟩
        ⟨0, (demo 1 0x10000).owned, (demo 1 0x10000).writable⟩ ⟨0, false, []⟩ := by
  have hsome : ((boot (fun _ _ => 0) none none 0).run unreadRun).isSome = true := rfl
  refine ⟨_, (Option.some_get hsome).symm, rfl, rfl, rfl,
    FillsUnwritable.not_kept ⟨rfl, rfl, rfl, fun hlong => ?_⟩⟩
  obtain ⟨len, htooLong⟩ := Scheduler.takeMessage_tooLong.mpr hlong
  have htaken : ((((boot (fun _ _ => 0) none none 0).run unreadRun).get
      hsome).scheduler.takeMessage 64).1.toBool
      = true := rfl
  rw [show (⟨4, 0x1000, 64, 0, 0⟩ : SyscallFrame).rsi.toNat = 64 from rfl] at htooLong
  rw [htooLong] at htaken
  cases htaken

end Machine

end Harlan.Turns
