import Mathlib.Tactic
import Harlan.SlotRuns

/-!
Messages between processes, over whole runs: what the processes see of `send` and `recv` is what
the mailboxes hold.

* `sends`, `receives`: the messages sent to a slot and taken in it, as the answers of the calls
  tell them, the oldest first.
* `waiting`: what is in the mailbox of a slot.
* `Balanced`, `step_balanced`: what was sent is what was taken and then what waits.
* `messages_kept`: so it is in every state of every run, and a call that is answered with an error
  moves nothing.
-/

namespace Harlan.Turns

open Fs

/-! ### What the answers say -/

/-- The message an answer says was sent to a slot, with the slot of its sender. -/
def Note.sentTo (i : Fin maxProcesses) : Note → Option (ℕ × List UInt8)
  | .answer (some who) call frame memory =>
      if Call.ofNumber call.rax = some .send ∧ ¬isError frame.rax ∧ call.rdi.toNat = i then
        some (who, getBytes memory call.rsi.toNat call.rdx.toNat)
      else none
  | _ => none

/-- The message an answer hands to the process in a slot, with the origin it reports. -/
def Note.takenBy (i : Fin maxProcesses) : Note → Option (ℕ × List UInt8)
  | .answer (some who) call frame memory =>
      if Call.ofNumber call.rax = some .recv ∧ ¬isError frame.rax ∧ who = i then
        some (frame.rdx.toNat, getBytes memory call.rdi.toNat frame.rax.toNat)
      else none
  | _ => none

/-- The messages sent to a slot, by the sends that succeeded. -/
def sends (i : Fin maxProcesses) (trace : List Note) : List (ℕ × List UInt8) :=
  trace.filterMap (Note.sentTo i)

/-- The messages taken by the process in a slot. -/
def receives (i : Fin maxProcesses) (trace : List Note) : List (ℕ × List UInt8) :=
  trace.filterMap (Note.takenBy i)

lemma sends_append (i : Fin maxProcesses) (trace notes : List Note) :
    sends i (trace ++ notes) = sends i trace ++ sends i notes := List.filterMap_append

lemma receives_append (i : Fin maxProcesses) (trace notes : List Note) :
    receives i (trace ++ notes) = receives i trace ++ receives i notes := List.filterMap_append

/-- An answer that moved no message tells of none. -/
lemma Note.not_carries {note : Note} (h : ¬note.Carries) (i : Fin maxProcesses) :
    note.sentTo i = none ∧ note.takenBy i = none := by
  cases note with
  | answer who call frame memory =>
      cases who with
      | none => exact ⟨rfl, rfl⟩
      | some who =>
          exact ⟨if_neg fun hsent => h ⟨.inl hsent.1, hsent.2.1⟩,
            if_neg fun htaken => h ⟨.inr htaken.1, htaken.2.1⟩⟩
  | switch | reads | writes => exact ⟨rfl, rfl⟩

lemma sends_silent {notes : List Note} {i : Fin maxProcesses}
    (h : ∀ note ∈ notes, ¬note.Carries) :
    sends i notes = [] ∧ receives i notes = [] :=
  ⟨List.filterMap_eq_nil_iff.mpr fun note hnote => (Note.not_carries (h note hnote) i).1,
    List.filterMap_eq_nil_iff.mpr fun note hnote => (Note.not_carries (h note hnote) i).2⟩

namespace Machine

variable {m m' : Machine} {i : Fin maxProcesses} {stack : ℕ} {call : SyscallFrame}

/-- What waits in the mailbox of a slot. -/
def waiting (m : Machine) (i : Fin maxProcesses) : List (ℕ × List UInt8) :=
  ((m.scheduler.slots i).map fun slot => slot.mailbox.contents).getD []

/-- What was sent to a slot is what was taken there, and then what waits. -/
def Balanced (m : Machine) : Prop := ∀ i, sends i m.trace = receives i m.trace ++ m.waiting i

lemma waiting_of_some {slot : Slot} (h : m.scheduler.slots i = some slot) :
    m.waiting i = slot.mailbox.contents := by
  rw [waiting, h]
  rfl

/-- What waits is told by the mailboxes. -/
lemma waiting_congr
    (h : (m'.scheduler.slots i).map Slot.mailbox = (m.scheduler.slots i).map Slot.mailbox) :
    m'.waiting i = m.waiting i := by
  have hcontents := congrArg (fun mailbox => (mailbox.map Mailbox.contents).getD []) h
  simpa only [waiting, Option.map_map, Function.comp_def] using hcontents

/-! ### One step -/

/-- A small number is no error. -/
lemma not_isError {rax : UInt64} (h : rax.toNat ≤ capacity) : ¬isError rax := by
  rw [isError]
  simp only [capacity] at h
  omega

/-- What a send that succeeded does: the message waits where nothing did, and the answer stands in
the trace. -/
lemma Sent.trace (hserving : Serving m stack) (h : Sent stack call m.scheduler.current m m') :
    ∃ j : Fin maxProcesses, call.rdi.toNat = j ∧ m.waiting j = []
      ∧ m'.waiting j = [(m.scheduler.current.val, m.bytesAt call.rsi.toNat call.rdx.toNat)]
      ∧ (∀ i, i ≠ j → m'.scheduler.slots i = m.scheduler.slots i)
      ∧ m'.trace = m.trace ++ [.reads call.rsi.toNat call.rdx.toNat,
          .answer (some m.scheduler.current) call { call with rax := call.rdx } (m.memory m.cr3)]
      ∧ ¬isError call.rdx := by
  have hcontrol : m'.control = .ring3 stack := by
    obtain ⟨-, -, -, -, -, -, -, -, -, rfl⟩ := h
    rfl
  have howner := ((h.invariant hserving).serving hcontrol).owner
  obtain ⟨j, slot, delivery, mailbox, hj, hlen, hslot, -, hdeliver, rfl⟩ := h
  obtain ⟨hbefore, hafter, -⟩ := Mailbox.contents_deliver hdeliver
  refine ⟨j, hj, (waiting_of_some hslot).trans hbefore, ?_,
    fun i hi => Scheduler.change_of_ne hi, ?_, not_isError hlen⟩
  · have hnow : (m.scheduler.change j (Scheduler.written mailbox)).slots j
        = some (Scheduler.written mailbox slot) := Scheduler.change_self hslot
    exact (waiting_of_some hnow).trans hafter
  · rw [reply, answer, note] at howner ⊢
    dsimp only at howner ⊢
    rw [howner, List.append_assoc]
    rfl

/-- The same for a message that is taken: what was in the mailbox is now in the buffer. -/
lemma Took.trace (hserving : Serving m stack) (h : Took stack call m m') :
    ∃ sender bytes, m.waiting m.scheduler.current = [(sender, bytes)]
      ∧ m'.waiting m.scheduler.current = []
      ∧ (∀ i, i ≠ m.scheduler.current → m'.scheduler.slots i = m.scheduler.slots i)
      ∧ ∃ frame memory, m'.trace = m.trace ++ [.writes call.rdi.toNat bytes.length,
          .answer (some m.scheduler.current) call frame memory]
        ∧ ¬isError frame.rax ∧ frame.rdx = UInt64.ofNat sender
        ∧ getBytes memory call.rdi.toNat frame.rax.toNat = bytes := by
  have hcontrol : m'.control = .ring3 stack := by
    obtain ⟨-, -, -, -, -, -, rfl⟩ := h
    rfl
  have howner := ((h.invariant hserving).serving hcontrol).owner
  obtain ⟨slot, delivery, bytes, mailbox, hslot, htake, rfl⟩ := h
  obtain ⟨hbefore, hafter, hlength, -, -, hfits⟩ := Mailbox.takeInto_ok htake
  have hlen : (UInt64.ofNat delivery.len).toNat = delivery.len := by
    simp only [capacity] at hfits
    exact UInt64.toNat_ofNat_of_lt' (by simp only [UInt64.size]; omega)
  refine ⟨delivery.sender, bytes, (waiting_of_some hslot).trans hbefore, ?_,
    fun i hi => Scheduler.change_of_ne hi,
    { call with rax := UInt64.ofNat delivery.len, rdx := UInt64.ofNat delivery.sender },
    putBytes (m.memory m.cr3) call.rdi.toNat bytes, ?_,
    not_isError (hlen.trans_le hfits), rfl, ?_⟩
  · exact (waiting_of_some (Scheduler.change_self hslot)).trans hafter
  · rw [answer, fill] at howner ⊢
    dsimp only at howner ⊢
    rw [howner, List.append_assoc, Function.update_self]
    rfl
  · dsimp only
    rw [hlen, ← hlength]
    exact getBytes_eq fun i hi => putBytes_add hi

/-- Whoever sent a message has a slot. -/
lemma sends_lt {trace : List Note} {sender : ℕ} {bytes : List UInt8}
    (h : (sender, bytes) ∈ sends i trace) :
    sender < maxProcesses := by
  obtain ⟨note, -, hnote⟩ := List.mem_filterMap.mp h
  cases note with
  | answer who call frame memory =>
      cases who with
      | none => cases hnote
      | some who =>
          rw [Note.sentTo] at hnote
          split_ifs at hnote
          obtain ⟨rfl, -⟩ := Prod.mk.inj (Option.some.inj hnote)
          exact who.isLt
  | switch | reads | writes => cases hnote

/-- A message that is sent is one more that was sent, and the one that waits. -/
lemma Sent.balanced (h : Balanced m) (hserving : Serving m stack)
    (hcall : Call.ofNumber call.rax = some .send)
    (hsent : Sent stack call m.scheduler.current m m') :
    Balanced m' := by
  intro i
  obtain ⟨j, hj, hbefore, hafter, hothers, htrace, herror⟩ := hsent.trace hserving
  have hbalanced := h i
  rw [htrace, sends_append, receives_append]
  by_cases hi : i = j
  · subst hi
    rw [hbefore, List.append_nil] at hbalanced
    rw [hbalanced, hafter]
    simp [sends, receives, List.filterMap_cons, Note.sentTo, Note.takenBy, hcall, herror,
      hj, bytesAt]
  · have hother : ¬call.rdi.toNat = i := fun heq => hi (Fin.ext (heq.symm.trans hj))
    rw [hbalanced, waiting_congr (congrArg _ (hothers i hi))]
    simp [sends, receives, List.filterMap_cons, Note.sentTo, Note.takenBy, hcall, hother]

/-- A message that is taken is one more that was taken, and nothing waits. -/
lemma Took.balanced (h : Balanced m) (hserving : Serving m stack)
    (hcall : Call.ofNumber call.rax = some .recv) (htook : Took stack call m m') :
    Balanced m' := by
  intro i
  obtain ⟨sender, bytes, hbefore, hafter, hothers, frame, memory, htrace, herror, hrdx, hbytes⟩ :=
    htook.trace hserving
  have hbalanced := h i
  rw [htrace, sends_append, receives_append, hbalanced]
  by_cases hi : i = m.scheduler.current
  · subst hi
    have hsender : sender < maxProcesses := by
      refine @sends_lt m.scheduler.current m.trace sender bytes ?_
      rw [hbalanced, hbefore]
      exact List.mem_append_right _ (List.mem_singleton_self _)
    have hrdx : frame.rdx.toNat = sender := by
      rw [hrdx]
      simp only [maxProcesses] at hsender
      exact UInt64.toNat_ofNat_of_lt' (by simp only [UInt64.size]; omega)
    rw [hbefore, hafter]
    simp [sends, receives, List.filterMap_cons, Note.sentTo, Note.takenBy, hcall, herror,
      hrdx, hbytes]
  · rw [waiting_congr (congrArg _ (hothers i hi))]
    simp [sends, receives, List.filterMap_cons, Note.sentTo, Note.takenBy, hcall, Ne.symm hi]

/-- **Every step keeps the balance.** -/
lemma step_balanced {event : Event} (hinvariant : Invariant m) (h : Balanced m)
    (hstep : m.step event = some m') : Balanced m' := by
  rcases (step_effect hinvariant hstep).calm_or with hcalm | ⟨stack, call, hserving, hcall, hsent⟩
    | ⟨switching, stack, call, hserving, hcall, htook⟩ | ⟨free, slot, hfree, hmailbox,
        hslots, htrace⟩
  · intro i
    obtain ⟨notes, htrace, hnotes⟩ := hcalm.trace
    obtain ⟨hsends, hreceives⟩ := @sends_silent notes i hnotes
    rw [waiting_congr (hcalm.mailboxes i), htrace, sends_append, receives_append,
      hsends, hreceives, List.append_nil, List.append_nil]
    exact h i
  · exact hsent.balanced h hserving hcall
  · exact @Took.balanced { m with scheduler := { m.scheduler with switching } } m' _ _ h
      hserving hcall htook
  · intro i
    have hwaiting : m'.waiting i = m.waiting i := by
      rw [waiting, waiting, hslots]
      by_cases hi : i = free
      · rw [hi, Function.update_self, hfree, Option.map_some, hmailbox]
        rfl
      · rw [Function.update_of_ne hi]
    rw [hwaiting, htrace]
    exact h i

/-- A step in which a call on messages is answered with an error is calm. -/
lemma Effect.refused {event : Event} {notes : List Note} {who : Option (Fin maxProcesses)}
    {frame : SyscallFrame} {memory : ByteMemory} (h : Effect m event m')
    (htrace : m'.trace = m.trace ++ notes) (hmem : Note.answer who call frame memory ∈ notes)
    (herror : isError frame.rax) : Calm m m' := by
  rcases h.calm_or with hcalm | ⟨stack, call', hserving, hcall, hsent⟩
    | ⟨switching, stack, call', hserving, hcall, htook⟩ | ⟨free, slot, hfree, hmailbox,
        hslots, hsame⟩
  · exact hcalm
  · obtain ⟨-, -, -, -, -, hsent, hok⟩ := hsent.trace hserving
    obtain rfl := List.append_cancel_left (htrace.symm.trans hsent)
    rcases List.mem_pair.mp hmem with heq | heq
    · cases heq
    · obtain ⟨-, -, rfl, -⟩ := Note.answer.inj heq
      exact absurd herror hok
  · obtain ⟨_, _, _, _, _, _, _, htook, hok, _⟩ := htook.trace hserving
    obtain rfl := List.append_cancel_left (htrace.symm.trans htook)
    rcases List.mem_pair.mp hmem with heq | heq
    · cases heq
    · obtain ⟨-, -, rfl, -⟩ := Note.answer.inj heq
      exact absurd herror hok
  · rw [List.self_eq_append_right.mp (hsame.symm.trans htrace)] at hmem
    cases hmem

/-! ### Every run -/

lemma boot_balanced (memory : ℕ → ByteMemory) (disk : Option Mounted) (console : Option Console)
    (cr3 : ℕ) : Balanced (boot memory disk console cr3) := fun _ => rfl

/-- **No message is lost, doubled or changed.** In every state of every run and for every slot,
the messages whose sends succeeded are, in that order and with their bytes and their senders, the
ones that were taken there and then the one that waits. And a `send` or a `recv` that is answered
with an error leaves every mailbox as it was. -/
theorem messages_kept {memory : ℕ → ByteMemory} {disk : Option Mounted} {console : Option Console}
    {cr3 : ℕ} {events : List Event} (hrun : (boot memory disk console cr3).run events = some m) :
    (∀ i, sends i m.trace = receives i m.trace ++ m.waiting i)
      ∧ ∀ event m' notes who call frame seen, m.step event = some m' →
        m'.trace = m.trace ++ notes →
          Note.answer who call frame seen ∈ notes →
          (Call.ofNumber call.rax = some .send ∨ Call.ofNumber call.rax = some .recv) →
          isError frame.rax →
          ∀ i, (m'.scheduler.slots i).map Slot.mailbox
            = (m.scheduler.slots i).map Slot.mailbox := by
  have hboth := @run_keeps (fun m => Invariant m ∧ Balanced m)
    (fun _ _ _ h hstep => ⟨step_invariant h.1 hstep, step_balanced h.1 h.2 hstep⟩) _ _ _
    ⟨boot_invariant memory disk console cr3, boot_balanced memory disk console cr3⟩ hrun
  refine ⟨hboth.2, fun event m' notes who call frame seen hstep htrace hmem _ herror => ?_⟩
  exact ((step_effect hboth.1 hstep).refused htrace hmem herror).mailboxes

/-- The second process of `waitingRun` writes `hi` to the first, which then has its turn. -/
def writingRun : List Event :=
  waitingRun ++ [.compute fun a => if a = 0x2000 then 0x68 else 0x69,
    .syscall ⟨3, 0, 0x2000, 2, 0⟩ ⟨0, false, []⟩,
    .syscall ⟨2, 0, 0, 0, 0⟩ ⟨0, false, []⟩, .resume]

theorem messages_kept_writingRun : ∃ m, (boot (fun _ _ => 0) none none 0).run writingRun = some m
    ∧ receives 0 m.trace = [(1, [0x68, 0x69])]
    ∧ sends 0 m.trace = receives 0 m.trace ++ m.waiting 0 := by
  have hsome : ((boot (fun _ _ => 0) none none 0).run writingRun).isSome = true := rfl
  refine ⟨_, (Option.some_get hsome).symm, rfl, ?_⟩
  exact (messages_kept (Option.some_get hsome).symm).1 0

end Machine

end Harlan.Turns
