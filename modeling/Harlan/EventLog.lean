import Mathlib.Tactic
import Harlan.EventRuns

/-!
The log on the disk (`write_events` of `kernel/src/lib.rs`): what the ring holds is joined to what
`EVENTS.LOG` already held, and the file is written whole.

What the disk answers is part of the input of a call, for each of its three requests. A line is
followed from the ring into the file, through any sequence of lines recorded and calls of
`write_events`.

* `Accounted`: where a line is, if it is anywhere it may be.
* `writeEvents_keeps`: a call under whose answers nothing goes missing keeps the file a tail of
  everything ever put in it.
* `eventLog_accounts`: in a run of such calls every line is accounted for.
* `eventLog_loses`: a failed look-up loses a line, and a failed read the whole log.
-/

namespace Harlan.Events

/-! ### Writing the log -/

/-- How a write of the file ended, and whether the new contents are there. -/
inductive WriteAnswer where
  | written
  /-- An error, with the file as it was. -/
  | failed
  /-- An error after the new contents had taken their place. -/
  | failedAfter
deriving DecidableEq

/-- What the disk answers during one call of `write_events`. -/
structure FsAnswers where
  /-- `find` gives an error other than a file that is not there. -/
  findFails : Bool
  readFails : Bool
  write : WriteAnswer
  /-- When the write is recorded. -/
  ticks : ℕ

/-- The ring, and the file if there is one. -/
structure Log where
  ring : Ring
  file : Option (List UInt8)

/-- `EVENTS.LOG`. -/
def eventsName : List UInt8 := [0x45, 0x56, 0x45, 0x4E, 0x54, 0x53, 0x2E, 0x4C, 0x4F, 0x47]

/-- `read_file` fails when the disk does, and on a file longer than the buffer. -/
def FsAnswers.reads (fs : FsAnswers) (text : List UInt8) : Bool :=
  !fs.readFails && decide (text.length ≤ maxFile)

/-- What was already there, as far as it could be read. -/
def Log.old (log : Log) (fs : FsAnswers) : List UInt8 :=
  match log.file with
  | none => []
  | some text => if fs.reads text then text else []

/-- Writes the events of this boot onto what the disk already held. -/
def Log.writeEvents (log : Log) (fs : FsAnswers) : Log :=
  let (mine, ring) := log.ring.copyInto (events * lineBytes)
  if fs.findFails then { log with ring := ring }
  else
    let joined := join (log.old fs) mine maxFile maxFile
    match fs.write with
    | .written => ⟨ring.recordWith fs.ticks .wrote joined.length eventsName, some joined⟩
    | .failed => { log with ring := ring }
    | .failedAfter => ⟨ring, some joined⟩

/-- What the kernel does with its log: a line more, or all unflushed lines to the volume. -/
inductive LogOp where
  | record (ticks : ℕ) (what : What) (detail : ℕ) (second : Option ℕ) (name : List UInt8)
  | writeEvents (fs : FsAnswers)

/-- The log after one operation. -/
def Log.step (log : Log) : LogOp → Log
  | .record ticks what detail second name =>
      { log with ring := log.ring.writeLine ticks what detail second name }
  | .writeEvents fs => log.writeEvents fs

/-- A boot that finds `file` on its disk. -/
def Log.start (boot : ℕ) (file : Option (List UInt8)) : Log := ⟨(Run.start boot).ring, file⟩

/-- The log after a list of operations. -/
def Log.after (log : Log) (ops : List LogOp) : Log := ops.foldl Log.step log

lemma Log.after_snoc (log : Log) (ops : List LogOp) (op : LogOp) :
    log.after (ops ++ [op]) = (log.after ops).step op := by
  rw [Log.after, List.foldl_append]
  rfl

/-! ### A line on its way -/

/-- What a step asks of the ring. -/
def Log.ringOps (log : Log) : LogOp → List RingOp
  | .record ticks what detail second name => [.write ticks what detail second name]
  | .writeEvents fs =>
      .copyInto (events * lineBytes) ::
        if fs.findFails = false ∧ fs.write = .written then
          [.write fs.ticks .wrote (join (log.old fs)
            (log.ring.copyInto (events * lineBytes)).1 maxFile maxFile).length none eventsName]
        else []

/-- What the ring saw in a run of the log. -/
def Log.trace (log : Log) : List LogOp → List RingOp
  | [] => []
  | op :: rest => log.ringOps op ++ (log.step op).trace rest

lemma Log.trace_snoc (log : Log) (ops : List LogOp) (op : LogOp) :
    log.trace (ops ++ [op]) = log.trace ops ++ (log.after ops).ringOps op := by
  induction ops generalizing log with
  | nil => simp [Log.trace, Log.after]
  | cons first rest ih =>
      rw [List.cons_append, Log.trace, ih, Log.trace, List.append_assoc]
      rfl

/-- What becomes of the lines of a run of the log. -/
def Log.lines (boot : ℕ) (file : Option (List UInt8)) (ops : List LogOp) : Run :=
  Run.after boot ((Log.start boot file).trace ops)

/-- Where a line starts in a text. -/
def LineStart (text : List UInt8) (pos : ℕ) : Prop := pos = 0 ∨ text[pos - 1]? = some newline

/-- The file ends in the line and the lines that were handed over after it. -/
def InLog (run : Run) (file : Option (List UInt8)) (i : ℕ) : Prop :=
  ∃ before after front, run.handed = before ++ i :: after
    ∧ file = some (front ++ run.line i ++ after.flatMap run.line)

/-- The line was put behind the log, and from every start of a line up to its own there is now
more to the end than the file may hold. -/
def Dropped (run : Run) (initial : List UInt8) (i : ℕ) : Prop :=
  ∃ before after, run.handed = before ++ i :: after
    ∧ ∀ pos ≤ (initial ++ before.flatMap run.line).length,
      LineStart (initial ++ run.handed.flatMap run.line) pos →
        pos + maxFile < (initial ++ run.handed.flatMap run.line).length

/-- The ring went round before a flush came to the line. -/
def Overwritten (boot : ℕ) (ops : List RingOp) (i : ℕ) : Prop :=
  Lost boot ops i
    ∨ (Run.after boot ops).ring.flushed ≤ i ∧ i + events < (Run.after boot ops).ring.written

/-- The next flush will look at the line. -/
def Owed (ring : Ring) (i : ℕ) : Prop := ring.flushed ≤ i ∧ ring.written ≤ i + events

/-- The line is in the file, or is not there for a reason. -/
def Accounted (boot : ℕ) (initial : Option (List UInt8)) (ops : List LogOp) (i : ℕ) : Prop :=
  let log := (Log.start boot initial).after ops
  let run := Log.lines boot initial ops
  InLog run log.file i ∨ Dropped run (initial.getD []) i
    ∨ Overwritten boot ((Log.start boot initial).trace ops) i ∨ Owed log.ring i

/-! ### Calls that lose nothing -/

/-- The new contents take the place of the file. -/
def FsAnswers.Lands (fs : FsAnswers) : Prop := fs.findFails = false ∧ fs.write ≠ .failed

/-- If the file is replaced then it could be read, or there was nothing in it; and if it is not
then there was nothing to put in it. -/
def LogOp.Safe (log : Log) : LogOp → Prop
  | .record .. => True
  | .writeEvents fs =>
      (fs.Lands → ∀ text, log.file = some text → text = [] ∨ fs.reads text)
        ∧ (¬fs.Lands → log.ring.flushed = log.ring.written)

/-- Every operation of the run meets the condition in the state it comes to. -/
def Log.SafeRun (log : Log) : List LogOp → Prop
  | [] => True
  | op :: rest => op.Safe log ∧ (log.step op).SafeRun rest

lemma Log.safeRun_snoc {log : Log} {ops : List LogOp} {op : LogOp} :
    log.SafeRun (ops ++ [op]) ↔ log.SafeRun ops ∧ op.Safe (log.after ops) := by
  induction ops generalizing log with
  | nil => simp [Log.SafeRun, Log.after]
  | cons first rest ih =>
      rw [List.cons_append, Log.SafeRun, ih, Log.SafeRun, and_assoc]
      rfl

lemma Log.SafeRun.at {log : Log} {before after : List LogOp} {op : LogOp}
    (h : log.SafeRun (before ++ op :: after)) : op.Safe (log.after before) := by
  induction before generalizing log with
  | nil => exact h.1
  | cons first rest ih => exact ih h.2

/-! ### The ring in a run of the log -/

lemma writeEvents_ring (log : Log) (fs : FsAnswers) :
    (log.writeEvents fs).ring
      = if fs.findFails = false ∧ fs.write = .written then
          (log.ring.copyInto (events * lineBytes)).2.recordWith fs.ticks .wrote
            (join (log.old fs) (log.ring.copyInto (events * lineBytes)).1 maxFile maxFile).length
            eventsName
        else (log.ring.copyInto (events * lineBytes)).2 := by
  rw [Log.writeEvents]
  dsimp only
  by_cases hfind : fs.findFails = true
  · simp [hfind]
  · rw [if_neg hfind, Bool.not_eq_true] at *
    cases hwrite : fs.write <;> simp [hfind]

lemma step_ring {log : Log} {run : Run} (h : run.ring = log.ring) (op : LogOp) :
    ((log.ringOps op).foldl Run.step run).ring = (log.step op).ring := by
  cases op with
  | record ticks what detail second name =>
      simp [Log.ringOps, Log.step, Run.step, h]
  | writeEvents fs =>
      rw [Log.step, writeEvents_ring, Log.ringOps]
      by_cases hwritten : fs.findFails = false ∧ fs.write = .written
      · rw [if_pos hwritten, if_pos hwritten]
        simp [Run.step, h, Ring.recordWith]
      · rw [if_neg hwritten, if_neg hwritten]
        simp [Run.step, h]

lemma after_ring (boot : ℕ) (initial : Option (List UInt8)) (ops : List LogOp) :
    (Log.lines boot initial ops).ring = ((Log.start boot initial).after ops).ring := by
  induction ops using List.reverseRecOn with
  | nil => rfl
  | append_singleton ops op ih =>
      rw [Log.lines, Log.trace_snoc, Run.after, List.foldl_append, Log.after_snoc]
      exact step_ring ih op

/-! ### What a call leaves in the file -/

/-- The file is what is left of all that was ever put in it, from the first start of a line where
it fits. -/
structure Kept (all : List UInt8) (file : Option (List UInt8)) (cut : ℕ) : Prop where
  tail : file.getD [] = all.drop cut
  cut_le : cut ≤ all.length
  least : ∀ pos, LineStart all pos → all.length ≤ pos + maxFile → cut ≤ pos

lemma copyLines_length {ring : Ring} {room left first : ℕ} {out : List UInt8}
    (h : out.length ≤ room) : (ring.copyLines room left first out).1.length ≤ room := by
  induction left generalizing first out with
  | zero => exact h
  | succ left ih =>
      rw [Ring.copyLines]
      by_cases hfull : room < out.length + (ring.lines (first % events)).len
      · rw [if_pos hfull]
        exact h
      · rw [if_neg hfull]
        refine ih ?_
        rw [List.length_append, Line.text, List.length_take]
        omega

lemma copyInto_length (ring : Ring) (room : ℕ) : (ring.copyInto room).1.length ≤ room := by
  rw [Ring.copyInto]
  exact copyLines_length (Nat.zero_le room)

lemma lineStart_append {all more : List UInt8} {pos : ℕ} (h : LineStart (all ++ more) pos)
    (hpos : pos ≤ all.length) : LineStart all pos := by
  rcases Nat.eq_zero_or_pos pos with hzero | hsome
  · exact .inl hzero
  · refine h.imp_right fun hnewline => ?_
    rwa [List.getElem?_append_left (by omega)] at hnewline

lemma lineStart_drop {all : List UInt8} {cut pos : ℕ} (h : LineStart all pos) (hcut : cut ≤ pos) :
    LineStart (all.drop cut) (pos - cut) := by
  rcases Nat.eq_or_lt_of_le hcut with heq | hlt
  · exact .inl (by omega)
  · refine .inr ?_
    have hnewline := h.resolve_left (by omega)
    rw [List.getElem?_drop, ← hnewline]
    congr 1
    omega

/-- **Joining keeps the file a tail of everything put in it**, and never cuts more than the limit
asks for. -/
theorem kept_join {all mine : List UInt8} {file : Option (List UInt8)} {cut : ℕ}
    (h : Kept all file cut) (hmine : mine.length ≤ maxFile) :
    ∃ cut', Kept (all ++ mine) (some (join (file.getD []) mine maxFile maxFile)) cut' := by
  obtain ⟨more, hkept, hmore, -, -, hleast⟩ :=
    newestWholeLines_spec (file.getD []) (maxFile - mine.length)
  rw [h.tail] at hkept hmore hleast
  rw [List.length_drop] at hmore hleast
  have hcut := h.cut_le
  have hnew : newestWholeLines mine maxFile = mine := by rw [newestWholeLines, if_pos hmine]
  refine ⟨cut + more, ?_, ?_, fun pos hstart hfits => ?_⟩
  · rw [Option.getD_some, join, Nat.min_self, hnew, h.tail, hkept, List.drop_drop,
      List.drop_append_of_le_length (by omega)]
  · rw [List.length_append]
    omega
  · rw [List.length_append] at hfits
    by_cases hlow : pos ≤ all.length
    · have hold := lineStart_append hstart hlow
      have hafter := h.least pos hold (by omega)
      have := hleast (pos - cut) (lineStart_drop hold hafter) (by omega)
      omega
    · omega

/-! ### Runs that lose nothing -/

lemma writeEvents_out (log : Log) (fs : FsAnswers) (run : Run) :
    ((log.ringOps (.writeEvents fs)).foldl Run.step run).out
        = run.out ++ (run.ring.copyInto (events * lineBytes)).1
      ∧ ((log.ringOps (.writeEvents fs)).foldl Run.step run).handed
        = run.handed ++ List.range' run.ring.first
          ((run.ring.copyInto (events * lineBytes)).2.flushed - run.ring.first) := by
  rw [Log.ringOps]
  split_ifs <;> exact ⟨rfl, rfl⟩

lemma writeEvents_lands (log : Log) {fs : FsAnswers} (h : fs.Lands) :
    (log.writeEvents fs).file
      = some (join (log.old fs) (log.ring.copyInto (events * lineBytes)).1 maxFile maxFile) := by
  obtain ⟨hfind, hwrite⟩ := h
  rw [Log.writeEvents]
  cases hanswer : fs.write with
  | written => simp [hfind]
  | failed => exact absurd hanswer hwrite
  | failedAfter => simp [hfind]

lemma writeEvents_fails (log : Log) {fs : FsAnswers} (h : ¬fs.Lands) :
    (log.writeEvents fs).file = log.file := by
  rw [FsAnswers.Lands, not_and, not_not] at h
  rw [Log.writeEvents]
  by_cases hfind : fs.findFails = true
  · simp [hfind]
  · simp [hfind, h (by simpa using hfind)]

lemma copyInto_nothing {ring : Ring} (h : ring.flushed = ring.written) (room : ℕ) :
    (ring.copyInto room).1 = [] ∧ (ring.copyInto room).2.flushed = ring.first := by
  have hnone : unflushed ring.written ring.flushed events = (ring.first, 0) := by
    refine Prod.ext rfl ?_
    simp only [unflushed]
    omega
  rw [Ring.copyInto, hnone]
  exact ⟨rfl, rfl⟩

lemma old_eq {log : Log} {fs : FsAnswers}
    (h : ∀ text, log.file = some text → text = [] ∨ fs.reads text) :
    log.old fs = log.file.getD [] := by
  rw [Log.old]
  cases hfile : log.file with
  | none => rfl
  | some text =>
      rcases h text hfile with rfl | hreads
      · simp
      · simp [hreads]

/-- What holds of the file after a run that loses nothing. -/
def Log.Tail (initial : List UInt8) (file : Option (List UInt8)) (run : Run) : Prop :=
  (∃ cut, Kept (initial ++ run.out) file cut) ∧ (run.handed ≠ [] → file.isSome)

/-- **A call that loses nothing** keeps the file a tail of everything put in it. -/
theorem writeEvents_keeps {initial : List UInt8} {log : Log} {run : Run} {fs : FsAnswers}
    (hring : run.ring = log.ring) (hsafe : LogOp.Safe log (.writeEvents fs))
    (h : Log.Tail initial log.file run) :
    Log.Tail initial (log.writeEvents fs).file
      ((log.ringOps (.writeEvents fs)).foldl Run.step run) := by
  obtain ⟨⟨cut, hkept⟩, hthere⟩ := h
  obtain ⟨hout, hhanded⟩ := writeEvents_out log fs run
  rw [Log.Tail, hout, hhanded, hring, ← List.append_assoc]
  by_cases hlands : fs.Lands
  · rw [writeEvents_lands log hlands, old_eq (hsafe.1 hlands)]
    refine ⟨kept_join hkept (le_trans (copyInto_length _ _) ?_), fun _ => rfl⟩
    decide
  · obtain ⟨hnothing, hflushed⟩ := copyInto_nothing (hsafe.2 hlands) (events * lineBytes)
    rw [writeEvents_fails log hlands, hnothing, hflushed, Nat.sub_self, List.range'_zero,
      List.append_nil, List.append_nil]
    exact ⟨⟨cut, hkept⟩, hthere⟩

lemma log_tail {boot : ℕ} {initial : Option (List UInt8)} {ops : List LogOp}
    (h : (Log.start boot initial).SafeRun ops) :
    Log.Tail (initial.getD []) ((Log.start boot initial).after ops).file
      (Log.lines boot initial ops) := by
  induction ops using List.reverseRecOn with
  | nil =>
      refine ⟨⟨0, ?_, Nat.zero_le _, fun pos _ _ => Nat.zero_le _⟩, fun hnone => absurd rfl hnone⟩
      simp [Log.lines, Log.trace, Run.after, Run.start, Log.after, Log.start]
  | append_singleton ops op ih =>
      obtain ⟨hbefore, hsafe⟩ := Log.safeRun_snoc.mp h
      have htail := ih hbefore
      have hring := after_ring boot initial ops
      rw [Log.after_snoc, Log.lines, Log.trace_snoc, Run.after, List.foldl_append]
      cases op with
      | record ticks what detail second name => exact htail
      | writeEvents fs => exact writeEvents_keeps hring hsafe htail

/-- A line handed over is in the file, or had to be dropped. -/
lemma handed_accounted {initial : List UInt8} {file : Option (List UInt8)} {run : Run} {i : ℕ}
    (hout : run.out = run.handed.flatMap run.line) (h : Log.Tail initial file run)
    (hi : i ∈ run.handed) : InLog run file i ∨ Dropped run initial i := by
  obtain ⟨⟨cut, hkept⟩, hthere⟩ := h
  obtain ⟨before, after, hhanded⟩ := List.append_of_mem hi
  obtain ⟨text, rfl⟩ := Option.isSome_iff_exists.mp (hthere (List.ne_nil_of_mem hi))
  have htail := hkept.tail
  rw [Option.getD_some] at htail
  have hall : initial ++ run.out
      = (initial ++ before.flatMap run.line) ++ (run.line i ++ after.flatMap run.line) := by
    rw [hout, hhanded, List.flatMap_append, List.flatMap_cons, ← List.append_assoc]
  by_cases hcut : cut ≤ (initial ++ before.flatMap run.line).length
  · refine .inl ⟨before, after, (initial ++ before.flatMap run.line).drop cut, hhanded, ?_⟩
    rw [htail, hall, List.drop_append_of_le_length hcut, List.append_assoc]
  · refine .inr ⟨before, after, hhanded, fun pos hpos hstart => ?_⟩
    rw [← hout] at hstart ⊢
    by_contra hfits
    have := hkept.least pos hstart (by omega)
    omega

/-- The read of a log that is there fails. -/
def FsAnswers.CannotRead (fs : FsAnswers) (text : List UInt8) : Prop :=
  fs.findFails = false ∧ fs.reads text = false

/-- **Every line is accounted for**, after any sequence of lines recorded and calls that lose
nothing: it is in the file, was dropped from the front of it because the limit asked for it, was
overwritten in the ring before a flush, or is owed to the next flush. And such a call that could
not read the log leaves it as it was, if there was anything in it. -/
theorem eventLog_accounts {boot : ℕ} {initial : Option (List UInt8)} {ops : List LogOp}
    (h : (Log.start boot initial).SafeRun ops) :
    (∀ i < (Log.lines boot initial ops).lines.length, Accounted boot initial ops i)
      ∧ ∀ before fs after text, ops = before ++ .writeEvents fs :: after →
        ((Log.start boot initial).after before).file = some text →
          fs.CannotRead text → text ≠ [] →
          ((Log.start boot initial).after (before ++ [.writeEvents fs])).file = some text := by
  constructor
  · intro i hi
    have htracks := tracks boot ((Log.start boot initial).trace ops)
    have hring := after_ring boot initial ops
    have htail := log_tail h
    rw [Accounted]
    rw [Log.lines] at hring htail hi ⊢
    have hwritten := htracks.holds.written
    by_cases hlow : i < (Run.after boot ((Log.start boot initial).trace ops)).ring.flushed
    · by_cases hlost : Lost boot ((Log.start boot initial).trace ops) i
      · exact .inr (.inr (.inl (.inl hlost)))
      · rcases handed_accounted htracks.out htail
          ((htracks.handed i).mpr ⟨hlow, hlost⟩) with hin | hout
        · exact .inl hin
        · exact .inr (.inl hout)
    · by_cases hold : i + events
        < (Run.after boot ((Log.start boot initial).trace ops)).ring.written
      · exact .inr (.inr (.inl (.inr ⟨by omega, hold⟩)))
      · refine .inr (.inr (.inr ⟨?_, ?_⟩)) <;> rw [← hring] <;> omega
  · rintro before fs after text rfl hfile ⟨hfind, hread⟩ htext
    have hsafe := h.at
    rw [Log.after_snoc, Log.step, ← hfile]
    refine writeEvents_fails _ fun hlands => ?_
    rcases hsafe.1 hlands text hfile with hnone | hreads
    · exact htext hnone
    · simp [hread] at hreads

/-- A boot that records one line and writes it to a disk without a log. -/
def firstFlush : List LogOp :=
  [.record 0 .boot 1 none [], .writeEvents ⟨false, false, .written, 0⟩]

theorem eventLog_accounts_firstFlush :
    (Log.start 1 none).SafeRun firstFlush
      ∧ ∀ i < (Log.lines 1 none firstFlush).lines.length, Accounted 1 none firstFlush i := by
  have hsafe : (Log.start 1 none).SafeRun firstFlush := by
    refine ⟨trivial, ⟨fun _ text htext => ?_, fun hfails => ?_⟩, trivial⟩
    · cases htext
    · exact absurd ⟨rfl, nofun⟩ hfails
  exact ⟨hsafe, (eventLog_accounts hsafe).1⟩

/-- The same boot, on a disk where the log cannot be looked up. -/
def failedFlush : List LogOp :=
  [.record 0 .boot 1 none [], .writeEvents ⟨true, false, .written, 0⟩]

/-- **Lines go missing.** A line copied from the ring before a look-up that fails is nowhere any
more; and a log that cannot be read is replaced by one without its lines. -/
theorem eventLog_loses :
    (0 < (Log.lines 1 none failedFlush).lines.length ∧ ¬Accounted 1 none failedFlush 0)
      ∧ (⟨false, true, .written, 0⟩ : FsAnswers).CannotRead [0x78, newline]
      ∧ ((Log.start 1 (some [0x78, newline])).after
        [.writeEvents ⟨false, true, .written, 0⟩]).file
        = some [] := by
  refine ⟨⟨by decide, ?_⟩, ⟨rfl, rfl⟩, rfl⟩
  have htracks := tracks 1 ((Log.start 1 none).trace failedFlush)
  have hflushed : (Log.lines 1 none failedFlush).ring.flushed = 1 := by decide
  have hhanded : (Log.lines 1 none failedFlush).handed = [0] := by decide
  have hlost := ((htracks.handed 0).mp
    (List.mem_of_mem_head? (by rw [← Log.lines, hhanded]; rfl))).2
  rintro (⟨before, after, front, -, hfile⟩ | ⟨before, after, -, hlimit⟩ | (hgone | ⟨hlow, -⟩)
    | ⟨hlow, -⟩)
  · cases hfile
  · have hlong := hlimit 0 (Nat.zero_le _) (.inl rfl)
    have hshort : ([] ++ (Log.lines 1 none failedFlush).handed.flatMap
        (Log.lines 1 none failedFlush).line).length ≤ maxFile := by decide
    exact absurd hlong (by simpa using hshort)
  · exact hlost hgone
  · rw [← Log.lines, hflushed] at hlow
    omega
  · rw [← after_ring, hflushed] at hlow
    omega

end Harlan.Events
