import Mathlib.Tactic
import Harlan.Events

/-!
Runs of the event ring: lines recorded and flushes into buffers of any size, in any order.

`Run` is the ring together with everything flushes gave, and, beside the code, which lines have
been recorded and which of them were handed over.

* `Run.Tracks`: the ring holds the newest lines, and what was given are whole lines.
* `Tracks.step`: every step keeps it.
* `ring_handsOut`: what flushes gave is the lines in order, each at most once; the ones missing
  are those the ring had overwritten.
-/

namespace Harlan.Events

/-- One use of the ring. -/
inductive RingOp where
  | write (ticks : ℕ) (what : What) (detail : ℕ) (second : Option ℕ) (name : List UInt8)
  | copyInto (room : ℕ)

/-- A ring, and what its flushes gave so far. -/
structure Run where
  ring : Ring
  /-- All that flushes gave, one after the other. -/
  out : List UInt8
  /-- The text of every line recorded. -/
  lines : List (List UInt8)
  /-- Which of them were handed over, in the order they were. -/
  handed : List ℕ

/-- Before anything was recorded, in some boot. -/
def Run.start (boot : ℕ) : Run := ⟨{ Ring.new with boot := boot }, [], [], []⟩

/-- The first line a flush looks at. -/
def Ring.first (ring : Ring) : ℕ := (unflushed ring.written ring.flushed events).1

/-- One line written, or one flush. -/
def Run.step (run : Run) : RingOp → Run
  | .write ticks what detail second name =>
      { run with
        ring := run.ring.writeLine ticks what detail second name
        lines := run.lines ++
          [(fields run.ring.boot ticks what detail second name).flatten.take lineBytes] }
  | .copyInto room =>
      let (bytes, ring) := run.ring.copyInto room
      { run with
        ring := ring
        out := run.out ++ bytes
        handed := run.handed ++ List.range' run.ring.first (ring.flushed - run.ring.first) }

/-- A run from the start of a boot. -/
def Run.after (boot : ℕ) (ops : List RingOp) : Run := ops.foldl Run.step (.start boot)

lemma Run.after_snoc (boot : ℕ) (ops : List RingOp) (op : RingOp) :
    Run.after boot (ops ++ [op]) = (Run.after boot ops).step op := by
  rw [Run.after, List.foldl_append]
  rfl

/-- The text of a line recorded. -/
def Run.line (run : Run) (i : ℕ) : List UInt8 := run.lines.getD i []

/-! ### What a flush takes -/

/-- The ring holds the newest lines. -/
structure Run.Holds (run : Run) : Prop where
  written : run.ring.written = run.lines.length
  line : ∀ i, i < run.ring.written → run.ring.written ≤ i + events →
    (run.ring.lines (i % events)).text = run.line i
      ∧ (run.ring.lines (i % events)).len = (run.line i).length

lemma first_le {ring : Ring} (h : ring.flushed ≤ ring.written) :
    ring.flushed ≤ ring.first ∧ ring.first ≤ ring.written ∧ ring.written ≤ ring.first + events
      ∧ (unflushed ring.written ring.flushed events).2 = ring.written - ring.first
      ∧ (ring.flushed < ring.first → ring.first + events = ring.written) := by
  simp only [Ring.first, unflushed]
  refine ⟨by omega, by omega, by omega, trivial, fun hbehind => by omega⟩

/-- The loop of a flush gives whole lines, as many as fit. -/
lemma copyLines_spec {run : Run} (h : run.Holds) (room : ℕ) {left first : ℕ} {out : List UInt8}
    (hleft : first + left = run.ring.written) (hfirst : run.ring.written ≤ first + events) :
    ∃ next, run.ring.copyLines room left first out
        = (out ++ (List.range' first (next - first)).flatMap run.line, next)
      ∧ first ≤ next ∧ next ≤ run.ring.written
      ∧ ∀ i < run.ring.written, first ≤ i →
        (out ++ (List.range' first (i + 1 - first)).flatMap run.line).length ≤ room →
          i < next := by
  induction left generalizing first out with
  | zero =>
      refine ⟨first, ?_, le_refl _, by omega, fun i hi hle => by omega⟩
      simp [Ring.copyLines]
  | succ left ih =>
      obtain ⟨htext, hlen⟩ := h.line first (by omega) hfirst
      rw [Ring.copyLines]
      by_cases hfull : room < out.length + (run.ring.lines (first % events)).len
      · rw [if_pos hfull]
        refine ⟨first, by simp, le_refl _, by omega, fun i hi hle hroom => ?_⟩
        obtain ⟨more, hmore⟩ : ∃ more, i + 1 - first = more + 1 := ⟨i - first, by omega⟩
        rw [hmore, List.range'_succ, List.flatMap_cons, List.length_append, List.length_append,
          ← hlen] at hroom
        omega
      · rw [if_neg hfull, htext]
        obtain ⟨next, heq, hle, hwritten, hroom⟩ := @ih (first + 1)
          (out ++ run.line first) (by omega) (by omega)
        refine ⟨next, ?_, by omega, hwritten, fun i hi hlow hfits => ?_⟩
        · obtain ⟨more, hmore⟩ : ∃ more, next - first = more + 1 := ⟨next - first - 1, by omega⟩
          rw [heq, hmore, List.range'_succ, List.flatMap_cons, List.append_assoc,
            show next - (first + 1) = more by omega]
        · rcases Nat.eq_or_lt_of_le hlow with rfl | hlow
          · omega
          · refine hroom i hi (by omega) ?_
            obtain ⟨more, hmore⟩ : ∃ more, i + 1 - first = more + 1 := ⟨i - first, by omega⟩
            rw [hmore, List.range'_succ, List.flatMap_cons] at hfits
            rw [List.append_assoc, show i + 1 - (first + 1) = more by omega]
            exact hfits

lemma copyInto_spec {run : Run} (h : run.Holds) (hflushed : run.ring.flushed ≤ run.ring.written)
    (room : ℕ) :
    ∃ next, run.ring.copyInto room
        = ((List.range' run.ring.first (next - run.ring.first)).flatMap run.line,
          { run.ring with flushed := next })
      ∧ run.ring.first ≤ next ∧ next ≤ run.ring.written
      ∧ ∀ i < run.ring.written, run.ring.first ≤ i →
        ((List.range' run.ring.first (i + 1 - run.ring.first)).flatMap run.line).length ≤ room →
          i < next := by
  obtain ⟨-, hle, hfirst, hcount, -⟩ := first_le hflushed
  obtain ⟨next, heq, hlow, hhigh, hroom⟩ :=
    @copyLines_spec _ h room (run.ring.written - run.ring.first)
    run.ring.first [] (by omega) hfirst
  refine ⟨next, ?_, hlow, hhigh, fun i hi hle hfits => hroom i hi hle hfits⟩
  have hunflushed : unflushed run.ring.written run.ring.flushed events
      = (run.ring.first, run.ring.written - run.ring.first) := Prod.ext rfl hcount
  rw [Ring.copyInto, hunflushed]
  dsimp only
  rw [heq, List.nil_append]

/-! ### What a run keeps -/

/-- The line was overwritten before the flush that first reached past it. -/
def Lost (boot : ℕ) (ops : List RingOp) (i : ℕ) : Prop :=
  ∃ before room after, ops = before ++ .copyInto room :: after
    ∧ (Run.after boot before).ring.flushed ≤ i
    ∧ i < (Run.after boot (before ++ [.copyInto room])).ring.flushed
    ∧ i + events < (Run.after boot before).ring.written

/-- What holds after any use of the ring. -/
structure Run.Tracks (boot : ℕ) (ops : List RingOp) (run : Run) : Prop where
  holds : run.Holds
  flushed : run.ring.flushed ≤ run.ring.written
  /-- What was given are the lines handed over, whole, -/
  out : run.out = run.handed.flatMap run.line
  /-- in order and once, -/
  sorted : run.handed.Pairwise (· < ·)
  /-- which are all the flushes came by, but those lost. -/
  handed : ∀ i, i ∈ run.handed ↔ i < run.ring.flushed ∧ ¬Lost boot ops i
  lost : ∀ i, Lost boot ops i → i < run.ring.flushed

lemma tracks_start (boot : ℕ) : (Run.start boot).Tracks boot [] := by
  have hnone : ∀ i, ¬Lost boot [] i := by
    rintro i ⟨before, room, after, hops, -⟩
    simp at hops
  refine ⟨⟨rfl, fun i hi => absurd hi (Nat.not_lt_zero _)⟩, le_refl _, rfl, .nil, fun i => ?_,
    fun i hlost => absurd hlost (hnone i)⟩
  exact ⟨nofun, fun h => absurd h.1 (Nat.not_lt_zero _)⟩

lemma lost_snoc {boot : ℕ} {ops : List RingOp} {op : RingOp} {i : ℕ} :
    Lost boot (ops ++ [op]) i ↔ Lost boot ops i
      ∨ ∃ room, op = .copyInto room ∧ (Run.after boot ops).ring.flushed ≤ i
        ∧ i < (Run.after boot (ops ++ [op])).ring.flushed
        ∧ i + events < (Run.after boot ops).ring.written := by
  constructor
  · rintro ⟨before, room, after, hops, hrest⟩
    rcases List.eq_nil_or_concat' after with rfl | ⟨after, last, rfl⟩
    · obtain ⟨rfl, hop⟩ := List.append_inj' hops rfl
      rw [List.cons.injEq] at hop
      obtain ⟨rfl, -⟩ := hop
      exact .inr ⟨room, rfl, hrest⟩
    · rw [← List.cons_append, ← List.append_assoc] at hops
      obtain ⟨rfl, -⟩ := List.append_inj' hops rfl
      exact .inl ⟨before, room, after, rfl, hrest⟩
  · rintro (⟨before, room, after, rfl, hrest⟩ | ⟨room, rfl, hrest⟩)
    · exact ⟨before, room, after ++ [op], by simp, hrest⟩
    · exact ⟨ops, room, [], rfl, hrest⟩

/-- The line after the others is not yet there. -/
lemma line_append {run : Run} {ring : Ring} {text : List UInt8} {i : ℕ}
    (h : i < run.lines.length) :
    Run.line { run with ring := ring, lines := run.lines ++ [text] } i = run.line i := by
  simp [Run.line, List.getD_eq_getElem?_getD, List.getElem?_append_left h]

/-- What recording a line does to the ring. -/
lemma writeLine_spec (ring : Ring) (ticks : ℕ) (what : What) (detail : ℕ) (second : Option ℕ)
    (name text : List UInt8)
    (htext : text = (fields ring.boot ticks what detail second name).flatten.take lineBytes) :
    (ring.writeLine ticks what detail second name).written = ring.written + 1
      ∧ (ring.writeLine ticks what detail second name).flushed = ring.flushed
      ∧ ((ring.writeLine ticks what detail second name).lines (ring.written % events)).text = text
      ∧ ((ring.writeLine ticks what detail second name).lines (ring.written % events)).len
        = text.length
      ∧ ∀ slot, slot ≠ ring.written % events →
        (ring.writeLine ticks what detail second name).lines slot = ring.lines slot := by
  have hline : ((ring.writeLine ticks what detail second name).lines (ring.written % events)).text
      = text := by
    rw [Ring.writeLine]
    dsimp only
    rw [Function.update_self, htext]
    exact formatLine_text _ _ _ _ _ _ _
  have hlen : ((ring.writeLine ticks what detail second name).lines (ring.written % events)).len
      ≤ 72 := by
    rw [Ring.writeLine]
    dsimp only
    rw [Function.update_self]
    exact formatLine_len _ _ _ _ _ _ _
  refine ⟨rfl, rfl, hline, ?_, fun slot hslot => Function.update_of_ne hslot _ _⟩
  rw [← hline, Line.text, List.length_take, List.length_ofFn, Nat.min_eq_left hlen]

/-- Recording a line keeps what was so. -/
lemma tracks_write {boot : ℕ} {ops : List RingOp} (h : (Run.after boot ops).Tracks boot ops)
    (ticks : ℕ) (what : What) (detail : ℕ) (second : Option ℕ) (name : List UInt8) :
    (Run.after boot (ops ++ [.write ticks what detail second name])).Tracks boot
      (ops ++ [.write ticks what detail second name]) := by
  have hlost : ∀ i, Lost boot (ops ++ [.write ticks what detail second name]) i
      ↔ Lost boot ops i := by
    intro i
    rw [lost_snoc]
    exact ⟨fun h => h.resolve_right (by rintro ⟨room, hop, -⟩; cases hop), .inl⟩
  rw [Run.after_snoc]
  generalize Run.after boot ops = run at h
  rw [Run.step]
  obtain ⟨hring, hkept, htext, hlen, hother⟩ :=
    writeLine_spec run.ring ticks what detail second name _ rfl
  generalize run.ring.writeLine ticks what detail second name = ring at *
  generalize (fields run.ring.boot ticks what detail second name).flatten.take
    lineBytes = text at *
  have hwritten := h.holds.written
  have hflushed := h.flushed
  have hevents : events = 128 := rfl
  refine ⟨⟨?_, fun i hi hnew => ?_⟩, ?_, ?_, h.sorted, fun i => ?_, fun i hi => ?_⟩
  · simp only [List.length_append, List.length_singleton]
    omega
  · simp only at hi hnew ⊢
    by_cases hlast : i = run.ring.written
    · have hline : Run.line { run with ring := ring, lines := run.lines ++ [text] } i = text := by
        simp [Run.line, hlast, hwritten]
      rw [hline, hlast]
      exact ⟨htext, hlen⟩
    · have hne : i % events ≠ run.ring.written % events := by
        intro hsame
        rw [hevents] at hsame hnew
        omega
      rw [hother _ hne, line_append (by omega)]
      exact h.holds.line i (by omega) (by omega)
  · simp only
    omega
  · simp only [h.out]
    refine List.flatMap_congr fun i hi => ?_
    have hin := ((h.handed i).mp hi).1
    exact (@line_append run ring text i (by omega)).symm
  · simp only [hlost, hkept]
    exact h.handed i
  · simp only [hkept]
    exact h.lost i ((hlost i).mp hi)

/-- So does a flush. -/
lemma tracks_copyInto {boot : ℕ} {ops : List RingOp} (h : (Run.after boot ops).Tracks boot ops)
    (room : ℕ) : (Run.after boot (ops ++ [.copyInto room])).Tracks boot
      (ops ++ [.copyInto room]) := by
  have hsnoc := Run.after_snoc boot ops (.copyInto room)
  have hlost := fun i => @lost_snoc boot ops (.copyInto room) i
  rw [hsnoc] at hlost ⊢
  generalize Run.after boot ops = run at h hlost
  obtain ⟨next, hcopy, hlow, hhigh, -⟩ := copyInto_spec h.holds h.flushed room
  obtain ⟨hfirst, -, hnew, -, hbehind⟩ := first_le h.flushed
  have hstep : run.step (.copyInto room) = { run with
      ring := { run.ring with flushed := next }
      out := run.out ++ (List.range' run.ring.first (next - run.ring.first)).flatMap run.line
      handed := run.handed ++ List.range' run.ring.first (next - run.ring.first) } := by
    rw [Run.step, hcopy]
  rw [hstep] at hlost ⊢
  -- lost now are the lines that were overwritten before this flush
  have hgone : ∀ i, Lost boot (ops ++ [.copyInto room]) i ↔
      Lost boot ops i ∨ run.ring.flushed ≤ i ∧ i < run.ring.first := by
    intro i
    rw [hlost]
    refine or_congr_right ⟨?_, fun ⟨hle, hlt⟩ => ⟨room, rfl, hle, ?_, ?_⟩⟩
    · rintro ⟨room', -, hle, -, hold⟩
      exact ⟨hle, by omega⟩
    · simp only
      omega
    · have := hbehind (by omega)
      omega
  refine ⟨⟨h.holds.written, h.holds.line⟩, hhigh, ?_, ?_, fun i => ?_, fun i hi => ?_⟩
  · simp only [h.out, List.flatMap_append]
    rfl
  -- what is handed out now comes after all that was handed out before
  · refine List.pairwise_append.mpr ⟨h.sorted, List.pairwise_lt_range', fun i hi j hj => ?_⟩
    have hin := ((h.handed i).mp hi).1
    have hout := (List.mem_range'_1.mp hj).1
    omega
  · simp only [List.mem_append, h.handed, List.mem_range'_1, hgone]
    constructor
    · rintro (⟨hin, hkept⟩ | ⟨hle, hlt⟩)
      · exact ⟨by omega, by rintro (hl | hl); exacts [hkept hl, by omega]⟩
      · refine ⟨by omega, ?_⟩
        rintro (hl | hl)
        · have := h.lost i hl
          omega
        · omega
    · rintro ⟨hlt, hkept⟩
      simp only [not_or, not_and, not_lt] at hkept
      by_cases hin : i < run.ring.flushed
      · exact .inl ⟨hin, hkept.1⟩
      · exact .inr ⟨hkept.2 (by omega), by omega⟩
  · simp only
    rcases (hgone i).mp hi with hl | hl
    · have := h.lost i hl
      omega
    · omega

lemma tracks (boot : ℕ) (ops : List RingOp) : (Run.after boot ops).Tracks boot ops := by
  induction ops using List.reverseRecOn with
  | nil => exact tracks_start boot
  | append_singleton ops op ih =>
      cases op with
      | write ticks what detail second name => exact tracks_write ih ticks what detail second name
      | copyInto room => exact tracks_copyInto ih room

/-- **The ring hands out each line once, in order.** After any use of it, all that flushes gave is
the text of some of the lines recorded, whole and in the order they were recorded; of the lines
flushes have come by, those missing are exactly the ones that were more than `events` behind the
newest when a flush first reached past them; and a line that is still in the ring comes with the
next flush that has room for it and those before it. -/
theorem ring_handsOut (boot : ℕ) (ops : List RingOp) :
    let run := Run.after boot ops
    run.out = run.handed.flatMap run.line
      ∧ run.handed.Pairwise (· < ·)
      ∧ (∀ i, i ∈ run.handed ↔ i < run.ring.flushed ∧ ¬Lost boot ops i)
      ∧ run.ring.flushed ≤ run.lines.length
      ∧ ∀ i, run.ring.flushed ≤ i → i < run.lines.length → run.lines.length ≤ i + events →
        ∀ room, ((List.range' run.ring.first (i + 1 - run.ring.first)).flatMap run.line).length
          ≤ room →
          i ∈ (run.step (.copyInto room)).handed := by
  intro run
  have h : run.Tracks boot ops := tracks boot ops
  clear_value run
  have hwritten := h.holds.written
  refine ⟨h.out, h.sorted, h.handed, by rw [← hwritten]; exact h.flushed,
    fun i hle hlt hnew room hroom => ?_⟩
  obtain ⟨next, hcopy, hlow, -, htaken⟩ := copyInto_spec h.holds h.flushed room
  obtain ⟨-, -, -, -, hbehind⟩ := first_le h.flushed
  have hfirst : run.ring.first ≤ i := by
    by_contra hpast
    have := hbehind (by omega)
    omega
  have hin := htaken i (by omega) hfirst hroom
  rw [Run.step, hcopy]
  refine List.mem_append_right _ (List.mem_range'_1.mpr ⟨hfirst, ?_⟩)
  simp only
  omega

end Harlan.Events
