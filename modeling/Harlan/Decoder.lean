import Harlan.Keyboard
import Harlan.Switching

/-! Keys from scancodes (`arch/x86_64/src/keyboard.rs`): the decoder, the interrupt that feeds the
queue and the reader that drains it.

* `Decoder.feed`: one scancode; `decode`: a stream of them.
* `KeyEvent`: what a person does to a keyboard, and the scancodes it sends for it.
* `heard`: the keys of a history of events, by which keys were held.
* `decode_events`: the decoder hears them.
* `Pipeline`: the controller, the interrupt's handler, the queue and the reader, in any order of
  steps.
* `keys_in_order`: the reader's keys are those of the events, in order, over all runs.
-/

namespace Harlan.Keyboard

open Turns (ConsoleKey)

/-! ### Scancodes -/

/-- The byte that announces an extended key. -/
def prefixExtended : UInt8 := 0xE0

/-- The bit that tells a release from a press. -/
def breakBit : UInt8 := 0x80

/-- The make code of Backspace. -/
def scBackspace : UInt8 := 0x0E

/-- The make code of Enter. -/
def scEnter : UInt8 := 0x1C

/-- The make code of the left Shift. -/
def scLeftShift : UInt8 := 0x2A

/-- The make code of the right Shift. -/
def scRightShift : UInt8 := 0x36

/-- `KEY_TABLE`: by make code, the character without Shift and the one with it, and zeros for a
key that has none. -/
def keyTable : List (UInt8 × UInt8) :=
  [(0, 0), (0, 0),
    -- the digits, the minus and the equals sign
    (0x31, 0x21), (0x32, 0x40), (0x33, 0x23), (0x34, 0x24), (0x35, 0x25), (0x36, 0x5E),
    (0x37, 0x26), (0x38, 0x2A), (0x39, 0x28), (0x30, 0x29), (0x2D, 0x5F), (0x3D, 0x2B),
    -- Backspace and Tab
    (0, 0), (0, 0),
    -- the row of `q`, to the brackets
    (0x71, 0x51), (0x77, 0x57), (0x65, 0x45), (0x72, 0x52), (0x74, 0x54), (0x79, 0x59),
    (0x75, 0x55), (0x69, 0x49), (0x6F, 0x4F), (0x70, 0x50), (0x5B, 0x7B), (0x5D, 0x7D),
    -- Enter and the left Ctrl
    (0, 0), (0, 0),
    -- the row of `a`, to the quote and the backquote
    (0x61, 0x41), (0x73, 0x53), (0x64, 0x44), (0x66, 0x46), (0x67, 0x47), (0x68, 0x48),
    (0x6A, 0x4A), (0x6B, 0x4B), (0x6C, 0x4C), (0x3B, 0x3A), (0x27, 0x22), (0x60, 0x7E),
    -- the left Shift
    (0, 0),
    -- the backslash and the row of `z`, to the slash
    (0x5C, 0x7C), (0x7A, 0x5A), (0x78, 0x58), (0x63, 0x43), (0x76, 0x56), (0x62, 0x42),
    (0x6E, 0x4E), (0x6D, 0x4D), (0x2C, 0x3C), (0x2E, 0x3E), (0x2F, 0x3F),
    -- the right Shift, the star of the keypad and the left Alt
    (0, 0), (0, 0), (0, 0),
    (0x20, 0x20)]

/-- The key of a make code, with Shift or without. -/
def keyOf (shifted : Bool) (make : UInt8) : ConsoleKey :=
  match keyTable[make.toNat]? with
  | some (unshifted, shiftedChar) =>
      if unshifted ≠ 0 then
        .char (Char.ofNat (if shifted then shiftedChar else unshifted).toNat) else .unknown
  | none => .unknown

/-- What has to be remembered between two scancodes. -/
structure Decoder where
  leftShift : Bool
  rightShift : Bool
  /-- The byte before was the prefix of an extended key. -/
  expectingExtended : Bool
deriving DecidableEq

namespace Decoder

/-- A decoder before the first byte: no Shift is held. -/
def new : Decoder := ⟨false, false, false⟩

/-- One scancode, and the key it completes. -/
def feed (decoder : Decoder) (scancode : UInt8) : Option ConsoleKey × Decoder :=
  if scancode = prefixExtended then (none, { decoder with expectingExtended := true })
  else
    let extended := decoder.expectingExtended
    let decoder := { decoder with expectingExtended := false }
    let released : Bool := scancode &&& breakBit ≠ 0
    let make := scancode &&& ~~~breakBit
    if extended then (if released then none else some .unknown, decoder)
    else if make = scLeftShift then (none, { decoder with leftShift := !released })
    else if make = scRightShift then (none, { decoder with rightShift := !released })
    else if released then (none, decoder)
    else if make = scBackspace then (some .backspace, decoder)
    else if make = scEnter then (some .enter, decoder)
    else (some (keyOf (decoder.leftShift || decoder.rightShift) make), decoder)

/-- A stream of scancodes, and the keys it completes. -/
def decode (decoder : Decoder) : List UInt8 → List ConsoleKey × Decoder
  | [] => ([], decoder)
  | scancode :: rest =>
      let (key, decoder) := decoder.feed scancode
      let (keys, decoder) := decoder.decode rest
      (key.toList ++ keys, decoder)

lemma decode_append (decoder : Decoder) (scancodes rest : List UInt8) :
    decoder.decode (scancodes ++ rest) =
      ((decoder.decode scancodes).1 ++ ((decoder.decode scancodes).2.decode rest).1,
        ((decoder.decode scancodes).2.decode rest).2) := by
  induction scancodes generalizing decoder with
  | nil => rfl
  | cons scancode scancodes ih => simp [decode, ih]

end Decoder

/-! ### What a person does -/

/-- What a person does to a key, by its make code. -/
inductive KeyEvent where
  | press (make : UInt8)
  | release (make : UInt8)
  /-- An extended key: the arrows, Delete and their like, and the Shift that some keyboards
  pretend is pressed around them. -/
  | pressExtended (make : UInt8)
  | releaseExtended (make : UInt8)
deriving DecidableEq

namespace KeyEvent

/-- The make code of the key that an event is about. -/
def make : KeyEvent → UInt8
  | .press make => make
  | .release make => make
  | .pressExtended make => make
  | .releaseExtended make => make

/-- What the controller sends for it (scancode set 1). -/
def scancodes : KeyEvent → List UInt8
  | .press make => [make]
  | .release make => [make ||| breakBit]
  | .pressExtended make => [prefixExtended, make]
  | .releaseExtended make => [prefixExtended, make ||| breakBit]

/-- A make code has seven bits, and its release is not the prefix of an extended key. -/
def Proper (event : KeyEvent) : Prop :=
  event.make < breakBit ∧ event.make ||| breakBit ≠ prefixExtended

end KeyEvent

/-- Whether a key is held, after some events: the last thing done to it was to press it. -/
def held (make : UInt8) (before : List KeyEvent) : Bool :=
  before.reverse.find? (fun event => event = .press make ∨ event = .release make)
    = some (.press make)

/-- What is heard of an event, after some others. -/
def heardOf (before : List KeyEvent) : KeyEvent → Option ConsoleKey
  | .press make =>
      if make = scLeftShift ∨ make = scRightShift then none
      else if make = scBackspace then some .backspace
      else if make = scEnter then some .enter
      else some (keyOf (held scLeftShift before || held scRightShift before) make)
  | .pressExtended _ => some .unknown
  | _ => none

/-- The keys of some events, after some others. -/
def heardAfter (before : List KeyEvent) : List KeyEvent → List ConsoleKey
  | [] => []
  | event :: events => (heardOf before event).toList ++ heardAfter (before ++ [event]) events

/-- The keys of a history of events. -/
def heard (events : List KeyEvent) : List ConsoleKey := heardAfter [] events

/-! ### The decoder hears what is typed -/

/-- The bits of a make code, and of its release. -/
lemma bits_of_make {make : UInt8} (h : make < breakBit) :
    make ≠ prefixExtended ∧ make &&& breakBit = 0 ∧ make &&& ~~~breakBit = make ∧
      (make ||| breakBit) &&& breakBit ≠ 0 ∧ (make ||| breakBit) &&& ~~~breakBit = make := by
  have hall : ∀ n : Fin 128, UInt8.ofNat n ≠ prefixExtended ∧ UInt8.ofNat n &&& breakBit = 0 ∧
      UInt8.ofNat n &&& ~~~breakBit = UInt8.ofNat n
        ∧ (UInt8.ofNat n ||| breakBit) &&& breakBit ≠ 0 ∧
      (UInt8.ofNat n ||| breakBit) &&& ~~~breakBit = UInt8.ofNat n := by
    decide +kernel
  have hmake := hall ⟨make.toNat, UInt8.lt_iff_toNat_lt.mp h⟩
  rwa [UInt8.ofNat_toNat] at hmake

@[simp] lemma held_concat (make : UInt8) (before : List KeyEvent) (event : KeyEvent) :
    held make (before ++ [event]) =
      if event = .press make then
        true else if event = .release make then false else held make before := by
  rw [held, held, List.reverse_append, List.reverse_singleton, List.singleton_append,
    List.find?_cons]
  by_cases hpress : event = .press make
  · simp [hpress]
  · by_cases hrelease : event = .release make
    · simp [hrelease]
    · simp [hpress, hrelease]

/-- The decoder after some events. -/
def Decoder.after (before : List KeyEvent) : Decoder :=
  ⟨held scLeftShift before, held scRightShift before, false⟩

/-- A scancode that is no prefix, where no prefix came before. -/
lemma feed_after {before : List KeyEvent} {scancode make : UInt8}
    (hplain : scancode ≠ prefixExtended) (hmake : scancode &&& ~~~breakBit = make) :
    (Decoder.after before).feed scancode =
      if make = scLeftShift then
        (none, ⟨decide (scancode &&& breakBit = 0), held scRightShift before, false⟩)
      else if make = scRightShift then
        (none, ⟨held scLeftShift before, decide (scancode &&& breakBit = 0), false⟩)
      else if scancode &&& breakBit ≠ 0 then (none, .after before)
      else if make = scBackspace then (some .backspace, .after before)
      else if make = scEnter then (some .enter, .after before)
      else
        (some (keyOf (held scLeftShift before || held scRightShift before) make),
          .after before) := by
  rw [Decoder.feed, if_neg hplain]
  simp only [Decoder.after, hmake, Bool.false_eq_true, if_false, decide_eq_true_eq]
  simp only [ne_eq, decide_not, Bool.not_not]

/-- An extended key is heard as one that is not known, and leaves no key held. -/
lemma feed_extended {before : List KeyEvent} {scancode : UInt8}
    (hplain : scancode ≠ prefixExtended) :
    (Decoder.after before).decode [prefixExtended, scancode] =
      ((if scancode &&& breakBit ≠ 0 then none else some ConsoleKey.unknown).toList,
        .after before) := by
  have hfirst : (Decoder.after before).feed prefixExtended
      = (none, { Decoder.after before with expectingExtended := true }) := by
    rw [Decoder.feed, if_pos rfl]
  have hsecond : ({ Decoder.after before with expectingExtended := true } : Decoder).feed scancode
      = (if scancode &&& breakBit ≠ 0 then none else some .unknown, .after before) := by
    rw [Decoder.feed, if_neg hplain]
    simp [Decoder.after]
  simp only [Decoder.decode, hfirst, hsecond, Option.toList_none, List.nil_append,
    List.append_nil]

lemma decode_singleton (decoder : Decoder) (scancode : UInt8) :
    decoder.decode [scancode]
      = ((decoder.feed scancode).1.toList, (decoder.feed scancode).2) := by
  simp [Decoder.decode]

/-- A press that is neither of the Shifts holds neither of them. -/
lemma after_other {before : List KeyEvent} {event : KeyEvent} (hleft : event ≠ .press scLeftShift)
    (hleft' : event ≠ .release scLeftShift) (hright : event ≠ .press scRightShift)
    (hright' : event ≠ .release scRightShift) :
    Decoder.after (before ++ [event]) = .after before := by
  simp [Decoder.after, hleft, hleft', hright, hright']

lemma feed_press (before : List KeyEvent) {make : UInt8} (h : make < breakBit) :
    (Decoder.after before).feed make =
    (heardOf before (.press make), .after (before ++ [.press make])) := by
  obtain ⟨hplain, hbit, hmake, -, -⟩ := bits_of_make h
  have hne : scLeftShift ≠ scRightShift := by decide
  rw [feed_after hplain hmake]
  by_cases hleft : make = scLeftShift
  · subst hleft
    simp [heardOf, Decoder.after, hbit, hne]
  · by_cases hright : make = scRightShift
    · subst hright
      simp [heardOf, Decoder.after, hbit, hne.symm]
    · rw [if_neg hleft, if_neg hright, if_neg (not_not.mpr hbit),
        after_other (by simpa using hleft) (by simp)
        (by simpa using hright) (by simp), heardOf, if_neg (not_or.mpr ⟨hleft, hright⟩)]
      split_ifs <;> rfl

lemma feed_release (before : List KeyEvent) {make : UInt8} (h : make < breakBit)
    (hplain : make ||| breakBit ≠ prefixExtended) :
    (Decoder.after before).feed (make ||| breakBit) =
    (none, .after (before ++ [.release make])) := by
  obtain ⟨-, -, -, hbit, hmake⟩ := bits_of_make h
  have hne : scLeftShift ≠ scRightShift := by decide
  rw [feed_after hplain hmake]
  by_cases hleft : make = scLeftShift
  · subst hleft
    simp [Decoder.after, hbit, hne]
  · by_cases hright : make = scRightShift
    · subst hright
      simp [Decoder.after, hbit, hne.symm]
    · rw [if_neg hleft, if_neg hright, if_pos hbit,
        after_other (by simp) (by simpa using hleft) (by simp)
        (by simpa using hright)]

/-- What one event does. -/
lemma decode_event (before : List KeyEvent) {event : KeyEvent} (h : event.Proper) :
    (Decoder.after before).decode event.scancodes
      = ((heardOf before event).toList, .after (before ++ [event])) := by
  obtain ⟨hlt, hrelease⟩ := h
  obtain ⟨hplain, hbit, -, hbit', -⟩ := bits_of_make hlt
  cases event with
  | press make =>
      dsimp only [KeyEvent.make] at hlt
      rw [KeyEvent.scancodes, decode_singleton, feed_press before hlt]
  | release make =>
      dsimp only [KeyEvent.make] at hlt hrelease
      rw [KeyEvent.scancodes, decode_singleton, feed_release before hlt hrelease]
      rfl
  | pressExtended make =>
      dsimp only [KeyEvent.make] at hplain hbit
      rw [KeyEvent.scancodes, feed_extended hplain, if_neg (not_not.mpr hbit),
        after_other (by simp) (by simp) (by simp) (by simp)]
      rfl
  | releaseExtended make =>
      dsimp only [KeyEvent.make] at hrelease hbit'
      rw [KeyEvent.scancodes, feed_extended hrelease, if_pos hbit',
        after_other (by simp) (by simp) (by simp) (by simp)]
      rfl

lemma decode_after (before : List KeyEvent) {events : List KeyEvent}
    (h : ∀ event ∈ events, event.Proper) :
    (Decoder.after before).decode (events.flatMap KeyEvent.scancodes)
      = (heardAfter before events, .after (before ++ events)) := by
  induction events generalizing before with
  | nil => rw [List.flatMap_nil, Decoder.decode, heardAfter, List.append_nil]
  | cons event events ih =>
      rw [List.forall_mem_cons] at h
      rw [List.flatMap_cons, Decoder.decode_append, decode_event before h.1, ih _ h.2, heardAfter,
        List.append_assoc, List.singleton_append]

/-- A decoder that is new hears what is typed: each key by whether a Shift is held then, and the
Shifts, the releases and the extended keys for what they are. -/
lemma decode_events {events : List KeyEvent} (h : ∀ event ∈ events, event.Proper) :
    (Decoder.new.decode (events.flatMap KeyEvent.scancodes)).1 = heard events := by
  have hnew : Decoder.new = .after [] := rfl
  rw [hnew, decode_after [] h, heard]

/-! ### The controller, the interrupt and the reader -/

/-- The bit of the status port that says that a byte waits. -/
def statusOutputFull : UInt8 := (1 : UInt8) <<< 0

/-- The byte that waits came from the mouse. -/
def statusAuxData : UInt8 := (1 : UInt8) <<< 5

/-- How many bytes the handler moves at most. -/
def drainLimit : ℕ := 16

/-- A byte that waits in the controller, and whether it is the mouse's. -/
structure Waiting where
  aux : Bool
  byte : UInt8

/-- The status register. -/
def status : List Waiting → UInt8
  | [] => 0
  | waiting :: _ => statusOutputFull ||| (if waiting.aux then statusAuxData else 0)

/-- Everything between the controller and the console. -/
structure Pipeline where
  world : World
  waiting : List Waiting
  /-- The turns that the handler has left, while it runs. -/
  handler : Option ℕ
  decoder : Decoder
  /-- What the calls of `read_key` have answered. -/
  answers : List (Option ConsoleKey)

namespace Pipeline

/-- A decoder before the first byte: no Shift is held. -/
def new (slots : Fin queueCapacity → UInt8) (start : UInt64) : Pipeline :=
  ⟨World.new slots start, [], none, .new, []⟩

/-- A turn of `on_irq`, up to the push of what it read. -/
def turn (p : Pipeline) : ℕ → Pipeline
  | 0 => { p with handler := none }
  | left + 1 =>
      if status p.waiting &&& statusOutputFull = 0 then { p with handler := none }
      else
        match p.waiting with
        | [] => { p with handler := none }
        | first :: rest =>
            { p with
              waiting := rest
              handler := some left
              world := if status p.waiting &&& statusAuxData
                = 0 then p.world.stepProducer first.byte else p.world }

/-- A step of the handler: of the push it makes, or its next turn. -/
def handles (p : Pipeline) : Pipeline :=
  match p.handler with
  | none => p
  | some left =>
      match p.world.producer with
      | .idle => p.turn left
      | _ => { p with world := p.world.stepProducer 0 }

/-- A step of `read_key`, which pops until a key is complete. -/
def reads (p : Pipeline) : Pipeline :=
  match p.world.consumer with
  | .loaded head =>
      { p with
        world := p.world.stepConsumer
        answers := if head = p.world.queue.tail then p.answers ++ [none] else p.answers }
  | .releasing _ scancode =>
      { p with
        world := p.world.stepConsumer
        decoder := (p.decoder.feed scancode).2
        answers := p.answers ++ (p.decoder.feed scancode).1.toList.map some }
  | _ => { p with world := p.world.stepConsumer }

/-- What happens. -/
inductive Step where
  /-- The keyboard or the mouse sends a byte. -/
  | arrives (waiting : Waiting)
  /-- The controller raises its line; a handler that runs is not interrupted by itself. -/
  | interrupts
  | handles
  | reads

/-- One step of the keyboard, of its handler or of the shell. -/
def step (p : Pipeline) : Step → Pipeline
  | .arrives waiting => { p with waiting := p.waiting ++ [waiting] }
  | .interrupts => if p.handler = none then { p with handler := some drainLimit } else p
  | .handles => p.handles
  | .reads => p.reads

/-- A run from `p`, one step after the other. -/
def run (p : Pipeline) (steps : List Step) : Pipeline := steps.foldl step p

lemma run_concat (p : Pipeline) (steps : List Step) (next : Step) :
    p.run (steps ++ [next]) = (p.run steps).step next := by
  rw [run, run, List.foldl_append, List.foldl_cons, List.foldl_nil]

/-- What `read_key` has given. -/
def keys (p : Pipeline) : List ConsoleKey := p.answers.filterMap id

end Pipeline

/-- The bytes that the keyboard sent. -/
def arrived (steps : List Pipeline.Step) : List UInt8 :=
  steps.filterMap fun
    | .arrives ⟨false, byte⟩ => some byte
    | _ => none

/-- The scancodes of the pushes that have returned, in order. -/
def offered (returned : List Returned) : List UInt8 :=
  returned.filterMap fun
    | .pushed scancode => some scancode
    | .refused scancode _ _ => some scancode
    | _ => none

/-- The scancode of the push that is going on. -/
def Producer.inFlight : Producer → List UInt8
  | .idle => []
  | .loaded scancode _ => [scancode]
  | .storing scancode _ => [scancode]
  | .publishing scancode _ => [scancode]

/-- The bytes of the keyboard among those that wait. -/
def typedBytes (waiting : List Waiting) : List UInt8 :=
  waiting.filterMap fun w => if w.aux then none else some w.byte

/-- What holds between any two steps: the queue is sound, the reader has decoded what it popped,
and every byte of the keyboard was offered to the queue, is about to be, or waits. -/
structure Pipeline.Sound (start : UInt64) (p : Pipeline) (bytes : List UInt8) : Prop where
  queue : ∃ outstanding, Keyboard.Sound start p.world outstanding
  decoded : Decoder.new.decode (taken p.world.returned) = (p.keys, p.decoder)
  order : bytes = offered p.world.returned ++ p.world.producer.inFlight ++ typedBytes p.waiting

@[simp] lemma offered_concat (returned : List Returned) (result : Returned) :
    offered (returned ++ [result]) = offered returned ++
      (match result with
        | .pushed scancode => [scancode]
        | .refused scancode _ _ => [scancode]
        | _ => []) := by
  rw [offered, List.filterMap_append]
  cases result <;> rfl

/-- The push that is going on goes on with the same scancode, and is offered when it returns. -/
lemma stepProducer_order {w : World} (h : w.producer ≠ .idle) (next : UInt8) :
    offered (w.stepProducer next).returned ++ (w.stepProducer next).producer.inFlight
        = offered w.returned ++ w.producer.inFlight ∧
      taken (w.stepProducer next).returned = taken w.returned := by
  rw [World.stepProducer]
  cases hstate : w.producer with
  | idle => exact absurd hstate h
  | loaded scancode tail =>
      dsimp only
      split_ifs <;> simp [Producer.inFlight]
  | storing scancode tail => exact ⟨rfl, rfl⟩
  | publishing scancode tail => simp [Producer.inFlight]

/-- A push that begins. -/
lemma stepProducer_idle {w : World} (h : w.producer = .idle) (next : UInt8) :
    (w.stepProducer next).returned = w.returned ∧ (w.stepProducer next).producer.inFlight =
    [next] := by
  rw [World.stepProducer, h]
  exact ⟨rfl, rfl⟩

lemma stepConsumer_order (w : World) :
    offered w.stepConsumer.returned = offered w.returned ∧ w.stepConsumer.producer
      = w.producer := by
  rw [World.stepConsumer]
  cases hstate : w.consumer with
  | loaded head =>
      dsimp only
      split_ifs <;> simp
  | releasing head scancode => simp
  | _ => exact ⟨rfl, rfl⟩

/-- A byte waits as long as the status says so, and is the mouse's if the status says so. -/
lemma status_cons (first : Waiting) (rest : List Waiting) :
    status (first :: rest) &&& statusOutputFull ≠ 0 ∧
      (status (first :: rest) &&& statusAuxData = 0 ↔ first.aux = false) := by
  rw [status]
  cases first.aux <;> decide

namespace Pipeline.Sound

variable {start : UInt64} {p : Pipeline} {bytes : List UInt8}

lemma turn (h : Pipeline.Sound start p bytes) (hproducer : p.world.producer = .idle) (left : ℕ) :
    Pipeline.Sound start (p.turn left) bytes := by
  obtain ⟨⟨outstanding, hqueue⟩, hdecoded, horder⟩ := h
  cases left with
  | zero => exact ⟨⟨outstanding, hqueue⟩, hdecoded, horder⟩
  | succ left =>
      rw [Pipeline.turn]
      cases hwaiting : p.waiting with
      | nil =>
          rw [hwaiting] at horder
          rw [status, if_pos (by decide)]
          exact ⟨⟨outstanding, hqueue⟩, hdecoded, horder⟩
      | cons first rest =>
          obtain ⟨hfull, haux⟩ := status_cons first rest
          rw [if_neg hfull]
          rw [hproducer, Producer.inFlight, hwaiting, List.append_nil, typedBytes,
            List.filterMap_cons] at horder
          dsimp only
          by_cases hmouse : first.aux = false
          · obtain ⟨hreturned, hflight⟩ := stepProducer_idle hproducer first.byte
            rw [if_pos (haux.mpr hmouse)]
            refine ⟨hqueue.stepProducer first.byte, ?_, ?_⟩
            · rw [hreturned]
              exact hdecoded
            · rw [hreturned, hflight, horder, hmouse]
              simp [typedBytes]
          · rw [if_neg (mt haux.mp hmouse)]
            refine ⟨⟨outstanding, hqueue⟩, hdecoded, ?_⟩
            rw [horder, hproducer, Producer.inFlight, List.append_nil]
            simp [typedBytes, hmouse]

lemma handles (h : Pipeline.Sound start p bytes) : Pipeline.Sound start p.handles bytes := by
  rw [Pipeline.handles]
  split
  · exact h
  · split
    · rename_i hidle
      exact h.turn hidle _
    · rename_i hgoing
      obtain ⟨⟨outstanding, hqueue⟩, hdecoded, horder⟩ := h
      obtain ⟨hsame, htaken⟩ := stepProducer_order hgoing 0
      refine ⟨hqueue.stepProducer 0, ?_, ?_⟩
      · rw [htaken]
        exact hdecoded
      · rw [hsame]
        exact horder

lemma reads (h : Pipeline.Sound start p bytes) : Pipeline.Sound start p.reads bytes := by
  obtain ⟨⟨outstanding, hqueue⟩, hdecoded, horder⟩ := h
  obtain ⟨hoffered, hproducer⟩ := stepConsumer_order p.world
  rw [← hoffered, ← hproducer] at horder
  have hqueue' := hqueue.stepConsumer
  rw [Pipeline.reads]
  cases hstate : p.world.consumer with
  | loaded head =>
      refine ⟨hqueue', ?_, horder⟩
      have htaken : taken p.world.stepConsumer.returned = taken p.world.returned := by
        rw [World.stepConsumer, hstate]
        dsimp only
        split_ifs <;> simp
      have hkeys : (if head = p.world.queue.tail then p.answers ++ [none]
          else p.answers).filterMap id
          = p.answers.filterMap id := by
        split_ifs <;> simp
      rw [htaken, hdecoded, Pipeline.keys, Pipeline.keys, hkeys]
  | releasing head scancode =>
      refine ⟨hqueue', ?_, horder⟩
      have htaken : taken p.world.stepConsumer.returned
          = taken p.world.returned ++ [scancode] := by
        rw [World.stepConsumer, hstate]
        simp
      rw [htaken, Decoder.decode_append, hdecoded, decode_singleton, Pipeline.keys, Pipeline.keys,
        List.filterMap_append]
      cases (p.decoder.feed scancode).1 <;> rfl
  | idle =>
      have htaken : taken p.world.stepConsumer.returned = taken p.world.returned := by
        rw [World.stepConsumer, hstate]
      exact ⟨hqueue', htaken ▸ hdecoded, horder⟩
  | reading head =>
      have htaken : taken p.world.stepConsumer.returned = taken p.world.returned := by
        rw [World.stepConsumer, hstate]
      exact ⟨hqueue', htaken ▸ hdecoded, horder⟩

/-- Any step, with what it brings. -/
lemma step (h : Pipeline.Sound start p bytes) (next : Pipeline.Step) :
    Pipeline.Sound start (p.step next) (bytes ++ arrived [next]) := by
  cases next with
  | arrives waiting =>
      obtain ⟨hqueue, hdecoded, horder⟩ := h
      refine ⟨hqueue, hdecoded, ?_⟩
      rw [horder, Pipeline.step, typedBytes, typedBytes, List.filterMap_append, List.append_assoc,
        List.append_assoc, List.append_assoc]
      obtain ⟨aux, byte⟩ := waiting
      cases aux <;> rfl
  | interrupts =>
      rw [show arrived [.interrupts] = [] from rfl, List.append_nil, Pipeline.step]
      split_ifs
      · exact ⟨h.queue, h.decoded, h.order⟩
      · exact h
  | handles =>
      rw [show arrived [.handles] = [] from rfl, List.append_nil]
      exact h.handles
  | reads =>
      rw [show arrived [.reads] = [] from rfl, List.append_nil]
      exact h.reads

end Pipeline.Sound

lemma Pipeline.sound_run (slots : Fin queueCapacity → UInt8) (start : UInt64)
    (steps : List Pipeline.Step) :
    Pipeline.Sound start ((Pipeline.new slots start).run steps) (arrived steps) := by
  induction steps using List.reverseRecOn with
  | nil => exact ⟨⟨[], sound_new slots start⟩, rfl, rfl⟩
  | append_singleton steps next ih =>
      rw [Pipeline.run_concat, arrived, List.filterMap_append]
      exact ih.step next

/-- Where nothing was refused, what was offered was accepted. -/
lemma offered_of_none_refused {returned : List Returned}
    (h : ∀ scancode tail head, .refused scancode tail head ∉ returned) :
    offered returned = accepted returned := by
  rw [offered, accepted]
  refine List.filterMap_congr fun result hresult => ?_
  cases result with
  | refused scancode tail head => exact absurd hresult (h scancode tail head)
  | _ => rfl

/-- No push was refused. -/
def noneRefused (returned : List Returned) : Bool :=
  returned.all fun
    | .refused _ _ _ => false
    | _ => true

lemma not_refused_of_noneRefused {returned : List Returned} (h : noneRefused returned = true)
    (scancode : UInt8) (tail head : UInt64) : .refused scancode tail head ∉ returned := by
  intro hrefused
  have hbad := List.all_eq_true.mp h _ hrefused
  cases hbad

/-- What the reader has not had yet are the keys of what still waits somewhere. -/
lemma Pipeline.heard_run (slots : Fin queueCapacity → UInt8) (start : UInt64)
    (steps : List Pipeline.Step) (events : List KeyEvent)
    (hproper : ∀ event ∈ events, event.Proper)
    (harrived : arrived steps = events.flatMap KeyEvent.scancodes) (hroom : ∀ scancode tail head,
      .refused scancode tail head ∉ ((Pipeline.new slots start).run steps).world.returned) :
    let p := (Pipeline.new slots start).run steps
    ∃ later, heard events = p.keys ++ later ∧
      (p.waiting = [] → p.world.producer = .idle → p.world.queue.head = p.world.queue.tail →
        later = []) := by
  intro p
  have h : Pipeline.Sound start p (arrived steps) := Pipeline.sound_run slots start steps
  obtain ⟨outstanding, hqueue⟩ := h.queue
  have horder := h.order
  rw [offered_of_none_refused hroom, hqueue.order, harrived, List.append_assoc,
    List.append_assoc] at horder
  have hheard := congrArg Prod.fst (Decoder.decode_append Decoder.new (taken p.world.returned)
    (outstanding ++ (p.world.producer.inFlight ++ typedBytes p.waiting)))
  rw [← horder, decode_events hproper, h.decoded] at hheard
  refine ⟨_, hheard, fun hwaiting hproducer hempty => ?_⟩
  rw [hqueue.empty_iff.mp hempty, hproducer, hwaiting]
  rfl

/-- **The keys come in order.** Whatever the queue's counters begin at, and however the bytes of
the keyboard and the mouse, the interrupts, the handler's steps and the reader's fall between one
another: as long as the queue was never full, the reader has had the first of the keys that were
typed, none changed, none twice and none out of its place; and all of them once nothing waits, in
the controller, the handler or the queue. -/
theorem keys_in_order (slots : Fin queueCapacity → UInt8) (start : UInt64)
    (steps : List Pipeline.Step) (events : List KeyEvent)
    (hproper : ∀ event ∈ events, event.Proper)
    (harrived : arrived steps = events.flatMap KeyEvent.scancodes) (hroom : ∀ scancode tail head,
      .refused scancode tail head ∉ ((Pipeline.new slots start).run steps).world.returned) :
    let p := (Pipeline.new slots start).run steps
    p.keys <+: heard events ∧
      (p.waiting = [] → p.world.producer = .idle → p.world.queue.head = p.world.queue.tail →
        p.keys = heard events) := by
  intro p
  obtain ⟨later, hheard, hnone⟩ :=
    Pipeline.heard_run slots start steps events hproper harrived hroom
  refine ⟨⟨later, hheard.symm⟩, fun hwaiting hproducer hempty => ?_⟩
  rw [hheard, hnone hwaiting hproducer hempty, List.append_nil]

/-- A capital: Shift, the key, and both let go. -/
def capital : List KeyEvent := [.press 0x2A, .press 0x1E, .release 0x1E, .release 0x2A]

/-- Its bytes come with one of the mouse's among them, and the reader asks while the handler
runs. -/
def capitalSteps : List Pipeline.Step :=
  List.flatten
    [[.arrives ⟨false, 0x2A⟩, .arrives ⟨true, 0x08⟩, .arrives ⟨false, 0x1E⟩, .interrupts],
      (List.replicate 9 ([.handles, .reads] : List Pipeline.Step)).flatten,
      [.arrives ⟨false, 0x9E⟩, .arrives ⟨false, 0xAA⟩, .interrupts],
      List.replicate 12 .handles, List.replicate 30 .reads]

theorem keys_in_order_capital :
    ((Pipeline.new (fun _ => 0) 0xFFFFFFFFFFFFFFFF).run capitalSteps).keys =
    [.char (Char.ofNat 0x41)] := by
  have hproper : ∀ event ∈ capital, event.Proper := by
    unfold KeyEvent.Proper
    decide
  exact ((keys_in_order (fun _ => 0) 0xFFFFFFFFFFFFFFFF capitalSteps capital hproper rfl
    (not_refused_of_noneRefused (by decide +kernel))).2 (by decide +kernel) (by decide +kernel)
    (by decide +kernel)).trans (by decide)

end Harlan.Keyboard
