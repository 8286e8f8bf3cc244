import Mathlib.Tactic

/-!
One message, waiting (`kernel/src/ipc.rs`).

* `Mailbox.deliver`, `Mailbox.takeInto`: what a mailbox accepts and what comes out of it.
* `Mailbox.contents`: the message that waits, as the receiver will see it.
* `contents_deliver`, `takeInto_ok`: a message comes out as it went in.
* `takeInto_error`: what is refused leaves the mailbox as it was.
-/

namespace Harlan

/-- The longest message. -/
def capacity : ℕ := 64

/-- What a receiver learns about the message it is handed. -/
structure Delivery where
  /-- Which slot sent it. -/
  sender : ℕ
  len : ℕ
deriving DecidableEq

/-- Why a message is not delivered. -/
inductive DeliverError where
  | busy
  | tooLong (capacity : ℕ)
  | empty
deriving DecidableEq

/-- Why no message is taken. -/
inductive TakeError where
  | nothing
  | tooLong (len : ℕ)
deriving DecidableEq

/-- Where a message waits for the process it was sent to. -/
structure Mailbox where
  bytes : Fin capacity → UInt8
  waiting : Option Delivery
  fits : ∀ delivery ∈ waiting, 0 < delivery.len ∧ delivery.len ≤ capacity

namespace Mailbox

/-- An empty mailbox. -/
def new : Mailbox := ⟨fun _ => 0, none, nofun⟩

/-- Whether no message waits. -/
def isEmpty (mailbox : Mailbox) : Bool := mailbox.waiting.isNone

/-- The bytes of a message over those of an earlier one. -/
def copied (bytes : Fin capacity → UInt8) (message : List UInt8) : Fin capacity →
      UInt8 := fun i =>
  message.getD i (bytes i)

/-- Puts `message` in, if there is room for it and nothing is there. -/
def deliver (mailbox : Mailbox) (sender : ℕ) (message : List UInt8) :
    Except DeliverError Delivery × Mailbox :=
  if hempty : message = [] then (.error .empty, mailbox)
  else if hlong : capacity < message.length then (.error (.tooLong capacity), mailbox)
  else if mailbox.waiting.isSome then (.error .busy, mailbox)
  else
    (.ok ⟨sender, message.length⟩,
      ⟨copied mailbox.bytes message, some ⟨sender, message.length⟩, by
      rintro _ ⟨⟩
      exact ⟨List.length_pos_iff.mpr hempty, Nat.not_lt.mp hlong⟩⟩)

/-- Takes what is waiting into a buffer with `room` bytes: what was waiting, and the bytes that
go into the buffer. -/
def takeInto (mailbox : Mailbox) (room : ℕ) :
    Except TakeError (Delivery × List UInt8) × Mailbox :=
  match mailbox.waiting with
  | none => (.error .nothing, mailbox)
  | some delivery =>
      if room < delivery.len then (.error (.tooLong delivery.len), mailbox)
      else
        (.ok (delivery, (List.ofFn mailbox.bytes).take delivery.len),
        ⟨mailbox.bytes, none, nofun⟩)

/-- The message that waits, with its sender: none or one. -/
def contents (mailbox : Mailbox) : List (ℕ × List UInt8) :=
  mailbox.waiting.toList.map fun delivery =>
    (delivery.sender, (List.ofFn mailbox.bytes).take delivery.len)

variable {mailbox mailbox' : Mailbox} {sender room : ℕ} {message bytes : List UInt8}
  {delivery : Delivery}

lemma contents_eq_nil : mailbox.contents = [] ↔ mailbox.isEmpty = true := by
  rw [contents, isEmpty]
  cases mailbox.waiting <;> simp

lemma take_copied (old : Fin capacity → UInt8) (h : message.length ≤ capacity) :
    (List.ofFn (copied old message)).take message.length = message := by
  refine List.ext_getElem ?_ fun i hi hi' => ?_
  · rw [List.length_take, List.length_ofFn]
    omega
  · rw [List.getElem_take, List.getElem_ofFn, copied]
    rw [List.getD_eq_getElem?_getD, List.getElem?_eq_getElem hi', Option.getD_some]

/-- What is delivered is what waits, alone. -/
lemma contents_deliver (h : mailbox.deliver sender message = (.ok delivery, mailbox')) :
    mailbox.contents = [] ∧ mailbox'.contents = [(sender, message)]
      ∧ 0 < message.length ∧ message.length ≤ capacity := by
  rw [deliver] at h
  split_ifs at h with hempty hlong hbusy
  · cases h
  · cases h
  · cases h
  · obtain ⟨-, rfl⟩ := Prod.mk.inj h
    have hlength := Nat.not_lt.mp hlong
    refine ⟨?_, ?_, ?_, hlength⟩
    · rw [contents_eq_nil, isEmpty, Option.isNone_iff_eq_none]
      simpa using hbusy
    · rw [contents]
      exact congrArg (fun bytes => [(sender, bytes)]) (take_copied _ hlength)
    · exact List.length_pos_iff.mpr hempty

/-- What is taken is what waited, and then nothing does. -/
lemma takeInto_ok (h : mailbox.takeInto room = (.ok (delivery, bytes), mailbox')) :
    mailbox.contents = [(delivery.sender, bytes)] ∧ mailbox'.contents = []
      ∧ bytes.length = delivery.len ∧ 0 < delivery.len ∧ delivery.len ≤ room
      ∧ delivery.len ≤ capacity := by
  rw [takeInto] at h
  split at h
  · cases h
  next waiting hwaiting =>
    split_ifs at h with hroom
    · cases h
    · obtain ⟨hok, rfl⟩ := Prod.mk.inj h
      obtain ⟨rfl, rfl⟩ := Prod.mk.inj (Except.ok.inj hok)
      obtain ⟨hpos, hfits⟩ := mailbox.fits waiting hwaiting
      refine ⟨by rw [contents, hwaiting]; rfl, rfl, ?_, hpos, Nat.not_lt.mp hroom, hfits⟩
      rw [List.length_take, List.length_ofFn]
      exact Nat.min_eq_left hfits

/-- A receiver that is refused leaves the mailbox as it was. -/
lemma takeInto_error {err : TakeError} (h : mailbox.takeInto room = (.error err, mailbox')) :
    mailbox' = mailbox := by
  rw [takeInto] at h
  split at h
  · exact (Prod.mk.inj h).2.symm
  · split_ifs at h
    · exact (Prod.mk.inj h).2.symm
    · cases h

/-- Nothing to take is an empty mailbox. -/
lemma takeInto_nothing (h : mailbox.takeInto room = (.error .nothing, mailbox')) :
    mailbox.isEmpty = true := by
  rw [takeInto] at h
  rw [isEmpty]
  split at h
  next hnone => rw [hnone]; rfl
  · split_ifs at h
    · cases Except.error.inj (Prod.mk.inj h).1
    · cases h

end Mailbox

end Harlan
