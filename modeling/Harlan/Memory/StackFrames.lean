import Harlan.Memory.FramePurposes

/-!
Frames behind kernel stacks (`kernel/src/memory/stacks.rs`).

A frame taken for a stack can be given back as a stack's whatever becomes of the others in
between: it is managed, its bit is set, and where purposes are on record its own says so.

* `Supply`, `Held`: an allocator in use, and a frame of it that is held for a stack.
* `Held.mark`, `held_of_mark`, `Held.deallocateAs`: what marking frames does to them, and giving
  one back. -/

namespace Harlan.Stacks

open BitmapFrameAllocator (Marks)
open Bitmap (bit)

/-- What every allocator in use keeps: it is sound, and a table of purposes covers its frames. -/
structure Supply (a : BitmapFrameAllocator) : Prop where
  sound : a.Sound
  covers : ∀ table ∈ a.purposes, a.coveredFrames ≤ table.length

/-- A frame that is held, for a stack as far as is recorded. -/
structure Held (a : BitmapFrameAllocator) (frame : PhysFrame) : Prop where
  managed : a.Managed frame.number
  set : bit a.bitmap frame.number = true
  purpose : a.purposes = none ∨ a.purposeOf frame = some .stack

section Marks

variable {a a' : BitmapFrameAllocator} {n : ℕ} {purpose : Option FramePurpose} {frame : PhysFrame}

lemma supply_mark (h : Supply a) (hmarks : Marks a a' n purpose) : Supply a' := by
  refine ⟨hmarks.sound, fun table htable => ?_⟩
  rw [hmarks.purposes, Option.mem_def, Option.map_eq_some_iff] at htable
  obtain ⟨table', htable', rfl⟩ := htable
  rw [List.length_set, BitmapFrameAllocator.coveredFrames, hmarks.same.length_eq]
  exact h.covers table' htable'

/-- Marking another frame leaves one held. -/
lemma Held.mark (h : Held a frame) (hmarks : Marks a a' n purpose) (hne : frame.number ≠ n) :
    Held a' frame := by
  refine ⟨hmarks.same.managed.mpr h.managed, ?_, ?_⟩
  · rw [hmarks.bits, if_neg hne]
    exact h.set
  · rcases h.purpose with hnone | hstack
    · left
      rw [hmarks.purposes, hnone, Option.map_none]
    · right
      rw [BitmapFrameAllocator.purposeOf] at hstack ⊢
      obtain ⟨table, htable, hbyte⟩ := Option.bind_eq_some_iff.mp hstack
      rw [hmarks.purposes, htable, Option.map_some, Option.bind_some,
        List.getElem?_set_ne (Ne.symm hne)]
      exact hbyte

/-- What is marked for a stack is held. -/
lemma held_of_mark (h : Supply a) (hmarks : Marks a a' frame.number (some .stack)) :
    Held a' frame := by
  refine ⟨hmarks.same.managed.mpr hmarks.managed, ?_, ?_⟩
  · rw [hmarks.bits, if_pos rfl]
    rfl
  · rcases htable : a.purposes with _ | table
    · left
      rw [hmarks.purposes, htable, Option.map_none]
    · right
      have hlt : frame.number < table.length :=
        hmarks.managed.2.1.trans_le (h.covers table htable)
      rw [BitmapFrameAllocator.purposeOf, hmarks.purposes, htable, Option.map_some,
        Option.bind_some, List.getElem?_set_self hlt]
      rfl

/-- What is held is taken back. -/
lemma Held.deallocateAs (h : Held a frame) (hsupply : Supply a) :
    ∃ a', a.deallocateAs frame .stack = (.ok (), a') ∧ Marks a a' frame.number none := by
  rcases BitmapFrameAllocator.deallocateAs_cases a frame .stack with ⟨err, heq⟩
    | ⟨hman, hset, -, heq⟩
  · have hnot : ¬(a.purposes.isSome && a.purposeOf frame != some .stack) = true := by
      rcases h.purpose with hnone | hstack
      · simp [hnone]
      · simp [hstack]
    rw [BitmapFrameAllocator.deallocateAs, if_neg hnot, BitmapFrameAllocator.deallocateUnchecked,
      (BitmapFrameAllocator.manages_iff a frame).mpr h.managed, h.set] at heq
    cases heq
  · refine ⟨_, heq, ⟨⟨rfl, rfl, by simp⟩, ?_, hman, fun m => ?_, rfl⟩⟩
    · exact BitmapFrameAllocator.TakesBack.sound hsupply.sound
        ⟨frame, hset, hman, rfl, ⟨rfl, rfl, by simp⟩, rfl, rfl⟩
    · exact Bitmap.bit_setBit (by norm_num) hman.lt_length _ _

end Marks

end Harlan.Stacks
