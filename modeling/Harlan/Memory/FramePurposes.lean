import Harlan.Memory.FrameReclaim

/-!
What each frame is for, from the moment purposes are recorded on.

Bitmap, counter and table of purposes are three records of the same: which managed frames are
held.

* `PurposeOp`, `record`: the operations that name a purpose, and what each writes down.
* `record_cases`: a step marks one frame, reclaims, or changes nothing.
* `Balanced`: the table has a purpose exactly for the managed frames whose bit is set;
  `Balanced.mark` and `Balanced.reclaim` keep it.
* `purposes_balance`: what follows after any run.
-/

namespace Harlan

/-- `FramePurpose::ALL`. -/
def FramePurpose.all : List FramePurpose := [.boot, .pageTable, .heap, .stack, .kernel, .dma]

lemma FramePurpose.toByte_ne_zero (purpose : FramePurpose) : purpose.toByte ≠ 0 := by
  cases purpose <;> decide

namespace BitmapFrameAllocator

open Bitmap (bit setBit clearBits)

/-! ### The operations that name a purpose -/

/-- What is done with frames that are handed out for a purpose. -/
inductive PurposeOp where
  | allocateFor (purpose : FramePurpose)
  | allocateFrame
  | deallocateAs (frame : PhysFrame) (purpose : FramePurpose)
  | label (frame : PhysFrame) (purpose : FramePurpose)
  | reclaimBootServices

/-- A frame, and what it is for from then on; nothing for one that was given back. -/
abbrev Record := PhysFrame × Option FramePurpose

/-- One operation, and what it records. -/
def record (a : BitmapFrameAllocator) : PurposeOp → BitmapFrameAllocator × List Record
  | .allocateFor purpose =>
      ((a.allocateFor purpose).2, (a.allocateFor purpose).1.toList.map fun frame =>
        (frame, some purpose))
  | .allocateFrame =>
      (a.allocateFrame.2, a.allocateFrame.1.toList.map fun frame => (frame, some .pageTable))
  | .deallocateAs frame purpose =>
      match a.deallocateAs frame purpose with
      | (.ok (), a') => (a', [(frame, none)])
      | (.error _, a') => (a', [])
  | .label frame purpose =>
      ((a.label frame purpose).2,
        if (a.label frame purpose).1 then [(frame, some purpose)] else [])
  | .reclaimBootServices => (a.reclaimBootServices.2, [])

/-- A run, with what it recorded, oldest first. -/
def recordAll (a : BitmapFrameAllocator) (ops : List PurposeOp) :
    BitmapFrameAllocator × List Record :=
  ops.foldl (fun state op => ((state.1.record op).1, state.2 ++ (state.1.record op).2)) (a, [])

/-- What was last recorded of a frame, if anything was. -/
def latest (records : List Record) (frame : PhysFrame) : Option (Option FramePurpose) :=
  (records.reverse.find? (·.1 = frame)).map Prod.snd

/-- What the table has for a frame it does not cover, or nobody holds, is zero. -/
def purposeByte (a : BitmapFrameAllocator) (n : ℕ) : UInt8 := (a.purposes.getD []).getD n 0

/-- How many of the covered frames are managed. -/
def managedFrames (a : BitmapFrameAllocator) : ℕ :=
  ((Finset.range a.coveredFrames).filter fun n => a.manages (frameOf n) = true).card

lemma latest_append (records : List Record) (frame other : PhysFrame)
    (purpose : Option FramePurpose) :
    latest (records ++ [(other, purpose)]) frame
      = if frame = other then some purpose else latest records frame := by
  rw [latest, List.reverse_append, List.reverse_singleton, List.singleton_append, List.find?_cons]
  by_cases hsame : other = frame
  · simp [hsame]
  · simp [hsame, Ne.symm hsame, latest]

/-! ### What a step can do -/

/-- The step gives a managed frame another purpose, and sets or clears its bit with it. -/
structure Marks (a a' : BitmapFrameAllocator) (n : ℕ) (purpose : Option FramePurpose) : Prop where
  same : SameMap a a'
  sound : Sound a'
  managed : a.Managed n
  bits : ∀ m, bit a'.bitmap m = if m = n then purpose.isSome else bit a.bitmap m
  purposes : a'.purposes
    = a.purposes.map fun table => table.set n ((purpose.map FramePurpose.toByte).getD 0)

lemma setPurpose_sound {a : BitmapFrameAllocator} (h : Sound a) (frame : PhysFrame)
    (purpose : Option FramePurpose) : Sound (a.setPurpose frame purpose) :=
  ⟨h.free_eq, h.clear_managed⟩

lemma allocateFor_marks {a : BitmapFrameAllocator} (h : Sound a) (purpose : FramePurpose) :
    (∃ n, (a.allocateFor purpose).1 = some (frameOf n) ∧ n < 2 ^ 52 ∧ bit a.bitmap n = false
        ∧ Marks a (a.allocateFor purpose).2 n (some purpose))
      ∨ a.allocateFor purpose = (none, a) := by
  rcases allocate_spec h with ⟨-, heq⟩ | ⟨n, hclear, hfree, heq⟩
  · refine .inr ?_
    rw [allocateFor, heq]
  · have hman := h.clear_managed n hclear
    have hsound : Sound a.allocate.2 := by
      refine HandsOut.sound h ⟨n, hclear, rfl, ⟨?_, ?_, ?_⟩, ?_, ?_⟩
      · rw [heq]
      · rw [heq]
      · rw [heq]
        simp
      · rw [heq]
      · rw [heq]
        simp only
        omega
    rw [heq] at hsound
    refine .inl ⟨n, ?_, hman.lt, hclear, ?_⟩
    · rw [allocateFor, heq]
    · rw [allocateFor, heq]
      refine ⟨⟨rfl, rfl, by simp [setPurpose]⟩, setPurpose_sound hsound _ _, hman,
        fun m => ?_, ?_⟩
      · exact Bitmap.bit_setBit (by norm_num) hman.lt_length _ _
      · simp [setPurpose, number_frameOf hman.lt]

/-- **What a step can do**: mark one frame and record it, reclaim, or change nothing. -/
lemma record_cases {a : BitmapFrameAllocator} (h : Sound a) (op : PurposeOp) :
    (∃ frame purpose, (a.record op).2 = [(frame, purpose)]
      ∧ Marks a (a.record op).1 frame.number purpose)
      ∨ (a.bootServicesReclaimed = false ∧ a.record op = (a.reclaimBootServices.2, []))
      ∨ a.record op = (a, []) := by
  have hallocate : ∀ purpose, (∃ frame given, (a.allocateFor purpose).1.toList.map
        (fun frame => ((frame, some purpose) : Record)) = [(frame, given)]
          ∧ Marks a (a.allocateFor purpose).2 frame.number given)
      ∨ ((a.allocateFor purpose).2, (a.allocateFor purpose).1.toList.map
          fun frame => ((frame, some purpose) : Record)) = (a, []) := by
    intro purpose
    rcases allocateFor_marks h purpose with ⟨n, heq, hlt, -, hmarks⟩ | heq
    · refine .inl ⟨frameOf n, some purpose, by rw [heq]; rfl, ?_⟩
      rwa [number_frameOf hlt]
    · exact .inr (by rw [heq]; rfl)
  cases op with
  | allocateFor purpose => exact (hallocate purpose).imp_right .inr
  | allocateFrame => exact (hallocate .pageTable).imp_right .inr
  | deallocateAs frame purpose =>
      rcases deallocateAs_cases a frame purpose with ⟨err, heq⟩ | ⟨hman, hset, -, heq⟩
      · refine .inr (.inr ?_)
        rw [record, heq]
      · refine .inl ⟨frame, none, by rw [record, heq], ?_⟩
        rw [record, heq]
        refine ⟨⟨rfl, rfl, by simp⟩, ?_, hman, fun m => ?_, rfl⟩
        · exact TakesBack.sound h ⟨frame, hset, hman, rfl, ⟨rfl, rfl, by simp⟩, rfl, rfl⟩
        · exact Bitmap.bit_setBit (by norm_num) hman.lt_length _ _
  | label frame purpose =>
      by_cases hheld : (a.manages frame && bit a.bitmap frame.number) = true
      · obtain ⟨hman, hset⟩ := Bool.and_eq_true_iff.mp hheld
        have hlabel : a.label frame purpose = (true, a.setPurpose frame (some purpose)) :=
          if_pos hheld
        refine .inl ⟨frame, some purpose, by rw [record, hlabel]; rfl, ?_⟩
        rw [record, hlabel]
        refine ⟨⟨rfl, rfl, rfl⟩, setPurpose_sound h _ _, (manages_iff a frame).mp hman,
          fun m => ?_, rfl⟩
        change bit a.bitmap m = if m = frame.number then true else bit a.bitmap m
        by_cases heq : m = frame.number
        · rw [if_pos heq, heq, hset]
        · rw [if_neg heq]
      · refine .inr (.inr ?_)
        have hlabel : a.label frame purpose = (false, a) := if_neg hheld
        rw [record, hlabel]
        rfl
  | reclaimBootServices =>
      cases hflag : a.bootServicesReclaimed with
      | false => exact .inr (.inl ⟨rfl, rfl⟩)
      | true =>
          refine .inr (.inr ?_)
          rw [record, reclaimBootServices, hflag, if_pos rfl]

/-! ### The three records -/

/-- The table has a purpose exactly for the managed frames whose bit is set. -/
structure Balanced (a : BitmapFrameAllocator) (table : List UInt8) : Prop where
  sound : Sound a
  purposes : a.purposes = some table
  covers : a.coveredFrames ≤ table.length
  known : ∀ byte ∈ table, byte = 0 ∨ ∃ purpose : FramePurpose, byte = purpose.toByte
  held : ∀ n, table.getD n 0 ≠ 0 ↔ a.Managed n ∧ bit a.bitmap n = true

section Balanced

variable {a a' : BitmapFrameAllocator} {table : List UInt8}

lemma getD_set_byte (table : List UInt8) {n : ℕ} (hn : n < table.length) (byte : UInt8) (m : ℕ) :
    (table.set n byte).getD m 0 = if m = n then byte else table.getD m 0 := by
  rw [List.getD_eq_getElem?_getD, List.getElem?_set]
  by_cases heq : n = m
  · subst heq
    simp [hn]
  · simp [heq, Ne.symm heq]

lemma Balanced.lt_length (h : Balanced a table) {n : ℕ} (hman : a.Managed n) : n < table.length :=
  hman.2.1.trans_le h.covers

lemma Balanced.mark (h : Balanced a table) {n : ℕ} {purpose : Option FramePurpose}
    (hmarks : Marks a a' n purpose) :
    Balanced a' (table.set n ((purpose.map FramePurpose.toByte).getD 0)) := by
  have hn := h.lt_length hmarks.managed
  refine ⟨hmarks.sound, by rw [hmarks.purposes, h.purposes]; rfl, ?_, fun byte hbyte => ?_,
    fun m => ?_⟩
  · rw [List.length_set, coveredFrames, hmarks.same.length_eq]
    exact h.covers
  · rcases List.mem_or_eq_of_mem_set hbyte with hold | rfl
    · exact h.known byte hold
    · cases purpose with
      | none => exact .inl rfl
      | some purpose => exact .inr ⟨purpose, rfl⟩
  · rw [getD_set_byte table hn, hmarks.same.managed, hmarks.bits]
    by_cases heq : m = n
    · rw [if_pos heq, if_pos heq, heq]
      cases purpose with
      | none => simp
      | some purpose => simp [hmarks.managed, purpose.toByte_ne_zero]
    · rw [if_neg heq, if_neg heq]
      exact h.held m

/-- The reclaim adds free frames only, on a map without a straddled one. -/
lemma Balanced.reclaim (h : Balanced a table) (hclean : ∀ n, ¬Straddled a.bitmap.length a.map n)
    (hflag : a.bootServicesReclaimed = false) : Balanced a.reclaimBootServices.2 table := by
  have hsound := h.sound.reclaim hflag
  obtain ⟨words, added, heq, hlen, -, hall⟩ := reclaim_spec a hflag
  rw [heq] at hsound ⊢
  refine ⟨hsound, h.purposes, ?_, h.known, fun m => ?_⟩
  · rw [coveredFrames, hlen]
    exact h.covers
  · rw [h.held, managed_reclaimed hlen, ← Bool.not_eq_false (bit words m), hall]
    constructor
    · rintro ⟨hman, hset⟩
      refine ⟨hman.of_reclaim, ?_⟩
      rintro (hold | ⟨⟨r, hr, hkind, hin⟩, -⟩)
      · rw [hset] at hold
        cases hold
      · exact hman.not_bootServices hflag hr hkind hin
    · rintro ⟨hafter, hkept⟩
      rw [not_or] at hkept
      refine ⟨?_, by simpa using hkept.1⟩
      by_contra hbefore
      refine hclean m (straddled_of_reclaim hafter hbefore fun r hr hkind hin => ?_)
      exact hkept.2 ⟨⟨r, hr, hkind, hin⟩, hafter⟩

/-- The purpose of a frame, as the table has it. -/
lemma Balanced.purposeOf_eq (h : Balanced a table) (frame : PhysFrame) :
    a.purposeOf frame = FramePurpose.fromByte (table.getD frame.number 0) := by
  rw [purposeOf, h.purposes, Option.bind_some, List.getD_eq_getElem?_getD]
  cases table[frame.number]? <;> rfl

lemma Balanced.purposeOf_mark (h : Balanced a table) {marked : PhysFrame}
    {purpose : Option FramePurpose} (hmarks : Marks a a' marked.number purpose)
    (frame : PhysFrame) :
    a'.purposeOf frame = if frame = marked then purpose else a.purposeOf frame := by
  rw [(h.mark hmarks).purposeOf_eq, h.purposeOf_eq,
    getD_set_byte table (h.lt_length hmarks.managed)]
  by_cases heq : frame = marked
  · rw [if_pos heq, if_pos (congrArg PhysFrame.number heq)]
    cases purpose with
    | none => rfl
    | some purpose => exact FramePurpose.fromByte_toByte purpose
  · rw [if_neg heq, if_neg fun hnumber => heq (PhysFrame.ext_number hnumber)]

/-- Counting the bytes of each purpose counts those that are not zero. -/
lemma sum_countP_toByte {bytes : List UInt8}
    (h : ∀ byte ∈ bytes, byte = 0 ∨ ∃ purpose : FramePurpose, byte = purpose.toByte) :
    (FramePurpose.all.map fun purpose => bytes.countP (· == purpose.toByte)).sum
      = Nat.count (fun n => bytes.getD n 0 ≠ 0) bytes.length := by
  induction bytes with
  | nil => rfl
  | cons byte rest ih =>
      have hrest := ih fun other hother => h other (List.mem_cons_of_mem _ hother)
      have hbyte := h byte List.mem_cons_self
      have hone : (FramePurpose.all.map fun purpose => if byte == purpose.toByte
          then 1 else 0).sum
          = if byte ≠ 0 then 1 else 0 := by
        rcases hbyte with rfl | ⟨purpose, rfl⟩
        · rfl
        · cases purpose <;> rfl
      have hcons : (FramePurpose.all.map fun purpose =>
          (byte :: rest).countP (· == purpose.toByte)).sum
          = (FramePurpose.all.map fun purpose => rest.countP (· == purpose.toByte)).sum
            + (FramePurpose.all.map fun purpose => if byte == purpose.toByte then 1
              else 0).sum := by
        rw [← List.sum_map_add]
        simp only [List.countP_cons]
      rw [hcons, hone, hrest, List.length_cons, Nat.count_succ']
      rfl

/-- Free frames and frames with a purpose are the managed ones. -/
lemma Balanced.sum (h : Balanced a table) (hsize : a.bitmap.length * 64 ≤ 2 ^ 52) :
    a.free + (FramePurpose.all.map a.framesFor).sum = a.managedFrames := by
  have hcovered : a.coveredFrames = a.bitmap.length * 64 := by
    rw [coveredFrames, wrap64, Nat.mod_eq_of_lt (by omega)]
  have hfor : FramePurpose.all.map a.framesFor
      = FramePurpose.all.map fun purpose => table.countP (· == purpose.toByte) := by
    refine List.map_congr_left fun purpose _ => ?_
    rw [framesFor, h.purposes]
    rfl
  rw [hfor, sum_countP_toByte h.known, h.sound.free_eq, Bitmap.clearBits_eq_card,
    Nat.count_eq_card_filter_range, ← Finset.card_union_of_disjoint, managedFrames]
  · congr 1
    ext n
    simp only [Finset.mem_union, Finset.mem_filter, Finset.mem_range, h.held,
      manages_iff, hcovered]
    constructor
    · rintro (⟨hlt, hclear⟩ | ⟨-, hman, -⟩)
      · rw [number_frameOf (by omega)]
        exact ⟨hlt, h.sound.clear_managed n hclear⟩
      · rw [number_frameOf hman.lt]
        exact ⟨hman.lt_length, hman⟩
    · rintro ⟨hlt, hman⟩
      rw [number_frameOf (by omega)] at hman
      cases hbit : bit a.bitmap n with
      | false => exact .inl ⟨hlt, rfl⟩
      | true => exact .inr ⟨h.lt_length hman, hman, rfl⟩
  · rw [Finset.disjoint_left]
    intro n hclear hset
    have hset := (h.held n).mp (Finset.mem_filter.mp hset).2
    rw [(Finset.mem_filter.mp hclear).2] at hset
    cases hset.2

end Balanced

/-! ### Runs -/

/-- Regions of whole frames hold what they reach into. -/
lemma not_straddled_of_aligned {words : ℕ} {map : List MemoryRegion}
    (h : ∀ r ∈ map, r.startPhysAddr % frameSize = 0
      ∧ r.startPhysAddr + r.pageCount * frameSize < 2 ^ 64) (n : ℕ) : ¬Straddled words map n := by
  rintro ⟨-, -, -, ⟨r, hr, hkind, htouch⟩, hout, -⟩
  refine hout r hr hkind ?_
  obtain ⟨haligned, hend⟩ := h r hr
  simp only [inwardFrames, outwardFrames, regionEnd, satAdd, satMul, divCeil, frameSize,
    u64Max] at *
  omega

/-- The frame of a number, whether or not it has a 64-bit address. -/
def frameAt (n : ℕ) : PhysFrame := ⟨n * frameSize, Nat.mul_mod_left _ _⟩

lemma number_frameAt (n : ℕ) : (frameAt n).number = n :=
  Nat.mul_div_cancel n (by decide)

/-- What `with_purposes` writes into a table with nothing past the covered frames. -/
lemma withPurposes_balanced {a start : BitmapFrameAllocator} {table : List UInt8} (h : Sound a)
    (hsize : a.bitmap.length * 64 ≤ 2 ^ 52)
    (htable : ∀ byte ∈ table.drop a.coveredFrames, byte = 0)
    (hstart : a.withPurposes table = some start) :
    (∃ table', Balanced start table') ∧ SameMap a start
      ∧ ∀ frame, start.purposeOf frame
        = if a.manages frame && bit a.bitmap frame.number then some .boot else none := by
  rw [withPurposes] at hstart
  split at hstart
  · cases hstart
  rename_i hlong
  obtain rfl := Option.some.inj hstart
  generalize hbytes : (table.mapIdx fun number byte =>
    if number < a.coveredFrames then
      if a.manages (frameOf number) && bit a.bitmap number then FramePurpose.boot.toByte else 0
    else byte) = bytes
  have hcovered : a.coveredFrames = a.bitmap.length * 64 := by
    rw [coveredFrames, wrap64, Nat.mod_eq_of_lt (by omega)]
  have hlength : bytes.length = table.length := by simp [← hbytes]
  -- a byte says boot exactly for a managed frame in use
  have hbyte : ∀ frame : PhysFrame, bytes.getD frame.number 0
      = if a.manages frame && bit a.bitmap frame.number then FramePurpose.boot.toByte else 0 := by
    intro frame
    have hmanaged : a.manages frame = true → frame.number < a.coveredFrames :=
      fun hman => ((manages_iff a frame).mp hman).2.1
    rw [← hbytes, List.getD_eq_getElem?_getD, List.getElem?_mapIdx]
    by_cases hin : frame.number < a.coveredFrames
    · have hframe : frameOf frame.number = frame :=
        PhysFrame.ext_number (number_frameOf (by omega))
      rw [List.getElem?_eq_getElem (by omega), Option.map_some, Option.getD_some,
        if_pos hin, hframe]
    · have hzero : (if a.manages frame && bit a.bitmap frame.number
          then FramePurpose.boot.toByte else 0)
          = 0 := if_neg fun hheld => hin (hmanaged (Bool.and_eq_true_iff.mp hheld).1)
      rw [hzero]
      rcases hat : table[frame.number]? with _ | byte
      · rfl
      · rw [Option.map_some, Option.getD_some, if_neg hin]
        refine htable byte (List.mem_of_getElem? (i := frame.number - a.coveredFrames) ?_)
        rw [List.getElem?_drop, Nat.add_sub_cancel' (Nat.le_of_not_lt hin), hat]
  -- so the table says of each frame whether it is in use
  have hbalanced : Balanced { a with purposes := some bytes } bytes := by
    refine ⟨⟨h.free_eq, h.clear_managed⟩, rfl, ?_, fun byte hmem => ?_, fun n => ?_⟩
    · rw [hlength]
      exact Nat.le_of_not_lt hlong
    · obtain ⟨n, hn, rfl⟩ := List.getElem_of_mem hmem
      have hat := hbyte (frameAt n)
      rw [number_frameAt, List.getD_eq_getElem?_getD, List.getElem?_eq_getElem hn,
        Option.getD_some] at hat
      rw [hat]
      split
      · exact .inr ⟨.boot, rfl⟩
      · exact .inl rfl
    · have hat := hbyte (frameAt n)
      have hheld : (a.manages (frameAt n) && bit a.bitmap n) = true
          ↔ a.Managed n ∧ bit a.bitmap n = true := by
        rw [Bool.and_eq_true_iff, manages_iff, number_frameAt]
      rw [number_frameAt] at hat
      rw [hat]
      change _ ↔ a.Managed n ∧ bit a.bitmap n = true
      rw [← hheld]
      split
      · rename_i hheld
        exact iff_of_true (FramePurpose.toByte_ne_zero _) hheld
      · rename_i hheld
        exact iff_of_false (fun hne => hne rfl) hheld
  refine ⟨⟨bytes, hbalanced⟩, ⟨rfl, rfl, rfl⟩, fun frame => ?_⟩
  rw [hbalanced.purposeOf_eq, hbyte]
  split
  · rfl
  · rfl

/-- The table, and what was recorded, along a run. -/
lemma recordAll_balanced {start : BitmapFrameAllocator} {table : List UInt8}
    (h : Balanced start table) (hclean : ∀ n, ¬Straddled start.bitmap.length start.map n)
    (ops : List PurposeOp) :
    (∃ table', Balanced (start.recordAll ops).1 table')
      ∧ (start.recordAll ops).1.map = start.map
      ∧ (start.recordAll ops).1.bitmap.length = start.bitmap.length
      ∧ ∀ frame, (start.recordAll ops).1.purposeOf frame
        = (latest (start.recordAll ops).2 frame).getD (start.purposeOf frame) := by
  induction ops using List.reverseRecOn with
  | nil => exact ⟨⟨table, h⟩, rfl, rfl, fun frame => rfl⟩
  | append_singleton ops op ih =>
      obtain ⟨⟨table', hbalanced⟩, hmap, hlen, hpurpose⟩ := ih
      have hsnoc : start.recordAll (ops ++ [op])
          = (((start.recordAll ops).1.record op).1,
            (start.recordAll ops).2 ++ ((start.recordAll ops).1.record op).2) := by
        rw [recordAll, List.foldl_append, List.foldl_cons, List.foldl_nil, recordAll]
      rw [hsnoc]
      generalize (start.recordAll ops).1 = a at *
      generalize (start.recordAll ops).2 = records at *
      dsimp only
      rcases record_cases hbalanced.sound op with
        ⟨frame, purpose, hrecord, hmarks⟩ | ⟨hflag, hrecord⟩ | hrecord
      · refine ⟨⟨_, hbalanced.mark hmarks⟩, hmarks.same.map_eq.trans hmap,
          hmarks.same.length_eq.trans hlen, fun other => ?_⟩
        rw [hbalanced.purposeOf_mark hmarks, hrecord, latest_append, hpurpose]
        split
        · rfl
        · rfl
      · rw [← hmap, ← hlen] at hclean
        obtain ⟨words, added, heq, hlen', -⟩ := reclaim_spec a hflag
        have hreclaimed := hbalanced.reclaim hclean hflag
        rw [hrecord, List.append_nil]
        refine ⟨⟨table', hreclaimed⟩, ?_, ?_, fun other => ?_⟩
        · rw [heq]
          exact hmap
        · rw [heq]
          exact hlen'.trans hlen
        · rw [hreclaimed.purposeOf_eq, ← hbalanced.purposeOf_eq, hpurpose]
      · rw [hrecord, List.append_nil]
        exact ⟨⟨table', hbalanced⟩, hmap, hlen, hpurpose⟩

/-- **Purpose accounting balances.** On a map of whole frames, from the moment purposes are
recorded on and after any operations that name one: a frame has a purpose exactly if it is managed
and its bit is set; the free frames and those of each purpose add up to the managed ones; a
frame's purpose is what was last recorded of it, and `Boot` if it was held before and nothing has
been since; and giving it back as anything else is refused and changes nothing. The table has one
byte for each covered frame, or nothing after those, and the frames covered have 64-bit
addresses. -/
theorem purposes_balance {storage : List (BitVec 64)} {map : List MemoryRegion}
    {a₀ start : BitmapFrameAllocator} {trace : List Event} {table : List UInt8}
    (hsize : storage.length * 64 ≤ 2 ^ 52)
    (haligned : ∀ r ∈ map, r.startPhysAddr % frameSize = 0
      ∧ r.startPhysAddr + r.pageCount * frameSize < 2 ^ 64)
    (hrun : Run storage map a₀ trace) (htable : ∀ byte ∈ table.drop a₀.coveredFrames, byte = 0)
    (hstart : a₀.withPurposes table = some start) (ops : List PurposeOp) :
    let a := (start.recordAll ops).1
    let records := (start.recordAll ops).2
    (∀ frame : PhysFrame, a.purposeByte frame.number ≠ 0
        ↔ a.manages frame = true ∧ bit a.bitmap frame.number = true)
      ∧ a.free + (FramePurpose.all.map a.framesFor).sum = a.managedFrames
      ∧ (∀ frame, a.purposeOf frame = (latest records frame).getD
          (if a₀.manages frame && bit a₀.bitmap frame.number then some .boot else none))
      ∧ ∀ frame purpose, a.purposeOf frame ≠ some purpose →
          a.deallocateAs frame purpose
            = (.error (.wrongPurpose purpose (a.purposeOf frame)), a) := by
  intro a records
  have hlen₀ := hrun.length_eq
  obtain ⟨⟨table₀, hbalanced₀⟩, hsame, hboot⟩ := withPurposes_balanced hrun.tracked.sound
    (by rw [hlen₀]; exact hsize) htable hstart
  have hclean : ∀ n, ¬Straddled start.bitmap.length start.map n := by
    rw [hsame.map_eq, hrun.tracked.map_eq]
    exact not_straddled_of_aligned haligned
  obtain ⟨⟨table', hbalanced⟩, -, hlen, hpurpose⟩ := recordAll_balanced hbalanced₀ hclean ops
  refine ⟨fun frame => ?_, ?_, fun frame => ?_, fun frame purpose hother => ?_⟩
  · rw [purposeByte, hbalanced.purposes, Option.getD_some, hbalanced.held, manages_iff]
  · refine hbalanced.sum ?_
    rw [hlen, hsame.length_eq, hlen₀]
    exact hsize
  · rw [hpurpose, hboot]
  · rw [deallocateAs]
    refine if_pos ?_
    rw [hbalanced.purposes]
    simpa using hother

/-- Eight usable pages and one of the boot services; a page table is taken, the memory reclaimed,
and the page table labelled as a stack. -/
theorem purposes_balance_ninePages :
    let map : List MemoryRegion := [⟨0, 8, .usable⟩, ⟨0x8000, 1, .bootServices⟩]
    let start := { new [0] map with purposes := some (List.replicate 64 0) }
    let a := (start.recordAll [.allocateFrame, .reclaimBootServices, .label (frameOf 1) .stack]).1
    (new [0] map).withPurposes (List.replicate 64 0) = some start
      ∧ a.free + (FramePurpose.all.map a.framesFor).sum = a.managedFrames ∧ a.free = 7
      ∧ a.purposeOf (frameOf 1) = some .stack := by
  intro map start a
  have hstart : (new [0] map).withPurposes (List.replicate 64 0) = some start := by decide +kernel
  have hbalance := (purposes_balance (by decide) (by decide) Run.new (by decide +kernel) hstart
    [.allocateFrame, .reclaimBootServices, .label (frameOf 1) .stack]).2.1
  exact ⟨hstart, hbalance, by decide +kernel, by decide +kernel⟩

end BitmapFrameAllocator

end Harlan
