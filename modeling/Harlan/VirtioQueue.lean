import Mathlib.Tactic
import Harlan.Lib.Counters
import Harlan.Lib.Slices
import Harlan.VirtioBlk

/-! The split virtqueue as it lies in memory (`hal/src/virtio.rs`): the three parts of a queue in
one frame, of any size that fits, and the driver and the device that go round in them.

The driver is that of `virtio_blk`, cut at every access to the frame; the chain it publishes is
any, since only its head is in the rings. The device takes chains in the order of the available
ring and answers each in the next entry of the used one. A request begins once everything
published before was completed, which may be long after the driver gave up on it.

* `inOneFrame`, `inOneFrame_apart`: the parts of a queue are apart from one another, and in the
  frame.
* `Step`: one step of either side.
* `Sound`: what holds between any two steps; `Sound.step` keeps it.
* `queue_indices`: slots, waits and answers agree, however often the indices wrap.
-/

namespace Harlan.VirtioQueue

open VirtioBlk (Descriptor Completion pollLimit)

/-! ### The layout of a queue -/

/-- The bytes of a descriptor. -/
def descriptorBytes : ℕ := 16

/-- Offsets inside the available ring. -/
def availableIndex : ℕ := 2
/-- The entries come behind the flags and the index. -/
def availableRing : ℕ := 4

/-- Offsets inside the used ring. -/
def usedIndex : ℕ := 2
/-- The entries come behind the flags and the index. -/
def usedRing : ℕ := 4
/-- The bytes of an entry of the used ring. -/
def usedEntryBytes : ℕ := 8

/-- Where each part goes in the frame. -/
def descriptorsAt : ℕ := 0
/-- Where the available ring stands in the frame of a queue. -/
def availableAt : ℕ := 0x400
/-- Where the used ring stands. -/
def usedAt : ℕ := 0x800

/-- Where the parts of a queue stand. -/
structure QueueLayout where
  size : UInt16
  descriptors : ℕ
  available : ℕ
  used : ℕ
deriving DecidableEq

/-- `u16::is_power_of_two`. -/
def isPowerOfTwo (n : UInt16) : Bool := (List.range 16).any fun k => n.toNat == 2 ^ k

/-- The layout of a queue of `size` descriptors in one frame, if it fits. -/
def inOneFrame (size : UInt16) (frameBytes : ℕ) : Option QueueLayout :=
  if size = 0 ∨ !isPowerOfTwo size then none
  else if availableAt < size.toNat * descriptorBytes
      ∨ frameBytes < usedAt + usedRing + usedEntryBytes * size.toNat + 2 then none
  else some ⟨size, descriptorsAt, availableAt, usedAt⟩

namespace QueueLayout

/-- Where a descriptor begins; `none` past the end of the table. -/
def descriptor (layout : QueueLayout) (index : UInt16) : Option ℕ :=
  if layout.size ≤ index then none else some (layout.descriptors + index.toNat * descriptorBytes)

/-- Where the slot of the available ring for an index is. -/
def availableSlot (layout : QueueLayout) (index : UInt16) : ℕ :=
  layout.available + availableRing + (index % layout.size).toNat * 2

/-- And that of the used ring. -/
def usedSlot (layout : QueueLayout) (index : UInt16) : ℕ :=
  layout.used + usedRing + (index % layout.size).toNat * usedEntryBytes

lemma descriptor_some {layout : QueueLayout} {index : UInt16} {offset : ℕ}
    (h : layout.descriptor index = some offset) :
    index.toNat < layout.size.toNat
      ∧ offset = layout.descriptors + index.toNat * descriptorBytes := by
  rw [descriptor] at h
  split_ifs at h with hpast
  exact ⟨Nat.not_le.mp hpast, (Option.some.inj h).symm⟩

end QueueLayout

/-- The table and the rings are in the frame, one after the other, and what two indices stand for
is the same or does not overlap. -/
structure Apart (layout : QueueLayout) (frameBytes : ℕ) : Prop where
  descriptor : ∀ i offset, layout.descriptor i = some offset →
    offset + descriptorBytes ≤ layout.available
  available : ∀ i, layout.available + availableRing ≤ layout.availableSlot i
    ∧ layout.availableSlot i + 2 ≤ layout.used
  used : ∀ i, layout.used + usedRing ≤ layout.usedSlot i
    ∧ layout.usedSlot i + usedEntryBytes ≤ frameBytes
  descriptors : ∀ i j offset offset', layout.descriptor i = some offset →
    layout.descriptor j = some offset' →
    i ≠ j → offset + descriptorBytes ≤ offset' ∨ offset' + descriptorBytes ≤ offset
  availables : ∀ i j, i % layout.size ≠ j % layout.size →
    layout.availableSlot i + 2 ≤ layout.availableSlot j
      ∨ layout.availableSlot j + 2 ≤ layout.availableSlot i
  useds : ∀ i j, i % layout.size ≠ j % layout.size →
    layout.usedSlot i + usedEntryBytes ≤ layout.usedSlot j
      ∨ layout.usedSlot j + usedEntryBytes ≤ layout.usedSlot i

section Layout

variable {size : UInt16} {frameBytes : ℕ} {layout : QueueLayout}

/-- What there is to know of a layout that was accepted. -/
lemma inOneFrame_some (h : inOneFrame size frameBytes = some layout) :
    layout = ⟨size, descriptorsAt, availableAt, usedAt⟩ ∧ (∃ k < 16, size.toNat = 2 ^ k)
      ∧ size.toNat * descriptorBytes ≤ availableAt
      ∧ usedAt + usedRing + usedEntryBytes * size.toNat + 2 ≤ frameBytes := by
  rw [inOneFrame] at h
  split_ifs at h with hpower hfits
  rw [not_or, Bool.not_eq_true, Bool.not_eq_false', isPowerOfTwo, List.any_eq_true] at hpower
  rw [not_or, Nat.not_lt, Nat.not_lt] at hfits
  obtain ⟨-, k, hk, hsize⟩ := hpower
  exact ⟨(Option.some.inj h).symm, ⟨k, List.mem_range.mp hk, by simpa using hsize⟩, hfits⟩

/-- An index is within the rings. -/
lemma mod_lt_size (h : inOneFrame size frameBytes = some layout) (i : UInt16) :
    (i % size).toNat < size.toNat ∧ size.toNat ≤ 64 := by
  obtain ⟨-, ⟨k, -, hsize⟩, hfits, -⟩ := inOneFrame_some h
  have hpos : 0 < size.toNat := by
    rw [hsize]
    exact Nat.two_pow_pos k
  rw [UInt16.toNat_mod]
  simp only [descriptorBytes, availableAt] at hfits
  exact ⟨Nat.mod_lt _ hpos, by omega⟩

/-- **The parts of a queue are apart**, and inside the frame. -/
theorem inOneFrame_apart (h : inOneFrame size frameBytes = some layout) :
    Apart layout frameBytes := by
  have hlt := fun i => mod_lt_size h i
  obtain ⟨rfl, -, htable, hframe⟩ := inOneFrame_some h
  simp only [descriptorBytes, availableAt, usedAt, usedRing, usedEntryBytes] at htable hframe
  constructor
  · intro i offset hoffset
    obtain ⟨hi, rfl⟩ := QueueLayout.descriptor_some hoffset
    simp only [descriptorBytes, descriptorsAt, availableAt] at hi ⊢
    omega
  · intro i
    have hi := hlt i
    simp only [QueueLayout.availableSlot, availableRing, availableAt, usedAt]
    omega
  · intro i
    have hi := hlt i
    simp only [QueueLayout.usedSlot, usedRing, usedEntryBytes, usedAt]
    omega
  · intro i j offset offset' hi hj hne
    have hdiff : i.toNat ≠ j.toNat := fun heq => hne (UInt16.toNat_inj.mp heq)
    obtain ⟨-, rfl⟩ := QueueLayout.descriptor_some hi
    obtain ⟨-, rfl⟩ := QueueLayout.descriptor_some hj
    simp only [descriptorBytes]
    omega
  · intro i j hne
    have hdiff : (i % size).toNat ≠ (j % size).toNat := fun heq => hne (UInt16.toNat_inj.mp heq)
    simp only [QueueLayout.availableSlot]
    omega
  · intro i j hne
    have hdiff : (i % size).toNat ≠ (j % size).toNat := fun heq => hne (UInt16.toNat_inj.mp heq)
    simp only [QueueLayout.usedSlot, usedEntryBytes]
    omega

end Layout

/-! ### The queue in memory -/

/-- A queue, wherever it has been laid out. -/
structure Queue where
  base : ℕ
  layout : QueueLayout

/-- Two bytes of memory, little endian. -/
def readU16 (mem : ByteMemory) (addr : ℕ) : UInt16 := UInt16.ofNat (getWord mem addr 2)

namespace Queue

variable (queue : Queue)

/-- The address of the driver's index. -/
def availableIndexAt : ℕ := queue.base + queue.layout.available + availableIndex
/-- The address of the device's index. -/
def usedIndexAt : ℕ := queue.base + queue.layout.used + usedIndex
/-- The address of an entry of the available ring. -/
def availableSlotAt (index : UInt16) : ℕ := queue.base + queue.layout.availableSlot index
/-- The address of an entry of the used ring. -/
def usedSlotAt (index : UInt16) : ℕ := queue.base + queue.layout.usedSlot index

/-- Writes one descriptor, and answers whether there is such a descriptor. -/
def setDescriptor (mem : ByteMemory) (index : UInt16) (descriptor : Descriptor) :
    Bool × ByteMemory :=
  match queue.layout.descriptor index with
  | none => (false, mem)
  | some offset =>
      let mem := setWord mem (queue.base + offset) descriptor.address 8
      let mem := setWord mem (queue.base + offset + 8) descriptor.length 4
      let mem := setWord mem (queue.base + offset + 12) descriptor.flags 2
      (true, setWord mem (queue.base + offset + 14) descriptor.next 2)

/-- The entry the device wrote at `index`. The head is cut to sixteen bits. -/
def completion (mem : ByteMemory) (index : UInt16) : Completion :=
  ⟨(UInt16.ofNat (getWord mem (queue.usedSlotAt index) 4)).toNat,
    getWord mem (queue.usedSlotAt index + 4) 4⟩

end Queue

/-! ### The driver and the device -/

/-- How far a request is. -/
inductive Driver where
  | idle
  /-- Descriptors are still to be written; then the index is read. -/
  | describing (chain : List (UInt16 × Descriptor)) (head : UInt16)
  /-- The slot is to be written, -/
  | storing (head index : UInt16)
  /-- and then the index that makes it visible. -/
  | showing (head index : UInt16)
  | waiting (published : UInt16) (looks : ℕ)
  /-- The used entry is there, and its head is to be read, -/
  | reading (published : UInt16)
  /-- and then how much was written. -/
  | readingWritten (published head : UInt16)

/-- How far the device is with a chain. -/
inductive Device where
  | idle
  /-- It has the head, which it is to put in the used entry, -/
  | fetched (head : UInt16)
  /-- and then how much it wrote, -/
  | named (head : UInt16)
  /-- and then the index that makes it visible. -/
  | filled (entry : Completion)

/-- A request that was published: its head, and where that was put. -/
structure Asked where
  head : UInt16
  slot : ℕ

/-- A queue in memory, with its driver and its device. -/
structure World where
  mem : ByteMemory
  driver : Driver
  device : Device
  /-- How many chains the device took and completed, as it counts them. -/
  seen : UInt16
  /-- Every request that was published. -/
  asked : List Asked
  /-- Every entry that the device made visible. -/
  completed : List Completion
  /-- What each request came back with; `none` for one that was given up on. -/
  answers : List (Option Completion)

namespace World

/-- A queue that was just started. -/
def new (mem : ByteMemory) : World := ⟨mem, .idle, .idle, 0, [], [], []⟩

variable (queue : Queue)

/-- One step of the request that is under way. -/
def stepDriver (w : World) : World :=
  match w.driver with
  | .idle => w
  | .describing [] head =>
      { w with driver := .storing head (readU16 w.mem queue.availableIndexAt) }
  | .describing ((index, descriptor) :: rest) head =>
      { w with mem := (queue.setDescriptor w.mem index descriptor).2, driver := .describing rest head }
  | .storing head index =>
      { w with
        mem := setWord w.mem (queue.availableSlotAt index) head.toNat 2
        driver := .showing head index }
  | .showing head index =>
      { w with
        mem := setWord w.mem queue.availableIndexAt (index + 1).toNat 2
        driver := .waiting (index + 1) 0
        asked := w.asked ++ [⟨head, queue.availableSlotAt index⟩] }
  | .waiting published looks =>
      if readU16 w.mem queue.usedIndexAt = published then { w with driver := .reading published }
      else if looks + 1 > pollLimit then
        { w with driver := .idle, answers := w.answers ++ [none] }
      else { w with driver := .waiting published (looks + 1) }
  | .reading published =>
      { w with driver :=
        .readingWritten published (UInt16.ofNat (getWord w.mem (queue.usedSlotAt (published - 1)) 4)) }
  | .readingWritten published head =>
      { w with
        driver := .idle
        answers := w.answers
          ++ [some ⟨head.toNat, getWord w.mem (queue.usedSlotAt (published - 1) + 4) 4⟩] }

/-- One step of the device, which says it wrote `written` bytes. -/
def stepDevice (w : World) (written : UInt32) : World :=
  match w.device with
  | .idle =>
      if readU16 w.mem queue.availableIndexAt = w.seen then w
      else { w with device := .fetched (readU16 w.mem (queue.availableSlotAt w.seen)) }
  | .fetched head =>
      { w with mem := setWord w.mem (queue.usedSlotAt w.seen) head.toNat 4, device := .named head }
  | .named head =>
      { w with
        mem := setWord w.mem (queue.usedSlotAt w.seen + 4) written.toNat 4
        device := .filled ⟨head.toNat, written.toNat⟩ }
  | .filled entry =>
      { w with
        mem := setWord w.mem queue.usedIndexAt (w.seen + 1).toNat 2
        device := .idle
        seen := w.seen + 1
        completed := w.completed ++ [entry] }

end World

/-- One step of either side. A request begins when all those before it were completed. -/
inductive Step (queue : Queue) (w : World) : World → Prop
  | begin (chain : List (UInt16 × Descriptor)) (head : UInt16) (hidle : w.driver = .idle)
      (hdone : w.completed.length = w.asked.length) :
      Step queue w { w with driver := .describing chain head }
  | driver : Step queue w (w.stepDriver queue)
  | device (written : UInt32) : Step queue w (w.stepDevice queue written)

/-! ### Words of the frame -/

lemma readU16_setWord (mem : ByteMemory) (addr : ℕ) (value : UInt16) :
    readU16 (setWord mem addr value.toNat 2) addr = value := by
  have hlt : value.toNat < 256 ^ 2 := value.toNat_lt
  rw [readU16, getWord_setWord, Nat.mod_eq_of_lt hlt, UInt16.ofNat_toNat]

lemma readU16_apart {mem : ByteMemory} {addr addr' value width : ℕ}
    (h : addr + 2 ≤ addr' ∨ addr' + width ≤ addr) :
    readU16 (setWord mem addr' value width) addr = readU16 mem addr := by
  rw [readU16, getWord_setWord_apart h, readU16]

lemma completion_apart {queue : Queue} {mem : ByteMemory} {addr value width : ℕ} {index : UInt16}
    (h : queue.usedSlotAt index + 8 ≤ addr ∨ addr + width ≤ queue.usedSlotAt index) :
    queue.completion (setWord mem addr value width) index = queue.completion mem index := by
  rw [Queue.completion, getWord_setWord_apart (by omega), getWord_setWord_apart (by omega),
    Queue.completion]

/-- Two counts that are one apart at most are told apart by their low sixteen bits. -/
lemma ofNat_inj_of_near {behind ahead : ℕ} (hle : behind ≤ ahead) (hnear : ahead ≤ behind + 1) :
    UInt16.ofNat behind = UInt16.ofNat ahead ↔ behind = ahead := by
  rw [← UInt16.toNat_inj, UInt16.toNat_ofNat', UInt16.toNat_ofNat']
  omega

lemma ofNat_add_one (count : ℕ) : UInt16.ofNat count + 1 = .ofNat (count + 1) := by
  rw [UInt16.ofNat_add]
  rfl

lemma ofNat_succ_sub_one (count : ℕ) : UInt16.ofNat (count + 1) - 1 = .ofNat count := by
  rw [← ofNat_add_one]
  exact UInt16.add_sub_cancel _ _

/-- The queue was laid out by `inOneFrame`. -/
def Queue.Fits (queue : Queue) (frameBytes : ℕ) : Prop :=
  inOneFrame queue.layout.size frameBytes = some queue.layout

section Frame

variable {queue : Queue} {frameBytes : ℕ} (hfits : queue.Fits frameBytes)

include hfits

/-- Where the words of a queue are. -/
lemma addresses (index : UInt16) :
    queue.availableIndexAt = queue.base + 0x402 ∧ queue.usedIndexAt = queue.base + 0x802
      ∧ queue.base + 0x404 ≤ queue.availableSlotAt index ∧ queue.availableSlotAt index + 2
        ≤ queue.base + 0x800
      ∧ queue.base + 0x804 ≤ queue.usedSlotAt index
      ∧ queue.usedSlotAt index + 8 ≤ queue.base + frameBytes ∧ 0x806 ≤ frameBytes := by
  have hlt := mod_lt_size hfits index
  have hapart := inOneFrame_apart hfits
  have havailable := hapart.available index
  have hused := hapart.used index
  obtain ⟨hlayout, -, -, hframe⟩ := inOneFrame_some hfits
  have havailableAt : queue.layout.available = 0x400 := congrArg QueueLayout.available hlayout
  have husedAt : queue.layout.used = 0x800 := congrArg QueueLayout.used hlayout
  simp only [Queue.availableIndexAt, Queue.usedIndexAt, Queue.availableSlotAt, Queue.usedSlotAt,
    availableIndex, usedIndex, availableRing, usedRing, usedEntryBytes, usedAt] at *
  omega

/-- Writing a descriptor changes nothing past the table. -/
lemma setDescriptor_outside (mem : ByteMemory) (index : UInt16) (descriptor : Descriptor) {a : ℕ}
    (ha : a < queue.base ∨ queue.base + 0x400 ≤ a) :
    (queue.setDescriptor mem index descriptor).2 a = mem a := by
  have hapart := (inOneFrame_apart hfits).descriptor index
  obtain ⟨hlayout, -⟩ := inOneFrame_some hfits
  have havailableAt : queue.layout.available = 0x400 := congrArg QueueLayout.available hlayout
  rw [Queue.setDescriptor]
  cases hoffset : queue.layout.descriptor index with
  | none => rfl
  | some offset =>
      have hend := hapart offset hoffset
      rw [havailableAt, descriptorBytes] at hend
      dsimp only
      rw [setWord_of_outside (by omega), setWord_of_outside (by omega),
        setWord_of_outside (by omega), setWord_of_outside (by omega)]

lemma setDescriptor_word (mem : ByteMemory) (index : UInt16) (descriptor : Descriptor)
    {addr : ℕ} (width : ℕ) (ha : queue.base + 0x400 ≤ addr) :
    getWord (queue.setDescriptor mem index descriptor).2 addr width = getWord mem addr width :=
  getWord_congr fun _ hlow _ => setDescriptor_outside hfits mem index descriptor (.inr (by omega))

end Frame

/-! ### What holds between any two steps -/

/-- What a request knows, wherever it is. -/
def DriverSound (queue : Queue) (mem : ByteMemory) (asked answers completed : ℕ) : Driver → Prop
  | .idle => answers = asked
  | .describing _ _ => answers = asked ∧ completed = asked
  | .storing _ index => answers = asked ∧ completed = asked ∧ index = .ofNat asked
  | .showing head index =>
      answers = asked ∧ completed = asked ∧ index = .ofNat asked
        ∧ readU16 mem (queue.availableSlotAt index) = head
  | .waiting published _ => answers + 1 = asked ∧ published = .ofNat asked
  | .reading published => answers + 1 = asked ∧ completed = asked ∧ published = .ofNat asked
  | .readingWritten published head =>
      answers + 1 = asked ∧ completed = asked ∧ published = .ofNat asked
        ∧ (queue.completion mem (.ofNat answers)).head = head.toNat

/-- What the device finds, or has written. -/
def DeviceSound (queue : Queue) (mem : ByteMemory) (asked : List Asked)
    (completed : List Completion) :
    Device → Prop
  | .idle =>
      (∀ request : Asked, asked[completed.length]? = some request →
          readU16 mem (queue.availableSlotAt (.ofNat completed.length)) = request.head)
        ∧ ∀ entry, completed.getLast? = some entry →
          queue.completion mem (.ofNat (completed.length - 1)) = entry
  | .fetched head =>
      ∃ request : Asked, asked[completed.length]? = some request ∧ request.head = head
  | .named head =>
      (∃ request : Asked, asked[completed.length]? = some request ∧ request.head = head)
        ∧ getWord mem (queue.usedSlotAt (.ofNat completed.length)) 4 = head.toNat
  | .filled entry =>
      (∃ request : Asked, asked[completed.length]? = some request
        ∧ request.head.toNat = entry.head)
        ∧ queue.completion mem (.ofNat completed.length) = entry

/-- What a device has in hand was asked for. -/
lemma DeviceSound.taken {queue : Queue} {mem : ByteMemory} {asked : List Asked}
    {completed : List Completion} {device : Device}
    (h : DeviceSound queue mem asked completed device) (hbusy : device ≠ .idle) :
    ∃ request, asked[completed.length]? = some request := by
  cases device with
  | idle => exact absurd rfl hbusy
  | fetched head =>
      obtain ⟨request, hrequest, -⟩ := h
      exact ⟨request, hrequest⟩
  | named head =>
      obtain ⟨⟨request, hrequest, -⟩, -⟩ := h
      exact ⟨request, hrequest⟩
  | filled entry =>
      obtain ⟨⟨request, hrequest, -⟩, -⟩ := h
      exact ⟨request, hrequest⟩

/-- The indices count the requests and the entries, which are one apart at most. -/
structure Sound (queue : Queue) (frameBytes : ℕ) (mem₀ : ByteMemory) (w : World) : Prop where
  outside : ∀ a, a < queue.base ∨ queue.base + frameBytes ≤ a → w.mem a = mem₀ a
  behind : w.completed.length ≤ w.asked.length
  near : w.asked.length ≤ w.completed.length + 1
  availableIndex : readU16 w.mem queue.availableIndexAt = .ofNat w.asked.length
  usedIndex : readU16 w.mem queue.usedIndexAt = .ofNat w.completed.length
  seen : w.seen = .ofNat w.completed.length
  slots : ∀ (n : ℕ) (request : Asked), w.asked[n]? = some request →
    request.slot = queue.availableSlotAt (.ofNat n)
  heads : ∀ (n : ℕ) (entry : Completion), w.completed[n]? = some entry →
    ∃ request : Asked, w.asked[n]? = some request ∧ request.head.toNat = entry.head
  answers : ∀ (n : ℕ) (entry : Completion), w.answers[n]? = some (some entry) →
    w.completed[n]? = some entry
  driver : DriverSound queue w.mem w.asked.length w.answers.length w.completed.length w.driver
  device : DeviceSound queue w.mem w.asked w.completed w.device

lemma sound_new (queue : Queue) (frameBytes : ℕ) {mem : ByteMemory}
    (havailable : readU16 mem queue.availableIndexAt = 0)
    (hused : readU16 mem queue.usedIndexAt = 0) :
    Sound queue frameBytes mem (World.new mem) := by
  refine ⟨fun _ _ => rfl, le_refl _, Nat.zero_le _, havailable, hused, rfl, ?_, ?_, ?_,
    rfl, ?_, ?_⟩ <;>
  simp [World.new]

namespace Sound

variable {queue : Queue} {frameBytes : ℕ} {mem₀ : ByteMemory} {w : World}

/-- The wait ends with the completion that is waited for. -/
lemma usedIndex_iff (h : Sound queue frameBytes mem₀ w) :
    readU16 w.mem queue.usedIndexAt = .ofNat w.asked.length
      ↔ w.completed.length = w.asked.length := by
  rw [h.usedIndex]
  exact ofNat_inj_of_near h.behind h.near

/-- A device that is not behind has nothing in hand. -/
lemma device_idle (h : Sound queue frameBytes mem₀ w)
    (hdone : w.completed.length = w.asked.length) :
    w.device = .idle := by
  by_contra hbusy
  obtain ⟨request, hrequest⟩ := h.device.taken hbusy
  rw [List.getElem?_eq_none (Nat.le_of_eq hdone.symm)] at hrequest
  cases hrequest

/-- While the device is behind, the request waits for it or was given up on, and depends on
nothing else. -/
lemma driver_behind (h : Sound queue frameBytes mem₀ w)
    (hbusy : w.completed.length < w.asked.length) (mem : ByteMemory) (completed : ℕ) :
    DriverSound queue mem w.asked.length w.answers.length completed w.driver := by
  have hdriver := h.driver
  cases hstate : w.driver with
  | idle =>
      rw [hstate] at hdriver
      exact hdriver
  | waiting published looks =>
      rw [hstate] at hdriver
      exact hdriver
  | describing chain head =>
      rw [hstate] at hdriver
      exact absurd hdriver.2 (Nat.ne_of_lt hbusy)
  | storing head index =>
      rw [hstate] at hdriver
      exact absurd hdriver.2.1 (Nat.ne_of_lt hbusy)
  | showing head index =>
      rw [hstate] at hdriver
      exact absurd hdriver.2.1 (Nat.ne_of_lt hbusy)
  | reading published =>
      rw [hstate] at hdriver
      exact absurd hdriver.2.1 (Nat.ne_of_lt hbusy)
  | readingWritten published head =>
      rw [hstate] at hdriver
      exact absurd hdriver.2.1 (Nat.ne_of_lt hbusy)

/-- A request that goes on without having written. -/
lemma with_driver (h : Sound queue frameBytes mem₀ w) {driver : Driver}
    (hdriver : DriverSound queue w.mem w.asked.length w.answers.length w.completed.length driver)
      :
    Sound queue frameBytes mem₀ { w with driver } :=
  ⟨h.outside, h.behind, h.near, h.availableIndex, h.usedIndex, h.seen, h.slots, h.heads,
    h.answers, hdriver, h.device⟩

/-- A request that comes back, with the entry that was completed for it or with none. -/
lemma with_answer (h : Sound queue frameBytes mem₀ w) {answer : Option Completion}
    (hcount : w.answers.length + 1 = w.asked.length)
    (hanswer : ∀ entry, answer = some entry → w.completed[w.answers.length]? = some entry) :
    Sound queue frameBytes mem₀ { w with driver := .idle, answers := w.answers ++ [answer] } := by
  refine ⟨h.outside, h.behind, h.near, h.availableIndex, h.usedIndex, h.seen, h.slots, h.heads,
    ?_, ?_, h.device⟩
  · intro n entry hn
    obtain hold | ⟨rfl, hnew⟩ := getElem?_concat_some.mp hn
    · exact h.answers n entry hold
    · exact hanswer entry hnew
  · change (w.answers ++ [answer]).length = w.asked.length
    rw [List.length_append, List.length_singleton, hcount]

variable (hfits : queue.Fits frameBytes)

include hfits

lemma describe (h : Sound queue frameBytes mem₀ w) (index : UInt16) (descriptor : Descriptor)
    (rest : List (UInt16 × Descriptor)) (head : UInt16)
    (hcounts : w.answers.length = w.asked.length ∧ w.completed.length = w.asked.length) :
    Sound queue frameBytes mem₀
      { w with mem := (queue.setDescriptor w.mem index descriptor).2, driver := .describing rest head } := by
  have hword {addr : ℕ} (width : ℕ) (ha : queue.base + 0x400 ≤ addr) :=
    setDescriptor_word hfits w.mem index descriptor width ha
  obtain ⟨havailable, hused, -, -, -, -, hframe⟩ := addresses hfits 0
  have hidle := h.device_idle hcounts.2
  have hdevice := h.device
  refine ⟨?_, h.behind, h.near, ?_, ?_, h.seen, h.slots, h.heads, h.answers, hcounts, ?_⟩
  · intro a ha
    exact (setDescriptor_outside hfits _ _ _ (by omega)).trans (h.outside a ha)
  · rw [readU16, hword 2 (by omega)]
    exact h.availableIndex
  · rw [readU16, hword 2 (by omega)]
    exact h.usedIndex
  · dsimp only
    rw [hidle] at hdevice ⊢
    refine ⟨fun request hrequest => ?_, fun entry hentry => ?_⟩
    · obtain ⟨-, -, hslot, -⟩ := addresses hfits (.ofNat w.completed.length)
      rw [readU16, hword 2 (by omega)]
      exact hdevice.1 request hrequest
    · obtain ⟨-, -, -, -, hslot, -⟩ := addresses hfits (.ofNat (w.completed.length - 1))
      rw [Queue.completion, hword 4 (by omega), hword 4 (by omega)]
      exact hdevice.2 entry hentry

/-- The head is put in the slot of the available ring that is next. -/
lemma store (h : Sound queue frameBytes mem₀ w) (head : UInt16)
    (hcounts : w.answers.length = w.asked.length ∧ w.completed.length = w.asked.length) :
    Sound queue frameBytes mem₀
      { w with
        mem := setWord w.mem (queue.availableSlotAt (.ofNat w.asked.length)) head.toNat 2
        driver := .showing head (.ofNat w.asked.length) } := by
  obtain ⟨havailable, hused, hlow, hhigh, -, -, hframe⟩ := addresses hfits (.ofNat w.asked.length)
  have hidle := h.device_idle hcounts.2
  have hdevice := h.device
  refine ⟨?_, h.behind, h.near, ?_, ?_, h.seen, h.slots, h.heads, h.answers, ?_, ?_⟩
  · intro a ha
    exact (setWord_of_outside (by omega)).trans (h.outside a ha)
  · exact (readU16_apart (by omega)).trans h.availableIndex
  · exact (readU16_apart (by omega)).trans h.usedIndex
  · exact ⟨hcounts.1, hcounts.2, rfl, readU16_setWord _ _ _⟩
  · dsimp only
    rw [hidle] at hdevice ⊢
    refine ⟨fun request hrequest => ?_, fun entry hentry => ?_⟩
    · rw [List.getElem?_eq_none (Nat.le_of_eq hcounts.2.symm)] at hrequest
      cases hrequest
    · obtain ⟨-, -, -, -, hslot, -⟩ := addresses hfits (.ofNat (w.completed.length - 1))
      rw [completion_apart (by omega)]
      exact hdevice.2 entry hentry

/-- And made visible. -/
lemma showHead (h : Sound queue frameBytes mem₀ w) (head : UInt16)
    (hcounts : w.answers.length = w.asked.length ∧ w.completed.length = w.asked.length)
    (hslot : readU16 w.mem (queue.availableSlotAt (.ofNat w.asked.length)) = head) :
    Sound queue frameBytes mem₀
      { w with
        mem := setWord w.mem queue.availableIndexAt (UInt16.ofNat w.asked.length + 1).toNat 2
        driver := .waiting (.ofNat w.asked.length + 1) 0
        asked := w.asked ++ [⟨head, queue.availableSlotAt (.ofNat w.asked.length)⟩] } := by
  obtain ⟨havailable, hused, hlow, hhigh, -, -, hframe⟩ := addresses hfits (.ofNat w.asked.length)
  have hidle := h.device_idle hcounts.2
  have hdevice := h.device
  have hlength (request : Asked) : (w.asked ++ [request]).length = w.asked.length + 1 := by
    rw [List.length_append, List.length_singleton]
  have hnext := ofNat_add_one w.asked.length
  refine ⟨?_, ?_, ?_, ?_, ?_, h.seen, ?_, ?_, h.answers, ?_, ?_⟩
  · intro a ha
    exact (setWord_of_outside (by omega)).trans (h.outside a ha)
  · rw [hlength]
    exact Nat.le_succ_of_le h.behind
  · rw [hlength]
    exact Nat.succ_le_succ (Nat.le_of_eq hcounts.2.symm)
  · rw [hlength, ← hnext]
    exact readU16_setWord _ _ _
  · exact (readU16_apart (by omega)).trans h.usedIndex
  · intro n request hn
    obtain hold | ⟨rfl, rfl⟩ := getElem?_concat_some.mp hn
    · exact h.slots n request hold
    · rfl
  · intro n entry hn
    obtain ⟨request, hrequest, hhead⟩ := h.heads n entry hn
    exact ⟨request, getElem?_concat_some.mpr (.inl hrequest), hhead⟩
  · rw [hlength]
    exact ⟨by rw [hcounts.1], hnext⟩
  · dsimp only
    rw [hidle] at hdevice ⊢
    refine ⟨fun request hrequest => ?_, fun entry hentry => ?_⟩
    · rw [hcounts.2, List.getElem?_concat_length] at hrequest
      obtain rfl := Option.some.inj hrequest
      rw [hcounts.2, readU16_apart (by omega)]
      exact hslot
    · obtain ⟨-, -, -, -, hslot, -⟩ := addresses hfits (.ofNat (w.completed.length - 1))
      rw [completion_apart (by omega)]
      exact hdevice.2 entry hentry

/-- Whatever the request does next. -/
lemma stepDriver (h : Sound queue frameBytes mem₀ w) :
    Sound queue frameBytes mem₀ (w.stepDriver queue) := by
  have hdriver := h.driver
  rw [World.stepDriver]
  cases hstate : w.driver with
  | idle => exact h
  | describing chain head =>
      rw [hstate] at hdriver
      cases chain with
      | nil => exact h.with_driver ⟨hdriver.1, hdriver.2, h.availableIndex⟩
      | cons first rest => exact h.describe hfits first.1 first.2 rest head hdriver
  | storing head index =>
      rw [hstate] at hdriver
      obtain ⟨hanswers, hcompleted, rfl⟩ := hdriver
      exact h.store hfits head ⟨hanswers, hcompleted⟩
  | showing head index =>
      rw [hstate] at hdriver
      obtain ⟨hanswers, hcompleted, rfl, hslot⟩ := hdriver
      exact h.showHead hfits head ⟨hanswers, hcompleted⟩ hslot
  | waiting published looks =>
      rw [hstate] at hdriver
      obtain ⟨hanswers, rfl⟩ := hdriver
      dsimp only
      split_ifs with hdone hlimit
      · exact h.with_driver ⟨hanswers, h.usedIndex_iff.mp hdone, rfl⟩
      · exact h.with_answer hanswers fun entry hentry => by cases hentry
      · exact h.with_driver ⟨hanswers, rfl⟩
  | reading published =>
      rw [hstate] at hdriver
      obtain ⟨hanswers, hcompleted, rfl⟩ := hdriver
      refine h.with_driver ⟨hanswers, hcompleted, rfl, ?_⟩
      rw [← hanswers, ofNat_succ_sub_one]
      rfl
  | readingWritten published head =>
      rw [hstate] at hdriver
      obtain ⟨hanswers, hcompleted, rfl, hhead⟩ := hdriver
      refine h.with_answer hanswers fun entry hentry => ?_
      have hdevice := h.device
      rw [h.device_idle hcompleted] at hdevice
      have hlt : w.answers.length < w.completed.length := by omega
      have hcount : w.completed.length - 1 = w.answers.length := by omega
      have hlast : w.completed.getLast? = some w.completed[w.answers.length] := by
        rw [List.getLast?_eq_getElem?, hcount, List.getElem?_eq_getElem hlt]
      have hread := hdevice.2 _ hlast
      rw [hcount] at hread
      rw [List.getElem?_eq_getElem hlt, ← hread, ← Option.some.inj hentry, ← hanswers,
        ofNat_succ_sub_one, ← hhead]
      rfl

/-- The device writes in the used ring. -/
lemma with_used (h : Sound queue frameBytes mem₀ w) {addr value width : ℕ} {device : Device}
    (hlow : queue.base + 0x804 ≤ addr) (hhigh : addr + width ≤ queue.base + frameBytes)
    (hbusy : w.completed.length < w.asked.length)
    (hdevice : DeviceSound queue (setWord w.mem addr value width) w.asked w.completed device) :
    Sound queue frameBytes mem₀ { w with mem := setWord w.mem addr value width, device } := by
  obtain ⟨havailable, hused, -, -, -, -, hframe⟩ := addresses hfits 0
  refine ⟨?_, h.behind, h.near, ?_, ?_, h.seen, h.slots, h.heads, h.answers, ?_, hdevice⟩
  · intro a ha
    exact (setWord_of_outside (by omega)).trans (h.outside a ha)
  · exact (readU16_apart (by omega)).trans h.availableIndex
  · exact (readU16_apart (by omega)).trans h.usedIndex
  · exact h.driver_behind hbusy _ _

/-- The entry is made visible. -/
lemma finish (h : Sound queue frameBytes mem₀ w) {entry : Completion} {request : Asked}
    (hrequest : w.asked[w.completed.length]? = some request)
    (hhead : request.head.toNat = entry.head)
    (hentry : queue.completion w.mem (.ofNat w.completed.length) = entry) :
    Sound queue frameBytes mem₀
      { w with
        mem := setWord w.mem queue.usedIndexAt (UInt16.ofNat w.completed.length + 1).toNat 2
        device := .idle
        seen := .ofNat w.completed.length + 1
        completed := w.completed ++ [entry] } := by
  obtain ⟨hbusy, -⟩ := List.getElem?_eq_some_iff.mp hrequest
  obtain ⟨havailable, hused, -, -, hlow, -, hframe⟩ := addresses hfits (.ofNat w.completed.length)
  have hlength : (w.completed ++ [entry]).length = w.completed.length + 1 := by
    rw [List.length_append, List.length_singleton]
  have hnext := ofNat_add_one w.completed.length
  refine ⟨?_, ?_, ?_, ?_, ?_, ?_, h.slots, ?_, ?_, h.driver_behind hbusy _ _, ?_, ?_⟩
  · intro a ha
    exact (setWord_of_outside (by omega)).trans (h.outside a ha)
  · rw [hlength]
    exact hbusy
  · rw [hlength]
    exact Nat.le_succ_of_le h.near
  · exact (readU16_apart (by omega)).trans h.availableIndex
  · rw [hlength, ← hnext]
    exact readU16_setWord _ _ _
  · rw [hlength]
    exact hnext
  · intro n other hn
    obtain hold | ⟨rfl, rfl⟩ := getElem?_concat_some.mp hn
    · exact h.heads n other hold
    · exact ⟨request, hrequest, hhead⟩
  · intro n other hn
    exact getElem?_concat_some.mpr (.inl (h.answers n other hn))
  · -- one request at most is outstanding, and this was it
    intro later hlater
    have hnear := h.near
    rw [hlength, List.getElem?_eq_none hnear] at hlater
    cases hlater
  · intro other hother
    rw [List.getLast?_concat] at hother
    rw [hlength, Nat.add_sub_cancel, completion_apart (by omega), hentry]
    exact Option.some.inj hother

/-- Whatever the device does next. -/
lemma stepDevice (h : Sound queue frameBytes mem₀ w) (written : UInt32) :
    Sound queue frameBytes mem₀ (w.stepDevice queue written) := by
  have hdevice := h.device
  obtain ⟨-, -, -, -, hlow, hhigh, -⟩ := addresses hfits (.ofNat w.completed.length)
  have hslot := congrArg queue.availableSlotAt h.seen
  have hentry := congrArg queue.usedSlotAt h.seen
  rw [World.stepDevice]
  cases hstate : w.device with
  | idle =>
      rw [hstate] at hdevice
      dsimp only
      split_ifs with hnothing
      · exact h
      · rw [h.availableIndex, h.seen, eq_comm, ofNat_inj_of_near h.behind h.near] at hnothing
        have hlt := Nat.lt_of_le_of_ne h.behind hnothing
        rw [hslot, hdevice.1 _ (List.getElem?_eq_getElem hlt)]
        exact ⟨h.outside, h.behind, h.near, h.availableIndex, h.usedIndex, h.seen, h.slots,
          h.heads, h.answers, h.driver, _, List.getElem?_eq_getElem hlt, rfl⟩
  | fetched head =>
      rw [hstate] at hdevice
      obtain ⟨request, hrequest, hhead⟩ := hdevice
      obtain ⟨hbusy, -⟩ := List.getElem?_eq_some_iff.mp hrequest
      dsimp only
      rw [hentry]
      refine h.with_used hfits hlow (by omega) hbusy ⟨⟨request, hrequest, hhead⟩, ?_⟩
      have hlt := head.toNat_lt
      rw [getWord_setWord, Nat.mod_eq_of_lt (by omega)]
  | named head =>
      rw [hstate] at hdevice
      obtain ⟨⟨request, hrequest, hhead⟩, hnamed⟩ := hdevice
      obtain ⟨hbusy, -⟩ := List.getElem?_eq_some_iff.mp hrequest
      dsimp only
      rw [hentry]
      refine h.with_used hfits (by omega) (by omega) hbusy
        ⟨⟨request, hrequest, congrArg UInt16.toNat hhead⟩, ?_⟩
      have hlt : written.toNat < 256 ^ 4 := written.toNat_lt
      rw [Queue.completion, getWord_setWord, getWord_setWord_apart (by omega), hnamed,
        UInt16.ofNat_toNat, Nat.mod_eq_of_lt hlt]
  | filled entry =>
      rw [hstate] at hdevice
      obtain ⟨⟨request, hrequest, hhead⟩, hfilled⟩ := hdevice
      dsimp only
      rw [h.seen]
      exact h.finish hfits hrequest hhead hfilled

/-- Any step of either side. -/
lemma step (h : Sound queue frameBytes mem₀ w) {w' : World} (hstep : Step queue w w') :
    Sound queue frameBytes mem₀ w' := by
  cases hstep with
  | begin chain head hidle hdone =>
      have hdriver := h.driver
      rw [hidle] at hdriver
      exact h.with_driver ⟨hdriver, hdone⟩
  | driver => exact h.stepDriver hfits
  | device written => exact h.stepDevice hfits written

end Sound

end Harlan.VirtioQueue
