import Harlan.Arch.Contexts

/-!
What holds of every run of the machine over many kernel stacks.

* `Sound`: what is kept of each task is what it left, and the CPU is told of the stack of the
  process that runs.
* `Happens.sound`, `sound_of_runs`: every step keeps it, so every run does.
* `parked_spec`, `began_spec`: a task that is taken up goes on where it left, or begins.
-/

namespace Harlan.Contexts

open Amd64 Descriptors Stubs

variable {ι : Type*} {k : Kernel} {w : World ι}

/-! ### What is held depends on what is kept -/

lemma top_of_held {p : Place} {mem : ByteMemory} {entry : Cpu} {why : Entered}
    (h : k.HeldEntry p mem entry why) :
    entry.sp ≤ p.top := by
  cases why with
  | own => exact h
  | call user => exact le_of_le_of_eq (Nat.le_add_right _ _) h.1
  | interrupt user => exact le_of_le_of_eq (Nat.le_add_right _ _) h.1

lemma HeldEntry.congr {p : Place} {mem mem' : ByteMemory} {entry : Cpu} {why : Entered}
    (hfits : k.Fits p) (h : k.HeldEntry p mem entry why)
    (hsame : ∀ a, why.Holds p entry a → mem' a = mem a) :
    k.HeldEntry p mem' entry why := by
  have hroom := hfits.room
  cases why with
  | own => exact h
  | call user =>
      obtain ⟨hsp, hback, hkept, hfirst, hrest⟩ := h
      refine ⟨hsp, ?_, hkept, ?_, ?_⟩
      · rw [← hback]
        exact load_congr fun a hlow hhigh => hsame a (Or.inl ⟨hlow, hhigh⟩)
      · exact hfirst.congr fun a hlow hhigh => hsame a (Or.inr (Or.inl ⟨hlow, by
          simp only [List.length_cons, List.length_nil] at hhigh; omega⟩))
      · exact hrest.congr fun a hlow hhigh => hsame a (Or.inr (Or.inr ⟨hlow, by
          simp only [List.length_cons, List.length_nil] at hhigh; omega⟩))
  | interrupt user =>
      obtain ⟨hsp, hback, hrbx, hsaved, hframe, huser⟩ := h
      refine ⟨hsp, ?_, hrbx, ?_, ?_, huser⟩
      · rw [← hback]
        exact load_congr fun a hlow hhigh => hsame a (Or.inl ⟨hlow, hhigh⟩)
      · exact hsaved.congr fun a hlow hhigh => hsame a (Or.inr ⟨hlow, by
          simp only [interruptSaved, List.length_map, List.length_reverse, List.length_cons,
            List.length_nil] at hhigh
          omega⟩)
      · exact hframe.congr fun a hlow hhigh => hsame a (Or.inr ⟨by omega, by
          simp only [Context.frame, List.length_cons, List.length_nil] at hhigh; omega⟩)

/-- The bytes that are kept of an activation are on its stack, from where it comes back up. -/
lemma holds_entry {p : Place} {mem : ByteMemory} {entry : Cpu} {why : Entered} (hfits : k.Fits p)
    (h : k.HeldEntry p mem entry why) {a : ℕ} (ha : why.Holds p entry a) :
    entry.sp ≤ a ∧ a < p.top ∧ p.bottom ≤ a := by
  have hroom := hfits.room
  cases why with
  | own => cases ha
  | call user =>
      obtain ⟨hsp, -⟩ := h
      obtain ⟨_, _⟩ | ⟨_, _⟩ | ⟨_, _⟩ := ha <;> omega
  | interrupt user =>
      obtain ⟨hsp, -⟩ := h
      obtain ⟨_, _⟩ | ⟨_, _⟩ := ha <;> omega

/-- Where the task state segment has the stack of ring 0 is no byte of a place. -/
lemma Kernel.Fits.rsp0 {p : Place} (hfits : k.Fits p) : p.Clear (k.tr + 4) 8 := by
  have htss := hfits.tss
  rw [Place.Clear] at htss ⊢
  omega

/-- The bytes that are kept of a task are its own. -/
lemma has_of_holds {p : Place} {mem : ByteMemory} {phase : Phase} (hfits : k.Fits p)
    (h : k.Held p mem phase) {a : ℕ} (ha : phase.Holds p a) : p.Has a := by
  have hroom := hfits.room
  cases phase with
  | absent => cases ha
  | ring3 => cases ha
  | kernel why entry =>
      obtain ⟨-, hhigh, hlow⟩ := holds_entry hfits h ha
      exact ⟨hlow, hhigh⟩
  | parked why entry left =>
      obtain ⟨-, hbottom, -⟩ := h
      obtain ⟨hlow, hhigh⟩ := ha
      exact ⟨by omega, hhigh⟩
  | prepared entry argument =>
      obtain ⟨hlow, hhigh⟩ := ha
      exact ⟨by omega, hhigh⟩

lemma Held.congr {p : Place} {mem mem' : ByteMemory} {phase : Phase} (hfits : k.Fits p)
    (h : k.Held p mem phase) (hsame : ∀ a, phase.Holds p a → mem' a = mem a) :
    k.Held p mem' phase := by
  have hroom := hfits.room
  cases phase with
  | absent => trivial
  | ring3 => trivial
  | kernel why entry => exact HeldEntry.congr hfits h hsame
  | parked why entry left =>
      obtain ⟨hentry, hbottom, hbelow, hsaved, hsame'⟩ := h
      refine ⟨HeldEntry.congr hfits hentry fun a ha => ?_, hbottom, hbelow, ?_,
        fun a hlow hhigh => ?_⟩
      · obtain ⟨hlow, hhigh, -⟩ := holds_entry hfits hentry ha
        exact hsame a ⟨by omega, hhigh⟩
      · have htop := top_of_held hentry
        exact hsaved.congr fun a hlow hhigh => hsame a ⟨hlow, by
          simp only [switchSaved, List.length_map, List.length_reverse, List.length_cons,
            List.length_nil] at hhigh
          omega⟩
      · rw [hsame a ⟨by omega, hhigh⟩, hsame' a hlow hhigh]
  | prepared entry argument =>
      have hwords : Stacked mem (p.top - 80) (firstRunWords k.trampolineAt entry argument) := h
      exact hwords.congr fun a hlow hhigh => hsame a ⟨hlow, by
        simp only [firstRunWords, List.length_cons, List.length_nil] at hhigh; omega⟩

/-! ### The invariant -/

/-- The phases that only a process has. -/
def Phase.OfProcess : Phase → Prop
  | .ring3 => True
  | .kernel why _ => why ≠ .own
  | .parked why _ _ => why ≠ .own
  | .prepared _ _ => True
  | .absent => False

/-- What holds of the machine whoever runs. -/
structure Sound (k : Kernel) (w : World ι) : Prop where
  running : (w.phases w.current).Running
  alone : ∀ t ≠ w.current, ¬ (w.phases t).Running
  fits : ∀ t, w.phases t ≠ .absent → k.Fits (w.places t)
  apart : ∀ t t', t ≠ t' → w.phases t ≠ .absent → w.phases t' ≠ .absent →
    (w.places t).Apart (w.places t')
  held : ∀ t, k.Held (w.places t) w.cpu.mem (w.phases t)
  process : ∀ t, (w.phases t).OfProcess → (w.places t).process = true
  gates : TableAt w.cpu.mem k.idtr (installGates k.stubs .new)
  fixed : w.cpu.fixed = (star, k.syscallAt, fmask, k.idtr, k.tr)
  told : (w.places w.current).process = true → k.Told w.cpu.mem (w.places w.current).top
  calm : w.phases w.current ≠ .ring3 → w.cpu.Calm
  ring : w.phases w.current = .ring3 →
    w.cpu.cs = userCodeSelector.toUInt64 ∧ w.cpu.ss = userDataSelector.toUInt64

/-- The memory changed in a place, and in the words that the stubs and the switch use. -/
def Touches (k : Kernel) (p : Place) (mem mem' : ByteMemory) : Prop :=
  ∀ a, ¬ p.Has a → (a < k.scratch.toNat ∨ k.scratch.toNat + 8 ≤ a) →
    (a < k.kernelTop.toNat ∨ k.kernelTop.toNat + 8 ≤ a) → (a < k.tr + 4 ∨ k.tr + 12 ≤ a) →
    mem' a = mem a

lemma Touches.trans {p : Place} {mem mem' mem'' : ByteMemory} (h : Touches k p mem mem')
    (h' : Touches k p mem' mem'') :
    Touches k p mem mem'' := fun a hp hs ht hr => (h' a hp hs ht hr).trans (h a hp hs ht hr)

lemma Touches.gates {p : Place} {mem mem' : ByteMemory} {idt : Idt} (hfits : k.Fits p)
    (h : Touches k p mem mem') (hgates : TableAt mem k.idtr idt) : TableAt mem' k.idtr idt := by
  refine hgates.congr fun a hlow hhigh => h a (fun ha => ?_) ?_ ?_ ?_
  · have := hfits.idt.apart ha
    omega
  · have := k.scratch_idt
    omega
  · have := k.kernelTop_idt
    omega
  · have := k.idt_tss
    omega

namespace Sound

lemma present (hs : Sound k w) : w.phases w.current ≠ .absent := by
  intro habsent
  have hrunning := hs.running
  rw [habsent] at hrunning
  exact hrunning

lemma fitsCurrent (hs : Sound k w) : k.Fits (w.places w.current) := hs.fits _ hs.present

/-- What is kept of the others is out of reach of whoever runs. -/
lemma held_other (hs : Sound k w) {t : ι} (ht : t ≠ w.current) {mem' : ByteMemory}
    (h : Touches k (w.places w.current) w.cpu.mem mem') :
    k.Held (w.places t) mem' (w.phases t) := by
  by_cases habsent : w.phases t = .absent
  · rw [habsent]
    trivial
  · have hfits := hs.fits t habsent
    refine Held.congr hfits (hs.held t) fun a ha => ?_
    have hhas := has_of_holds hfits (hs.held t) ha
    refine h a (fun ha' => hs.apart _ _ (Ne.symm ht) hs.present habsent a ha' hhas)
      (hfits.scratch.apart hhas)
      (hfits.kernelTop.apart hhas) ?_
    have htss := hfits.tss.apart hhas
    omega

/-- A step of whoever runs, in its own place. -/
lemma within [DecidableEq ι] (hs : Sound k w) {cpu' : Cpu} {phase' : Phase}
    (htouch : Touches k (w.places w.current) w.cpu.mem cpu'.mem) (hrunning : phase'.Running)
    (hheld : k.Held (w.places w.current) cpu'.mem phase')
    (hprocess : phase'.OfProcess → (w.places w.current).process = true)
    (hfixed : cpu'.fixed = w.cpu.fixed)
    (htold : (w.places w.current).process = true → k.Told cpu'.mem (w.places w.current).top)
    (hcalm : phase' ≠ .ring3 → cpu'.Calm)
    (hring : phase' = .ring3 → cpu'.cs = userCodeSelector.toUInt64
      ∧ cpu'.ss = userDataSelector.toUInt64) :
    Sound k { w with cpu := cpu', phases := Function.update w.phases w.current phase' } := by
  have hpresent : ∀ t, Function.update w.phases w.current phase' t ≠ .absent →
      w.phases t ≠ .absent := by
    intro t ht habsent
    have hne : t ≠ w.current := by
      rintro rfl
      exact hs.present habsent
    rw [Function.update_of_ne hne] at ht
    exact ht habsent
  refine ⟨?_, fun t ht => ?_, fun t ht => hs.fits t (hpresent t ht),
    fun t t' hne ht ht' => hs.apart t t' hne (hpresent t ht) (hpresent t' ht'), fun t => ?_,
    fun t ht => ?_, htouch.gates hs.fitsCurrent hs.gates, hfixed.trans hs.fixed, htold,
    fun hnot => hcalm ?_, fun hring3 => hring ?_⟩
  · simpa only [Function.update_self] using hrunning
  · have hother := hs.alone t ht
    simpa only [Function.update_of_ne (show t ≠ w.current from ht)] using hother
  · by_cases heq : t = w.current
    · subst heq
      simpa only [Function.update_self] using hheld
    · simpa only [Function.update_of_ne heq] using hs.held_other heq htouch
  · by_cases heq : t = w.current
    · subst heq
      exact hprocess (by simpa only [Function.update_self] using ht)
    · exact hs.process t (by simpa only [Function.update_of_ne heq] using ht)
  · simpa only [Function.update_self] using hnot
  · simpa only [Function.update_self] using hring3

/-- A step of whoever runs that writes on its own stack only, and over the scratch word. -/
lemma onStack [DecidableEq ι] (hs : Sound k w) (cpu' : Cpu) (phase' : Phase)
    (hmem : ∀ a, ¬ (w.places w.current).Has a → (a < k.scratch.toNat ∨ k.scratch.toNat + 8 ≤ a) →
      cpu'.mem a = w.cpu.mem a)
    (hrunning : phase'.Running) (hheld : k.Held (w.places w.current) cpu'.mem phase')
    (hprocess : phase'.OfProcess → (w.places w.current).process = true)
    (hfixed : cpu'.fixed = w.cpu.fixed) (hcalm : phase' ≠ .ring3 → cpu'.Calm)
    (hring : phase' = .ring3 → cpu'.cs = userCodeSelector.toUInt64
      ∧ cpu'.ss = userDataSelector.toUInt64) :
    Sound k { w with cpu := cpu', phases := Function.update w.phases w.current phase' } := by
  have hfits := hs.fitsCurrent
  have hword : ∀ a, (w.places w.current).Clear a 8 →
      (k.scratch.toNat + 8 ≤ a ∨ a + 8 ≤ k.scratch.toNat) →
      load cpu'.mem a = load w.cpu.mem a := by
    intro a hclear hscratch
    refine load_congr fun b hlow hhigh => hmem b (fun hb => ?_) (by omega)
    have := hclear.apart hb
    omega
  have htop := hword k.kernelTop.toNat hfits.kernelTop (by have := k.scratch_apart; omega)
  have hrsp0 := hword (k.tr + 4) hfits.rsp0 (by have := k.scratch_tss; omega)
  refine hs.within (fun a hp hscratch _ _ => hmem a hp hscratch) hrunning hheld hprocess hfixed
    ?_ hcalm hring
  rw [Kernel.Told, htop, hrsp0]
  exact hs.told

end Sound

/-! ### A call and its return -/

/-- The frame of a call is what is kept of the program that made it. -/
lemma called_spec (hs : Sound k w) (hring3 : w.phases w.current = .ring3) :
    Dispatching w.cpu.syscall k.scratch k.dispatchAt k.dispatched (w.places w.current).top
      (k.called w.cpu) := by
  have hroom := hs.fitsCurrent.room
  have hlt := hs.fitsCurrent.top_lt
  have htold := (hs.told (hs.process _ (by rw [hring3]; trivial))).1
  refine syscallEntry_enters ?_ (by omega) k.scratch_apart
  rw [show w.cpu.syscall.mem = w.cpu.mem from rfl, htold, UInt64.toNat_ofNat',
    Nat.mod_eq_of_lt hlt]

/-- A register that `syscall` leaves. -/
lemma syscall_regs {cpu : Cpu} {r : Reg} (hrcx : r ≠ .rcx) (hr11 : r ≠ .r11) :
    cpu.syscall.regs r = cpu.regs r :=
  (Function.update_of_ne hr11 _ _).trans (Function.update_of_ne hrcx _ _)

/-- What is kept of a program that made a call. -/
lemma called_held (hs : Sound k w) (hring3 : w.phases w.current = .ring3) :
    k.Held (w.places w.current) (k.called w.cpu).mem
      (.kernel (.call w.cpu) (k.called w.cpu)) := by
  have hd := called_spec hs hring3
  have hroom := hs.fitsCurrent.room
  have hsp := hd.sp
  have hstacked := hd.stacked
  have hlow : (w.places w.current).top - 80 + 8 = (w.places w.current).top - 72 := by omega
  have hhigh : (w.places w.current).top - 72 + 8 + 8 + 8
      = (w.places w.current).top - 48 := by omega
  rw [show syscallSaved.reverse.map w.cpu.syscall.regs ++ [w.cpu.syscall.regs .rsp]
      = [w.cpu.regs .rax, w.cpu.regs .rdi, w.cpu.regs .rsi, w.cpu.regs .rdx, w.cpu.regs .r10,
        w.cpu.regs .r8, w.cpu.regs .r9, w.cpu.rip, w.cpu.rflags, w.cpu.regs .rsp] from
        rfl] at hstacked
  obtain ⟨-, hstacked⟩ := hstacked
  rw [hlow] at hstacked
  obtain ⟨hrdi, hrsi, -, hrest⟩ := hstacked
  rw [hhigh] at hrest
  refine ⟨hsp, ?_, fun r hr => ?_, ⟨hrdi, hrsi, trivial⟩, hrest⟩
  · rw [← hd.back, show (w.places w.current).top - 120 = (k.called w.cpu).sp by omega]
  · have hne : r ≠ .rsp ∧ r ≠ .rcx ∧ r ≠ .r11 := by
      revert hr
      cases r <;> decide
    rw [hd.regs r hne.1 hne.2.1, syscall_regs hne.2.1 hne.2.2]

/-- `syscall` sets no flag. -/
lemma syscall_calm {cpu : Cpu} (h : cpu.Calm) : cpu.syscall.Calm := and_trap h _

lemma called_calm {cpu : Cpu} (h : cpu.Calm) : (k.called cpu).Calm :=
  Block.run_calm k.alu _ (syscall_calm h) ⟨fun h => (by cases h), fun h => (by cases h)⟩

lemma Sound.calls [DecidableEq ι] (hs : Sound k w) (hring3 : w.phases w.current = .ring3)
    (hcalls : Calls w.cpu) :
    Sound k (w.call k) := by
  have hd := called_spec hs hring3
  have hroom := hs.fitsCurrent.room
  have hfixed : (k.called w.cpu).fixed = w.cpu.syscall.fixed := by
    rw [hd.system]
  refine hs.onStack _ _ (fun a hp hscratch => hd.outside a ?_ hscratch) trivial
    (called_held hs hring3)
    (fun _ => hs.process _ (by rw [hring3]; trivial)) hfixed (fun _ => called_calm hcalls.calm)
    (fun h => by cases h)
  by_contra hin
  exact hp ⟨by omega, by omega⟩

/-! ### An interrupt and its return -/

/-- What the processor reads for a vector, whoever runs. -/
lemma Sound.gate_eq (hs : Sound k w) (vector : UInt8) :
    w.cpu.gate vector =
      { offset := k.stubs.of vector, selector := kernelCodeSelector.toUInt64,
        ist := if vector = 8 then 1 else 0
        type := 0b1110, dpl := 0, present := true } := by
  have hidtr : w.cpu.idtr = k.idtr := congrArg (fun fixed => fixed.2.2.2.1) hs.fixed
  exact Descriptors.gate_eq (by rw [hidtr]; exact hs.gates) vector

/-- The processor puts the frame of an interrupt of ring 3 at the top of the stack it was told
of. -/
lemma frameTop_user (hs : Sound k w) (hring3 : w.phases w.current = .ring3) {vector : UInt8}
    (hvector : vector ≠ 8) :
    (w.cpu.frameTop (w.cpu.gate vector)).toNat = (w.places w.current).top := by
  have hfits := hs.fitsCurrent
  have haligned := hfits.aligned
  have hlt := hfits.top_lt
  have htr : w.cpu.tr = k.tr := congrArg (fun fixed => fixed.2.2.2.2) hs.fixed
  have hring : w.cpu.ring ≠ 0 := by
    rw [Cpu.ring, (hs.ring hring3).1]
    decide
  have hrsp0 : w.cpu.rsp0 = UInt64.ofNat (w.places w.current).top := by
    rw [Cpu.rsp0, htr]
    exact (hs.told (hs.process _ (by rw [hring3]; trivial))).2
  rw [hs.gate_eq, Cpu.frameTop, if_neg hvector, if_neg (fun h : (0 : ℕ) ≠ 0 => h rfl),
    if_neg hring, hrsp0, toNat_align, UInt64.toNat_ofNat', Nat.mod_eq_of_lt hlt]
  omega

/-- There is a gate for every vector. -/
lemma exists_delivered (hs : Sound k w) (hring3 : w.phases w.current = .ring3) (vector : UInt8)
    (code : Option UInt64) (hvector : vector ≠ 8) :
    ∃ delivered, w.cpu.deliver vector code = some delivered ∧
      Delivered w.cpu vector code (w.places w.current).top delivered := by
  have hroom := hs.fitsCurrent.room
  exact deliver_spec code (by rw [hs.gate_eq]) (frameTop_user hs hring3 hvector) (by omega)

/-- What the processor leaves of an interrupt of ring 3. -/
lemma delivered_user (hs : Sound k w) (hring3 : w.phases w.current = .ring3) {vector : UInt8}
    {code : Option UInt64} {delivered : Cpu} (hvector : vector ≠ 8)
    (h : w.cpu.deliver vector code = some delivered) :
    Delivered w.cpu vector code (w.places w.current).top delivered := by
  obtain ⟨delivered', hdeliver, hspec⟩ := exists_delivered hs hring3 vector code hvector
  obtain rfl : delivered' = delivered := Option.some.inj (hdeliver.symm.trans h)
  exact hspec

lemma raised_user (hs : Sound k w) (hring3 : w.phases w.current = .ring3) {vector : UInt8}
    {code : Option UInt64} {delivered : Cpu} (hvector : vector ≠ 8)
    (h : w.cpu.deliver vector code = some delivered) :
    Raised k.toImage w.cpu vector code (w.places w.current).top
      (k.raised vector code.isSome delivered) := by
  have hfits := hs.fitsCurrent
  have hroom := hfits.room
  exact raised_spec k.toImage (delivered_user hs hring3 hvector h) hfits.aligned
    (by omega) hfits.top_lt

lemma Sound.interrupts [DecidableEq ι] (hs : Sound k w) (hring3 : w.phases w.current = .ring3)
    {vector : UInt8} {code : Option UInt64} {delivered : Cpu} (hvector : vector ≠ 8)
    (h : w.cpu.deliver vector code = some delivered) :
    Sound k (w.interrupt k vector code delivered) := by
  have hraised := raised_user hs hring3 hvector h
  have hroom := hs.fitsCurrent.room
  have hfixed : (k.raised vector code.isSome delivered).fixed = w.cpu.fixed := by
    rw [hraised.system]
    rfl
  refine hs.onStack _ _ (fun a hp _ => hraised.outside a ?_) trivial ?_
    (fun _ => hs.process _ (by rw [hring3]; trivial)) hfixed
    (fun _ => k.raised_calm _ _ (delivered_user hs hring3 hvector h).calm) (fun h => by cases h)
  · by_contra hin
    exact hp ⟨by omega, by omega⟩
  · have hframe := hraised.frame
    obtain ⟨-, -, hpushed⟩ := hraised.pushed
    rw [show (w.places w.current).top - 56 + 8 + 8
      = (w.places w.current).top - 40 by omega] at hpushed
    exact ⟨hraised.sp, hraised.back, by rw [hraised.rbx]; exact hframe, hraised.saved, hpushed,
      hs.ring hring3⟩

lemma Sound.ignores [DecidableEq ι] (hs : Sound k w) (hring3 : w.phases w.current = .ring3)
    {vector : UInt8} {delivered : Cpu} (hvector : 0x21 < vector)
    (h : w.cpu.deliver vector none = some delivered) :
    delivered.iretq.context = w.cpu.context ∧ Sound k { w with cpu := delivered.iretq } := by
  have hne : vector ≠ 8 := by
    rintro rfl
    exact absurd hvector (by decide)
  have hdelivered := delivered_user hs hring3 hne h
  have hroom := hs.fitsCurrent.room
  have hstart : (w.cpu.set .rsp (UInt64.ofNat (w.places w.current).top)).sp
      = (w.places w.current).top := by
    rw [Cpu.sp_set, UInt64.toNat_ofNat', Nat.mod_eq_of_lt hs.fitsCurrent.top_lt]
  have hcontext : delivered.iretq.context = w.cpu.context :=
    iretq_context (fun r hr => (hdelivered.pushed.regs r hr).trans (Function.update_of_ne hr _ _))
      hdelivered.pushed.stacked
  have hfixed : delivered.iretq.fixed = w.cpu.fixed := by
    have hsystem : delivered.fixed = w.cpu.fixed := by
      rw [hdelivered.system]
      rfl
    exact hsystem
  have hsp := hdelivered.pushed.sp
  rw [hstart] at hsp
  have hsound := hs.onStack delivered.iretq .ring3 (fun a hp _ => hdelivered.pushed.outside a (by
      rw [hstart]
      by_contra hin
      simp only [Option.toList_none, List.append_nil, List.length_cons, List.length_nil] at hsp
      exact hp ⟨by omega, by omega⟩)) trivial trivial
    (fun _ => hs.process _ (by rw [hring3]; trivial)) hfixed (fun hnot => absurd rfl hnot)
    (fun _ => by
      rw [show delivered.iretq.cs = w.cpu.cs from congrArg Context.cs hcontext,
        show delivered.iretq.ss = w.cpu.ss from congrArg Context.ss hcontext]
      exact hs.ring hring3)
  rw [← hring3, Function.update_eq_self] at hsound
  exact ⟨hcontext, hsound⟩

/-! ### Back in ring 3 -/

/-- A program goes on after a call: where it was, with every register but the two that `syscall`
itself takes and the two that the kernel answers in. -/
structure Answered (user cpu : Cpu) : Prop where
  rip : cpu.rip = user.rip
  rflags : cpu.rflags = Cpu.sysretFlags user.rflags
  regs : ∀ r, r ≠ .rax → r ≠ .rdx → r ≠ .rcx → r ≠ .r11 → cpu.regs r = user.regs r
  rcx : cpu.regs .rcx = user.rip
  r11 : cpu.regs .r11 = user.rflags
  cs : cpu.cs = userCodeSelector.toUInt64
  ss : cpu.ss = userDataSelector.toUInt64

lemma star_eq (hs : Sound k w) : w.cpu.star = star := congrArg (fun fixed => fixed.1) hs.fixed

/-- The rest of the stub takes what is kept of a program that made a call back to it. -/
lemma answered_spec (hs : Sound k w) {user entry : Cpu}
    (h : w.phases w.current = .kernel (.call user) entry) (hback : CameBack entry w.cpu) :
    k.Reaches w.cpu (k.answered w.cpu) ∧ Answered user (k.answered w.cpu) ∧
      (k.answered w.cpu).mem = w.cpu.mem ∧ (k.answered w.cpu).fixed = w.cpu.fixed := by
  have hheld := hs.held w.current
  rw [h] at hheld
  obtain ⟨hsp, hdispatched, hkept, ⟨hrdi, hrsi, -⟩, hr10, hr8, hr9, hrip, hrflags, hrsp, -⟩ :=
    hheld
  have hlt := hs.fitsCurrent.top_lt
  have hroom := hs.fitsCurrent.room
  have hstar := star_eq hs
  generalize (w.places w.current).top = top at *
  have hresumed := syscallEntry_leaves k.alu 0
    (show w.cpu.sp + 112 = top by have := hback.sp; omega) hlt
  -- the rest of the stub runs to its sysretq
  have hreaches : k.Reaches w.cpu (k.answered w.cpu) := by
    obtain ⟨next, hstands⟩ := k.syscallEntryRest_stands
    rw [← hdispatched, ← hback.rip] at hstands
    have hgo := Block.reaches k.alu
      (hs.calm (by rw [h]; exact fun hring3 => by cases hring3)) hstands
    rwa [run_next (by intro target h; cases h) k.alu next 0] at hgo
  rw [show syscallEntryRest.run k.alu 0 w.cpu = k.answered w.cpu from rfl] at hresumed
  generalize k.answered w.cpu = cpu at hresumed hreaches ⊢
  -- the frame still holds what the entry saved
  have hword : ∀ {a b : ℕ} {v : UInt64}, load w.cpu.mem b = v → a = b → load w.cpu.mem a = v := by
    rintro a b v hb rfl
    exact hb
  have hrdi' : (SyscallFrame.read w.cpu.mem (top - 80)).rdi = user.regs .rdi :=
    hword hrdi (by omega)
  have hrsi' : (SyscallFrame.read w.cpu.mem (top - 80)).rsi = user.regs .rsi :=
    hword hrsi (by omega)
  have hr10' : (SyscallFrame.read w.cpu.mem (top - 80)).r10 = user.regs .r10 :=
    hword hr10 (by omega)
  have hr8' : (SyscallFrame.read w.cpu.mem (top - 80)).r8 = user.regs .r8 := hword hr8 (by omega)
  have hr9' : (SyscallFrame.read w.cpu.mem (top - 80)).r9 = user.regs .r9 := hword hr9 (by omega)
  have hrip' : (SyscallFrame.read w.cpu.mem (top - 80)).userRip = user.rip :=
    hword hrip (by omega)
  have hrflags' : (SyscallFrame.read w.cpu.mem (top - 80)).userRflags = user.rflags :=
    hword hrflags (by omega)
  have hrsp' : load w.cpu.mem (top - 8) = user.regs .rsp := hword hrsp (by omega)
  have hown : ∀ r ∈ calleeSaved, w.cpu.regs r = user.regs r :=
    fun r hr => (hback.kept r hr).trans (hkept r hr)
  refine ⟨hreaches, ⟨?_, ?_, fun r hrax hrdx hrcx hr11 => ?_, ?_, ?_, ?_, ?_⟩, hresumed.mem,
    hresumed.fixed⟩
  · rw [hresumed.rip, hrip']
  · rw [hresumed.rflags, hrflags']
  · rw [hresumed.regs r]
    generalize SyscallFrame.read w.cpu.mem (top - 80) = f at *
    cases r with
    | rax => exact absurd rfl hrax
    | rdx => exact absurd rfl hrdx
    | rcx => exact absurd rfl hrcx
    | r11 => exact absurd rfl hr11
    | rdi => exact hrdi'
    | rsi => exact hrsi'
    | r10 => exact hr10'
    | r8 => exact hr8'
    | r9 => exact hr9'
    | rsp => exact hrsp'
    | rbx => exact hown .rbx (by decide)
    | rbp => exact hown .rbp (by decide)
    | r12 => exact hown .r12 (by decide)
    | r13 => exact hown .r13 (by decide)
    | r14 => exact hown .r14 (by decide)
    | r15 => exact hown .r15 (by decide)
  · rw [hresumed.regs .rcx]
    exact hrip'
  · rw [hresumed.regs .r11]
    exact hrflags'
  · rw [hresumed.cs, hstar, star_sysret.1]
  · rw [hresumed.ss, hstar, star_sysret.2]

lemma Sound.answers [DecidableEq ι] (hs : Sound k w) {user entry : Cpu}
    (h : w.phases w.current = .kernel (.call user) entry) (hback : CameBack entry w.cpu) :
    Sound k (w.answer k) := by
  obtain ⟨-, hanswered, hmem, hfixed⟩ := answered_spec hs h hback
  exact hs.onStack _ _ (fun a _ _ => congrFun hmem a) trivial trivial
    (fun _ => hs.process _ (by rw [h]; exact fun hown => by cases hown)) hfixed
    (fun hnot => absurd rfl hnot) (fun _ => ⟨hanswered.cs, hanswered.ss⟩)

/-- The rest of the trampoline takes what is kept of a program that was interrupted back to it. -/
lemma resumed_spec (hs : Sound k w) {user entry : Cpu}
    (h : w.phases w.current = .kernel (.interrupt user) entry) (hback : CameBack entry w.cpu) :
    k.Reaches w.cpu (k.resumed w.cpu) ∧ (k.resumed w.cpu).context = user.context ∧
      (k.resumed w.cpu).mem = w.cpu.mem ∧
      (k.resumed w.cpu).toSystem = { w.cpu.toSystem with cs := user.cs, ss := user.ss } := by
  have hheld := hs.held w.current
  rw [h] at hheld
  obtain ⟨hsp, hhandled, hrbx, hsaved, hframe, -⟩ := hheld
  have hlt := hs.fitsCurrent.top_lt
  have hroom := hs.fitsCurrent.room
  have hat : (w.cpu.regs .rbx).toNat = (w.places w.current).top - 304 := by
    rw [hback.kept .rbx (by decide)]
    omega
  rw [show (w.places w.current).top - 40
    = (w.places w.current).top - 304 + 264 by omega] at hframe
  exact ⟨resumed_reaches (hs.calm (by rw [h]; exact fun hring3 => by cases hring3))
    (hback.rip.trans hhandled), trampoline_leaves k.alu 0 hat (by omega) hsaved hframe⟩

lemma Sound.resumes [DecidableEq ι] (hs : Sound k w) {user entry : Cpu}
    (h : w.phases w.current = .kernel (.interrupt user) entry) (hback : CameBack entry w.cpu) :
    Sound k (w.resume k) := by
  obtain ⟨-, hcontext, hmem, hsystem⟩ := resumed_spec hs h hback
  have hheld := hs.held w.current
  rw [h] at hheld
  obtain ⟨-, -, -, -, -, hcs, hss⟩ := hheld
  have hfixed : (k.resumed w.cpu).fixed = w.cpu.fixed := by
    rw [hsystem]
    rfl
  exact hs.onStack _ _ (fun a _ _ => congrFun hmem a) trivial trivial
    (fun _ => hs.process _ (by rw [h]; exact fun hown => by cases hown)) hfixed
    (fun hnot => absurd rfl hnot)
    (fun _ => ⟨(congrArg Context.cs hcontext).trans hcs,
    (congrArg Context.ss hcontext).trans hss⟩)

/-- A program starts with nothing of the kernel's. -/
lemma started_spec (hs : Sound k w) (hkernel : w.phases w.current ≠ .ring3)
    (hrip : w.cpu.rip = k.enterAt) :
    k.Reaches w.cpu (k.started w.cpu) ∧
      (k.started w.cpu).context =
        { regs := startingRegs (w.cpu.regs .rcx) (w.cpu.regs .rdx)
          rip := w.cpu.regs .rcx
          rflags := userRflags
          cs := userCodeSelector.toUInt64
          ss := userDataSelector.toUInt64 } ∧
      (k.started w.cpu).mem = w.cpu.mem ∧ (k.started w.cpu).fixed = w.cpu.fixed := by
  obtain ⟨next, hstands⟩ := k.enter_stands
  rw [← hrip] at hstands
  have hgo := Block.reaches k.alu (hs.calm hkernel) hstands
  rw [run_next (by intro target h; cases h) k.alu next 0] at hgo
  obtain ⟨hcontext, hmem, hsystem⟩ := enter_run k.alu w.cpu 0
  rw [star_eq hs, star_sysret.1, star_sysret.2] at hcontext
  refine ⟨hgo, hcontext, hmem, ?_⟩
  rw [show (k.started w.cpu).toSystem = _ from hsystem]
  rfl

lemma Sound.enters [DecidableEq ι] (hs : Sound k w) (hkernel : w.phases w.current ≠ .ring3)
    (hprocess : (w.places w.current).process = true) (hrip : w.cpu.rip = k.enterAt) :
    Sound k (w.start k) := by
  obtain ⟨-, hcontext, hmem, hfixed⟩ := started_spec hs hkernel hrip
  exact hs.onStack _ _ (fun a _ _ => congrFun hmem a) trivial trivial (fun _ => hprocess) hfixed
    (fun hnot => absurd rfl hnot)
    (fun _ => ⟨congrArg Context.cs hcontext, congrArg Context.ss hcontext⟩)

/-! ### Compiled code -/

/-- Whoever runs may do what it likes with the rest. -/
lemma Sound.keeps (hs : Sound k w) {cpu : Cpu} (hfixed : cpu.fixed = w.cpu.fixed)
    (hcalm : w.phases w.current ≠ .ring3 → cpu.Calm)
    (hring : w.phases w.current = .ring3 → cpu.cs = w.cpu.cs ∧ cpu.ss = w.cpu.ss)
    (hmem : ∀ a, w.Kept k a → cpu.mem a = w.cpu.mem a) : Sound k { w with cpu := cpu } := by
  refine ⟨hs.running, hs.alone, hs.fits, hs.apart, fun t => ?_, hs.process, ?_,
    hfixed.trans hs.fixed, fun hprocess => ?_, hcalm, fun hring3 => ?_⟩
  · by_cases habsent : w.phases t = .absent
    · rw [show ({ w with cpu := cpu } : World ι).phases t = .absent from habsent]
      trivial
    · exact Held.congr (hs.fits t habsent) (hs.held t) fun a ha => hmem a (Or.inl ⟨t, ha⟩)
  · exact hs.gates.congr fun a hlow hhigh => hmem a (Or.inr (Or.inr (Or.inl ⟨hlow, hhigh⟩)))
  · obtain ⟨htop, hrsp0⟩ := hs.told hprocess
    refine ⟨?_, ?_⟩
    · rw [← htop]
      exact load_congr fun a hlow hhigh => hmem a (Or.inr (Or.inl ⟨hlow, hhigh⟩))
    · rw [← hrsp0]
      exact load_congr fun a hlow hhigh => hmem a (Or.inr (Or.inr (Or.inr ⟨by omega, by omega⟩)))
  · obtain ⟨hcs, hss⟩ := hring hring3
    rw [show ({ w with cpu := cpu } : World ι).cpu = cpu from rfl, hcs, hss]
    exact hs.ring hring3

/-- Compiled code keeps what is kept. -/
lemma Sound.works (hs : Sound k w) {why : Entered} {entry cpu : Cpu}
    (h : w.phases w.current = .kernel why entry)
    (hsystem : cpu.toSystem = { w.cpu.toSystem with cr3 := cpu.cr3 }) (hcalm : cpu.Calm)
    (hmem : ∀ a, w.Kept k a → cpu.mem a = w.cpu.mem a) : Sound k { w with cpu := cpu } := by
  have hfixed : cpu.fixed = w.cpu.fixed := by
    rw [hsystem]
    rfl
  refine hs.keeps hfixed (fun _ => hcalm) (fun hring3 => ?_) hmem
  rw [h] at hring3
  cases hring3

/-- A task that does not run is given up. -/
lemma Sound.reaps [DecidableEq ι] (hs : Sound k w) {t : ι} (ht : t ≠ w.current) :
    Sound k { w with phases := Function.update w.phases t .absent } := by
  have hpresent : ∀ t', Function.update w.phases t .absent t' ≠ .absent →
      t' ≠ t ∧ w.phases t' ≠ .absent := by
    intro t' ht'
    have hne : t' ≠ t := by
      rintro rfl
      exact ht' (Function.update_self _ _ _)
    rw [Function.update_of_ne hne] at ht'
    exact ⟨hne, ht'⟩
  have hcurrent : Function.update w.phases t .absent w.current = w.phases w.current :=
    Function.update_of_ne (Ne.symm ht) _ _
  refine ⟨?_, fun t' ht' => ?_, fun t' ht' => hs.fits t' (hpresent t' ht').2,
    fun t' t'' hne ht' ht'' => hs.apart t' t'' hne (hpresent t' ht').2 (hpresent t'' ht'').2,
    fun t' => ?_, fun t' ht' => ?_, hs.gates, hs.fixed, hs.told, fun hnot => hs.calm fun hring3 =>
    hnot (hcurrent.trans hring3), fun hring3 => hs.ring (hcurrent.symm.trans hring3)⟩
  · simpa only [hcurrent] using hs.running
  · by_cases heq : t' = t
    · subst heq
      simp only [Function.update_self]
      exact id
    · simpa only [Function.update_of_ne heq] using hs.alone t' ht'
  · by_cases heq : t' = t
    · subst heq
      simp only [Function.update_self]
      trivial
    · simpa only [Function.update_of_ne heq] using hs.held t'
  · by_cases heq : t' = t
    · subst heq
      simp only [Function.update_self] at ht'
      cases ht'
    · exact hs.process t' (by simpa only [Function.update_of_ne heq] using ht')

/-! ### A stack for another -/

lemma tell_outside {told : Option ℕ} {mem : ByteMemory} {a : ℕ}
    (htop : a < k.kernelTop.toNat ∨ k.kernelTop.toNat + 8 ≤ a)
    (hrsp0 : a < k.tr + 4 ∨ k.tr + 12 ≤ a) :
    k.tell told mem a = mem a := by
  cases told with
  | none => rfl
  | some top =>
      rw [Kernel.tell, store_of_outside htop, setKernelStack,
        store_of_outside (by unfold rsp0Offset; omega)]

/-- What the CPU is told is in no place. -/
lemma tell_place {told : Option ℕ} {p : Place} {mem : ByteMemory} {a : ℕ} (hp : k.Fits p)
    (ha : p.Has a) :
    k.tell told mem a = mem a := by
  have htss := hp.tss.apart ha
  exact tell_outside (hp.kernelTop.apart ha) (by omega)

/-- Two stacks that have no byte in common follow one another. -/
lemma Place.Apart.stacks {p q : Place} (hp : k.Fits p) (hq : k.Fits q) (h : p.Apart q) :
    p.top ≤ q.bottom ∨ q.top ≤ p.bottom := by
  have hroom := hp.room
  have hroom' := hq.room
  by_contra hover
  have hmeet := h (max p.bottom q.bottom) ⟨le_max_left _ _, by omega⟩
  exact hmeet ⟨le_max_right _ _, by omega⟩

/-- The kernel's own flow may tell the CPU of any stack: no program runs on its own. -/
lemma Sound.tells (hs : Sound k w) {top : ℕ} {why : Entered} {entry : Cpu}
    (h : w.phases w.current = .kernel why entry)
    (hkernel : (w.places w.current).process = false) :
    Sound k { w with cpu := k.telling (some top) w.cpu } := by
  refine ⟨hs.running, hs.alone, hs.fits, hs.apart, fun t => ?_, hs.process, ?_, hs.fixed,
    fun hprocess => ?_, fun hnot => hs.calm hnot, fun hring3 => ?_⟩
  · by_cases habsent : w.phases t = .absent
    · simp only [habsent]
      trivial
    · have hfits := hs.fits t habsent
      refine Held.congr hfits (hs.held t) fun a ha => ?_
      exact show k.tell (some top) w.cpu.mem a = w.cpu.mem a from
        tell_place hfits (has_of_holds hfits (hs.held t) ha)
  · refine hs.gates.congr fun a hlow hhigh => ?_
    have htss := k.idt_tss
    have htop := k.kernelTop_idt
    exact show k.tell (some top) w.cpu.mem a = w.cpu.mem a from tell_outside (by omega) (by omega)
  · exact absurd (hprocess.symm.trans hkernel) (by decide)
  · exact absurd (h.symm.trans hring3) fun hphase => by cases hphase

/-- What holds of the task that is left, of the one that is taken up, and of the others as they
are. -/
lemma forall_switched [DecidableEq ι] {told : Option ℕ} {t : ι} {why : Entered} {entry : Cpu}
    {phase : Phase} (P : ι → Phase → Prop) (htaken : P t phase)
    (hleft : P w.current (.parked why entry (k.telling told w.cpu)))
    (hothers : ∀ t', t' ≠ t → t' ≠ w.current → P t' (w.phases t')) (t' : ι) :
    P t' (Function.update (w.park k told why entry) t phase t') := by
  by_cases heqt : t' = t
  · subst heqt
    rwa [Function.update_self]
  · rw [Function.update_of_ne heqt, World.park]
    by_cases heq : t' = w.current
    · subst heq
      rwa [Function.update_self]
    · rw [Function.update_of_ne heq]
      exact hothers t' heqt heq

section Leaving

variable {told : Option ℕ} {t : ι} {why : Entered} {entry cpu : Cpu}

/-- What a switch changes of the memory: eight words of the stack that is left, the word it saves
into, and the stack that is taken up. -/
def Leaves (k : Kernel) (w : World ι) (told : Option ℕ) (t : ι) (mem : ByteMemory) : Prop :=
  ∀ a, a < w.cpu.sp - 64 ∨ w.cpu.sp ≤ a → a < (w.cpu.regs .rcx).toNat
    ∨ (w.cpu.regs .rcx).toNat + 8 ≤ a →
    ¬ (w.places t).Has a → mem a = k.tell told w.cpu.mem a

/-- A byte of a stack in use is none of the word. -/
lemma Switching.apart (hswitch : Switching k w told t entry) {t' : ι}
    (ht' : w.phases t' ≠ .absent) {a : ℕ} (ha : (w.places t').Has a) : a < (w.cpu.regs .rcx).toNat
      ∨ (w.cpu.regs .rcx).toNat + 8 ≤ a :=
  (hswitch.saveTo.apart t' ht').apart ha

/-- Outside both stacks only the word it saves into and what the CPU is told change. -/
lemma Leaves.outside (hs : Sound k w) (h : w.phases w.current = .kernel why entry)
    (hswitch : Switching k w told t entry) {mem : ByteMemory}
    (hleaves : Leaves k w told t mem) {a : ℕ} (hcurrent : ¬ (w.places w.current).Has a)
    (ht : ¬ (w.places t).Has a)
    (hword : a < (w.cpu.regs .rcx).toNat ∨ (w.cpu.regs .rcx).toNat + 8 ≤ a) :
    mem a = k.tell told w.cpu.mem a := by
  have hentry := hs.held w.current
  rw [h] at hentry
  have htop := top_of_held hentry
  have hroom := hswitch.room
  have hbelow := hswitch.below
  refine hleaves a ?_ hword ht
  by_contra hin
  exact hcurrent ⟨by omega, by omega⟩

/-- The task that is left has what it needs to come back. -/
lemma Leaves.held (hs : Sound k w) (h : w.phases w.current = .kernel why entry)
    (hne : t ≠ w.current) (ht : w.phases t ≠ .absent) (hswitch : Switching k w told t entry)
    {mem : ByteMemory} (hleaves : Leaves k w told t mem)
    (hsaved : Stacked mem (w.cpu.sp - 64) (switchSaved.reverse.map w.cpu.regs)) :
    k.Held (w.places w.current) mem (.parked why entry (k.telling told w.cpu)) := by
  have hfits := hs.fitsCurrent
  have hapart := hs.apart _ _ (Ne.symm hne) hs.present ht
  have hentry := hs.held w.current
  rw [h] at hentry
  have hroom := hswitch.room
  have hbelow := hswitch.below
  have habove : ∀ a, w.cpu.sp ≤ a → a < (w.places w.current).top →
      mem a = k.tell told w.cpu.mem a := by
    intro a hlow hhigh
    have hhas : (w.places w.current).Has a := ⟨by omega, hhigh⟩
    exact hleaves a (Or.inr hlow) (hswitch.apart hs.present hhas) (hapart a hhas)
  refine ⟨HeldEntry.congr hfits hentry fun a ha => ?_, hroom, hbelow, hsaved, habove⟩
  obtain ⟨hlow, hhigh, hbottom⟩ := holds_entry hfits hentry ha
  rw [habove a (by omega) hhigh, tell_place hfits ⟨hbottom, hhigh⟩]

/-- Whoever runs leaves its stack for that of another. -/
lemma Sound.leaves [DecidableEq ι] (hs : Sound k w) {phase : Phase}
    (h : w.phases w.current = .kernel why entry) (hne : t ≠ w.current) (ht : w.phases t ≠ .absent)
    (hswitch : Switching k w told t entry)
    (hsaved : Stacked cpu.mem (w.cpu.sp - 64) (switchSaved.reverse.map w.cpu.regs))
    (hleaves : Leaves k w told t cpu.mem) (hheld : k.Held (w.places t) cpu.mem phase)
    (hrunning : phase.Running) (hkernel : phase ≠ .ring3)
    (hprocess : phase.OfProcess → (w.places t).process = true) (hfixed : cpu.fixed = w.cpu.fixed)
    (hcalm : cpu.Calm) :
    Sound k { w with
      cpu := cpu, current := t, phases :=
  Function.update (w.park k told why entry) t phase } := by
  have hfits := hs.fitsCurrent
  have hfits' := hs.fits t ht
  -- the phases of all but the two tasks of the switch stay
  have hself : Function.update (w.park k told why entry) t phase t = phase :=
    Function.update_self _ _ _
  have hpresent : ∀ t', Function.update (w.park k told why entry) t phase t' ≠ .absent →
      w.phases t' ≠ .absent :=
    forall_switched (fun t' phase => phase ≠ .absent → w.phases t' ≠ .absent) (fun _ => ht)
      (fun _ => hs.present)
      fun _ _ _ => id
  refine ⟨by simpa only [hself] using hrunning,
    forall_switched (fun t' phase => t' ≠ t → ¬ phase.Running) ?_ ?_ ?_,
    fun t' ht' => hs.fits t' (hpresent t' ht'),
    fun t' t'' hne' ht' ht'' => hs.apart t' t'' hne' (hpresent t' ht') (hpresent t'' ht''),
    forall_switched (fun t' => k.Held (w.places t') cpu.mem) ?_ ?_ ?_,
    forall_switched (fun t' phase => phase.OfProcess → (w.places t').process = true) ?_ ?_ ?_, ?_,
    hfixed.trans hs.fixed, fun hproc => ?_, fun _ => hcalm, fun hring3 => ?_⟩
  · exact fun hself => absurd rfl hself
  · exact fun _ hparked => hparked
  · exact fun t' _ hcurrent _ => hs.alone t' hcurrent
  · exact hheld
  · exact hleaves.held hs h hne ht hswitch hsaved
  -- somebody else, whose words the switch has not written
  · intro t' heqt heq
    by_cases habsent : w.phases t' = .absent
    · rw [habsent]
      trivial
    · have hfits3 := hs.fits t' habsent
      refine Held.congr hfits3 (hs.held t') fun a ha => ?_
      have hhas := has_of_holds hfits3 (hs.held t') ha
      rw [hleaves.outside hs h hswitch (hs.apart _ _ heq habsent hs.present a hhas)
        (hs.apart _ _ heqt habsent ht a hhas) (hswitch.apart habsent hhas),
        tell_place hfits3 hhas]
  · exact hprocess
  · exact fun hwhy => hs.process _ (by rw [h]; exact hwhy)
  · exact fun t' _ _ => hs.process t'
  · refine hs.gates.congr fun a hlow hhigh => ?_
    have htss := k.idt_tss
    have htopidt := k.kernelTop_idt
    have hidt := hswitch.saveTo.idt
    rw [hleaves.outside hs h hswitch (fun ha => ?_) (fun ha => ?_) (by omega),
      tell_outside (by omega) (by omega)]
    · have hclear := hfits.idt.apart ha
      omega
    · have hclear := hfits'.idt.apart ha
      omega
  -- the two words that are told to the processor
  · obtain ⟨htell, hrsp0⟩ := hswitch.told hproc
    have hword := hswitch.saveTo.kernelTop
    have htss := hswitch.saveTo.tss
    refine ⟨?_, ?_⟩
    · rw [← htell]
      refine load_congr fun a hlow hhigh => hleaves.outside hs h hswitch (fun ha => ?_)
        (fun ha => ?_) (by omega)
      · have hclear := hfits.kernelTop.apart ha
        omega
      · have hclear := hfits'.kernelTop.apart ha
        omega
    · rw [← hrsp0]
      refine load_congr fun a hlow hhigh => hleaves.outside hs h hswitch (fun ha => ?_)
        (fun ha => ?_) (by omega)
      · have hclear := hfits.tss.apart ha
        omega
      · have hclear := hfits'.tss.apart ha
        omega
  · simp only [hself] at hring3
    exact absurd hring3 hkernel

/-- `switch`, from a stack that has room for it to one where its words are. -/
lemma swapped_spec (hs : Sound k w) (h : w.phases w.current = .kernel why entry)
    (hne : t ≠ w.current) (ht : w.phases t ≠ .absent) (hswitch : Switching k w told t entry)
    {ws : List UInt64} {start : ℕ} (hstart : (w.cpu.regs .rdx).toNat = start)
    (hlen : ws.length = 8) (hlow : (w.places t).bottom ≤ start)
    (hhigh : start + 72 ≤ (w.places t).top) (hthere : Stacked w.cpu.mem start ws) :
    Swapped (k.telling told w.cpu) ws (k.swapped (k.telling told w.cpu)) := by
  have hfits := hs.fitsCurrent
  have hfits' := hs.fits t ht
  have hapart := hs.apart _ _ (Ne.symm hne) hs.present ht
  have hentry := hs.held w.current
  rw [h] at hentry
  have htop := top_of_held hentry
  have hroom := hswitch.room
  have hbelow := hswitch.below
  have hword := hswitch.saveTo.apart _ hs.present
  have hword' := hswitch.saveTo.apart t ht
  rw [Place.Clear] at hword hword'
  have hstacks := Place.Apart.stacks hfits hfits' hapart
  have hlt := hfits'.top_lt
  have hrcx : (k.telling told w.cpu).regs .rcx = w.cpu.regs .rcx := rfl
  have hrdx : ((k.telling told w.cpu).regs .rdx).toNat = start := hstart
  have hsp : (k.telling told w.cpu).sp = w.cpu.sp := rfl
  rw [← hrcx] at hword hword'
  refine switch_swaps (by omega) (by omega) hlen ?_ (by omega) (by omega) (by omega)
  rw [hrdx]
  exact hthere.congr fun a hlow' hhigh' => tell_place hfits' ⟨by omega, by omega⟩

/-- What is kept of a task is there after the switch to it. -/
lemma swapped_keeps (hs : Sound k w) (h : w.phases w.current = .kernel why entry)
    (hne : t ≠ w.current) (ht : w.phases t ≠ .absent) (hswitch : Switching k w told t entry)
    {ws : List UInt64} (hswapped : Swapped (k.telling told w.cpu) ws cpu) {a : ℕ}
    (ha : (w.places t).Has a) :
    cpu.mem a = w.cpu.mem a := by
  have hentry := hs.held w.current
  rw [h] at hentry
  have htop := top_of_held hentry
  have hroom := hswitch.room
  have hbelow := hswitch.below
  have hapart := hs.apart _ _ hne ht hs.present a ha
  have hsp : (k.telling told w.cpu).sp = w.cpu.sp := rfl
  have hstack : a < (w.places w.current).bottom ∨ (w.places w.current).top ≤ a := by
    by_contra hin
    exact hapart ⟨by omega, by omega⟩
  rw [hswapped.outside a (by omega) (hswitch.apart ht ha)]
  exact tell_place (hs.fits t ht) ha

end Leaving

/-- A stack that was left is the one that is not in use. -/
lemma ne_current {t : ι} {why : Entered} {entry : Cpu}
    (h : w.phases w.current = .kernel why entry) (ht : ¬ (w.phases t).Running) :
    t ≠ w.current := by
  rintro rfl
  rw [h] at ht
  exact ht trivial

/-- The machine goes on in the kernel. -/
lemma Sound.calm_kernel (hs : Sound k w) {why : Entered} {entry : Cpu}
    (h : w.phases w.current = .kernel why entry) :
    w.cpu.Calm :=
  hs.calm (by rw [h]; exact fun hring3 => by cases hring3)

lemma swapped_calm {cpu : Cpu} (h : cpu.Calm) : (k.swapped cpu).Calm :=
  Block.run_calm k.alu _ h ⟨fun h => (by cases h), fun h => (by cases h)⟩

/-- A task that was left comes back with the registers it left, over the stack it left. -/
lemma parked_spec (hs : Sound k w) {told : Option ℕ} {t : ι} {why why' : Entered}
    {entry entry' left : Cpu} (h : w.phases w.current = .kernel why entry)
    (ht : w.phases t = .parked why' entry' left) (hswitch : Switching k w told t entry) :
    Swapped (k.telling told w.cpu) (switchSaved.reverse.map left.regs)
      (k.swapped (k.telling told w.cpu)) ∧
      CameBack left (k.swapped (k.telling told w.cpu)) ∧
      ∀ a, left.sp ≤ a → a < (w.places t).top →
        (k.swapped (k.telling told w.cpu)).mem a = left.mem a := by
  have hne := ne_current h (t := t) (by rw [ht]; exact id)
  have hpresent : w.phases t ≠ .absent := by rw [ht]; exact fun habsent => by cases habsent
  have hfits := hs.fits t hpresent
  have hheld := hs.held t
  rw [ht] at hheld
  obtain ⟨hentry, hbottom, hbelow, hsaved, hsame⟩ := hheld
  have htop := top_of_held hentry
  have hroom := hfits.room
  have hle : (64 : UInt64) ≤ left.regs .rsp := UInt64.le_iff_toNat_le.mpr (by
    have hsp : left.sp = (left.regs .rsp).toNat := rfl
    exact (show 64 ≤ (left.regs .rsp).toNat by omega))
  have hresume := hswitch.resume
  rw [ht, Phase.pointer, Option.some.injEq] at hresume
  have hrdx : (w.cpu.regs .rdx).toNat = left.sp - 64 := by
    rw [← hresume, UInt64.toNat_sub_of_le _ _ hle]
    rfl
  have hswapped := swapped_spec hs h hne hpresent hswitch hrdx rfl (by omega) (by omega) hsaved
  have hkept := fun a => swapped_keeps hs h hne hpresent hswitch hswapped (a := a)
  have hrdx' : ((k.telling told w.cpu).regs .rdx).toNat = left.sp - 64 := hrdx
  generalize k.swapped (k.telling told w.cpu) = cpu at *
  have hsp := hswapped.sp
  have hstack : ∀ a, left.sp ≤ a → a < (w.places t).top → cpu.mem a = left.mem a := by
    intro a hlow hhigh
    rw [hkept a ⟨by omega, hhigh⟩, hsame a hlow hhigh]
  refine ⟨hswapped, ⟨?_, by omega, fun r hr => ?_⟩, hstack⟩
  · rw [hswapped.rip, hrdx', show left.sp - 64 + 64 = left.sp by omega]
    refine (load_congr fun a hlow hhigh => ?_).symm
    have hhas : (w.places t).Has a := ⟨by omega, by omega⟩
    rw [hkept a hhas]
    exact (tell_place hfits hhas).symm
  · have hne' : r ≠ .rsp := by
      rintro rfl
      exact absurd hr (by decide)
    rw [hswapped.regs r hne', given_map, if_pos]
    revert hr
    cases r <;> decide

lemma Sound.switches [DecidableEq ι] (hs : Sound k w) {told : Option ℕ} {t : ι}
    {why why' : Entered} {entry entry' left : Cpu} (h : w.phases w.current = .kernel why entry)
    (ht : w.phases t = .parked why' entry' left) (hswitch : Switching k w told t entry) :
    Sound k (w.switchTo k told t why entry why' entry') := by
  have hne := ne_current h (t := t) (by rw [ht]; exact id)
  have hpresent : w.phases t ≠ .absent := by rw [ht]; exact fun habsent => by cases habsent
  have hfits := hs.fits t hpresent
  obtain ⟨hswapped, -, -⟩ := parked_spec hs h ht hswitch
  have hkept := fun a => swapped_keeps hs h hne hpresent hswitch hswapped (a := a)
  have hheld := hs.held t
  rw [ht] at hheld
  have hentry : k.HeldEntry (w.places t) (k.swapped (k.telling told w.cpu)).mem entry' why' := by
    refine HeldEntry.congr hfits hheld.1 fun a ha => hkept a ?_
    obtain ⟨-, hhigh, hlow⟩ := holds_entry hfits hheld.1 ha
    exact ⟨hlow, hhigh⟩
  refine hs.leaves h hne hpresent hswitch hswapped.stacked
    (fun a hstack hword _ => hswapped.outside a hstack hword)
    hentry trivial (fun hring3 => by cases hring3)
      (fun hwhy => hs.process t (by rw [ht]; exact hwhy)) ?_
    (swapped_calm (hs.calm_kernel h))
  rw [hswapped.system]
  rfl

/-! ### A process that was prepared -/

/-- A process about to run the function it was prepared with, as a function that was called runs:
its argument in `rcx`, its stack eight past a multiple of sixteen, and a return address that can
only fault. -/
structure Began (p : Place) (function argument : UInt64) (cpu : Cpu) : Prop where
  rip : cpu.rip = function
  argument : cpu.regs .rcx = argument
  sp : cpu.sp + 8 = p.top
  aligned : cpu.sp % 16 = 8
  back : load cpu.mem cpu.sp = 0

lemma began_calm {cpu : Cpu} (h : cpu.Calm) : (k.began cpu).Calm :=
  Block.run_calm k.alu _ (swapped_calm h) ⟨fun h => (by cases h), fun h => (by cases h)⟩

/-- `switch` to a prepared stack takes up the words that were put on it. -/
lemma swapped_prepared (hs : Sound k w) {told : Option ℕ} {t : ι} {why : Entered} {entry : Cpu}
    {function argument : UInt64} (h : w.phases w.current = .kernel why entry)
    (ht : w.phases t = .prepared function argument) (hswitch : Switching k w told t entry) :
    (w.cpu.regs .rdx).toNat = (w.places t).top - 80 ∧
      Swapped (k.telling told w.cpu) [0, 0, 0, 0, 0, argument, 0, 0]
        (k.swapped (k.telling told w.cpu)) ∧
      load w.cpu.mem ((w.places t).top - 16) = k.trampolineAt
        ∧ load w.cpu.mem ((w.places t).top - 8) = function := by
  have hne := ne_current h (t := t) (by rw [ht]; exact id)
  have hpresent : w.phases t ≠ .absent := by rw [ht]; exact fun habsent => by cases habsent
  have hfits := hs.fits t hpresent
  have hroom := hfits.room
  have hlt := hfits.top_lt
  have hwords : Stacked w.cpu.mem ((w.places t).top - 80)
      (firstRunWords k.trampolineAt function argument) := by
    have hheld := hs.held t
    rwa [ht] at hheld
  have hresume := hswitch.resume
  rw [ht, Phase.pointer, Option.some.injEq] at hresume
  have hrdx : (w.cpu.regs .rdx).toNat = (w.places t).top - 80 := by
    rw [← hresume, UInt64.toNat_ofNat', Nat.mod_eq_of_lt (by omega)]
  rw [show firstRunWords k.trampolineAt function argument
      = ([0, 0, 0, 0, 0, argument, 0, 0] : List UInt64) ++ [k.trampolineAt, function] from rfl,
        stacked_append] at hwords
  obtain ⟨hfirst, htrampoline, hfunction, -⟩ := hwords
  simp only [List.length_cons, List.length_nil] at htrampoline hfunction
  refine ⟨hrdx, swapped_spec hs h hne hpresent hswitch hrdx rfl (by omega)
    (by omega) hfirst, ?_, ?_⟩
  · rwa [show (w.places t).top - 16 = (w.places t).top - 80 + 8 * 8 by omega]
  · rwa [show (w.places t).top - 8 = (w.places t).top - 80 + 8 * 8 + 8 by omega]

/-- `switch` to a prepared stack goes through the trampoline to the function. -/
lemma began_spec (hs : Sound k w) {told : Option ℕ} (t : ι) {why : Entered} {entry : Cpu}
    {function argument : UInt64} (h : w.phases w.current = .kernel why entry)
    (ht : w.phases t = .prepared function argument) (hswitch : Switching k w told t entry) :
    (∃ ws, Swapped (k.telling told w.cpu) ws (k.swapped (k.telling told w.cpu))) ∧
      Began (w.places t) function argument (k.began (k.telling told w.cpu)) ∧
      (k.swapped (k.telling told w.cpu)).rip = k.trampolineAt ∧
      (k.began (k.telling told w.cpu)).toSystem = (k.swapped (k.telling told w.cpu)).toSystem ∧
      ∀ a, a < (w.places t).top - 8 ∨ (w.places t).top ≤ a →
        (k.began (k.telling told w.cpu)).mem a = (k.swapped (k.telling told w.cpu)).mem a := by
  have hne := ne_current h (t := t) (by rw [ht]; exact id)
  have hpresent : w.phases t ≠ .absent := by rw [ht]; exact fun habsent => by cases habsent
  have hfits := hs.fits t hpresent
  have hroom := hfits.room
  have haligned := hfits.aligned
  obtain ⟨hrdx, hswapped, htrampoline, hfunction⟩ := swapped_prepared hs h ht hswitch
  have hkept := fun a => swapped_keeps hs h hne hpresent hswitch hswapped (a := a)
  have hrdx' : ((k.telling told w.cpu).regs .rdx).toNat = (w.places t).top - 80 := hrdx
  obtain ⟨hrip, hrcx, hsame, hback, hsystem, -, hmem⟩ := firstRunTrampoline_run k.alu
    (k.swapped (k.telling told w.cpu)) 0
  rw [show firstRunTrampoline.run k.alu 0 (k.swapped (k.telling told w.cpu))
    = k.began (k.telling told w.cpu) from rfl] at hrip hrcx hsame hback hsystem hmem
  generalize k.began (k.telling told w.cpu) = began at *
  generalize k.swapped (k.telling told w.cpu) = cpu at *
  have hsp := hswapped.sp
  refine ⟨⟨_, hswapped⟩, ⟨?_, ?_, by omega, by omega, hback⟩, ?_, hsystem,
    fun a ha => hmem a (by omega)⟩
  · rw [hrip, show cpu.sp = (w.places t).top - 8 by omega, ← hfunction]
    exact load_congr fun a hlow hhigh => hkept a ⟨by omega, by omega⟩
  · rw [hrcx, hswapped.regs .rdi (by decide)]
    rfl
  · rw [hswapped.rip, hrdx', show (w.places t).top - 80 + 64 = (w.places t).top - 16 by omega,
      ← htrampoline]
    exact load_congr fun a hlow hhigh => tell_place hfits ⟨by omega, by omega⟩

lemma Sound.begins [DecidableEq ι] (hs : Sound k w) {told : Option ℕ} {t : ι} {why : Entered}
    {entry : Cpu} {function argument : UInt64} (h : w.phases w.current = .kernel why entry)
    (ht : w.phases t = .prepared function argument) (hswitch : Switching k w told t entry) :
    Sound k (w.beginOn k told t why entry) := by
  have hne := ne_current h (t := t) (by rw [ht]; exact id)
  have hpresent : w.phases t ≠ .absent := by rw [ht]; exact fun habsent => by cases habsent
  have hfits := hs.fitsCurrent
  have hfits' := hs.fits t hpresent
  have hroom := hswitch.room
  have hbelow := hswitch.below
  have hentry := hs.held w.current
  rw [h] at hentry
  have htop := top_of_held hentry
  have hstacks := Place.Apart.stacks hfits hfits' (hs.apart _ _ (Ne.symm hne) hs.present hpresent)
  have hroom' := hfits'.room
  obtain ⟨⟨ws, hswapped⟩, hbegan, -, hsystem, hmem⟩ := began_spec hs t h ht hswitch
  have hsp : (k.telling told w.cpu).sp = w.cpu.sp := rfl
  have hsp' := hbegan.sp
  refine hs.leaves h hne hpresent hswitch ?_ (fun a hstack hword hother => ?_)
    (show (k.began (k.telling told w.cpu)).sp ≤ (w.places t).top by omega) trivial
    (fun hring3 => by cases hring3) (fun hwhy => absurd rfl hwhy) ?_
    (began_calm (hs.calm_kernel h))
  · refine hswapped.stacked.congr fun a hlow hhigh => hmem a ?_
    simp only [switchSaved, List.length_map, List.length_reverse, List.length_cons,
      List.length_nil] at hhigh
    omega
  · have hout : a < (w.places t).top - 8 ∨ (w.places t).top ≤ a := by
      by_contra hin
      exact hother ⟨by omega, by omega⟩
    rw [hmem a hout]
    exact hswapped.outside a hstack hword
  · rw [hsystem, hswapped.system]
    rfl

/-! ### A stack that is prepared -/

/-- Nobody else's bytes change when a stack is prepared, its own say that it is, and what is
answered is the pointer to hand to `switch`. -/
lemma prepared_spec {p : Place} (hp : k.Fits p) (function argument : UInt64) (mem : ByteMemory) :
    let prepared := prepareFirstRun k.trampolineAt (UInt64.ofNat p.top) function argument mem
    k.Held p prepared.1 (.prepared function argument) ∧ (∀ a, ¬ p.Has a → prepared.1 a = mem a) ∧
      (Phase.prepared function argument).pointer p = some prepared.2 := by
  have hroom := hp.room
  have htop : (UInt64.ofNat p.top).toNat = p.top := by
    rw [UInt64.toNat_ofNat', Nat.mod_eq_of_lt hp.top_lt]
  have hframe : firstRunFrame ≤ (UInt64.ofNat p.top).toNat := by
    rw [htop, firstRunFrame]
    omega
  obtain ⟨hsp, hstacked, houtside⟩ :=
    prepareFirstRun_spec k.trampolineAt function argument mem hframe
  rw [htop] at hsp hstacked houtside
  intro prepared
  have hdown : p.top - 80 = prepared.2.toNat := (Nat.eq_sub_of_add_eq hsp).symm
  refine ⟨hstacked, fun a ha => houtside a ?_, ?_⟩
  · by_contra hin
    exact ha ⟨by omega, by omega⟩
  · rw [Phase.pointer, hdown, UInt64.ofNat_toNat]

/-- What holds of the task whose place and phase are new, and of the others as they are. -/
lemma forall_placed [DecidableEq ι] {t : ι} (p : Place) {phase : Phase}
    (P : ι → Place → Phase → Prop) (hnew : P t p phase)
    (hothers : ∀ t', t' ≠ t → P t' (w.places t') (w.phases t')) (t' : ι) :
    P t' (Function.update w.places t p t') (Function.update w.phases t phase t') := by
  by_cases heq : t' = t
  · subst heq
    rwa [Function.update_self, Function.update_self]
  · rw [Function.update_of_ne heq, Function.update_of_ne heq]
    exact hothers t' heq

/-- A stack that nobody uses is given to a task that waits. -/
lemma Sound.placed [DecidableEq ι] (hs : Sound k w) {t : ι} {p : Place}
    {phase : Phase} {cpu : Cpu} (hkernel : w.phases w.current ≠ .ring3)
    (ht : w.phases t = .absent) (hp : k.Fits p) (hprocess : p.process = true)
    (hfree : ∀ t', w.phases t' ≠ .absent → (w.places t').Apart p) (hwaits : ¬ phase.Running)
    (hheld : k.Held p cpu.mem phase) (hmem : ∀ a, ¬ p.Has a → cpu.mem a = w.cpu.mem a)
    (hfixed : cpu.fixed = w.cpu.fixed) (hflags : cpu.rflags = w.cpu.rflags) :
    Sound k { w with
      cpu := cpu
      places := Function.update w.places t p
      phases := Function.update w.phases t phase } := by
  have hne : w.current ≠ t := by
    rintro rfl
    exact hs.present ht
  -- the task that runs is another one, and its place is where it was
  have hphase : Function.update w.phases t phase w.current = w.phases w.current :=
    Function.update_of_ne hne _ _
  have hplace : Function.update w.places t p w.current = w.places w.current :=
    Function.update_of_ne hne _ _
  have hload : ∀ {a}, p.Clear a 8 → load cpu.mem a = load w.cpu.mem a := by
    intro a hclear
    refine load_congr fun b hlow hhigh => hmem b fun hb => ?_
    have := hclear.apart hb
    omega
  refine ⟨?_, forall_placed p (fun t' _ phase => t' ≠ w.current → ¬ phase.Running) ?_ ?_,
    forall_placed p (fun _ place phase => phase ≠ .absent → k.Fits place) ?_ ?_, ?_,
    forall_placed p (fun _ place => k.Held place cpu.mem) ?_ ?_,
    forall_placed p (fun _ place phase => phase.OfProcess → place.process = true) ?_ ?_, ?_,
    hfixed.trans hs.fixed, fun hproc => ?_, fun _ => ?_, fun hring3 => ?_⟩
  · simpa only [hphase] using hs.running
  · exact fun _ => hwaits
  · exact fun t' _ => hs.alone t'
  · exact fun _ => hp
  · exact fun t' _ => hs.fits t'
  · refine fun t' t'' hne' ht' => forall_placed p (fun s place phase => t' ≠ s → phase ≠ .absent →
      (Function.update w.places t p t').Apart place) (fun hother _ => ?_)
      (fun s hs' hother hpresent => ?_) t'' hne'
    · simp only [Function.update_of_ne hother] at ht' ⊢
      exact hfree t' ht'
    · revert hother ht'
      refine forall_placed p (fun s' place phase => phase ≠ .absent → s' ≠ s →
        place.Apart (w.places s)) ?_ ?_ t'
      · exact fun _ _ a ha ha' => hfree s hpresent a ha' ha
      · exact fun s' _ hpresent' hother => hs.apart s' s hother hpresent' hpresent
  · exact hheld
  · intro t' _
    by_cases habsent : w.phases t' = .absent
    · rw [habsent]
      trivial
    · have hfits := hs.fits t' habsent
      exact Held.congr hfits (hs.held t') fun a ha =>
        hmem a (hfree _ habsent a (has_of_holds hfits (hs.held t') ha))
  · exact fun _ => hprocess
  · exact fun t' _ => hs.process t'
  -- the gates, and the two words told to the processor, lie outside the new place
  · refine hs.gates.congr fun a hlow hhigh => hmem a fun ha => ?_
    have := hp.idt.apart ha
    omega
  · simp only [hplace] at hproc ⊢
    obtain ⟨htop, hrsp0⟩ := hs.told hproc
    exact ⟨(hload hp.kernelTop).trans htop, (hload hp.rsp0).trans hrsp0⟩
  · rw [Cpu.Calm, hflags]
    exact hs.calm hkernel
  · exact absurd (hphase.symm.trans hring3) hkernel

lemma Sound.prepares [DecidableEq ι] (hs : Sound k w) {t : ι} {p : Place} {why : Entered}
    {entry : Cpu} {function argument : UInt64} (h : w.phases w.current = .kernel why entry)
    (ht : w.phases t = .absent) (hp : k.Fits p) (hprocess : p.process = true)
    (hfree : ∀ t', w.phases t' ≠ .absent → (w.places t').Apart p) :
    Sound k (w.prepare k t p function argument) := by
  obtain ⟨hheld, hmem, -⟩ := prepared_spec hp function argument w.cpu.mem
  exact hs.placed (by rw [h]; exact fun hring3 => by cases hring3) ht hp hprocess hfree id hheld
    hmem rfl rfl

/-! ### Every run -/

/-- Whatever happens, what is kept is kept. -/
lemma Happens.sound [DecidableEq ι] {w' : World ι} (hs : Sound k w) (h : Happens k w w') :
    Sound k w' := by
  cases h with
  | computes cpu hring3 hsystem hmem =>
      refine hs.keeps (by rw [hsystem]) (fun hnot => absurd hring3 hnot) (fun _ => ?_) hmem
      rw [hsystem]
      exact ⟨rfl, rfl⟩
  | calls hring3 hcalls => exact hs.calls hring3 hcalls
  | interrupts vector code delivered hvector hcode hdelivered hring3 =>
      exact hs.interrupts hring3 hvector.2 hdelivered
  | ignores vector delivered hvector hdelivered hring3 =>
      exact (hs.ignores hring3 hvector hdelivered).2
  | works why entry cpu hkernel hsystem hcalm hmem => exact hs.works hkernel hsystem hcalm hmem
  | tells top why entry hkernel hprocess => exact hs.tells hkernel hprocess
  | switches told t why why' entry entry' left hkernel ht hswitch =>
      exact hs.switches hkernel ht hswitch
  | begins told t why entry function argument hkernel ht hswitch =>
      exact hs.begins hkernel ht hswitch
  | answers user entry hkernel hback => exact hs.answers hkernel hback
  | resumes user entry hkernel hback => exact hs.resumes hkernel hback
  | enters entry hkernel hprocess hrip =>
      exact hs.enters (by rw [hkernel]; exact fun hring3 => by cases hring3) hprocess hrip
  | prepares t p why entry function argument hkernel ht hp hprocess hfree =>
      exact hs.prepares hkernel ht hp hprocess hfree
  | reaps t why entry hkernel ht => exact hs.reaps ht

/-- The machine when the kernel has set it up: one flow of the kernel, on a stack of its own, with
the gates and the registers of `syscall` set. -/
structure Start (k : Kernel) (w : World ι) : Prop where
  entry : ∃ entry : Cpu, w.phases w.current = .kernel .own entry
    ∧ entry.sp ≤ (w.places w.current).top
  others : ∀ t ≠ w.current, w.phases t = .absent
  fits : k.Fits (w.places w.current)
  kernel : (w.places w.current).process = false
  gates : TableAt w.cpu.mem k.idtr (installGates k.stubs .new)
  fixed : w.cpu.fixed = (star, k.syscallAt, fmask, k.idtr, k.tr)
  calm : w.cpu.Calm

lemma Start.sound (h : Start k w) : Sound k w := by
  obtain ⟨entry, hphase, hsp⟩ := h.entry
  have honly : ∀ t, w.phases t ≠ .absent → t = w.current := fun t ht =>
    by_contra fun hne => ht (h.others t hne)
  refine ⟨by rw [hphase]; trivial, fun t ht => by rw [h.others t ht]; exact id, fun t ht => ?_,
    ?_, fun t => ?_, fun t ht => ?_, h.gates, h.fixed, fun hproc => ?_, fun _ => h.calm,
    fun hring3 => ?_⟩
  · rw [honly t ht]
    exact h.fits
  · intro t t' hne ht ht'
    exact absurd ((honly t ht).trans (honly t' ht').symm) hne
  · by_cases heq : t = w.current
    · subst heq
      rw [hphase]
      exact hsp
    · rw [h.others t heq]
      trivial
  · by_cases heq : t = w.current
    · subst heq
      rw [hphase] at ht
      exact absurd rfl ht
    · rw [h.others t heq] at ht
      cases ht
  · rw [h.kernel] at hproc
    cases hproc
  · rw [hphase] at hring3
    cases hring3

/-- A run of the machine. -/
abbrev Runs [DecidableEq ι] (k : Kernel) : World ι → World ι → Prop :=
  Relation.ReflTransGen (Happens k)

end Harlan.Contexts
