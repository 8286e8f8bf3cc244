import Harlan.Arch.Descriptors

/-!
The kernel's machine code in memory, and what every way into it and out of it does.

* `Image`: each block of `Harlan.Arch.Stubs` stands where its symbol says.
* `raised_spec`, `Raised.read`: an interrupt with a stub of its own reaches the handler, and the
  handler reads what was interrupted.
* `named_resumes`: from where the handler comes back, what was interrupted goes on.
* `interrupt_transparent`: both, for every vector but that of a double fault.
-/

namespace Harlan.Stubs

open Amd64 Descriptors

/-- The stub of a vector, one for an error code or one for none. -/
def stub (vector : UInt8) (withErrorCode : Bool) (common : UInt64) : Block :=
  if withErrorCode then stubWithErrorCode vector common else stubNoErrorCode vector common

/-- The kernel's machine code, where its symbols say. -/
structure Image where
  alu : Alu
  code : Code
  stubs : StubAddresses
  switchAt : UInt64
  trampolineAt : UInt64
  enterAt : UInt64
  /-- `syscall_entry`, the function it calls, and where that comes back. -/
  syscallAt : UInt64
  dispatchAt : UInt64
  dispatched : UInt64
  /-- `USER_STACK_SCRATCH` and `KERNEL_STACK_TOP`. -/
  scratch : UInt64
  kernelTop : UInt64
  /-- `common_trampoline`, the function it calls, and where that comes back. -/
  commonAt : UInt64
  handlerAt : UInt64
  handled : UInt64
  switch_stands : ∃ next, switch.Stands code switchAt next
  trampoline_stands : ∃ next, firstRunTrampoline.Stands code trampolineAt next
  enter_stands : ∃ next, enter.Stands code enterAt next
  syscallEntry_stands : (syscallEntry scratch kernelTop dispatchAt).Stands code
    syscallAt dispatched
  syscallEntryRest_stands : ∃ next, syscallEntryRest.Stands code dispatched next
  common_stands : (commonTrampoline handlerAt).Stands code commonAt handled
  commonRest_stands : ∃ next, commonTrampolineRest.Stands code handled next
  stub_stands : ∀ vector withErrorCode, wired vector = .named withErrorCode →
    ∃ next, (stub vector withErrorCode commonAt).Stands code (stubs.named vector) next
  spurious_stands : ∃ next, spuriousInterruptStub.Stands code stubs.spurious next

namespace Image

variable (img : Image)

/-- The machine reached by running this image's code. -/
def Reaches : Cpu → Cpu → Prop := Amd64.Reaches img.alu img.code

/-- The machine once the handler is called, from the first instruction of a stub. -/
def raised (vector : UInt8) (withErrorCode : Bool) (cpu : Cpu) : Cpu :=
  (commonTrampoline img.handlerAt).run img.alu img.handled
    ((stub vector withErrorCode img.commonAt).run img.alu 0 cpu)

/-- The machine once the handler has come back and its trampoline has ended. -/
def resumed (cpu : Cpu) : Cpu := commonTrampolineRest.run img.alu 0 cpu

end Image

/-- A page for each function. -/
def functionPages (scratch kernelTop dispatch handler : UInt64) : List (List Instr) :=
  [switch.instrs, firstRunTrampoline.instrs, enter.instrs,
    (syscallEntry scratch kernelTop dispatch).instrs ++ syscallEntryRest.instrs,
    (commonTrampoline handler).instrs ++ commonTrampolineRest.instrs,
    spuriousInterruptStub.instrs]

/-- A page for each block: the functions first, then the stubs by their vectors. -/
def blockPages (scratch kernelTop dispatch handler : UInt64) (n : ℕ) : List Instr :=
  if n < 256 then (functionPages scratch kernelTop dispatch handler).getD n []
  else
    (stub (UInt8.ofNat (n - 256)) (pushesErrorCode (UInt8.ofNat (n - 256)))
    (UInt64.ofNat (256 * 4))).instrs

lemma length_blockPages (scratch kernelTop dispatch handler : UInt64) (n : ℕ) :
    (blockPages scratch kernelTop dispatch handler n).length ≤ 256 := by
  rw [blockPages]
  split_ifs
  · rw [List.getD_eq_getElem?_getD]
    cases hget : (functionPages scratch kernelTop dispatch handler)[n]? with
    | none => exact Nat.zero_le _
    | some page =>
        have hpage := List.mem_of_getElem? hget
        simp only [functionPages, List.mem_cons, List.not_mem_nil, or_false] at hpage
        obtain rfl | rfl | rfl | rfl | rfl | rfl := hpage <;>
          simp [Block.instrs, switch, firstRunTrampoline, enter, syscallEntry, syscallEntryRest,
            commonTrampoline, commonTrampolineRest, spuriousInterruptStub]
  · cases hpushes : pushesErrorCode (UInt8.ofNat (n - 256)) <;>
      simp [stub, stubNoErrorCode, stubWithErrorCode, Block.instrs]

lemma pushesErrorCode_of_named {vector : UInt8} {withErrorCode : Bool}
    (h : wired vector = .named withErrorCode) :
    withErrorCode = pushesErrorCode vector := by
  rw [wired] at h
  split_ifs at h
  exact (Wired.named.inj h).symm

/-- An image with a page for each block. -/
def Image.ofPages (alu : Alu)
    (scratch kernelTop dispatch handler doubleFault : UInt64) : Image where
  alu := alu
  code := paged (blockPages scratch kernelTop dispatch handler)
  stubs :=
    { spurious := UInt64.ofNat (256 * 5)
      doubleFault := doubleFault
      named := fun vector => UInt64.ofNat (256 * (256 + vector.toNat)) }
  switchAt := UInt64.ofNat (256 * 0)
  trampolineAt := UInt64.ofNat (256 * 1)
  enterAt := UInt64.ofNat (256 * 2)
  syscallAt := UInt64.ofNat (256 * 3)
  dispatchAt := dispatch
  dispatched := UInt64.ofNat (256 * 3 + 15)
  scratch := scratch
  kernelTop := kernelTop
  commonAt := UInt64.ofNat (256 * 4)
  handlerAt := handler
  handled := UInt64.ofNat (256 * 4 + 21)
  switch_stands := ⟨_, paged_stands 0 0 [] (by decide) (length_blockPages _ _ _ _ _) rfl⟩
  trampoline_stands := ⟨_, paged_stands 1 0 [] (by decide) (length_blockPages _ _ _ _ _) rfl⟩
  enter_stands := ⟨_, paged_stands 2 0 [] (by decide) (length_blockPages _ _ _ _ _) rfl⟩
  syscallEntry_stands :=
    paged_stands 3 0 syscallEntryRest.instrs (by decide) (length_blockPages _ _ _ _ _) rfl
  syscallEntryRest_stands :=
    ⟨_, paged_stands 3 15 [] (by decide) (length_blockPages _ _ _ _ _) rfl⟩
  common_stands :=
    paged_stands 4 0 commonTrampolineRest.instrs (by decide) (length_blockPages _ _ _ _ _) rfl
  commonRest_stands := ⟨_, paged_stands 4 21 [] (by decide) (length_blockPages _ _ _ _ _) rfl⟩
  stub_stands := by
    intro vector withErrorCode hwired
    have hlt := vector.toNat_lt
    have hpage : blockPages scratch kernelTop dispatch handler (256 + vector.toNat)
        = (stub vector withErrorCode (UInt64.ofNat (256 * 4))).instrs := by
      rw [blockPages, if_neg (by omega), Nat.add_sub_cancel_left, UInt8.ofNat_toNat,
        pushesErrorCode_of_named hwired]
    refine ⟨_, paged_stands (256 + vector.toNat) 0 [] (by omega) (length_blockPages _ _ _ _ _) ?_⟩
    rw [hpage, List.drop_zero, List.append_nil]
  spurious_stands := ⟨_, paged_stands 5 0 [] (by decide) (length_blockPages _ _ _ _ _) rfl⟩

variable {img : Image}

/-- Only a call looks at what stands after it. -/
lemma run_next {block : Block} (hcall : ∀ target, block.exit ≠ .call target) (alu : Alu)
    (next next' : UInt64) (cpu : Cpu) : block.run alu next cpu = block.run alu next' cpu := by
  rw [Block.run, Block.run]
  cases hexit : block.exit with
  | call target => exact absurd hexit (hcall target)
  | _ => rfl

lemma stub_exit (vector : UInt8) (withErrorCode : Bool) (common : UInt64) :
    (stub vector withErrorCode common).exit = .jmp common := by
  cases withErrorCode <;> rfl

lemma stub_calm (vector : UInt8) (withErrorCode : Bool) (common : UInt64) (alu : Alu)
    (next : UInt64) {cpu : Cpu} (hcalm : cpu.Calm) :
    ((stub vector withErrorCode common).run alu next cpu).Calm := by
  refine Block.run_calm alu next hcalm ⟨fun h => ?_, fun h => ?_⟩
    <;> rw [stub_exit] at h <;> cases h

lemma Image.raised_calm (img : Image) (vector : UInt8) (withErrorCode : Bool) {cpu : Cpu}
    (hcalm : cpu.Calm) :
    (img.raised vector withErrorCode cpu).Calm :=
  Block.run_calm img.alu _ (stub_calm _ _ _ _ _ hcalm)
    ⟨fun h => (by cases h), fun h => (by cases h)⟩

/-- A stub, and the trampoline after it, run to the call of the handler. -/
lemma raised_reaches {vector : UInt8} {withErrorCode : Bool}
    (hwired : wired vector = .named withErrorCode) {cpu : Cpu} (hcalm : cpu.Calm)
    (hrip : cpu.rip = img.stubs.named vector) :
    img.Reaches cpu (img.raised vector withErrorCode cpu) := by
  obtain ⟨next, hstub⟩ := img.stub_stands vector withErrorCode hwired
  rw [← hrip] at hstub
  have hfirst := Block.reaches img.alu hcalm hstub
  rw [run_next (by intro target h; rw [stub_exit] at h; cases h) img.alu next 0] at hfirst
  have hat : ((stub vector withErrorCode img.commonAt).run img.alu 0 cpu).rip = img.commonAt := by
    rw [Block.run, stub_exit, Exit.exec]
  have hcommon := img.common_stands
  rw [← hat] at hcommon
  exact hfirst.trans (Block.reaches img.alu (stub_calm _ _ _ _ _ hcalm) hcommon)

/-- The rest of the trampoline runs to its end. -/
lemma resumed_reaches {cpu : Cpu} (hcalm : cpu.Calm) (hrip : cpu.rip = img.handled) :
    img.Reaches cpu (img.resumed cpu) := by
  obtain ⟨next, hrest⟩ := img.commonRest_stands
  rw [← hrip] at hrest
  have hgo := Block.reaches img.alu hcalm hrest
  rwa [run_next (by intro target h; cases h) img.alu next 0] at hgo

/-! ### Interrupts -/

/-- What the handler reads of an interrupt of `cpu`. -/
def frameOf (cpu : Cpu) (vector : UInt8) (code : Option UInt64) : InterruptStackFrame where
  r15 := cpu.regs .r15
  r14 := cpu.regs .r14
  r13 := cpu.regs .r13
  r12 := cpu.regs .r12
  r11 := cpu.regs .r11
  r10 := cpu.regs .r10
  r9 := cpu.regs .r9
  r8 := cpu.regs .r8
  rbp := cpu.regs .rbp
  rdi := cpu.regs .rdi
  rsi := cpu.regs .rsi
  rdx := cpu.regs .rdx
  rcx := cpu.regs .rcx
  rbx := cpu.regs .rbx
  rax := cpu.regs .rax
  vector := vector.toUInt64
  errorCode := code.getD 0
  rip := cpu.rip
  cs := cpu.cs
  rflags := cpu.rflags

/-- The handler about to run, over the frame of an interrupt of `cpu` that ends at `base`. -/
structure Raised (img : Image) (cpu : Cpu) (vector : UInt8) (code : Option UInt64) (base : ℕ)
    (cpu' : Cpu) :
    Prop where
  rip : cpu'.rip = img.handlerAt
  sp : cpu'.sp + 344 = base
  frame : (cpu'.regs .rcx).toNat + 304 = base
  rbx : cpu'.regs .rbx = cpu'.regs .rcx
  back : load cpu'.mem cpu'.sp = img.handled
  saved : Stacked cpu'.mem (base - 304) (interruptSaved.reverse.map cpu.regs)
  pushed : Stacked cpu'.mem (base - 56) ([vector.toUInt64, code.getD 0] ++ cpu.context.frame)
  system : cpu'.toSystem = { cpu.toSystem with
    cs := (cpu.gate vector).selector
    ss := if cpu.ring = 0 then cpu.ss else 0 }
  outside : ∀ a, a < base - 344 ∨ base ≤ a → cpu'.mem a = cpu.mem a

/-- What a stub and the trampoline after it leave of an interrupt. -/
lemma raised_spec (img : Image) {cpu delivered : Cpu} {vector : UInt8}
    {code : Option UInt64} {base : ℕ} (h : Delivered cpu vector code base delivered)
    (hbase : base % 16 = 0) (hroom : 344 ≤ base) (hlt : base < 2 ^ 64) :
    Raised img cpu vector code base (img.raised vector code.isSome delivered) := by
  have hstart : (cpu.set .rsp (UInt64.ofNat base)).sp = base := by
    rw [Cpu.sp_set, UInt64.toNat_ofNat', Nat.mod_eq_of_lt hlt]
  have hdelivered := h.pushed.sp
  have hcode : code.toList.length ≤ 1 := by cases code <;> simp
  rw [hstart, List.length_append] at hdelivered
  simp only [List.length_cons, List.length_nil] at hdelivered
  obtain ⟨hpushed, hsystem, hrip⟩ := stub_pushes img.alu img.commonAt 0
    (show stub vector code.isSome img.commonAt = _ from rfl) h.pushed (by omega)
  rw [Image.raised]
  generalize (stub vector code.isSome img.commonAt).run img.alu 0 delivered
    = stubbed at hpushed hsystem hrip ⊢
  have hsp : stubbed.sp + 56 = base := hstart ▸ hpushed.sp
  have hhandling := trampoline_enters img.alu stubbed img.handlerAt img.handled (by omega)
  generalize (commonTrampoline img.handlerAt).run img.alu img.handled stubbed
    = called at hhandling ⊢
  have hdown := hhandling.sp
  have hframe := hhandling.frame
  have hsaved : interruptSaved.reverse.map stubbed.regs
      = interruptSaved.reverse.map cpu.regs := by
    refine List.map_congr_left fun r hr => ?_
    have hne : r ≠ .rsp := by
      rintro rfl
      exact absurd hr (by decide)
    exact (hpushed.regs r hne).trans (Function.update_of_ne hne _ _)
  refine ⟨hhandling.rip, by omega, by omega, hhandling.rbx, hhandling.back, ?_, ?_, ?_,
    fun a ha => ?_⟩
  · have hstacked := hhandling.stacked
    rwa [hsaved, show stubbed.sp - 248 = base - 304 by omega] at hstacked
  · have hstacked := hpushed.stacked
    rw [show stubbed.sp = base - 56 by omega] at hstacked
    exact hstacked.congr fun a hlow _ => hhandling.outside a (by omega)
  · rw [hhandling.system, hsystem, h.system]
  · rw [hhandling.outside a (by omega), hpushed.outside a (by rw [hstart]; omega)]
    rfl

/-- The handler reads what was interrupted, and which vector it was. -/
lemma Raised.read {cpu cpu' : Cpu} {vector : UInt8} {code : Option UInt64} {base : ℕ}
    (hroom : 344 ≤ base) (h : Raised img cpu vector code base cpu') :
    InterruptStackFrame.read cpu'.mem (cpu'.regs .rcx).toNat = frameOf cpu vector code := by
  have hframe := h.frame
  rw [show (cpu'.regs .rcx).toNat = base - 304 by omega]
  obtain ⟨h1, h2, h3, h4, h5, h6, h7, h8, h9, h10, h11, h12, h13, h14, h15, -⟩ := h.saved
  have hpushed := h.pushed
  rw [show base - 56 = base - 304 + 248 by omega] at hpushed
  obtain ⟨h16, h17, h18, h19, h20, -⟩ := hpushed
  simp only [InterruptStackFrame.read, frameOf, InterruptStackFrame.mk.injEq]
  exact ⟨h1, h2, h3, h4, h5, h6, h7, h8, h9, h10, h11, h12, h13, h14, h15, h16, h17,
    h18, h19, h20⟩

/-- From where the handler comes back, what was interrupted goes on, if its frame is as it was and
`rbx` is as a function keeps it. -/
lemma named_resumes {cpu called back : Cpu} {vector : UInt8} {code : Option UInt64} {base : ℕ}
    (hroom : 344 ≤ base) (hlt : base < 2 ^ 64) (h : Raised img cpu vector code base called)
    (hcalm : back.Calm) (hrip : back.rip = load called.mem called.sp)
    (hrbx : back.regs .rbx = called.regs .rbx)
    (hmem : ∀ a, base - 304 ≤ a → a < base → back.mem a = called.mem a) :
    img.Reaches back (img.resumed back) ∧ (img.resumed back).context = cpu.context ∧
      (img.resumed back).mem = back.mem ∧
      (img.resumed back).toSystem = { back.toSystem with cs := cpu.cs, ss := cpu.ss } := by
  have hframe := h.frame
  have hat : (back.regs .rbx).toNat = base - 304 := by
    rw [hrbx, h.rbx]
    omega
  have hpushed := h.pushed
  rw [stacked_append] at hpushed
  have hleaves := trampoline_leaves img.alu 0 hat (by omega)
    (h.saved.congr fun a hlow hhigh => hmem a hlow (by
      simp only [List.length_map, List.length_reverse, interruptSaved, List.length_cons,
        List.length_nil] at hhigh
      omega))
    (by
      rw [show base - 304 + 264 = base - 56 + 8 * [vector.toUInt64, code.getD 0].length by
        simp only [List.length_cons, List.length_nil]; omega]
      refine hpushed.2.congr fun a hlow hhigh => hmem a ?_ ?_ <;>
        simp only [Context.frame, List.length_cons, List.length_nil] at hlow hhigh <;> omega)
  exact ⟨resumed_reaches hcalm (hrip.trans h.back), hleaves⟩

/-- An interrupt that nobody handles changes nothing but the stack it was delivered on. -/
lemma spurious_resumes {cpu delivered : Cpu} {vector : UInt8} {base : ℕ} (hbase : 40 ≤ base)
    (hlt : base < 2 ^ 64) (h : Delivered cpu vector none base delivered)
    (hrip : delivered.rip = img.stubs.spurious) :
    img.Reaches delivered delivered.iretq ∧ delivered.iretq.context = cpu.context ∧
      ∀ a, a < base - 40 ∨ base ≤ a → delivered.iretq.mem a = cpu.mem a := by
  have hstart : (cpu.set .rsp (UInt64.ofNat base)).sp = base := by
    rw [Cpu.sp_set, UInt64.toNat_ofNat', Nat.mod_eq_of_lt hlt]
  have hsp : delivered.sp + 40 = base := hstart ▸ h.pushed.sp
  obtain ⟨next, hstands⟩ := img.spurious_stands
  rw [← hrip] at hstands
  refine ⟨Block.reaches img.alu h.calm hstands, iretq_context (fun r hr => ?_) h.pushed.stacked,
    fun a ha => ?_⟩
  · exact (h.pushed.regs r hr).trans (Function.update_of_ne hr _ _)
  · exact h.pushed.outside a (by rw [hstart]; omega)

/-- What it is for an interrupt not to be noticed by what it interrupts. A vector with a stub
reaches the handler on a stack aligned for a call, and the handler reads the vector, its error
code and every register; once the handler comes back as a compiled function does, with the frame
as it was, what was interrupted goes on with all its general registers, its flags, and the
segments of its code and its stack. A vector without one goes on at once, and only the place of
the frame has changed. -/
def Transparent (img : Image) (cpu : Cpu) (vector : UInt8) (code : Option UInt64) : Prop :=
  ∃ delivered, cpu.deliver vector code = some delivered ∧
    ((vector ≤ 0x21 ∧ ∃ called, img.Reaches delivered called ∧ called.rip = img.handlerAt
      ∧ called.sp % 16 = 8 ∧
        InterruptStackFrame.read called.mem (called.regs .rcx).toNat = frameOf cpu vector code ∧
        ∀ back, Returned called back
            (fun a => (called.regs .rcx).toNat ≤ a ∧ a < (called.regs .rcx).toNat + 304) →
          ∃ resumed, img.Reaches back resumed ∧ resumed.context = cpu.context
            ∧ resumed.mem = back.mem) ∨
      (0x21 < vector ∧ ∃ resumed, img.Reaches delivered resumed ∧ resumed.context = cpu.context ∧
        ∀ a, a < (cpu.frameTop (cpu.gate vector)).toNat - 40 ∨
          (cpu.frameTop (cpu.gate vector)).toNat ≤ a → resumed.mem a = cpu.mem a))

/-- **Interrupts are transparent**, whatever runs, in whichever ring, and whichever vector comes,
but that of a double fault. -/
theorem interrupt_transparent (img : Image) (idt : Idt) (cpu : Cpu) (vector : UInt8)
    (code : Option UInt64) (hgates : TableAt cpu.mem cpu.idtr (installGates img.stubs idt))
    (hvector : vector ≠ 8) (hcode : code.isSome = pushesErrorCode vector)
    (hroom : 344 ≤ (cpu.frameTop (cpu.gate vector)).toNat) : Transparent img cpu vector code := by
  have hgate := gate_eq hgates vector
  have hlt := (cpu.frameTop (cpu.gate vector)).toNat_lt
  have halign : (cpu.frameTop (cpu.gate vector)).toNat % 16 = 0 := by
    rw [Cpu.frameTop, toNat_align]
    omega
  obtain ⟨delivered, hdeliver, hdelivered⟩ := deliver_spec code (by rw [hgate]) rfl
    ((by decide : 48 ≤ 344).trans hroom)
  have hrip : delivered.rip = img.stubs.of vector := by rw [hdelivered.rip, hgate]
  rw [Transparent]
  generalize (cpu.frameTop (cpu.gate vector)).toNat = base at *
  refine ⟨delivered, hdeliver, ?_⟩
  by_cases hnamed : vector ≤ 0x21
  · left
    have hwired : wired vector = .named code.isSome := by
      rw [wired, if_neg hvector, if_pos hnamed, hcode]
    rw [StubAddresses.of, hwired] at hrip
    have hraised := raised_spec img hdelivered halign hroom hlt
    have hsp := hraised.sp
    have hframe := hraised.frame
    refine ⟨hnamed, _, raised_reaches hwired hdelivered.calm hrip, hraised.rip, by omega,
      hraised.read hroom, fun back hback => ?_⟩
    obtain ⟨hreaches, hcontext, hmem, -⟩ := named_resumes hroom hlt hraised
      (hback.calm (img.raised_calm vector code.isSome hdelivered.calm)) hback.rip
      (hback.kept .rbx (by decide)) (fun a hlow hhigh => hback.region a ⟨by omega, by omega⟩)
    exact ⟨_, hreaches, hcontext, hmem⟩
  · right
    have hwired : wired vector = .spurious := by
      rw [wired, if_neg hvector, if_neg hnamed]
    rw [StubAddresses.of, hwired] at hrip
    have hnone : code = none := by
      rw [← Option.not_isSome_iff_eq_none, hcode]
      exact fun hpushes => hnamed (le_of_pushesErrorCode hpushes)
    subst hnone
    obtain ⟨hreaches, hcontext, hmem⟩ := spurious_resumes (by omega) hlt hdelivered hrip
    exact ⟨UInt8.not_le.mp hnamed, _, hreaches, hcontext, hmem⟩

/-- The pages of a small kernel. -/
def smallImage : Image :=
  .ofPages (fun _ _ flags => flags) 0x40000 0x40008 0x20000 0x30000 0x50000

/-- The kernel itself, with its gates installed. -/
def smallCpu : Cpu where
  cs := kernelCodeSelector.toUInt64
  ss := kernelDataSelector.toUInt64
  cr3 := 0
  star := star
  lstar := smallImage.syscallAt
  fmask := fmask
  idtr := 0x1000
  tr := 0x3000
  regs := fun r => if r = .rsp then 0x9008 else 7
  rip := 0x2222
  rflags := 0x202
  mem := putTable (fun _ => 0) 0x1000 (installGates smallImage.stubs .new)

/-- A page fault in the kernel, on a stack that is not aligned. -/
theorem interrupt_transparent_pageFault : Transparent smallImage smallCpu 14 (some 2) :=
  interrupt_transparent smallImage .new smallCpu 14 (some 2) (tableAt_putTable _ _ _)
    (by decide) rfl (by
    rw [gate_eq (tableAt_putTable _ _ (installGates smallImage.stubs .new))]
    decide)

end Harlan.Stubs
