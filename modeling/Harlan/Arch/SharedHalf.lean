import Mathlib.Tactic
import Harlan.Arch.UserHalf

/-!
The kernel half as a process sees it.

`new_process_space` copies the root slots of the kernel half once. The tables below them are
shared from then on, so whatever the kernel maps or unmaps below a slot that was copied in use is
seen through every root; a slot the kernel takes into use afterwards is not.

* `KernelRun`: the kernel's own calls of `map` and `unmap` after a space was made.
* `Shares`: what such a run keeps while it stays below the slots that were copied in use.
* `kernelHalf_shared`: the kernel half then translates alike through both roots.
* `kernelHalf_apart`: otherwise it need not.
-/

namespace Harlan.Paging

open Radix (follow Reached Alone)

/-- A process space made out of the kernel's tables, each of whose kernel-half tables is reached
by one path. -/
def MadeSpace (kernel space : PageTables) (mem : Memory) : Prop :=
  ∃ (σ : Type) (src : FrameSource σ) (s s' : σ) (before : Memory),
    OwnAlone Half.kernel.Slot before kernel.root ∧ src.Fresh 1 (tablesOf before kernel.root) s
      ∧ kernel.newProcessSpace src before s = (.ok space, mem, s')

/-- A call of `map` takes the root slot of its page into use: the slot is empty, and a table is
found for it. -/
def PageTables.takesSlot {σ : Type} (kernel : PageTables) (src : FrameSource σ) (page : ℕ)
    (flags : PageFlags) (mem : Memory) (s : σ) : Bool :=
  !flags.user && !has (mem kernel.root (tableIndex page 39)) present
    && (kernel.newTable src mem s).1.isOk

/-- The kernel's calls of `map` and `unmap` in its half, from the memory in which a space was
made on, with the pages whose call took a root slot into use. No frame handed out is a table of
the kernel or the space's root. -/
inductive KernelRun (kernel space : PageTables) (made : Memory) : List ℕ → Memory → Prop
  | made : KernelRun kernel space made [] made
  | map {pages : List ℕ} {mem : Memory} {σ : Type} {src : FrameSource σ} {s : σ} {page : ℕ}
      {frame : PhysFrame} {flags : PageFlags} (hrun : KernelRun kernel space made pages mem)
      (hpage : Half.kernel.Page page)
      (hfresh : src.Fresh 3 (insert space.root (tablesOf mem kernel.root)) s) :
      KernelRun kernel space made
        (if kernel.takesSlot src page flags mem s then page :: pages else pages)
        (kernel.map src page frame flags mem s).2.1
  | unmap {pages : List ℕ} {mem : Memory} {page : ℕ}
      (hrun : KernelRun kernel space made pages mem)
      (hpage : Half.kernel.Page page) :
    KernelRun kernel space made pages (kernel.unmap page mem).2

/-- A slot of the kernel half that was in use when the space was made. -/
def InUse (kernel : PageTables) (made : Memory) (slot : Fin 512) : Prop :=
  Half.kernel.Slot slot ∧ has (made kernel.root slot) present = true

/-- What a run keeps: the slots, in both roots, and the tables below them apart from the roots. -/
structure Shares (kernel space : PageTables) (made mem : Memory) : Prop where
  alone : OwnAlone (InUse kernel made) mem kernel.root
  apart : ¬Reached next mem kernel.root 3 space.root
  kernelSlots : ∀ i, Half.kernel.Slot i → AgreeButUser (made kernel.root i) (mem kernel.root i)
  spaceSlots : ∀ i, Half.kernel.Slot i → mem space.root i = made kernel.root i

section Shares

variable {kernel space : PageTables} {made mem mem' : Memory}

/-- A write to a table below the root changes no slot of either root. -/
lemma Shares.write (h : Shares kernel space made mem) {p : List (Fin 512)} {n : ℕ} {i : Fin 512}
    {e : ℕ} (hne : p ≠ []) (hlen : p.length ≤ 3) (hown : OwnPath (InUse kernel made) p)
    (hn : follow next mem kernel.root p = some n) :
    Radix.write mem n i e kernel.root = mem kernel.root
      ∧ Radix.write mem n i e space.root = mem space.root := by
  have hkernel : kernel.root ≠ n := by
    rintro rfl
    exact hne (h.alone p _ hlen hown hn [] (by simp) rfl).symm
  have hspace : space.root ≠ n := by
    rintro rfl
    exact h.apart ⟨p, hlen, hn⟩
  refine ⟨funext fun j => ?_, funext fun j => ?_⟩
  · exact Radix.write_of_ne fun hhere => hkernel hhere.1
  · exact Radix.write_of_ne fun hhere => hspace hhere.1

/-- An edit below the slots that were in use. -/
lemma Shares.edit (h : Shares kernel space made mem) {fresh : Set ℕ}
    (hedit : Edit (InUse kernel made) fresh kernel.root mem mem') (hfresh : space.root ∉ fresh) :
    Shares kernel space made mem' := by
  have halone := hedit.alone h.alone
  cases hedit with
  | zero n hn hnew =>
      have hkernel : kernel.root ≠ n := by
        rintro rfl
        exact hnew ⟨[], by simp, rfl⟩
      have hspace : space.root ≠ n := by
        rintro rfl
        exact hfresh hn
      refine ⟨halone, ?_, ?_, ?_⟩
      · rintro ⟨p, hp, hx⟩
        rw [follow_zero hnew (by omega)] at hx
        exact h.apart ⟨p, hp, hx⟩
      · rw [Radix.fill_of_ne hkernel]
        exact h.kernelSlots
      · rw [Radix.fill_of_ne hspace]
        exact h.spaceSlots
  | link p n i new isUser hlen hown hn hnone hnew' hnew hzero halign hlt =>
      -- a root slot is not linked: those of the half that were in use are present
      have hne : p ≠ [] := by
        rintro rfl
        obtain rfl := Option.some.inj hn
        obtain ⟨hslot, huse⟩ := hown i rfl
        rw [(h.kernelSlots i hslot).present_eq, huse] at hnone
        cases hnone
      obtain ⟨hkernel, hspace⟩ :=
        @Shares.write _ _ _ _ h p n i (new ||| PageTables.reachable isUser)
        hne (by omega) hown.of_append hn
      refine ⟨halone, ?_, by rw [hkernel]; exact h.kernelSlots,
        by rw [hspace]; exact h.spaceSlots⟩
      rintro ⟨q, hq, hx⟩
      have hnone' : ∀ j, next (mem new j) = none := by
        intro j
        rw [hzero]
        rfl
      have hnew'' : new ≠ n := by
        rintro rfl
        exact hnew ⟨p, by omega, hn⟩
      obtain heq | hx := Radix.follow_link_cases (next_link isUser halign hlt) hnone' hnew'' hx
      · exact hfresh (heq ▸ hnew')
      · exact h.apart ⟨q, hq, hx⟩
  | allow p n i hlen hown hn hpres =>
      have hagree := agreeButUser_or_user (mem n i)
      have hspace : space.root ≠ n := by
        rintro rfl
        exact h.apart ⟨p, by omega, hn⟩
      refine ⟨halone, ?_, fun j hj => ?_, fun j hj => ?_⟩
      · rintro ⟨q, hq, hx⟩
        rw [Radix.follow_write_of_ptr_eq hagree.next_eq] at hx
        exact h.apart ⟨q, hq, hx⟩
      · by_cases hhere : kernel.root = n ∧ j = i
        · obtain ⟨rfl, rfl⟩ := hhere
          rw [Radix.write_self]
          exact fun k hk => (hagree k hk).trans (h.kernelSlots j hj k hk)
        · rw [Radix.write_of_ne hhere]
          exact h.kernelSlots j hj
      · rw [Radix.write_of_ne fun hhere => hspace hhere.1]
        exact h.spaceSlots j hj

lemma Shares.edits (h : Shares kernel space made mem) {fresh : Set ℕ}
    (hedits : Edits (InUse kernel made) fresh kernel.root mem mem')
    (hfresh : space.root ∉ fresh) :
    Shares kernel space made mem' := by
  induction hedits with
  | refl => exact h
  | tail _ hedit ih => exact ih.edit hedit hfresh

/-- A leaf written or cleared below the slots that were in use. -/
lemma Shares.writeLeaf (h : Shares kernel space made mem) {p : List (Fin 512)} {table : ℕ}
    (hlen : p.length = 3) (hown : OwnPath (InUse kernel made) p)
    (htable : follow next mem kernel.root p = some table) (i : Fin 512) (leaf : ℕ) :
    Shares kernel space made (Radix.write mem table i leaf) := by
  have hne : p ≠ [] := by
    rintro rfl
    cases hlen
  obtain ⟨hkernel, hspace⟩ := @Shares.write _ _ _ _ h p table i leaf hne hlen.le hown htable
  refine ⟨h.alone.writeLeaf hlen hown htable i leaf, ?_, by rw [hkernel]; exact h.kernelSlots,
    by rw [hspace]; exact h.spaceSlots⟩
  rintro ⟨q, hq, hx⟩
  rw [h.alone.follow_writeLeaf hlen hown htable i leaf hq] at hx
  exact h.apart ⟨q, hq, hx⟩

/-- The path to a page whose slot leads anywhere starts in a slot that was in use. -/
lemma Shares.ownPath (h : Shares kernel space made mem) {page table : ℕ}
    (hpage : Half.kernel.Page page)
    (htable : follow next mem kernel.root ((tableIndices page).take 3) = some table) :
    OwnPath (InUse kernel made) ((tableIndices page).take 3) := by
  refine ownPath_of_slot ⟨hpage.slot, ?_⟩
  have hfirst : (tableIndices page).take 3
      = tableIndex page 39 :: [tableIndex page 30, tableIndex page 21] :=
    rfl
  rw [hfirst, follow] at htable
  obtain ⟨n, hn, -⟩ := Option.bind_eq_some_iff.mp htable
  rw [← (h.kernelSlots _ hpage.slot).present_eq]
  exact (next_eq_some hn).1

/-- **Both roots see the kernel half alike.** -/
theorem Shares.translate_eq (h : Shares kernel space made mem) {va : ℕ}
    (hva : kernelSpaceBase ≤ va) (hlt : va < 2 ^ 64) :
    space.translate mem va = kernel.translate mem va := by
  rw [PageTables.translate, PageTables.translate]
  split
  · have hslot : Half.kernel.Slot (tableIndex va 39) := by
      obtain ⟨i, hi, hslot⟩ := kernelPath_of_kernelSpace hva hlt
      obtain rfl : tableIndex va 39 = i := by simpa [tableIndices] using hi
      exact hslot
    have hagree := h.kernelSlots _ hslot
    have hindices : tableIndices va
        = tableIndex va 39 :: [tableIndex va 30, tableIndex va 21, tableIndex va 12] :=
      rfl
    rw [hindices, walk, walk, h.spaceSlots _ hslot, hagree.present_eq, hagree.huge_eq,
      hagree.writable_eq, hagree.address_eq]
  · rfl

end Shares

/-! ### Runs -/

section Runs

variable {kernel space : PageTables} {made mem : Memory} {pages : List ℕ}

/-- A space just made shares the kernel half. -/
lemma MadeSpace.shares (h : MadeSpace kernel space made) : Shares kernel space made made := by
  obtain ⟨σ, src, s, s', before, halone, hfresh, h⟩ := h
  obtain ⟨hfetched, -, hok⟩ := @newTable_spec _ Half.kernel.Slot _ kernel _ _ _ _ _ hfresh
    (Set.Subset.refl _)
  rw [PageTables.newProcessSpace] at h
  rcases hnew : kernel.newTable src before s with ⟨err | new, mem₁, s₁⟩
  · rw [hnew] at h
    cases h
  · rw [hnew] at h hfetched hok
    cases h
    obtain ⟨-, -, hout, -⟩ := hok new rfl
    have hout₁ : ¬Reached next mem₁ kernel.root 3 new := by
      intro hr
      have hmem : new ∈ tablesOf mem₁ kernel.root := hr
      rw [tablesOf_congr hfetched.follow_eq] at hmem
      exact hout hmem
    have hne : kernel.root ≠ new := by
      rintro rfl
      exact hout₁ ⟨[], by simp, rfl⟩
    have hsame : ∀ (entries : Fin 512 → ℕ) (q : List (Fin 512)), q.length ≤ 3 →
        follow next (Radix.fill mem₁ new entries) kernel.root q
          = follow next before kernel.root q := by
      intro entries q hq
      rw [Radix.follow_fill hout₁ (by omega), hfetched.follow_eq q (by omega)]
    refine ⟨fun p n hp hown hn q hq hqn => ?_, ?_, fun i _ => .refl _, fun i hi => ?_⟩
    · rw [hsame _ p hp] at hn
      rw [hsame _ q hq] at hqn
      exact halone p n hp (fun i hi => (hown i hi).1) hn q hq hqn
    · rintro ⟨q, hq, hx⟩
      rw [Radix.follow_fill hout₁ (by omega)] at hx
      exact hout₁ ⟨q, hq, hx⟩
    · rw [Half.Slot] at hi
      rw [Radix.fill_self, if_pos hi, Radix.fill_of_ne hne]

/-- A call whose root slot is empty and stays empty gets no further than the frame it was
refused. -/
lemma map_of_not_takesSlot {σ : Type} {src : FrameSource σ} {s : σ} {page : ℕ} {frame : PhysFrame}
    {flags : PageFlags} {avoid : Set ℕ} (own : Fin 512 → Prop) (hpage : Half.kernel.Page page)
    (hfresh : src.Fresh 3 avoid s) (havoid : tablesOf mem kernel.root ⊆ avoid)
    (habsent : has (mem kernel.root (tableIndex page 39)) present = false)
    (h : kernel.takesSlot src page flags mem s = false) :
    Edits own (src.taken s (kernel.newTable src mem s).2.2 \ avoid) kernel.root mem
      (kernel.map src page frame flags mem s).2.1 := by
  obtain ⟨hfetched, -, -⟩ := @newTable_spec _ own _ kernel _ _ _ _ _ hfresh havoid
  have hlow : decide (page < kernelSpaceBase) = false :=
    decide_eq_false fun hlt => by cases hpage.side.mp hlt
  have hfirst : (tableIndices page).take 3
      = tableIndex page 39 :: [tableIndex page 30, tableIndex page 21] := rfl
  rw [PageTables.map, hlow]
  cases huser : flags.user with
  | true => exact .refl
  | false =>
      rcases hnew : kernel.newTable src mem s with ⟨err | new, mem', s'⟩
      · rw [hnew] at hfetched
        simp only [bne_self_eq_false, Bool.false_eq_true, if_false, hfirst, PageTables.descend,
          habsent, Bool.not_false, if_true, hnew]
        exact hfetched.edits
      · simp [PageTables.takesSlot, huser, habsent, hnew, Except.isOk, Except.toBool] at h

/-- So does it after any calls of the kernel that take no other slot into use. -/
lemma KernelRun.shares (hmade : MadeSpace kernel space made)
    (h : KernelRun kernel space made pages mem)
    (hpages : ∀ page ∈ pages, has (made kernel.root (tableIndex page 39)) present = true) :
    Shares kernel space made mem := by
  induction h with
  | made => exact hmade.shares
  | @map pages mem σ src s page frame flags _ hpage hfresh ih =>
      have hshares := ih fun page' hpage' => hpages page' (by
        split
        · exact List.mem_cons_of_mem page hpage'
        · exact hpage')
      by_cases hinUse : has (made kernel.root (tableIndex page 39)) present = true
      swap
      -- the slot is empty still, and this call does not take it
      · have htakes : kernel.takesSlot src page flags mem s = false := by
          by_contra htakes
          rw [Bool.not_eq_false] at htakes
          exact hinUse (hpages page (by rw [if_pos htakes]; exact List.mem_cons_self))
        have habsent : has (mem kernel.root (tableIndex page 39)) present = false := by
          rw [(hshares.kernelSlots _ hpage.slot).present_eq]
          exact Bool.eq_false_iff.mpr hinUse
        exact hshares.edits
          (map_of_not_takesSlot _ hpage hfresh (Set.subset_insert _ _) habsent htakes) fun hmem =>
          hmem.2 (Set.mem_insert _ _)
      have hslot : InUse kernel made (tableIndex page 39) := ⟨hpage.slot, hinUse⟩
      obtain ⟨-, mem₁, hedits, hcases⟩ :=
        @map_cases_avoiding _ _ kernel _ _ frame flags _ _ _ hfresh
        (Set.subset_insert _ _) hslot
      have hshares₁ := hshares.edits hedits fun hmem => hmem.2 (Set.mem_insert _ _)
      obtain ⟨-, -, hmem⟩ | ⟨-, table, htable, -, hmem⟩ := hcases
      · rw [hmem]
        exact hshares₁
      · rw [hmem]
        exact hshares₁.writeLeaf rfl (ownPath_of_slot hslot) htable _ _
  | @unmap pages mem page _ hpage ih =>
      have hshares := ih hpages
      obtain ⟨err, heq⟩ | ⟨table, htable, -, heq⟩ := unmap_cases kernel page mem
      · rw [heq]
        exact hshares
      · rw [heq]
        exact hshares.writeLeaf rfl (hshares.ownPath hpage htable) htable _ _

end Runs

/-- **The kernel half is shared** for as long as no call of `map` takes a root slot into use that
was empty when the space was made: at every point of such a run a kernel-half address translates
through the process's root as it does through the kernel's. -/
theorem kernelHalf_shared {kernel space : PageTables} {made mem : Memory} {pages : List ℕ}
    (hmade : MadeSpace kernel space made) (hrun : KernelRun kernel space made pages mem)
    (hpages : ∀ page ∈ pages, has (made kernel.root (tableIndex page 39)) present = true) {va : ℕ}
    (hva : kernelSpaceBase ≤ va) (hlt : va < 2 ^ 64) :
    space.translate mem va = kernel.translate mem va :=
  (hrun.shares hmade hpages).translate_eq hva hlt

/-! ### A kernel with one slot to spare -/

/-- The physical window at slot 260, and an empty table at slot 262. -/
def deviceTables : Memory := Radix.write (identityBelow 260) 0x1000 262 0x8003

/-- A memory with a new process space beside the tables of the device window. -/
def deviceSpaceMemory : Memory :=
  (windowTables.newProcessSpace frameList deviceTables
    ([0x3000].map PhysFrame.containingAddress)).2.1

lemma follow_deviceTables {p : List (Fin 512)} {n : ℕ}
    (h : follow next deviceTables 0x1000 p = some n) :
    p = [] ∧ n = 0x1000 ∨ p = [260] ∧ n = 0x2000 ∨ p = [262] ∧ n = 0x8000 := by
  have hwindow : ∀ i, next (deviceTables 0x2000 i) = none := by
    intro i
    rw [deviceTables, Radix.write_of_ne fun hhere => absurd hhere.1 (by decide)]
    exact next_large_identityBelow 260 i
  have hempty : ∀ i, next (deviceTables 0x8000 i) = none := by
    intro i
    rw [deviceTables, Radix.write_of_ne fun hhere => absurd hhere.1 (by decide),
      show identityBelow 260 0x8000 i = 0 by simp [identityBelow]]
    rfl
  cases p with
  | nil => exact .inl ⟨rfl, (Option.some.inj h).symm⟩
  | cons i p =>
      rw [follow] at h
      obtain ⟨x, hx, h⟩ := Option.bind_eq_some_iff.mp h
      have hend : (∀ j, next (deviceTables x j) = none) → p = [] ∧ n = x := by
        intro hnone
        cases p with
        | nil => exact ⟨rfl, (Option.some.inj h).symm⟩
        | cons j p =>
            rw [follow, hnone j] at h
            cases h
      by_cases hi : i = 262
      · subst hi
        rw [deviceTables, Radix.write_self] at hx
        obtain rfl : 0x8000 = x := Option.some.inj hx
        obtain ⟨rfl, rfl⟩ := hend hempty
        exact .inr (.inr ⟨rfl, rfl⟩)
      · rw [deviceTables, Radix.write_of_ne fun hhere => hi hhere.2] at hx
        obtain rfl := next_root_identityBelow hx
        have hslot : i = 260 := by
          by_contra hne
          rw [show identityBelow 260 0x1000 i = 0 by simp [identityBelow, hne]] at hx
          cases hx
        obtain ⟨rfl, rfl⟩ := hend hwindow
        exact .inr (.inl ⟨by rw [hslot], rfl⟩)

lemma deviceSpace_made : MadeSpace windowTables bareSpace deviceSpaceMemory := by
  refine ⟨_, frameList, [0x3000].map PhysFrame.containingAddress, [], deviceTables, ?_, ?_, ?_⟩
  · intro p n _ _ hn q _ hqn
    have hp := follow_deviceTables hn
    have hq := follow_deviceTables hqn
    grind
  · refine frameList_fresh (fun a ha => ?_) (by simp)
    obtain rfl : a = 0x3000 := by simpa using ha
    refine ⟨by decide, by decide, ?_⟩
    rintro ⟨p, -, hp⟩
    obtain ⟨-, h⟩ | ⟨-, h⟩ | ⟨-, h⟩ := follow_deviceTables hp <;> cases h
  · have hok : (windowTables.newProcessSpace frameList deviceTables
        ([0x3000].map PhysFrame.containingAddress)).1 = .ok bareSpace := by decide +kernel
    have hrest : (windowTables.newProcessSpace frameList deviceTables
        ([0x3000].map PhysFrame.containingAddress)).2.2 = [] := by decide +kernel
    rw [← hok, deviceSpaceMemory, ← hrest]

lemma tablesOf_deviceSpace {n : ℕ} (h : n ∈ tablesOf deviceSpaceMemory windowTables.root) :
    n = 0x1000 ∨ n = 0x2000 ∨ n = 0x8000 := by
  have hnew : ¬Reached next deviceTables 0x1000 3 0x3000 := by
    rintro ⟨p, -, hp⟩
    obtain ⟨-, h⟩ | ⟨-, h⟩ | ⟨-, h⟩ := follow_deviceTables hp <;> cases h
  have htable : windowTables.newTable frameList deviceTables
      ([0x3000].map PhysFrame.containingAddress)
      = (.ok 0x3000, Radix.fill (Radix.fill deviceTables 0x3000 fun _ => 0) 0x3000 fun _ =>
        0, []) := by
    rfl
  have hmem : deviceSpaceMemory = Radix.fill deviceTables 0x3000 (deviceSpaceMemory 0x3000) := by
    funext n
    by_cases hn : n = 0x3000
    · subst hn
      rw [Radix.fill_self]
    · rw [Radix.fill_of_ne hn, deviceSpaceMemory, PageTables.newProcessSpace, htable]
      dsimp only
      rw [Radix.fill_of_ne hn, Radix.fill_of_ne hn, Radix.fill_of_ne hn]
  obtain ⟨p, hp, hn⟩ := h
  rw [hmem] at hn
  have hbefore : follow next deviceTables 0x1000 p = some n :=
    (Radix.follow_fill hnew (by omega)).symm.trans hn
  obtain ⟨-, h⟩ | ⟨-, h⟩ | ⟨-, h⟩ := follow_deviceTables hbefore
  · exact .inl h
  · exact .inr (.inl h)
  · exact .inr (.inr h)

/-- The kernel maps one page after the space was made. -/
def deviceMapped (page : ℕ) : Except MapError Unit × Memory × List PhysFrame :=
  windowTables.map frameList page (.containingAddress 0x7000)
    (.kernel true false) deviceSpaceMemory
    ([0x4000, 0x5000, 0x6000].map PhysFrame.containingAddress)

/-- Whether that takes a root slot into use. -/
def deviceTakes (page : ℕ) : Bool :=
  windowTables.takesSlot frameList page (.kernel true false) deviceSpaceMemory
    ([0x4000, 0x5000, 0x6000].map PhysFrame.containingAddress)

lemma deviceMapped_run {page : ℕ} (hpage : Half.kernel.Page page) :
    KernelRun windowTables bareSpace deviceSpaceMemory (if deviceTakes page then [page] else [])
      (deviceMapped page).2.1 := by
  refine .map .made hpage (frameList_fresh (fun a ha => ?_) (by decide))
  have ha : a = 0x4000 ∨ a = 0x5000 ∨ a = 0x6000 := by simpa using ha
  refine ⟨?_, by omega, ?_⟩
  · obtain rfl | rfl | rfl := ha <;> decide
  · rintro (h | h)
    · have hroot : bareSpace.root = 0x3000 := rfl
      omega
    · have hmem := tablesOf_deviceSpace h
      omega

/-- A page below slot 262, seen through both roots. -/
theorem kernelHalf_shared_devicePage :
    (deviceMapped 0xFFFF830000000000).1 = .ok ()
      ∧ bareSpace.translate (deviceMapped 0xFFFF830000000000).2.1 0xFFFF830000000123
        = windowTables.translate (deviceMapped 0xFFFF830000000000).2.1 0xFFFF830000000123 := by
  refine ⟨by decide +kernel, ?_⟩
  refine kernelHalf_shared deviceSpace_made
    (deviceMapped_run ⟨by decide, by decide, by decide⟩) (fun page hpage => ?_)
    (by decide) (by decide)
  have hnone : deviceTakes 0xFFFF830000000000 = false := by decide +kernel
  rw [hnone] at hpage
  cases hpage

/-- **A slot taken into use later is not shared**: the kernel maps a page below slot 263, which
was empty when the space was made, and the process's root has nothing there. -/
theorem kernelHalf_apart :
    MadeSpace windowTables bareSpace deviceSpaceMemory
      ∧ KernelRun windowTables bareSpace deviceSpaceMemory [0xFFFF838000000000]
        (deviceMapped 0xFFFF838000000000).2.1
      ∧ (deviceMapped 0xFFFF838000000000).1 = .ok ()
      ∧ bareSpace.translate (deviceMapped 0xFFFF838000000000).2.1 0xFFFF838000000000
        ≠ windowTables.translate (deviceMapped 0xFFFF838000000000).2.1 0xFFFF838000000000 := by
  have htakes : deviceTakes 0xFFFF838000000000 = true := by decide +kernel
  have hrun := @deviceMapped_run 0xFFFF838000000000 ⟨by decide, by decide, by decide⟩
  rw [htakes] at hrun
  exact ⟨deviceSpace_made, hrun, by decide +kernel, by decide +kernel⟩

end Harlan.Paging
