import Mathlib.Tactic
import Harlan.Holding

/-!
What `process::destroy` gives back.

* `Leaving.rollbackPages`, `Leaving.freeLowerHalf`: the walk over the pages of the kernel stack,
  and the one over the tables of the lower half, offer back nothing but what the process has; and
  no assertion of the first fails.
* `destroy_holder`: destroying a process that still has what it was given returns frames it
  holds, and leaves the others with what they have.
* `destroy_ne`: no process, destroyed before or not, is destroyed without a change to memory,
  unless an assertion fails.
-/

namespace Harlan

open Paging (Memory FrameSource PageTables Use World Half OwnPath kindOf)
open Radix (follow)

variable {mapper : PageTables} {inv : Inventory} {mem : Memory} {kf : KernelFrames} {T : Set ℕ}
  {id : ℕ} {who : Client} {before : List (PhysFrame × Option Client)}

/-! ### Unmapping -/

lemma KernelPage.canonical {page : ℕ} (h : KernelPage page) : Paging.isCanonical page = true := by
  obtain ⟨hlow, hhigh, -⟩ := h
  have hbase : Paging.kernelSpaceBase = 2 ^ 64 - 2 ^ 47 := by decide
  rw [Paging.isCanonical_iff]
  omega

/-- Kernel pages with the same leaf are the same page. -/
lemma KernelPage.ext {page page' : ℕ} (h : KernelPage page) (h' : KernelPage page')
    (hupper : (Paging.tableIndices page).take 3 = (Paging.tableIndices page').take 3)
    (hlast : Paging.tableIndex page 12 = Paging.tableIndex page' 12) : page = page' := by
  have hsame : Paging.tableIndices page = Paging.tableIndices page' := by
    rw [Paging.tableIndices_eq page, Paging.tableIndices_eq page', hupper, hlast]
  have hpage := Paging.tableIndices_inj h.canonical h'.canonical hsame
  rwa [Paging.pageContaining_of_aligned h.2.2, Paging.pageContaining_of_aligned h'.2.2] at hpage

/-- Clearing the leaf of a kernel page that is nobody's kernel stack. -/
lemma Good.clearLeaf {use : ℕ → Use} (h : Good use mapper inv (mem, kf)) {page table : ℕ}
    (hkernel : KernelPage page) (hnobody : ∀ id, (id, page) ∉ inv.stackPages)
    (htable : follow Paging.next mem mapper.root ((Paging.tableIndices page).take 3)
      = some table) :
    Good use mapper inv (Radix.write mem table (Paging.tableIndex page 12) 0, kf) := by
  have hroot := @mem_rootsOf_mapper mapper inv.spaces
  refine ⟨h.ready, h.supply, h.running, h.world.writeLeaf hroot rfl htable _ _, h.free,
    fun id page' hpage' => ?_, h.stack, h.memory, h.holder, h.others⟩
  obtain ⟨hkernel', table', htable', hpres, hu⟩ := h.stackMapped id page' hpage'
  have hleaf : Radix.write mem table (Paging.tableIndex page 12) 0 table'
      (Paging.tableIndex page' 12) = mem table' (Paging.tableIndex page' 12) := by
    refine Radix.write_of_ne ?_
    rintro ⟨rfl, hlast⟩
    -- one table has one path, so that leaf is of one page
    have hupper := Paging.kindOf_inj
      ((h.world.kind none mapper.root hroot _ _ (le_refl 3) htable').symm.trans
      (h.world.kind none mapper.root hroot _ _ (le_refl 3) htable))
    rw [hkernel'.ext hkernel hupper hlast] at hpage'
    exact hnobody id hpage'
  refine ⟨hkernel', table', ?_, ?_, ?_⟩
  · rw [h.world.follow_writeLeaf hroot rfl htable hroot (le_refl 3), htable']
  · dsimp only
    rw [hleaf]
    exact hpres
  · dsimp only
    rw [hleaf]
    exact hu

/-- Which page of a kernel stack a frame is behind. -/
def behind (use : ℕ → Use) (n : ℕ) : Option ℕ :=
  match use n with
  | .held _ page => page
  | _ => none

/-- A page that may go: it is nobody's kernel stack any more, and it is mapped to a frame that is
given back, is held for a stack, and is behind no other page. -/
structure Going (T : Set ℕ) (back : ℕ → Option ℕ) (mapper : PageTables) (inv : Inventory)
    (k : Kernel) (page : ℕ) : Prop where
  kernel : KernelPage page
  nobody : ∀ id, (id, page) ∉ inv.stackPages
  frame : ∃ table, follow Paging.next k.1 mapper.root ((Paging.tableIndices page).take 3)
    = some table
    ∧ Paging.has (k.1 table (Paging.tableIndex page 12)) Paging.present = true
    ∧ k.1 table (Paging.tableIndex page 12) &&& Paging.addressMask ∈ T
    ∧ back (k.1 table (Paging.tableIndex page 12) &&& Paging.addressMask) = some page
    ∧ Stacks.Held k.2.inner
        (.containingAddress (k.1 table (Paging.tableIndex page 12) &&& Paging.addressMask))

variable {back : ℕ → Option ℕ}

/-- A frame given back that is not behind the page is no matter to it. -/
lemma Going.deallocateAs {page : ℕ} (h : Going T back mapper inv (mem, kf) page)
    (hready : kf.Ready) {frame : PhysFrame} (hframe : back frame.start ≠ some page)
    (purpose : FramePurpose) :
    Going T back mapper inv (mem, (kf.deallocateAs frame purpose).2) page := by
  obtain ⟨table, htable, hpres, hmem, hback, hheld⟩ := h.frame
  refine ⟨h.kernel, h.nobody, table, htable, hpres, hmem, hback, ?_⟩
  obtain heq | ⟨-, kf', heq, htook⟩ := KernelFrames.deallocateAs_cases hready frame purpose
  · rw [heq]
    exact hheld
  · rw [heq]
    refine htook.stack _ ?_ hheld
    rintro rfl
    rw [Paging.containingAddress_masked] at hframe
    exact hframe hback

/-- Giving back a frame that is held for a stack trips no assertion. -/
lemma returnStackFrame_eq {frame : PhysFrame} (hheld : Stacks.Held kf.inner frame)
    (hsupply : Stacks.Supply kf.inner) :
    kf.returnStackFrame frame = (kf.deallocateAs frame .stack).2 := by
  rw [KernelFrames.returnStackFrame]
  dsimp only
  rw [KernelFrames.deallocateAs_stack hheld hsupply, KernelFrames.debugAssert]
  simp

/-- **A page that may go goes**: no assertion fails, what is given back stays as it is, and the
other pages may still go. -/
lemma Leaving.rollbackPage {k : Kernel} (h : Leaving T who before mapper inv k) {page : ℕ}
    (hpage : Going T back mapper inv k page) :
    Leaving T who before mapper inv (Harlan.rollbackPage mapper k page)
      ∧ (∀ n ∈ T, (Harlan.rollbackPage mapper k page).1 n = k.1 n)
      ∧ ∀ page', page' ≠ page → Going T back mapper inv k page' →
        Going T back mapper inv (Harlan.rollbackPage mapper k page) page' := by
  obtain ⟨mem, kf⟩ := k
  obtain ⟨use, hgood, hloose⟩ := h.good
  obtain ⟨table, htable, hpres, hmem, hback, hheld⟩ := hpage.frame
  dsimp only at htable hpres hmem hback hheld
  have hroot := @mem_rootsOf_mapper mapper inv.spaces
  have hstart := Paging.containingAddress_masked (mem table (Paging.tableIndex page 12))
  have hrunning : kf.stopped = false := hgood.running
  rw [Harlan.rollbackPage]
  dsimp only
  rw [hrunning, Paging.unmap_of_leaf mapper hpage.kernel.1 htable hpres]
  dsimp only
  rw [if_neg Bool.false_ne_true, returnStackFrame_eq hheld hgood.supply]
  have hcleared : Leaving T who before mapper inv
      (Radix.write mem table (Paging.tableIndex page 12) 0, kf) :=
    ⟨⟨use, hgood.clearLeaf hpage.kernel hpage.nobody htable, hloose⟩, h.held, h.log⟩
  refine ⟨hcleared.deallocateAs (by rwa [hstart]) .stack, fun n hn => ?_,
    fun page' hne hpage' => ?_⟩
  · funext j
    refine Radix.write_of_ne ?_
    rintro ⟨rfl, -⟩
    exact noTable_of_loose (hloose n hn) none _
      (hgood.world.kind none mapper.root hroot _ _ (le_refl 3) htable)
  · refine Going.deallocateAs ?_ hgood.ready ?_ .stack
    · obtain ⟨table', htable', hpres', hmem', hback', hheld'⟩ := hpage'.frame
      -- another page has another leaf
      have hleaf : Radix.write mem table (Paging.tableIndex page 12) 0 table'
          (Paging.tableIndex page' 12) = mem table' (Paging.tableIndex page' 12) := by
        refine Radix.write_of_ne ?_
        rintro ⟨rfl, hlast⟩
        dsimp only at hback'
        rw [hlast, hback] at hback'
        exact hne (Option.some.inj hback').symm
      refine ⟨hpage'.kernel, hpage'.nobody, table', ?_, ?_⟩
      · rw [hgood.world.follow_writeLeaf hroot rfl htable hroot (le_refl 3)]
        exact htable'
      · dsimp only
        rw [hleaf]
        exact ⟨hpres', hmem', hback', hheld'⟩
    · rw [hstart, hback]
      exact fun heq => hne (Option.some.inj heq).symm

/-- So it is for a run of pages. -/
lemma Leaving.rollbackPages {pages : List ℕ} {k : Kernel} (h : Leaving T who before mapper inv k)
    (hpages : ∀ page ∈ pages, Going T back mapper inv k page) (hnodup : pages.Nodup) :
    Leaving T who before mapper inv (pages.foldl (Harlan.rollbackPage mapper) k)
      ∧ ∀ n ∈ T, (pages.foldl (Harlan.rollbackPage mapper) k).1 n = k.1 n := by
  induction pages generalizing k with
  | nil => exact ⟨h, fun _ _ => rfl⟩
  | cons page rest ih =>
      obtain ⟨hnotin, hrest⟩ := List.nodup_cons.mp hnodup
      obtain ⟨hnext, hsame, hgoing⟩ := h.rollbackPage (hpages page List.mem_cons_self)
      obtain ⟨hlast, hsame'⟩ := ih hnext (fun page' hpage' => hgoing page'
        (fun heq => hnotin (heq ▸ hpage'))
        (hpages page' (List.mem_cons_of_mem page hpage'))) hrest
      exact ⟨hlast, fun n hn => (hsame' n hn).trans (hsame n hn)⟩

lemma stackPages_succ (bottom index : ℕ) :
    stackPages bottom (index + 1)
      = stackPages bottom index ++ [pageContaining (bottom + index * frameSize)] := by
  simp [stackPages, List.range_succ]

/-- No page comes twice. -/
lemma stackPages_nodup (bottom pages : ℕ) : (stackPages bottom pages).Nodup := by
  refine List.Nodup.map_on (fun i _ j _ hsame => ?_) List.nodup_range
  simp only [pageContaining, frameSize] at hsame
  omega

/-! ### The tables of the lower half -/

/-- Every table the lower half of a root reaches is given back. -/
structure Below (T : Set ℕ) (root : ℕ) (mem : Memory) : Prop where
  rootMem : root ∈ T
  aligned : root % frameSize = 0
  tables : ∀ p n, p ≠ [] → p.length ≤ 3 → OwnPath Half.lower.Slot p →
    follow Paging.next mem root p = some n → n ∈ T
  slots : ∀ i, Half.lower.Slot i → Paging.has (mem root i) Paging.present = true →
    Paging.has (mem root i) Paging.huge = false

/-- What is on the way to a table given back is given back too. -/
lemma Below.mem_of_follow {root n : ℕ} {p : List (Fin 512)} (h : Below T root mem)
    (hlen : p.length ≤ 3) (hown : OwnPath Half.lower.Slot p)
    (hn : follow Paging.next mem root p = some n) : n ∈ T := by
  cases p with
  | nil =>
      obtain rfl : root = n := by simpa [follow] using hn
      exact h.rootMem
  | cons i p => exact h.tables _ n (by simp) hlen hown hn

lemma Below.congr {mem' : Memory} {root : ℕ} (h : Below T root mem)
    (hsame : ∀ n ∈ T, mem' n = mem n) : Below T root mem' := by
  refine ⟨h.rootMem, h.aligned, fun p n hp hlen hown hn => ?_, fun i hi hpres => ?_⟩
  · have hfollow : follow Paging.next mem' root p = follow Paging.next mem root p := by
      refine Radix.follow_congr ?_
      rintro q j ⟨rest, rfl⟩ x hx
      simp only [List.length_append, List.length_singleton] at hlen
      rw [hsame x (h.mem_of_follow (by omega) hown.of_append.of_append hx)]
    rw [hfollow] at hn
    exact h.tables p n hp hlen hown hn
  · rw [hsame root h.rootMem] at hpres ⊢
    exact h.slots i hi hpres

lemma Below.clear {root : ℕ} (h : Below T root mem) (slot : Fin 512) :
    Below T root (Radix.write mem root slot 0) := by
  refine ⟨h.rootMem, h.aligned, fun p n hp hlen hown hn => ?_, fun i hi hpres => ?_⟩
  · exact h.tables p n hp hlen hown (Radix.follow_of_write_none (by rfl) hn)
  · by_cases hsame : root = root ∧ i = slot
    · rw [hsame.2, Radix.write_self] at hpres
      cases hpres
    · rw [Radix.write_of_ne hsame] at hpres ⊢
      exact h.slots i hi hpres

/-- What is handed back of one slot are tables below it. -/
lemma mem_tablesBelow {table x : ℕ} (h : x ∈ PageTables.tablesBelow mem table) :
    ∃ q : List (Fin 512), q.length ≤ 2 ∧ follow Paging.next mem table q = some x := by
  simp only [PageTables.tablesBelow, List.mem_flatMap, List.mem_finRange, true_and] at h
  obtain ⟨i, h⟩ := h
  split_ifs at h with hi
  · cases h
  · have hi' : Paging.next (mem table i) = some (mem table i &&& Paging.addressMask) := by
      simp only [Bool.or_eq_true, Bool.not_eq_true', not_or, Bool.not_eq_false,
        Bool.not_eq_true] at hi
      exact Paging.next_of_present hi.1 hi.2
    rw [List.mem_append, List.mem_singleton, List.mem_flatMap] at h
    obtain ⟨j, -, h⟩ | rfl := h
    · split_ifs at h with hj
      · cases h
      · have hj' := Paging.next_of_present
          (e := mem (mem table i &&& Paging.addressMask) j) (by simp_all) (by simp_all)
        refine ⟨[i, j], by simp, ?_⟩
        rw [List.mem_singleton] at h
        simp only [follow, hi', Option.bind_some, hj', h]
    · exact ⟨[i], by simp, by simp [follow, hi']⟩

lemma handBack_snd (state : ℕ × KernelFrames) (addr : ℕ) :
    (PageTables.handBack giveBackTable state addr).2
      = (state.2.deallocateAs (.containingAddress addr) .pageTable).2 := by
  rw [PageTables.handBack, giveBackTable]
  rcases state.2.deallocateAs (.containingAddress addr) .pageTable with ⟨_ | _, kf⟩ <;> rfl

lemma Leaving.handBacks {addrs : List ℕ} {state : ℕ × KernelFrames}
    (h : Leaving T who before mapper inv (mem, state.2))
    (haddrs : ∀ addr ∈ addrs, addr ∈ T ∧ addr % frameSize = 0) :
    Leaving T who before mapper inv
      (mem, (addrs.foldl (PageTables.handBack giveBackTable) state).2) := by
  induction addrs generalizing state with
  | nil => exact h
  | cons addr rest ih =>
      refine @ih (PageTables.handBack giveBackTable state addr) ?_ fun a ha =>
        haddrs a (List.mem_cons_of_mem addr ha)
      obtain ⟨hmem, halign⟩ := haddrs addr List.mem_cons_self
      rw [handBack_snd]
      refine h.deallocateAs ?_ .pageTable
      show addr - addr % frameSize ∈ T
      rwa [halign, Nat.sub_zero]

lemma Leaving.freeSlot {tables : PageTables} {freed : ℕ} {slot : Fin 512}
    (h : Leaving T who before mapper inv (mem, kf)) (hbelow : Below T tables.root mem)
    (hslot : Half.lower.Slot slot) :
    ∃ freed' mem' kf', tables.freeSlot giveBackTable (freed, mem, kf) slot = (freed', mem', kf')
      ∧ Leaving T who before mapper inv (mem', kf') ∧ Below T tables.root mem' := by
  rw [PageTables.freeSlot]
  dsimp only
  cases hpres : Paging.has (mem tables.root slot) Paging.present with
  | false => exact ⟨_, _, _, rfl, h, hbelow⟩
  | true =>
      have hnext := Paging.next_of_present hpres (hbelow.slots slot hslot hpres)
      have hown : ∀ q : List (Fin 512), OwnPath Half.lower.Slot (slot :: q) := by
        intro q i hi
        obtain rfl : slot = i := by simpa using hi
        exact hslot
      refine ⟨_, _, _, rfl, Leaving.write ?_ hbelow.rootMem slot 0, hbelow.clear slot⟩
      refine @Leaving.handBacks _ _ _ _ _ _ _ (freed, kf) h fun addr haddr => ?_
      obtain ⟨q, hq, hx⟩ : ∃ q : List (Fin 512), q.length ≤ 2
          ∧ follow Paging.next mem (mem tables.root slot &&& Paging.addressMask) q
            = some addr := by
        obtain haddr | haddr := List.mem_append.mp haddr
        · exact mem_tablesBelow haddr
        · exact ⟨[], by simp, by rw [List.mem_singleton.mp haddr]; rfl⟩
      have hpath : follow Paging.next mem tables.root (slot :: q) = some addr := by
        rw [follow, hnext]
        exact hx
      exact ⟨hbelow.tables _ addr (by simp) (by simp; omega) (hown q) hpath,
        Paging.follow_aligned hbelow.aligned hpath⟩

lemma Leaving.freeSlots {tables : PageTables} {slots : List (Fin 512)} {freed : ℕ}
    (h : Leaving T who before mapper inv (mem, kf)) (hbelow : Below T tables.root mem)
    (hslots : ∀ slot ∈ slots, Half.lower.Slot slot) :
    ∃ freed' mem' kf', slots.foldl (tables.freeSlot giveBackTable) (freed, mem, kf)
        = (freed', mem', kf')
      ∧ Leaving T who before mapper inv (mem', kf') ∧ Below T tables.root mem' := by
  induction slots generalizing freed mem kf with
  | nil => exact ⟨_, _, _, rfl, h, hbelow⟩
  | cons slot rest ih =>
      obtain ⟨freed₁, mem₁, kf₁, heq, h₁, hbelow₁⟩ :=
        @Leaving.freeSlot _ _ _ _ _ _ _ _ freed _ h hbelow (hslots slot List.mem_cons_self)
      rw [List.foldl_cons, heq]
      exact ih h₁ hbelow₁ fun slot' hmem => hslots slot' (List.mem_cons_of_mem slot hmem)

lemma Leaving.freeLowerHalf {tables : PageTables} (h : Leaving T who before mapper inv (mem, kf))
    (hbelow : Below T tables.root mem) :
    Leaving T who before mapper inv (tables.freeLowerHalf giveBackTable mem kf).2 := by
  obtain ⟨freed, mem', kf', heq, h', hbelow'⟩ := @Leaving.freeSlots _ _ _ _ _ _ _ _
    ((List.finRange 512).filter fun slot => decide (slot.val < PageTables.kernelSlot)) 0 h
    hbelow fun slot hslot => by
      rw [List.mem_filter, decide_eq_true_eq] at hslot
      exact hslot.2
  rw [PageTables.freeLowerHalf, heq]
  exact @Leaving.handBacks _ _ _ _ _ _ [tables.root] (freed, kf') h' fun addr haddr => by
    rw [List.mem_singleton.mp haddr]
    exact ⟨hbelow'.rootMem, hbelow'.aligned⟩

/-! ### A process that has what it was given -/

/-- The pages of a stack. -/
def Stack.pages (stack : Stack) : List ℕ := stackPages stack.bottom (stack.size / frameSize)

/-- A process has everything it was given. -/
structure Owns (inv : Inventory) (id : ℕ) (process : Process) : Prop where
  space : (id, process.space.root) ∈ inv.spaces
  aligned : process.space.root % frameSize = 0
  frames : ∀ x ∈ process.frames, (id, x.1.start) ∈ inv.memory
  stack : ∀ page ∈ process.kernelStack.pages, (id, page) ∈ inv.stackPages
  stacked : process.kernelStack.pages ≠ []

section Owns

variable {use : ℕ → Use} {process : Process}

/-- The tables of its lower half are its own. -/
lemma Good.below (h : Good use mapper inv (mem, kf)) {root : ℕ} (hspace : (id, root) ∈ inv.spaces)
    (halign : root % frameSize = 0) : Below (belongs use id) root mem := by
  have hroot := @mem_rootsOf_space mapper _ _ _ hspace
  refine ⟨.inr ⟨[], h.world.root_kind hroot⟩, halign, fun p n hp hlen hown hn => .inr ⟨p, ?_⟩,
    fun i hi => h.world.slots id root hroot i hi⟩
  rw [h.world.kind (some id) root hroot p n hlen hn]
  cases p with
  | nil => exact absurd rfl hp
  | cons i p =>
      have hi := hown i rfl
      rw [Half.Slot] at hi
      have hstart : Paging.startsInKernel (i :: p) = false := by
        simpa [Paging.startsInKernel] using hi
      simp [kindOf, hstart]

/-- The pages of its kernel stack are nobody else's. -/
lemma Good.going (h : Good use mapper inv (mem, kf)) {page : ℕ}
    (hpage : (id, page) ∈ inv.stackPages) :
    Going (belongs use id) (behind use) mapper (inv.without id) (mem, kf) page := by
  obtain ⟨hkernel, table, htable, hpres, hu⟩ := h.stackMapped id page hpage
  refine ⟨hkernel, fun id' hpage' => ?_, table, htable, hpres, .inl ⟨_, hu⟩,
    by rw [behind, hu], ?_⟩
  · obtain ⟨-, table', htable', -, hu'⟩ := h.stackMapped id' page hpage'.1
    obtain rfl : table = table' := Option.some.inj (htable.symm.trans htable')
    rw [hu] at hu'
    exact hpage'.2 (Use.held.inj hu').1.symm
  · refine h.stack _ id page ?_
    rw [Paging.containingAddress_masked]
    exact hu

lemma offerFrame_snd (state : ℕ × KernelFrames) (x : PhysFrame × FramePurpose) :
    (offerFrame state x).2 = (state.2.deallocateAs x.1 x.2).2 := by
  rw [offerFrame]
  rcases state.2.deallocateAs x.1 x.2 with ⟨_ | _, kf⟩ <;> rfl

/-- Offering back the frames a process recorded, none of which is behind a page of its kernel
stack. -/
lemma Leaving.offerFrames {frames : List (PhysFrame × FramePurpose)} {state : ℕ × KernelFrames}
    (h : Leaving T who before mapper inv (mem, state.2)) (hframes : ∀ x ∈ frames, x.1.start ∈ T)
    (hback : ∀ x ∈ frames, back x.1.start = none) :
    Leaving T who before mapper inv (mem, (frames.foldl offerFrame state).2)
      ∧ ∀ page, Going T back mapper inv (mem, state.2) page →
        Going T back mapper inv (mem, (frames.foldl offerFrame state).2) page := by
  induction frames generalizing state with
  | nil => exact ⟨h, fun _ hpage => hpage⟩
  | cons x rest ih =>
      have hready : state.2.Ready := by
        obtain ⟨use, hgood, -⟩ := h.good
        exact hgood.ready
      obtain ⟨hlast, hgoing⟩ := @ih (offerFrame state x)
        (by
          rw [offerFrame_snd]
          exact h.deallocateAs (hframes _ List.mem_cons_self) x.2)
        (fun x hx => hframes x (List.mem_cons_of_mem _ hx))
        fun x hx => hback x (List.mem_cons_of_mem _ hx)
      refine ⟨hlast, fun page hpage => hgoing page ?_⟩
      rw [offerFrame_snd]
      refine hpage.deallocateAs hready ?_ x.2
      rw [hback x List.mem_cons_self]
      exact (Option.some_ne_none page).symm

/-- The three stages of `destroy`, where no assertion fails. -/
lemma destroy_eq {process : Process} {k k₂ k₃ : Kernel} {kf₁ : KernelFrames}
    {memory tables : ℕ} (hmemory : process.frames.foldl offerFrame (0, k.2) = (memory, kf₁))
    (hstack : process.kernelStack.pages.foldl (rollbackPage mapper) (k.1, kf₁) = k₂)
    (hrunning : k₂.2.stopped = false)
    (htables : process.space.freeLowerHalf giveBackTable k₂.1 k₂.2 = (tables, k₃)) :
    destroy mapper process k = (memory + (k₂.2.inner.free - kf₁.inner.free) + tables, k₃) := by
  have hunmap : unmapStack mapper process.kernelStack (k.1, kf₁)
      = (k₂.2.inner.free - kf₁.inner.free, k₂) := by
    rw [← hstack]
    rfl
  rw [destroy, hmemory]
  dsimp only
  rw [hunmap]
  dsimp only
  rw [hrunning, if_neg Bool.false_ne_true, htables]

/-- **Destroying a process that has what it was given**: every frame it returns it holds at
that moment, everybody else keeps what they have, and no assertion fails. -/
lemma destroy_holder {k : Kernel} (h : Good use mapper inv k) (howns : Owns inv id process) :
    (∃ use', Good use' mapper (inv.without id) (destroy mapper process k).2)
      ∧ ∃ entries, (destroy mapper process k).2.2.returned = k.2.returned ++ entries
        ∧ ∀ e ∈ entries, e.2 = some (.process id) := by
  obtain ⟨mem, kf⟩ := k
  rcases hmemory : process.frames.foldl offerFrame (0, kf) with ⟨memory, kf₁⟩
  rcases hstack : process.kernelStack.pages.foldl (rollbackPage mapper) (mem, kf₁)
    with ⟨mem₂, kf₂⟩
  rcases htables : process.space.freeLowerHalf giveBackTable mem₂ kf₂ with ⟨tables, k₃⟩
  -- the memory it recorded
  obtain ⟨hrecorded, hgoing⟩ :=
    @Leaving.offerFrames _ _ _ _ _ _ (behind use) process.frames (0, kf)
    (h.leave id) (fun x hx => .inl ⟨_, h.memory id _ (howns.frames x hx)⟩) fun x hx => by
      rw [behind, h.memory id _ (howns.frames x hx)]
  rw [hmemory] at hrecorded hgoing
  -- its kernel stack
  obtain ⟨hunmapped, hsame⟩ := hrecorded.rollbackPages
    (fun page hpage => hgoing page (h.going (howns.stack page hpage))) (stackPages_nodup _ _)
  rw [hstack] at hunmapped hsame
  -- its tables
  have hrunning : kf₂.stopped = false := by
    obtain ⟨use', hgood, -⟩ := hunmapped.good
    exact hgood.running
  have hfreed := @Leaving.freeLowerHalf _ _ _ _ _ _ _ process.space hunmapped
    ((h.below howns.space howns.aligned).congr hsame)
  rw [htables] at hfreed
  rw [destroy_eq (k := (mem, kf)) hmemory hstack hrunning htables]
  obtain ⟨use', hgood, -⟩ := hfreed.good
  exact ⟨⟨use', hgood⟩, hfreed.log⟩

end Owns

/-! ### What a kernel page translates to -/

/-- A walk that gets to a present leaf answers its frame. -/
lemma walk_phys {va root table level : ℕ} {p : List (Fin 512)} {i : Fin 512} {w : Bool}
    (hlevel : level + p.length = 3) (htable : follow Paging.next mem root p = some table)
    (hpres : Paging.has (mem table i) Paging.present = true) :
    ∃ w', Paging.walk mem va (p ++ [i]) level root w
      = some ⟨(mem table i &&& Paging.addressMask) + va % frameSize, w', frameSize⟩ := by
  induction p generalizing level root w with
  | nil => exact ⟨_, Paging.walk_of_follow hlevel htable (fun q j hq => by simp at hq) hpres⟩
  | cons j p ih =>
      rw [follow] at htable
      obtain ⟨x, hx, htable⟩ := Option.bind_eq_some_iff.mp htable
      obtain ⟨hj, hhuge, rfl⟩ := Paging.next_eq_some hx
      rw [List.length_cons] at hlevel
      have hne : level ≠ 3 := by omega
      simp only [List.cons_append, Paging.walk, hj, hhuge, Bool.not_true, Bool.and_false,
        Bool.or_false, Bool.false_eq_true, if_false, beq_iff_eq, hne]
      exact ih (by omega) htable

/-- What a kernel page translates to, read from its leaf. -/
lemma translate_phys {page table : ℕ} (hpage : KernelPage page)
    (htable : follow Paging.next mem mapper.root ((Paging.tableIndices page).take 3) = some table)
    (hpres : Paging.has (mem table (Paging.tableIndex page 12)) Paging.present = true) :
    ∃ t, mapper.translate mem page = some t
      ∧ t.phys = mem table (Paging.tableIndex page 12) &&& Paging.addressMask := by
  rw [PageTables.translate, if_pos hpage.canonical, Paging.tableIndices_eq]
  obtain ⟨w, hwalk⟩ := @walk_phys _ page _ _ 0 _ _ true rfl htable hpres
  refine ⟨_, hwalk, ?_⟩
  dsimp only
  rw [hpage.2.2, Nat.add_zero]

/-! ### A process that was destroyed before -/

section Again

variable {k : Kernel} {n : ℕ} {i : Fin 512}

lemma write_zero_empty (hempty : mem n i = 0) (table : ℕ) (j : Fin 512) :
    Radix.write mem table j 0 n i = 0 := by
  by_cases hsame : n = table ∧ i = j
  · rw [hsame.1, hsame.2, Radix.write_self]
  · rw [Radix.write_of_ne hsame, hempty]

/-- What is given back is only ever cleared. -/
lemma rollbackPage_empty (hempty : k.1 n i = 0) (page : ℕ) :
    (rollbackPage mapper k page).1 n i = 0 := by
  rw [rollbackPage]
  split
  · exact hempty
  · obtain ⟨err, heq⟩ | ⟨table, -, -, heq⟩ := Paging.unmap_cases mapper page k.1
    · rw [heq]
      exact hempty
    · rw [heq]
      exact write_zero_empty hempty _ _

lemma rollbackPages_empty {pages : List ℕ} (hempty : k.1 n i = 0) :
    (pages.foldl (rollbackPage mapper) k).1 n i = 0 := by
  induction pages generalizing k with
  | nil => exact hempty
  | cons page rest ih => exact ih (rollbackPage_empty hempty page)

lemma freeLowerHalf_empty (tables : PageTables) (hempty : mem n i = 0) :
    (tables.freeLowerHalf giveBackTable mem kf).2.1 n i = 0 := by
  have hslots : ∀ (slots : List (Fin 512)) (state : ℕ × Memory × KernelFrames),
      state.2.1 n i = 0 → (slots.foldl (tables.freeSlot giveBackTable) state).2.1 n i = 0 := by
    intro slots
    induction slots with
    | nil => exact fun _ h => h
    | cons slot rest ih =>
        rintro ⟨freed, mem, kf⟩ hstate
        refine ih _ ?_
        rw [PageTables.freeSlot]
        dsimp only
        split
        · exact hstate
        · exact write_zero_empty hstate _ _
  have hcleared := hslots
    ((List.finRange 512).filter fun slot => decide (slot.val < PageTables.kernelSlot))
    (0, mem, kf) hempty
  rw [PageTables.freeLowerHalf]
  generalize List.foldl (tables.freeSlot giveBackTable) _ _ = state at hcleared ⊢
  obtain ⟨freed, mem', kf'⟩ := state
  dsimp only at hcleared ⊢
  rcases PageTables.handBack giveBackTable (freed, kf') tables.root with ⟨_, _⟩
  exact hcleared

/-- Unmapping a page stops at an assertion, or clears an entry. -/
lemma rollbackPage_cases (mapper : PageTables) (k : Kernel) (page : ℕ) :
    (rollbackPage mapper k page).2.stopped = true
      ∨ ∃ n i, k.1 n i ≠ 0 ∧ (rollbackPage mapper k page).1 n i = 0 := by
  rw [rollbackPage]
  split
  · exact .inl ‹_›
  · obtain ⟨err, heq⟩ | ⟨table, -, hpres, heq⟩ := Paging.unmap_cases mapper page k.1
    · left
      rw [heq]
      simp [KernelFrames.debugAssert]
    · right
      refine ⟨table, Paging.tableIndex page 12, fun hzero => ?_, ?_⟩
      · rw [hzero] at hpres
        cases hpres
      · rw [heq]
        exact Radix.write_self _ _ _ _

lemma rollbackPages_of_stopped {pages : List ℕ} (h : k.2.stopped = true) :
    pages.foldl (rollbackPage mapper) k = k := by
  induction pages with
  | nil => rfl
  | cons page rest ih => rwa [List.foldl_cons, rollbackPage, if_pos h]

/-- **Destroying a process changes memory**, whatever it was before, unless an assertion stops it:
its kernel stack was mapped, or is. -/
lemma destroy_ne {process : Process} (hpages : process.kernelStack.pages ≠ [])
    (hrunning : (destroy mapper process k).2.2.stopped = false) :
    (destroy mapper process k).2.1 ≠ k.1 := by
  obtain ⟨page, rest, hcons⟩ := List.exists_cons_of_ne_nil hpages
  obtain ⟨kf₁, hkf₁⟩ : ∃ kf₁, kf₁ = (process.frames.foldl offerFrame (0, k.2)).2 := ⟨_, rfl⟩
  obtain ⟨k₂, hk₂⟩ : ∃ k₂,
      k₂ = rest.foldl (rollbackPage mapper) (rollbackPage mapper (k.1, kf₁) page) :=
    ⟨_, rfl⟩
  have hunmap : (unmapStack mapper process.kernelStack (k.1, kf₁)).2 = k₂ := by
    rw [hk₂, ← List.foldl_cons, ← hcons]
    rfl
  rw [destroy] at hrunning ⊢
  dsimp only at hrunning ⊢
  rw [← hkf₁, hunmap] at hrunning ⊢
  cases hstopped : k₂.2.stopped with
  | true =>
      rw [if_pos hstopped] at hrunning
      exact absurd hstopped (Bool.eq_false_iff.mp hrunning)
  | false =>
      rw [if_neg Bool.false_ne_true]
      dsimp only
      obtain hstop | ⟨n, i, hne, hzero⟩ := rollbackPage_cases mapper (k.1, kf₁) page
      · rw [hk₂, rollbackPages_of_stopped hstop] at hstopped
        exact absurd hstop (Bool.eq_false_iff.mp hstopped)
      · intro hsame
        have hlast := @freeLowerHalf_empty k₂.1 k₂.2 n i process.space
          (hk₂ ▸ rollbackPages_empty hzero)
        rw [hsame] at hlast
        exact hne hlast

end Again

end Harlan
