import Mathlib.Tactic
import Harlan.Arch.PageMap

/-!
User mappings and the kernel half of a process's address space.

A process space is made by `new_process_space` and then mapped in, while the kernel and other
processes go on editing the tables they hold (`ProcessSpace`). `map` lets a user page pass
when its address is below `KERNEL_SPACE_BASE`; which root slot it is written below is decided
by bits 39 to 47 alone.

* `KernelHalfKept`: a call writes neither a slot of the kernel half nor a table below one, and
  makes nothing of it reachable from ring 3.
* `map_kernelTablesSame`: a mapping below a slot of the lower half changes nothing the walks of
  the kernel half read.
* `map_kernelHalf_iff`: a mapping that succeeds keeps the kernel half exactly when bit 47 of its
  page is clear.
-/

namespace Harlan.Paging

open Radix (follow Reached Alone)

/-! ### What ring 3 reaches -/

/-- Whether every level of a walk lets ring 3 pass. -/
def userWalk (mem : Memory) : List (Fin 512) → ℕ → ℕ → Bool
  | [], _, _ => false
  | index :: rest, level, table =>
      let entry := mem table index
      has entry present && has entry user && !(level == 0 && has entry huge) &&
        if level == 3 || has entry huge then true
        else userWalk mem rest (level + 1) (entry &&& addressMask)

/-- `va` is reachable from ring 3: it is mapped, with the user bit at every level. -/
def PageTables.userReaches (tables : PageTables) (mem : Memory) (va : ℕ) : Bool :=
  isCanonical va && userWalk mem (tableIndices va) 0 tables.root

/-- A path that starts in the kernel half. -/
def KernelPath (p : List (Fin 512)) : Prop := ∃ i ∈ p.head?, PageTables.kernelSlot ≤ i

/-- What a user mapping must leave of the kernel half. -/
structure KernelHalfKept (tables : PageTables) (mem mem' : Memory) : Prop where
  /-- No root slot of the kernel half is written. -/
  slots : ∀ i : Fin 512, PageTables.kernelSlot ≤ i → mem' tables.root i = mem tables.root i
  /-- No table below such a slot is written. -/
  below : ∀ p n, p.length ≤ 3 → KernelPath p → follow next mem tables.root p = some n →
    mem' n = mem n
  /-- No kernel address becomes reachable from ring 3. -/
  ring3 : ∀ va, kernelSpaceBase ≤ va → va < 2 ^ 64 → tables.userReaches mem' va = true →
    tables.userReaches mem va = true

/-- A process space: made by `new_process_space`, then mapped in, below slots of the lower
half, while everybody else leaves its tables alone and out of the kernel half. -/
inductive ProcessSpace : PageTables → Memory → Prop
  | new {σ : Type} {src : FrameSource σ} {s s' : σ} {mem mem' : Memory}
      {kernel tables : PageTables} (hfresh : src.Fresh 1 (tablesOf mem kernel.root) s)
      (h : kernel.newProcessSpace src mem s = (.ok tables, mem', s')) : ProcessSpace tables mem'
  | map {tables : PageTables} {mem : Memory} {σ : Type} {src : FrameSource σ} {s : σ} {page : ℕ}
      {frame : PhysFrame} {flags : PageFlags} (hspace : ProcessSpace tables mem)
      (hpage : page.testBit 47 = false) (hfresh : src.Fresh 3 (tablesOf mem tables.root) s) :
      ProcessSpace tables (tables.map src page frame flags mem s).2.1
  | elsewhere {tables : PageTables} {mem mem' : Memory} (hspace : ProcessSpace tables mem)
      (hsame : ∀ p n j, p.length ≤ 3 → OwnPath Half.lower.Slot (p ++ [j]) →
        follow next mem tables.root p = some n → mem' n j = mem n j)
      (hapart : ∀ p q n, p.length ≤ 3 → OwnPath Half.lower.Slot p → q.length ≤ 3 → KernelPath q →
        follow next mem' tables.root p = some n → follow next mem' tables.root q ≠ some n) :
      ProcessSpace tables mem'

/-! ### The invariant of a process space -/

/-- Every path is empty, or starts in one half or the other. -/
lemma ownPath_or_kernelPath (p : List (Fin 512)) : OwnPath Half.lower.Slot p ∨ KernelPath p := by
  cases p with
  | nil => exact .inl ownPath_nil
  | cons i p =>
      by_cases hi : PageTables.kernelSlot ≤ i
      · exact .inr ⟨i, rfl, hi⟩
      · refine .inl fun j hj => ?_
        obtain rfl : i = j := by simpa using hj
        exact Nat.lt_of_not_le hi

lemma KernelPath.not_ownPath {p : List (Fin 512)} (h : KernelPath p) :
    ¬OwnPath Half.lower.Slot p := by
  obtain ⟨i, hi, hslot⟩ := h
  intro hown
  have := hown i hi
  rw [Half.Slot] at this
  omega

lemma tableIndex_lower {page : ℕ} : Half.lower.Slot (tableIndex page 39)
      ↔ page.testBit 47 = false := by
  rw [Half.Slot, kernelSlot_eq, tableIndex_eq, Nat.testBit_eq_decide_div_mod_eq]
  simp only [decide_eq_false_iff_not]
  omega

lemma ProcessSpace.ownHalf {tables : PageTables} {mem : Memory} (h : ProcessSpace tables mem) :
    OwnHalf Half.lower.Slot mem tables.root := by
  induction h with
  | new hfresh h => exact newProcessSpace_ownHalf hfresh h
  | map _ hpage hfresh ih => exact map_ownHalf ih (tableIndex_lower.mpr hpage) hfresh
  | @elsewhere tables mem mem' _ hsame hapart ih =>
      have hfollow : ∀ p : List (Fin 512), p.length ≤ 3 → OwnPath Half.lower.Slot p →
          follow next mem' tables.root p = follow next mem tables.root p := by
        rintro p hlen hown
        refine Radix.follow_congr ?_
        rintro q j ⟨rest, rfl⟩ n hn
        rw [List.length_append] at hlen
        simp only [List.length_append, List.length_singleton] at hlen
        rw [hsame q n j (by omega) hown.of_append hn]
      refine ⟨fun p n hlen hown hn q hq hqn => ?_, fun p n j hlen hown hn hpres => ?_⟩
      · obtain hq' | hq' := ownPath_or_kernelPath q
        · rw [hfollow p hlen hown] at hn
          rw [hfollow q hq hq'] at hqn
          exact ih.alone p n hlen hown hn q hq hqn
        · exact absurd hqn (hapart p q n hlen hown hq hq' hn)
      · rw [hfollow p (by omega) hown.of_append] at hn
        rw [hsame p n j (by omega) hown hn] at hpres ⊢
        exact ih.linked p n j hlen hown hn hpres

/-! ### Edits of the lower half -/

section Kept

variable {tables : PageTables} {mem mem' mem'' : Memory}

/-- What the walks of the kernel half read: its slots, and the tables below them. -/
def KernelTablesSame (root : ℕ) (mem mem' : Memory) : Prop :=
  ∀ p n j, p.length ≤ 3 → KernelPath (p ++ [j]) → follow next mem root p = some n →
    mem' n j = mem n j

lemma KernelPath.append {p : List (Fin 512)} (h : KernelPath p) (q : List (Fin 512)) :
    KernelPath (p ++ q) := by
  obtain ⟨i, hi, hslot⟩ := h
  cases p with
  | nil => cases hi
  | cons j p => exact ⟨i, hi, hslot⟩

lemma KernelTablesSame.follow_eq {root : ℕ} (h : KernelTablesSame root mem mem')
    {q : List (Fin 512)} (hlen : q.length ≤ 4) (hq : KernelPath q) :
    follow next mem' root q = follow next mem root q := by
  refine Radix.follow_congr ?_
  rintro p j ⟨rest, rfl⟩ n hn
  simp only [List.length_append, List.length_singleton] at hlen
  have hkernel : KernelPath (p ++ [j]) := by
    obtain hown | hkernel := ownPath_or_kernelPath (p ++ [j])
    · refine absurd ?_ hq.not_ownPath
      intro i hi
      refine hown i ?_
      cases p <;> exact hi
    · exact hkernel
  rw [h p n j (by omega) hkernel hn]

lemma KernelTablesSame.trans {root : ℕ} (h : KernelTablesSame root mem mem')
    (h' : KernelTablesSame root mem' mem'') : KernelTablesSame root mem mem'' := by
  intro p n j hlen hp hn
  have hn' : follow next mem' root p = some n := by
    cases p with
    | nil => exact hn
    | cons i p =>
        rw [h.follow_eq (by omega) (q := i :: p) hp, hn]
  rw [h' p n j hlen hp hn', h p n j hlen hp hn]

/-- An entry of a table of the lower half is none the kernel half reads. -/
lemma kernelTablesSame_write {root n : ℕ} {i : Fin 512} {e : ℕ} {p : List (Fin 512)}
    (hinv : OwnHalf Half.lower.Slot mem root) (hlen : p.length ≤ 3)
    (hown : OwnPath Half.lower.Slot (p ++ [i])) (hn : follow next mem root p = some n) :
    KernelTablesSame root mem (Radix.write mem n i e) := by
  intro q n' j hq hkernel hn'
  refine Radix.write_of_ne ?_
  rintro ⟨rfl, rfl⟩
  obtain rfl := hinv.alone p n' hlen hown.of_append hn q hq hn'
  exact hkernel.not_ownPath hown

lemma Edit.kernelTablesSame {fresh : Set ℕ} {root : ℕ}
    (h : Edit Half.lower.Slot fresh root mem mem') (hinv : OwnHalf Half.lower.Slot mem root) :
    KernelTablesSame root mem mem' := by
  cases h with
  | zero n _ hnew =>
      intro p n' j hlen _ hn'
      have hne : n' ≠ n := by
        rintro rfl
        exact hnew ⟨p, hlen, hn'⟩
      rw [Radix.fill_of_ne hne]
  | link p n i new isUser hlen hown hn => exact kernelTablesSame_write hinv (by omega) hown hn
  | allow p n i hlen hown hn => exact kernelTablesSame_write hinv (by omega) hown hn

lemma Edits.kernelTablesSame {fresh : Set ℕ} {root : ℕ}
    (h : Edits Half.lower.Slot fresh root mem mem') (hinv : OwnHalf Half.lower.Slot mem root) :
    KernelTablesSame root mem mem' := by
  induction h with
  | refl => exact fun _ _ _ _ _ _ => rfl
  | tail hedits hedit ih => exact ih.trans (hedit.kernelTablesSame (Edits.ownHalf hedits hinv))

/-- A walk of ring 3 sees only the entries on its path. -/
lemma userWalk_congr {path : List (Fin 512)} {level table : ℕ}
    (h : ∀ p j, p ++ [j] <+: path → ∀ n, follow next mem table p = some n → mem' n j = mem n j) :
    userWalk mem' path level table = userWalk mem path level table := by
  induction path generalizing level table with
  | nil => rfl
  | cons index rest ih =>
      rw [userWalk, userWalk, h [] index ⟨rest, rfl⟩ table rfl]
      cases hpres : has (mem table index) present with
      | false => rfl
      | true =>
          cases hhuge : has (mem table index) huge with
          | true => simp
          | false =>
              have hrest := @ih (level + 1) (mem table index &&& addressMask)
                fun p j hp n hn => h (index :: p) j (List.cons_prefix_cons.mpr ⟨rfl, hp⟩) n (by
                  rw [follow, next_of_present hpres hhuge]
                  exact hn)
              simp only [hrest]

lemma kernelPath_of_kernelSpace {va : ℕ} (hva : kernelSpaceBase ≤ va) (hlt : va < 2 ^ 64) :
    KernelPath (tableIndices va) := by
  refine ⟨tableIndex va 39, rfl, ?_⟩
  have hbase : kernelSpaceBase = 2 ^ 64 - 2 ^ 47 := by decide
  rw [kernelSlot_eq, tableIndex_eq]
  omega

/-- A change the walks of the kernel half cannot see keeps it. -/
lemma KernelTablesSame.kept (h : KernelTablesSame tables.root mem mem') :
    KernelHalfKept tables mem mem' := by
  refine ⟨fun i hi => h [] tables.root i (by simp) ⟨i, rfl, hi⟩ rfl, fun p n hlen hp hn => ?_,
    fun va hva hlt hreach => ?_⟩
  · funext j
    exact h p n j hlen (hp.append [j]) hn
  · rw [PageTables.userReaches] at hreach ⊢
    rw [← hreach]
    congr 1
    refine (userWalk_congr fun p j hp n hn => ?_).symm
    have hlen := hp.length_le
    rw [List.length_append, List.length_singleton, length_tableIndices] at hlen
    refine h p n j (by omega) ?_ hn
    obtain ⟨rest, hrest⟩ := hp
    obtain hown | hkernel := ownPath_or_kernelPath (p ++ [j])
    · refine absurd ?_ (kernelPath_of_kernelSpace hva hlt).not_ownPath
      rw [← hrest]
      intro i hi
      refine hown i ?_
      cases p <;> exact hi
    · exact hkernel

end Kept

/-! ### Tables a descent reaches -/

lemma Edit.tablesOf_subset {own : Fin 512 → Prop} {fresh : Set ℕ} {root : ℕ}
    {mem mem' : Memory} (h : Edit own fresh root mem mem') :
    tablesOf mem' root ⊆ tablesOf mem root ∪ fresh := by
  cases h with
  | zero n hn hnew =>
      rw [tablesOf_congr fun q hq => follow_zero hnew hq]
      exact Set.subset_union_left
  | link p n i new isUser hlen _ hn _ hfresh hnew hzero halign hlt =>
      have hne : new ≠ n := by
        rintro rfl
        exact hnew ⟨p, by omega, hn⟩
      refine (tablesOf_link halign hlt hzero hne).trans ?_
      rintro x (rfl | hx)
      · exact .inr hfresh
      · exact .inl hx
  | allow p n i =>
      rw [tablesOf_congr fun q _ =>
        Radix.follow_write_of_ptr_eq (agreeButUser_or_user (mem n i)).next_eq root q]
      exact Set.subset_union_left

lemma Edits.tablesOf_subset {own : Fin 512 → Prop} {fresh : Set ℕ} {root : ℕ}
    {mem mem' : Memory} (h : Edits own fresh root mem mem') :
    tablesOf mem' root ⊆ tablesOf mem root ∪ fresh := by
  induction h with
  | refl => exact Set.subset_union_left
  | tail _ hedit ih =>
      refine hedit.tablesOf_subset.trans (Set.union_subset ih Set.subset_union_right)

/-- A call of `map` below a slot of the lower half adds no table but what it took. -/
lemma map_tablesOf_subset {σ : Type*} {tables : PageTables} {src : FrameSource σ} {s : σ}
    {page : ℕ} {frame : PhysFrame} {flags : PageFlags} {mem : Memory}
    (hinv : OwnHalf Half.lower.Slot mem tables.root) (hpage : page.testBit 47 = false)
    (hfresh : src.Fresh 3 (tablesOf mem tables.root) s) :
    tablesOf (tables.map src page frame flags mem s).2.1 tables.root
      ⊆ tablesOf mem tables.root ∪ src.taken s (tables.map src page frame flags mem s).2.2 := by
  have hslot := tableIndex_lower.mpr hpage
  obtain ⟨-, mem₁, hedits, ⟨-, -, hmem⟩ | ⟨-, table, htable, -, hmem⟩⟩ :=
    @map_cases _ _ tables _ _ frame flags _ _ hfresh hslot
  · rw [hmem]
    exact Edits.tablesOf_subset hedits
  · rw [hmem]
    refine Set.Subset.trans ?_ (Edits.tablesOf_subset hedits)
    rintro n ⟨q, hq, hn⟩
    rw [(Edits.ownHalf hedits hinv).follow_writeLeaf rfl (ownPath_of_slot hslot)
      htable _ _ hq] at hn
    exact ⟨q, hq, hn⟩

/-! ### Which mappings keep the kernel half -/

section Map

variable {σ : Type*} {tables : PageTables} {src : FrameSource σ} {s : σ} {page : ℕ}
  {frame : PhysFrame} {flags : PageFlags} {mem : Memory}

/-- A mapping below a slot of the lower half is not seen by the walks of the kernel half. -/
lemma map_kernelTablesSame (hinv : OwnHalf Half.lower.Slot mem tables.root)
    (hpage : page.testBit 47 = false) (hfresh : src.Fresh 3 (tablesOf mem tables.root) s) :
    KernelTablesSame tables.root mem (tables.map src page frame flags mem s).2.1 := by
  have hslot := tableIndex_lower.mpr hpage
  obtain ⟨-, mem₁, hedits, ⟨-, -, hmem⟩ | ⟨-, table, htable, -, hmem⟩⟩ :=
    @map_cases _ _ tables _ _ frame flags _ _ hfresh hslot
  · rw [hmem]
    exact Edits.kernelTablesSame hedits hinv
  · rw [hmem]
    refine (Edits.kernelTablesSame hedits hinv).trans ?_
    refine kernelTablesSame_write (Edits.ownHalf hedits hinv) (le_refl 3) ?_ htable
    exact ownPath_of_slot hslot

/-- A table that was reached stays reached, and what was present in it stays but for the
user bit. -/
lemma Edit.agree {own : Fin 512 → Prop} {fresh : Set ℕ} {root n : ℕ} {mem mem' : Memory}
    {p : List (Fin 512)} {j : Fin 512} (h : Edit own fresh root mem mem') (hlen : p.length ≤ 3)
    (hn : follow next mem root p = some n) (hj : has (mem n j) present = true) :
    follow next mem' root p = some n ∧ AgreeButUser (mem n j) (mem' n j) := by
  refine ⟨?_, ?_⟩
  · cases h with
    | zero x _ hnew => rw [follow_zero hnew (by omega), hn]
    | link q x i new isUser _ _ _ hnone =>
        exact Radix.follow_write_of_none (next_of_not_present hnone) hn
    | allow q x i =>
        rw [Radix.follow_write_of_ptr_eq (agreeButUser_or_user (mem x i)).next_eq, hn]
  · obtain heq | ⟨-, -, -, -, -, hagree, -⟩ := h.entry ⟨p, hlen, hn⟩ j
    · rw [heq]
      exact .refl _
    · exact hagree hj

lemma Edits.agree {own : Fin 512 → Prop} {fresh : Set ℕ} {root n : ℕ} {mem mem' : Memory}
    {p : List (Fin 512)} {j : Fin 512} (h : Edits own fresh root mem mem') (hlen : p.length ≤ 3)
    (hn : follow next mem root p = some n) (hj : has (mem n j) present = true) :
    follow next mem' root p = some n ∧ AgreeButUser (mem n j) (mem' n j) := by
  induction h with
  | refl => exact ⟨hn, .refl _⟩
  | tail _ hedit ih =>
      obtain ⟨hn', hagree⟩ := hedit.agree hlen ih.1 (ih.2.present_eq.trans hj)
      exact ⟨hn', fun k hk => (hagree k hk).trans (ih.2 k hk)⟩

/-- So it is over a call of `map`. -/
lemma map_agree {n : ℕ} {p : List (Fin 512)} {j : Fin 512}
    (hfresh : src.Fresh 3 (tablesOf mem tables.root) s) (hlen : p.length ≤ 3)
    (hn : follow next mem tables.root p = some n) (hj : has (mem n j) present = true) :
    follow next (tables.map src page frame flags mem s).2.1 tables.root p = some n
      ∧ AgreeButUser (mem n j) ((tables.map src page frame flags mem s).2.1 n j) := by
  obtain ⟨-, mem₁, hedits, ⟨-, -, hmem⟩ | ⟨-, table, htable, hnone, hmem⟩⟩ :=
    @map_cases _ (fun _ => True) tables _ _ frame flags _ _ hfresh trivial
  · rw [hmem]
    exact Edits.agree hedits hlen hn hj
  · obtain ⟨hn₁, hj₁⟩ := Edits.agree hedits hlen hn hj
    rw [hmem]
    refine ⟨Radix.follow_write_of_none (next_of_not_present hnone) hn₁, ?_⟩
    rw [Radix.write_of_ne]
    · exact hj₁
    · rintro ⟨rfl, rfl⟩
      rw [hj₁.present_eq, hj] at hnone
      cases hnone

lemma has_present_leaf (frame : PhysFrame) (flags : PageFlags) :
    has (PageTables.leafEntry frame flags) present = true := by
  have hbit : (leafBits flags).testBit 0 = true := by
    obtain ⟨w, x, u, cache⟩ := flags
    cases w <;> cases x <;> cases u <;> cases cache <;> decide
  rw [leafEntry_eq, has_present, Nat.testBit_or, hbit, Bool.or_true]

/-- A mapping that succeeds puts a present entry where the walk to its page found none. -/
lemma map_ok_adds (hfresh : src.Fresh 3 (tablesOf mem tables.root) s)
    (hok : (tables.map src page frame flags mem s).1 = .ok ()) :
    ∃ p n j, p ++ [j] <+: tableIndices page ∧ follow next mem tables.root p = some n
      ∧ has (mem n j) present = false
      ∧ has ((tables.map src page frame flags mem s).2.1 n j) present = true := by
  by_contra hnot
  obtain ⟨-, mem₁, hedits, ⟨err, herr, -⟩ | ⟨-, table, htable, hnone, hmem⟩⟩ :=
    @map_cases _ (fun _ => True) tables _ _ frame flags _ _ hfresh trivial
  · rw [hok] at herr
    cases herr
  · have hpath : follow next (tables.map src page frame flags mem s).2.1 tables.root
        ((tableIndices page).take 3) = some table := by
      rw [hmem]
      exact Radix.follow_write_of_none (next_of_not_present hnone) htable
    -- with nothing added on it, the walk to the leaf's table was there before the call
    have hbefore : ∀ q, q <+: (tableIndices page).take 3 →
        follow next mem tables.root q
          = follow next (tables.map src page frame flags mem s).2.1 tables.root q := by
      intro q hq
      induction q using List.reverseRecOn with
      | nil => rfl
      | append_singleton q j ih =>
          have heq := ih ((List.prefix_append q [j]).trans hq)
          obtain ⟨rest, hrest⟩ := hq
          rw [← hrest, Radix.follow_append, Radix.follow_snoc] at hpath
          obtain ⟨n', hn', -⟩ := Option.bind_eq_some_iff.mp hpath
          obtain ⟨n, hn, hj'⟩ := Option.bind_eq_some_iff.mp hn'
          have hn₀ : follow next mem tables.root q = some n := heq.trans hn
          have hpre : q ++ [j] <+: tableIndices page :=
            ⟨rest ++ [tableIndex page 12], by rw [← List.append_assoc, hrest, ← tableIndices_eq]⟩
          have hlen := congrArg List.length hrest
          simp only [List.length_append, List.length_singleton, List.length_take,
            length_tableIndices] at hlen
          have hj : has (mem n j) present = true := by
            by_contra hj
            exact hnot ⟨q, n, j, hpre, hn₀, by simpa using hj, (next_eq_some hj').1⟩
          have hagree := (@map_agree _ _ _ _ page frame flags _ _ _ _ hfresh
            (by omega) hn₀ hj).2
          rw [Radix.follow_snoc, Radix.follow_snoc, hn₀, hn, Option.bind_some, Option.bind_some,
            hagree.next_eq]
    have htable₀ := (hbefore _ List.prefix_rfl).trans hpath
    have hleaf : has (mem table (tableIndex page 12)) present = true := by
      by_contra hleaf
      refine hnot ⟨_, table, tableIndex page 12, List.prefix_rfl, htable₀,
        by simpa using hleaf, ?_⟩
      rw [hmem, Radix.write_self]
      exact has_present_leaf frame flags
    rw [(Edits.agree hedits (le_refl 3) htable₀ hleaf).2.present_eq, hleaf] at hnone
    cases hnone

/-- A user mapping that succeeds keeps the kernel half exactly when bit 47 of its page is
clear. -/
lemma map_kernelHalf_iff (hinv : OwnHalf Half.lower.Slot mem tables.root)
    (hfresh : src.Fresh 3 (tablesOf mem tables.root) s)
    (hok : (tables.map src page frame flags mem s).1 = .ok ()) :
    KernelHalfKept tables mem (tables.map src page frame flags mem s).2.1
      ↔ page.testBit 47 = false := by
  refine ⟨fun hkept => ?_, fun hpage => (map_kernelTablesSame hinv hpage hfresh).kept⟩
  by_contra hpage
  obtain ⟨p, n, j, hpre, hn, hbefore, hafter⟩ := map_ok_adds hfresh hok
  have hslot : PageTables.kernelSlot ≤ tableIndex page 39 := by
    rw [← tableIndex_lower, Half.Slot] at hpage
    omega
  have hlen := hpre.length_le
  rw [List.length_append, List.length_singleton, length_tableIndices] at hlen
  have hsame : (tables.map src page frame flags mem s).2.1 n j = mem n j := by
    cases p with
    | nil =>
        obtain rfl : tables.root = n := by simpa [follow] using hn
        obtain ⟨rest, hrest⟩ := hpre
        obtain rfl : j = tableIndex page 39 := (List.cons.inj hrest).1
        exact hkept.slots _ hslot
    | cons i p =>
        obtain ⟨rest, hrest⟩ := hpre
        obtain rfl : i = tableIndex page 39 := (List.cons.inj hrest).1
        rw [hkept.below _ n (by omega) ⟨_, rfl, hslot⟩ hn]
  rw [hsame, hbefore] at hafter
  cases hafter

end Map

end Harlan.Paging

/-! ### A space just made -/

namespace Harlan

open Paging (Memory PageTables ProcessSpace tablesOf)
open Radix (Reached)

/-- The kernel's tables: the physical window at slot 260 and nothing else. -/
def windowTables : PageTables := ⟨0x1000, 0xFFFF820000000000⟩

/-- A space just made out of them, its root at `0x3000`. -/
def bareSpace : PageTables := ⟨0x3000, 0xFFFF820000000000⟩

/-- A memory with a new process space in which nothing has been mapped. -/
def bareMemory : Memory :=
  (windowTables.newProcessSpace Paging.frameList (Paging.identityBelow 260)
    ([0x3000].map PhysFrame.containingAddress)).2.1

lemma bareSpace_processSpace : ProcessSpace bareSpace bareMemory := by
  refine @Paging.ProcessSpace.new _ Paging.frameList ([0x3000].map PhysFrame.containingAddress) []
    (Paging.identityBelow 260) _ windowTables _
    (Paging.frameList_fresh (fun a ha => ?_) (by simp)) ?_
  · obtain rfl : a = 0x3000 := by simpa using ha
    refine ⟨by decide, by decide, fun h => ?_⟩
    have hmem := Paging.tablesOf_identityBelow 260 h
    simp at hmem
  · have hok : (windowTables.newProcessSpace Paging.frameList (Paging.identityBelow 260)
        ([0x3000].map PhysFrame.containingAddress)).1 = .ok bareSpace := by decide +kernel
    have hrest : (windowTables.newProcessSpace Paging.frameList (Paging.identityBelow 260)
        ([0x3000].map PhysFrame.containingAddress)).2.2 = [] := by decide +kernel
    rw [← hok, bareMemory, ← hrest]

/-- The root of a space just made: the kernel's half, and nothing else. -/
def bareRoot (slot : Fin 512) : ℕ :=
  if PageTables.kernelSlot ≤ slot then Paging.identityBelow 260 0x1000 slot else 0

lemma bareMemory_eq : bareMemory = Radix.fill (Paging.identityBelow 260) 0x3000 bareRoot := by
  have htable : windowTables.newTable Paging.frameList (Paging.identityBelow 260)
      ([0x3000].map PhysFrame.containingAddress)
        = (.ok 0x3000, Radix.fill (Radix.fill (Paging.identityBelow 260) 0x3000 fun _ => 0) 0x3000
            fun _ => 0, []) := by
    rfl
  rw [bareMemory, PageTables.newProcessSpace, htable]
  funext n i
  by_cases hn : n = 0x3000
  · subst hn
    simp [windowTables, Radix.fill, bareRoot]
  · simp [Radix.fill_of_ne hn]

lemma tablesOf_bareMemory : tablesOf bareMemory bareSpace.root ⊆ {0x1000, 0x2000, 0x3000} := by
  have hold := Paging.tablesOf_identityBelow 260
  have hnew : ¬Reached Paging.next (Paging.identityBelow 260) 0x1000 3 0x3000 := by
    intro h
    have hmem := hold h
    simp at hmem
  rw [bareMemory_eq]
  rintro n ⟨p, hp, hn⟩
  rw [Set.mem_insert_iff, Set.mem_insert_iff, Set.mem_singleton_iff]
  cases p with
  | nil => exact .inr (.inr (Option.some.inj hn).symm)
  | cons i p =>
      have hent : ∀ (i : Fin 512) x, Paging.next (bareRoot i) = some x →
          Paging.next (Paging.identityBelow 260 0x1000 i) = some x := by
        intro i x hx
        rw [bareRoot] at hx
        split at hx
        · exact hx
        · cases hx
      obtain h | h := hold ⟨i :: p, hp, Radix.follow_fill_root hent hnew (by omega) (by simp) hn⟩
      · exact .inl h
      · exact .inr (.inl h)

end Harlan
