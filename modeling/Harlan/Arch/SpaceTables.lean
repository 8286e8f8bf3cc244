import Mathlib.Tactic
import Harlan.Arch.UserHalf

/-!
What a dead process space gives back.

A space takes its tables from the frame allocator one at a time, its root first and then one for
each level a mapping finds missing, also when the mapping fails further on. `free_lower_half`
knows nothing of that history: it walks the lower half and offers every table it meets.

* `FrameSource.logged`, `recorded`: the allocator and `give_back` with what they handed out and
  what they were offered written down; `map_logged` and `freeLowerHalf_recorded` say that
  nothing else about them changes.
* `Took`: the tables of the lower half are exactly the frames that were taken.
* `freeLowerHalf_eq`: the walk as one pass over the tables in postorder.
* `freeLowerHalf_exact`: what is offered is what was taken.
-/

namespace Harlan.Paging

open Radix (follow Reached Alone visit postorder)

variable {σ : Type*}

/-! ### Writing down what is handed out -/

/-- A frame source that notes what it hands out. -/
def FrameSource.logged (src : FrameSource σ) : FrameSource (σ × List ℕ) where
  take := fun (s, log) =>
    match src.take s with
    | (none, s) => (none, s, log)
    | (some frame, s) => (some frame, s, log ++ [frame.start])
  zeroes := src.zeroes

section Logged

variable {src : FrameSource σ} {s : σ} {log : List ℕ} {tables : PageTables} {mem : Memory}

lemma take_logged : src.logged.take (s, log) = ((src.take s).1, (src.take s).2,
    log ++ (src.take s).1.toList.map PhysFrame.start) := by
  simp only [FrameSource.logged]
  rcases src.take s with ⟨_ | frame, s'⟩
  · simp
  · simp

lemma logged_fresh {k : ℕ} {avoid : Set ℕ} (h : src.Fresh k avoid s) :
    src.logged.Fresh k avoid (s, log) := by
  induction k generalizing avoid s log with
  | zero => trivial
  | succ k ih =>
      rintro frame ⟨s', log'⟩ htake
      rw [take_logged, Prod.mk.injEq, Prod.mk.injEq] at htake
      obtain ⟨hframe, rfl, rfl⟩ := htake
      obtain ⟨hlt, hout, hrest⟩ := h frame (src.take s).2 (Prod.ext hframe rfl)
      exact ⟨hlt, hout, ih hrest⟩

lemma allocateFrame_logged : ∃ log', src.logged.allocateFrame mem (s, log)
    = ((src.allocateFrame mem s).1, (src.allocateFrame mem s).2.1, (src.allocateFrame mem s).2.2,
        log') := by
  rw [FrameSource.allocateFrame, FrameSource.allocateFrame, take_logged]
  rcases src.take s with ⟨_ | frame, s'⟩
  · exact ⟨_, rfl⟩
  · exact ⟨_, rfl⟩

lemma newTable_logged : ∃ log', tables.newTable src.logged mem (s, log)
    = ((tables.newTable src mem s).1, (tables.newTable src mem s).2.1,
        (tables.newTable src mem s).2.2, log') := by
  obtain ⟨log', halloc⟩ := @allocateFrame_logged _ src s log mem
  rw [PageTables.newTable, PageTables.newTable, halloc]
  rcases src.allocateFrame mem s with ⟨_ | frame, mem₁, s₁⟩
  · exact ⟨_, rfl⟩
  · dsimp only
    rcases tables.translate mem₁ (wrap64 (tables.window + frame.start)) with _ | t
    · exact ⟨_, rfl⟩
    · dsimp only
      split
      · exact ⟨_, rfl⟩
      · exact ⟨_, rfl⟩

lemma descend_logged {isUser : Bool} {indices : List (Fin 512)} {table : ℕ} :
    ∃ log', tables.descend src.logged isUser indices table mem (s, log)
      = ((tables.descend src isUser indices table mem s).1,
          (tables.descend src isUser indices table mem s).2.1,
          (tables.descend src isUser indices table mem s).2.2, log') := by
  induction indices generalizing table mem s log with
  | nil => exact ⟨_, rfl⟩
  | cons index rest ih =>
      rw [PageTables.descend, PageTables.descend]
      dsimp only
      split
      · obtain ⟨log', hnew⟩ := @newTable_logged _ src s log tables mem
        rw [hnew]
        rcases tables.newTable src mem s with ⟨err | new, mem₁, s₁⟩
        · exact ⟨_, rfl⟩
        · exact ih
      · split
        · exact ⟨_, rfl⟩
        · exact ih

/-- Writing down what is handed out changes nothing else of a mapping. -/
lemma map_logged {page : ℕ} {frame : PhysFrame} {flags : PageFlags} :
    ∃ log', tables.map src.logged page frame flags mem (s, log)
      = ((tables.map src page frame flags mem s).1, (tables.map src page frame flags mem s).2.1,
          (tables.map src page frame flags mem s).2.2, log') := by
  rw [PageTables.map, PageTables.map]
  split
  · exact ⟨_, rfl⟩
  · obtain ⟨log', hdescend⟩ := @descend_logged _ src s log tables mem flags.user
      ((tableIndices page).take 3) tables.root
    rw [hdescend]
    rcases tables.descend src flags.user ((tableIndices page).take 3) tables.root mem s
      with ⟨err | table, mem₁, s₁⟩
    · exact ⟨_, rfl⟩
    · dsimp only
      split
      · exact ⟨_, rfl⟩
      · exact ⟨_, rfl⟩

/-- A new table is in the log, and a frame refused for want of any is not. -/
lemma newTable_log {result : Except MapError ℕ} {mem' : Memory} {s' : σ × List ℕ}
    (h : tables.newTable src.logged mem (s, log) = (result, mem', s'))
    (hresult : result ≠ .error .tableFrameNotWritable) :
    s'.2 = log ++ result.toOption.toList := by
  rw [PageTables.newTable, FrameSource.allocateFrame, take_logged] at h
  rcases htake : src.take s with ⟨_ | frame, s₁⟩
  · rw [htake] at h
    cases h
    simp [Except.toOption]
  · rw [htake] at h
    dsimp only at h
    split at h
    · split at h
      · cases h
        simp [Except.toOption]
      · cases h
        exact absurd rfl hresult
    · cases h
      exact absurd rfl hresult

end Logged

/-! ### The tables a space took -/

/-- The frames the leaves of a lower half point at. -/
def leavesOf (mem : Memory) (root : ℕ) : Set ℕ :=
  {a | ∃ p table i, p.length = 3 ∧ OwnPath Half.lower.Slot p ∧ follow next mem root p = some table
    ∧ has (mem table i) present = true ∧ mem table i &&& addressMask = a}

/-- A process space and what it took from the allocator: its root, and whatever tables its user
mappings found missing. A mapping may find its page mapped or run out of frames half way. The
allocator hands out frames that are in use neither as tables nor as memory, and the memory
mapped is not a table. -/
inductive UserSpace {σ : Type} (src : FrameSource σ) : PageTables → Memory → σ × List ℕ → Prop
  | new {kernel tables : PageTables} {mem mem' : Memory} {s : σ} {s' : σ × List ℕ}
      (hfresh : src.Fresh 1 (tablesOf mem kernel.root) s)
      (h : kernel.newProcessSpace src.logged mem (s, []) = (.ok tables, mem', s')) :
      UserSpace src tables mem' s'
  | map {tables : PageTables} {mem mem' : Memory} {s s' : σ × List ℕ} {page : ℕ}
      {frame : PhysFrame}
      {flags : PageFlags} {result : Except MapError Unit} (hspace : UserSpace src tables mem s)
      (hpage : page < 2 ^ 47) (hframe : frame.start < 2 ^ 52)
      (hleaf : frame.start ∉ tablesOf mem tables.root)
      (hfresh : src.Fresh 3
        (insert frame.start (tablesOf mem tables.root ∪ leavesOf mem tables.root))
        s.1)
      (h : tables.map src.logged page frame flags mem s = (result, mem', s'))
      (hresult : result = .ok () ∨ result = .error .alreadyMapped
        ∨ result = .error .outOfFrames) :
      UserSpace src tables mem' s'

/-- The lower half of a space is made of the frames that were taken for it. -/
structure Took (mem : Memory) (root : ℕ) (log : List ℕ) : Prop where
  half : OwnHalf Half.lower.Slot mem root
  mem_iff : ∀ n, n ∈ log ↔ ∃ p : List (Fin 512), p.length ≤ 3 ∧ OwnPath Half.lower.Slot p
    ∧ follow next mem root p = some n
  nodup : log.Nodup
  /-- No leaf points at one of them. -/
  apart : ∀ a ∈ leavesOf mem root, a ∉ log
  /-- A slot of the root that is not in use is empty. -/
  blank : ∀ i, Half.lower.Slot i → has (mem root i) present = false → mem root i = 0
  aligned : root % frameSize = 0

section Took

variable {mem mem' : Memory} {root : ℕ} {log : List ℕ} {fresh : Set ℕ}

/-- Tables at the end of different paths are different. -/
lemma OwnHalf.path_unique {own : Fin 512 → Prop} (h : OwnHalf own mem root)
    {p q : List (Fin 512)} {n : ℕ} (hp : p.length ≤ 3) (hown : OwnPath own p)
    (hn : follow next mem root p = some n) (hq : q.length ≤ 3)
    (hqn : follow next mem root q = some n) : p = q :=
  (h.alone p n hp hown hn q hq hqn).symm

/-- An edit adds no leaf. -/
lemma Edit.leavesOf_subset (h : Edit Half.lower.Slot fresh root mem mem')
    (hinv : OwnHalf Half.lower.Slot mem root) : leavesOf mem' root ⊆ leavesOf mem root := by
  rintro a ⟨q, table, j, hq, hown, htable, hpres, rfl⟩
  have hold : follow next mem root q = some table →
      mem' table j &&& addressMask ∈ leavesOf mem root := by
    intro hbefore
    obtain heq | ⟨p, hp, -, hpn, -⟩ := h.entry ⟨q, hq.le, hbefore⟩ j
    · exact ⟨q, table, j, hq, hown, hbefore, by rwa [← heq], by rw [heq]⟩
    · have hlen := congrArg List.length
        (hinv.path_unique hq.le hown hbefore (by omega) hpn)
      omega
  obtain hsame | ⟨p, new, -, -, hzero, hfollow⟩ := h.follow_eq hinv.alone
  · exact hold (by rw [← hsame q hq.le, htable])
  · rw [hfollow q hq.le] at htable
    split_ifs at htable with hqp
    · obtain rfl := Option.some.inj htable
      rw [hzero] at hpres
      cases hpres
    · exact hold htable

/-- An edit leaves no slot of the root in use or empty but with something in it. -/
lemma Edit.blank (h : Edit Half.lower.Slot fresh root mem mem')
    (hblank : ∀ i, Half.lower.Slot i → has (mem root i) present = false → mem root i = 0) :
    ∀ i, Half.lower.Slot i → has (mem' root i) present = false → mem' root i = 0 := by
  intro i hi habsent
  obtain heq | ⟨-, -, -, -, hpres, -⟩ := h.entry ⟨[], by simp, rfl⟩ i
  · rw [heq] at habsent ⊢
    exact hblank i hi habsent
  · rw [hpres] at habsent
    cases habsent

lemma Edits.blank (h : Edits Half.lower.Slot fresh root mem mem')
    (hblank : ∀ i, Half.lower.Slot i → has (mem root i) present = false → mem root i = 0) :
    ∀ i, Half.lower.Slot i → has (mem' root i) present = false → mem' root i = 0 := by
  induction h with
  | refl => exact hblank
  | tail _ hedit ih => exact hedit.blank ih

lemma Edits.leavesOf_subset (h : Edits Half.lower.Slot fresh root mem mem')
    (hinv : OwnHalf Half.lower.Slot mem root) : leavesOf mem' root ⊆ leavesOf mem root := by
  induction h with
  | refl => exact Set.Subset.refl _
  | tail hedits hedit ih =>
      exact (hedit.leavesOf_subset (Edits.ownHalf hedits hinv)).trans ih

/-- Edits that add no path keep what was taken. -/
lemma Took.edits (h : Took mem root log) (hedits : Edits Half.lower.Slot fresh root mem mem')
    (hsame : ∀ q : List (Fin 512), q.length ≤ 3 →
      follow next mem' root q = follow next mem root q) :
    Took mem' root log := by
  refine ⟨Edits.ownHalf hedits h.half, fun n => ?_, h.nodup, fun a ha =>
    h.apart a (Edits.leavesOf_subset hedits h.half ha), Edits.blank hedits h.blank, h.aligned⟩
  rw [h.mem_iff n]
  refine exists_congr fun p => and_congr_right fun hp => ?_
  rw [hsame p hp]

/-- A table that is linked is one more that was taken. -/
lemma Took.link (h : Took mem root log) {p : List (Fin 512)} {n new : ℕ} {i : Fin 512}
    {isUser : Bool} (hlen : p.length ≤ 2) (hown : OwnPath Half.lower.Slot (p ++ [i]))
    (hn : follow next mem root p = some n) (hnone : has (mem n i) present = false)
    (hnew : ¬Reached next mem root 3 new) (hleaf : new ∉ leavesOf mem root)
    (hzero : ∀ j, mem new j = 0) (halign : new % frameSize = 0) (hlt : new < 2 ^ 52) :
    Took (Radix.write mem n i (new ||| PageTables.reachable isUser)) root (log ++ [new]) := by
  have hedit : Edit Half.lower.Slot Set.univ root mem
      (Radix.write mem n i (new ||| PageTables.reachable isUser)) :=
    .link mem p n i new isUser hlen hown hn hnone (Set.mem_univ _) hnew hzero halign hlt
  have hne : new ≠ n := by
    rintro rfl
    exact hnew ⟨p, by omega, hn⟩
  have hfollow : ∀ q : List (Fin 512), q.length ≤ 3 →
      follow next (Radix.write mem n i (new ||| PageTables.reachable isUser)) root q
        = if q = p ++ [i] then some new else follow next mem root q := by
    intro q hq
    refine Radix.follow_link hn (h.half.alone p n (by omega) hown.of_append hn) (by omega)
      (next_of_not_present hnone) (next_link isUser halign hlt) (fun j => ?_) hne (by omega)
    rw [hzero]
    rfl
  refine ⟨hedit.ownHalf h.half, fun x => ?_, ?_, fun a ha => ?_, hedit.blank h.blank, h.aligned⟩
  · rw [List.mem_append, List.mem_singleton, h.mem_iff x]
    constructor
    · rintro (⟨q, hq, hqown, hqx⟩ | rfl)
      · refine ⟨q, hq, hqown, ?_⟩
        rw [hfollow q hq, if_neg, hqx]
        rintro rfl
        rw [Radix.follow_snoc, hn, Option.bind_some, next_of_not_present hnone] at hqx
        cases hqx
      · have hlen₃ : (p ++ [i]).length ≤ 3 := by
          rw [List.length_append, List.length_singleton]
          omega
        exact ⟨p ++ [i], hlen₃, hown, by rw [hfollow _ hlen₃, if_pos rfl]⟩
    · rintro ⟨q, hq, hqown, hqx⟩
      rw [hfollow q hq] at hqx
      split_ifs at hqx with hqp
      · exact .inr (Option.some.inj hqx).symm
      · exact .inl ⟨q, hq, hqown, hqx⟩
  · refine List.nodup_append.mpr ⟨h.nodup, List.nodup_singleton new, ?_⟩
    rintro x hx y hy rfl
    obtain rfl := List.mem_singleton.mp hy
    obtain ⟨q, hq, -, hqx⟩ := (h.mem_iff x).mp hx
    exact hnew ⟨q, hq, hqx⟩
  · have hbefore := hedit.leavesOf_subset h.half ha
    rw [List.mem_append, List.mem_singleton, not_or]
    refine ⟨h.apart a hbefore, ?_⟩
    rintro rfl
    exact hleaf hbefore

/-- A leaf that points at none of the tables taken. -/
lemma Took.writeLeaf (h : Took mem root log) {p : List (Fin 512)} {table : ℕ}
    (hlen : p.length = 3) (hown : OwnPath Half.lower.Slot p)
    (htable : follow next mem root p = some table) (i : Fin 512) {leaf : ℕ}
    (hleaf : leaf &&& addressMask ∉ log) : Took (Radix.write mem table i leaf) root log := by
  have hsame : ∀ q : List (Fin 512), q.length ≤ 3 →
      follow next (Radix.write mem table i leaf) root q = follow next mem root q :=
    fun q hq => h.half.follow_writeLeaf hlen hown htable i leaf hq
  refine ⟨h.half.writeLeaf hlen hown htable i leaf, fun n => ?_, h.nodup, ?_,
    fun j hj habsent => ?_, h.aligned⟩
  · rw [h.mem_iff n]
    refine exists_congr fun p => and_congr_right fun hp => ?_
    rw [hsame p hp]
  · rintro a ⟨q, table', j, hq, hqown, htable', hpres, rfl⟩
    rw [hsame q hq.le] at htable'
    by_cases hhere : table' = table ∧ j = i
    · obtain ⟨rfl, rfl⟩ := hhere
      rwa [Radix.write_self]
    · rw [Radix.write_of_ne hhere] at hpres ⊢
      exact h.apart _ ⟨q, table', j, hq, hqown, htable', hpres, rfl⟩
  · have hne : root ≠ table := by
      rintro rfl
      have hlen' := congrArg List.length
        (h.half.path_unique (q := []) hlen.le hown htable (by simp) rfl)
      rw [hlen] at hlen'
      cases hlen'
    rw [Radix.write_of_ne fun hhere => hne hhere.1] at habsent ⊢
    exact h.blank j hj habsent

end Took

/-! ### What a call takes -/

section Calls

variable {src : FrameSource σ} {tables : PageTables} {root : ℕ} {avoid : Set ℕ}

/-- A descent that is not stopped by a frame it cannot write to has linked every frame it took. -/
lemma descend_took {isUser : Bool} {indices p : List (Fin 512)} {table : ℕ} {mem mem' : Memory}
    {s s' : σ × List ℕ} {result : Except MapError ℕ} (h : Took mem root s.2)
    (hat : Descending Half.lower.Slot src.logged root avoid p indices table mem s)
    (hleaves : leavesOf mem root ⊆ avoid)
    (hrun : tables.descend src.logged isUser indices table mem s = (result, mem', s'))
    (hresult : result ≠ .error .tableFrameNotWritable) :
    Took mem' root s'.2 ∧ ∀ n ∈ s'.2, n ∈ s.2 ∨ n ∉ avoid := by
  induction indices generalizing p table mem s avoid with
  | nil =>
      cases hrun
      exact ⟨h, fun n hn => .inl hn⟩
  | cons index rest ih =>
      cases hat.step tables isUser with
      -- no frame for the table: nothing was taken
      | noTable err mem₁ s₁ hnew hstep hfetched hlater =>
          rw [hstep] at hrun
          cases hrun
          have hlog := newTable_log hnew fun heq => hresult (by rw [Except.error.inj heq])
          simp only [Except.toOption, Option.toList_none, List.append_nil] at hlog
          rw [hlog]
          exact ⟨h.edits hfetched.edits fun q hq => hfetched.follow_eq q (by omega),
            fun n hn => .inl hn⟩
      -- the new table is logged, and reached by its own path
      | link new mem₁ s₁ hnew hstep hfetched hlater htaken hzero halign hlt hlink hrest =>
          rw [hstep] at hrun
          have hlog := newTable_log hnew fun heq => by cases heq
          simp only [Except.toOption, Option.toList_some] at hlog
          have htook₁ : Took mem₁ root s.2 :=
            h.edits hfetched.edits fun q hq => hfetched.follow_eq q (by omega)
          have hleaves₁ := (Edits.leavesOf_subset hfetched.edits h.half).trans hleaves
          have hlinked := @Took.link _ _ _ htook₁ p table new index isUser hat.length_le
            hat.stepInHalf hlink.path
            hlink.absent hlink.unreached (fun hl => htaken.2 (hleaves₁ hl)) hzero halign hlt
          rw [← hlog] at hlinked
          have hedit := hat.linkEdit hlink (Set.mem_univ new) hzero halign hlt
          have hleaves₂ := ((hedit.leavesOf_subset htook₁.half).trans hleaves₁).trans
            (Set.subset_insert new avoid)
          obtain ⟨htook, hlogs⟩ := ih hlinked hrest hleaves₂ hrun
          refine ⟨htook, fun n hn => ?_⟩
          rcases hlogs n hn with hn | hn
          · rw [hlog, List.mem_append, List.mem_singleton] at hn
            rcases hn with hn | rfl
            · exact .inl hn
            · exact .inr htaken.2
          · exact .inr fun hmem => hn (Set.mem_insert_of_mem new hmem)
      | huge hstep =>
          rw [hstep] at hrun
          cases hrun
          exact ⟨h, fun n hn => .inl hn⟩
      -- only the bit for ring 3 is set
      | allow hpres hstep hsame hrest =>
          rw [hstep] at hrun
          have hedit := hat.allowEdit Set.univ hpres
          exact ih (h.edits (.single hedit) fun q _ => hsame q) hrest
            ((hedit.leavesOf_subset h.half).trans hleaves) hrun
      | follow hstep hrest =>
          rw [hstep] at hrun
          exact ih h hrest hleaves hrun

/-- So it is over a call of `map`. -/
lemma map_took {page : ℕ} {frame : PhysFrame} {flags : PageFlags} {mem mem' : Memory}
    {s s' : σ × List ℕ} {result : Except MapError Unit} (h : Took mem tables.root s.2)
    (hpage : page < 2 ^ 47) (hframe : frame.start < 2 ^ 52)
    (hleaf : frame.start ∉ tablesOf mem tables.root)
    (hfresh : src.Fresh 3
      (insert frame.start (tablesOf mem tables.root ∪ leavesOf mem tables.root)) s.1)
    (hrun : tables.map src.logged page frame flags mem s = (result, mem', s'))
    (hresult : result ≠ .error .tableFrameNotWritable) : Took mem' tables.root s'.2 := by
  have hslot : Half.lower.Slot (tableIndex page 39) := tableIndex_lower.mpr
    (Nat.testBit_lt_two_pow hpage)
  have hat := @Descending.start _ _ _ src.logged _ _ s _ (logged_fresh hfresh)
    (Set.subset_union_left.trans (Set.subset_insert _ _)) hslot
  have hleaves : leavesOf mem tables.root
      ⊆ insert frame.start (tablesOf mem tables.root ∪ leavesOf mem tables.root) :=
    Set.subset_union_right.trans (Set.subset_insert _ _)
  rw [PageTables.map] at hrun
  split at hrun
  · cases hrun
    exact h
  · rcases hdescend : tables.descend src.logged flags.user
      ((tableIndices page).take 3) tables.root mem s
      with ⟨err | table, mem₁, s₁⟩
    · rw [hdescend] at hrun
      cases hrun
      exact (descend_took h hat hleaves hdescend fun heq =>
        hresult (by rw [Except.error.inj heq])).1
    · rw [hdescend] at hrun
      dsimp only at hrun
      obtain ⟨htook, hlogs⟩ := descend_took h hat hleaves hdescend fun heq => by cases heq
      split at hrun
      · cases hrun
        exact htook
      · cases hrun
        obtain ⟨-, -, htable⟩ := @descend_spec _ _ _ _ _ _ _ _ _ tables flags.user _ hat
        rw [hdescend] at htable
        refine htook.writeLeaf rfl (ownPath_of_slot hslot) (htable table rfl) _ ?_
        rw [leafEntry_address hframe]
        intro hmem
        rcases hlogs _ hmem with hbefore | hout
        · obtain ⟨p, hp, -, hpn⟩ := (h.mem_iff _).mp hbefore
          exact hleaf ⟨p, hp, hpn⟩
        · exact hout (Set.mem_insert _ _)

/-- A space just made has taken its root. -/
lemma newProcessSpace_took {kernel : PageTables} {mem mem' : Memory} {s : σ} {s' : σ × List ℕ}
    (hfresh : src.Fresh 1 (tablesOf mem kernel.root) s)
    (h : kernel.newProcessSpace src.logged mem (s, []) = (.ok tables, mem', s')) :
    Took mem' tables.root s'.2 := by
  have hhalf := newProcessSpace_ownHalf (logged_fresh hfresh) h
  obtain ⟨-, -, hok⟩ := @newTable_spec _ Half.lower.Slot _ kernel _ _ _ _ _
    (@logged_fresh _ _ _ [] _ _ hfresh) (Set.Subset.refl _)
  rw [PageTables.newProcessSpace] at h
  rcases hnew : kernel.newTable src.logged mem (s, []) with ⟨err | new, mem₁, s₁, log₁⟩
  · rw [hnew] at h
    cases h
  · have hlog := newTable_log hnew fun heq => by cases heq
    simp only [Except.toOption, Option.toList_some, List.nil_append] at hlog
    rw [hnew] at h hok
    cases h
    subst hlog
    obtain ⟨halign, -, -, -, hzero, -⟩ := hok new rfl
    dsimp only at hzero hhalf ⊢
    have hblank : ∀ i, Half.lower.Slot i → Radix.fill mem₁ new (fun slot : Fin 512 =>
        if PageTables.kernelSlot ≤ slot then
          mem₁ kernel.root slot else mem₁ new slot) new i = 0 := by
      intro i hi
      rw [Half.Slot] at hi
      rw [Radix.fill_self, if_neg (by omega), hzero]
    have hnil : ∀ p n, OwnPath Half.lower.Slot p →
        follow next (Radix.fill mem₁ new fun slot : Fin 512 =>
        if PageTables.kernelSlot ≤ slot then
          mem₁ kernel.root slot else mem₁ new slot) new p = some n →
        p = [] := by
      intro p n hp hn
      cases p with
      | nil => rfl
      | cons i p =>
          rw [follow, hblank i (hp i rfl)] at hn
          cases hn
    refine ⟨hhalf, fun n => ?_, List.nodup_singleton new, ?_, fun i hi _ => hblank i hi, halign⟩
    · rw [List.mem_singleton]
      constructor
      · rintro rfl
        exact ⟨[], by simp, ownPath_nil, rfl⟩
      · rintro ⟨p, -, hown, hn⟩
        obtain rfl := hnil p n hown hn
        exact (Option.some.inj hn).symm
    · rintro a ⟨p, table, i, hlen, hown, htable, -⟩
      obtain rfl := hnil p table hown htable
      cases hlen

end Calls

/-- **A space is made of what it took**, along every run of user mappings. -/
theorem UserSpace.took {σ : Type} {src : FrameSource σ} {tables : PageTables} {mem : Memory}
    {s : σ × List ℕ} (h : UserSpace src tables mem s) : Took mem tables.root s.2 := by
  induction h with
  | new hfresh h => exact newProcessSpace_took hfresh h
  | map _ hpage hframe hleaf hfresh h hresult ih =>
      refine map_took ih hpage hframe hleaf hfresh h ?_
      rintro rfl
      rcases hresult with hresult | hresult | hresult <;> cases hresult

/-! ### Giving it back -/

section GivingBack

variable {τ : Type*} (giveBack : PhysFrame → τ → Bool × τ)

/-- `give_back`, with what it was offered and what it answered written down. -/
def recorded (frame : PhysFrame) (state : List (PhysFrame × Bool) × τ) :
    Bool × List (PhysFrame × Bool) × τ :=
  let (taken, t) := giveBack frame state.2
  (taken, state.1 ++ [(frame, taken)], t)

variable {giveBack} {tables : PageTables} {mem : Memory} {root : ℕ} {log : List ℕ}

lemma handBacks_recorded (addrs : List ℕ) (freed : ℕ) (offers : List (PhysFrame × Bool)) (t : τ) :
    ∃ answers : List Bool, answers.length = addrs.length
      ∧ addrs.foldl (PageTables.handBack (recorded giveBack)) (freed, offers, t)
        = ((addrs.foldl (PageTables.handBack giveBack) (freed, t)).1,
            offers ++ (addrs.map PhysFrame.containingAddress).zip answers,
            (addrs.foldl (PageTables.handBack giveBack) (freed, t)).2)
      ∧ (addrs.foldl (PageTables.handBack giveBack) (freed, t)).1
        = freed + answers.count true := by
  induction addrs generalizing freed offers t with
  | nil => exact ⟨[], rfl, by simp, by simp⟩
  | cons addr rest ih =>
      rw [List.foldl_cons, List.foldl_cons, PageTables.handBack, PageTables.handBack]
      simp only [recorded]
      rcases giveBack (.containingAddress addr) t with ⟨_ | _, t'⟩
      · obtain ⟨answers, hlength, hrun, hcount⟩ :=
          ih freed (offers ++ [(.containingAddress addr, false)]) t'
        refine ⟨false :: answers, by simp [hlength], ?_, ?_⟩
        · rw [hrun]
          simp
        · rw [hcount]
          simp
      · obtain ⟨answers, hlength, hrun, hcount⟩ :=
          ih (freed + 1) (offers ++ [(.containingAddress addr, true)]) t'
        refine ⟨true :: answers, by simp [hlength], ?_, ?_⟩
        · rw [hrun]
          simp
        · rw [hcount]
          simp
          omega

/-- The tables below a table, as the nodes of a radix tree in postorder. -/
lemma tablesBelow_eq (mem : Memory) (n : ℕ) :
    PageTables.tablesBelow mem n = postorder next (List.finRange 512) mem 2 n := by
  have hstep : ∀ (e : ℕ) (below : ℕ → List ℕ), (if !has e present || has e huge then [] else
      below (e &&& addressMask) ++ [e &&& addressMask]) = visit next below e := by
    intro e below
    cases hpres : has e present with
    | false => simp [visit, next_of_not_present hpres]
    | true =>
        cases hhuge : has e huge with
        | false => simp [visit, next_of_present hpres hhuge]
        | true => simp [visit, next, hpres, hhuge]
  have hdirectory : ∀ directory, postorder next (List.finRange 512) mem 1 directory
      = (List.finRange 512).flatMap fun index =>
          if !has (mem directory index) present || has (mem directory index) huge then []
          else [mem directory index &&& addressMask] := by
    intro directory
    rw [postorder]
    refine List.flatMap_congr fun j _ => ?_
    rw [← hstep]
    simp only [postorder, List.nil_append]
  rw [PageTables.tablesBelow, postorder]
  refine List.flatMap_congr fun i _ => ?_
  rw [← hstep, hdirectory]

/-- Memory with some slots of a root cleared. -/
def cleared (mem : Memory) (root : ℕ) (slots : List (Fin 512)) : Memory := fun n i =>
  if n = root ∧ i ∈ slots then 0 else mem n i

lemma cleared_of_ne {slots : List (Fin 512)} {n : ℕ} (h : n ≠ root) :
    cleared mem root slots n = mem n := by
  funext i
  exact if_neg fun hhere => h hhere.1

/-- One more slot. -/
lemma cleared_snoc (mem : Memory) (root : ℕ) (slots : List (Fin 512)) (slot : Fin 512) :
    cleared mem root (slots ++ [slot]) = Radix.write (cleared mem root slots) root slot 0 := by
  funext n i
  simp only [cleared, Radix.write, List.mem_append, List.mem_singleton]
  by_cases hn : n = root
  · by_cases hi : i = slot
    · simp [hn, hi]
    · simp [hn, hi]
  · simp [hn]

/-- What is offered of one slot. -/
def offersOf (mem : Memory) (root : ℕ) (slot : Fin 512) : List ℕ :=
  visit next (postorder next (List.finRange 512) mem 2) (mem root slot)

/-- Clearing slots of the root changes nothing below another one. -/
lemma Took.tablesBelow_cleared (h : Took mem root log) {slots : List (Fin 512)}
    {slot : Fin 512} {n : ℕ} (hslot : Half.lower.Slot slot) (hn : next (mem root slot) = some n) :
    PageTables.tablesBelow (cleared mem root slots) n = PageTables.tablesBelow mem n := by
  rw [tablesBelow_eq, tablesBelow_eq]
  refine Radix.postorder_congr fun p x hp hx => cleared_of_ne ?_
  rintro rfl
  have hpath : follow next mem x (slot :: p) = some x := by
    rw [follow, hn, Option.bind_some, hx]
  have hnil := h.half.path_unique (q := []) (by rw [List.length_cons]; omega)
    (fun i hi => by cases hi; exact hslot) hpath (by simp) rfl
  cases hnil

lemma Took.freeSlots (h : Took mem tables.root log) {slots : List (Fin 512)}
    (done : List (Fin 512)) (hlower : ∀ slot ∈ slots, Half.lower.Slot slot)
    (hnodup : (done ++ slots).Nodup) (freed : ℕ) (t : τ) :
    slots.foldl (tables.freeSlot giveBack) (freed, cleared mem tables.root done, t)
      = (((slots.flatMap (offersOf mem tables.root)).foldl (PageTables.handBack giveBack)
        (freed, t)).1,
          cleared mem tables.root (done ++ slots),
          ((slots.flatMap (offersOf mem tables.root)).foldl (PageTables.handBack giveBack)
            (freed, t)).2) := by
  induction slots generalizing done freed t with
  | nil => rw [List.append_nil]; rfl
  | cons slot rest ih =>
      have hslot := hlower slot List.mem_cons_self
      have hnot : slot ∉ done := fun hmem =>
        (List.nodup_append.mp hnodup).2.2 slot hmem slot List.mem_cons_self rfl
      have hentry : cleared mem tables.root done tables.root slot = mem tables.root slot :=
        if_neg fun hhere => hnot hhere.2
      rw [List.append_cons] at hnodup ⊢
      have hrest := ih (done ++ [slot])
        (fun slot' hmem => hlower slot' (List.mem_cons_of_mem slot hmem))
        hnodup
      rw [List.foldl_cons, List.flatMap_cons, List.foldl_append, PageTables.freeSlot]
      dsimp only
      rw [hentry]
      cases hpres : has (mem tables.root slot) present with
      | false =>
          -- the slot is passed over, and it was empty to begin with
          have hsame : cleared mem tables.root (done ++ [slot])
              = cleared mem tables.root done := by
            rw [cleared_snoc]
            funext n i
            by_cases hhere : n = tables.root ∧ i = slot
            · obtain ⟨rfl, rfl⟩ := hhere
              rw [Radix.write_self, hentry, h.blank i hslot hpres]
            · rw [Radix.write_of_ne hhere]
          have hnone : offersOf mem tables.root slot = [] := by
            rw [offersOf, visit, next_of_not_present hpres]
          rw [Bool.not_false, if_pos rfl, hnone, List.foldl_nil, ← hrest, hsame]
      | true =>
          have hhuge := (h.half.linked [] tables.root slot (by simp)
            (fun i hi => by cases hi; exact hslot) rfl hpres).1
          have hnext := next_of_present hpres hhuge
          have hoffers : PageTables.tablesBelow (cleared mem tables.root done)
              (mem tables.root slot &&& addressMask) ++ [mem tables.root slot &&& addressMask]
                = offersOf mem tables.root slot := by
            rw [h.tablesBelow_cleared hslot hnext, offersOf, visit, hnext, tablesBelow_eq]
          rw [Bool.not_true, if_neg Bool.false_ne_true, hoffers, ← cleared_snoc]
          exact hrest _ _

/-- The slots of the lower half. -/
def lowerSlots : List (Fin 512) :=
  (List.finRange 512).filter fun slot => decide (slot.val < PageTables.kernelSlot)

lemma mem_lowerSlots {slot : Fin 512} : slot ∈ lowerSlots ↔ Half.lower.Slot slot := by
  simp [lowerSlots, Half.Slot]

lemma nodup_lowerSlots : lowerSlots.Nodup := by
  rw [lowerSlots]
  exact (List.nodup_finRange 512).filter _

/-- Everything `free_lower_half` offers, in its order. -/
def offers (mem : Memory) (root : ℕ) : List ℕ := lowerSlots.flatMap (offersOf mem root) ++ [root]

/-- `free_lower_half` in one pass. -/
lemma Took.freeLowerHalf_eq (h : Took mem tables.root log) (t : τ) :
    tables.freeLowerHalf giveBack mem t
      = (((offers mem tables.root).foldl (PageTables.handBack giveBack) (0, t)).1,
          cleared mem tables.root lowerSlots,
          ((offers mem tables.root).foldl (PageTables.handBack giveBack) (0, t)).2) := by
  have hnone : cleared mem tables.root [] = mem := by
    funext n i
    exact if_neg fun hhere => absurd hhere.2 List.not_mem_nil
  have hslots := @Took.freeSlots _ giveBack _ _ _ h lowerSlots [] (fun _ => mem_lowerSlots.mp)
    (by rw [List.nil_append]; exact nodup_lowerSlots) 0 t
  rw [hnone, List.nil_append] at hslots
  rw [PageTables.freeLowerHalf, ← lowerSlots]
  dsimp only
  rw [hslots, offers, List.foldl_append, List.foldl_cons, List.foldl_nil]

/-- What is offered is what was taken. -/
lemma Took.offers_perm (h : Took mem root log) : (offers mem root).Perm log := by
  have hbelow : Radix.Below next mem 2 (postorder next (List.finRange 512) mem 2) :=
    Radix.mem_postorder List.mem_finRange 2
  have hown : ∀ {i : Fin 512} (p : List (Fin 512)), i ∈ lowerSlots →
      OwnPath Half.lower.Slot (i :: p) := by
    intro i p hi j hj
    cases hj
    exact mem_lowerSlots.mp hi
  have hmem : ∀ x, x ∈ offers mem root ↔ x ∈ log := by
    intro x
    rw [offers, List.mem_append, List.mem_singleton, h.mem_iff]
    refine (or_congr_left (Radix.mem_visits hbelow)).trans ⟨?_, ?_⟩
    · rintro (⟨i, hi, p, hp, hx⟩ | rfl)
      · exact ⟨i :: p, by rw [List.length_cons]; omega, hown p hi, hx⟩
      · exact ⟨[], by simp, ownPath_nil, rfl⟩
    · rintro ⟨p, hp, hpown, hx⟩
      cases p with
      | nil => exact .inr (Option.some.inj hx).symm
      | cons i p =>
          rw [List.length_cons] at hp
          exact .inl ⟨i, mem_lowerSlots.mpr (hpown i rfl), p, by omega, hx⟩
  refine (List.perm_ext_iff_of_nodup ?_ h.nodup).mpr hmem
  have honce : ∀ i ∈ lowerSlots, ∀ (j : Fin 512) (p q : List (Fin 512)) x, p.length ≤ 2 →
      q.length ≤ 2 →
      follow next mem root (i :: p) = some x → follow next mem root (j :: q) = some x →
        i :: p = j :: q := by
    intro i hi j p q x hp hq hpx hqx
    exact h.half.path_unique (by rw [List.length_cons]; omega) (hown p hi) hpx
      (by rw [List.length_cons]; omega) hqx
  refine List.nodup_append.mpr ⟨?_, List.nodup_singleton root, ?_⟩
  · refine Radix.nodup_visits hbelow nodup_lowerSlots (fun i hi n hn => ?_)
      fun i hi j _ => honce i hi j
    refine Radix.nodup_postorder List.mem_finRange
      (List.nodup_finRange 512) fun p q x hp hq hpx hqx => ?_
    have hcons := honce i hi i p q x hp hq (by rw [follow, hn, Option.bind_some, hpx])
      (by rw [follow, hn, Option.bind_some, hqx])
    exact (List.cons.inj hcons).2
  · rintro x hx y hy rfl
    obtain rfl := List.mem_singleton.mp hy
    obtain ⟨i, hi, p, hp, hpx⟩ := (Radix.mem_visits hbelow).mp hx
    have hnil := h.half.path_unique (q := []) (by rw [List.length_cons]; omega) (hown p hi) hpx
      (by simp) rfl
    cases hnil

end GivingBack

/-- The frames offered, by their addresses. -/
def addresses (offered : List (PhysFrame × Bool)) : List ℕ :=
  offered.map fun offer => offer.1.start

/-- Frames at aligned addresses, with the answers to them. -/
lemma addresses_zip {addrs : List ℕ} {answers : List Bool}
    (hlength : answers.length = addrs.length) (halign : ∀ addr ∈ addrs, addr % frameSize = 0) :
    addresses ((addrs.map PhysFrame.containingAddress).zip answers) = addrs := by
  have hfst := @List.map_fst_zip _ _ (addrs.map PhysFrame.containingAddress) answers
    (by rw [List.length_map, hlength])
  rw [addresses, ← Function.comp_def PhysFrame.start Prod.fst, ← List.map_map, hfst, List.map_map]
  refine (List.map_congr_left fun addr haddr => ?_).trans (List.map_id _)
  show addr - addr % frameSize = addr
  rw [halign addr haddr, Nat.sub_zero]

/-- **A dead space gives back exactly its own tables.** Along every run of user mappings of a
space just made, `free_lower_half` offers the frames that were taken for it, its root among them,
each once; no leaf's frame and no table of the kernel half is one of them. It counts those that
were accepted, and leaves the lower half of the root empty and the rest of it as it was. -/
theorem freeLowerHalf_exact {σ τ : Type} {src : FrameSource σ} {tables : PageTables}
    {mem : Memory} {s : σ × List ℕ} (hspace : UserSpace src tables mem s)
    (giveBack : PhysFrame → τ → Bool × τ) (t : τ) :
    ∃ (freed : ℕ) (mem' : Memory) (offered : List (PhysFrame × Bool)) (t' : τ),
      tables.freeLowerHalf (recorded giveBack) mem ([], t) = (freed, mem', offered, t')
        ∧ tables.freeLowerHalf giveBack mem t = (freed, mem', t')
        ∧ (addresses offered).Perm s.2 ∧ (addresses offered).Nodup
          ∧ tables.root ∈ addresses offered
        ∧ (∀ a ∈ leavesOf mem tables.root, a ∉ addresses offered)
        ∧ (∀ p n, p.length ≤ 3 → KernelPath p → follow next mem tables.root p = some n →
          n ∉ addresses offered)
        ∧ freed = (offered.map Prod.snd).count true
        ∧ ∀ i : Fin 512, mem' tables.root i
          = if i.val < PageTables.kernelSlot then 0 else mem tables.root i := by
  have h := hspace.took
  obtain ⟨answers, hlength, hrun, hcount⟩ :=
    @handBacks_recorded _ giveBack (offers mem tables.root) 0 [] t
  have hperm := h.offers_perm
  have hoffered : addresses
      (((offers mem tables.root).map PhysFrame.containingAddress).zip answers)
      = offers mem tables.root := by
    refine addresses_zip hlength fun addr haddr => ?_
    obtain ⟨p, -, -, hp⟩ := (h.mem_iff addr).mp (hperm.mem_iff.mp haddr)
    exact follow_aligned h.aligned hp
  refine ⟨_, _, ((offers mem tables.root).map PhysFrame.containingAddress).zip answers, _, ?_,
    h.freeLowerHalf_eq t, ?_⟩
  · rw [h.freeLowerHalf_eq, hrun, List.nil_append]
  rw [hoffered]
  refine ⟨hperm, hperm.nodup_iff.mpr h.nodup, ?_, ?_, ?_, ?_, fun i => ?_⟩
  · exact List.mem_append_right _ (List.mem_singleton.mpr rfl)
  · exact fun a ha hmem => h.apart a ha (hperm.mem_iff.mp hmem)
  · intro p n hp hkernel hn hmem
    obtain ⟨q, hq, hown, hqn⟩ := (h.mem_iff n).mp (hperm.mem_iff.mp hmem)
    obtain rfl := h.half.path_unique hq hown hqn hp hn
    exact hkernel.not_ownPath hown
  · rw [@List.map_snd_zip _ _ ((offers mem tables.root).map PhysFrame.containingAddress) answers
      (by rw [List.length_map, hlength]), hcount, Nat.zero_add]
  · refine if_congr ?_ rfl rfl
    rw [mem_lowerSlots, Half.Slot]
    exact and_iff_right rfl

/-- Four frames for a space: its root, and the tables of its first page. -/
def spaceFrames : List PhysFrame := [0x3000, 0x4000, 0x5000, 0x6000].map .containingAddress

/-- A space made out of the first of them. -/
def madeSpace : Except MapError PageTables × Memory × List PhysFrame × List ℕ :=
  windowTables.newProcessSpace frameList.logged (identityBelow 260) (spaceFrames, [])

lemma madeSpace_eq : madeSpace = (.ok bareSpace, bareMemory,
    [0x4000, 0x5000, 0x6000].map .containingAddress, [0x3000]) := by
  have htable : windowTables.newTable frameList.logged (identityBelow 260) (spaceFrames, [])
      = (.ok 0x3000, Radix.fill (Radix.fill (identityBelow 260) 0x3000 fun _ => 0) 0x3000
          fun _ => 0, [0x4000, 0x5000, 0x6000].map .containingAddress, [0x3000]) := by
    rfl
  rw [madeSpace, PageTables.newProcessSpace, htable, bareMemory_eq]
  refine Prod.ext rfl (Prod.ext ?_ rfl)
  funext n i
  by_cases hn : n = 0x3000
  · subst hn
    simp [windowTables, Radix.fill, bareRoot]
  · simp [Radix.fill_of_ne hn]

lemma madeSpace_userSpace : UserSpace frameList bareSpace bareMemory
    ([0x4000, 0x5000, 0x6000].map .containingAddress, [0x3000]) := by
  refine .new (frameList_fresh (fun a ha => ?_) (by decide)) madeSpace_eq
  have ha : a = 0x3000 ∨ a = 0x4000 ∨ a = 0x5000 ∨ a = 0x6000 := by simpa using ha
  refine ⟨?_, by omega, fun h => ?_⟩
  · obtain rfl | rfl | rfl | rfl := ha <;> decide
  · have hmem := tablesOf_identityBelow 260 h
    simp only [Set.mem_insert_iff, Set.mem_singleton_iff] at hmem
    omega

/-- Nothing is mapped in it yet. -/
lemma leavesOf_bareMemory : leavesOf bareMemory bareSpace.root = ∅ := by
  have h := madeSpace_userSpace.took
  refine Set.eq_empty_of_forall_notMem ?_
  rintro a ⟨p, table, i, hlen, hown, htable, -⟩
  have hroot : table = bareSpace.root :=
    List.mem_singleton.mp ((h.mem_iff table).mpr ⟨p, hlen.le, hown, htable⟩)
  have hnil := h.half.path_unique (q := []) hlen.le hown htable (by simp) (by rw [hroot]; rfl)
  rw [hnil] at hlen
  cases hlen

/-- Its first page. -/
def mappedPage : Except MapError Unit × Memory × List PhysFrame × List ℕ :=
  bareSpace.map frameList.logged 0x400000 (.containingAddress 0x7000)
    (.ofUser false true) bareMemory
    ([0x4000, 0x5000, 0x6000].map .containingAddress, [0x3000])

theorem freeLowerHalf_exact_onePage : ∃ mem s, UserSpace frameList bareSpace mem s
    ∧ s.2 = [0x3000, 0x4000, 0x5000, 0x6000] ∧ 0x7000 ∈ leavesOf mem bareSpace.root
    ∧ ∃ freed mem' offered t',
      bareSpace.freeLowerHalf (recorded fun _ n => (true, n + 1)) mem ([], 0)
        = (freed, mem', offered, t')
      ∧ (addresses offered).Perm [0x3000, 0x4000, 0x5000, 0x6000] := by
  have hok : mappedPage.1 = .ok () := by decide +kernel
  have hlog : mappedPage.2.2.2 = [0x3000, 0x4000, 0x5000, 0x6000] := by decide +kernel
  have hpath : follow next mappedPage.2.1 bareSpace.root ((tableIndices 0x400000).take 3)
      = some 0x6000 := by
    decide +kernel
  have hentry : has (mappedPage.2.1 0x6000 (tableIndex 0x400000 12)) present = true
      ∧ mappedPage.2.1 0x6000 (tableIndex 0x400000 12) &&& addressMask = 0x7000 := by
    decide +kernel
  have hfar : ∀ a ∈ tablesOf bareMemory bareSpace.root, a ≤ 0x3000 := by
    intro a ha
    have hmem := tablesOf_bareMemory ha
    simp only [Set.mem_insert_iff, Set.mem_singleton_iff] at hmem
    omega
  have hspace : UserSpace frameList bareSpace mappedPage.2.1 mappedPage.2.2 := by
    refine @UserSpace.map _ _ _ _ _ _ _ 0x400000 (.containingAddress 0x7000)
      (.ofUser false true) _
      madeSpace_userSpace (by decide) (by decide) (fun h => ?_) ?_ rfl (.inl hok)
    · have hle := hfar _ h
      revert hle
      decide
    · rw [leavesOf_bareMemory, Set.union_empty]
      refine frameList_fresh (fun a ha => ?_) (by decide)
      have ha : a = 0x4000 ∨ a = 0x5000 ∨ a = 0x6000 := by simpa using ha
      refine ⟨?_, by omega, ?_⟩
      · obtain rfl | rfl | rfl := ha <;> decide
      · rintro (h | h)
        · obtain rfl | rfl | rfl := ha <;> revert h <;> decide
        · have hle := hfar a h
          omega
  obtain ⟨freed, mem', offered, t', hrun, -, hperm, -⟩ :=
    freeLowerHalf_exact hspace (fun _ n => (true, n + 1)) 0
  refine ⟨mappedPage.2.1, mappedPage.2.2, hspace, hlog, ?_, freed, mem', offered, t', hrun, ?_⟩
  · refine ⟨_, _, _, rfl, ownPath_of_slot (tableIndex_lower.mpr (by decide)), hpath,
      hentry.1, hentry.2⟩
  · rwa [hlog] at hperm

end Harlan.Paging
