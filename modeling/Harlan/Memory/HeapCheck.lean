import Mathlib.Tactic
import Harlan.Memory.HeapLaws

/-!
The check of the heap, over memory that may hold anything.

Only the bounds are those `init` left; the first hole, the count and every byte may be wrong. Each
read is behind the checks that make it safe, so the walk is followed with what they have
established: where the last hole ended, and that no more was counted than lies before it.

* `Walked`: what is known between two holes.
* `checkFrom_judges`: the walk ends without stopping the kernel, and what it accepts is a list of
  holes.
* `check_judges`: **the check accepts exactly the lists that are right**, and reads nothing but
  the heap. -/

namespace Harlan.Heap

variable {heap : FreeListHeap} {previousEnd : Option ℕ} {free current : ℕ}

/-- What the walk knows between two holes. -/
structure Walked (heap : FreeListHeap) (previousEnd : Option ℕ) (free : ℕ) : Prop where
  first : previousEnd = none → free = 0
  bounds : ∀ end' ∈ previousEnd, heap.start ≤ end' ∧ end' ≤ heap.endAddr
    ∧ free ≤ end' - heap.start

/-- What is counted before a hole lies before it. -/
lemma Walked.free_le (h : Walked heap previousEnd free)
    (horder : ¬∃ end' ∈ previousEnd, current ≤ end') :
    free ≤ current - heap.start := by
  cases previousEnd with
  | none =>
      rw [h.first rfl]
      exact Nat.zero_le _
  | some end' =>
      obtain ⟨-, -, hle⟩ := h.bounds end' rfl
      have hlt : end' < current := Nat.lt_of_not_le fun hle => horder ⟨end', rfl, hle⟩
      omega

/-- The next hole is counted. -/
lemma Walked.next {size : ℕ} (h : Walked heap previousEnd free)
    (horder : ¬∃ end' ∈ previousEnd, current ≤ end') (hlow : heap.start ≤ current)
    (hhigh : current + size ≤ heap.endAddr) :
    Walked heap (some (current + size)) (free + size) := by
  have hle := h.free_le horder
  refine ⟨nofun, ?_⟩
  rintro end' ⟨⟩
  omega

/-- A hole whose header was checked is one of the heap. -/
lemma fits_of_checked {size : ℕ} (haligned : current % granule = 0) (hlow : heap.start ≤ current)
    (hsmall : ¬size < granule) (hwhole : size % granule = 0)
    (hhigh : current + size ≤ heap.endAddr) :
    heap.Fits ⟨current, size⟩ := by
  refine ⟨haligned, hwhole, ?_, hlow, hhigh⟩
  rw [granule] at hsmall
  simp only
  omega

/-- At the end of the list the walk has what it counted. -/
lemma checkFrom_end (left free count largest : ℕ) (previousEnd : Option ℕ) (heap : FreeListHeap) :
    checkFrom left free count largest previousEnd 0 heap
      = (.ok (.ok (free, count, largest)), heap) := by
  cases left <;> rw [checkFrom, if_pos rfl] <;> rfl

/-- The walk from `current` judges the memory: it ends, with the same answer over `mem`, and what
it accepts is a list of holes behind the last one, whose sizes it adds to the count. -/
def Judged (heap : FreeListHeap) (mem : ByteMemory) (left free count largest : ℕ)
    (previousEnd : Option ℕ) (current : ℕ) : Prop :=
  ∃ answer, checkFrom left free count largest previousEnd current heap = (.ok answer, heap)
    ∧ checkFrom left free count largest previousEnd current { heap with mem := mem }
      = (.ok answer, { heap with mem := mem })
    ∧ ∀ found, answer = .ok found → ∃ holes, LinkedTo heap.mem current holes 0
      ∧ (∀ hole ∈ holes, heap.Fits hole)
      ∧ (holes.Pairwise fun hole next => hole.endAddr < next.addr)
      ∧ (∀ end' ∈ previousEnd, ∀ hole ∈ holes, end' < hole.addr)
      ∧ found.1 = free + (holes.map (·.size)).sum

/-- At the end of the list the walk accepts, and there are no more holes. -/
lemma judged_end (heap : FreeListHeap) (mem : ByteMemory) (left free count largest : ℕ)
    (previousEnd : Option ℕ) :
    Judged heap mem left free count largest previousEnd 0 := by
  refine ⟨_, checkFrom_end .., checkFrom_end .., fun found hfound =>
    ⟨[], rfl, List.forall_mem_nil _, .nil, fun _ _ => List.forall_mem_nil _, ?_⟩⟩
  rw [← Except.ok.inj hfound]
  rfl

/-- **The walk judges any memory** that agrees with the heap's own inside the heap. -/
lemma checkFrom_judges {mem : ByteMemory} {left count largest : ℕ} (hregion : heap.Region)
    (hmem : ∀ a, heap.start ≤ a → a < heap.endAddr → mem a = heap.mem a)
    (h : Walked heap previousEnd free) :
    Judged heap mem left free count largest previousEnd current := by
  have hregion' : FreeListHeap.Region { heap with mem := mem } := hregion.of_same ⟨rfl, rfl, rfl⟩
  induction left generalizing previousEnd free count largest current with
  | zero =>
      by_cases hnone : current = 0
      · subst hnone
        exact judged_end ..
      · rw [Judged, checkFrom, if_neg hnone]
        exact ⟨.error (.tooLong current), rfl, rfl, by simp⟩
  | succ left ih =>
      by_cases hnone : current = 0
      · subst hnone
        exact judged_end ..
      rw [Judged, checkFrom, if_neg hnone, Eff.get_bind, Eff.get_bind]
      by_cases hout : current % granule ≠ 0 ∨ current < heap.start ∨ heap.endAddr ≤ current
      · rw [if_pos hout]
        exact ⟨.error (.outsideOrMisaligned current), rfl, rfl, by simp⟩
      rw [if_neg hout]
      by_cases horder : ∃ end' ∈ previousEnd, current ≤ end'
      · rw [if_pos horder]
        exact ⟨.error (.outOfOrder current), rfl, rfl, by simp⟩
      rw [if_neg horder]
      -- the header is inside the heap, so both memories have the same
      rw [not_or, not_or, not_not, Nat.not_lt, Nat.not_le] at hout
      obtain ⟨haligned, hlow, hhigh⟩ := hout
      have hheader : current + granule ≤ heap.endAddr := by
        have hwhole := hregion.end_whole
        rw [granule] at *
        omega
      have hsame : holeAt mem current = holeAt heap.mem current :=
        holeAt_congr fun a hfirst hlast =>
          hmem a (le_trans hlow hfirst) (lt_of_lt_of_le hlast hheader)
      rw [Eff.bind_ok (readHole_ok (holeFits hregion haligned hlow hheader)),
        Eff.bind_ok (readHole_ok
          (@holeFits { heap with mem := mem } current hregion' haligned hlow hheader))]
      dsimp only
      rw [hsame]
      set size := (holeAt heap.mem current).size with hsize
      by_cases hbad : size < granule ∨ size % granule ≠ 0 ∨ heap.endAddr - current < size
      · rw [if_pos hbad]
        exact ⟨.error (.impossibleSize current), rfl, rfl, by simp⟩
      rw [if_neg hbad]
      rw [not_or, not_or, not_not] at hbad
      obtain ⟨hsmall, hwhole, hend⟩ := hbad
      have hfits : current + size ≤ heap.endAddr := by omega
      have htop := hregion.end_lt
      have hcounted := h.free_le horder
      rw [Eff.bind_ok (plus_ok (by omega)), Eff.bind_ok (plus_ok (by omega)),
        Eff.bind_ok (plus_ok (by omega)), Eff.bind_ok (plus_ok (by omega))]
      obtain ⟨answer, hrun, hrun', hfound⟩ :=
        @ih _ _ (holeAt heap.mem current).next (count + 1) (max largest size)
        (h.next horder hlow hfits)
      refine ⟨answer, hrun, hrun', fun found hanswer => ?_⟩
      obtain ⟨holes, hlinked, hallFit, hapart, hbehind, hsum⟩ := hfound found hanswer
      refine ⟨⟨current, size⟩ :: holes, ⟨rfl, rfl, hlinked⟩, fun hole hhole => ?_,
        List.pairwise_cons.mpr ⟨fun hole hhole => hbehind _ rfl hole hhole, hapart⟩,
        fun end' hend' hole hhole => ?_, ?_⟩
      · rcases List.mem_cons.mp hhole with rfl | hhole
        · exact fits_of_checked haligned hlow hsmall hwhole hfits
        · exact hallFit hole hhole
      · have hlt : end' < current := Nat.lt_of_not_le fun hle => horder ⟨end', hend', hle⟩
        rcases List.mem_cons.mp hhole with rfl | hhole
        · exact hlt
        · have hnext := hbehind _ rfl hole hhole
          omega
      · rw [hsum, List.map_cons, List.sum_cons, Nat.add_assoc]

/-- What the check makes of the answer of the walk. -/
def conclude (heap : FreeListHeap) : Except HeapCorruption (ℕ × ℕ × ℕ) →
      Except HeapCorruption HeapStats
  | .error corruption => .error corruption
  | .ok (free, holes, largest) =>
      if free ≠ heap.free then .error .wrongFreeCount
      else .ok ⟨heap.endAddr - heap.start, free, holes, largest⟩

lemma check_of_walk {answer : Except HeapCorruption (ℕ × ℕ × ℕ)}
    (h : checkFrom heap.granules 0 0 0 none heap.head heap = (.ok answer, heap)) :
    check heap = (.ok (conclude heap answer), heap) := by
  rw [check, Eff.get_bind, Eff.bind_ok h]
  rcases answer with corruption | ⟨free, holes, largest⟩
  · rfl
  · dsimp only [conclude]
    split_ifs <;> rfl

/-- The check ends, over any memory that agrees inside the heap, and accepts only lists of
holes. -/
lemma check_ends {mem : ByteMemory} (hregion : heap.Region)
    (hmem : ∀ a, heap.start ≤ a → a < heap.endAddr → mem a = heap.mem a) :
    ∃ answer, check heap = (.ok answer, heap)
      ∧ check { heap with mem := mem } = (.ok answer, { heap with mem := mem })
      ∧ ∀ stats, answer = .ok stats → ∃ holes, heap.Holds holes := by
  obtain ⟨answer, hrun, hrun', hfound⟩ :=
    @checkFrom_judges heap none 0 heap.head mem heap.granules 0 0 hregion
    hmem ⟨fun _ => rfl, nofun⟩
  refine ⟨conclude heap answer, check_of_walk hrun, ?_, fun stats hstats => ?_⟩
  · exact @check_of_walk { heap with mem := mem } answer hrun'
  · rcases answer with corruption | ⟨free, count, largest⟩
    · cases hstats
    · obtain ⟨holes, hlinked, hfits, hapart, -, hsum⟩ := hfound _ rfl
      rw [conclude] at hstats
      by_cases hcount : free = heap.free
      · rw [Nat.zero_add] at hsum
        exact ⟨holes, hlinked, hfits, hapart, hcount.symm.trans hsum⟩
      · rw [if_pos hcount] at hstats
        cases hstats

/-- **The check judges arbitrary memory, and rightly.** With the bounds `init` leaves, and any
first hole, any count and any bytes, it ends without stopping the kernel and without a change; its
answer is the same over every memory that agrees inside the heap; and it accepts exactly when the
list from the first hole ends, every hole in it is of whole granules and inside the heap, they are
in order and do not touch, and their sizes add up to the count. What it then says of them is
so. -/
theorem check_judges {mem₀ : ByteMemory} {start size : ℕ} {heap₀ : FreeListHeap}
    (hstart : 0 < start) (hinit : init start size (.empty mem₀) = (.ok (), heap₀))
    (mem : ByteMemory) (head free : ℕ) :
    ∃ answer, (∀ mem' : ByteMemory, (∀ a, heap₀.start ≤ a → a < heap₀.endAddr → mem' a = mem a) →
        check { heap₀ with mem := mem', head := head, free := free }
          = (.ok answer, { heap₀ with mem := mem', head := head, free := free }))
      ∧ ∀ stats, answer = .ok stats ↔ ∃ holes,
        FreeListHeap.Holds { heap₀ with mem := mem, head := head, free := free } holes
          ∧ stats = ⟨heap₀.endAddr - heap₀.start, (holes.map (·.size)).sum, holes.length,
            (holes.map (·.size)).foldl max 0⟩ := by
  obtain ⟨_, _, hinit', hsound, -⟩ := init_spec mem₀ hstart (not_wraps_of_init hinit)
  obtain rfl := (Prod.mk.inj (hinit.symm.trans hinit')).2
  have hregion : FreeListHeap.Region { heap₀ with mem := mem, head := head, free := free } :=
    hsound.region.of_same ⟨rfl, rfl, rfl⟩
  obtain ⟨answer, hrun, -, hholds⟩ := check_ends hregion fun _ _ _ => rfl
  refine ⟨answer, fun mem' hmem => ?_, fun stats => ⟨fun hstats => ?_, ?_⟩⟩
  · obtain ⟨answer', hrun₁, hrun', -⟩ := check_ends hregion hmem
    obtain rfl : answer = answer' := Except.ok.inj (Prod.mk.inj (hrun.symm.trans hrun₁)).1
    exact hrun'
  · obtain ⟨holes, h⟩ := hholds stats hstats
    refine ⟨holes, h, ?_⟩
    have hspec := (Prod.mk.inj (hrun.symm.trans (check_spec hregion h))).1
    rw [hstats, h.free] at hspec
    exact Except.ok.inj (Except.ok.inj hspec)
  · rintro ⟨holes, h, rfl⟩
    have hspec := (Prod.mk.inj (hrun.symm.trans (check_spec hregion h))).1
    rw [h.free] at hspec
    exact Except.ok.inj hspec

/-- A hole that names itself as the next is not accepted, and one that ends the list is. -/
theorem check_judges_loop :
    (∃ corruption, (check { (init 0x1010 64 (.empty fun _ => 0)).2 with
        mem := putHole (fun _ => 0) 0x1010 ⟨64, 0x1010⟩ }).1 = .ok (.error corruption))
      ∧ ∃ holes, FreeListHeap.Holds { (init 0x1010 64 (.empty fun _ => 0)).2 with
        mem := putHole (fun _ => 0) 0x1010 ⟨64, 0⟩, head := 0x1010, free := 64 } holes := by
  refine ⟨⟨.outOfOrder 0x1010, rfl⟩, ?_⟩
  obtain ⟨answer, hrun, hiff⟩ := check_judges (by decide : 0 < 0x1010)
    (Prod.ext rfl rfl : init 0x1010 64 (.empty fun _ => 0) = (.ok (), _))
    (putHole (fun _ => 0) 0x1010 ⟨64, 0⟩) 0x1010 64
  have hanswer : answer = .ok ⟨64, 64, 1, 64⟩ :=
    (Except.ok.inj (congrArg Prod.fst (hrun _ fun _ _ _ => rfl))).symm
  obtain ⟨holes, hholds, -⟩ := (hiff _).mp hanswer
  exact ⟨holes, hholds⟩

end Harlan.Heap
