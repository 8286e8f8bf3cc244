import Mathlib.Tactic
import Harlan.Pe

/-! Moving the image (`kernel/src/memory/higher_half.rs`): adding a difference to every address
that the relocation table lists.

The table is in the image, and it is read while the image is being written: what an addition does
to a part of the table that was not yet read decides where the next one goes.

* `relocate`: the loop, with where it wrote.
* `ReadsOn`, `exact_iff_undisturbed`: moving is exact where, after every addition, the table reads
  on as it did before the first.
* `Spared`: no addition can reach a byte of the table that is still to be read.
* `relocate_exact`: **moving is exact then**.
* `spared_of_apart`, `spared_of_zero`: no address lies in the table, or nothing is added.
-/

namespace Harlan.HigherHalf

open Pe

/-! ### The loop -/

/-- The 64 bits at an address, with `delta` added; they wrap. -/
def addAt (delta : UInt64) (image : Image) (rva : ℕ) : Image :=
  { image with mem := setWord image.mem rva ((getWord image.mem rva 8 + delta.toNat) % 2 ^ 64) 8 }

/-- How `relocate` ends. -/
inductive Outcome where
  | refused (err : PeError)
  | moved (applied : ℕ)
  | panicked
  /-- The eight bytes are not all in the image: an assertion, or a write outside it. -/
  | outside (rva : ℕ)
  | endless
deriving DecidableEq

/-- How moving an image ended, with the image as it is then and where it was added to, in
order. -/
structure Relocated where
  outcome : Outcome
  image : Image
  slots : List ℕ

/-- The loop over the addresses, so many at most. -/
def relocateFor (delta : UInt64) : ℕ → Image → Relocations → List ℕ → Relocated
  | 0, image, _, slots => ⟨.endless, image, slots⟩
  | bound + 1, image, iter, slots =>
      match next image iter with
      | .error .panicked => ⟨.panicked, image, slots⟩
      | .error _ => ⟨.endless, image, slots⟩
      | .ok none => ⟨.moved slots.length, image, slots⟩
      | .ok (some (rva, iter)) =>
          if image.len < rva + 8 then ⟨.outside rva, image, slots⟩
          else relocateFor delta bound (addAt delta image rva) iter (slots ++ [rva])

/-- Adds `delta` to every address the table lists, and answers how many. -/
def relocate (image : Image) (delta : UInt64) : Relocated :=
  match relocations image with
  | .error (.refused err) => ⟨.refused err, image, []⟩
  | .error .panicked => ⟨.panicked, image, []⟩
  | .error .endless => ⟨.endless, image, []⟩
  | .ok table => relocateFor delta (table.iter.left + 1) image table.iter []

/-! ### What moving should come to -/

/-- What the table of an image lists. -/
def Listed (image : Image) (table : Slice) (listed : List ℕ) : Prop :=
  relocations image = .ok table ∧ collect image table.iter = .ok listed

/-- The image is refused and left as it was, or `delta` was added, once and in order, to the 64
bits at every address that its table listed, and nothing else was done. -/
def Exact (image : Image) (delta : UInt64) : Prop :=
  match (relocate image delta).outcome with
  | .refused _ => (relocate image delta).image = image
  | .moved applied =>
      ∃ table listed, Listed image table listed ∧ applied = listed.length
        ∧ (relocate image delta).slots = listed
        ∧ (relocate image delta).image = listed.foldl (addAt delta) image
  | _ => False

/-- Reading on after each addition finds the next of these addresses, and the end after the
last. -/
def ReadsOn (delta : UInt64) : Image → Relocations → List ℕ → Prop
  | image, iter, [] => next image iter = .ok none
  | image, iter, rva :: rest =>
      ∃ iter', next image iter = .ok (some (rva, iter'))
        ∧ ReadsOn delta (addAt delta image rva) iter' rest

/-- The additions, made one after the other, leave the table listing what it listed before. -/
def Undisturbed (image : Image) (delta : UInt64) : Prop :=
  ∀ table listed, Listed image table listed → ReadsOn delta image table.iter listed

/-! ### The iterator goes forward -/

variable {image : Image} {iter iter' : Relocations} {rva : ℕ} {delta : UInt64}

/-- What every turn keeps, the iterator's `next` keeps. -/
lemma nextFor_rel {r : Relocations → Relocations → Prop} {bound : ℕ}
    (hturn : ∀ {iter iter'}, Follows image iter iter' → r iter' iter)
    (htrans : ∀ {a b c}, r a b → r b c → r a c)
    (h : nextFor image bound iter = .ok (some (rva, iter'))) :
    r iter' iter := by
  induction bound generalizing iter with
  | zero => cases h
  | succ bound ih =>
      rw [nextFor] at h
      cases hstep : turn image iter with
      | goOn later =>
          rw [hstep] at h
          exact htrans (ih h) (hturn (.inl hstep))
      | found address later =>
          rw [hstep] at h
          obtain ⟨-, rfl⟩ := Prod.mk.inj (Option.some.inj (Except.ok.inj h))
          exact hturn (.inr ⟨_, hstep⟩)
      | finished =>
          rw [hstep] at h
          cases h
      | panicked =>
          rw [hstep] at h
          cases h

lemma nextFor_left {bound : ℕ} (h : nextFor image bound iter = .ok (some (rva, iter'))) :
    iter'.left < iter.left :=
  @nextFor_rel image iter iter' rva (fun a b => a.left < b.left) bound Follows.left Nat.lt_trans h

/-! ### When it is exact -/

lemma relocateFor_of_readsOn {bound : ℕ} {slots listed : List ℕ}
    (h : ReadsOn delta image iter listed) (hinside : ∀ rva ∈ listed, rva + 8 ≤ image.len)
    (hbound : iter.left < bound) :
    relocateFor delta bound image iter slots
      = ⟨.moved (slots ++ listed).length, listed.foldl (addAt delta) image, slots ++ listed⟩ := by
  induction listed generalizing image iter bound slots with
  | nil =>
      obtain ⟨bound, rfl⟩ := Nat.exists_eq_succ_of_ne_zero (Nat.ne_zero_of_lt hbound)
      rw [relocateFor, show next image iter = .ok none from h, List.append_nil]
      rfl
  | cons rva rest ih =>
      obtain ⟨bound, rfl⟩ := Nat.exists_eq_succ_of_ne_zero (Nat.ne_zero_of_lt hbound)
      obtain ⟨iter', hnext, hrest⟩ := h
      have hleft := nextFor_left hnext
      have hfits := hinside rva List.mem_cons_self
      rw [relocateFor, hnext]
      dsimp only
      rw [if_neg (by omega),
        ih hrest (fun other hother => hinside other (List.mem_cons_of_mem rva hother))
        (by omega), List.append_assoc, List.singleton_append, List.foldl_cons]

/-- What was added to is what was read. -/
lemma readsOn_of_relocateFor {bound applied : ℕ} {slots : List ℕ}
    (h : (relocateFor delta bound image iter slots).outcome = .moved applied) :
    ∃ listed, (relocateFor delta bound image iter slots).slots = slots ++ listed
      ∧ ReadsOn delta image iter listed := by
  induction bound generalizing image iter slots with
  | zero => cases h
  | succ bound ih =>
      rw [relocateFor] at h ⊢
      cases hnext : next image iter with
      | error stop =>
          rw [hnext] at h
          cases stop <;> cases h
      | ok found =>
          rw [hnext] at h
          obtain _ | ⟨rva, iter'⟩ := found
          · exact ⟨[], (List.append_nil slots).symm, hnext⟩
          · dsimp only at h ⊢
            split_ifs at h ⊢ with hout
            · obtain ⟨listed, hslots, hreads⟩ := ih h
              refine ⟨rva :: listed, ?_, iter', hnext, hreads⟩
              rw [hslots, List.append_assoc, List.singleton_append]

/-- Once the table was checked, nothing is refused. -/
lemma relocateFor_ne_refused {bound : ℕ} {slots : List ℕ} (err : PeError) :
    (relocateFor delta bound image iter slots).outcome ≠ .refused err := by
  induction bound generalizing image iter slots with
  | zero => exact fun h => by cases h
  | succ bound ih =>
      rw [relocateFor]
      split
      · exact fun h => by cases h
      · exact fun h => by cases h
      · exact fun h => by cases h
      · split_ifs
        · exact fun h => by cases h
        · exact ih

/-- The addresses that a checked table lists are in the image. -/
lemma listed_inside {table : Slice} (h : relocations image = .ok table) :
    ∃ listed, collect image table.iter = .ok listed ∧ Lists image table.iter listed
      ∧ ∀ rva ∈ listed, rva + 8 ≤ image.len := by
  obtain ⟨-, blocks, hblocks, happlies⟩ := relocations_ok h
  have hlists := @TableAt.lists image _ _ 0 0 _ hblocks
  refine ⟨addresses blocks, hlists.collect, hlists, fun rva hrva => ?_⟩
  obtain ⟨block, hblock, hrva⟩ := List.mem_flatMap.mp hrva
  obtain ⟨value, hvalue, rfl⟩ := List.mem_map.mp hrva
  obtain ⟨hvalue, hkind⟩ := List.mem_filter.mp hvalue
  exact (happlies block hblock value hvalue (of_decide_eq_true hkind)).2

/-- Moving is exact where reading the table on after each addition still finds what it listed at
first. -/
lemma exact_iff_undisturbed (image : Image) (delta : UInt64) : Exact image delta
      ↔ Undisturbed image delta := by
  cases hrelocations : relocations image with
  | error stop =>
      obtain ⟨err, rfl⟩ := relocations_safe image stop hrelocations
      have hrefused : relocate image delta = ⟨.refused err, image, []⟩ := by
        rw [relocate, hrelocations]
      constructor
      · rintro - table listed ⟨htable, -⟩
        rw [hrelocations] at htable
        cases htable
      · intro _
        rw [Exact, hrefused]
  | ok table =>
      obtain ⟨listed, hcollect, -, hinside⟩ := listed_inside hrelocations
      have hrun : relocate image delta
          = relocateFor delta (table.iter.left + 1) image table.iter [] := by
        rw [relocate, hrelocations]
      constructor
      · intro hexact table' listed' hlisted
        obtain rfl := Except.ok.inj (hrelocations.symm.trans hlisted.1)
        rw [Exact, hrun] at hexact
        split at hexact
        next err houtcome => exact absurd houtcome (relocateFor_ne_refused err)
        next applied houtcome =>
          obtain ⟨table', other, hother, -, hslots, -⟩ := hexact
          obtain rfl := Except.ok.inj (hrelocations.symm.trans hother.1)
          obtain rfl := Except.ok.inj (hlisted.2.symm.trans hother.2)
          obtain ⟨read, hread, hreads⟩ := readsOn_of_relocateFor houtcome
          rw [hslots, List.nil_append] at hread
          rw [hread]
          exact hreads
        next => exact hexact.elim
      · intro hundisturbed
        have hreads := hundisturbed table listed ⟨hrelocations, hcollect⟩
        have hmoved := @relocateFor_of_readsOn _ _ _ _ [] _ hreads hinside (Nat.lt_succ_self _)
        rw [List.nil_append] at hmoved
        rw [Exact, hrun, hmoved]
        exact ⟨table, listed, ⟨hrelocations, hcollect⟩, rfl, rfl, rfl⟩

/-! ### What an addition cannot reach -/

/-- The bytes that an iterator may still read. -/
def Unread (iter : Relocations) (a : ℕ) : Prop :=
  iter.entries.first ≤ a ∧ a < iter.entries.last ∨ iter.blocks.first ≤ a ∧ a < iter.blocks.last

/-- They get fewer. -/
lemma Follows.unread (h : Follows image iter iter') {a : ℕ} (ha : Unread iter' a) :
    Unread iter a := by
  obtain ⟨-, rfl⟩ | ⟨size, hlow, hhigh, hblocks, hentries⟩ := h.cases
  · simp only [Unread, Relocations.afterEntry] at ha ⊢
    omega
  · rw [Unread, hblocks, hentries] at ha
    simp only [Unread, Slice.len, relocationBlockHeader] at hlow hhigh ha ⊢
    omega

/-- A turn depends on nothing else. -/
lemma turn_congr {image' : Image} (h : ∀ a, Unread iter a → image'.mem a = image.mem a) :
    turn image' iter = turn image iter := by
  by_cases hentries : 2 ≤ iter.entries.len
  · have hvalue : getWord image'.mem iter.entries.first 2
        = getWord image.mem iter.entries.first 2 := by
      refine getWord_congr fun a hlow hhigh => h a (.inl ⟨hlow, ?_⟩)
      rw [Slice.len] at hentries
      omega
    rw [turn_entry hentries, turn_entry hentries, hvalue]
  · by_cases hblocks : relocationBlockHeader ≤ iter.blocks.len
    · have hlen : iter.blocks.first + 8 ≤ iter.blocks.last := by
        rw [Slice.len, relocationBlockHeader] at hblocks
        omega
      have hpage : getWord image'.mem iter.blocks.first 4
          = getWord image.mem iter.blocks.first 4 :=
        getWord_congr fun a hlow hhigh => h a (.inr ⟨hlow, by omega⟩)
      have hsize : getWord image'.mem (iter.blocks.first + 4) 4
          = getWord image.mem (iter.blocks.first + 4) 4 :=
        getWord_congr fun a hlow hhigh => h a (.inr ⟨by omega, by omega⟩)
      rw [turn_block (Nat.not_le.mp hentries) hblocks,
        turn_block (Nat.not_le.mp hentries) hblocks, hpage, hsize]
    · rw [turn_finished (Nat.not_le.mp hentries) (Nat.not_le.mp hblocks),
        turn_finished (Nat.not_le.mp hentries) (Nat.not_le.mp hblocks)]

lemma nextFor_congr {image' : Image} {bound : ℕ}
    (h : ∀ a, Unread iter a → image'.mem a = image.mem a) :
    nextFor image' bound iter = nextFor image bound iter := by
  induction bound generalizing iter with
  | zero => rfl
  | succ bound ih =>
      rw [nextFor, nextFor, turn_congr h]
      cases hturn : turn image iter with
      | goOn later => exact ih fun a ha => h a (Follows.unread (.inl hturn) ha)
      | found rva later => rfl
      | finished => rfl
      | panicked => rfl

lemma nextFor_unread {bound a : ℕ} (h : nextFor image bound iter = .ok (some (rva, iter'))) :
    Unread iter' a → Unread iter a :=
  @nextFor_rel image iter iter' rva (fun later earlier => Unread later a → Unread earlier a) bound
    (fun h => Follows.unread h) (fun hlater hearlier ha => hearlier (hlater ha)) h

/-- The last bytes of a sum depend on the last bytes of its parts. -/
lemma byte_add {v d j : ℕ} (hj : j < 8) (h : 256 ^ (j + 1) ∣ d) :
    UInt8.ofNat ((v + d) % 2 ^ 64 / 256 ^ j) = UInt8.ofNat (v / 256 ^ j) := by
  obtain ⟨c, rfl⟩ := h
  have hwrap : (v + 256 ^ (j + 1) * c) % 2 ^ 64 % 256 ^ (j + 1) = v % 256 ^ (j + 1) := by
    have hdvd : 256 ^ (j + 1) ∣ 2 ^ 64 := by
      rw [show (2 : ℕ) ^ 64 = 256 ^ 8 by norm_num]
      exact pow_dvd_pow 256 hj
    rw [Nat.mod_mod_of_dvd _ hdvd, Nat.add_mul_mod_self_left]
  have hbyte : ∀ n, n / 256 ^ j % 256 = n % 256 ^ (j + 1) / 256 ^ j := fun n => by
    rw [pow_succ, Nat.mod_mul_right_div_self]
  refine UInt8.toNat_inj.mp ?_
  rw [UInt8.toNat_ofNat', UInt8.toNat_ofNat', hbyte, hbyte, hwrap]

/-- An addition leaves a byte that is not in its slot, and one up to which `delta` has only zero
bytes. -/
lemma addAt_spares {image : Image} {rva a : ℕ}
    (h : rva ≤ a → a < rva + 8 → 256 ^ (a - rva + 1) ∣ delta.toNat) :
    (addAt delta image rva).mem a = image.mem a := by
  rw [addAt]
  by_cases hin : rva ≤ a ∧ a < rva + 8
  · obtain ⟨hlow, hhigh⟩ := hin
    dsimp only
    rw [setWord, if_pos ⟨hlow, hhigh⟩, byte_add (by omega) (h hlow hhigh),
      getWord_byte (by omega), Nat.add_sub_cancel' hlow]
  · exact setWord_of_outside (by omega)

/-! ### Images that are moved exactly -/

/-- From a place in the table on: where a slot that is listed next has a byte among those that are
unread after it is listed, `delta` has only zero bytes up to that byte of the slot. -/
def Spares (delta : UInt64) (image : Image) : Relocations → List ℕ → Prop
  | _, [] => True
  | iter, rva :: rest =>
      ∃ iter', next image iter = .ok (some (rva, iter'))
        ∧ (∀ a, Unread iter' a → rva ≤ a → a < rva + 8 → 256 ^ (a - rva + 1) ∣ delta.toNat)
        ∧ Spares delta image iter' rest

/-- No addition to a slot can reach a byte of the table that is still to be read, whatever the
slot holds. -/
def Spared (image : Image) (delta : UInt64) : Prop :=
  ∀ table listed, Listed image table listed → Spares delta image table.iter listed

/-- Additions that reach nothing unread change nothing that is read. -/
lemma readsOn_of_spares {image' : Image} {listed : List ℕ} (h : Lists image iter listed)
    (hspares : Spares delta image iter listed)
    (hagree : ∀ a, Unread iter a → image'.mem a = image.mem a) :
    ReadsOn delta image' iter listed := by
  induction listed generalizing iter image' with
  | nil => exact (nextFor_congr hagree).trans ((h.nextFor (Nat.lt_succ_self _)).1 rfl)
  | cons rva rest ih =>
      obtain ⟨iter', hnext, hrest, -⟩ := (h.nextFor (Nat.lt_succ_self _)).2 rva rest rfl
      obtain ⟨other, hother, hbytes, hspares'⟩ := hspares
      obtain ⟨-, rfl⟩ := Prod.mk.inj (Option.some.inj (Except.ok.inj (hother.symm.trans hnext)))
      refine ⟨other, (nextFor_congr hagree).trans hnext, ih hrest hspares' fun a ha => ?_⟩
      exact (addAt_spares (hbytes a ha)).trans (hagree a (nextFor_unread hnext ha))

/-- **When moving an image is exact.** For every image and every difference: if no addition to a
slot that the table lists can reach a byte of the table that is still to be read, the image is
refused and left alone, or moved exactly as its table said when the call began. -/
theorem relocate_exact (image : Image) (delta : UInt64) (h : Spared image delta) :
    Exact image delta := by
  refine (exact_iff_undisturbed image delta).mpr fun table listed hlisted => ?_
  obtain ⟨other, hcollect, hlists, -⟩ := listed_inside hlisted.1
  obtain rfl := Except.ok.inj (hlisted.2.symm.trans hcollect)
  exact readsOn_of_spares hlists (h table listed hlisted) fun _ _ => rfl

/-- A PE32+ image whose table, at 0xF8, is one block of page 0 with these two entries. -/
def listing (first second : ℕ) : Image :=
  ⟨0x110, putAll (fun _ => 0)
    [(0x3C, leBytes 4 0x40), (0x40, signature), (0x58, leBytes 2 magicPe32Plus),
      (0xF0, leBytes 4 0xF8 ++ leBytes 4 12),
      (0xF8, leBytes 4 0 ++ leBytes 4 12 ++ leBytes 2 first ++ leBytes 2 second)]⟩

/-- The second entry lists the first, which was read by then, and the first an address outside the
table. -/
theorem relocate_exact_listing : Exact (listing 0xA000 0xA100) 0x6000 := by
  refine relocate_exact (listing 0xA000 0xA100) 0x6000 ?_
  rintro table listed ⟨htable, hlisted⟩
  have htable' : relocations (listing 0xA000 0xA100) = .ok ⟨0xF8, 0x104⟩ := by decide +kernel
  obtain rfl := Except.ok.inj (htable.symm.trans htable')
  have hlisted' : collect (listing 0xA000 0xA100) (Slice.mk 0xF8 0x104).iter
      = .ok [0, 0x100] := by decide +kernel
  obtain rfl := Except.ok.inj (hlisted.symm.trans hlisted')
  refine ⟨⟨⟨0x104, 0x104⟩, ⟨0x102, 0x104⟩, 0⟩, by decide +kernel, fun a ha hlow hhigh => ?_,
    ⟨⟨0x104, 0x104⟩, ⟨0x104, 0x104⟩, 0⟩, by decide +kernel, fun a ha hlow hhigh => ?_, trivial⟩
  · simp only [Unread] at ha
    omega
  · simp only [Unread] at ha
    omega

/-- Adding to the second entry makes it padding, and the address that it listed is not added
to. -/
theorem relocate_not_exact :
    relocations (listing 0xA102 0xA000) = .ok ⟨0xF8, 0x104⟩
      ∧ collect (listing 0xA102 0xA000) (Slice.mk 0xF8 0x104).iter = .ok [0x102, 0]
      ∧ (relocate (listing 0xA102 0xA000) 0x6000).outcome = .moved 1
      ∧ (relocate (listing 0xA102 0xA000) 0x6000).slots = [0x102]
      ∧ ¬ Exact (listing 0xA102 0xA000) 0x6000 := by
  have htable : relocations (listing 0xA102 0xA000) = .ok ⟨0xF8, 0x104⟩ := by decide +kernel
  have hlisted : collect (listing 0xA102 0xA000) (Slice.mk 0xF8 0x104).iter = .ok [0x102, 0] := by
    decide +kernel
  have hmoved : (relocate (listing 0xA102 0xA000) 0x6000).outcome = .moved 1 := by decide +kernel
  refine ⟨htable, hlisted, hmoved, by decide +kernel, fun hexact => ?_⟩
  rw [Exact, hmoved] at hexact
  obtain ⟨table, listed, ⟨htable', hlisted'⟩, hcount, -⟩ := hexact
  obtain rfl := Except.ok.inj (htable.symm.trans htable')
  obtain rfl := Except.ok.inj (hlisted.symm.trans hlisted')
  cases hcount

/-! ### Two kinds of images that are -/

/-- What is listed, is listed one after the other. -/
lemma spares_of_lists {listed : List ℕ} (h : Lists image iter listed)
    (hbytes : ∀ rva ∈ listed, ∀ a, Unread iter a → rva ≤ a → a < rva + 8 →
      256 ^ (a - rva + 1) ∣ delta.toNat) :
    Spares delta image iter listed := by
  induction listed generalizing iter with
  | nil => trivial
  | cons rva rest ih =>
      obtain ⟨iter', hnext, hrest, -⟩ := (h.nextFor (Nat.lt_succ_self _)).2 rva rest rfl
      exact ⟨iter', hnext, fun a ha => hbytes rva List.mem_cons_self a (nextFor_unread hnext ha),
        ih hrest fun other hother a ha => hbytes other (List.mem_cons_of_mem rva hother) a
        (nextFor_unread hnext ha)⟩

/-- An image whose table lists no part of the table is moved exactly, whatever is added. -/
theorem spared_of_apart
    (hapart : ∀ table listed, Listed image table listed →
      ∀ rva ∈ listed, rva + 8 ≤ table.first ∨ table.last ≤ rva) : Spared image delta := by
  intro table listed hlisted
  obtain ⟨other, hcollect, hlists, -⟩ := listed_inside hlisted.1
  obtain rfl := Except.ok.inj (hlisted.2.symm.trans hcollect)
  refine spares_of_lists hlists fun rva hrva a ha hlow hhigh => ?_
  have hslot := hapart table _ hlisted rva hrva
  simp only [Unread, Slice.iter] at ha
  omega

/-- An image that is moved by nothing is left as it is. -/
theorem spared_of_zero : Spared image 0 := by
  intro table listed hlisted
  obtain ⟨other, hcollect, hlists, -⟩ := listed_inside hlisted.1
  obtain rfl := Except.ok.inj (hlisted.2.symm.trans hcollect)
  exact spares_of_lists hlists fun rva _ a _ _ _ => dvd_zero _

end Harlan.HigherHalf
