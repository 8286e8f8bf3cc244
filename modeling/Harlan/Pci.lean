import Mathlib.Tactic
import Harlan.Lib.Chain
import Harlan.Lib.Loops

/-!
The capability list of a PCI function (`hal/src/pci.rs`).

The pointers of the list come from the device, so they may form any graph over the sixty-four
dwords the ports reach. `capabilities` goes along them until one is zero, or until it has reported
`capabilityLimit` entries.

* `ConfigSpace`, `Address`, `Capability`: what is read, where, and what is found there.
* `capabilityTurn`, `capabilities`: one turn of the loop, and what the walk reports.
* `Listed`: the list a function's pointers form.
* `capabilities_reports`: the walk leaves, and of a list that ends it reports every entry once.
-/

namespace Harlan.Pci

open Harlan.Loops

/-! ### Configuration space -/

/-- Where a function is. -/
structure Address where
  bus : UInt8
  device : UInt8
  function : UInt8
deriving DecidableEq

/-- The dword at an offset of a function: reading one changes nothing. -/
abbrev ConfigSpace := Address → UInt8 → UInt32

/-- Bit 4 of the status register, which is the upper half of its dword. -/
def statusCapabilities : UInt32 := (1 : UInt32) <<< (16 + 4)

/-- The command and status words. -/
def statusDword : UInt8 := 0x04
/-- Where the offset of the first capability stands. -/
def capabilityPointer : UInt8 := 0x34
/-- The bits of an offset that count. -/
def capabilityMask : UInt8 := 0xFC
/-- More capabilities than this have no room in the space. -/
def capabilityLimit : ℕ := 48

/-- A capability: what it is, and where. -/
structure Capability where
  id : UInt8
  offset : UInt8
deriving DecidableEq

/-! ### The walk -/

variable (space : ConfigSpace) (at' : Address)

/-- The status register says that the function has a capability list. -/
def hasCapabilities : Bool := space at' statusDword &&& statusCapabilities != 0

/-- Where the first capability is. -/
def firstCapability : UInt8 := (space at' capabilityPointer).toUInt8 &&& capabilityMask

/-- The capability at `offset`. -/
def capabilityAt (offset : UInt8) : Capability := ⟨(space at' offset).toUInt8, offset⟩

/-- The `next` of the capability at an offset. -/
def nextCapability (offset : UInt8) : UInt8 := (space at' offset >>> 8).toUInt8 &&& capabilityMask

/-- What the loop keeps: where it is, how many it has seen, and what it has reported. -/
structure Walk where
  offset : UInt8
  seen : ℕ
  reported : List Capability

/-- One capability of the chain, or its end. -/
def capabilityTurn (walk : Walk) : Turn Walk (List Capability) :=
  if walk.offset ≠ 0 ∧ walk.seen < capabilityLimit then
    .again ⟨nextCapability space at' walk.offset, walk.seen + 1,
      walk.reported ++ [capabilityAt space at' walk.offset]⟩
  else .leave walk.reported

/-- What the walk reports from an offset on, with `left` entries still to go. -/
def capabilitiesFrom : ℕ → UInt8 → List Capability
  | 0, _ => []
  | left + 1, offset =>
      if offset = 0 then []
      else
        capabilityAt space at' offset :: capabilitiesFrom left (nextCapability space at' offset)

/-- What is reported of a function, in order. -/
def capabilities : List Capability :=
  if hasCapabilities space at' then
    capabilitiesFrom space at' capabilityLimit (firstCapability space at')
  else []

variable {space at'}

/-- The loop leaves within as many turns as it may still see entries, and one more. -/
lemma capabilityTurn_leaves (walk : Walk) :
    ∃ turns ≤ capabilityLimit - walk.seen + 1, Leaves (capabilityTurn space at') turns walk
      (walk.reported ++ capabilitiesFrom space at'
        (capabilityLimit - walk.seen) walk.offset) := by
  refine leaves_of_rank (fun _ => True) (fun walk => capabilityLimit - walk.seen)
    (fun walk => walk.reported ++ capabilitiesFrom space at'
      (capabilityLimit - walk.seen) walk.offset)
    ?_ walk trivial
  rintro ⟨offset, seen, reported⟩ -
  by_cases hturn : offset ≠ 0 ∧ seen < capabilityLimit
  · obtain ⟨hoffset, hseen⟩ := hturn
    rw [capabilityTurn, if_pos ⟨hoffset, hseen⟩]
    obtain ⟨left, hleft⟩ : ∃ left, capabilityLimit - seen = left + 1 :=
      ⟨capabilityLimit - seen - 1, by omega⟩
    have hless : capabilityLimit - (seen + 1) = left := by omega
    refine ⟨trivial, by dsimp only; omega, ?_⟩
    dsimp only
    rw [hleft, hless, capabilitiesFrom, if_neg hoffset, List.append_assoc, List.singleton_append]
  · rw [capabilityTurn, if_neg hturn]
    obtain hoffset | hseen : offset = 0 ∨ capabilityLimit ≤ seen := by
      by_contra! h
      exact hturn h
    · dsimp only
      rw [hoffset]
      cases capabilityLimit - seen <;> simp [capabilitiesFrom]
    · dsimp only
      rw [Nat.sub_eq_zero_of_le hseen, capabilitiesFrom, List.append_nil]

/-! ### The list the pointers form -/

variable (space at')

/-- The capability after one, where there is one. -/
def link (offset : UInt8) : Option UInt8 :=
  if nextCapability space at' offset = 0 then none else some (nextCapability space at' offset)

/-- The offsets a function's pointers lead through, from the first to one whose `next` is zero;
none where its status says that it has no list. -/
def Listed (offsets : List UInt8) : Prop :=
  if hasCapabilities space at' ∧ firstCapability space at' ≠ 0 then
    Chain (link space at') (nextCapability space at' · = 0) (firstCapability space at') offsets
  else offsets = []

variable {space at'} {offsets : List UInt8}

lemma link_none (offset : UInt8) (h : nextCapability space at' offset = 0) :
    link space at' offset = none :=
  if_pos h

lemma link_some {offset next : UInt8} (h : link space at' offset = some next) :
    nextCapability space at' offset = next ∧ next ≠ 0 := by
  rw [link] at h
  split at h
  · cases h
  · rename_i hne
    obtain rfl := Option.some.inj h
    exact ⟨rfl, hne⟩

lemma Listed.nodup (h : Listed space at' offsets) : offsets.Nodup := by
  rw [Listed] at h
  split at h
  · exact Chain.nodup link_none h
  · rw [h]
    exact List.nodup_nil

/-- A walk that may see enough reports a whole chain. -/
lemma capabilitiesFrom_chain {offset : UInt8}
    (h : Chain (link space at') (nextCapability space at' · = 0) offset offsets)
    (hoffset : offset ≠ 0) {left : ℕ} (hleft : offsets.length ≤ left) :
    capabilitiesFrom space at' left offset = offsets.map (capabilityAt space at') := by
  induction h generalizing left with
  | @single offset hlast =>
      obtain _ | left := left
      · simp at hleft
      · rw [capabilitiesFrom, if_neg hoffset, hlast]
        cases left <;> simp [capabilitiesFrom]
  | @cons offset next rest hnext _ ih =>
      obtain _ | left := left
      · simp at hleft
      · obtain ⟨hnext, hne⟩ := link_some hnext
        rw [capabilitiesFrom, if_neg hoffset, hnext, ih hne (by simpa using hleft), List.map_cons]

/-! ### The limit is enough -/

lemma mask_mod_four (byte : UInt8) : (byte &&& capabilityMask).toNat % 4 = 0 := by
  have hlow : capabilityMask.toNat &&& 2 ^ 2 - 1 = 0 := by decide
  rw [UInt8.toNat_and, ← Nat.and_two_pow_sub_one_eq_mod _ 2, Nat.and_assoc, hlow, Nat.and_zero]

/-- Where an offset of a list comes from, it has been masked. -/
lemma chain_mod_four {offset : UInt8} (hoffset : offset.toNat % 4 = 0)
    (h : Chain (link space at') (nextCapability space at' · = 0) offset offsets) :
    ∀ o ∈ offsets, o.toNat % 4 = 0 := by
  induction h with
  | single =>
      intro o ho
      rwa [List.mem_singleton.mp ho]
  | cons hnext _ ih =>
      intro o ho
      obtain rfl | ho := List.mem_cons.mp ho
      · exact hoffset
      · exact ih (by rw [← (link_some hnext).1]; exact mask_mod_four _) o ho

/-- Above the header there are as many dwords as the limit has entries. -/
lemma length_le_limit (hnodup : offsets.Nodup) (hdword : ∀ o ∈ offsets, o.toNat % 4 = 0)
    (habove : ∀ o ∈ offsets, 0x40 ≤ o) : offsets.length ≤ capabilityLimit := by
  have hplaces : (offsets.map fun o => o.toNat / 4).Nodup := by
    refine hnodup.map_on fun o ho o' ho' hsame => UInt8.toNat_inj.mp ?_
    have := hdword o ho
    have := hdword o' ho'
    omega
  have hinside : (offsets.map fun o => o.toNat / 4) ⊆ List.range' 16 48 := by
    intro place hplace
    obtain ⟨o, ho, rfl⟩ := List.mem_map.mp hplace
    have hlow : 0x40 ≤ o.toNat := UInt8.le_iff_toNat_le.mp (habove o ho)
    have hhigh := o.toNat_lt
    rw [List.mem_range'_1]
    omega
  calc offsets.length
      = (offsets.map fun o => o.toNat / 4).length := (List.length_map _).symm
    _ ≤ (List.range' 16 48).length := (List.subperm_of_subset hplaces hinside).length_le
    _ = capabilityLimit := List.length_range'

lemma Listed.length_le (h : Listed space at' offsets) (habove : ∀ o ∈ offsets, 0x40 ≤ o) :
    offsets.length ≤ capabilityLimit := by
  refine length_le_limit h.nodup ?_ habove
  rw [Listed] at h
  split at h
  · exact chain_mod_four (mask_mod_four _) h
  · simp [h]

/-- **The capability walk is bounded and loses nothing**: whatever a device's pointers are, the
loop leaves after at most `capabilityLimit` entries; and where they form a list that ends, with
every offset above the header, each entry is reported once, in order, with its own id and
offset. -/
theorem capabilities_reports (space : ConfigSpace) (at' : Address) :
    (∃ turns ≤ capabilityLimit + 1, ∃ reported,
      Leaves (capabilityTurn space at') turns ⟨firstCapability space at', 0, []⟩ reported
        ∧ capabilities space at' = if hasCapabilities space at' then reported else [])
      ∧ ∀ offsets, Listed space at' offsets → (∀ o ∈ offsets, 0x40 ≤ o) →
          capabilities space at' = offsets.map (capabilityAt space at') ∧ offsets.Nodup := by
  obtain ⟨turns, hturns, hleaves⟩ :=
    @capabilityTurn_leaves space at' ⟨firstCapability space at', 0, []⟩
  refine ⟨⟨turns, hturns, _, hleaves, rfl⟩, fun offsets h habove => ⟨?_, h.nodup⟩⟩
  have hlength := h.length_le habove
  rw [Listed] at h
  rw [capabilities]
  split at h
  · rename_i hhas
    rw [if_pos hhas.1, capabilitiesFrom_chain h hhas.2 hlength]
  · rename_i hhas
    rw [h]
    split
    · rename_i hlist
      have hzero : firstCapability space at' = 0 := by
        by_contra hne
        exact hhas ⟨hlist, hne⟩
      rw [hzero, capabilityLimit, capabilitiesFrom, if_pos rfl, List.map_nil]
    · rfl

/-- A function with two capabilities: one at `0x50`, and the last of the 256 bytes' dwords after
it. -/
def twoCapabilities : ConfigSpace := fun _ offset =>
  if offset = statusDword then statusCapabilities
  else if offset = capabilityPointer then 0x50
  else if offset = 0x50 then 0xFC09
  else 0x0011

lemma twoCapabilities_listed : Listed twoCapabilities ⟨0, 3, 0⟩ [0x50, 0xFC] := by
  rw [Listed, if_pos (by decide)]
  exact .cons (b := 0xFC) (by decide) (.single (by decide))

theorem twoCapabilities_reports :
    capabilities twoCapabilities ⟨0, 3, 0⟩ = [⟨0x09, 0x50⟩, ⟨0x11, 0xFC⟩] :=
  ((capabilities_reports twoCapabilities ⟨0, 3, 0⟩).2 _ twoCapabilities_listed (by simp)).1

end Harlan.Pci
