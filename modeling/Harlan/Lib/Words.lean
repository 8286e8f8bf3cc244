import Mathlib.Tactic

/-!
Little-endian words, and runs of bytes, in a memory of bytes.

* `getWord_setWord`: a word written is read back, cut to its width.
* `getWord_congr`, `setWord_of_outside`: a word depends on its own bytes, and writing one changes
  no other.
* `putBytes`, `getBytes`: the same for a list of bytes; `getWord_leBytes` reads a number from its
  bytes.
* `flatten_getD`: where a field is among fields that follow one another.
* `putAll`: several runs of bytes, in order; `putAll_strided` reads one of a row of them.
-/

/-- A memory: a byte at every address. -/
abbrev ByteMemory := ℕ → UInt8

/-- `width` bytes from `addr` on as a number, the first the least. -/
def getWord (mem : ByteMemory) (addr : ℕ) : ℕ → ℕ
  | 0 => 0
  | width + 1 => (mem addr).toNat + 256 * getWord mem (addr + 1) width

/-- The memory with `value` in the `width` bytes from `addr` on. -/
def setWord (mem : ByteMemory) (addr value width : ℕ) : ByteMemory := fun a =>
  if addr ≤ a ∧ a < addr + width then UInt8.ofNat (value / 256 ^ (a - addr)) else mem a

lemma setWord_of_outside {mem : ByteMemory} {addr value width a : ℕ}
    (h : a < addr ∨ addr + width ≤ a) :
    setWord mem addr value width a = mem a := if_neg (by omega)

lemma getWord_congr {mem mem' : ByteMemory} {addr width : ℕ}
    (h : ∀ a, addr ≤ a → a < addr + width → mem' a = mem a) :
    getWord mem' addr width = getWord mem addr width := by
  induction width generalizing addr with
  | zero => rfl
  | succ width ih =>
      rw [getWord, getWord, h addr (le_refl _) (by omega), ih fun a hlow hhigh => ?_]
      exact h a (by omega) (by omega)

/-- A word is the number whose digits its bytes are. -/
lemma getWord_eq {mem : ByteMemory} {addr value width : ℕ}
    (h : ∀ i < width, (mem (addr + i)).toNat = value / 256 ^ i % 256) :
    getWord mem addr width = value % 256 ^ width := by
  induction width generalizing addr value with
  | zero => simp [getWord, Nat.mod_one]
  | succ width ih =>
      have hfirst := h 0 (by omega)
      have hrest : getWord mem (addr + 1) width = value / 256 % 256 ^ width := by
        refine ih fun i hi => ?_
        rw [add_assoc, add_comm 1, h (i + 1) (by omega), pow_succ', Nat.div_div_eq_div_mul]
      rw [Nat.add_zero, pow_zero, Nat.div_one] at hfirst
      rw [getWord, hfirst, hrest, pow_succ', Nat.mod_mul]

lemma getWord_lt (mem : ByteMemory) (addr width : ℕ) : getWord mem addr width < 256 ^ width := by
  induction width generalizing addr with
  | zero => exact Nat.one_pos
  | succ width ih =>
      have hbyte := (mem addr).toNat_lt
      have hrest := ih (addr + 1)
      rw [getWord, Nat.pow_succ]
      omega

lemma getWord_setWord (mem : ByteMemory) (addr value width : ℕ) :
    getWord (setWord mem addr value width) addr width = value % 256 ^ width := by
  refine getWord_eq fun i hi => ?_
  rw [setWord, if_pos ⟨by omega, by omega⟩, Nat.add_sub_cancel_left]
  simp

/-- Writing a word changes no other. -/
lemma getWord_setWord_apart {mem : ByteMemory} {addr width addr' value width' : ℕ}
    (h : addr + width ≤ addr' ∨ addr' + width' ≤ addr) :
    getWord (setWord mem addr' value width') addr width = getWord mem addr width :=
  getWord_congr fun _ hlow hhigh => setWord_of_outside (by omega)

/-- A byte of a word. -/
lemma getWord_byte {mem : ByteMemory} {addr width k : ℕ} (hk : k < width) :
    UInt8.ofNat (getWord mem addr width / 256 ^ k) = mem (addr + k) := by
  induction k generalizing addr width with
  | zero =>
      obtain ⟨width, rfl⟩ := Nat.exists_eq_add_of_le' hk
      rw [getWord, pow_zero, Nat.div_one, Nat.add_zero addr]
      refine UInt8.toNat_inj.mp ?_
      have hlt := (mem addr).toNat_lt
      rw [UInt8.toNat_ofNat']
      omega
  | succ k ih =>
      obtain ⟨width, rfl⟩ := Nat.exists_eq_add_of_le' (Nat.lt_of_le_of_lt (Nat.zero_le _) hk)
      have hlt := (mem addr).toNat_lt
      have hrest : ((mem addr).toNat + 256 * getWord mem (addr + 1) width) / 256
          = getWord mem (addr + 1) width := by omega
      rw [getWord, pow_succ', ← Nat.div_div_eq_div_mul, hrest, ih (by omega),
        add_assoc, add_comm 1]

/-- A word is the one its first bytes make, and above it the one the rest make. -/
lemma getWord_add (mem : ByteMemory) (addr m n : ℕ) :
    getWord mem addr (m + n) = getWord mem addr m + 256 ^ m * getWord mem (addr + m) n := by
  induction m generalizing addr with
  | zero => simp [getWord]
  | succ m ih =>
      have hadd : addr + 1 + m = addr + (m + 1) := by omega
      rw [Nat.add_right_comm m 1 n, getWord, getWord, ih (addr + 1), hadd]
      ring

/-! ### Runs of bytes -/

/-- The memory with `bytes` from `addr` on. -/
def putBytes (mem : ByteMemory) (addr : ℕ) (bytes : List UInt8) : ByteMemory := fun a =>
  if addr ≤ a ∧ a < addr + bytes.length then bytes.getD (a - addr) 0 else mem a

/-- `len` bytes from `addr` on. -/
def getBytes (mem : ByteMemory) (addr len : ℕ) : List UInt8 :=
  (List.range len).map fun i => mem (addr + i)

/-- The bytes of a number, the least first. -/
def leBytes (width value : ℕ) : List UInt8 :=
  (List.range width).map fun i => UInt8.ofNat (value / 256 ^ i)

@[simp] lemma length_leBytes (width value : ℕ) : (leBytes width value).length = width := by
  simp [leBytes]

@[simp] lemma length_getBytes (mem : ByteMemory) (addr len : ℕ) :
    (getBytes mem addr len).length = len := by
  simp [getBytes]

lemma putBytes_of_outside {mem : ByteMemory} {addr a : ℕ} {bytes : List UInt8}
    (h : a < addr ∨ addr + bytes.length ≤ a) : putBytes mem addr bytes a = mem a :=
  if_neg (by omega)

lemma putBytes_add {mem : ByteMemory} {addr i : ℕ} {bytes : List UInt8} (h : i < bytes.length) :
    putBytes mem addr bytes (addr + i) = bytes.getD i 0 := by
  rw [putBytes, if_pos ⟨by omega, by omega⟩, Nat.add_sub_cancel_left]

lemma putBytes_single (mem : ByteMemory) (addr : ℕ) (byte : UInt8) :
    putBytes mem addr [byte] addr = byte := by
  rw [putBytes, if_pos ⟨le_refl _, Nat.lt_succ_self _⟩, Nat.sub_self]
  rfl

/-- Bytes that are where a list says are that list. -/
lemma getBytes_eq {mem : ByteMemory} {addr : ℕ} {bytes : List UInt8}
    (h : ∀ i < bytes.length, mem (addr + i) = bytes.getD i 0) :
    getBytes mem addr bytes.length = bytes := by
  refine List.ext_getElem (length_getBytes _ _ _) fun i hi hi' => ?_
  simp only [getBytes, List.getElem_map, List.getElem_range]
  rw [h i hi', List.getD_eq_getElem?_getD, List.getElem?_eq_getElem hi', Option.getD_some]

lemma getBytes_add (mem : ByteMemory) (addr m n : ℕ) :
    getBytes mem addr (m + n) = getBytes mem addr m ++ getBytes mem (addr + m) n := by
  simp only [getBytes, List.range_add, List.map_append, List.map_map, Function.comp_def,
    Nat.add_assoc]

lemma take_getBytes (mem : ByteMemory) (addr : ℕ) {m n : ℕ} (h : m ≤ n) :
    (getBytes mem addr n).take m = getBytes mem addr m := by
  rw [getBytes, ← List.map_take, List.take_range, Nat.min_eq_left h, getBytes]

lemma ofFn_eq_getBytes (mem : ByteMemory) (addr len : ℕ) :
    (List.ofFn fun i : Fin len => mem (addr + i)) = getBytes mem addr len := by
  refine List.ext_getElem (by simp) fun i hi hi' => ?_
  simp [getBytes]

/-- The number whose bytes are in memory. -/
lemma getWord_leBytes {mem : ByteMemory} {addr width value : ℕ}
    (h : ∀ i < width, mem (addr + i) = (leBytes width value).getD i 0) :
    getWord mem addr width = value % 256 ^ width := by
  refine getWord_eq fun i hi => ?_
  rw [h i hi, List.getD_eq_getElem?_getD, List.getElem?_eq_getElem (by simpa using hi)]
  simp [leBytes]

/-! ### Bytes one after the other -/

lemma getD_append_here {first rest : List UInt8} {i : ℕ} (h : i < first.length) :
    (first ++ rest).getD i 0 = first.getD i 0 := by
  simp [List.getD_eq_getElem?_getD, List.getElem?_append_left h]

lemma getD_append_skip {first rest : List UInt8} {n i : ℕ} (h : first.length = n) :
    (first ++ rest).getD (n + i) 0 = rest.getD i 0 := by
  rw [List.getD_eq_getElem?_getD, List.getElem?_append_right (by omega), h,
    Nat.add_sub_cancel_left, List.getD_eq_getElem?_getD]

/-- Where a field is among fields that follow one another. -/
lemma flatten_getD {fields : List (List UInt8)} {field : List UInt8} {k i offset : ℕ}
    (hk : fields[k]? = some field) (hoffset : ((fields.take k).map List.length).sum = offset)
    (hi : i < field.length) : fields.flatten.getD (offset + i) 0 = field.getD i 0 := by
  induction fields generalizing k offset with
  | nil => simp at hk
  | cons first rest ih =>
      rw [List.flatten_cons]
      obtain _ | k := k
      · obtain rfl : first = field := by simpa using hk
        obtain rfl : 0 = offset := by simpa using hoffset
        rw [Nat.zero_add, getD_append_here hi]
      · rw [List.take_succ_cons, List.map_cons, List.sum_cons] at hoffset
        rw [← hoffset, Nat.add_assoc, getD_append_skip rfl]
        exact ih (by simpa using hk) rfl

/-! ### Several runs of bytes -/

/-- The memory with several runs of bytes, each where it says, the later over the earlier. -/
def putAll (mem : ByteMemory) (pieces : List (ℕ × List UInt8)) : ByteMemory :=
  pieces.foldl (fun mem piece => putBytes mem piece.1 piece.2) mem

/-- The runs lie between two addresses. -/
def Within (lo hi : ℕ) (pieces : List (ℕ × List UInt8)) : Prop :=
  ∀ piece ∈ pieces, lo ≤ piece.1 ∧ piece.1 + piece.2.length ≤ hi

section PutAll

variable {mem : ByteMemory} {pieces : List (ℕ × List UInt8)} {lo hi a : ℕ}

lemma putAll_append (mem : ByteMemory) (pieces pieces' : List (ℕ × List UInt8)) :
    putAll mem (pieces ++ pieces') = putAll (putAll mem pieces) pieces' := List.foldl_append

/-- A byte depends on that byte before. -/
lemma putAll_congr {mem' : ByteMemory} (h : mem' a = mem a) :
    putAll mem' pieces a = putAll mem pieces a := by
  induction pieces generalizing mem mem' with
  | nil => exact h
  | cons piece rest ih =>
      refine ih ?_
      simp only [putBytes, h]

lemma putAll_outside (h : Within lo hi pieces) (ha : a < lo ∨ hi ≤ a) :
    putAll mem pieces a = mem a := by
  induction pieces generalizing mem with
  | nil => rfl
  | cons piece rest ih =>
      obtain ⟨hlow, hhigh⟩ := h piece List.mem_cons_self
      rw [putAll, List.foldl_cons, ← putAll,
        ih fun other hother => h other (List.mem_cons_of_mem _ hother)]
      exact putBytes_of_outside (by omega)

/-- Where none of several groups of runs has an address, nothing changes there. -/
lemma putAll_flatMap_outside {α : Type*} {items : List α} {f : α → List (ℕ × List UInt8)}
    (hout : ∀ item ∈ items, ∃ lo hi, Within lo hi (f item) ∧ (a < lo ∨ hi ≤ a)) :
    putAll mem (items.flatMap f) a = mem a := by
  induction items generalizing mem with
  | nil => rfl
  | cons item rest ih =>
      obtain ⟨lo, hi, hwithin, ha⟩ := hout item List.mem_cons_self
      rw [List.flatMap_cons, putAll_append, ih fun x hx => hout x (List.mem_cons_of_mem _ hx)]
      exact putAll_outside hwithin ha

/-- Where only one of several groups of runs has an address, that group decides. -/
lemma putAll_flatMap {α : Type*} {items before after : List α} {item : α}
    {f : α → List (ℕ × List UInt8)} (hitems : items = before ++ item :: after)
    (hout : ∀ other ∈ before ++ after, ∃ lo hi, Within lo hi (f other) ∧ (a < lo ∨ hi ≤ a)) :
    putAll mem (items.flatMap f) a = putAll mem (f item) a := by
  rw [hitems, List.flatMap_append, List.flatMap_cons, putAll_append, putAll_append,
    putAll_flatMap_outside fun other hother => hout other (List.mem_append_right _ hother)]
  exact putAll_congr (putAll_flatMap_outside fun other hother =>
    hout other (List.mem_append_left _ hother))

/-- Runs of one width, by their number in a row: where there is none, nothing changes. -/
lemma putAll_strided_of_notMem {items : List (ℕ × List UInt8)} {start width k i : ℕ}
    (hwidth : ∀ item ∈ items, item.2.length = width) (hk : k ∉ items.map Prod.fst)
    (hi : i < width) :
    putAll mem (items.map fun item => (start + item.1 * width, item.2)) (start + k * width + i)
      = mem (start + k * width + i) := by
  induction items generalizing mem with
  | nil => rfl
  | cons item rest ih =>
      rw [List.map_cons, List.mem_cons, not_or] at hk
      rw [List.map_cons, putAll, List.foldl_cons, ← putAll,
        ih (fun other hother => hwidth other (List.mem_cons_of_mem _ hother)) hk.2]
      refine putBytes_of_outside ?_
      dsimp only
      rw [hwidth item List.mem_cons_self]
      rcases Nat.lt_or_gt_of_ne hk.1 with hlt | hgt
      · have hmul := Nat.mul_le_mul_right width (Nat.succ_le_of_lt hlt)
        rw [Nat.succ_mul] at hmul
        omega
      · have hmul := Nat.mul_le_mul_right width (Nat.succ_le_of_lt hgt)
        rw [Nat.succ_mul] at hmul
        omega

/-- Where there is one, it is there. -/
lemma putAll_strided {items : List (ℕ × List UInt8)} {bytes : List UInt8} {start width k i : ℕ}
    (hkeyed : (items.map Prod.fst).Nodup) (hwidth : ∀ item ∈ items, item.2.length = width)
    (hmem : (k, bytes) ∈ items) (hi : i < width) :
    putAll mem (items.map fun item => (start + item.1 * width, item.2)) (start + k * width + i)
      = bytes.getD i 0 := by
  induction items generalizing mem with
  | nil => cases hmem
  | cons item rest ih =>
      obtain ⟨hnew, hrest⟩ := List.nodup_cons.mp hkeyed
      have hwidths := fun other hother => hwidth other (List.mem_cons_of_mem item hother)
      rw [List.map_cons, putAll, List.foldl_cons, ← putAll]
      rcases List.mem_cons.mp hmem with rfl | hmem
      · rw [putAll_strided_of_notMem hwidths hnew hi]
        exact putBytes_add (by rw [hwidth _ List.mem_cons_self]; exact hi)
      · exact ih hrest hwidths hmem

end PutAll
