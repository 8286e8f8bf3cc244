import Mathlib.Tactic
import Harlan.Fat.WriteFile

/-!
Reading a file in pieces, on any disk.

Nothing is assumed of the table: a chain may run into itself, or into another. What `read_file`
answers it has read along some path of clusters, and `read_at` goes along the same one.

* `readFileFrom_path`: the path `read_file` went along.
* `readAt_agrees`: `read_at` answers the part of it that was asked for; `readPieces_returns`: so
  pieces that follow one another make up the file.
* `readAt_length`: `read_at` fills no more than the buffer it is given.
-/

namespace Harlan.Fat

open Eff

variable {boot : BootSector} {dev : Device}

/-! ### The path that was read -/

lemma nextOfFile_error {cluster : ℕ} (hcluster : boot.hasCluster cluster = true)
    (h : nextLink (entryOf boot dev.disk) cluster = none) :
    nextOfFile boot cluster dev
      = (.error (.brokenChain cluster (entryOf boot dev.disk cluster)), dev) := by
  rw [nextOfFile, bind_ok (nextCluster_returns hcluster)]
  cases hentry : entryOf boot dev.disk cluster with
  | next next =>
      rw [nextLink_eq_some.mpr hentry] at h
      cases h
  | free => rfl
  | reserved => rfl
  | bad => rfl
  | end' => rfl

/-- One turn of the loop of `read_file`, where it answers: the cluster is the last it needs, or
there is one after it and the loop answers from there. -/
lemma readFileFrom_turn {size left cluster : ℕ} {read bytes : List UInt8}
    (hmore : read.length < size)
    (h : (readFileFrom boot size left cluster read dev).1 = .ok bytes) :
    boot.hasCluster cluster = true
      ∧ (size ≤ read.length + 512 * boot.sectorsPerCluster
        ∨ ∃ left' next, left = left' + 1 ∧ nextLink (entryOf boot dev.disk) cluster = some next
          ∧ (read ++ clusterData boot dev.disk cluster).length < size
          ∧ (readFileFrom boot size left' next (read ++ clusterData boot dev.disk cluster) dev).1
            = .ok bytes) := by
  rw [readFileFrom, if_pos hmore] at h
  cases hcluster : boot.hasCluster cluster with
  | false =>
      rw [BootSector.sectorOfCluster, if_neg (by rw [hcluster]; decide)] at h
      cases h
  | true =>
      rw [sectorOfCluster_eq hcluster] at h
      dsimp only at h
      rw [bind_ok (readSectors_returns _ hmore.le), sectorsData_cluster] at h
      have hlength : (read ++ clusterData boot dev.disk cluster).length
          = read.length + 512 * boot.sectorsPerCluster := by
        rw [List.length_append, length_clusterData]
      refine ⟨rfl, ?_⟩
      by_cases hfull : size ≤ read.length + 512 * boot.sectorsPerCluster
      · exact .inl hfull
      · rw [List.take_of_length_le (by omega), if_neg (by omega)] at h
        cases left with
        | zero => cases h
        | succ left =>
            cases hnext : nextLink (entryOf boot dev.disk) cluster with
            | none =>
                dsimp only at h
                rw [bind_apply, nextOfFile_error hcluster hnext] at h
                cases h
            | some next =>
                dsimp only at h
                rw [bind_ok (nextOfFile_returns hcluster hnext)] at h
                exact .inr ⟨left, next, rfl, rfl, by omega, h⟩

/-- Where the loop of `read_file` answers, it has gone along clusters that hold what it was to
read. -/
lemma readFileFrom_path {size left cluster : ℕ} {read bytes : List UInt8}
    (hmore : read.length < size)
    (h : (readFileFrom boot size left cluster read dev).1 = .ok bytes) :
    ∃ clusters, IsPath boot (entryOf boot dev.disk) cluster clusters ∧ clusters.length ≤ left + 1
      ∧ size ≤ read.length + clusters.length * (512 * boot.sectorsPerCluster) := by
  induction left generalizing cluster read with
  | zero =>
      obtain ⟨hcluster, hlast | ⟨left', next, hleft, -⟩⟩ := readFileFrom_turn hmore h
      · exact ⟨[cluster], .single hcluster, le_refl _,
          by rwa [List.length_singleton, Nat.one_mul]⟩
      · cases hleft
  | succ left ih =>
      obtain ⟨hcluster, hlast | ⟨left', next, hleft, hnext, hmore', hrest⟩⟩ :=
        readFileFrom_turn hmore h
      · exact ⟨[cluster], .single hcluster, by simp, by rwa [List.length_singleton, Nat.one_mul]⟩
      · obtain rfl : left = left' := Nat.succ.inj hleft
        obtain ⟨clusters, hpath, hlength, hsize⟩ := ih hmore' hrest
        rw [List.length_append, length_clusterData] at hsize
        refine ⟨cluster :: clusters, .cons hcluster hnext hpath, Nat.succ_le_succ hlength, ?_⟩
        rw [List.length_cons, Nat.succ_mul]
        omega

/-! ### Reading part of it -/

/-- What `read_file` answers has the length its entry says, and `read_at` answers parts of it. -/
lemma readAt_of_readFile (hboot : boot.WellFormed) {entry : DirectoryEntry} {room : ℕ}
    {bytes : List UInt8} (h : (readFile boot entry room dev).1 = .ok bytes) :
    bytes.length = entry.size ∧ ∀ offset len,
      Returns (readAt boot entry offset len) dev ((bytes.drop offset).take len) := by
  have hroom : entry.size ≤ room := by
    by_contra hsmall
    rw [readFile, if_pos (by omega)] at h
    cases h
  by_cases hempty : entry.size = 0
  · have hbytes : bytes = [] := by
      rw [readFile, if_neg (by omega), readFileFrom, if_neg (by simp [hempty])] at h
      exact (Except.ok.inj h).symm
    subst hbytes
    refine ⟨hempty.symm, fun offset len => ?_⟩
    rw [readAt, if_pos (by omega), List.drop_nil, List.take_nil]
    exact .pure
  · have hfrom : (readFileFrom boot entry.size boot.clusters entry.firstCluster [] dev).1
        = .ok bytes := by
      rwa [readFile, if_neg (by omega)] at h
    obtain ⟨clusters, hpath, hlength, hsize⟩ :=
      readFileFrom_path (Nat.pos_of_ne_zero hempty) hfrom
    rw [List.length_nil, Nat.zero_add] at hsize
    have hbytes : bytes = (chainData boot dev.disk clusters).take entry.size := by
      rw [readFile_path hpath hsize hlength hroom] at h
      exact (Except.ok.inj h).symm
    subst hbytes
    refine ⟨?_, fun offset len => readAt_path hboot hpath hsize hlength offset len⟩
    rw [List.length_take, chainData, List.length_flatMap]
    simp only [length_clusterData, List.map_const', List.sum_replicate, smul_eq_mul]
    omega

/-- Reads pieces of some lengths, each from where the last one stopped. -/
def readPieces (boot : BootSector) (entry : DirectoryEntry) : ℕ → List ℕ → Reading (List UInt8)
  | _, [] => pure []
  | offset, len :: rest => do
      let piece ← readAt boot entry offset len
      let more ← readPieces boot entry (offset + piece.length) rest
      pure (piece ++ more)

lemma readPieces_returns {entry : DirectoryEntry} {bytes : List UInt8}
    (h : ∀ offset len, Returns (readAt boot entry offset len) dev ((bytes.drop offset).take len))
    (offset : ℕ) (lens : List ℕ) :
    Returns (readPieces boot entry offset lens) dev ((bytes.drop offset).take lens.sum) := by
  induction lens generalizing offset with
  | nil =>
      rw [List.sum_nil, List.take_zero]
      exact .pure
  | cons len rest ih =>
      rw [readPieces]
      refine (h offset len).bind ((ih _).bind ?_)
      have hrest : (bytes.drop (offset + ((bytes.drop offset).take len).length)).take rest.sum
          = ((bytes.drop offset).drop len).take rest.sum := by
        rw [List.drop_drop, List.length_take, List.length_drop]
        rcases Nat.le_total len (bytes.length - offset) with hle | hge
        · rw [Nat.min_eq_left hle]
        · -- past the end there is nothing left either way
          rw [Nat.min_eq_right hge, List.drop_of_length_le (by omega),
            List.drop_of_length_le (by omega)]
      rw [hrest, List.sum_cons, List.take_add]
      exact .pure

/-- **`read_at` agrees with `read_file`.** Whatever the table and the disk hold, for an entry that
`read_file` answers to a caller with room enough: `read_at` answers, from any offset and for a
buffer of any length, as many bytes as the buffer and what is left of the file have, and they are
those of the file from the offset on. So pieces of any lengths that follow one another are the
file, as far as they go. -/
theorem readAt_agrees {sector : Sector} (hparse : BootSector.parse sector = .ok boot)
    {entry : DirectoryEntry} {room : ℕ} {bytes : List UInt8}
    (h : (readFile boot entry room dev).1 = .ok bytes) :
    (∀ offset len, ∃ read, readAt boot entry offset len dev = (.ok read, dev)
        ∧ read.length = min len (entry.size - offset)
        ∧ read = (bytes.drop offset).take (min len (entry.size - offset)))
      ∧ ∀ lens : List ℕ, readPieces boot entry 0 lens dev = (.ok (bytes.take lens.sum), dev)
          ∧ (entry.size ≤ lens.sum → bytes.take lens.sum = bytes) := by
  obtain ⟨hlength, hreads⟩ := readAt_of_readFile (BootSector.parse_wellFormed hparse) h
  refine ⟨fun offset len => ⟨_, hreads offset len, ?_, ?_⟩, fun lens => ⟨?_, fun hall => ?_⟩⟩
  · rw [List.length_take, List.length_drop, hlength]
  · rw [Nat.min_comm, ← List.take_take, ← hlength, ← List.length_drop]
    exact (List.take_of_length_le (List.length_take_le' _ _)).symm
  · have hpieces := readPieces_returns hreads 0 lens
    rwa [List.drop_zero] at hpieces
  · exact List.take_of_length_le (by omega)

/-- Three bytes of cluster 2 of an empty volume, and the last two of them. -/
theorem readAt_agrees_emptyDisk :
    BootSector.parse (emptyDisk 0) = .ok emptyBoot
      ∧ (readFile emptyBoot ⟨[0x41], 0x20, 2, 3⟩ 3 ⟨emptyDisk, 0⟩).1 = .ok [0, 0, 0]
      ∧ ∃ read, readAt emptyBoot ⟨[0x41], 0x20, 2, 3⟩ 1 8 ⟨emptyDisk, 0⟩
        = (.ok read, ⟨emptyDisk, 0⟩)
        ∧ read.length = 2 := by
  have hfile : (readFile emptyBoot ⟨[0x41], 0x20, 2, 3⟩ 3 ⟨emptyDisk, 0⟩).1 = .ok [0, 0, 0] := by
    decide +kernel
  obtain ⟨read, hread, hlength, -⟩ := (readAt_agrees parse_emptyDisk hfile).1 1 8
  exact ⟨parse_emptyDisk, hfile, read, hread, hlength⟩

/-! ### How much is read -/

lemma readSectorsAt_length {want : ℕ} {sectors : List ℕ} {within : ℕ} {read : List UInt8}
    (h : read.length ≤ want) :
    Triple (fun _ => True) (readSectorsAt want sectors within read)
      (fun bytes _ => bytes.length ≤ want) fun _ _ => True := by
  induction sectors generalizing within read with
  | nil => exact Triple.pure fun _ _ => h
  | cons sector rest ih =>
      rw [readSectorsAt]
      split
      · refine Triple.bind (Q := fun _ _ => True) (fun _ _ => trivial) fun bytes => ih ?_
        rw [List.length_append, List.length_take]
        omega
      · exact Triple.pure fun _ _ => h

lemma readAtFrom_length {want left cluster inside : ℕ} {read : List UInt8}
    (h : read.length ≤ want) :
    Triple (fun _ => True) (readAtFrom boot want left cluster inside read)
      (fun bytes _ => bytes.length ≤ want) fun _ _ => True := by
  induction left generalizing cluster inside read with
  | zero =>
      rw [readAtFrom]
      split
      · split
        · exact Triple.fail fun _ _ => trivial
        · refine (readSectorsAt_length h).bind fun bytes => ?_
          split
          · exact Triple.pure fun _ hlength => hlength
          · exact Triple.fail fun _ _ => trivial
      · exact Triple.pure fun _ _ => h
  | succ left ih =>
      rw [readAtFrom]
      split
      · split
        · exact Triple.fail fun _ _ => trivial
        · refine (readSectorsAt_length h).bind fun bytes => ?_
          split
          · exact Triple.pure fun _ hlength => hlength
          · refine Triple.ofState fun dev hlength => ?_
            refine Triple.bind (Q := fun _ _ => True) ?_ fun next => ih hlength
            exact fun s _ => by split <;> trivial
      · exact Triple.pure fun _ _ => h

/-- `read_at` never answers more than there is room for, whatever is on the disk. -/
lemma readAt_length {entry : DirectoryEntry} {offset room : ℕ} :
    Triple (fun _ => True) (readAt boot entry offset room) (fun bytes _ => bytes.length ≤ room)
      fun _ _ => True := by
  rw [readAt]
  split
  · exact Triple.pure fun _ _ => Nat.zero_le _
  · dsimp only
    split
    · exact Triple.pure fun _ _ => Nat.zero_le _
    · refine Triple.bind (Q := fun _ _ => True)
        (fun s _ => by split <;> trivial) fun skipped => ?_
      refine (readAtFrom_length (Nat.zero_le _)).conseq (fun _ h => h) (fun bytes _ hlength => ?_)
        fun _ _ h => h
      exact hlength.trans (Nat.min_le_right _ _)

end Harlan.Fat
