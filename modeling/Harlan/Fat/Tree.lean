import Mathlib.Tactic
import Mathlib.Data.List.TakeWhile
import Harlan.Fat.Formatter

/-!
What the formatter puts in the root directory.

* `parentOf_append`, `splitOn_parent`: a path is its parent, a slash and its last part.
* `push_mem`: what one more entry of a directory changes.
* `RootHolds`: the root holds the files without a slash in their name, and one directory for every
  first part of the others; `addFile_rootHolds` keeps it, `treeOf_rootHolds` is the whole of it.
-/

namespace Harlan.Fat32

open SortedMap (Keyed)

/-! ### Paths -/

/-- What comes before the first slash. -/
def firstOf (path : Path) : Path := path.takeWhile (· != slash)

lemma dropWhile_eq_cons {path : Path} (h : slash ∈ path) :
    path.dropWhile (· != slash) = slash :: (path.dropWhile (· != slash)).drop 1 := by
  induction path with
  | nil => cases h
  | cons byte rest ih =>
      by_cases hbyte : byte = slash
      · simp [hbyte]
      · have hrest : slash ∈ rest := (List.mem_cons.mp h).resolve_left (Ne.symm hbyte)
        rw [List.dropWhile_cons_of_pos (by simpa using hbyte)]
        exact ih hrest

lemma slash_notMem_takeWhile (path : Path) : slash ∉ path.takeWhile (· != slash) := by
  intro h
  have hne := List.mem_takeWhile_imp h
  simp at hne

lemma firstOf_append {path : Path} (h : slash ∈ path) :
    ∃ rest, path = firstOf path ++ slash :: rest := by
  refine ⟨(path.dropWhile (· != slash)).drop 1, ?_⟩
  rw [firstOf, ← dropWhile_eq_cons h, List.takeWhile_append_dropWhile]

lemma firstOf_of_notMem {path : Path} (h : slash ∉ path) : firstOf path = path := by
  refine List.takeWhile_eq_self_iff.mpr fun byte hbyte => ?_
  rw [bne_iff_ne]
  rintro rfl
  exact h hbyte

lemma parentOf_append {path : Path} (h : slash ∈ path) :
    path = parentOf path ++ slash :: lastOf path := by
  have hsplit := @List.takeWhile_append_dropWhile _ (· != slash) path.reverse
  rw [dropWhile_eq_cons (List.mem_reverse.mpr h)] at hsplit
  have hreverse := congrArg List.reverse hsplit
  rw [List.reverse_reverse, List.reverse_append, List.reverse_cons, List.append_assoc,
    List.singleton_append] at hreverse
  exact hreverse.symm

lemma slash_notMem_lastOf (path : Path) : slash ∉ lastOf path := by
  rw [lastOf, List.mem_reverse]
  exact slash_notMem_takeWhile path.reverse

lemma parentOf_of_notMem {path : Path} (h : slash ∉ path) : parentOf path = [] := by
  have hall : path.reverse.dropWhile (· != slash) = [] := by
    refine List.dropWhile_eq_nil_iff.mpr fun byte hbyte => ?_
    rw [bne_iff_ne]
    rintro rfl
    exact h (List.mem_reverse.mp hbyte)
  rw [parentOf, hall]
  rfl

lemma lastOf_of_notMem {path : Path} (h : slash ∉ path) : lastOf path = path := by
  have hall : path.reverse.takeWhile (· != slash) = path.reverse := by
    refine List.takeWhile_eq_self_iff.mpr fun byte hbyte => ?_
    rw [bne_iff_ne]
    rintro rfl
    exact h (List.mem_reverse.mp hbyte)
  rw [lastOf, hall, List.reverse_reverse]

lemma splitOn_parent {path : Path} (h : slash ∈ path) :
    path.splitOn slash = (parentOf path).splitOn slash ++ [lastOf path] := by
  nth_rewrite 1 [parentOf_append h]
  rw [List.splitOn_append_cons_self, List.splitOn_eq_singleton (slash_notMem_lastOf path)]

/-- The parts of a path, from the first on. -/
lemma splitOn_first (path : Path) : ∃ rest, path.splitOn slash = firstOf path :: rest := by
  by_cases h : slash ∈ path
  · obtain ⟨rest, hrest⟩ := firstOf_append h
    refine ⟨rest.splitOn slash, ?_⟩
    nth_rewrite 1 [hrest]
    exact List.splitOn_append_cons_self_of_not_mem (slash_notMem_takeWhile path) rest
  · refine ⟨[], ?_⟩
    rw [List.splitOn_eq_singleton h, firstOf_of_notMem h]

/-! ### Directories -/

lemma Tree.keyed_push {tree : Tree} (h : Keyed tree) (path : Path) (entry : Entry) :
    Keyed (Tree.push tree path entry) := SortedMap.keyed_insert h

lemma Tree.mem_keys_push {tree : Tree} {path other : Path} {entry : Entry} :
    other ∈ (Tree.push tree path entry).map Prod.fst ↔ other = path ∨ other ∈ tree.map Prod.fst :=
  SortedMap.mem_keys_insert

/-- What one more entry of a directory changes: what that directory holds. -/
lemma push_mem {tree : Tree} {path : Path} {entry : Entry} (h : Keyed tree) {held : List Entry}
    (hheld : (path, held) ∈ tree) (other : Path) (held' : List Entry) :
    (other, held') ∈ Tree.push tree path entry
      ↔ (other = path ∧ held' = held ++ [entry]) ∨ (other ≠ path ∧ (other, held') ∈ tree) := by
  rw [Tree.push, SortedMap.mem_insert, SortedMap.lookup_eq_some h hheld, Option.getD_some]

/-- Where the directories on the way end up. -/
def joinPath : Path → List Path → Path
  | parent, [] => parent
  | parent, part :: rest =>
      joinPath ((if parent = [] then [] else parent ++ [slash]) ++ part) rest

lemma joinPath_eq {parent : Path} (h : parent ≠ []) (parts : List Path) :
    joinPath parent parts = parent ++ parts.flatMap (slash :: ·) := by
  induction parts generalizing parent with
  | nil => rw [joinPath, List.flatMap_nil, List.append_nil]
  | cons part rest ih =>
      rw [joinPath, if_neg h, ih (by simp), List.flatMap_cons]
      simp

lemma intercalate_eq (first : Path) (rest : List Path) :
    [slash].intercalate (first :: rest) = first ++ rest.flatMap (slash :: ·) := by
  induction rest generalizing first with
  | nil => simp
  | cons part rest ih =>
      rw [List.intercalate_cons_cons, ih, List.flatMap_cons]
      simp

/-- Directories below the root leave what the root holds, and its own directories, alone. -/
structure Below (tree tree' : Tree) : Prop where
  keyed : Keyed tree'
  root : ∀ held, ([], held) ∈ tree' ↔ ([], held) ∈ tree
  keys : ∀ path ∈ tree.map Prod.fst, path ∈ tree'.map Prod.fst
  tops : ∀ path, slash ∉ path → (path ∈ tree'.map Prod.fst ↔ path ∈ tree.map Prod.fst)

lemma Below.refl {tree : Tree} (h : Keyed tree) : Below tree tree :=
  ⟨h, fun _ => Iff.rfl, fun _ hmem => hmem, fun _ _ => Iff.rfl⟩

lemma Below.trans {tree tree' tree'' : Tree} (h : Below tree tree') (h' : Below tree' tree'') :
    Below tree tree'' :=
  ⟨h'.keyed, fun held => (h'.root held).trans (h.root held),
    fun path hmem => h'.keys path (h.keys path hmem),
    fun path hpath => (h'.tops path hpath).trans (h.tops path hpath)⟩

/-- One more entry of a directory other than the root. -/
lemma below_push {tree : Tree} (h : Keyed tree) {path : Path} (hpath : path ≠ [])
    (hkey : path ∈ tree.map Prod.fst) (entry : Entry) :
    Below tree (Tree.push tree path entry) := by
  obtain ⟨held, hheld⟩ := SortedMap.exists_of_mem_keys hkey
  have hkeys : ∀ other, other ∈ (Tree.push tree path entry).map Prod.fst
      ↔ other ∈ tree.map Prod.fst := by
    intro other
    rw [Tree.mem_keys_push]
    refine ⟨?_, .inr⟩
    rintro (rfl | hother)
    · exact hkey
    · exact hother
  refine ⟨Tree.keyed_push h path entry, fun held' => ?_, fun other => (hkeys other).mpr,
    fun other _ => hkeys other⟩
  rw [push_mem h hheld]
  refine ⟨?_, fun hmem => .inr ⟨Ne.symm hpath, hmem⟩⟩
  rintro (⟨heq, -⟩ | ⟨-, hmem⟩)
  · exact absurd heq.symm hpath
  · exact hmem

lemma addDirectories_below {parts : List Path} {parent : Path} {tree : Tree} (h : Keyed tree)
    (hparent : parent ≠ []) (hkey : parent ∈ tree.map Prod.fst) :
    Below tree (addDirectories parts parent tree)
      ∧ joinPath parent parts ∈ (addDirectories parts parent tree).map Prod.fst := by
  induction parts generalizing parent tree with
  | nil => exact ⟨.refl h, hkey⟩
  | cons part rest ih =>
      rw [addDirectories, joinPath, if_neg hparent]
      have hpath : parent ++ [slash] ++ part ≠ [] := by simp
      have hslash : slash ∈ parent ++ [slash] ++ part := by simp
      by_cases hold : parent ++ [slash] ++ part ∈ tree.map Prod.fst
      · rw [if_pos hold]
        exact ih h hpath hold
      · rw [if_neg hold]
        -- a new directory, empty at first, and an entry for it in its parent
        have hinsert : Below tree (SortedMap.insert (parent ++ [slash] ++ part) [] tree) := by
          refine ⟨SortedMap.keyed_insert h, fun held => ?_, fun other hother => ?_,
            fun other hother => ?_⟩
          · rw [SortedMap.mem_insert]
            refine ⟨?_, fun hmem => .inr ⟨Ne.symm hpath, hmem⟩⟩
            rintro (⟨heq, -⟩ | ⟨-, hmem⟩)
            · exact absurd heq.symm hpath
            · exact hmem
          · exact SortedMap.mem_keys_insert.mpr (.inr hother)
          · rw [SortedMap.mem_keys_insert]
            refine ⟨?_, .inr⟩
            rintro (rfl | hmem)
            · exact absurd hslash hother
            · exact hmem
        have hpush := below_push hinsert.keyed hparent (hinsert.keys parent hkey)
          (.directory (parent ++ [slash] ++ part))
        have hboth := hinsert.trans hpush
        have hnew : parent ++ [slash] ++ part
            ∈ (Tree.push (SortedMap.insert (parent ++ [slash] ++ part) []
            tree) parent (.directory (parent ++ [slash] ++ part))).map Prod.fst :=
          hpush.keys _ (SortedMap.mem_keys_insert.mpr (.inl rfl))
        obtain ⟨hbelow, hend⟩ := ih hboth.keyed hpath hnew
        exact ⟨hboth.trans hbelow, hend⟩

/-! ### Names of entries -/

/-- What an entry is called. -/
def Entry.name : Entry → Path
  | .file held => lastOf held.name
  | .directory path => lastOf path

/-- Every entry of every directory is as `P` says. -/
def Holds (P : Entry → Prop) (tree : Tree) : Prop :=
  ∀ path held, (path, held) ∈ tree → ∀ entry ∈ held, P entry

lemma holds_root {P : Entry → Prop} : Holds P [([], [])] := by
  intro path held hmem entry hentry
  obtain ⟨-, rfl⟩ := Prod.mk.inj (List.mem_singleton.mp hmem)
  cases hentry

lemma Holds.push {P : Entry → Prop} {tree : Tree} (h : Holds P tree) {path : Path} {entry : Entry}
    (hentry : P entry) : Holds P (Tree.push tree path entry) := by
  intro other held hmem item hitem
  rcases SortedMap.mem_insert.mp hmem with ⟨-, rfl⟩ | ⟨-, hmem⟩
  · rcases List.mem_append.mp hitem with hitem | hitem
    · rcases hlookup : tree.lookup path with _ | before
      · rw [hlookup] at hitem
        cases hitem
      · rw [hlookup, Option.getD_some] at hitem
        exact h path before (SortedMap.mem_of_lookup hlookup) item hitem
    · obtain rfl := List.mem_singleton.mp hitem
      exact hentry
  · exact h other held hmem item hitem

lemma Holds.insert {P : Entry → Prop} {tree : Tree} (h : Holds P tree) (path : Path) :
    Holds P (SortedMap.insert path [] tree) := by
  intro other held hmem item hitem
  rcases SortedMap.mem_insert.mp hmem with ⟨-, rfl⟩ | ⟨-, hmem⟩
  · cases hitem
  · exact h other held hmem item hitem

/-- Every entry has a name that fits. -/
def Named (tree : Tree) : Prop := Holds (fun entry => isEightThree entry.name = true) tree

lemma slash_notMem_of_isEightThree {name : Path} (h : isEightThree name = true) :
    slash ∉ name := by
  intro hslash
  simp only [isEightThree, Bool.and_eq_true, List.all_eq_true] at h
  have hbad := h.2 slash hslash
  revert hbad
  decide

lemma addDirectories_named {parts : List Path} {parent : Path} {tree : Tree} (h : Named tree)
    (hparts : ∀ part ∈ parts, isEightThree part = true) :
    Named (addDirectories parts parent tree) := by
  induction parts generalizing parent tree with
  | nil => exact h
  | cons part rest ih =>
      have hpart := hparts part List.mem_cons_self
      have hrest : ∀ other ∈ rest, isEightThree other = true :=
        fun other hother => hparts other (List.mem_cons_of_mem part hother)
      rw [addDirectories]
      refine ih ?_ hrest
      generalize hpath : (if parent = [] then [] else parent ++ [slash]) ++ part = path
      by_cases hold : path ∈ tree.map Prod.fst
      · rw [if_pos hold]
        exact h
      · rw [if_neg hold]
        have hclean := slash_notMem_of_isEightThree hpart
        have hlast : lastOf path = part := by
          rw [← hpath]
          split
          · rw [List.nil_append, lastOf_of_notMem hclean]
          · have hreverse : ∀ byte ∈ part.reverse, (byte != slash) = true := by
              intro byte hbyte
              rw [bne_iff_ne]
              rintro rfl
              exact hclean (List.mem_reverse.mp hbyte)
            rw [lastOf, List.reverse_append, List.takeWhile_append_of_pos hreverse]
            simp
        refine Holds.push (h.insert path) ?_
        rw [Entry.name, hlast]
        exact hpart

lemma treeOf_named {files : List File}
    (h : ∀ file ∈ files, ∀ part ∈ file.name.splitOn slash, isEightThree part = true) :
    Named (treeOf files) := by
  suffices hrun : ∀ (rest : List File) tree, Named tree →
      (∀ file ∈ rest, ∀ part ∈ file.name.splitOn slash, isEightThree part = true) →
      Named (rest.foldl addFile tree) by
    exact hrun files _ holds_root h
  intro rest
  induction rest with
  | nil => exact fun tree htree _ => htree
  | cons file rest ih =>
      intro tree htree hparts
      refine ih _ ?_ fun other hother => hparts other (List.mem_cons_of_mem file hother)
      have hfile := hparts file List.mem_cons_self
      rw [addFile]
      by_cases hslash : slash ∈ file.name
      · rw [splitOn_parent hslash] at hfile
        refine Holds.push (addDirectories_named htree fun part hpart => ?_) ?_
        · exact hfile part (List.mem_append_left _ (List.mem_filter.mp hpart).1)
        · exact hfile _ (List.mem_append_right _ (List.mem_singleton.mpr rfl))
      · rw [parentOf_of_notMem hslash]
        refine Holds.push htree ?_
        rw [Entry.name, lastOf_of_notMem hslash]
        refine hfile file.name ?_
        rw [List.splitOn_eq_singleton hslash]
        exact List.mem_singleton.mpr rfl

/-- An entry is one of the files, or a directory of the tree. -/
def Entry.Known (files : List File) (paths : List Path) : Entry → Prop
  | .file held => held ∈ files
  | .directory path => path ∈ paths

/-- Every entry is of a file or of a directory there is. -/
def Known (files : List File) (tree : Tree) : Prop :=
  Holds (Entry.Known files (tree.map Prod.fst)) tree

lemma Entry.Known.mono {files files' : List File} {paths paths' : List Path} {entry : Entry}
    (h : entry.Known files paths) (hfiles : files ⊆ files') (hpaths : paths ⊆ paths') :
    entry.Known files' paths' := by
  cases entry with
  | file file => exact hfiles h
  | directory path => exact hpaths h

lemma Known.mono {files files' : List File} {tree : Tree} {paths : List Path}
    (h : Known files tree) (hfiles : files ⊆ files') (hpaths : tree.map Prod.fst ⊆ paths) :
    Holds (Entry.Known files' paths) tree :=
  fun path held hmem entry hentry => (h path held hmem entry hentry).mono hfiles hpaths

lemma keys_subset_push (tree : Tree) (path : Path) (entry : Entry) :
    tree.map Prod.fst ⊆ (Tree.push tree path entry).map Prod.fst :=
  fun _ hmem => Tree.mem_keys_push.mpr (.inr hmem)

lemma addDirectories_known {files : List File} {parts : List Path} {parent : Path} {tree : Tree}
    (h : Known files tree) : Known files (addDirectories parts parent tree) := by
  induction parts generalizing parent tree with
  | nil => exact h
  | cons part rest ih =>
      rw [addDirectories]
      refine ih ?_
      generalize (if parent = [] then [] else parent ++ [slash]) ++ part = path
      by_cases hold : path ∈ tree.map Prod.fst
      · rw [if_pos hold]
        exact h
      · rw [if_neg hold]
        have hkeys : tree.map Prod.fst ⊆ (Tree.push (SortedMap.insert path [] tree) parent
            (.directory path)).map Prod.fst :=
          fun _ hmem => keys_subset_push _ _ _ (SortedMap.mem_keys_insert.mpr (.inr hmem))
        refine Holds.push (Holds.insert (h.mono (List.Subset.refl _) hkeys) path) ?_
        exact keys_subset_push _ _ _ (SortedMap.mem_keys_insert.mpr (.inl rfl))

lemma treeOf_known (files : List File) : Known files (treeOf files) := by
  suffices hrun : ∀ (rest done : List File) tree, Known done tree →
      Known (done ++ rest) (rest.foldl addFile tree) from hrun files [] _ holds_root
  intro rest
  induction rest with
  | nil =>
      intro done tree htree
      rw [List.append_nil]
      exact htree
  | cons file rest ih =>
      intro done tree htree
      rw [List.append_cons]
      refine ih _ _ ?_
      rw [addFile]
      refine Holds.push ((addDirectories_known htree).mono (List.subset_append_left _ _)
        (keys_subset_push _ _ _)) ?_
      exact List.mem_append_right _ (List.mem_singleton.mpr rfl)

/-! ### The root -/

/-- What the root holds once some files are in the tree. -/
structure RootHolds (done : List File) (tree : Tree) (held : List Entry) : Prop where
  keyed : Keyed tree
  root : ([], held) ∈ tree
  nodup : held.Nodup
  file : ∀ file, Entry.file file ∈ held ↔ file ∈ done ∧ slash ∉ file.name
  directory : ∀ path, Entry.directory path ∈ held
    ↔ path ∈ tree.map Prod.fst ∧ path ≠ [] ∧ slash ∉ path
  tops : ∀ path, path ≠ [] → slash ∉ path →
    (path ∈ tree.map Prod.fst ↔ ∃ file ∈ done, slash ∈ file.name ∧ firstOf file.name = path)

section Root

variable {done : List File} {tree : Tree} {held : List Entry} {file : File}

lemma RootHolds.below {tree' : Tree} (h : RootHolds done tree held) (hbelow : Below tree tree') :
    RootHolds done tree' held := by
  refine ⟨hbelow.keyed, (hbelow.root held).mpr h.root, h.nodup, h.file, fun path => ?_,
    fun path hne hpath => ?_⟩
  · rw [h.directory]
    refine ⟨fun ⟨hmem, hne, hpath⟩ => ⟨(hbelow.tops path hpath).mpr hmem, hne, hpath⟩, ?_⟩
    exact fun ⟨hmem, hne, hpath⟩ => ⟨(hbelow.tops path hpath).mp hmem, hne, hpath⟩
  · rw [hbelow.tops path hpath, h.tops path hne hpath]

/-- A file of the root itself. -/
lemma RootHolds.push_file (h : RootHolds done tree held) (hnew : file ∉ done)
    (hslash : slash ∉ file.name) :
    RootHolds (done ++ [file]) (Tree.push tree [] (.file file)) (held ++ [.file file]) := by
  have hkeys : ∀ path, path ∈ (Tree.push tree [] (.file file)).map Prod.fst
      ↔ path ∈ tree.map Prod.fst := by
    intro path
    rw [Tree.mem_keys_push]
    refine ⟨?_, .inr⟩
    rintro (rfl | hmem)
    · exact List.mem_map_of_mem h.root
    · exact hmem
  refine ⟨Tree.keyed_push h.keyed _ _, (push_mem h.keyed h.root _ _).mpr (.inl ⟨rfl, rfl⟩), ?_,
    fun other => ?_, fun path => ?_, fun path hne hpath => ?_⟩
  · refine List.nodup_append.mpr ⟨h.nodup, List.nodup_singleton _, ?_⟩
    rintro entry hentry other hother rfl
    obtain rfl := List.mem_singleton.mp hother
    exact hnew ((h.file file).mp hentry).1
  · rw [List.mem_append, List.mem_singleton, List.mem_append, List.mem_singleton, h.file,
      Entry.file.injEq]
    constructor
    · rintro (⟨hmem, hother⟩ | rfl)
      · exact ⟨.inl hmem, hother⟩
      · exact ⟨.inr rfl, hslash⟩
    · rintro ⟨hmem | rfl, hother⟩
      · exact .inl ⟨hmem, hother⟩
      · exact .inr rfl
  · rw [List.mem_append, List.mem_singleton, hkeys, ← h.directory]
    exact ⟨fun hmem => hmem.resolve_right (by simp), .inl⟩
  · rw [hkeys, h.tops path hne hpath]
    constructor
    · rintro ⟨other, hother, hfirst⟩
      exact ⟨other, List.mem_append_left _ hother, hfirst⟩
    · rintro ⟨other, hother, hin, hfirst⟩
      rcases List.mem_append.mp hother with hother | hother
      · exact ⟨other, hother, hin, hfirst⟩
      · obtain rfl := List.mem_singleton.mp hother
        exact absurd hin hslash

/-- A directory of the root, for a file somewhere below it. -/
lemma RootHolds.addTop (h : RootHolds done tree held) (hslash : slash ∈ file.name) {first : Path}
    (hfirst : firstOf file.name = first) (hne : first ≠ []) :
    ∃ tree₁ held₁, (if first ∈ tree.map Prod.fst then tree
        else Tree.push (SortedMap.insert first [] tree) [] (.directory first)) = tree₁
      ∧ RootHolds (done ++ [file]) tree₁ held₁ ∧ first ∈ tree₁.map Prod.fst := by
  have hclean : slash ∉ first := by
    rw [← hfirst]
    exact slash_notMem_takeWhile _
  have hfiles : ∀ other, other ∈ done ∧ slash ∉ other.name ↔ other ∈ done ++ [file]
      ∧ slash ∉ other.name := by
    intro other
    rw [List.mem_append, List.mem_singleton]
    refine ⟨fun ⟨hmem, hother⟩ => ⟨.inl hmem, hother⟩, ?_⟩
    rintro ⟨hmem | rfl, hother⟩
    · exact ⟨hmem, hother⟩
    · exact absurd hslash hother
  have htops : ∀ path, (∃ other ∈ done ++ [file], slash ∈ other.name ∧ firstOf other.name = path)
      ↔ (∃ other ∈ done, slash ∈ other.name ∧ firstOf other.name = path) ∨ path = first := by
    intro path
    constructor
    · rintro ⟨other, hother, hin, hpath⟩
      rcases List.mem_append.mp hother with hother | hother
      · exact .inl ⟨other, hother, hin, hpath⟩
      · obtain rfl := List.mem_singleton.mp hother
        exact .inr (hpath.symm.trans hfirst)
    · rintro (⟨other, hother, hin, hpath⟩ | rfl)
      · exact ⟨other, List.mem_append_left _ hother, hin, hpath⟩
      · exact ⟨file, List.mem_append_right _ (List.mem_singleton.mpr rfl), hslash, hfirst⟩
  -- a directory that is there stays as it is
  by_cases hold : first ∈ tree.map Prod.fst
  · refine ⟨tree, held, if_pos hold, ⟨h.keyed, h.root, h.nodup, fun other => ?_, h.directory,
      fun path hpath hin => ?_⟩, hold⟩
    · rw [h.file, hfiles]
    · rw [htops, ← h.tops path hpath hin]
      refine ⟨.inl, ?_⟩
      rintro (hmem | rfl)
      · exact hmem
      · exact hold
  -- a new one gets a line of its own, and an entry in the root
  · have hinserted : Keyed (SortedMap.insert first [] tree) := SortedMap.keyed_insert h.keyed
    have hroot : ([], held) ∈ SortedMap.insert first [] tree :=
      SortedMap.mem_insert.mpr (.inr ⟨Ne.symm hne, h.root⟩)
    have hkeys : ∀ path, path ∈ (Tree.push (SortedMap.insert first [] tree) []
        (.directory first)).map Prod.fst ↔ path ∈ tree.map Prod.fst ∨ path = first := by
      intro path
      rw [Tree.mem_keys_push, SortedMap.mem_keys_insert]
      constructor
      · rintro (rfl | rfl | hmem)
        · exact .inl (List.mem_map_of_mem h.root)
        · exact .inr rfl
        · exact .inl hmem
      · rintro (hmem | rfl)
        · exact .inr (.inr hmem)
        · exact .inr (.inl rfl)
    refine ⟨_, held ++ [.directory first], if_neg hold, ⟨Tree.keyed_push hinserted _ _,
      (push_mem hinserted hroot _ _).mpr (.inl ⟨rfl, rfl⟩), ?_, fun other => ?_, fun path => ?_,
      fun path hpath hin => ?_⟩, (hkeys first).mpr (.inr rfl)⟩
    · refine List.nodup_append.mpr ⟨h.nodup, List.nodup_singleton _, ?_⟩
      rintro entry hentry other hother rfl
      obtain rfl := List.mem_singleton.mp hother
      exact hold ((h.directory first).mp hentry).1
    · rw [List.mem_append, List.mem_singleton, ← hfiles, ← h.file]
      exact ⟨fun hmem => hmem.resolve_right (by simp), .inl⟩
    · rw [List.mem_append, List.mem_singleton, h.directory, hkeys, Entry.directory.injEq]
      constructor
      · rintro (⟨hmem, hpath⟩ | rfl)
        · exact ⟨.inl hmem, hpath⟩
        · exact ⟨.inr rfl, hne, hclean⟩
      · rintro ⟨hmem | rfl, hpath⟩
        · exact .inl ⟨hmem, hpath⟩
        · exact .inr rfl
    · rw [hkeys, htops, ← h.tops path hpath hin]

/-- One more file. -/
lemma addFile_rootHolds (h : RootHolds done tree held) (hnew : file ∉ done)
    (hparts : [] ∉ file.name.splitOn slash) :
    ∃ held', RootHolds (done ++ [file]) (addFile tree file) held' := by
  rw [addFile]
  by_cases hslash : slash ∈ file.name
  · rw [splitOn_parent hslash, List.mem_append, not_or] at hparts
    have hfilter : ((parentOf file.name).splitOn slash).filter (· ≠ [])
        = (parentOf file.name).splitOn slash := by
      refine List.filter_eq_self.mpr fun part hpart => ?_
      rw [decide_eq_true_eq]
      rintro rfl
      exact hparts.1 hpart
    obtain ⟨rest, hrest⟩ := splitOn_first (parentOf file.name)
    have hne : firstOf (parentOf file.name) ≠ [] := by
      intro hempty
      refine hparts.1 ?_
      rw [hrest, hempty]
      exact List.mem_cons_self
    have hjoin : joinPath (firstOf (parentOf file.name)) rest = parentOf file.name := by
      rw [joinPath_eq hne, ← intercalate_eq, ← hrest, List.intercalate_splitOn]
    have hfirst : firstOf file.name = firstOf (parentOf file.name) := by
      obtain ⟨rest', hwhole⟩ := splitOn_first file.name
      rw [splitOn_parent hslash, hrest, List.cons_append] at hwhole
      exact (List.cons.inj hwhole).1.symm
    obtain ⟨tree₁, held₁, htree₁, h₁, hkey₁⟩ := h.addTop hslash hfirst hne
    have hstep : addDirectories (((parentOf file.name).splitOn slash).filter (· ≠ [])) [] tree
        = addDirectories rest (firstOf (parentOf file.name)) tree₁ := by
      rw [hfilter, hrest, addDirectories, if_pos rfl, List.nil_append, htree₁]
    obtain ⟨hbelow, hend⟩ := @addDirectories_below rest _ _ h₁.keyed hne hkey₁
    rw [hjoin] at hend
    have hparent : parentOf file.name ≠ [] := by
      rintro hempty
      rw [hempty] at hparts
      exact hparts.1 (by simp)
    refine ⟨held₁, ?_⟩
    rw [hstep]
    exact h₁.below (hbelow.trans (below_push hbelow.keyed hparent hend _))
  · rw [parentOf_of_notMem hslash]
    exact ⟨_, h.push_file hnew hslash⟩

/-- The root of the tree of some files. -/
lemma treeOf_rootHolds {files : List File} (hnodup : files.Nodup)
    (hparts : ∀ file ∈ files, [] ∉ file.name.splitOn slash) :
    ∃ held, RootHolds files (treeOf files) held := by
  suffices hrun : ∀ rest done tree held, RootHolds done tree held → (done ++ rest).Nodup →
      (∀ file ∈ rest, [] ∉ file.name.splitOn slash) →
      ∃ held', RootHolds (done ++ rest) (rest.foldl addFile tree) held' by
    refine hrun files [] [([], [])] [] ⟨List.nodup_singleton _, List.mem_singleton.mpr rfl,
      List.nodup_nil, fun file => by simp, fun path => ?_, fun path hne hpath => ?_⟩ hnodup hparts
    · simp only [List.not_mem_nil, List.map_cons, List.map_nil, List.mem_singleton,
        false_iff, not_and]
      exact fun hpath hne => absurd hpath hne
    · simpa using hne
  intro rest
  induction rest with
  | nil =>
      intro done tree held h _ _
      rw [List.append_nil]
      exact ⟨held, h⟩
  | cons file rest ih =>
      intro done tree held h hnodup hparts
      rw [List.append_cons] at hnodup ⊢
      have hnew : file ∉ done := by
        have hfirst := (List.nodup_append.mp hnodup).1
        intro hmem
        exact (List.nodup_append.mp hfirst).2.2 file hmem file (List.mem_singleton.mpr rfl) rfl
      obtain ⟨held', h'⟩ := addFile_rootHolds h hnew (hparts file List.mem_cons_self)
      exact ih _ _ held' h' hnodup fun other hother =>
        hparts other (List.mem_cons_of_mem _ hother)

/-- What the root holds is called as the files are, up to the first slash. -/
lemma RootHolds.name (h : RootHolds done tree held) {entry : Entry} (hentry : entry ∈ held) :
    ∃ file ∈ done, entry.name = firstOf file.name := by
  cases entry with
  | file file =>
      obtain ⟨hfile, hslash⟩ := (h.file file).mp hentry
      refine ⟨file, hfile, ?_⟩
      rw [Entry.name, lastOf_of_notMem hslash, firstOf_of_notMem hslash]
  | directory path =>
      obtain ⟨hmem, hne, hslash⟩ := (h.directory path).mp hentry
      obtain ⟨file, hfile, -, hfirst⟩ := (h.tops path hne hslash).mp hmem
      exact ⟨file, hfile, by rw [Entry.name, lastOf_of_notMem hslash, hfirst]⟩

end Root

end Harlan.Fat32
