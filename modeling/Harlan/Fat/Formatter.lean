import Mathlib.Tactic
import Harlan.Lib.SortedMap
import Harlan.Lib.Words
import Harlan.Fat.Format

/-!
Writing a FAT32 image (`tools/xtask/src/fat32.rs`).

A path or a label is the list of its bytes, and a map of the source is a list in the order of its
keys. The image is a memory of zeroes with pieces copied into it, in the order of the source;
where a piece does not fit, where the size of a table is multiplied past 32 bits, and where the
tables leave less than nothing for the data, the source panics and the answer is `panicked`. Below
`2^26` sectors no other sum of the source leaves 32 bits.

* `sectorsPerFatFor`: how long a table is, by halving.
* `treeOf`: what goes in which directory.
* `placeDirectories`, `placeFiles`: which clusters they get.
* `format`: the image.
-/

namespace Harlan.Fat32

open Fat (splitName)

/-- The bytes of one sector. -/
def sectorBytes : ℕ := 512
/-- The sectors before the first table. -/
def reservedSectors : ℕ := 32
/-- The copies of the table. -/
def fatCount : ℕ := 2
/-- Where the second copy of the boot sector stands. -/
def backupBootSector : ℕ := 6
/-- The first cluster that can hold anything, and where the root directory goes. -/
def firstDataCluster : ℕ := 2
/-- The entry of the last cluster of a chain. -/
def endOfChain : ℕ := 0x0FFFFFFF
/-- A fixed disk. -/
def mediaDescriptor : ℕ := 0xF8
/-- The bytes of one slot of a directory. -/
def directoryEntryBytes : ℕ := 32
/-- The attribute of the volume's label. -/
def attrVolumeLabel : UInt8 := 0x08
/-- The attribute of an ordinary file. -/
def attrArchive : UInt8 := 0x20
/-- The attribute of a directory. -/
def attrDirectory : UInt8 := 0x10

/-- What stands between the parts of a path. -/
def slash : UInt8 := 0x2F

/-- A path, as the bytes of its text. -/
abbrev Path := List UInt8

/-- A file to put on the image; slashes in its name make directories. -/
structure File where
  name : Path
  contents : List UInt8
deriving DecidableEq

/-- What the image turned out to be. -/
structure Geometry where
  totalSectors : ℕ
  sectorsPerCluster : ℕ
  reservedSectors : ℕ
  fatCount : ℕ
  sectorsPerFat : ℕ
  rootCluster : ℕ
  clusters : ℕ
deriving DecidableEq

namespace Geometry

/-- The first sector of the data region, where cluster 2 begins. -/
def firstDataSector (geometry : Geometry) : ℕ :=
  geometry.reservedSectors + geometry.fatCount * geometry.sectorsPerFat

/-- Which sector a cluster starts at. -/
def sectorOfCluster (geometry : Geometry) (cluster : ℕ) : ℕ :=
  geometry.firstDataSector + (cluster - firstDataCluster) * geometry.sectorsPerCluster

end Geometry

/-- Why no image is made. -/
inductive FormatError where
  | tooSmallForFat32 (clusters : ℕ)
  | badName (name : Path)
  | rootDirectoryFull (entries : ℕ)
  | outOfClusters (needed available : ℕ)
  | panicked
deriving DecidableEq

/-! ### Names -/

/-- The letters that an eight-three name may hold. -/
def isAsciiUppercase (byte : UInt8) : Bool :=
  decide (0x41 ≤ byte.toNat) && decide (byte.toNat ≤ 0x5A)

/-- The digits. -/
def isAsciiDigit (byte : UInt8) : Bool := decide (0x30 ≤ byte.toNat) && decide (byte.toNat ≤ 0x39)

/-- Whether a name is the eight and three a directory entry holds. -/
def isEightThree (name : Path) : Bool :=
  let (base, extension) := splitName name
  !base.isEmpty && decide (base.length ≤ 8) && decide (extension.length ≤ 3)
    && name.all fun byte => isAsciiUppercase byte || isAsciiDigit byte || byte == Fat.dot

/-- A name as a directory entry holds it: eight characters then three, and no dot. -/
def paddedName (name : Path) : List UInt8 :=
  let (base, extension) := splitName name
  base ++ List.replicate (8 - base.length) Fat.space ++ extension
    ++ List.replicate (3 - extension.length) Fat.space

/-- The label, cut or filled up with spaces to eleven bytes. -/
def paddedLabel (label : List UInt8) : List UInt8 :=
  label.take 11 ++ List.replicate (11 - label.length) Fat.space

/-- What comes before the last slash, and nothing where there is none. -/
def parentOf (path : Path) : Path := ((path.reverse.dropWhile (· != slash)).drop 1).reverse

/-- What comes after the last slash. -/
def lastOf (path : Path) : Path := (path.reverse.takeWhile (· != slash)).reverse

/-! ### The size of a table -/

/-- How many entries of a table a sector holds. -/
def entriesPerSector : ℕ := sectorBytes / 4

/-- Whether tables of `size` sectors hold an entry for every cluster left beside them; `none`
where 32 bits do not hold what is compared. -/
def fits (totalSectors sectorsPerCluster size : ℕ) : Option Bool :=
  if 2 ^ 32 ≤ size * entriesPerSector then none
  else
    let data := totalSectors - reservedSectors - fatCount * size
    some (decide (data / sectorsPerCluster + firstDataCluster ≤ size * entriesPerSector))

/-- The loop of `sectors_per_fat_for`, which halves the range it looks in. -/
def halve (totalSectors sectorsPerCluster : ℕ) : ℕ → ℕ → ℕ → Option ℕ
  | 0, smallest, _ => some smallest
  | steps + 1, smallest, largest =>
      if smallest < largest then
        let middle := smallest + (largest - smallest) / 2
        match fits totalSectors sectorsPerCluster middle with
        | none => none
        | some true => halve totalSectors sectorsPerCluster steps smallest middle
        | some false => halve totalSectors sectorsPerCluster steps (middle + 1) largest
      else some smallest

/-- How many sectors each table needs. -/
def sectorsPerFatFor (totalSectors sectorsPerCluster : ℕ) : Option ℕ :=
  halve totalSectors sectorsPerCluster totalSectors 1 (max totalSectors 1)

/-! ### What goes in which directory -/

/-- What a directory holds: a file, or another directory by its full path. -/
inductive Entry where
  | file (file : File)
  | directory (path : Path)
deriving DecidableEq

/-- What each directory holds; the root is the empty path. -/
abbrev Tree := List (Path × List Entry)

/-- One more entry of a directory. -/
def Tree.push (tree : Tree) (path : Path) (entry : Entry) : Tree :=
  SortedMap.insert path ((tree.lookup path).getD [] ++ [entry]) tree

/-- The directories on the way down, each created once, below `parent`. -/
def addDirectories : List Path → Path → Tree → Tree
  | [], _, tree => tree
  | part :: rest, parent, tree =>
      let path := (if parent = [] then [] else parent ++ [slash]) ++ part
      addDirectories rest path <|
        if path ∈ tree.map Prod.fst then tree
        else Tree.push (SortedMap.insert path [] tree) parent (.directory path)

/-- One more file, and the directories it is under. -/
def addFile (tree : Tree) (file : File) : Tree :=
  let parents := parentOf file.name
  let parts := (parents.splitOn slash).filter (· ≠ [])
  Tree.push (addDirectories parts [] tree) parents (.file file)

/-- Every directory of the files, with what stands in it. -/
def treeOf (files : List File) : Tree := files.foldl addFile [([], [])]

/-- How many entries a directory has before those it holds: the label, or itself and its
parent. -/
def fixedEntries (path : Path) : ℕ := if path = [] then 1 else 2

/-- A directory with more entries than a cluster has room for, if there is one. -/
def fullDirectory (perDirectory : ℕ) (tree : Tree) : Option ℕ :=
  tree.findSome? fun (path, held) =>
    if perDirectory < held.length + fixedEntries path then some (held.length + fixedEntries path)
    else none

/-! ### Which clusters they get -/

/-- Where everything went. -/
structure Layout where
  /-- What the table says of each cluster in use. -/
  chains : List (ℕ × ℕ)
  directoryCluster : List (Path × ℕ)
  /-- Each file with its first cluster, zero for one of no bytes. -/
  placed : List (File × ℕ)
  nextFree : ℕ

/-- The root directory and nothing else. -/
def Layout.root : Layout := ⟨[(firstDataCluster, endOfChain)], [([], firstDataCluster)], [],
  firstDataCluster + 1⟩

/-- One cluster for a directory other than the root. -/
def placeDirectory (clusters : ℕ) (layout : Layout) (path : Path) : Except FormatError Layout :=
  if path = [] then .ok layout
  else if firstDataCluster + clusters ≤ layout.nextFree then .error (.outOfClusters 1 0)
  else
    .ok { layout with
      chains := SortedMap.insert layout.nextFree endOfChain layout.chains
      directoryCluster := SortedMap.insert path layout.nextFree layout.directoryCluster
      nextFree := layout.nextFree + 1 }

/-- The chain of a file, from its first cluster on. -/
def addChain (first needed : ℕ) (chains : List (ℕ × ℕ)) : List (ℕ × ℕ) :=
  (List.range needed).foldl (fun chains index =>
    SortedMap.insert (first + index)
      (if index + 1 = needed then endOfChain else first + index + 1)
      chains) chains

/-- As many clusters as a file needs, one after the other. -/
def placeFile (clusterBytes clusters : ℕ) (layout : Layout) (file : File) :
    Except FormatError Layout :=
  let needed := divCeil file.contents.length clusterBytes % 2 ^ 32
  if needed = 0 then .ok { layout with placed := layout.placed ++ [(file, 0)] }
  else if firstDataCluster + clusters < layout.nextFree + needed then
    .error (.outOfClusters needed (firstDataCluster + clusters - layout.nextFree))
  else
    .ok { layout with
      chains := addChain layout.nextFree needed layout.chains
      placed := layout.placed ++ [(file, layout.nextFree)]
      nextFree := layout.nextFree + needed }

/-- Where everything goes: the root first, then the directories, then the files. -/
def layOut (clusterBytes clusters : ℕ) (tree : Tree) (files : List File) :
    Except FormatError Layout := do
  let layout ← (tree.map Prod.fst).foldlM (placeDirectory clusters) Layout.root
  files.foldlM (placeFile clusterBytes clusters) layout

/-! ### What is written -/

/-- Bytes, and where in the image they go. -/
abbrev Piece := ℕ × List UInt8

/-- Copies pieces into an image, in order; `none` where one does not fit. -/
def copyAll (size : ℕ) : List Piece → ByteMemory → Option ByteMemory
  | [], image => some image
  | (pos, bytes) :: rest, image =>
      if pos + bytes.length ≤ size then copyAll size rest (putBytes image pos bytes) else none

/-- The fields of the boot sector, one after the other. -/
def bootFields (geometry : Geometry) (label : List UInt8) : List (List UInt8) :=
  [[0xEB, 0x58, 0x90], [0x48, 0x41, 0x52, 0x4C, 0x41, 0x4E, 0x20, 0x20], leBytes 2 sectorBytes,
    leBytes 1 geometry.sectorsPerCluster, leBytes 2 geometry.reservedSectors,
    leBytes 1 geometry.fatCount, leBytes 2 0, leBytes 2 0, leBytes 1 mediaDescriptor, leBytes 2 0,
    leBytes 2 32, leBytes 2 2, leBytes 4 0, leBytes 4 geometry.totalSectors,
    leBytes 4 geometry.sectorsPerFat, leBytes 2 0, leBytes 2 0, leBytes 4 geometry.rootCluster,
    leBytes 2 1, leBytes 2 backupBootSector, List.replicate 12 0, [0x80], [0], [0x29],
    leBytes 4 0x4841524C, paddedLabel label, [0x46, 0x41, 0x54, 0x33, 0x32, 0x20, 0x20, 0x20],
    List.replicate 420 0, [0x55, 0xAA]]

/-- The boot sector of a volume. -/
def bootSector (geometry : Geometry) (label : List UInt8) : List UInt8 :=
  (bootFields geometry label).flatten

/-- The FSInfo sector: how many clusters are free, and where to start looking. -/
def fsInfoFields (clusters nextFree : ℕ) : List (List UInt8) :=
  [leBytes 4 0x41615252, List.replicate 480 0, leBytes 4 0x61417272,
    leBytes 4 (clusters + firstDataCluster - nextFree), leBytes 4 nextFree, List.replicate 12 0,
    leBytes 4 0xAA550000]

/-- The sector with the counts of the free clusters. -/
def fsInfoSector (clusters nextFree : ℕ) : List UInt8 := (fsInfoFields clusters nextFree).flatten

/-- The boot sector and the FSInfo sector, and the copies of both. -/
def reservedPieces (geometry : Geometry) (label : List UInt8) (nextFree : ℕ) : List Piece :=
  let backup := backupBootSector * sectorBytes
  [(0, bootSector geometry label), (backup, bootSector geometry label),
    (sectorBytes, fsInfoSector geometry.clusters nextFree),
    (backup + sectorBytes, fsInfoSector geometry.clusters nextFree)]

/-- One of the tables. -/
def tablePieces (geometry : Geometry) (chains : List (ℕ × ℕ)) (table : ℕ) : List Piece :=
  let start := (reservedSectors + table * geometry.sectorsPerFat) * sectorBytes
  (start, leBytes 4 (0x0FFFFF00 ||| mediaDescriptor)) :: (start + 4, leBytes 4 endOfChain)
    :: chains.map fun (cluster, next) => (start + cluster * 4, leBytes 4 next)

/-- What a directory says about something in it. -/
def slotBytes (name : Path) (attributes : UInt8) (firstCluster size : ℕ) : List UInt8 :=
  paddedName name ++ [attributes] ++ List.replicate 8 0 ++ leBytes 2 (firstCluster / 2 ^ 16)
    ++ List.replicate 4 0 ++ leBytes 2 firstCluster ++ leBytes 4 size

/-- The slot of a file. -/
def directoryEntry (file : File) (firstCluster : ℕ) : List UInt8 :=
  slotBytes (lastOf file.name) attrArchive firstCluster file.contents.length

/-- The slot of a directory. -/
def directoryEntryForDirectory (name : Path) (cluster : ℕ) : List UInt8 :=
  slotBytes name attrDirectory cluster 0

/-- Where a directory is. -/
def Layout.clusterOf (layout : Layout) (path : Path) : ℕ :=
  (layout.directoryCluster.lookup path).getD 0

/-- Where a file went. -/
def Layout.whereFileWent (layout : Layout) (name : Path) : ℕ :=
  ((layout.placed.foldl
    (fun went (file, first) => SortedMap.insert file.name first went) []).lookup
    name).getD 0

/-- The slot of an entry, with the cluster it was given. -/
def entryBytes (layout : Layout) : Entry → List UInt8
  | .file file => directoryEntry file (layout.whereFileWent file.name)
  | .directory path => directoryEntryForDirectory (lastOf path) (layout.clusterOf path)

/-- The entry of a directory for itself or for its parent. -/
def dotPieces (start : ℕ) (name : List UInt8) (cluster : ℕ) : List Piece :=
  [(start, name), (start + 11, [attrDirectory]), (start + 20, leBytes 2 (cluster / 2 ^ 16)),
    (start + 26, leBytes 2 cluster)]

/-- What a directory starts with: the label in the root, `.` and `..` elsewhere. The parent of a
directory of the root is said to be at cluster zero. -/
def fixedPieces (layout : Layout) (label : List UInt8) (path : Path) (start : ℕ) : List Piece :=
  if path = [] then [(start, paddedLabel label), (start + 11, [attrVolumeLabel])]
  else
    let parent := parentOf path
    dotPieces start (Fat.dot :: List.replicate 10 Fat.space) (layout.clusterOf path)
      ++ dotPieces (start + directoryEntryBytes)
        (Fat.dot :: Fat.dot :: List.replicate 9 Fat.space)
        (if parent = [] then 0 else layout.clusterOf parent)

/-- One directory. -/
def directoryPieces (geometry : Geometry) (layout : Layout) (label : List UInt8) (path : Path)
    (held : List Entry) : List Piece :=
  let start := geometry.sectorOfCluster (layout.clusterOf path) * sectorBytes
  fixedPieces layout label path start
    ++ held.zipIdx.map fun (entry, index) =>
      (start + (fixedEntries path + index) * directoryEntryBytes, entryBytes layout entry)

/-- The bytes of a file, if it has any. -/
def filePieces (geometry : Geometry) (placed : File × ℕ) : List Piece :=
  if placed.2 = 0 then []
  else [(geometry.sectorOfCluster placed.2 * sectorBytes, placed.1.contents)]

/-- Everything that is written, in order. -/
def pieces (geometry : Geometry) (label : List UInt8) (tree : Tree) (layout : Layout) :
    List Piece :=
  reservedPieces geometry label layout.nextFree
    ++ (List.range fatCount).flatMap (tablePieces geometry layout.chains)
    ++ tree.flatMap (fun (path, held) => directoryPieces geometry layout label path held)
    ++ layout.placed.flatMap (filePieces geometry)

/-! ### The image -/

/-- The geometry of a volume of so many sectors, with tables of so many. -/
def geometryOf (totalSectors sectorsPerCluster sectorsPerFat : ℕ) : Geometry :=
  ⟨totalSectors, sectorsPerCluster, reservedSectors, fatCount, sectorsPerFat, firstDataCluster,
    (totalSectors - reservedSectors - fatCount * sectorsPerFat) / sectorsPerCluster⟩

/-- A FAT32 volume of so many sectors with `files` in it: the bytes of the whole image, and what
its geometry turned out to be. -/
def format (totalSectors sectorsPerCluster : ℕ) (label : List UInt8) (files : List File) :
    Except FormatError (ByteMemory × Geometry) :=
  match files.find? fun file =>
    file.name.isEmpty || !(file.name.splitOn slash).all isEightThree with
  | some file => .error (.badName file.name)
  | none =>
      match sectorsPerFatFor totalSectors sectorsPerCluster with
      | none => .error .panicked
      | some sectorsPerFat =>
          let geometry := geometryOf totalSectors sectorsPerCluster sectorsPerFat
          if totalSectors < geometry.firstDataSector then .error .panicked
          else if geometry.clusters < 65525 then .error (.tooSmallForFat32 geometry.clusters)
          else
            let clusterBytes := sectorBytes * sectorsPerCluster
            let tree := treeOf files
            match fullDirectory (clusterBytes / directoryEntryBytes) tree with
            | some entries => .error (.rootDirectoryFull entries)
            | none =>
                match layOut clusterBytes geometry.clusters tree files with
                | .error err => .error err
                | .ok layout =>
                    match copyAll (totalSectors * sectorBytes) (pieces geometry label tree layout)
                        fun _ => 0 with
                    | none => .error .panicked
                    | some image => .ok (image, geometry)

end Harlan.Fat32
