import Axle.Lib.StepRun
import Mathlib.Data.BitVec
import Mathlib.Data.List.Infix
import Mathlib.Logic.Function.Basic

/-!
# The FAT file system of the file manager

`programs/subprojects/file_manager/fat.c`: a disk of 131072 sectors, 1024 of which hold the
allocation table, one entry for each sector behind them.  A file is a chain of entries, written from
its last sector back to its first; a directory is one sector of sixteen slots.  Links and the first
entry of a slot are 16 bits wide, and the entry 0, which is that of the root directory, stands for
the end of a chain and for a slot that is free.

The sectors of the table hold entries and nothing else, and are kept as a map from the number of an
entry to the entry; the sectors behind them are bytes, numbered by the entry that stands for them.
An assertion that fails ends the process, and what has been written to the disk by then stays: a
creation returns the disk in any case.

* `fatAllocSector`, `fatCreateDirOrFile` — allocation and creation on the disk;
* `fatCreateDirectory`, `fatCreateFile`, `fatNext` — the calls, with the nodes they make in memory;
* `fatAllocSector_spec`, `writeSectors_spec` — **PROVED**: entries are handed out in order, and a
  file takes a run of them, linked downwards.
-/

namespace Axle.FileManager

open Axle.Lib.StepRun

abbrev Byte := BitVec 8

/-- The bytes of a sector, by their offset. -/
abbrev Sector := ℕ → Byte

/-! ### The drive -/

def sectorSize : ℕ := 512
def diskSizeInBytes : ℕ := 64 * 1024 * 1024
def sectorsOnDisk : ℕ := diskSizeInBytes / sectorSize

def fatEntriesPerSector : ℕ := sectorSize / 4
@[irreducible] def fatSectorCount : ℕ := diskSizeInBytes / (sectorSize * fatEntriesPerSector)
def fatHeadSector : ℕ := 1
def fatSectorSlide : ℕ := fatHeadSector + fatSectorCount

/-- `FAT_SECTOR_TYPE__EOF`. -/
def fatSectorTypeEof : ℕ := 0

def fatFilenameSize : ℕ := 8
def fatFileExtSize : ℕ := 3

/-- The slots of a directory: a `fat_directory_entry_t` has 32 bytes. -/
def directorySlotCount : ℕ := sectorSize / 32

structure FatEntry where
  allocated : Bool
  nextFatEntryIdxInFile : BitVec 16
deriving DecidableEq, Repr

/-- A string of C: the characters before the NUL. -/
structure CString where
  chars : List Byte
  text : 0 ∉ chars
deriving DecidableEq, Repr

/-- `strncpy` into a field of `n` characters. -/
def strncpy (n : ℕ) (s : CString) : List Byte := (List.range n).map fun j => s.chars.getD j 0

/-! ### Directory slots -/

structure DirectoryEntry where
  isDirectory : Bool
  filename : List Byte
  ext : List Byte
  firstFatEntryIdxInFile : BitVec 16
  size : BitVec 32
deriving DecidableEq, Repr

/-- Slot `i` of a directory. -/
def slot (sector : Sector) (i : ℕ) : DirectoryEntry where
  isDirectory := sector (32 * i) != 0
  filename := (List.range fatFilenameSize).map fun j => sector (32 * i + 1 + j)
  ext := (List.range fatFileExtSize).map fun j => sector (32 * i + 9 + j)
  firstFatEntryIdxInFile := sector (32 * i + 13) ++ sector (32 * i + 12)
  size := sector (32 * i + 17) ++ sector (32 * i + 16) ++ sector (32 * i + 15) ++ sector (32 * i + 14)

/-- The bytes of the fields of a slot. -/
def DirectoryEntry.bytes (e : DirectoryEntry) : List Byte :=
  [if e.isDirectory then 1 else 0] ++ e.filename ++ e.ext ++
    [e.firstFatEntryIdxInFile.extractLsb' 0 8, e.firstFatEntryIdxInFile.extractLsb' 8 8] ++
    [e.size.extractLsb' 0 8, e.size.extractLsb' 8 8, e.size.extractLsb' 16 8, e.size.extractLsb' 24 8]

/-- Stores to the fields of slot `i`; the reserved bytes behind them stay. -/
def storeSlot (sector : Sector) (i : ℕ) (e : DirectoryEntry) : Sector := fun k =>
  if 32 * i ≤ k ∧ k < 32 * i + 18 then e.bytes.getD (k - 32 * i) 0 else sector k

/-! ### The file manager -/

/-- A node of the tree in memory.  `filename`, `ext` and `contents` are what the node was made from:
bookkeeping, not in the code. -/
structure FatFsNode where
  name : List Byte
  isDirectory : Bool
  parent : ℕ
  firstFatEntryIdxInFile : ℕ
  size : ℕ
  filename : CString
  ext : CString
  contents : List Byte
deriving DecidableEq, Repr

/-- The disk and the process: `running` is false once an assertion has failed.  Nodes are named by
the order in which they were made. -/
structure FatState where
  fat : ℕ → FatEntry
  data : ℕ → Sector
  lastSectorWithFreeSpace : ℕ
  nodes : List FatFsNode
  running : Bool

/-- The name of the node of the root directory. -/
def hdd : CString := ⟨[0x68, 0x64, 0x64], by decide⟩

def fatRoot : FatFsNode where
  name := hdd.chars
  isDirectory := true
  parent := 0
  firstFatEntryIdxInFile := 0
  size := sectorSize
  filename := hdd
  ext := ⟨[], by decide⟩
  contents := []

/-- `fat_format_drive` on a disk with any contents, and the root node of `fat_parse_from_disk`. -/
def fatFormatDrive (old : ℕ → Sector) : FatState where
  fat idx := ⟨idx == 0, BitVec.ofNat 16 fatSectorTypeEof⟩
  data := Function.update old 0 fun _ => 0
  lastSectorWithFreeSpace := 1
  nodes := [fatRoot]
  running := true

/-- The entries that the loops of `fat_alloc_sector` look at, in their order. -/
def allocCandidates (lastSectorWithFreeSpace : ℕ) : List ℕ :=
  (List.range fatSectorCount).flatMap fun i =>
    if fatHeadSector + i < lastSectorWithFreeSpace then []
    else (List.range fatEntriesPerSector).map fun j => i * fatEntriesPerSector + j

def fatAllocSector (s : FatState) (nextFatEntryIdxInFile : ℕ) : FatState × Option ℕ :=
  match (allocCandidates s.lastSectorWithFreeSpace).find? fun idx => !(s.fat idx).allocated with
  | none => (s, none)
  | some idx =>
    ({ s with
        fat := Function.update s.fat idx ⟨true, BitVec.ofNat 16 nextFatEntryIdxInFile⟩
        data := Function.update s.data idx fun _ => 0
        lastSectorWithFreeSpace := fatHeadSector + idx / fatEntriesPerSector },
      some idx)

/-- A sector that starts with these bytes and is zero behind them. -/
def dataSector (bytes : List Byte) : Sector := fun k => bytes.getD k 0

/-- The loop of `_fat_create_dir_or_file` over the sectors of a file, from its last to its first. -/
def writeSectors (isDirectory : Bool) (fileData : List Byte) :
    (neededSectors filePtr bytesToWrite nextFatEntryIdx : ℕ) → FatState → FatState × Option ℕ
  | 0, _, _, next, s => (s, some next)
  | needed + 1, filePtr, bytesToWrite, next, s =>
    match fatAllocSector s next with
    | (s, none) => (s, none)
    | (s, some idx) =>
      if isDirectory then writeSectors isDirectory fileData needed filePtr bytesToWrite idx s
      else
        writeSectors isDirectory fileData needed (filePtr - sectorSize) sectorSize idx
          { s with data :=
              Function.update s.data idx (dataSector ((fileData.drop filePtr).take bytesToWrite)) }

def neededSectors (fileLen : ℕ) : ℕ :=
  if fileLen % sectorSize ≠ 0 then fileLen / sectorSize + 1 else fileLen / sectorSize

def fileBytesInTerminatingSector (fileLen : ℕ) : ℕ :=
  if fileLen % sectorSize ≠ 0 then fileLen % sectorSize else sectorSize

/-- The first slot of a directory that is free. -/
def freeSlot (sector : Sector) : Option ℕ :=
  (List.range directorySlotCount).find? fun i =>
    (slot sector i).firstFatEntryIdxInFile.toNat = fatSectorTypeEof

/-- `_fat_create_dir_or_file`: the first entry of the chain, as the slot has it. -/
def fatCreateDirOrFile (s : FatState) (directory : ℕ) (isDirectory : Bool) (filename ext : CString)
    (fileData : List Byte) : FatState × Option (BitVec 16) :=
  let sector := s.data directory
  match freeSlot sector with
  | none => (s, none)
  | some i =>
    let fileLen := if isDirectory then sectorSize else fileData.length
    match writeSectors isDirectory fileData (neededSectors fileLen)
        (fileLen - fileBytesInTerminatingSector fileLen) (fileBytesInTerminatingSector fileLen)
        fatSectorTypeEof s with
    | (s, none) => (s, none)
    | (s, some next) =>
      let e : DirectoryEntry :=
        { isDirectory
          filename := strncpy fatFilenameSize filename
          ext := if isDirectory then (slot sector i).ext else strncpy fatFileExtSize ext
          firstFatEntryIdxInFile := BitVec.ofNat 16 next
          size := BitVec.ofNat 32 fileLen }
      ({ s with data := Function.update s.data directory (storeSlot sector i e) },
        some e.firstFatEntryIdxInFile)

/-! ### The calls -/

/-- The children of a node, in the order of its array. -/
def childrenOf (nodes : List FatFsNode) (parent : ℕ) : List FatFsNode :=
  (nodes.drop 1).filter fun node => node.parent = parent

/-- `fs_node_create__directory` and `fs_node_create__file`: an array of children holds 128. -/
def fsNodeCreate (s : FatState) (node : FatFsNode) : FatState :=
  if (childrenOf s.nodes node.parent).length + 1 ≤ 128 then { s with nodes := s.nodes ++ [node] }
  else { s with running := false }

/-- `"%.*s"` and `"%.*s.%.*s"`; the precisions of the latter are those of the size of an `int`. -/
def directoryName (filename : CString) : List Byte := filename.chars.take fatFilenameSize

def fileName (filename ext : CString) : List Byte := filename.chars.take 4 ++ 0x2e :: ext.chars.take 4

def fatCreateDirectory (s : FatState) (parent : ℕ) (parentNode : FatFsNode) (filename : CString) :
    FatState :=
  match fatCreateDirOrFile s parentNode.firstFatEntryIdxInFile true filename ⟨[], by decide⟩ [] with
  | (s, none) => { s with running := false }
  | (s, some first) =>
    fsNodeCreate s
      { name := directoryName filename, isDirectory := true, parent
        firstFatEntryIdxInFile := first.toNat, size := sectorSize
        filename, ext := ⟨[], by decide⟩, contents := [] }

def fatCreateFile (s : FatState) (parent : ℕ) (parentNode : FatFsNode) (filename ext : CString)
    (fileData : List Byte) : FatState :=
  match fatCreateDirOrFile s parentNode.firstFatEntryIdxInFile false filename ext fileData with
  | (s, none) => { s with running := false }
  | (s, some first) =>
    fsNodeCreate s
      { name := fileName filename ext, isDirectory := false, parent
        firstFatEntryIdxInFile := first.toNat, size := fileData.length
        filename, ext, contents := fileData }

/-- A call; `parent` is the number of the node it is made on.  The length of a file is a
`uint32_t`. -/
inductive FatEvent where
  | createDirectory (parent : ℕ) (filename : CString)
  | createFile (parent : ℕ) (filename ext : CString) (fileData : List Byte)
      (short : fileData.length < 2 ^ 32)
deriving DecidableEq, Repr

def FatEvent.parent : FatEvent → ℕ
  | .createDirectory parent _ => parent
  | .createFile parent _ _ _ _ => parent

/-- The length that is written to the disk. -/
def FatEvent.fileLen : FatEvent → ℕ
  | .createDirectory _ _ => sectorSize
  | .createFile _ _ _ fileData _ => fileData.length

/-- One call on a directory; there is none once the process has ended. -/
def fatNext (s : FatState) (e : FatEvent) : Option FatState :=
  if !s.running then none
  else match s.nodes[e.parent]? with
    | none => none
    | some parentNode =>
      if !parentNode.isDirectory then none
      else match e with
        | .createDirectory parent filename => some (fatCreateDirectory s parent parentNode filename)
        | .createFile parent filename ext fileData _ =>
          some (fatCreateFile s parent parentNode filename ext fileData)

/-! ### What a call is, whichever of the two -/

namespace FatEvent

def isDirectory : FatEvent → Bool
  | .createDirectory _ _ => true
  | .createFile _ _ _ _ _ => false

def filename : FatEvent → CString
  | .createDirectory _ filename => filename
  | .createFile _ filename _ _ _ => filename

def ext : FatEvent → CString
  | .createDirectory _ _ => ⟨[], by decide⟩
  | .createFile _ _ ext _ _ => ext

def fileData : FatEvent → List Byte
  | .createDirectory _ _ => []
  | .createFile _ _ _ fileData _ => fileData

/-- The node that is made, with its first entry. -/
def node (e : FatEvent) (first : BitVec 16) : FatFsNode where
  name := match e with
    | .createDirectory _ filename => directoryName filename
    | .createFile _ filename ext _ _ => fileName filename ext
  isDirectory := e.isDirectory
  parent := e.parent
  firstFatEntryIdxInFile := first.toNat
  size := e.fileLen
  filename := e.filename
  ext := e.ext
  contents := e.fileData

theorem fileLen_eq (e : FatEvent) :
    (if e.isDirectory then sectorSize else e.fileData.length) = e.fileLen := by
  cases e <;> rfl

theorem fileLen_lt (e : FatEvent) : e.fileLen < 2 ^ 32 := by
  cases e with
  | createDirectory parent filename =>
    show sectorSize < 2 ^ 32
    decide
  | createFile parent filename ext fileData short => exact short

end FatEvent

/-- The state after a call on the directory of `parentNode`. -/
def afterCall (s : FatState) (e : FatEvent) (parentNode : FatFsNode) : FatState :=
  match fatCreateDirOrFile s parentNode.firstFatEntryIdxInFile e.isDirectory e.filename e.ext
      e.fileData with
  | (s, none) => { s with running := false }
  | (s, some first) => fsNodeCreate s (e.node first)

theorem fatNext_eq_some {s t : FatState} {e : FatEvent} : fatNext s e = some t ↔
    s.running = true ∧ ∃ p, s.nodes[e.parent]? = some p ∧ p.isDirectory = true ∧
      afterCall s e p = t := by
  unfold fatNext
  cases hrun : s.running with
  | false => simp
  | true =>
    cases hp : s.nodes[e.parent]? with
    | none => simp
    | some p =>
      cases hdir : p.isDirectory with
      | false => simp [hdir]
      | true =>
        cases e with
        | createDirectory parent filename =>
          simp only [Bool.not_true, Bool.false_eq_true, if_false, hdir, Option.some.injEq, true_and,
            exists_eq_left']
          exact Iff.rfl
        | createFile parent filename ext fileData short =>
          simp only [Bool.not_true, Bool.false_eq_true, if_false, hdir, Option.some.injEq, true_and,
            exists_eq_left']
          exact Iff.rfl

/-! ### Allocation -/

theorem fatSectorCount_eq : fatSectorCount = 1024 := by
  unfold fatSectorCount
  decide

theorem fatEntriesPerSector_eq : fatEntriesPerSector = 128 := by decide

/-- The entries of the table. -/
def fatEntryCount : ℕ := fatSectorCount * fatEntriesPerSector

theorem fatEntryCount_eq : fatEntryCount = 131072 := by
  rw [fatEntryCount, fatSectorCount_eq, fatEntriesPerSector_eq]

theorem mem_allocCandidates {last idx : ℕ} : idx ∈ allocCandidates last ↔
    idx < fatEntryCount ∧ last ≤ fatHeadSector + idx / fatEntriesPerSector := by
  simp only [allocCandidates, List.mem_flatMap, List.mem_range]
  rw [fatEntryCount, fatSectorCount_eq, fatEntriesPerSector_eq, fatHeadSector]
  constructor
  · rintro ⟨i, hi, hidx⟩
    split at hidx
    · cases hidx
    · obtain ⟨j, hj, rfl⟩ := List.mem_map.mp hidx
      rw [List.mem_range] at hj
      omega
  · rintro ⟨hidx, hlast⟩
    refine ⟨idx / 128, by omega, ?_⟩
    rw [if_neg (by omega)]
    exact List.mem_map.mpr ⟨idx % 128, List.mem_range.mpr (by omega), by omega⟩

theorem allocCandidates_sorted (last : ℕ) : (allocCandidates last).Pairwise (· < ·) := by
  rw [allocCandidates, List.pairwise_flatMap]
  constructor
  · intro i _
    split
    · exact .nil
    · rw [List.pairwise_map]
      exact List.pairwise_lt_range.imp fun h => by omega
  · refine List.pairwise_lt_range.imp fun {i i'} hi x hx y hy => ?_
    split at hx
    · cases hx
    · split at hy
      · cases hy
      · obtain ⟨j, hj, rfl⟩ := List.mem_map.mp hx
        obtain ⟨j', hj', rfl⟩ := List.mem_map.mp hy
        rw [List.mem_range, fatEntriesPerSector_eq] at hj hj'
        rw [fatEntriesPerSector_eq]
        omega

variable {n c i j directory : ℕ} {s : FatState} {e : DirectoryEntry}

/-- The search of an ordered list ends at the least item it is for. -/
theorem find?_eq_some_of_sorted {p : ℕ → Bool} : ∀ {items : List ℕ},
    items.Pairwise (· < ·) → n ∈ items → p n = true → (∀ m ∈ items, m < n → p m = false) →
    items.find? p = some n := by
  intro items
  induction items with
  | nil => exact fun _ hn => absurd hn List.not_mem_nil
  | cons m items ih =>
    intro hsorted hn hp hbefore
    obtain ⟨hm, hsorted⟩ := List.pairwise_cons.mp hsorted
    rcases List.mem_cons.mp hn with rfl | hn
    · exact List.find?_cons_of_pos hp
    · rw [List.find?_cons_of_neg (by rw [hbefore m List.mem_cons_self (hm n hn)]; decide)]
      exact ih hsorted hn hp fun m' hm' => hbefore m' (List.mem_cons_of_mem m hm')

/-- The entries below `n` are allocated and no others. -/
structure Front (s : FatState) (n : ℕ) : Prop where
  allocated : ∀ idx, (s.fat idx).allocated = true ↔ idx < n
  le : n ≤ fatEntryCount
  last : s.lastSectorWithFreeSpace ≤ fatHeadSector + n / fatEntriesPerSector

theorem fatFormatDrive_front (old : ℕ → Sector) : Front (fatFormatDrive old) 1 where
  allocated idx := by
    show (idx == 0) = true ↔ idx < 1
    rw [beq_iff_eq]
    omega
  le := by
    rw [fatEntryCount_eq]
    decide
  last := Nat.le_add_right 1 _

/-- The entry `n` allocated, with its link. -/
def allocate (s : FatState) (n next : ℕ) : FatState :=
  { s with
    fat := Function.update s.fat n ⟨true, BitVec.ofNat 16 next⟩
    data := Function.update s.data n fun _ => 0
    lastSectorWithFreeSpace := fatHeadSector + n / fatEntriesPerSector }

theorem Front.free_iff (h : Front s n) (idx : ℕ) : (!(s.fat idx).allocated) = true ↔ n ≤ idx := by
  rw [Bool.not_eq_true', ← Bool.not_eq_true, h.allocated, Nat.not_lt]

/-- **Entries are handed out in order.** -/
theorem fatAllocSector_spec (h : Front s n) (hn : n < fatEntryCount) (next : ℕ) :
    fatAllocSector s next = (allocate s n next, some n) := by
  have hfound : (allocCandidates s.lastSectorWithFreeSpace).find?
      (fun idx => !(s.fat idx).allocated) = some n := by
    refine find?_eq_some_of_sorted (allocCandidates_sorted s.lastSectorWithFreeSpace)
      (mem_allocCandidates.mpr ⟨hn, h.last⟩) ((h.free_iff n).mpr le_rfl) fun m _ hm => ?_
    rw [Bool.not_eq_false', h.allocated]
    exact hm
  unfold fatAllocSector
  simp only [hfound]
  rfl

theorem fatAllocSector_full (h : Front s fatEntryCount) (next : ℕ) :
    fatAllocSector s next = (s, none) := by
  have hnone : (allocCandidates s.lastSectorWithFreeSpace).find?
      (fun idx => !(s.fat idx).allocated) = none := by
    refine List.find?_eq_none.mpr fun idx hidx hfree => ?_
    exact Nat.lt_irrefl _ (Nat.lt_of_le_of_lt ((h.free_iff idx).mp hfree)
      (mem_allocCandidates.mp hidx).1)
  unfold fatAllocSector
  simp only [hnone]

theorem Front.allocate (h : Front s n) (hn : n < fatEntryCount) (next : ℕ) :
    Front (allocate s n next) (n + 1) where
  allocated idx := by
    show (Function.update s.fat n _ idx).allocated = true ↔ _
    by_cases heq : idx = n
    · rw [heq, Function.update_self]
      simp
    · rw [Function.update_of_ne heq, h.allocated]
      omega
  le := hn
  last := Nat.add_le_add_left (Nat.div_le_div_right (Nat.le_succ n)) _

/-! ### The sectors of a file -/

/-- The sector written in the `j`-th turn of the loop. -/
def writtenSector (isDirectory : Bool) (fileData : List Byte) (filePtr bytesToWrite j : ℕ) : Sector :=
  if isDirectory then fun _ => 0
  else dataSector
    ((fileData.drop (filePtr - sectorSize * j)).take (if j = 0 then bytesToWrite else sectorSize))

/-- From `s` to `t` the entries from `n` on were taken, `k` of them, each linked to the one before
it and the first to `next`. -/
structure Took (s t : FatState) (n k next : ℕ) (written : ℕ → Sector) : Prop where
  fat : ∀ idx, t.fat idx =
    if n ≤ idx ∧ idx < n + k then ⟨true, BitVec.ofNat 16 (if idx = n then next else idx - 1)⟩
    else s.fat idx
  data : ∀ idx, t.data idx = if n ≤ idx ∧ idx < n + k then written (idx - n) else s.data idx
  nodes : t.nodes = s.nodes
  running : t.running = s.running

/-- One turn of the loop, as the state it goes on from. -/
def writeSector (isDirectory : Bool) (fileData : List Byte) (filePtr bytesToWrite n next : ℕ)
    (s : FatState) : FatState :=
  { allocate s n next with
    data := Function.update s.data n (writtenSector isDirectory fileData filePtr bytesToWrite 0) }

theorem writeSectors_succ (h : Front s n) (hn : n < fatEntryCount) (isDirectory : Bool)
    (fileData : List Byte) (needed filePtr bytesToWrite next : ℕ) :
    writeSectors isDirectory fileData (needed + 1) filePtr bytesToWrite next s =
      writeSectors isDirectory fileData needed
        (if isDirectory then filePtr else filePtr - sectorSize)
        (if isDirectory then bytesToWrite else sectorSize) n
        (writeSector isDirectory fileData filePtr bytesToWrite n next s) := by
  rw [writeSectors, fatAllocSector_spec h hn]
  cases isDirectory with
  | true => rfl
  | false =>
    have hdata : Function.update (allocate s n next).data n
        (dataSector ((fileData.drop filePtr).take bytesToWrite)) =
        Function.update s.data n (writtenSector false fileData filePtr bytesToWrite 0) :=
      Function.update_idem _ _ _
    simp only [Bool.false_eq_true, if_false, hdata, writeSector]

theorem Front.writeSector (h : Front s n) (hn : n < fatEntryCount) (isDirectory : Bool)
    (fileData : List Byte) (filePtr bytesToWrite next : ℕ) :
    Front (writeSector isDirectory fileData filePtr bytesToWrite n next s) (n + 1) :=
  ⟨(h.allocate hn next).allocated, (h.allocate hn next).le, (h.allocate hn next).last⟩

/-- **A file takes a run of entries**, from the front on. -/
theorem writeSectors_spec (isDirectory : Bool) (fileData : List Byte) :
    ∀ (needed filePtr bytesToWrite next n : ℕ) (s : FatState), Front s n →
      n + needed ≤ fatEntryCount →
      ∃ t, writeSectors isDirectory fileData needed filePtr bytesToWrite next s =
          (t, some (if needed = 0 then next else n + needed - 1)) ∧ Front t (n + needed) ∧
        Took s t n needed next (writtenSector isDirectory fileData filePtr bytesToWrite) := by
  intro needed
  induction needed with
  | zero =>
    intro filePtr bytesToWrite next n s h _
    refine ⟨s, rfl, h, fun idx => ?_, fun idx => ?_, rfl, rfl⟩
    · rw [if_neg (by omega)]
    · rw [if_neg (by omega)]
  | succ needed ih =>
    intro filePtr bytesToWrite next n s h hroom
    have hn : n < fatEntryCount := by omega
    rw [writeSectors_succ h hn]
    obtain ⟨t, ht, hfront, htook⟩ := ih (if isDirectory then filePtr else filePtr - sectorSize)
      (if isDirectory then bytesToWrite else sectorSize) n (n + 1) _
      (h.writeSector hn isDirectory fileData filePtr bytesToWrite next) (by omega)
    refine ⟨t, ?_, ?_, fun idx => ?_, fun idx => ?_, htook.nodes, htook.running⟩
    · rw [ht, if_neg (Nat.succ_ne_zero needed)]
      congr 2
      split <;> omega
    · rw [show n + (needed + 1) = n + 1 + needed from by omega]
      exact hfront
    · rw [htook.fat]
      by_cases heq : idx = n
      · rw [if_neg (by omega), if_pos (by omega), if_pos heq, heq]
        exact Function.update_self ..
      · by_cases hlater : n + 1 ≤ idx ∧ idx < n + 1 + needed
        · have hin : n ≤ idx ∧ idx < n + (needed + 1) := by omega
          have hlink : (if idx = n + 1 then n else idx - 1) = idx - 1 := by split <;> omega
          rw [if_pos hlater, if_pos hin, if_neg heq, hlink]
        · have hout : ¬ (n ≤ idx ∧ idx < n + (needed + 1)) := by omega
          rw [if_neg hlater, if_neg hout]
          exact Function.update_of_ne heq ..
    · rw [htook.data]
      by_cases heq : idx = n
      · rw [if_neg (by omega), if_pos (by omega), heq, Nat.sub_self]
        exact Function.update_self ..
      · by_cases hlater : n + 1 ≤ idx ∧ idx < n + 1 + needed
        · have hin : n ≤ idx ∧ idx < n + (needed + 1) := by omega
          rw [if_pos hlater, if_pos hin]
          cases isDirectory with
          | true => rfl
          | false =>
            obtain ⟨j, rfl⟩ : ∃ j, idx = n + 1 + j := ⟨idx - (n + 1), by omega⟩
            have hptr : filePtr - sectorSize - sectorSize * j = filePtr - sectorSize * (j + 1) := by
              rw [Nat.sub_sub, Nat.mul_succ, Nat.add_comm sectorSize]
            rw [Nat.add_sub_cancel_left, show n + 1 + j - n = j + 1 from by omega]
            simp only [writtenSector, Bool.false_eq_true, if_false, hptr, Nat.succ_ne_zero, ite_self]
        · have hout : ¬ (n ≤ idx ∧ idx < n + (needed + 1)) := by omega
          rw [if_neg hlater, if_neg hout]
          exact Function.update_of_ne heq ..

/-- A file that does not fit takes every entry that is left. -/
theorem writeSectors_full (isDirectory : Bool) (fileData : List Byte) :
    ∀ (needed filePtr bytesToWrite next n : ℕ) (s : FatState), Front s n →
      fatEntryCount < n + needed →
      ∃ t, writeSectors isDirectory fileData needed filePtr bytesToWrite next s = (t, none) ∧
        Front t fatEntryCount := by
  intro needed
  induction needed with
  | zero =>
    intro filePtr bytesToWrite next n s h hfull
    exact absurd h.le (by omega)
  | succ needed ih =>
    intro filePtr bytesToWrite next n s h hfull
    rcases Nat.lt_or_ge n fatEntryCount with hn | hn
    · rw [writeSectors_succ h hn]
      exact ih _ _ n (n + 1) _ (h.writeSector hn isDirectory fileData filePtr bytesToWrite next)
        (by omega)
    · obtain rfl : n = fatEntryCount := Nat.le_antisymm h.le hn
      rw [writeSectors, fatAllocSector_full h]
      exact ⟨s, rfl, h⟩

/-! ### Slots -/

theorem storeSlot_field (sector : Sector) (i : ℕ) (e : DirectoryEntry) (hc : c < 18) :
    storeSlot sector i e (32 * i + c) = e.bytes.getD c 0 := by
  rw [storeSlot, if_pos (by omega), Nat.add_sub_cancel_left]

theorem storeSlot_other (sector : Sector) (e : DirectoryEntry) (hij : j ≠ i) (hc : c < 18) :
    storeSlot sector i e (32 * j + c) = sector (32 * j + c) := by
  rw [storeSlot, if_neg (by omega)]

theorem slot_congr {sector sector' : Sector}
    (h : ∀ c < 18, sector (32 * i + c) = sector' (32 * j + c)) :
    slot sector i = slot sector' j := by
  have hfilename : ∀ c ∈ List.range fatFilenameSize,
      sector (32 * i + 1 + c) = sector' (32 * j + 1 + c) := fun c hc => by
    have hc : c < 8 := List.mem_range.mp hc
    rw [Nat.add_assoc, Nat.add_assoc, h (1 + c) (by omega)]
  have hext : ∀ c ∈ List.range fatFileExtSize,
      sector (32 * i + 9 + c) = sector' (32 * j + 9 + c) := fun c hc => by
    have hc : c < 3 := List.mem_range.mp hc
    rw [Nat.add_assoc, Nat.add_assoc, h (9 + c) (by omega)]
  have hzero := h 0 (by decide)
  rw [Nat.add_zero, Nat.add_zero] at hzero
  simp only [slot, List.map_congr_left hfilename, List.map_congr_left hext, hzero,
    h 12 (by decide), h 13 (by decide), h 14 (by decide), h 15 (by decide), h 16 (by decide),
    h 17 (by decide)]

theorem slot_bytes (hfilename : e.filename.length = fatFilenameSize)
    (hext : e.ext.length = fatFileExtSize) : slot (fun k => e.bytes.getD k 0) 0 = e := by
  obtain ⟨isDirectory, filename, ext, first, size⟩ := e
  obtain ⟨a, b, c, d, a', b', c', d', rfl⟩ : ∃ a b c d a' b' c' d' : Byte,
      filename = [a, b, c, d, a', b', c', d'] := by
    match filename, hfilename with
    | [a, b, c, d, a', b', c', d'], _ => exact ⟨a, b, c, d, a', b', c', d', rfl⟩
  obtain ⟨x, y, z, rfl⟩ : ∃ x y z : Byte, ext = [x, y, z] := List.length_eq_three.mp hext
  have hfirst : first.extractLsb' 8 8 ++ first.extractLsb' 0 8 = first :=
    BitVec.extractLsb'_append_extractLsb'
  have hsize : size.extractLsb' 24 8 ++ size.extractLsb' 16 8 ++ size.extractLsb' 8 8 ++
      size.extractLsb' 0 8 = size := by
    rw [BitVec.extractLsb'_append_extractLsb'_eq_extractLsb' (by decide),
      BitVec.extractLsb'_append_extractLsb'_eq_extractLsb' (by decide),
      BitVec.extractLsb'_append_extractLsb'_eq_extractLsb' (by decide), BitVec.extractLsb'_eq_self]
  have hfields : slot (fun k => (DirectoryEntry.bytes ⟨isDirectory, [a, b, c, d, a', b', c', d'],
        [x, y, z], first, size⟩).getD k 0) 0 =
      ⟨(if isDirectory then 1 else 0 : Byte) != 0, [a, b, c, d, a', b', c', d'], [x, y, z],
        first.extractLsb' 8 8 ++ first.extractLsb' 0 8,
        size.extractLsb' 24 8 ++ size.extractLsb' 16 8 ++ size.extractLsb' 8 8 ++
          size.extractLsb' 0 8⟩ := rfl
  rw [hfields, hfirst, hsize]
  cases isDirectory <;> rfl

theorem slot_storeSlot_self (sector : Sector) (i : ℕ)
    (hfilename : e.filename.length = fatFilenameSize) (hext : e.ext.length = fatFileExtSize) :
    slot (storeSlot sector i e) i = e := by
  refine (slot_congr fun c hc => ?_).trans (slot_bytes hfilename hext)
  rw [storeSlot_field sector i e hc, Nat.mul_zero, Nat.zero_add]

theorem slot_storeSlot_of_ne (sector : Sector) (e : DirectoryEntry) (hij : j ≠ i) :
    slot (storeSlot sector i e) j = slot sector j :=
  slot_congr fun _ hc => storeSlot_other sector e hij hc

theorem slot_zero (i : ℕ) :
    (slot (fun _ => 0) i).firstFatEntryIdxInFile.toNat = fatSectorTypeEof := by
  show ((0 : Byte) ++ (0 : Byte)).toNat = 0
  decide

@[simp] theorem slot_ext_length (sector : Sector) (i : ℕ) :
    (slot sector i).ext.length = fatFileExtSize := by
  simp [slot]

@[simp] theorem strncpy_length (n : ℕ) (s : CString) : (strncpy n s).length = n := by
  simp [strncpy]

/-! ### A creation on the disk -/

theorem neededSectors_eq (fileLen : ℕ) :
    neededSectors fileLen = (fileLen + (sectorSize - 1)) / sectorSize := by
  rw [neededSectors, sectorSize]
  split <;> omega

/-- The `m`-th sector's worth of a file. -/
def chunk (fileData : List Byte) (m : ℕ) : List Byte :=
  (fileData.drop (sectorSize * m)).take sectorSize

/-- The bytes taken in the `j`-th turn of the loop, as a sector's worth counted from the front. -/
theorem writtenChunk_eq {fileData : List Byte} (hj : j < neededSectors fileData.length) :
    (fileData.drop (fileData.length - fileBytesInTerminatingSector fileData.length -
        sectorSize * j)).take
        (if j = 0 then fileBytesInTerminatingSector fileData.length else sectorSize) =
      chunk fileData (neededSectors fileData.length - 1 - j) := by
  rw [chunk, sectorSize]
  rw [neededSectors, sectorSize] at hj ⊢
  rw [fileBytesInTerminatingSector, sectorSize]
  split at hj
  · rename_i hpart
    have hptr : fileData.length - fileData.length % 512 - 512 * j =
        512 * (fileData.length / 512 + 1 - 1 - j) := by omega
    rw [if_pos hpart, if_pos hpart, hptr]
    split
    · have hrest : (fileData.drop (512 * (fileData.length / 512 + 1 - 1 - j))).length =
          fileData.length % 512 := by
        rw [List.length_drop]
        omega
      rw [List.take_of_length_le hrest.le, List.take_of_length_le (by omega)]
    · rfl
  · rename_i hwhole
    have hptr : fileData.length - 512 - 512 * j = 512 * (fileData.length / 512 - 1 - j) := by omega
    rw [if_neg hwhole, if_neg hwhole, hptr, ite_self]

namespace FatEvent

/-- What is stored in the slot. -/
def entry (e : FatEvent) (oldExt : List Byte) (first : BitVec 16) : DirectoryEntry where
  isDirectory := e.isDirectory
  filename := strncpy fatFilenameSize e.filename
  ext := if e.isDirectory then oldExt else strncpy fatFileExtSize e.ext
  firstFatEntryIdxInFile := first
  size := BitVec.ofNat 32 e.fileLen

/-- The sector written in the `j`-th turn. -/
def written (e : FatEvent) (j : ℕ) : Sector :=
  writtenSector e.isDirectory e.fileData (e.fileLen - fileBytesInTerminatingSector e.fileLen)
    (fileBytesInTerminatingSector e.fileLen) j

/-- The sectors needed. -/
def needed (e : FatEvent) : ℕ := neededSectors e.fileLen

variable {e : FatEvent}

theorem needed_directory (h : e.isDirectory = true) : e.needed = 1 := by
  cases e with
  | createDirectory parent filename =>
    show neededSectors sectorSize = 1
    decide
  | createFile parent filename ext fileData short => cases h

theorem written_directory (h : e.isDirectory = true) (j : ℕ) : e.written j = fun _ => 0 := by
  rw [written, writtenSector, if_pos h]

/-- The turns go from the last sector's worth to the first. -/
theorem written_file (h : e.isDirectory = false) {j : ℕ} (hj : j < e.needed) :
    e.written j = dataSector (chunk e.fileData (e.needed - 1 - j)) := by
  have hlen : e.fileLen = e.fileData.length := by
    rw [← fileLen_eq, h]
    rfl
  rw [needed, hlen] at hj ⊢
  rw [written, writtenSector, h, hlen, if_neg Bool.false_ne_true, ← writtenChunk_eq hj]

end FatEvent

/-- The state and the first entry after a creation for which there is room. -/
theorem fatCreateDirOrFile_spec (h : Front s n) (e : FatEvent)
    (hslot : freeSlot (s.data directory) = some i) (hroom : n + e.needed ≤ fatEntryCount) :
    ∃ t, fatCreateDirOrFile s directory e.isDirectory e.filename e.ext e.fileData =
        ({ t with data := Function.update t.data directory (storeSlot (s.data directory) i
            (e.entry (slot (s.data directory) i).ext
              (BitVec.ofNat 16 (if e.needed = 0 then 0 else n + e.needed - 1)))) },
          some (BitVec.ofNat 16 (if e.needed = 0 then 0 else n + e.needed - 1))) ∧
      Front t (n + e.needed) ∧ Took s t n e.needed 0 e.written := by
  obtain ⟨t, ht, hfront, htook⟩ := writeSectors_spec e.isDirectory e.fileData e.needed
    (e.fileLen - fileBytesInTerminatingSector e.fileLen) (fileBytesInTerminatingSector e.fileLen)
    fatSectorTypeEof n s h hroom
  refine ⟨t, ?_, hfront, htook⟩
  rw [FatEvent.needed] at ht
  simp only [fatCreateDirOrFile, hslot, e.fileLen_eq, ht]
  rfl

theorem fatCreateDirOrFile_noSlot (e : FatEvent) (hslot : freeSlot (s.data directory) = none) :
    fatCreateDirOrFile s directory e.isDirectory e.filename e.ext e.fileData = (s, none) := by
  simp only [fatCreateDirOrFile, hslot]

/-- There are not enough entries left: those that are left are taken. -/
theorem fatCreateDirOrFile_full (h : Front s n) (e : FatEvent)
    (hslot : freeSlot (s.data directory) = some i) (hfull : fatEntryCount < n + e.needed) :
    ∃ t, fatCreateDirOrFile s directory e.isDirectory e.filename e.ext e.fileData = (t, none) ∧
      Front t fatEntryCount := by
  obtain ⟨t, ht, hfront⟩ := writeSectors_full e.isDirectory e.fileData e.needed
    (e.fileLen - fileBytesInTerminatingSector e.fileLen) (fileBytesInTerminatingSector e.fileLen)
    fatSectorTypeEof n s h hfull
  refine ⟨t, ?_, hfront⟩
  rw [FatEvent.needed] at ht
  simp only [fatCreateDirOrFile, hslot, e.fileLen_eq, ht]

end Axle.FileManager
