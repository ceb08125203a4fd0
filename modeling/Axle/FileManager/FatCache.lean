import Axle.FileManager.FatFiles

/-!
# The cache of table sectors

`fat_read_table_sector` keeps the table sectors it has read in `_g_fat_sector_cache`; every entry
that is allocated makes the copy of its table sector invalid.  Nothing else writes to the table once
the cache is there, so a valid copy is always what the disk holds.

* `fatReadTableSector`, `fatCacheInvalidateTableSector` — the cache;
* `FatManager.fatAllocSector` to `FatManager.afterCall` — the creations, which write to the table;
* `CacheAgrees.afterCall` — **PROVED**: a creation keeps the cache in agreement with the disk, also
  one that stops half way;
* `afterCall_disk` — **PROVED**: the disk does not depend on the cache.
-/

namespace Axle.FileManager

/-- `fat_cached_sector_t`: the entries of a table sector. -/
structure FatCachedSector where
  valid : Bool
  data : ℕ → FatEntry

/-- The disk and the process, with `_g_fat_sector_cache` by the number of the table sector. -/
structure FatManager where
  disk : FatState
  fatSectorCache : ℕ → FatCachedSector

/-- The sectors of an array that `fat_parse_from_disk` has just made. -/
def fatEmptyCache : ℕ → FatCachedSector := fun _ => ⟨false, fun _ => ⟨false, 0⟩⟩

/-- The table sector `i` on disk. -/
def tableSector (s : FatState) (i : ℕ) : ℕ → FatEntry := fun j => s.fat (i * fatEntriesPerSector + j)

/-- An assertion of the reader that fails, by its text. -/
inductive FatStop where
  /-- `"fat_read_table_sector passed invalid sector?"` -/
  | invalidSector
  /-- `"not implemented"` -/
  | notImplemented
deriving DecidableEq, Repr

def fatCacheInvalidateTableSector (m : FatManager) (i : ℕ) : FatManager :=
  if (m.fatSectorCache i).valid then
    { m with fatSectorCache :=
        Function.update m.fatSectorCache i { m.fatSectorCache i with valid := false } }
  else m

def fatReadTableSector (m : FatManager) (i : ℕ) :
    Except FatStop (FatManager × (ℕ → FatEntry)) :=
  if fatSectorCount ≤ i then .error .invalidSector
  else if (m.fatSectorCache i).valid then .ok (m, (m.fatSectorCache i).data)
  else .ok
    ({ m with fatSectorCache := Function.update m.fatSectorCache i ⟨true, tableSector m.disk i⟩ },
      tableSector m.disk i)

/-! ### The creations, with the cache -/

namespace FatManager

/-- `fat_alloc_sector`. -/
def fatAllocSector (m : FatManager) (nextFatEntryIdxInFile : ℕ) : FatManager × Option ℕ :=
  match Axle.FileManager.fatAllocSector m.disk nextFatEntryIdxInFile with
  | (s, none) => ({ m with disk := s }, none)
  | (s, some idx) =>
    (fatCacheInvalidateTableSector { m with disk := s } (idx / fatEntriesPerSector), some idx)

/-- `ata_write_sector` to the sector that the entry `idx` stands for. -/
def writeData (m : FatManager) (idx : ℕ) (sector : Sector) : FatManager :=
  { m with disk := { m.disk with data := Function.update m.disk.data idx sector } }

/-- The loop of `_fat_create_dir_or_file`. -/
def writeSectors (isDirectory : Bool) (fileData : List Byte) :
    (neededSectors filePtr bytesToWrite nextFatEntryIdx : ℕ) → FatManager → FatManager × Option ℕ
  | 0, _, _, next, m => (m, some next)
  | needed + 1, filePtr, bytesToWrite, next, m =>
    match m.fatAllocSector next with
    | (m, none) => (m, none)
    | (m, some idx) =>
      if isDirectory then writeSectors isDirectory fileData needed filePtr bytesToWrite idx m
      else
        writeSectors isDirectory fileData needed (filePtr - sectorSize) sectorSize idx
          (m.writeData idx (dataSector ((fileData.drop filePtr).take bytesToWrite)))

/-- `_fat_create_dir_or_file`. -/
def fatCreateDirOrFile (m : FatManager) (directory : ℕ) (isDirectory : Bool) (filename ext : CString)
    (fileData : List Byte) : FatManager × Option (BitVec 16) :=
  let sector := m.disk.data directory
  match freeSlot sector with
  | none => (m, none)
  | some i =>
    let fileLen := if isDirectory then sectorSize else fileData.length
    match writeSectors isDirectory fileData (neededSectors fileLen)
        (fileLen - fileBytesInTerminatingSector fileLen) (fileBytesInTerminatingSector fileLen)
        fatSectorTypeEof m with
    | (m, none) => (m, none)
    | (m, some next) =>
      let e : DirectoryEntry :=
        { isDirectory
          filename := strncpy fatFilenameSize filename
          ext := if isDirectory then (slot sector i).ext else strncpy fatFileExtSize ext
          firstFatEntryIdxInFile := BitVec.ofNat 16 next
          size := BitVec.ofNat 32 fileLen }
      (m.writeData directory (storeSlot sector i e), some e.firstFatEntryIdxInFile)

/-- `fat_create_directory` and `fat_create_file` on the directory of `parentNode`. -/
def afterCall (m : FatManager) (e : FatEvent) (parentNode : FatFsNode) : FatManager :=
  match m.fatCreateDirOrFile parentNode.firstFatEntryIdxInFile e.isDirectory e.filename e.ext
      e.fileData with
  | (m, none) => { m with disk := { m.disk with running := false } }
  | (m, some first) => { m with disk := fsNodeCreate m.disk (e.node first) }

end FatManager

/-! ### The disk does not depend on the cache -/

@[simp] theorem fatCacheInvalidateTableSector_disk (m : FatManager) (i : ℕ) :
    (fatCacheInvalidateTableSector m i).disk = m.disk := by
  rw [fatCacheInvalidateTableSector]
  split <;> rfl

namespace FatManager

theorem fatAllocSector_disk (m : FatManager) (next : ℕ) :
    ((m.fatAllocSector next).1.disk, (m.fatAllocSector next).2) =
      Axle.FileManager.fatAllocSector m.disk next := by
  rw [fatAllocSector]
  split
  · rename_i s hs
    exact hs.symm
  · rename_i s idx hs
    rw [fatCacheInvalidateTableSector_disk]
    exact hs.symm

theorem writeSectors_disk (isDirectory : Bool) (fileData : List Byte) :
    ∀ (needed filePtr bytesToWrite next : ℕ) (m : FatManager),
      ((writeSectors isDirectory fileData needed filePtr bytesToWrite next m).1.disk,
        (writeSectors isDirectory fileData needed filePtr bytesToWrite next m).2) =
      Axle.FileManager.writeSectors isDirectory fileData needed filePtr bytesToWrite next
        m.disk := by
  intro needed
  induction needed with
  | zero =>
    intro filePtr bytesToWrite next m
    rw [writeSectors, Axle.FileManager.writeSectors]
  | succ needed ih =>
    intro filePtr bytesToWrite next m
    have halloc := fatAllocSector_disk m next
    rw [writeSectors, Axle.FileManager.writeSectors, ← halloc]
    obtain ⟨m', found⟩ := m.fatAllocSector next
    cases found with
    | none => rfl
    | some idx =>
      cases isDirectory with
      | true => exact ih filePtr bytesToWrite idx m'
      | false => exact ih (filePtr - sectorSize) sectorSize idx _

theorem fatCreateDirOrFile_disk (m : FatManager) (directory : ℕ) (isDirectory : Bool)
    (filename ext : CString) (fileData : List Byte) :
    ((m.fatCreateDirOrFile directory isDirectory filename ext fileData).1.disk,
        (m.fatCreateDirOrFile directory isDirectory filename ext fileData).2) =
      Axle.FileManager.fatCreateDirOrFile m.disk directory isDirectory filename ext fileData := by
  rw [fatCreateDirOrFile, Axle.FileManager.fatCreateDirOrFile]
  cases hslot : freeSlot (m.disk.data directory) with
  | none => rfl
  | some i =>
    simp only [← writeSectors_disk]
    generalize writeSectors isDirectory fileData _ _ _ _ m = written
    obtain ⟨m', found⟩ := written
    cases found with
    | none => rfl
    | some next => rfl

/-- **The disk after a creation** is that of the creation without the cache. -/
theorem afterCall_disk (m : FatManager) (e : FatEvent) (parentNode : FatFsNode) :
    (m.afterCall e parentNode).disk = Axle.FileManager.afterCall m.disk e parentNode := by
  have hcreate := m.fatCreateDirOrFile_disk parentNode.firstFatEntryIdxInFile e.isDirectory
    e.filename e.ext e.fileData
  rw [afterCall, Axle.FileManager.afterCall, ← hcreate]
  obtain ⟨m', found⟩ := m.fatCreateDirOrFile parentNode.firstFatEntryIdxInFile e.isDirectory
    e.filename e.ext e.fileData
  cases found with
  | none => rfl
  | some first => rfl

end FatManager

/-! ### The cache agrees with the disk -/

/-- Every valid copy of a table sector is the sector on disk. -/
def CacheAgrees (m : FatManager) : Prop :=
  ∀ i j, j < fatEntriesPerSector → (m.fatSectorCache i).valid = true →
    (m.fatSectorCache i).data j = tableSector m.disk i j

theorem cacheAgrees_empty (s : FatState) : CacheAgrees ⟨s, fatEmptyCache⟩ :=
  fun _ _ _ hvalid => nomatch hvalid

theorem CacheAgrees.of_fat {m : FatManager} {s : FatState} (h : CacheAgrees m)
    (hfat : s.fat = m.disk.fat) : CacheAgrees { m with disk := s } := by
  intro i j hj hvalid
  rw [h i j hj hvalid, tableSector, tableSector, hfat]

theorem CacheAgrees.writeData {m : FatManager} (h : CacheAgrees m) (idx : ℕ) (sector : Sector) :
    CacheAgrees (m.writeData idx sector) :=
  h.of_fat rfl

theorem CacheAgrees.readTableSector {m : FatManager} (h : CacheAgrees m) {i : ℕ}
    (hi : i < fatSectorCount) : ∃ m' data, fatReadTableSector m i = .ok (m', data) ∧
      m'.disk = m.disk ∧ CacheAgrees m' ∧
      ∀ j < fatEntriesPerSector, data j = tableSector m.disk i j := by
  rw [fatReadTableSector, if_neg (Nat.not_le.mpr hi)]
  cases hvalid : (m.fatSectorCache i).valid with
  | true => exact ⟨m, _, rfl, rfl, h, fun j hj => h i j hj hvalid⟩
  | false =>
    refine ⟨_, _, rfl, rfl, fun i' j hj hvalid' => ?_, fun j _ => rfl⟩
    by_cases heq : i' = i
    · subst heq
      simp only [Function.update_self]
    · simp only [Function.update_of_ne heq] at hvalid' ⊢
      exact h i' j hj hvalid'

/-- Where the cache agrees with all but one sector of the table, it is made to agree by dropping
that sector. -/
theorem CacheAgrees.invalidate {m : FatManager} {i : ℕ}
    (h : ∀ i' j, i' ≠ i → j < fatEntriesPerSector → (m.fatSectorCache i').valid = true →
      (m.fatSectorCache i').data j = tableSector m.disk i' j) :
    CacheAgrees (fatCacheInvalidateTableSector m i) := by
  intro i' j hj
  rw [fatCacheInvalidateTableSector_disk, fatCacheInvalidateTableSector]
  by_cases heq : i' = i
  · subst heq
    split
    · intro hvalid
      simp only [Function.update_self] at hvalid
      cases hvalid
    · rename_i hinvalid
      exact fun hvalid => absurd hvalid hinvalid
  · split
    · simp only [Function.update_of_ne heq]
      exact h i' j heq hj
    · exact h i' j heq hj

namespace CacheAgrees

variable {m : FatManager} (h : CacheAgrees m)

include h

/-- **An allocation** writes to one table sector, and drops it from the cache. -/
theorem fatAllocSector (next : ℕ) : CacheAgrees (m.fatAllocSector next).1 := by
  rw [FatManager.fatAllocSector, Axle.FileManager.fatAllocSector]
  cases hfound : (allocCandidates m.disk.lastSectorWithFreeSpace).find?
      fun idx => !(m.disk.fat idx).allocated with
  | none => exact h
  | some idx =>
    refine CacheAgrees.invalidate fun i' j hne hj hvalid => ?_
    have hother : i' * fatEntriesPerSector + j ≠ idx := by
      rintro rfl
      rw [fatEntriesPerSector_eq] at hne hj
      omega
    exact (h i' j hj hvalid).trans (Function.update_of_ne hother ..).symm

theorem writeSectors (isDirectory : Bool) (fileData : List Byte)
    (needed filePtr bytesToWrite next : ℕ) :
    CacheAgrees (FatManager.writeSectors isDirectory fileData needed filePtr bytesToWrite next
      m).1 := by
  induction needed generalizing filePtr bytesToWrite next m with
  | zero =>
    exact h
  | succ needed ih =>
    have halloc := h.fatAllocSector next
    rw [FatManager.writeSectors]
    generalize m.fatAllocSector next = taken at halloc ⊢
    obtain ⟨m', found⟩ := taken
    cases found with
    | none => exact halloc
    | some idx =>
      cases isDirectory with
      | true => exact ih halloc filePtr bytesToWrite idx
      | false =>
        exact ih (halloc.writeData idx (dataSector ((fileData.drop filePtr).take bytesToWrite)))
          (filePtr - sectorSize) sectorSize idx

theorem fatCreateDirOrFile (directory : ℕ) (isDirectory : Bool) (filename ext : CString)
    (fileData : List Byte) :
    CacheAgrees (m.fatCreateDirOrFile directory isDirectory filename ext fileData).1 := by
  rw [FatManager.fatCreateDirOrFile]
  cases hslot : freeSlot (m.disk.data directory) with
  | none => exact h
  | some i =>
    have hwritten := h.writeSectors isDirectory fileData
      (neededSectors (if isDirectory then sectorSize else fileData.length))
      ((if isDirectory then sectorSize else fileData.length) -
        fileBytesInTerminatingSector (if isDirectory then sectorSize else fileData.length))
      (fileBytesInTerminatingSector (if isDirectory then sectorSize else fileData.length))
      fatSectorTypeEof
    simp only
    generalize FatManager.writeSectors isDirectory fileData _ _ _ _ m = written at hwritten ⊢
    obtain ⟨m', found⟩ := written
    cases found with
    | none => exact hwritten
    | some next => exact hwritten.writeData directory _

/-- **A creation keeps the cache in agreement with the disk.** -/
theorem afterCall (e : FatEvent) (parentNode : FatFsNode) :
    CacheAgrees (m.afterCall e parentNode) := by
  have hcreate := h.fatCreateDirOrFile parentNode.firstFatEntryIdxInFile e.isDirectory e.filename
    e.ext e.fileData
  rw [FatManager.afterCall]
  generalize m.fatCreateDirOrFile parentNode.firstFatEntryIdxInFile e.isDirectory e.filename
    e.ext e.fileData = created at hcreate ⊢
  obtain ⟨m', found⟩ := created
  cases found with
  | none => exact hcreate.of_fat rfl
  | some first => exact hcreate.of_fat (fsNodeCreate_disk m'.disk (e.node first)).1

end CacheAgrees

end Axle.FileManager
