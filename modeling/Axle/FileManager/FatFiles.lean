import Axle.FileManager.FatStructure

/-!
# Reading files back

`fat_read_file` follows the chain of a file and copies its sectors into a buffer of the file's size.
The size is to go to the caller through `out_file_size`, and the handler of
`FILE_MANAGER_READ_FILE` sends as many bytes as it finds there; nothing is ever stored to it.

* `FatInv.readFile` — **PROVED**: as long as the files fit below the entry 65536, what is read is
  what was written, whatever was created afterwards;
* `fat_round_trip_iff` — **PROVED**: contents and length come back for every file exactly when every
  file is empty.
-/

namespace Axle.FileManager

open Axle.Lib.StepRun

/-! ### Reading -/

/-- The loop of `fat_read_file`; a chain that does not end runs out of fuel. -/
def readLoop (s : FatState) (size : ℕ) :
    (fuel fatEntryIndex fileOffset : ℕ) → List Byte → Option (List Byte)
  | 0, _, _, _ => none
  | fuel + 1, fatEntryIndex, fileOffset, out =>
    let nextFatEntryIndex := (s.fat fatEntryIndex).nextFatEntryIdxInFile.toNat
    let bytesRemainingInFile := size - fileOffset
    let bytesToCopyFromSector := min sectorSize bytesRemainingInFile
    let out := out ++ (List.range bytesToCopyFromSector).map (s.data fatEntryIndex)
    if nextFatEntryIndex = fatSectorTypeEof then some out
    else readLoop s size fuel nextFatEntryIndex (fileOffset + bytesToCopyFromSector) out

/-- The buffer that is returned, and what is in `*out_file_size` then. -/
def fatReadFile (s : FatState) (node : FatFsNode) (fuel outFileSize : ℕ) :
    Option (List Byte × ℕ) :=
  (readLoop s node.size fuel node.firstFatEntryIdxInFile 0 []).map fun out =>
    (out ++ List.replicate (node.size - out.length) 0, outFileSize)

/-- The response of the handler: `file_size`, and as many bytes. -/
def readFileResponse (s : FatState) (node : FatFsNode) (fuel : ℕ) : Option (ℕ × List Byte) :=
  (fatReadFile s node fuel 0).map fun (fileData, fileSize) => (fileSize, fileData.take fileSize)

/-! ### What is read is what was written -/

theorem map_dataSector {bytes : List Byte} {k : ℕ} (hk : bytes.length = k) :
    (List.range k).map (dataSector bytes) = bytes := by
  refine List.ext_getElem (by simp [hk]) fun j hj hj' => ?_
  rw [List.getElem_map, List.getElem_range, dataSector, List.getD_eq_getElem?_getD,
    List.getElem?_eq_getElem hj', Option.getD_some]

theorem chunk_length (d : List Byte) (j : ℕ) :
    (chunk d j).length = min sectorSize (d.length - sectorSize * j) := by
  rw [chunk, List.length_take, List.length_drop]

theorem take_append_chunk (d : List Byte) (j : ℕ) :
    d.take (sectorSize * j) ++ chunk d j = d.take (sectorSize * (j + 1)) := by
  rw [chunk, Nat.mul_succ, List.take_add]

theorem fatReadFile_of_readLoop {s : FatState} {node : FatFsNode} {fuel : ℕ} {out : List Byte}
    (hloop : readLoop s node.size fuel node.firstFatEntryIdxInFile 0 [] = some out)
    (hlen : node.size = out.length) (outFileSize : ℕ) :
    fatReadFile s node fuel outFileSize = some (out, outFileSize) := by
  rw [fatReadFile, hloop, Option.map_some, hlen, Nat.sub_self, List.replicate_zero,
    List.append_nil]

/-- A file without sectors: one turn at the entry of the root directory, which copies nothing. -/
theorem readLoop_empty {s : FatState} (hroot : (s.fat 0).nextFatEntryIdxInFile.toNat = 0)
    (fuel : ℕ) : readLoop s 0 (fuel + 1) 0 0 [] = some [] := by
  rw [readLoop]
  exact if_pos hroot

namespace FatInv

variable {s : FatState} {nodes : List FatFsNode} {n : ℕ} (h : FatInv s nodes n)

include h

theorem root_next : (s.fat 0).nextFatEntryIdxInFile.toNat = 0 := by
  rw [h.links fatRoot (List.mem_of_getElem? h.root) 0 (h.directory_covers h.root rfl),
    fatRoot_sectors]
  rfl

/-- The loop, from the `j`-th sector of a file on. -/
theorem readLoop {k : ℕ} {node : FatFsNode} (hk : 0 < k) (hnode : nodes[k]? = some node)
    (hfile : node.isDirectory = false) {j : ℕ} (hj : j < node.sectors) : ∀ {fuel : ℕ},
    node.sectors - j ≤ fuel →
    Axle.FileManager.readLoop s node.size fuel (node.firstFatEntryIdxInFile - j) (sectorSize * j)
      (node.contents.take (sectorSize * j)) = some node.contents := by
  have hmem := List.mem_of_getElem? hnode
  have hsize : node.size = node.contents.length := by
    rw [h.sizes node hmem, if_neg (by rw [hfile]; exact Bool.false_ne_true)]
  have hsectors : node.sectors = (node.contents.length + (sectorSize - 1)) / sectorSize := by
    rw [FatFsNode.sectors, hsize, neededSectors_eq]
  have hle := h.sectors_le_first hk hnode (by omega)
  -- from the last sector to the first
  obtain ⟨m, hm⟩ : ∃ m, node.sectors - j = m + 1 := ⟨node.sectors - j - 1, by omega⟩
  induction m generalizing j with
  | zero =>
    intro fuel hfuel
    obtain ⟨fuel, rfl⟩ : ∃ f, fuel = f + 1 := ⟨fuel - 1, by omega⟩
    have hcov : node.Covers (node.firstFatEntryIdxInFile - j) := ⟨by omega, by omega⟩
    have hnext := h.links node hmem _ hcov
    rw [if_pos (by omega)] at hnext
    have hdata := h.contents node hmem hfile _ hcov
    rw [show node.firstFatEntryIdxInFile - (node.firstFatEntryIdxInFile - j) = j from by omega]
      at hdata
    have hall : node.contents.take (sectorSize * (j + 1)) = node.contents := by
      refine List.take_of_length_le ?_
      rw [sectorSize] at hsectors ⊢
      omega
    rw [Axle.FileManager.readLoop]
    simp only [hnext, hdata, hsize]
    have heof : (0 : ℕ) = fatSectorTypeEof := rfl
    rw [if_pos heof, map_dataSector (chunk_length _ _), take_append_chunk, hall]
  | succ m ih =>
    intro fuel hfuel
    obtain ⟨fuel, rfl⟩ : ∃ f, fuel = f + 1 := ⟨fuel - 1, by omega⟩
    have hcov : node.Covers (node.firstFatEntryIdxInFile - j) := ⟨by omega, by omega⟩
    have hnext := h.links node hmem _ hcov
    rw [if_neg (by omega), Nat.sub_sub] at hnext
    have hdata := h.contents node hmem hfile _ hcov
    rw [show node.firstFatEntryIdxInFile - (node.firstFatEntryIdxInFile - j) = j from by omega]
      at hdata
    have hfull : min sectorSize (node.contents.length - sectorSize * j) = sectorSize := by
      rw [sectorSize] at hsectors ⊢
      omega
    have hrest := @ih (j + 1) (by omega) (by omega) fuel (by omega)
    rw [hsize] at hrest
    rw [Axle.FileManager.readLoop]
    simp only [hnext, hdata, hsize]
    have hne : node.firstFatEntryIdxInFile - (j + 1) ≠ fatSectorTypeEof :=
      Nat.sub_ne_zero_of_lt (by omega)
    rw [if_neg hne, map_dataSector (chunk_length _ _), take_append_chunk, hfull, ← Nat.mul_succ]
    exact hrest

/-- **What is read of a file is what was written.** -/
theorem readFile {k : ℕ} {node : FatFsNode} (hk : 0 < k) (hnode : nodes[k]? = some node)
    (hfile : node.isDirectory = false) {fuel : ℕ} (hfuel : node.sectors < fuel) (outFileSize : ℕ) :
    fatReadFile s node fuel outFileSize = some (node.contents, outFileSize) := by
  have hmem := List.mem_of_getElem? hnode
  have hsize : node.size = node.contents.length := by
    rw [h.sizes node hmem, if_neg (by rw [hfile]; exact Bool.false_ne_true)]
  refine fatReadFile_of_readLoop ?_ hsize outFileSize
  rcases Nat.eq_zero_or_pos node.sectors with hzero | hpos
  · have hlen : node.contents.length = 0 := by
      rw [FatFsNode.sectors, hsize, neededSectors_eq, sectorSize] at hzero
      omega
    obtain ⟨fuel, rfl⟩ : ∃ f, fuel = f + 1 := ⟨fuel - 1, by omega⟩
    rw [hsize, hlen, h.empty node hmem hzero, readLoop_empty h.root_next,
      List.length_eq_zero_iff.mp hlen]
  · have hloop := h.readLoop hk hnode hfile hpos hfuel.le
    exact hloop

end FatInv

/-! ### Runs -/

/-- **What any call does**: it ends the process, or makes its node and takes entries that were
free. -/
theorem fatNext_cases {s t : FatState} {n : ℕ} {e : FatEvent} (hfront : Front s n)
    (hnext : fatNext s e = some t) :
    t.running = false ∨ t.nodes = s.nodes ++ [e.node (e.first n)] ∧ Front t (n + e.needed) ∧
      ∀ idx < n, t.fat idx = s.fat idx := by
  obtain ⟨-, p, -, -, rfl⟩ := fatNext_eq_some.mp hnext
  rcases afterCall_cases hfront e p with ⟨-, ht⟩ | ⟨i, -, ⟨-, u, -, ht⟩ | ⟨-, u, hu, htook, ht⟩⟩
  · exact .inl (by rw [ht])
  · exact .inl (by rw [ht])
  · obtain ⟨hfat, -, hlast, hnodes⟩ := fsNodeCreate_disk
      (stored s u e p.firstFatEntryIdxInFile i n) (e.node (e.first n))
    rw [ht]
    cases hgoes : (fsNodeCreate (stored s u e p.firstFatEntryIdxInFile i n)
        (e.node (e.first n))).running with
    | false => exact .inl rfl
    | true =>
      refine .inr ⟨?_, hu.of_disk hfat hlast, fun idx hidx => ?_⟩
      · rw [hnodes hgoes, ← htook.nodes]
        rfl
      · rw [hfat]
        exact (htook.fat idx).trans (if_neg (by omega))

theorem not_running_of_run {s t : FatState} (hstop : s.running = false) {es : List FatEvent}
    (hrun : run fatNext s es = some t) : t.running = false := by
  cases es with
  | nil => exact (Option.some.inj hrun) ▸ hstop
  | cons e es =>
    obtain ⟨u, hu, -⟩ := run_cons_eq_some.mp hrun
    rw [(fatNext_eq_some.mp hu).1] at hstop
    cases hstop

/-- **What a run that goes on does**: it makes a node for each call, and an empty one has the entry
of the root directory for its first. -/
theorem run_nodes : ∀ {es : List FatEvent} {s t : FatState} {n : ℕ}, Front s n → 1 ≤ n →
    run fatNext s es = some t → t.running = true →
    t.fat 0 = s.fat 0 ∧ ∃ rest : List FatFsNode, t.nodes = s.nodes ++ rest ∧
      ∀ (k : ℕ) (e : FatEvent), es[k]? = some e →
        ∃ first, rest[k]? = some (e.node first) ∧ (e.needed = 0 → first = 0) := by
  intro es
  induction es with
  | nil =>
    intro s t n _ _ hrun _
    obtain rfl : s = t := Option.some.inj hrun
    exact ⟨rfl, [], (List.append_nil _).symm, fun k e he => by cases he⟩
  | cons e es ih =>
    intro s t n hfront hn hrun hgoes
    obtain ⟨u, hu, hrest⟩ := run_cons_eq_some.mp hrun
    rcases fatNext_cases hfront hu with hstop | ⟨hnodes, hfront', hfat⟩
    · rw [not_running_of_run hstop hrest] at hgoes
      cases hgoes
    · obtain ⟨hroot, rest, hrestnodes, hmade⟩ := ih hfront' (by omega) hrest hgoes
      refine ⟨hroot.trans (hfat 0 hn), e.node (e.first n) :: rest, ?_, fun k e' he' => ?_⟩
      · rw [hrestnodes, hnodes, List.append_assoc]
        rfl
      · cases k with
        | zero =>
          obtain rfl : e = e' := by simpa using he'
          refine ⟨e.first n, rfl, fun hzero => ?_⟩
          rw [FatEvent.first, if_pos hzero]
          rfl
        | succ k => exact hmade k e' (by simpa using he')

/-- The file that call number `k` made comes back with its contents, and its length. -/
def ReadsBack (s : FatState) (k : ℕ) (fileData : List Byte) : Prop :=
  ∃ node, s.nodes[k + 1]? = some node ∧ ∃ enough, ∀ fuel ≥ enough,
    fatReadFile s node fuel 0 = some (fileData, fileData.length)

/-- The file that call number `k` made comes back with its contents, whatever `*out_file_size`
holds. -/
def ContentsReadBack (s : FatState) (k : ℕ) (fileData : List Byte) : Prop :=
  ∃ node, s.nodes[k + 1]? = some node ∧ ∃ enough, ∀ fuel ≥ enough, ∀ outFileSize,
    fatReadFile s node fuel outFileSize = some (fileData, outFileSize)

/-- **The round trip.**  After any run of successful calls on a freshly formatted disk every file
comes back, contents and length, exactly when every file created is empty; the contents alone come
back whenever the files fit below the entry 65536. -/
theorem fat_round_trip_iff (old : ℕ → Sector) (es : List FatEvent) (s : FatState)
    (hrun : run fatNext (fatFormatDrive old) es = some s) (hgoes : s.running = true) :
    ((∀ (k : ℕ) (e : FatEvent), es[k]? = some e → e.isDirectory = false →
        ReadsBack s k e.fileData) ↔ ∀ e ∈ es, e.isDirectory = false → e.fileData = []) ∧
      (Meets fatNext Fits (fatFormatDrive old) es → ∀ (k : ℕ) (e : FatEvent), es[k]? = some e →
        e.isDirectory = false → ContentsReadBack s k e.fileData) := by
  obtain ⟨hroot, rest, hnodes, hmade⟩ :=
    run_nodes (fatFormatDrive_front old) le_rfl hrun hgoes
  have hnode : ∀ (k : ℕ) (node : FatFsNode), rest[k]? = some node →
      s.nodes[k + 1]? = some node := fun k node hk => by
    rw [hnodes]
    exact hk
  refine ⟨⟨fun hlaw e he hfile => ?_, fun hempty k e hk hfile => ?_⟩, fun hmeets k e hk hfile => ?_⟩
  · -- nothing is stored to the length
    obtain ⟨k, hk⟩ := List.mem_iff_getElem?.mp he
    obtain ⟨node, -, enough, hread⟩ := hlaw k e hk hfile
    obtain ⟨out, -, hout⟩ := Option.map_eq_some_iff.mp (hread enough le_rfl)
    exact List.length_eq_zero_iff.mp (Prod.mk.inj hout).2.symm
  · obtain ⟨first, hget, hfirst⟩ := hmade k e hk
    have hdata := hempty e (List.mem_of_getElem? hk) hfile
    have hlen : e.fileLen = 0 := by
      rw [← e.fileLen_eq, hfile, hdata]
      rfl
    refine ⟨_, hnode k _ hget, 1, fun fuel hfuel => ?_⟩
    obtain ⟨fuel, rfl⟩ : ∃ f, fuel = f + 1 := ⟨fuel - 1, by omega⟩
    have hneeded : e.needed = 0 := by
      rw [FatEvent.needed, hlen]
      rfl
    have hsize : (e.node first).size = 0 := hlen
    have hloop : readLoop s (e.node first).size (fuel + 1) (e.node first).firstFatEntryIdxInFile 0
        [] = some [] := by
      rw [hsize, show (e.node first).firstFatEntryIdxInFile = 0 from
        congrArg BitVec.toNat (hfirst hneeded)]
      exact readLoop_empty (by rw [hroot]; rfl) fuel
    rw [fatReadFile_of_readLoop hloop hsize, hdata]
    rfl
  · obtain ⟨nodes, n, hinv, hsame⟩ := run_invariant
      (fun _ _ _ h hfits hnext => FatRun.exists_next h hfits hnext) es _ _
      ⟨[fatRoot], 1, fatFormatDrive_run old⟩ hmeets hrun
    obtain ⟨first, hget, -⟩ := hmade k e hk
    have hget' : nodes[k + 1]? = some (e.node first) := hsame hgoes ▸ hnode k _ hget
    refine ⟨_, hnode k _ hget, (e.node first).sectors + 1, fun fuel hfuel outFileSize => ?_⟩
    exact hinv.readFile (Nat.succ_pos k) hget' hfile hfuel outFileSize

/-- An empty file. -/
def noBytes : FatEvent := .createFile 0 .a .b [] (by decide)

theorem run_fileInRoot (e : FatEvent) (hparent : e.parent = 0) :
    run fatNext (fatFormatDrive fun _ _ => 0) [e] =
      some (afterCall (fatFormatDrive fun _ _ => 0) e fatRoot) := by
  have hp : (fatFormatDrive fun _ _ => 0).nodes[e.parent]? = some fatRoot := by
    rw [hparent]
    rfl
  exact run_cons_eq_some.mpr ⟨_, fatNext_eq_some.mpr ⟨rfl, fatRoot, hp, rfl, rfl⟩, rfl⟩

theorem fat_round_trip_noBytes : ∃ s, run fatNext (fatFormatDrive fun _ _ => 0) [noBytes] = some s ∧
    s.running = true ∧ ∀ (k : ℕ) (e : FatEvent), [noBytes][k]? = some e →
      e.isDirectory = false → ReadsBack s k e.fileData := by
  have hrun := run_fileInRoot noBytes rfl
  have hgoes : (afterCall (fatFormatDrive fun _ _ => 0) noBytes fatRoot).running = true := by
    decide +kernel
  refine ⟨_, hrun, hgoes, (fat_round_trip_iff _ [noBytes] _ hrun hgoes).1.mpr fun e he _ => ?_⟩
  rw [List.mem_singleton.mp he]
  rfl

/-- Three bytes. -/
def threeBytes : FatEvent :=
  .createFile 0 .a .b [1, 2, 3] (by decide)

/-- The three bytes are in the buffer, but the length is that the caller started with, and the
response has none of them. -/
theorem threeBytes_lost : ∃ s, run fatNext (fatFormatDrive fun _ _ => 0) [threeBytes] = some s ∧
    s.running = true ∧ (∃ node, s.nodes[1]? = some node ∧
      fatReadFile s node 1 0 = some ([1, 2, 3], 0) ∧ readFileResponse s node 1 = some (0, [])) ∧
    ¬ ReadsBack s 0 [1, 2, 3] := by
  refine ⟨_, run_fileInRoot threeBytes rfl, by decide +kernel, ⟨threeBytes.node 1, ?_, ?_, ?_⟩, ?_⟩
  · decide +kernel
  · decide +kernel
  · decide +kernel
  · rintro ⟨node, -, enough, hread⟩
    obtain ⟨out, -, hout⟩ := Option.map_eq_some_iff.mp (hread enough le_rfl)
    exact absurd (Prod.mk.inj hout).2 (by decide)

end Axle.FileManager
