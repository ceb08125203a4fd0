import Axle.FileManager.FatCache
import Mathlib.Tactic.Linarith

/-!
# Reading a part of a file

`fat_read_file_partial` goes along the chain of a file through the cache of table sectors, to the
link where the data begins, and copies from there.  It takes the bytes to be read as the smaller of
`length` and what the file has behind the offset *within the sector*, instead of what it has behind
the offset, and asserts that they are whole sectors.

* `Chain.readLoop`, `fatReadFilePartial_spec` — **PROVED**: what the two readers return, from the
  chain of the file;
* `partialReads_agree_iff` — **PROVED**: in every state that creations and reads lead to, the cached
  table sectors are those on disk, and a part read is that part of the whole exactly when it does
  not run past the end of a file behind whose last byte there is room in its last sector, the first
  sector apart.
-/

namespace Axle.FileManager

open Axle.Lib.StepRun

/-! ### The reader -/

/-- "Travel to the next FAT entry index". -/
def followLink (m : FatManager) (fatEntryIndex : ℕ) : Except FatStop (FatManager × ℕ) :=
  match fatReadTableSector m (fatEntryIndex / fatEntriesPerSector) with
  | .error stop => .error stop
  | .ok (m, fatSectorData) =>
    .ok (m, (fatSectorData (fatEntryIndex % fatEntriesPerSector)).nextFatEntryIdxInFile.toNat)

/-- The loop to the link where the data begins, as the links that are left to follow; `none` at the
end of the file. -/
def traverseLoop : (links : ℕ) → FatManager → (fatEntryIndex : ℕ) →
    Except FatStop (FatManager × Option ℕ)
  | 0, m, fatEntryIndex => .ok (m, some fatEntryIndex)
  | links + 1, m, fatEntryIndex =>
    match followLink m fatEntryIndex with
    | .error stop => .error stop
    | .ok (m, nextFatEntryIndex) =>
      if nextFatEntryIndex = fatSectorTypeEof then .ok (m, none)
      else traverseLoop links m nextFatEntryIndex

/-- `offset % sector_size`, for the first sector; it is zero for those that follow. -/
def startWithinSector (offset : ℕ) : Fin sectorSize :=
  ⟨offset % sectorSize, Nat.mod_lt _ (by decide)⟩

theorem startWithinSector_val (offset : ℕ) :
    (startWithinSector offset : ℕ) = offset % sectorSize := rfl

/-- The loop that copies; every turn but one that is the last leaves less to read. -/
def copyLoop (m : FatManager) (fatEntryIndex : ℕ) (startReadWithinSectorOff : Fin sectorSize)
    (bytesRemainingToRead : ℕ) (out : List Byte) : Except FatStop (FatManager × List Byte) :=
  let bytesToCopyFromSector := min (sectorSize - startReadWithinSectorOff) bytesRemainingToRead
  let out := out ++ (List.range bytesToCopyFromSector).map fun k =>
    m.disk.data fatEntryIndex (startReadWithinSectorOff + k)
  if _hdone : bytesRemainingToRead - bytesToCopyFromSector = 0 then .ok (m, out)
  else
    match followLink m fatEntryIndex with
    | .error stop => .error stop
    | .ok (m, nextFatEntryIndex) =>
      if nextFatEntryIndex = fatSectorTypeEof then .ok (m, out)
      else copyLoop m nextFatEntryIndex (startWithinSector 0)
        (bytesRemainingToRead - bytesToCopyFromSector) out
termination_by bytesRemainingToRead
decreasing_by
  have hstart := startReadWithinSectorOff.isLt
  omega

/-- `min(fs_node->size - start_read_within_sector_off, length)`, the difference a `uint32_t`. -/
def bytesRemainingToRead (size offset length : ℕ) : ℕ :=
  min ((size + 2 ^ 32 - offset % sectorSize) % 2 ^ 32) length

/-- The buffer that is returned, with `none` for `NULL`, and what is stored to `*out_length`. -/
def fatReadFilePartial (m : FatManager) (node : FatFsNode) (offset length : ℕ) :
    Except FatStop (FatManager × Option (List Byte) × ℕ) :=
  match traverseLoop (offset / sectorSize) m node.firstFatEntryIdxInFile with
  | .error stop => .error stop
  | .ok (m, none) => .ok (m, none, 0)
  | .ok (m, some fatEntryIndex) =>
    let remaining := bytesRemainingToRead node.size offset length
    if remaining % sectorSize ≠ 0 then .error .notImplemented
    else
      match copyLoop m fatEntryIndex (startWithinSector offset) remaining [] with
      | .error stop => .error stop
      | .ok (m, out) => .ok (m, some (out ++ List.replicate (remaining - out.length) 0), out.length)

/-! ### The bytes of a chain -/

def sectorBytes (s : FatState) (idx : ℕ) : List Byte := (List.range sectorSize).map (s.data idx)

def chainBytes (s : FatState) (chain : List ℕ) : List Byte := chain.flatMap (sectorBytes s)

section

variable (s : FatState)

@[simp] theorem sectorBytes_length (idx : ℕ) : (sectorBytes s idx).length = sectorSize := by
  simp [sectorBytes]

theorem chainBytes_cons (idx : ℕ) (rest : List ℕ) :
    chainBytes s (idx :: rest) = sectorBytes s idx ++ chainBytes s rest := rfl

@[simp] theorem chainBytes_length (chain : List ℕ) :
    (chainBytes s chain).length = sectorSize * chain.length := by
  induction chain with
  | nil => rfl
  | cons idx rest ih =>
    rw [chainBytes_cons, List.length_append, sectorBytes_length, ih, List.length_cons,
      Nat.mul_succ, Nat.add_comm]

theorem chainBytes_drop (chain : List ℕ) (links : ℕ) :
    chainBytes s (chain.drop links) = (chainBytes s chain).drop (sectorSize * links) := by
  induction chain generalizing links with
  | nil => rw [List.drop_nil, chainBytes, List.flatMap_nil, List.drop_nil]
  | cons idx rest ih =>
    cases links with
    | zero => rfl
    | succ links =>
      have hsplit : sectorSize * (links + 1) = (sectorBytes s idx).length + sectorSize * links := by
        rw [sectorBytes_length, Nat.mul_succ, Nat.add_comm]
      rw [List.drop_succ_cons, ih, chainBytes_cons, hsplit, List.drop_length_add_append]

/-- The part of a sector that a turn of a loop copies. -/
theorem map_range_data (idx start count : ℕ) :
    (List.range (min (sectorSize - start) count)).map (fun k => s.data idx (start + k)) =
      ((sectorBytes s idx).drop start).take count := by
  refine List.ext_getElem ?_ fun j hj hj' => ?_
  · rw [List.length_map, List.length_range, List.length_take, List.length_drop,
      sectorBytes_length, Nat.min_comm]
  · rw [List.getElem_map, List.getElem_range, List.getElem_take, List.getElem_drop]
    simp only [sectorBytes, List.getElem_map, List.getElem_range]

end

variable {chain : List ℕ} {idx offset size length n : ℕ} {s : FatState} {node : FatFsNode}
  {m m' : FatManager} {e : FatEvent}

theorem Chain.drop {fat : ℕ → FatEntry} (h : Chain fat idx chain) :
    ∀ {links idx' : ℕ}, chain[links]? = some idx' → Chain fat idx' (chain.drop links) := by
  induction h with
  | @last idx heof =>
    intro links idx' hget
    cases links with
    | zero =>
      obtain rfl : idx = idx' := by simpa using hget
      exact .last heof
    | succ links => simp at hget
  | @link idx rest hne hrest ih =>
    intro links idx' hget
    cases links with
    | zero =>
      obtain rfl : idx = idx' := by simpa using hget
      exact .link hne hrest
    | succ links => exact ih (by simpa using hget)

/-! ### The whole file -/

/-- The buffer of `fat_read_file`: the chain as far as the size, and zeros where it is too short. -/
def fileBytes (s : FatState) (size : ℕ) (chain : List ℕ) : List Byte :=
  (chainBytes s chain).take size ++ List.replicate (size - sectorSize * chain.length) 0

theorem Chain.readLoop (h : Chain s.fat idx chain) (size : ℕ) :
    ∀ {fuel fileOffset : ℕ} {out : List Byte}, chain.length ≤ fuel →
      fileOffset ≤ size → Axle.FileManager.readLoop s size fuel idx fileOffset out =
        some (out ++ (chainBytes s chain).take (size - fileOffset)) := by
  induction h with
  | @last idx heof =>
    intro fuel fileOffset out hfuel hoffset
    obtain ⟨fuel, rfl⟩ : ∃ f, fuel = f + 1 := ⟨fuel - 1, (Nat.succ_pred_eq_of_pos hfuel).symm⟩
    have hcopied := map_range_data s idx 0 (size - fileOffset)
    simp only [Nat.sub_zero, Nat.zero_add, List.drop_zero] at hcopied
    rw [Axle.FileManager.readLoop]
    simp only [heof, if_true, chainBytes_cons]
    rw [hcopied, chainBytes, List.flatMap_nil, List.append_nil]
  | @link idx rest hne hrest ih =>
    intro fuel fileOffset out hfuel hoffset
    obtain ⟨fuel, rfl⟩ : ∃ f, fuel = f + 1 :=
      ⟨fuel - 1, (Nat.succ_pred_eq_of_pos (Nat.zero_lt_of_lt hfuel)).symm⟩
    have hcopied := map_range_data s idx 0 (size - fileOffset)
    simp only [Nat.sub_zero, Nat.zero_add, List.drop_zero] at hcopied
    have hleft : size - (fileOffset + min sectorSize (size - fileOffset)) =
        size - fileOffset - sectorSize := by omega
    rw [Axle.FileManager.readLoop]
    simp only [if_neg hne, chainBytes_cons]
    rw [ih (Nat.le_of_succ_le_succ hfuel) (by omega), hcopied, hleft, List.append_assoc,
      List.take_append, sectorBytes_length]

theorem Chain.fatReadFile (h : Chain s.fat node.firstFatEntryIdxInFile chain) {fuel : ℕ}
    (hfuel : chain.length ≤ fuel) (outFileSize : ℕ) :
    Axle.FileManager.fatReadFile s node fuel outFileSize =
      some (fileBytes s node.size chain, outFileSize) := by
  rw [Axle.FileManager.fatReadFile, h.readLoop node.size hfuel (Nat.zero_le _), Option.map_some,
    List.nil_append, Nat.sub_zero, List.length_take, chainBytes_length, fileBytes]
  congr 4
  omega

theorem fileBytes_part (s : FatState) (size : ℕ) (chain : List ℕ) {offset count : ℕ}
    (hsize : offset + count ≤ size) (hchain : offset + count ≤ sectorSize * chain.length) :
    ((fileBytes s size chain).take (offset + count)).drop offset =
      ((chainBytes s chain).drop offset).take count := by
  have hlen : offset + count ≤ ((chainBytes s chain).take size).length := by
    rw [List.length_take, chainBytes_length]
    exact Nat.le_min.mpr ⟨hsize, hchain⟩
  rw [fileBytes, List.take_append_of_le_length hlen, List.take_take, Nat.min_eq_left hsize,
    List.drop_take, Nat.add_sub_cancel_left]

theorem fileBytes_length (s : FatState) (size : ℕ) (chain : List ℕ) :
    (fileBytes s size chain).length = size := by
  rw [fileBytes, List.length_append, List.length_take, chainBytes_length, List.length_replicate]
  omega

/-! ### The part -/

section Reader

variable {m : FatManager} (h : CacheAgrees m)

include h

variable {idx : ℕ} {chain : List ℕ}

theorem CacheAgrees.followLink (hidx : idx < 2 ^ 16) :
    ∃ m', Axle.FileManager.followLink m idx =
        .ok (m', (m.disk.fat idx).nextFatEntryIdxInFile.toNat) ∧
      m'.disk = m.disk ∧ CacheAgrees m' := by
  have hsector : idx / fatEntriesPerSector < fatSectorCount := by
    rw [fatEntriesPerSector_eq, fatSectorCount_eq]
    omega
  obtain ⟨m', data, hread, hdisk, hagrees, hdata⟩ := h.readTableSector hsector
  refine ⟨m', ?_, hdisk, hagrees⟩
  have hentry : data (idx % fatEntriesPerSector) = m.disk.fat idx := by
    rw [hdata _ (Nat.mod_lt _ (by decide)), tableSector, Nat.div_add_mod']
  rw [Axle.FileManager.followLink, hread]
  simp only [hentry]

theorem CacheAgrees.traverseLoop (hchain : Chain m.disk.fat idx chain) (hidx : idx < 2 ^ 16)
    (links : ℕ) :
    ∃ m', Axle.FileManager.traverseLoop links m idx = .ok (m', chain[links]?) ∧
      m'.disk = m.disk ∧ CacheAgrees m' := by
  induction links generalizing m idx chain with
  | zero =>
    refine ⟨m, ?_, rfl, h⟩
    cases hchain <;> rfl
  | succ links ih =>
    obtain ⟨m', hnext, hdisk, hagrees⟩ := h.followLink hidx
    rw [Axle.FileManager.traverseLoop, hnext]
    cases hchain with
    | last heof =>
      refine ⟨m', ?_, hdisk, hagrees⟩
      simp only [heof, if_true]
      rfl
    | @link _ rest hne hrest =>
      simp only [if_neg hne]
      rw [← hdisk] at hrest
      obtain ⟨m'', hrun, hdisk', hagrees'⟩ := ih hagrees hrest (BitVec.isLt _)
      rw [hdisk] at hrun
      exact ⟨m'', by rw [hrun]; rfl, hdisk'.trans hdisk, hagrees'⟩

theorem CacheAgrees.copyLoop (hchain : Chain m.disk.fat idx chain) (hidx : idx < 2 ^ 16)
    (start : Fin sectorSize) (remaining : ℕ) (out : List Byte) :
    ∃ m', Axle.FileManager.copyLoop m idx start remaining out =
        .ok (m', out ++ ((chainBytes m.disk chain).drop start).take remaining) ∧
      m'.disk = m.disk ∧ CacheAgrees m' := by
  induction chain generalizing m idx start remaining out with
  | nil => cases hchain
  | cons idx' rest ih =>
    obtain rfl : idx = idx' := by cases hchain <;> rfl
    have hpart : ((chainBytes m.disk (idx :: rest)).drop start).take remaining =
        ((sectorBytes m.disk idx).drop start).take remaining ++
          (chainBytes m.disk rest).take (remaining - (sectorSize - start)) := by
      rw [chainBytes_cons, List.drop_append_of_le_length
        (by rw [sectorBytes_length]; exact start.isLt.le), List.take_append, List.length_drop,
        sectorBytes_length]
    have hleft : remaining - min (sectorSize - start) remaining =
        remaining - (sectorSize - start) := by omega
    rw [Axle.FileManager.copyLoop]
    simp only [map_range_data, hleft, hpart]
    split
    · rename_i hdone
      exact ⟨m, by rw [hdone, List.take_zero, List.append_nil], rfl, h⟩
    · obtain ⟨m', hnext, hdisk, hagrees⟩ := h.followLink hidx
      rw [hnext]
      cases hchain with
      | last heof =>
        refine ⟨m', ?_, hdisk, hagrees⟩
        simp only [heof, if_true, chainBytes, List.flatMap_nil, List.take_nil, List.append_nil]
      | link hne hrest =>
        simp only [if_neg hne]
        rw [← hdisk] at hrest
        obtain ⟨m'', hrun, hdisk', hagrees'⟩ := ih hagrees hrest (BitVec.isLt _) (startWithinSector 0)
          (remaining - (sectorSize - start))
          (out ++ ((sectorBytes m.disk idx).drop start).take remaining)
        refine ⟨m'', ?_, hdisk'.trans hdisk, hagrees'⟩
        rw [hdisk] at hrun
        rw [hrun, startWithinSector_val, Nat.zero_mod, List.drop_zero, List.append_assoc]

/-- **What a part read returns**, from the chain of the file: nothing behind its end, and before it
the assertion or the bytes of the chain. -/
theorem fatReadFilePartial_spec {node : FatFsNode}
    (hchain : Chain m.disk.fat node.firstFatEntryIdxInFile chain)
    (hfirst : node.firstFatEntryIdxInFile < 2 ^ 16) (offset length : ℕ) :
    (sectorSize * chain.length ≤ offset ∧ ∃ m', fatReadFilePartial m node offset length =
        .ok (m', none, 0) ∧ m'.disk = m.disk ∧ CacheAgrees m') ∨
      (offset < sectorSize * chain.length ∧
        bytesRemainingToRead node.size offset length % sectorSize ≠ 0 ∧
        fatReadFilePartial m node offset length = .error .notImplemented) ∨
      (offset < sectorSize * chain.length ∧ ∃ m' fileData, fatReadFilePartial m node offset length =
          .ok (m', some fileData, min (bytesRemainingToRead node.size offset length)
            (sectorSize * chain.length - offset)) ∧
        fileData.take (min (bytesRemainingToRead node.size offset length)
            (sectorSize * chain.length - offset)) =
          ((chainBytes m.disk chain).drop offset).take
            (bytesRemainingToRead node.size offset length) ∧
        m'.disk = m.disk ∧ CacheAgrees m') := by
  obtain ⟨m', hwalk, hdisk, hagrees⟩ := h.traverseLoop hchain hfirst (offset / sectorSize)
  have hbegins : offset < sectorSize * chain.length ↔ offset / sectorSize < chain.length := by
    rw [Nat.div_lt_iff_lt_mul (by decide), Nat.mul_comm]
  rw [fatReadFilePartial, hwalk]
  rcases Nat.lt_or_ge (offset / sectorSize) chain.length with hlt | hge
  · rw [List.getElem?_eq_getElem hlt]
    refine .inr ?_
    by_cases hwhole : bytesRemainingToRead node.size offset length % sectorSize = 0
    · refine .inr ⟨hbegins.mpr hlt, ?_⟩
      have hrest := hchain.drop (List.getElem?_eq_getElem hlt)
      have hidx := hchain.lt hfirst _ (List.getElem_mem hlt)
      rw [← hdisk] at hrest
      obtain ⟨m'', hcopy, hdisk', hagrees'⟩ := hagrees.copyLoop hrest hidx
        (startWithinSector offset) (bytesRemainingToRead node.size offset length) []
      have hbytes : (chainBytes m.disk (chain.drop (offset / sectorSize))).drop
          (startWithinSector offset) = (chainBytes m.disk chain).drop offset := by
        rw [chainBytes_drop, List.drop_drop, startWithinSector_val, Nat.div_add_mod]
      rw [hdisk, List.nil_append, hbytes] at hcopy
      have hlen : (((chainBytes m.disk chain).drop offset).take
          (bytesRemainingToRead node.size offset length)).length =
          min (bytesRemainingToRead node.size offset length)
            (sectorSize * chain.length - offset) := by
        rw [List.length_take, List.length_drop, chainBytes_length]
      dsimp only
      rw [if_neg (not_not.mpr hwhole), hcopy]
      dsimp only
      rw [hlen]
      refine ⟨m'', _, rfl, ?_, hdisk'.trans hdisk, hagrees'⟩
      rw [← hlen, List.take_left]
    · refine .inl ⟨hbegins.mpr hlt, hwhole, ?_⟩
      simp only [ne_eq, hwhole, not_false_eq_true, if_true]
  · rw [List.getElem?_eq_none hge]
    exact .inl ⟨Nat.not_lt.mp (hbegins.not.mpr (Nat.not_lt.mpr hge)), m', rfl, hdisk, hagrees⟩

end Reader

/-! ### When the part is that of the whole -/

/-- The part read is that part of what `fat_read_file` returns, and its length that of the part. -/
def PartAgrees (m : FatManager) (node : FatFsNode) (offset length : ℕ) : Prop :=
  ∃ whole, (∃ enough, ∀ fuel ≥ enough, ∀ outFileSize,
      fatReadFile m.disk node fuel outFileSize = some (whole, outFileSize)) ∧
    ∃ m' fileData outLength, fatReadFilePartial m node offset length =
        .ok (m', fileData, outLength) ∧
      (fileData.getD []).take outLength =
        (whole.take (min (offset + length) node.size)).drop offset ∧
      outLength = ((whole.take (min (offset + length) node.size)).drop offset).length

/-- Where a part read is right, for a file of this size and a chain that stands for so many bytes:
there is nothing to read; or it starts behind both ends; or it ends before both; or it runs past the
end of a file that the chain has all of, from the first sector or from anywhere in a file that fills
its sectors; or it starts behind the end of a file, as far into its sector as the file is long. -/
def PartOfWhole (size chainSize offset length : ℕ) : Prop :=
  length = 0 ∨ (size ≤ offset ∧ chainSize ≤ offset) ∨
    (offset + length ≤ size ∧ offset + length ≤ chainSize) ∨
    (offset ≤ size ∧ size < offset + length ∧ size ≤ chainSize ∧
      (offset < sectorSize ∨ chainSize = size)) ∨
    (size < offset ∧ size = offset % sectorSize)

theorem bytesRemainingToRead_of_le (hsize : size < 2 ^ 32) (hle : offset % sectorSize ≤ size)
    (length : ℕ) :
    bytesRemainingToRead size offset length = min (size - offset % sectorSize) length := by
  rw [bytesRemainingToRead, Nat.sub_add_comm hle, Nat.add_mod_right, Nat.mod_eq_of_lt (by omega)]

theorem bytesRemainingToRead_eq_zero (hsize : size < 2 ^ 32) (hlength : length ≠ 0) :
    bytesRemainingToRead size offset length = 0 ↔ size = offset % sectorSize := by
  have hlt : offset % sectorSize < 512 := Nat.mod_lt _ (by decide)
  rw [bytesRemainingToRead]
  rcases Nat.lt_or_ge size (offset % sectorSize) with hwrap | hle
  · omega
  · omega

/-- As many bytes are read as there are in the part. -/
theorem partOfWhole_iff {size chainSize offset length : ℕ} (hsize : size < 2 ^ 32) :
    min (bytesRemainingToRead size offset length) (chainSize - offset) =
      min length (size - offset) ↔ PartOfWhole size chainSize offset length := by
  rcases Nat.eq_zero_or_pos length with hzero | hpos
  · subst hzero
    refine ⟨fun _ => .inl rfl, fun _ => ?_⟩
    rw [bytesRemainingToRead, Nat.min_zero, Nat.zero_min, Nat.zero_min]
  rw [PartOfWhole]
  rcases Nat.lt_or_ge size offset with hbehind | hle
  · -- nothing is left of the file
    rw [Nat.sub_eq_zero_of_le hbehind.le, Nat.min_zero, Nat.min_eq_zero_iff,
      bytesRemainingToRead_eq_zero hsize hpos.ne']
    omega
  · have hstart : offset % sectorSize ≤ offset := Nat.mod_le _ _
    have hfirst : offset % sectorSize = offset ↔ offset < sectorSize := by
      rw [sectorSize]
      omega
    rw [bytesRemainingToRead_of_le hsize (hstart.trans hle)]
    generalize offset % sectorSize = start at *
    rcases Nat.lt_or_ge size (offset + length) with hruns | hends
    · omega
    · have hlength : min (size - start) length = length := Nat.min_eq_right (by omega)
      have hpart : min length (size - offset) = length := Nat.min_eq_left (by omega)
      omega

/-- **One file**: a part read that does not stop at its check is right exactly in these places. -/
theorem partAgrees_iff (h : CacheAgrees m)
    (hchain : Chain m.disk.fat node.firstFatEntryIdxInFile chain)
    (hfirst : node.firstFatEntryIdxInFile < 2 ^ 16) (hsize : node.size < 2 ^ 32)
    (hcheck : fatReadFilePartial m node offset length ≠ .error .notImplemented) :
    PartAgrees m node offset length ↔
      PartOfWhole node.size (sectorSize * chain.length) offset length := by
  rw [← partOfWhole_iff hsize]
  have hread : ∀ fuel ≥ chain.length, ∀ outFileSize, fatReadFile m.disk node fuel outFileSize =
      some (fileBytes m.disk node.size chain, outFileSize) :=
    fun fuel hfuel outFileSize => hchain.fatReadFile hfuel outFileSize
  have hwhole : ∀ whole, (∃ enough, ∀ fuel ≥ enough, ∀ outFileSize,
      fatReadFile m.disk node fuel outFileSize = some (whole, outFileSize)) →
      whole = fileBytes m.disk node.size chain := by
    rintro whole ⟨enough, hwhole⟩
    have hboth := (hwhole (max enough chain.length) (le_max_left ..) 0).symm.trans
      (hread _ (le_max_right ..) 0)
    exact congrArg Prod.fst (Option.some.inj hboth)
  have hpart : (((fileBytes m.disk node.size chain).take (min (offset + length) node.size)).drop
      offset).length = min length (node.size - offset) := by
    rw [List.length_drop, List.length_take, fileBytes_length]
    omega
  rcases fatReadFilePartial_spec h hchain hfirst offset length with
    ⟨hbehind, m', hresult, -⟩ | ⟨-, -, hstops⟩ | ⟨hbefore, m', fileData, hresult, hdata, -⟩
  · rw [Nat.sub_eq_zero_of_le hbehind, Nat.min_zero]
    constructor
    · rintro ⟨whole, hwhole', m'', fileData, outLength, hresult', -, hlength⟩
      rw [hwhole whole hwhole', hpart] at hlength
      rw [hresult] at hresult'
      cases hresult'
      exact hlength
    · intro hzero
      rw [← hzero] at hpart
      refine ⟨_, ⟨_, hread⟩, m', none, 0, hresult, ?_, hpart.symm⟩
      rw [List.length_eq_zero_iff.mp hpart]
      rfl
  · exact absurd hstops hcheck
  · constructor
    · rintro ⟨whole, hwhole', m'', fileData', outLength, hresult', -, hlength⟩
      rw [hwhole whole hwhole', hpart] at hlength
      rw [hresult] at hresult'
      cases hresult'
      exact hlength
    · intro hequal
      refine ⟨_, ⟨_, hread⟩, m', some fileData, _, hresult, ?_, hequal.trans hpart.symm⟩
      rw [Option.getD_some, hdata]
      have hcount : min (offset + length) node.size = offset + min length (node.size - offset) ∨
          min length (node.size - offset) = 0 := by omega
      rcases hcount with hcount | hcount
      · rw [hcount, fileBytes_part _ _ _ (by omega) (by omega), ← hequal, List.take_eq_take_iff,
          List.length_drop, chainBytes_length, Nat.min_assoc, Nat.min_self]
      · rw [hcount] at hpart hequal
        rw [List.length_eq_zero_iff.mp hpart]
        refine List.length_eq_zero_iff.mp ?_
        rw [List.length_take, List.length_drop, chainBytes_length]
        exact hequal

/-! ### Runs of creations and reads -/

/-- A request to the file manager; files are named by their nodes. -/
inductive FatCall where
  | create (e : FatEvent)
  | readFile (node : ℕ)
  | readFilePartial (node offset length : ℕ)
deriving DecidableEq, Repr

/-- One request; there is none once the process has ended. -/
def managerNext (m : FatManager) (call : FatCall) : Option FatManager :=
  if !m.disk.running then none
  else match call with
    | .create e =>
      match m.disk.nodes[e.parent]? with
      | none => none
      | some parentNode => if !parentNode.isDirectory then none else some (m.afterCall e parentNode)
    | .readFile node =>
      -- no write to the disk, and the cache is not looked at
      (m.disk.nodes[node]?).map fun _ => m
    | .readFilePartial node offset length =>
      (m.disk.nodes[node]?).map fun node =>
        match fatReadFilePartial m node offset length with
        | .error _ => { m with disk := { m.disk with running := false } }
        | .ok (m, _) => m

/-- The file manager after `fat_format_drive` and `fat_parse_from_disk`. -/
def fatManagerStart (old : ℕ → Sector) : FatManager := ⟨fatFormatDrive old, fatEmptyCache⟩

/-- Every link goes down, or to the end. -/
def LinksDescend (s : FatState) : Prop :=
  ∀ idx, (s.fat idx).nextFatEntryIdxInFile.toNat ≤ idx - 1

theorem LinksDescend.exists_chain (h : LinksDescend s) (idx : ℕ) :
    ∃ chain, Chain s.fat idx chain := by
  induction idx using Nat.strong_induction_on with
  | _ idx ih =>
    by_cases heof : (s.fat idx).nextFatEntryIdxInFile.toNat = fatSectorTypeEof
    · exact ⟨[idx], .last heof⟩
    · have hlt : (s.fat idx).nextFatEntryIdxInFile.toNat < idx := by
        have hle := h idx
        rw [fatSectorTypeEof] at heof
        omega
      obtain ⟨rest, hrest⟩ := ih _ hlt
      exact ⟨idx :: rest, .link heof hrest⟩

/-- What a run keeps: the cache at any time, the rest while the process goes on. -/
structure ManagerInv (m : FatManager) : Prop where
  agrees : CacheAgrees m
  front : m.disk.running = true → ∃ n, Front m.disk n
  descend : m.disk.running = true → LinksDescend m.disk
  small : m.disk.running = true → ∀ node ∈ m.disk.nodes,
    node.firstFatEntryIdxInFile < 2 ^ 16 ∧ node.size < 2 ^ 32

theorem managerInv_start (old : ℕ → Sector) : ManagerInv (fatManagerStart old) where
  agrees := cacheAgrees_empty _
  front _ := ⟨1, fatFormatDrive_front old⟩
  descend _ idx := Nat.zero_le _
  small _ node hnode := by
    rw [List.mem_singleton.mp hnode]
    decide

variable {call : FatCall}

theorem running_of_managerNext (hnext : managerNext m call = some m') : m.disk.running = true := by
  unfold managerNext at hnext
  split at hnext
  · cases hnext
  · rename_i hrun
    rw [Bool.not_eq_true', Bool.not_eq_false] at hrun
    exact hrun

theorem managerNext_create :
    managerNext m (.create e) = some m' ↔ m.disk.running = true ∧
      ∃ p, m.disk.nodes[e.parent]? = some p ∧ p.isDirectory = true ∧ m.afterCall e p = m' := by
  rw [managerNext]
  cases hrun : m.disk.running with
  | false => simp
  | true =>
    cases hp : m.disk.nodes[e.parent]? with
    | none => simp
    | some p => cases hdir : p.isDirectory <;> simp [hdir]

theorem managerNext_create_disk (hnext : managerNext m (.create e) = some m') :
    fatNext m.disk e = some m'.disk := by
  obtain ⟨hrun, p, hp, hdir, rfl⟩ := managerNext_create.mp hnext
  exact fatNext_eq_some.mpr ⟨hrun, p, hp, hdir, (m.afterCall_disk e p).symm⟩

/-- **A creation that does not end the process**: its entries are linked downwards, and its node
has what fits into its slot. -/
theorem afterCall_goes (hfront : Front s n) (hdescend : LinksDescend s) (e : FatEvent)
    (p : FatFsNode) (hgoes : (afterCall s e p).running = true) :
    Front (afterCall s e p) (n + e.needed) ∧ LinksDescend (afterCall s e p) ∧
      (afterCall s e p).nodes = s.nodes ++ [e.node (e.first n)] := by
  rcases afterCall_cases hfront e p with ⟨-, ht⟩ | ⟨i, -, ⟨-, u, -, ht⟩ | ⟨-, u, hu, htook, ht⟩⟩
  · rw [ht] at hgoes
    cases hgoes
  · rw [ht] at hgoes
    cases hgoes
  · obtain ⟨hfat, -, hlast, hnodes⟩ := fsNodeCreate_disk
      (stored s u e p.firstFatEntryIdxInFile i n) (e.node (e.first n))
    rw [ht] at hgoes ⊢
    refine ⟨hu.of_disk hfat hlast, fun idx => ?_, ?_⟩
    · rw [hfat]
      show (u.fat idx).nextFatEntryIdxInFile.toNat ≤ idx - 1
      rw [htook.fat]
      split
      · refine (Nat.mod_le _ _).trans ?_
        split
        · exact Nat.zero_le _
        · exact le_rfl
      · exact hdescend idx
    · rw [hnodes hgoes, ← htook.nodes]
      rfl

/-- **One request.** -/
theorem ManagerInv.next {m m' : FatManager} {call : FatCall} (h : ManagerInv m)
    (hnext : managerNext m call = some m') : ManagerInv m' := by
  have hrun := running_of_managerNext hnext
  cases call with
  | create e =>
    obtain ⟨-, p, -, -, rfl⟩ := managerNext_create.mp hnext
    obtain ⟨n, hfront⟩ := h.front hrun
    have hgoes := afterCall_goes hfront (h.descend hrun) e p
    rw [← m.afterCall_disk e p] at hgoes
    refine ⟨h.agrees.afterCall e p, fun hgo => ⟨_, (hgoes hgo).1⟩, fun hgo => (hgoes hgo).2.1,
      fun hgo node hnode => ?_⟩
    rw [(hgoes hgo).2.2] at hnode
    rcases List.mem_append.mp hnode with hold | hnew
    · exact h.small hrun node hold
    · rw [List.mem_singleton.mp hnew]
      exact ⟨BitVec.isLt _, e.fileLen_lt⟩
  | readFile k =>
    rw [managerNext, hrun] at hnext
    obtain ⟨node, -, rfl⟩ := Option.map_eq_some_iff.mp hnext
    exact h
  | readFilePartial k offset length =>
    rw [managerNext, hrun] at hnext
    obtain ⟨node, hnode, rfl⟩ := Option.map_eq_some_iff.mp hnext
    have hsmall := h.small hrun node (List.mem_of_getElem? hnode)
    obtain ⟨chain, hchain⟩ := (h.descend hrun).exists_chain node.firstFatEntryIdxInFile
    have hread : ∀ {u : FatManager}, u.disk = m.disk → CacheAgrees u → ManagerInv u :=
      fun hdisk hagrees => ⟨hagrees, by rw [hdisk]; exact h.front, by rw [hdisk]; exact h.descend,
        by rw [hdisk]; exact h.small⟩
    rcases fatReadFilePartial_spec h.agrees hchain hsmall.1 offset length with
      ⟨-, u, hresult, hdisk, hagrees⟩ | ⟨-, -, hstops⟩ | ⟨-, u, fileData, hresult, -, hdisk, hagrees⟩
    · rw [hresult]
      exact hread hdisk hagrees
    · rw [hstops]
      exact ⟨h.agrees.of_fat rfl, nofun, nofun, nofun⟩
    · rw [hresult]
      exact hread hdisk hagrees

theorem ManagerInv.of_run {old : ℕ → Sector} {calls : List FatCall}
    (hrun : run managerNext (fatManagerStart old) calls = some m) : ManagerInv m :=
  run_invariant (fun _ _ _ h _ hnext => h.next hnext) calls _ _ (managerInv_start old)
    (Meets.trivial _ _) hrun

/-! ### Runs whose files fit -/

/-- Every creation finds room below the entry 65536, see `Fits`. -/
def ManagerFits (m : FatManager) : FatCall → Prop
  | .create e => Fits m.disk e
  | .readFile _ => True
  | .readFilePartial _ _ _ => True

theorem managerFits_next (h : ManagerInv m ∧ ∃ nodes n, FatRun m.disk nodes n)
    (hfits : ManagerFits m call) (hnext : managerNext m call = some m') :
    ManagerInv m' ∧ ∃ nodes n, FatRun m'.disk nodes n := by
  refine ⟨h.1.next hnext, ?_⟩
  have hrun := running_of_managerNext hnext
  obtain ⟨hinv, nodes, n, hfat⟩ := h
  cases call with
  | create e => exact FatRun.exists_next ⟨nodes, n, hfat⟩ hfits (managerNext_create_disk hnext)
  | readFile k =>
    rw [managerNext, hrun] at hnext
    obtain ⟨node, -, rfl⟩ := Option.map_eq_some_iff.mp hnext
    exact ⟨nodes, n, hfat⟩
  | readFilePartial k offset length =>
    rw [managerNext, hrun] at hnext
    obtain ⟨node, hnode, rfl⟩ := Option.map_eq_some_iff.mp hnext
    have hsmall := hinv.small hrun node (List.mem_of_getElem? hnode)
    obtain ⟨chain, hchain⟩ := (hinv.descend hrun).exists_chain node.firstFatEntryIdxInFile
    rcases fatReadFilePartial_spec hinv.agrees hchain hsmall.1 offset length with
      ⟨-, u, hresult, hdisk, -⟩ | ⟨-, -, hstops⟩ | ⟨-, u, fileData, hresult, -, hdisk, -⟩
    · rw [hresult]
      exact ⟨nodes, n, hdisk ▸ hfat⟩
    · rw [hstops]
      exact ⟨nodes, n, hfat.1.of_disk rfl rfl rfl, nofun⟩
    · rw [hresult]
      exact ⟨nodes, n, hdisk ▸ hfat⟩

/-- The chain of a node has its sectors, or the root's where it has none. -/
theorem FatInv.exists_chain {nodes : List FatFsNode} (h : FatInv s nodes n) (hnode : node ∈ nodes) :
    ∃ chain, Chain s.fat node.firstFatEntryIdxInFile chain ∧ chain.length = max 1 node.sectors := by
  obtain ⟨k, hk⟩ := List.mem_iff_getElem?.mp hnode
  have hroot : Chain s.fat 0 [0] := .last h.root_next
  rcases Nat.eq_zero_or_pos node.sectors with hzero | hpos
  · rw [h.empty node hnode hzero, hzero]
    exact ⟨[0], hroot, rfl⟩
  · rcases Nat.eq_zero_or_pos k with rfl | hkpos
    · obtain rfl : fatRoot = node := Option.some.inj (h.root.symm.trans hk)
      exact ⟨[0], hroot, rfl⟩
    · refine ⟨_, h.chain hkpos hk hpos, ?_⟩
      rw [downFrom, List.length_map, List.length_range, Nat.max_eq_right hpos]

/-- `PartOfWhole` for a file with the sectors it needs: there is nothing to read, or the read ends
within the file, or it starts behind the last sector, or it starts within the file, in its first
sector or in a file that fills its sectors. -/
def PartOfFile (size offset length : ℕ) : Prop :=
  length = 0 ∨ offset + length ≤ size ∨ sectorSize * max 1 (neededSectors size) ≤ offset ∨
    (offset ≤ size ∧ (offset < sectorSize ∨ size % sectorSize = 0))

theorem partOfFile_iff :
    PartOfWhole size (sectorSize * max 1 (neededSectors size)) offset length ↔
      PartOfFile size offset length := by
  have hlow : size ≤ sectorSize * max 1 (neededSectors size) := by
    rw [neededSectors_eq, sectorSize]
    omega
  have hfills : sectorSize * max 1 (neededSectors size) = size ↔
      size % sectorSize = 0 ∧ 0 < size := by
    rw [neededSectors_eq, sectorSize]
    omega
  have hbehind : size < offset → size = offset % sectorSize →
      sectorSize * max 1 (neededSectors size) ≤ offset := by
    rw [neededSectors_eq, sectorSize]
    omega
  rw [PartOfWhole, PartOfFile, hfills]
  have hpos : 0 < sectorSize := by decide
  omega

/-- **Part reads against whole reads.**  In every state that creations and reads lead to from a
freshly formatted disk the cached table sectors are those on disk; and for every file, offset and
length at which the reader does not stop at its check, what it returns is that part of the whole
exactly where `PartOfWhole` says so of the size and of the chain, which is `PartOfFile` as long as
the files fit below the entry 65536. -/
theorem partialReads_agree_iff (old : ℕ → Sector) (calls : List FatCall) (m : FatManager)
    (hrun : run managerNext (fatManagerStart old) calls = some m) :
    CacheAgrees m ∧
      (m.disk.running = true → ∀ node ∈ m.disk.nodes,
        ∃ chain, Chain m.disk.fat node.firstFatEntryIdxInFile chain ∧ ∀ offset length,
          fatReadFilePartial m node offset length ≠ .error .notImplemented →
          (PartAgrees m node offset length ↔
            PartOfWhole node.size (sectorSize * chain.length) offset length)) ∧
      (Meets managerNext ManagerFits (fatManagerStart old) calls → m.disk.running = true →
        ∀ node ∈ m.disk.nodes, ∀ offset length,
          fatReadFilePartial m node offset length ≠ .error .notImplemented →
          (PartAgrees m node offset length ↔ PartOfFile node.size offset length)) := by
  have hinv := ManagerInv.of_run hrun
  refine ⟨hinv.agrees, fun hgoes node hnode => ?_, fun hfits hgoes node hnode offset length hcheck =>
    ?_⟩
  · obtain ⟨chain, hchain⟩ := (hinv.descend hgoes).exists_chain node.firstFatEntryIdxInFile
    obtain ⟨hfirst, hsize⟩ := hinv.small hgoes node hnode
    exact ⟨chain, hchain, fun offset length hcheck =>
      partAgrees_iff hinv.agrees hchain hfirst hsize hcheck⟩
  · obtain ⟨-, nodes, n, hfat, hnodes⟩ := run_invariant
      (fun _ _ _ h hok hnext => managerFits_next h hok hnext) calls _ _
      ⟨managerInv_start old, [fatRoot], 1, fatFormatDrive_run old⟩ hfits hrun
    obtain ⟨hfirst, hsize⟩ := hinv.small hgoes node hnode
    obtain ⟨chain, hchain, hlength⟩ := hfat.exists_chain (hnodes hgoes ▸ hnode)
    rw [partAgrees_iff hinv.agrees hchain hfirst hsize hcheck, hlength]
    exact partOfFile_iff

/-- The state after a creation in the root directory of an empty disk. -/
theorem run_createInRoot (e : FatEvent) (hparent : e.parent = 0) (calls : List FatCall) :
    run managerNext (fatManagerStart fun _ _ => 0) (.create e :: calls) =
      run managerNext ((fatManagerStart fun _ _ => 0).afterCall e fatRoot) calls := by
  have hnext : managerNext (fatManagerStart fun _ _ => 0) (.create e) =
      some ((fatManagerStart fun _ _ => 0).afterCall e fatRoot) :=
    managerNext_create.mpr ⟨rfl, fatRoot, by rw [hparent]; rfl, rfl, rfl⟩
  rw [run, hnext, Option.bind_some]

/-- A file of three bytes is created, and read from behind its sector, which fills the cache. -/
theorem partialReads_threeBytes :
    ∃ m, run managerNext (fatManagerStart fun _ _ => 0)
        [.create threeBytes, .readFilePartial 1 512 1] = some m ∧
      (m.fatSectorCache 0).valid = true ∧ CacheAgrees m ∧
      ∀ node ∈ m.disk.nodes, ∀ offset length,
        fatReadFilePartial m node offset length ≠ .error .notImplemented →
        (PartAgrees m node offset length ↔ PartOfFile node.size offset length) := by
  have hgoes : ((run managerNext (fatManagerStart fun _ _ => 0)
      [.create threeBytes, .readFilePartial 1 512 1]).any fun m =>
        m.disk.running && (m.fatSectorCache 0).valid) = true := by
    decide +kernel
  obtain ⟨m, hrun, hm⟩ := (Option.any_eq_true ..).mp hgoes
  rw [Bool.and_eq_true] at hm
  have hfits : Meets managerNext ManagerFits (fatManagerStart fun _ _ => 0)
      [.create threeBytes, .readFilePartial 1 512 1] := by
    refine ⟨fun p _ _ _ _ => .inr ⟨1, rfl, by decide⟩, fun _ _ => ⟨True.intro, fun _ _ => True.intro⟩⟩
  have hall := partialReads_agree_iff (fun _ _ => 0) _ m hrun
  exact ⟨m, hrun, hm.2, hall.1, hall.2.2 hfits hm.1⟩

/-- A sector and a byte. -/
def sectorAndByte : FatEvent :=
  .createFile 0 .a .b (List.replicate 513 1)
    (by rw [List.length_replicate]; decide)

/-- The last sector of the file read whole: 512 bytes come back where the file has one. -/
theorem partialRead_past_end : ∃ m, run managerNext (fatManagerStart fun _ _ => 0)
      [.create sectorAndByte] = some m ∧ m.disk.running = true ∧
    ∃ node, m.disk.nodes[1]? = some node ∧ node.size = 513 ∧
      (∃ m' fileData, fatReadFilePartial m node 512 512 = .ok (m', some fileData, 512)) ∧
      ¬ PartAgrees m node 512 512 := by
  have hrun := run_createInRoot sectorAndByte rfl []
  have hinv : ManagerInv ((fatManagerStart fun _ _ => 0).afterCall sectorAndByte fatRoot) :=
    .of_run hrun
  have hgoes : ((fatManagerStart fun _ _ => 0).afterCall sectorAndByte fatRoot).disk.running =
      true := by decide +kernel
  have hnode : ((fatManagerStart fun _ _ => 0).afterCall sectorAndByte fatRoot).disk.nodes[1]? =
      some (sectorAndByte.node 2) := by decide +kernel
  have hchain : Chain ((fatManagerStart fun _ _ => 0).afterCall sectorAndByte fatRoot).disk.fat
      (sectorAndByte.node 2).firstFatEntryIdxInFile [2, 1] := by
    have hsecond : (((fatManagerStart fun _ _ => 0).afterCall sectorAndByte fatRoot).disk.fat
        (sectorAndByte.node 2).firstFatEntryIdxInFile).nextFatEntryIdxInFile.toNat = 1 := by
      decide +kernel
    have hlast : (((fatManagerStart fun _ _ => 0).afterCall sectorAndByte fatRoot).disk.fat
        1).nextFatEntryIdxInFile.toNat = 0 := by decide +kernel
    exact .link (by rw [hsecond]; decide) (by rw [hsecond]; exact .last hlast)
  have hread : bytesRemainingToRead (sectorAndByte.node 2).size 512 512 = 512 := by decide +kernel
  refine ⟨_, hrun, hgoes, _, hnode, by decide +kernel, ?_⟩
  rcases fatReadFilePartial_spec hinv.agrees hchain (by decide) 512 512 with
    ⟨hbehind, -⟩ | ⟨-, hpart, -⟩ | ⟨-, m', fileData, hresult, -⟩
  · exact absurd hbehind (by decide)
  · rw [hread] at hpart
    exact absurd hpart (by decide)
  · rw [hread] at hresult
    refine ⟨⟨m', fileData, hresult⟩, fun hagrees => ?_⟩
    rw [partAgrees_iff hinv.agrees hchain (by decide) (by decide +kernel) (by rw [hresult]; nofun),
      ← partOfWhole_iff (by decide +kernel), hread] at hagrees
    exact absurd hagrees (by decide +kernel)

end Axle.FileManager
