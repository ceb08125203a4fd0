import Axle.FileManager.Fat

/-!
# The structure of the file system on disk

What a disk must be after any calls, read from the disk alone: every slot in use starts a chain of
as many allocated entries as its file needs, chains do not meet, no allocated entry is outside every
chain, and the sectors that the entries stand for are on the disk.  Entries are handed out in order,
so the first 65536 of them are linked as they should be, and from then on a link or the first entry
of a slot is cut to sixteen bits.

* `FatStructure` — the law, in terms of the disk;
* `fat_structure_iff` — **PROVED**: along every run the law holds exactly when no call, as far as
  there is a slot for it, takes more entries than the first 65536.
-/

namespace Axle.FileManager

open Axle.Lib.StepRun

/-! ### The law -/

/-- The chain from an entry, to the marker for its end. -/
inductive Chain (fat : ℕ → FatEntry) : ℕ → List ℕ → Prop where
  | last {idx : ℕ} : (fat idx).nextFatEntryIdxInFile.toNat = fatSectorTypeEof → Chain fat idx [idx]
  | link {idx : ℕ} {rest : List ℕ} : (fat idx).nextFatEntryIdxInFile.toNat ≠ fatSectorTypeEof →
      Chain fat (fat idx).nextFatEntryIdxInFile.toNat rest → Chain fat idx (idx :: rest)

/-- The first entry of a slot. -/
def firstOf (s : FatState) (directory i : ℕ) : ℕ :=
  (slot (s.data directory) i).firstFatEntryIdxInFile.toNat

/-- The root directory, and the directories that a directory has a slot for. -/
inductive DirectoryAt (s : FatState) : ℕ → Prop where
  | root : DirectoryAt s 0
  | child {directory i : ℕ} : DirectoryAt s directory → i < directorySlotCount →
      (slot (s.data directory) i).isDirectory = true → firstOf s directory i ≠ fatSectorTypeEof →
      DirectoryAt s (firstOf s directory i)

structure SlotInUse (s : FatState) (directory i : ℕ) : Prop where
  inDirectory : DirectoryAt s directory
  lt : i < directorySlotCount
  used : firstOf s directory i ≠ fatSectorTypeEof

structure FatStructure (s : FatState) : Prop where
  chains : ∀ d i, SlotInUse s d i → ∃ c, Chain s.fat (firstOf s d i) c ∧ c.Nodup ∧
    c.length = ((slot (s.data d) i).size.toNat + (sectorSize - 1)) / sectorSize ∧
    ∀ idx ∈ c, (s.fat idx).allocated = true
  disjoint : ∀ d i d' i', SlotInUse s d i → SlotInUse s d' i' → (d, i) ≠ (d', i') →
    ∀ c c', Chain s.fat (firstOf s d i) c → Chain s.fat (firstOf s d' i') c' → c.Disjoint c'
  owned : ∀ idx, (s.fat idx).allocated = true → idx ≠ 0 →
    ∃ d i c, SlotInUse s d i ∧ Chain s.fat (firstOf s d i) c ∧ idx ∈ c
  within : ∀ idx, (s.fat idx).allocated = true → fatSectorSlide + idx < sectorsOnDisk

/-- A call for which the directory has a slot takes no entry from 65536 on: there is a free entry
low enough, and the first one free is where its entries begin. -/
def Fits (s : FatState) (e : FatEvent) : Prop :=
  ∀ p, s.running = true → s.nodes[e.parent]? = some p → p.isDirectory = true →
    freeSlot (s.data p.firstFatEntryIdxInFile) ≠ none →
    e.needed = 0 ∨ ∃ n, (s.fat n).allocated = false ∧ n + e.needed ≤ 2 ^ 16

/-! ### Chains -/

variable {fat : ℕ → FatEntry} {idx n k : ℕ} {c : List ℕ} {s t : FatState} {nodes : List FatFsNode}
  {e : FatEvent}

theorem Chain.unique {c c' : List ℕ} (h : Chain fat idx c) (h' : Chain fat idx c') : c = c' := by
  induction h generalizing c' with
  | last heof =>
    cases h' with
    | last _ => rfl
    | link hne _ => exact absurd heof hne
  | link hne _ ih =>
    cases h' with
    | last heof => exact absurd heof hne
    | link _ hrest => rw [ih hrest]

theorem Chain.lt {first : ℕ} (h : Chain fat first c) (hfirst : first < 2 ^ 16) :
    ∀ idx ∈ c, idx < 2 ^ 16 := by
  induction h with
  | last _ =>
    intro idx hidx
    rw [List.mem_singleton.mp hidx]
    exact hfirst
  | link _ _ ih =>
    intro idx hidx
    rcases List.mem_cons.mp hidx with rfl | hidx
    · exact hfirst
    · exact ih (BitVec.isLt _) idx hidx

/-- The entries of a file: its first one, and those below it. -/
def downFrom (first k : ℕ) : List ℕ := (List.range k).map (first - ·)

theorem downFrom_succ (first k : ℕ) : downFrom first (k + 1) = first :: downFrom (first - 1) k := by
  rw [downFrom, List.range_succ_eq_map, List.map_cons, List.map_map, Nat.sub_zero, downFrom]
  congr 1
  exact List.map_congr_left fun j _ => by simp only [Function.comp_apply]; omega

theorem mem_downFrom {first k idx : ℕ} (hk : k ≤ first + 1) :
    idx ∈ downFrom first k ↔ first < idx + k ∧ idx ≤ first := by
  rw [downFrom, List.mem_map]
  constructor
  · rintro ⟨j, hj, rfl⟩
    rw [List.mem_range] at hj
    omega
  · rintro ⟨hlow, hhigh⟩
    exact ⟨first - idx, List.mem_range.mpr (by omega), by omega⟩

theorem downFrom_nodup {first k : ℕ} (hk : k ≤ first + 1) : (downFrom first k).Nodup := by
  refine List.Nodup.map_on ?_ List.nodup_range
  intro j hj j' hj' heq
  rw [List.mem_range] at hj hj'
  omega

theorem chain_downFrom : ∀ {k first : ℕ}, k < first →
    (∀ idx, first < idx + (k + 1) → idx ≤ first →
      (fat idx).nextFatEntryIdxInFile.toNat = if idx + (k + 1) = first + 1 then 0 else idx - 1) →
    Chain fat first (downFrom first (k + 1)) := by
  intro k
  induction k with
  | zero =>
    intro first hk hlinks
    have hnext := hlinks first (by omega) le_rfl
    rw [if_pos rfl] at hnext
    exact .last hnext
  | succ k ih =>
    intro first hk hlinks
    have hnext := hlinks first (by omega) le_rfl
    rw [if_neg (by omega)] at hnext
    rw [downFrom_succ]
    refine .link (by rw [hnext]; exact Nat.sub_ne_zero_of_lt (by omega)) ?_
    rw [hnext]
    refine ih (by omega) fun idx hlow hhigh => ?_
    rw [hlinks idx (by omega) (by omega)]
    exact if_congr (by omega) rfl rfl

/-! ### What a disk has while its files fit -/

namespace FatFsNode

def sectors (node : FatFsNode) : ℕ := neededSectors node.size

/-- The entry is one of the node's. -/
def Covers (node : FatFsNode) (idx : ℕ) : Prop :=
  node.firstFatEntryIdxInFile < idx + node.sectors ∧ idx ≤ node.firstFatEntryIdxInFile

/-- What the slot of a node has. -/
structure InSlot (node : FatFsNode) (e : DirectoryEntry) : Prop where
  isDirectory : e.isDirectory = node.isDirectory
  filename : e.filename = strncpy fatFilenameSize node.filename
  ext : node.isDirectory = false → e.ext = strncpy fatFileExtSize node.ext
  first : e.firstFatEntryIdxInFile.toNat = node.firstFatEntryIdxInFile
  size : e.size.toNat = node.size

end FatFsNode

/-- The children of a node that have a slot. -/
def onDisk (nodes : List FatFsNode) (parent : ℕ) : List FatFsNode :=
  (childrenOf nodes parent).filter fun node => 0 < node.sectors

/-- A directory holds these nodes in its first slots, and its other slots are free. -/
structure Holds (sector : Sector) (nodes : List FatFsNode) : Prop where
  length_le : nodes.length ≤ directorySlotCount
  used : ∀ (i : ℕ) (node : FatFsNode), nodes[i]? = some node → node.InSlot (slot sector i)
  free : ∀ i, nodes.length ≤ i →
    (slot sector i).firstFatEntryIdxInFile.toNat = fatSectorTypeEof

/-- The nodes made so far, against the disk: the entries below `n` are theirs. -/
structure FatInv (s : FatState) (nodes : List FatFsNode) (n : ℕ) : Prop where
  front : Front s n
  small : n ≤ 2 ^ 16
  root : nodes[0]? = some fatRoot
  parents : ∀ (i : ℕ) (node : FatFsNode), nodes[i]? = some node → 0 < i → node.parent < i ∧
    ∃ p, nodes[node.parent]? = some p ∧ p.isDirectory = true
  sizes : ∀ node ∈ nodes,
    node.size = if node.isDirectory then sectorSize else node.contents.length
  empty : ∀ node ∈ nodes, node.sectors = 0 → node.firstFatEntryIdxInFile = 0
  within : ∀ node ∈ nodes, 0 < node.sectors → node.firstFatEntryIdxInFile < n
  links : ∀ node ∈ nodes, ∀ idx, node.Covers idx → (s.fat idx).nextFatEntryIdxInFile.toNat =
    if idx + node.sectors = node.firstFatEntryIdxInFile + 1 then 0 else idx - 1
  ordered : nodes.Pairwise fun a b => 0 < a.sectors → 0 < b.sectors →
    a.firstFatEntryIdxInFile + b.sectors ≤ b.firstFatEntryIdxInFile
  covered : ∀ idx < n, ∃ node ∈ nodes, node.Covers idx
  slots : ∀ (i : ℕ) (p : FatFsNode), nodes[i]? = some p → p.isDirectory = true →
    Holds (s.data p.firstFatEntryIdxInFile) (onDisk nodes i)
  contents : ∀ node ∈ nodes, node.isDirectory = false → ∀ idx, node.Covers idx →
    s.data idx = dataSector (chunk node.contents (node.firstFatEntryIdxInFile - idx))

theorem fatRoot_sectors : fatRoot.sectors = 1 := by
  show neededSectors sectorSize = 1
  decide

namespace FatInv

variable {s : FatState} {nodes : List FatFsNode} {n : ℕ} (h : FatInv s nodes n)

include h

variable {node a b : FatFsNode} {i j directory : ℕ}

theorem sectors_directory (hnode : node ∈ nodes) (hdir : node.isDirectory = true) :
    node.sectors = 1 := by
  rw [FatFsNode.sectors, h.sizes node hnode, if_pos hdir]
  decide

/-- The runs of entries in the order of the nodes. -/
theorem before (hij : i < j) (ha : nodes[i]? = some a) (hb : nodes[j]? = some b)
    (hpos : 0 < a.sectors) (hpos' : 0 < b.sectors) :
    a.firstFatEntryIdxInFile + b.sectors ≤ b.firstFatEntryIdxInFile := by
  obtain ⟨hi, rfl⟩ := List.getElem?_eq_some_iff.mp ha
  obtain ⟨hj, rfl⟩ := List.getElem?_eq_some_iff.mp hb
  exact List.pairwise_iff_getElem.mp h.ordered i j hi hj hij hpos hpos'

theorem sectors_le_first (hi : 0 < i) (hnode : nodes[i]? = some node) (hpos : 0 < node.sectors) :
    node.sectors ≤ node.firstFatEntryIdxInFile := by
  have hle := h.before hi h.root hnode (by exact Nat.one_pos) hpos
  exact (Nat.zero_add _).symm.trans_le hle

theorem covers_unique (ha : nodes[i]? = some a) (hb : nodes[j]? = some b) {idx : ℕ}
    (hcov : a.Covers idx) (hcov' : b.Covers idx) : i = j := by
  obtain ⟨hlow, hhigh⟩ := hcov
  obtain ⟨hlow', hhigh'⟩ := hcov'
  rcases Nat.lt_trichotomy i j with hij | heq | hij
  · have hle := h.before hij ha hb (by omega) (by omega)
    omega
  · exact heq
  · have hle := h.before hij hb ha (by omega) (by omega)
    omega

omit h in
theorem mem_onDisk : node ∈ onDisk nodes i ↔
    ∃ k, 0 < k ∧ nodes[k]? = some node ∧ node.parent = i ∧ 0 < node.sectors := by
  rw [onDisk, childrenOf, List.mem_filter, List.mem_filter, List.mem_iff_getElem?]
  simp only [List.getElem?_drop, decide_eq_true_iff]
  constructor
  · rintro ⟨⟨⟨k, hk⟩, hparent⟩, hpos⟩
    exact ⟨1 + k, by omega, hk, hparent, hpos⟩
  · rintro ⟨k, hk, hnode, hparent, hpos⟩
    exact ⟨⟨⟨k - 1, by rw [Nat.add_sub_cancel' hk]; exact hnode⟩, hparent⟩, hpos⟩

/-- The nodes of a directory are told apart by their first entries. -/
theorem onDisk_sorted (i : ℕ) : (onDisk nodes i).Pairwise fun a b =>
    a.firstFatEntryIdxInFile < b.firstFatEntryIdxInFile := by
  have hsub : (onDisk nodes i).Sublist nodes :=
    (List.filter_sublist).trans ((List.filter_sublist).trans (List.drop_sublist 1 nodes))
  refine (h.ordered.sublist hsub).imp_of_mem fun {a b} ha hb hle => ?_
  obtain ⟨-, -, -, -, hpos⟩ := mem_onDisk.mp ha
  obtain ⟨-, -, -, -, hpos'⟩ := mem_onDisk.mp hb
  omega

/-- The directories of the disk are those of the tree in memory. -/
theorem directoryAt_iff : DirectoryAt s directory ↔
    ∃ (i : ℕ) (p : FatFsNode), nodes[i]? = some p ∧ p.isDirectory = true ∧
      p.firstFatEntryIdxInFile = directory := by
  constructor
  · intro hdir
    induction hdir with
    | root => exact ⟨0, fatRoot, h.root, rfl, rfl⟩
    | @child directory j hdir hj hisdir hused ih =>
      obtain ⟨i, p, hp, hpdir, rfl⟩ := ih
      have hholds := h.slots i p hp hpdir
      have hlt : j < (onDisk nodes i).length := by
        by_contra hge
        exact hused (hholds.free j (Nat.not_lt.mp hge))
      have hslot := hholds.used j _ (List.getElem?_eq_getElem hlt)
      obtain ⟨k, -, hk, -, -⟩ := mem_onDisk.mp (List.getElem_mem hlt)
      exact ⟨k, _, hk, hslot.isDirectory.symm.trans hisdir, hslot.first.symm⟩
  · rintro ⟨i, p, hp, hdir, rfl⟩
    induction i using Nat.strong_induction_on generalizing p with
    | _ i ih =>
      rcases Nat.eq_zero_or_pos i with rfl | hi
      · obtain rfl : fatRoot = p := Option.some.inj (h.root.symm.trans hp)
        exact .root
      · obtain ⟨hlt, parent, hparent, hparentdir⟩ := h.parents i p hp hi
        have hsectors := h.sectors_directory (List.mem_of_getElem? hp) hdir
        have hmem : p ∈ onDisk nodes p.parent :=
          mem_onDisk.mpr ⟨i, hi, hp, rfl, by rw [hsectors]; exact Nat.one_pos⟩
        obtain ⟨j, hj⟩ := List.mem_iff_getElem?.mp hmem
        have hholds := h.slots p.parent parent hparent hparentdir
        have hslot := hholds.used j p hj
        have hpos := h.sectors_le_first hi hp (by rw [hsectors]; exact Nat.one_pos)
        have hjlt : j < directorySlotCount :=
          Nat.lt_of_lt_of_le (List.getElem?_eq_some_iff.mp hj).1 hholds.length_le
        rw [← hslot.first]
        refine .child (ih p.parent hlt parent hparent hparentdir) hjlt
          (hslot.isDirectory.trans hdir) ?_
        rw [firstOf, hslot.first]
        exact Nat.ne_of_gt (by rw [hsectors] at hpos; exact hpos)

theorem slotInUse_iff : SlotInUse s directory j ↔
    ∃ (i : ℕ) (p node : FatFsNode), nodes[i]? = some p ∧ p.isDirectory = true ∧
      p.firstFatEntryIdxInFile = directory ∧ (onDisk nodes i)[j]? = some node := by
  constructor
  · rintro ⟨hdir, hj, hused⟩
    obtain ⟨i, p, hp, hpdir, rfl⟩ := h.directoryAt_iff.mp hdir
    have hlt : j < (onDisk nodes i).length := by
      by_contra hge
      exact hused ((h.slots i p hp hpdir).free j (Nat.not_lt.mp hge))
    exact ⟨i, p, _, hp, hpdir, rfl, List.getElem?_eq_getElem hlt⟩
  · rintro ⟨i, p, node, hp, hpdir, rfl, hnode⟩
    have hholds := h.slots i p hp hpdir
    obtain ⟨k, hk, hget, -, hpos⟩ := mem_onDisk.mp (List.mem_of_getElem? hnode)
    have hfirst := h.sectors_le_first hk hget hpos
    refine ⟨h.directoryAt_iff.mpr ⟨i, p, hp, hpdir, rfl⟩,
      Nat.lt_of_lt_of_le (List.getElem?_eq_some_iff.mp hnode).1 hholds.length_le, ?_⟩
    rw [firstOf, (hholds.used j node hnode).first]
    exact Nat.ne_of_gt (Nat.lt_of_lt_of_le hpos hfirst)

theorem chain {k : ℕ} (hk : 0 < k) (hnode : nodes[k]? = some node) (hpos : 0 < node.sectors) :
    Chain s.fat node.firstFatEntryIdxInFile
      (downFrom node.firstFatEntryIdxInFile node.sectors) := by
  have hfirst := h.sectors_le_first hk hnode hpos
  have hlinks := h.links node (List.mem_of_getElem? hnode)
  obtain ⟨m, hm⟩ : ∃ m, node.sectors = m + 1 := ⟨node.sectors - 1, by omega⟩
  simp only [FatFsNode.Covers, hm] at hlinks
  rw [hm]
  exact chain_downFrom (by omega) fun idx hlow hhigh => hlinks idx ⟨hlow, hhigh⟩

theorem chain_of_slotInUse (hused : SlotInUse s directory j) :
    ∃ (i k : ℕ) (p node : FatFsNode), nodes[i]? = some p ∧ p.firstFatEntryIdxInFile = directory ∧
      (onDisk nodes i)[j]? = some node ∧ 0 < k ∧ nodes[k]? = some node ∧ node.parent = i ∧
      0 < node.sectors ∧ node.InSlot (slot (s.data directory) j) ∧
      Chain s.fat (firstOf s directory j) (downFrom node.firstFatEntryIdxInFile node.sectors) := by
  obtain ⟨i, p, node, hp, hpdir, rfl, hnode⟩ := h.slotInUse_iff.mp hused
  obtain ⟨k, hk, hget, hparent, hpos⟩ := mem_onDisk.mp (List.mem_of_getElem? hnode)
  have hslot := (h.slots i p hp hpdir).used j node hnode
  refine ⟨i, k, p, node, hp, rfl, hnode, hk, hget, hparent, hpos, hslot, ?_⟩
  rw [firstOf, hslot.first]
  exact h.chain hk hget hpos

/-- **The law holds as long as the files fit.** -/
theorem fatStructure : FatStructure s where
  chains d j hused := by
    obtain ⟨i, k, p, node, -, -, -, hk, hget, -, hpos, hslot, hchain⟩ := h.chain_of_slotInUse hused
    have hle := h.sectors_le_first hk hget hpos
    refine ⟨_, hchain, downFrom_nodup (by omega), ?_, fun idx hidx => ?_⟩
    · rw [hslot.size, ← neededSectors_eq, downFrom, List.length_map, List.length_range,
        FatFsNode.sectors]
    · rw [h.front.allocated]
      have hfirst := h.within node (List.mem_of_getElem? hget) hpos
      obtain ⟨-, hhigh⟩ := (mem_downFrom (by omega)).mp hidx
      omega
  disjoint d j d' j' hused hused' hne c c' hc hc' := by
    obtain ⟨i, k, p, node, hp, rfl, hnode, hk, hget, hparent, hpos, -, hchain⟩ :=
      h.chain_of_slotInUse hused
    obtain ⟨i', k', p', node', hp', rfl, hnode', hk', hget', hparent', hpos', -, hchain'⟩ :=
      h.chain_of_slotInUse hused'
    rw [hc.unique hchain, hc'.unique hchain']
    have hle := h.sectors_le_first hk hget hpos
    have hle' := h.sectors_le_first hk' hget' hpos'
    intro idx hidx hidx'
    have hcov : node.Covers idx := (mem_downFrom (by omega)).mp hidx
    have hcov' : node'.Covers idx := (mem_downFrom (by omega)).mp hidx'
    obtain rfl : k = k' := h.covers_unique hget hget' hcov hcov'
    obtain rfl : node = node' := Option.some.inj (hget.symm.trans hget')
    obtain rfl : i = i' := hparent.symm.trans hparent'
    obtain rfl : p = p' := Option.some.inj (hp.symm.trans hp')
    have hnodup : (onDisk nodes i).Nodup := by
      refine (h.onDisk_sorted i).imp fun {a b} hlt heq => ?_
      rw [heq] at hlt
      exact Nat.lt_irrefl _ hlt
    obtain ⟨hj, hget⟩ := List.getElem?_eq_some_iff.mp hnode
    obtain ⟨hj', hget'⟩ := List.getElem?_eq_some_iff.mp hnode'
    obtain rfl : j = j' := (hnodup.getElem_inj_iff).mp (hget.trans hget'.symm)
    exact hne rfl
  owned idx halloc hne := by
    obtain ⟨node, hmem, hcov⟩ := h.covered idx ((h.front.allocated idx).mp halloc)
    obtain ⟨k, hget⟩ := List.mem_iff_getElem?.mp hmem
    have hpos : 0 < node.sectors := by
      obtain ⟨hlow, hhigh⟩ := hcov
      omega
    have hk : 0 < k := by
      rcases Nat.eq_zero_or_pos k with rfl | hk
      · obtain rfl : fatRoot = node := Option.some.inj (h.root.symm.trans hget)
        exact absurd (Nat.le_zero.mp hcov.2) hne
      · exact hk
    obtain ⟨hlt, p, hp, hpdir⟩ := h.parents k node hget hk
    obtain ⟨j, hj⟩ := List.mem_iff_getElem?.mp (mem_onDisk.mpr ⟨k, hk, hget, rfl, hpos⟩)
    have hslot := (h.slots node.parent p hp hpdir).used j node hj
    have hle := h.sectors_le_first hk hget hpos
    refine ⟨p.firstFatEntryIdxInFile, j, _,
      h.slotInUse_iff.mpr ⟨node.parent, p, node, hp, hpdir, rfl, hj⟩, ?_,
      (mem_downFrom (by omega)).mpr hcov⟩
    rw [firstOf, hslot.first]
    exact h.chain hk hget hpos
  within idx halloc := by
    have hlt := (h.front.allocated idx).mp halloc
    have hsmall := h.small
    have hslide : fatSectorSlide = 1025 := by rw [fatSectorSlide, fatSectorCount_eq, fatHeadSector]
    have hdisk : sectorsOnDisk = 131072 := by decide
    omega

end FatInv

/-- **The other way round**: an allocated entry that no link can name is in no chain. -/
theorem FatStructure.le_of_front (h : FatStructure s) (hfront : Front s n) : n ≤ 2 ^ 16 := by
  by_contra hgt
  obtain ⟨d, i, c, -, hchain, hmem⟩ := h.owned (2 ^ 16)
    ((hfront.allocated _).mpr (Nat.not_le.mp hgt)) (by decide)
  exact Nat.lt_irrefl _ (hchain.lt (BitVec.isLt _) _ hmem)

/-! ### What a call does -/

theorem fatFormatDrive_inv (old : ℕ → Sector) : FatInv (fatFormatDrive old) [fatRoot] 1 where
  front := fatFormatDrive_front old
  small := by decide
  root := rfl
  parents i node hnode hi := by
    obtain ⟨hlt, -⟩ := List.getElem?_eq_some_iff.mp hnode
    rw [List.length_singleton] at hlt
    omega
  sizes node hnode := by
    rw [List.mem_singleton.mp hnode]
    rfl
  empty node hnode _ := by
    rw [List.mem_singleton.mp hnode]
    rfl
  within node hnode _ := by
    rw [List.mem_singleton.mp hnode]
    exact Nat.one_pos
  links node hnode idx hcov := by
    obtain rfl := List.mem_singleton.mp hnode
    obtain ⟨-, hhigh⟩ := hcov
    obtain rfl : idx = 0 := Nat.le_zero.mp hhigh
    rfl
  ordered := List.pairwise_singleton _ _
  covered idx hidx := by
    refine ⟨fatRoot, List.mem_cons_self, ?_⟩
    exact ⟨Nat.succ_pos idx, Nat.lt_one_iff.mp hidx |>.le⟩
  slots i p hp _ := by
    obtain ⟨hlt, hp⟩ := List.getElem?_eq_some_iff.mp hp
    obtain rfl : i = 0 := Nat.lt_one_iff.mp hlt
    obtain rfl : fatRoot = p := hp
    refine ⟨Nat.zero_le _, fun i node hnode => ?_, fun i _ => slot_zero i⟩
    cases hnode
  contents node hnode hfile := by
    rw [List.mem_singleton.mp hnode] at hfile
    cases hfile

theorem getElem?_concat {α : Type} {items : List α} {x y : α} (h : (items ++ [x])[k]? = some y) :
    items[k]? = some y ∨ k = items.length ∧ y = x := by
  rcases Nat.lt_or_ge k items.length with hlt | hge
  · rw [List.getElem?_append_left hlt] at h
    exact .inl h
  · rw [List.getElem?_append_right hge] at h
    obtain ⟨hlt, hget⟩ := List.getElem?_eq_some_iff.mp h
    rw [List.length_singleton] at hlt
    refine .inr ⟨by omega, ?_⟩
    rw [← hget, List.getElem_singleton]

namespace Holds

variable {sector : Sector} {nodes : List FatFsNode} (h : Holds sector nodes)

include h

theorem freeSlot_eq (hfirst : ∀ node ∈ nodes, node.firstFatEntryIdxInFile ≠ 0) {i : ℕ}
    (hslot : freeSlot sector = some i) : i = nodes.length ∧ i < directorySlotCount := by
  have hlt : i < directorySlotCount := List.mem_range.mp (List.mem_of_find?_eq_some hslot)
  have hused : ∀ k < nodes.length,
      (slot sector k).firstFatEntryIdxInFile.toNat ≠ fatSectorTypeEof := fun k hk => by
    rw [(h.used k _ (List.getElem?_eq_getElem hk)).first]
    exact hfirst _ (List.getElem_mem hk)
  have hfree : (slot sector i).firstFatEntryIdxInFile.toNat = fatSectorTypeEof :=
    of_decide_eq_true (List.find?_some (p := fun i =>
      decide ((slot sector i).firstFatEntryIdxInFile.toNat = fatSectorTypeEof)) hslot)
  have hle : nodes.length ≤ i := by
    by_contra hgt
    exact hused i (Nat.not_le.mp hgt) hfree
  have hfound : freeSlot sector = some nodes.length :=
    find?_eq_some_of_sorted (List.pairwise_lt_range (n := directorySlotCount))
      (List.mem_range.mpr (Nat.lt_of_le_of_lt hle hlt)) (decide_eq_true (h.free _ le_rfl))
      fun m _ hm => decide_eq_false (hused m hm)
  exact ⟨Option.some.inj (hslot.symm.trans hfound), hlt⟩

variable {e : DirectoryEntry}

theorem store_used (hlt : nodes.length < directorySlotCount) {node : FatFsNode}
    (hnode : node.InSlot e) (hfilename : e.filename.length = fatFilenameSize)
    (hext : e.ext.length = fatFileExtSize) :
    Holds (storeSlot sector nodes.length e) (nodes ++ [node]) where
  length_le := by
    rw [List.length_append, List.length_singleton]
    exact hlt
  used k node' hget := by
    rcases getElem?_concat hget with hget | ⟨rfl, rfl⟩
    · have hk := (List.getElem?_eq_some_iff.mp hget).1
      rw [slot_storeSlot_of_ne sector e (Nat.ne_of_lt hk)]
      exact h.used k node' hget
    · rw [slot_storeSlot_self sector _ hfilename hext]
      exact hnode
  free k hk := by
    rw [List.length_append, List.length_singleton] at hk
    rw [slot_storeSlot_of_ne sector e (by omega)]
    exact h.free k (by omega)

theorem store_free (hfirst : e.firstFatEntryIdxInFile.toNat = fatSectorTypeEof)
    (hfilename : e.filename.length = fatFilenameSize) (hext : e.ext.length = fatFileExtSize) :
    Holds (storeSlot sector nodes.length e) nodes where
  length_le := h.length_le
  used k node hget := by
    have hk := (List.getElem?_eq_some_iff.mp hget).1
    rw [slot_storeSlot_of_ne sector e (Nat.ne_of_lt hk)]
    exact h.used k node hget
  free k hk := by
    rcases Nat.eq_or_lt_of_le hk with rfl | hlt
    · rw [slot_storeSlot_self sector _ hfilename hext]
      exact hfirst
    · rw [slot_storeSlot_of_ne sector e (Nat.ne_of_gt hlt)]
      exact h.free k hk

end Holds

theorem childrenOf_concat (hne : nodes ≠ []) (node : FatFsNode) (i : ℕ) :
    childrenOf (nodes ++ [node]) i =
      childrenOf nodes i ++ if node.parent = i then [node] else [] := by
  obtain ⟨root, rest, rfl⟩ := List.exists_cons_of_ne_nil hne
  rw [childrenOf, childrenOf, List.cons_append, List.drop_one, List.drop_one, List.tail_cons,
    List.tail_cons, List.filter_append]
  by_cases heq : node.parent = i <;> simp [heq]

theorem onDisk_concat (hne : nodes ≠ []) (node : FatFsNode) (i : ℕ) :
    onDisk (nodes ++ [node]) i =
      onDisk nodes i ++ if node.parent = i ∧ 0 < node.sectors then [node] else [] := by
  rw [onDisk, childrenOf_concat hne, List.filter_append, ← onDisk]
  by_cases heq : node.parent = i <;> by_cases hpos : 0 < node.sectors <;> simp [heq, hpos]

/-- The first entry of what is made, when the entries from `n` on are taken. -/
def FatEvent.first (e : FatEvent) (n : ℕ) : BitVec 16 :=
  BitVec.ofNat 16 (if e.needed = 0 then 0 else n + e.needed - 1)

/-- The state after a creation in which the entries of `t` have been taken. -/
def stored (s t : FatState) (e : FatEvent) (directory i n : ℕ) : FatState :=
  { t with
    data := Function.update t.data directory (storeSlot (s.data directory) i
      (e.entry (slot (s.data directory) i).ext (e.first n))) }

theorem FatEvent.first_toNat (e : FatEvent) (hroom : n + e.needed ≤ 2 ^ 16) :
    (e.first n).toNat = if e.needed = 0 then 0 else n + e.needed - 1 := by
  rw [FatEvent.first, BitVec.toNat_ofNat, Nat.mod_eq_of_lt]
  split <;> omega

@[simp] theorem FatEvent.node_sectors (e : FatEvent) (first : BitVec 16) :
    (e.node first).sectors = e.needed := rfl

theorem FatEvent.inSlot (e : FatEvent) (oldExt : List Byte) (first : BitVec 16) :
    (e.node first).InSlot (e.entry oldExt first) where
  isDirectory := rfl
  filename := rfl
  ext h := if_neg (by rw [show e.isDirectory = false from h]; exact Bool.false_ne_true)
  first := rfl
  size := by
    show (BitVec.ofNat 32 e.fileLen).toNat = e.fileLen
    rw [BitVec.toNat_ofNat, Nat.mod_eq_of_lt e.fileLen_lt]

section Create

variable {s t : FatState} {nodes : List FatFsNode} {n i : ℕ} {e : FatEvent} {p : FatFsNode}
  (h : FatInv s nodes n) (hp : nodes[e.parent]? = some p) (hdir : p.isDirectory = true)
  (hslot : freeSlot (s.data p.firstFatEntryIdxInFile) = some i)
  (hroom : n + e.needed ≤ 2 ^ 16) (hfront : Front t (n + e.needed))
  (htook : Took s t n e.needed 0 e.written)

variable {k idx : ℕ} {node q : FatFsNode}

include h in
/-- What is on disk of a directory starts behind the root's entry. -/
theorem FatInv.onDisk_first_ne_zero : ∀ node ∈ onDisk nodes k, node.firstFatEntryIdxInFile ≠ 0 := by
  intro node hnode
  obtain ⟨m, hm, hget, -, hpos⟩ := FatInv.mem_onDisk.mp hnode
  exact Nat.ne_of_gt (Nat.lt_of_lt_of_le hpos (h.sectors_le_first hm hget hpos))

include h hp hdir hslot in
theorem FatInv.freeSlot_eq : i = (onDisk nodes e.parent).length ∧ i < directorySlotCount :=
  (h.slots e.parent p hp hdir).freeSlot_eq h.onDisk_first_ne_zero hslot

include h in
/-- The entries of a node are below those that are taken. -/
theorem FatInv.covers_lt (hnode : node ∈ nodes) (hcov : node.Covers idx) : idx < n := by
  obtain ⟨hlow, hhigh⟩ := hcov
  exact Nat.lt_of_le_of_lt hhigh (h.within node hnode (by omega))

include h in
theorem FatInv.directory_covers (hq : nodes[k]? = some q) (hqdir : q.isDirectory = true) :
    q.Covers q.firstFatEntryIdxInFile := by
  rw [FatFsNode.Covers, h.sectors_directory (List.mem_of_getElem? hq) hqdir]
  exact ⟨Nat.lt_succ_self _, le_rfl⟩

include h hp hdir hslot hroom htook in
theorem FatInv.create_slots (hq : (nodes ++ [e.node (e.first n)])[k]? = some q)
    (hqdir : q.isDirectory = true) :
    Holds ((stored s t e p.firstFatEntryIdxInFile i n).data q.firstFatEntryIdxInFile)
      (onDisk (nodes ++ [e.node (e.first n)]) k) := by
  have hne : nodes ≠ [] := List.ne_nil_of_mem (List.mem_of_getElem? hp)
  have hplt : p.firstFatEntryIdxInFile < n :=
    h.covers_lt (List.mem_of_getElem? hp) (h.directory_covers hp hdir)
  obtain ⟨hi, hilt⟩ := h.freeSlot_eq hp hdir hslot
  have hentry : (e.entry (slot (s.data p.firstFatEntryIdxInFile) i).ext (e.first n)).ext.length =
      fatFileExtSize := by
    show (if e.isDirectory then _ else _ : List Byte).length = _
    split
    · exact slot_ext_length _ _
    · exact strncpy_length _ _
  rw [onDisk_concat hne]
  rcases getElem?_concat hq with hq | ⟨rfl, rfl⟩
  · have hqlt : q.firstFatEntryIdxInFile < n :=
      h.covers_lt (List.mem_of_getElem? hq) (h.directory_covers hq hqdir)
    have hholds := h.slots k q hq hqdir
    by_cases hk : k = e.parent
    · -- the directory of the call
      subst hk
      obtain rfl : p = q := Option.some.inj (hp.symm.trans hq)
      have hdata : (stored s t e p.firstFatEntryIdxInFile i n).data p.firstFatEntryIdxInFile =
          storeSlot (s.data p.firstFatEntryIdxInFile) i
            (e.entry (slot (s.data p.firstFatEntryIdxInFile) i).ext (e.first n)) :=
        Function.update_self ..
      rw [hdata]
      by_cases hpos : 0 < e.needed
      · rw [if_pos ⟨rfl, hpos⟩]
        have hstore := hholds.store_used (hi ▸ hilt)
          (e.inSlot (slot (s.data p.firstFatEntryIdxInFile) i).ext (e.first n))
          (strncpy_length _ _) hentry
        rw [← hi] at hstore
        exact hstore
      · rw [if_neg fun hcond => hpos hcond.2, List.append_nil]
        have hstore := hholds.store_free (e := e.entry
          (slot (s.data p.firstFatEntryIdxInFile) i).ext (e.first n))
          ((e.first_toNat hroom).trans (if_pos (by omega))) (strncpy_length _ _) hentry
        rw [← hi] at hstore
        exact hstore
    · -- another directory: its sector is neither the one stored to nor one that was taken
      have hother : q.firstFatEntryIdxInFile ≠ p.firstFatEntryIdxInFile := fun heq =>
        hk (h.covers_unique hq hp (h.directory_covers hq hqdir)
          (heq ▸ h.directory_covers hp hdir))
      have hdata : (stored s t e p.firstFatEntryIdxInFile i n).data q.firstFatEntryIdxInFile =
          s.data q.firstFatEntryIdxInFile := by
        refine (Function.update_of_ne hother _ _).trans ?_
        rw [htook.data, if_neg (by omega)]
      rw [hdata, if_neg fun hcond => hk hcond.1.symm, List.append_nil]
      exact hholds
  · -- the new directory: its sector has been cleared
    have hneeded : e.needed = 1 := FatEvent.needed_directory hqdir
    have hfirst : (e.node (e.first n)).firstFatEntryIdxInFile = n := by
      refine (e.first_toNat hroom).trans ?_
      rw [hneeded, if_neg Nat.one_ne_zero, Nat.add_sub_cancel]
    have hparent : e.parent < nodes.length := (List.getElem?_eq_some_iff.mp hp).1
    have hnone : onDisk nodes nodes.length = [] := by
      refine List.eq_nil_iff_forall_not_mem.mpr fun node hnode => ?_
      obtain ⟨m, hm, hget, hnodeparent, -⟩ := FatInv.mem_onDisk.mp hnode
      have hlt := (h.parents m node hget hm).1
      have hmlt := (List.getElem?_eq_some_iff.mp hget).1
      omega
    have hdata : (stored s t e p.firstFatEntryIdxInFile i n).data n = fun _ => 0 := by
      refine (Function.update_of_ne (Nat.ne_of_gt hplt) _ _).trans ?_
      rw [htook.data, if_pos (by omega), Nat.sub_self]
      exact FatEvent.written_directory hqdir 0
    rw [hfirst, hdata, hnone, if_neg fun hcond => Nat.ne_of_lt hparent hcond.1]
    exact ⟨Nat.zero_le _, fun k node hnode => (by cases hnode), fun k _ => slot_zero k⟩

include h hp hdir hroom htook in
theorem FatInv.create_contents (hnode : node ∈ nodes ++ [e.node (e.first n)])
    (hfile : node.isDirectory = false) (hcov : node.Covers idx) :
    (stored s t e p.firstFatEntryIdxInFile i n).data idx =
      dataSector (chunk node.contents (node.firstFatEntryIdxInFile - idx)) := by
  have hpcov := h.directory_covers hp hdir
  rcases List.mem_append.mp hnode with hnode | hnode
  · obtain ⟨k, hk⟩ := List.mem_iff_getElem?.mp hnode
    have hother : idx ≠ p.firstFatEntryIdxInFile := fun heq => by
      obtain rfl : k = e.parent := h.covers_unique hk hp hcov (heq ▸ hpcov)
      obtain rfl : p = node := Option.some.inj (hp.symm.trans hk)
      exact Bool.false_ne_true (hfile.symm.trans hdir)
    have hlt := h.covers_lt hnode hcov
    refine (Function.update_of_ne hother _ _).trans ?_
    rw [htook.data, if_neg (by omega)]
    exact h.contents node hnode hfile idx hcov
  · obtain rfl := List.mem_singleton.mp hnode
    have hplt := h.covers_lt (List.mem_of_getElem? hp) hpcov
    have hfirst : (e.node (e.first n)).firstFatEntryIdxInFile = _ := e.first_toNat hroom
    obtain ⟨hlow, hhigh⟩ := hcov
    rw [hfirst, FatEvent.node_sectors] at hlow
    rw [hfirst] at hhigh ⊢
    have hpos : e.needed ≠ 0 := fun hzero => by
      rw [if_pos hzero] at hlow hhigh
      omega
    rw [if_neg hpos] at hlow hhigh ⊢
    refine (Function.update_of_ne (by omega) _ _).trans ?_
    rw [htook.data, if_pos (by omega), FatEvent.written_file hfile (by omega)]
    congr 2
    omega

include h hp hdir hslot hroom hfront htook in
/-- **A creation for which there is room keeps the invariant.** -/
theorem FatInv.create : FatInv (stored s t e p.firstFatEntryIdxInFile i n)
    (nodes ++ [e.node (e.first n)]) (n + e.needed) where
  front := ⟨hfront.allocated, hfront.le, hfront.last⟩
  small := hroom
  root := by
    rw [List.getElem?_append_left (List.getElem?_eq_some_iff.mp h.root).1]
    exact h.root
  parents k node hnode hk := by
    have hold : ∀ {m : ℕ} {q : FatFsNode}, nodes[m]? = some q →
        (nodes ++ [e.node (e.first n)])[m]? = some q := fun hq => by
      rw [List.getElem?_append_left (List.getElem?_eq_some_iff.mp hq).1]
      exact hq
    rcases getElem?_concat hnode with hnode | ⟨rfl, rfl⟩
    · obtain ⟨hlt, q, hq, hqdir⟩ := h.parents k node hnode hk
      exact ⟨hlt, q, hold hq, hqdir⟩
    · exact ⟨(List.getElem?_eq_some_iff.mp hp).1, p, hold hp, hdir⟩
  sizes node hnode := by
    rcases List.mem_append.mp hnode with hnode | hnode
    · exact h.sizes node hnode
    · rw [List.mem_singleton.mp hnode]
      exact e.fileLen_eq.symm
  empty node hnode hzero := by
    rcases List.mem_append.mp hnode with hnode | hnode
    · exact h.empty node hnode hzero
    · obtain rfl := List.mem_singleton.mp hnode
      exact (e.first_toNat hroom).trans (if_pos hzero)
  within node hnode hpos := by
    rcases List.mem_append.mp hnode with hnode | hnode
    · exact Nat.lt_of_lt_of_le (h.within node hnode hpos) (Nat.le_add_right _ _)
    · obtain rfl := List.mem_singleton.mp hnode
      rw [FatEvent.node_sectors] at hpos
      show (e.first n).toNat < _
      rw [e.first_toNat hroom, if_neg (Nat.ne_of_gt hpos)]
      omega
  links node hnode idx hcov := by
    show (t.fat idx).nextFatEntryIdxInFile.toNat = _
    rw [htook.fat]
    rcases List.mem_append.mp hnode with hnode | hnode
    · have hlt := h.covers_lt hnode hcov
      rw [if_neg (by omega)]
      exact h.links node hnode idx hcov
    · obtain rfl := List.mem_singleton.mp hnode
      have hfirst : (e.node (e.first n)).firstFatEntryIdxInFile = _ := e.first_toNat hroom
      obtain ⟨hlow, hhigh⟩ := hcov
      rw [hfirst, FatEvent.node_sectors] at hlow ⊢
      rw [hfirst] at hhigh
      have hpos : e.needed ≠ 0 := fun hzero => by
        rw [if_pos hzero] at hlow hhigh
        omega
      rw [if_neg hpos] at hlow hhigh ⊢
      rw [if_pos (by omega)]
      show (BitVec.ofNat 16 _).toNat = _
      rw [BitVec.toNat_ofNat, Nat.mod_eq_of_lt (by split <;> omega)]
      exact if_congr (by omega) rfl rfl
  ordered := by
    refine List.pairwise_append.mpr ⟨h.ordered, List.pairwise_singleton _ _, ?_⟩
    intro a ha b hb hpos hpos'
    obtain rfl := List.mem_singleton.mp hb
    have hlt := h.within a ha hpos
    rw [FatEvent.node_sectors] at hpos' ⊢
    show _ ≤ (e.first n).toNat
    rw [e.first_toNat hroom, if_neg (Nat.ne_of_gt hpos')]
    omega
  covered idx hidx := by
    rcases Nat.lt_or_ge idx n with hlt | hge
    · obtain ⟨node, hnode, hcov⟩ := h.covered idx hlt
      exact ⟨node, List.mem_append_left _ hnode, hcov⟩
    · refine ⟨e.node (e.first n), List.mem_append_right _ List.mem_cons_self, ?_⟩
      have hfirst : (e.node (e.first n)).firstFatEntryIdxInFile = _ := e.first_toNat hroom
      rw [FatFsNode.Covers, hfirst, FatEvent.node_sectors, if_neg (by omega)]
      omega
  slots _ _ hq hqdir := h.create_slots hp hdir hslot hroom htook hq hqdir
  contents _ hnode hfile _ hcov := h.create_contents hp hdir hroom htook hnode hfile hcov

end Create

/-! ### Runs -/

theorem Front.of_disk (h : Front s n) (hfat : t.fat = s.fat)
    (hlast : t.lastSectorWithFreeSpace = s.lastSectorWithFreeSpace) : Front t n :=
  ⟨fun idx => by rw [hfat, h.allocated], h.le, by rw [hlast]; exact h.last⟩

theorem FatInv.of_disk (h : FatInv s nodes n) (hfat : t.fat = s.fat) (hdata : t.data = s.data)
    (hlast : t.lastSectorWithFreeSpace = s.lastSectorWithFreeSpace) : FatInv t nodes n where
  front := h.front.of_disk hfat hlast
  small := h.small
  root := h.root
  parents := h.parents
  sizes := h.sizes
  empty := h.empty
  within := h.within
  links := by
    rw [hfat]
    exact h.links
  ordered := h.ordered
  covered := h.covered
  slots := by
    rw [hdata]
    exact h.slots
  contents := by
    rw [hdata]
    exact h.contents

/-- A state in which the files fit: its nodes are those of the disk, as long as it goes on. -/
def FatRun (s : FatState) (nodes : List FatFsNode) (n : ℕ) : Prop :=
  FatInv s nodes n ∧ (s.running = true → s.nodes = nodes)

theorem fatFormatDrive_run (old : ℕ → Sector) : FatRun (fatFormatDrive old) [fatRoot] 1 :=
  ⟨fatFormatDrive_inv old, fun _ => rfl⟩

/-- The three outcomes of a call on a directory, with their disks. -/
theorem afterCall_cases (hfront : Front s n) (e : FatEvent) (p : FatFsNode) :
    (freeSlot (s.data p.firstFatEntryIdxInFile) = none ∧
      afterCall s e p = { s with running := false }) ∨
    ∃ i, freeSlot (s.data p.firstFatEntryIdxInFile) = some i ∧
      ((fatEntryCount < n + e.needed ∧ ∃ t, Front t fatEntryCount ∧
        afterCall s e p = { t with running := false }) ∨
      (n + e.needed ≤ fatEntryCount ∧ ∃ t, Front t (n + e.needed) ∧
        Took s t n e.needed 0 e.written ∧
        afterCall s e p =
          fsNodeCreate (stored s t e p.firstFatEntryIdxInFile i n) (e.node (e.first n)))) := by
  cases hslot : freeSlot (s.data p.firstFatEntryIdxInFile) with
  | none =>
    refine .inl ⟨rfl, ?_⟩
    rw [afterCall, fatCreateDirOrFile_noSlot e hslot]
  | some i =>
    refine .inr ⟨i, rfl, ?_⟩
    rcases Nat.lt_or_ge fatEntryCount (n + e.needed) with hfull | hroom
    · obtain ⟨t, ht, hfront'⟩ := fatCreateDirOrFile_full hfront e hslot hfull
      refine .inl ⟨hfull, t, hfront', ?_⟩
      rw [afterCall, ht]
    · obtain ⟨t, ht, hfront', htook⟩ := fatCreateDirOrFile_spec hfront e hslot hroom
      refine .inr ⟨hroom, t, hfront', htook, ?_⟩
      rw [afterCall, ht]
      rfl

theorem fsNodeCreate_disk (s : FatState) (node : FatFsNode) :
    (fsNodeCreate s node).fat = s.fat ∧ (fsNodeCreate s node).data = s.data ∧
      (fsNodeCreate s node).lastSectorWithFreeSpace = s.lastSectorWithFreeSpace ∧
      ((fsNodeCreate s node).running = true → (fsNodeCreate s node).nodes = s.nodes ++ [node]) := by
  rw [fsNodeCreate]
  split
  · exact ⟨rfl, rfl, rfl, fun _ => rfl⟩
  · exact ⟨rfl, rfl, rfl, fun h => nomatch h⟩

theorem FatInv.room (h : FatInv s nodes n)
    (hfree : e.needed = 0 ∨ ∃ m, (s.fat m).allocated = false ∧
      m + e.needed ≤ 2 ^ 16) : n + e.needed ≤ 2 ^ 16 := by
  rcases hfree with hzero | ⟨m, hm, hroom⟩
  · rw [hzero]
    exact h.small
  · have hle : n ≤ m := by
      by_contra hlt
      exact Bool.false_ne_true (hm.symm.trans ((h.front.allocated m).mpr (Nat.not_le.mp hlt)))
    omega

/-- **One call that fits**: the process ends with the disk as it was, or the node is made. -/
theorem FatRun.next {s t : FatState} {nodes : List FatFsNode} {n : ℕ} {e : FatEvent}
    (h : FatRun s nodes n) (hfits : Fits s e) (hnext : fatNext s e = some t) :
    (FatRun t nodes n ∧ t.running = false) ∨
      FatRun t (nodes ++ [e.node (e.first n)]) (n + e.needed) := by
  obtain ⟨hinv, hnodes⟩ := h
  obtain ⟨hrun, p, hp, hdir, rfl⟩ := fatNext_eq_some.mp hnext
  have hp' : nodes[e.parent]? = some p := hnodes hrun ▸ hp
  rcases afterCall_cases hinv.front e p with ⟨-, ht⟩ | ⟨i, hslot, hcase⟩
  · refine .inl ⟨⟨?_, fun hstop => ?_⟩, by rw [ht]⟩
    · rw [ht]
      exact hinv.of_disk rfl rfl rfl
    · rw [ht] at hstop
      cases hstop
  · have hroom := hinv.room (hfits p hrun hp hdir (by rw [hslot]; exact Option.some_ne_none i))
    have hcount : n + e.needed ≤ fatEntryCount := by
      rw [fatEntryCount_eq]
      omega
    rcases hcase with ⟨hfull, -⟩ | ⟨-, u, hfront, htook, ht⟩
    · exact absurd hfull (Nat.not_lt.mpr hcount)
    · have hcreate := hinv.create hp' hdir hslot hroom hfront htook
      obtain ⟨hfat, hdata, hlast, hnodes'⟩ := fsNodeCreate_disk
        (stored s u e p.firstFatEntryIdxInFile i n) (e.node (e.first n))
      rw [ht]
      refine .inr ⟨hcreate.of_disk hfat hdata hlast, fun hgoes => ?_⟩
      rw [hnodes' hgoes, ← hnodes hrun, ← htook.nodes]
      rfl

theorem FatRun.exists_next (h : ∃ nodes n, FatRun s nodes n) (hfits : Fits s e)
    (hnext : fatNext s e = some t) : ∃ nodes n, FatRun t nodes n := by
  obtain ⟨nodes, n, h⟩ := h
  rcases h.next hfits hnext with ⟨h', -⟩ | h'
  · exact ⟨_, _, h'⟩
  · exact ⟨_, _, h'⟩

/-- A call that leaves the law in force has taken none of the entries from 65536 on. -/
theorem FatRun.fits (h : FatRun s nodes n) (hlaw : ∀ t, fatNext s e = some t → FatStructure t) :
    Fits s e := by
  intro p hrun hp hdir hslot
  have hfree : (s.fat n).allocated = false := by
    rw [← Bool.not_eq_true, h.1.front.allocated]
    exact Nat.lt_irrefl n
  have hlaw := hlaw _ (fatNext_eq_some.mpr ⟨hrun, p, hp, hdir, rfl⟩)
  rcases afterCall_cases h.1.front e p with ⟨hnone, -⟩ | ⟨i, -, hcase⟩
  · exact absurd hnone hslot
  · rcases hcase with ⟨-, u, hfront, ht⟩ | ⟨-, u, hfront, -, ht⟩
    · have hle := hlaw.le_of_front (n := fatEntryCount) (by rw [ht]; exact hfront.of_disk rfl rfl)
      rw [fatEntryCount_eq] at hle
      omega
    · obtain ⟨hfat, -, hlast, -⟩ := fsNodeCreate_disk
        (stored s u e p.firstFatEntryIdxInFile i n) (e.node (e.first n))
      have hle := hlaw.le_of_front (n := n + e.needed)
        (by rw [ht]; exact hfront.of_disk hfat hlast)
      exact .inr ⟨n, hfree, hle⟩

/-- **The structure of the file system.**  From a freshly formatted disk, along every run of calls,
the disk is well structured in every state passed through, the last one included in which a call may
have failed — exactly when every call for which its directory has a slot either takes no entries or
takes them all below the entry 65536. -/
theorem fat_structure_iff (old : ℕ → Sector) (es : List FatEvent) :
    (∀ s, Passes fatNext (fatFormatDrive old) es s → FatStructure s) ↔
      Meets fatNext Fits (fatFormatDrive old) es := by
  have hinit : ∃ nodes n, FatRun (fatFormatDrive old) nodes n :=
    ⟨[fatRoot], 1, fatFormatDrive_run old⟩
  constructor
  · intro hlaw
    refine meets_of_passes (fun _ _ _ h _ hfits hnext => FatRun.exists_next h hfits hnext) hinit
      (Meets.trivial es _) hlaw fun s e h _ hgood => ?_
    obtain ⟨nodes, n, h⟩ := h
    exact h.fits hgood
  · intro hmeets s hs
    obtain ⟨nodes, n, h, -⟩ := passes_invariant
      (fun _ _ _ h hfits hnext => FatRun.exists_next h hfits hnext) hinit hmeets hs
    exact h.fatStructure

def CString.a : CString := ⟨[0x61], by decide⟩

def CString.b : CString := ⟨[0x62], by decide⟩

/-- A file of 32 MiB. -/
def wholeTable : FatEvent :=
  .createFile 0 .a .b (List.replicate (65536 * 512) 0)
    (by rw [List.length_replicate]; decide)

theorem wholeTable_needed : wholeTable.needed = 65536 := by
  show neededSectors (List.replicate (65536 * 512) (0 : Byte)).length = 65536
  rw [List.length_replicate]
  decide

/-- The first entry of the file is the entry 65536, of which the slot keeps nothing: the slot stays
free, and nothing leads to the 65536 entries taken. -/
theorem wholeTable_leaked : ∃ s, run fatNext (fatFormatDrive fun _ _ => 0) [wholeTable] = some s ∧
    s.running = true ∧ (s.fat 65536).allocated = true ∧ ¬ FatStructure s := by
  have hnext : fatNext (fatFormatDrive fun _ _ => 0) wholeTable =
      some (afterCall (fatFormatDrive fun _ _ => 0) wholeTable fatRoot) :=
    fatNext_eq_some.mpr ⟨rfl, fatRoot, rfl, rfl, rfl⟩
  refine ⟨_, run_cons_eq_some.mpr ⟨_, hnext, rfl⟩, ?_⟩
  rcases afterCall_cases (fatFormatDrive_front fun _ _ => 0) wholeTable fatRoot with
    ⟨hnone, -⟩ | ⟨i, -, ⟨hfull, -⟩ | ⟨-, u, hfront, htook, ht⟩⟩
  · have hslot : freeSlot (fun _ => 0) = some 0 := by decide
    exact nomatch hslot.symm.trans hnone
  · rw [wholeTable_needed, fatEntryCount_eq] at hfull
    omega
  · obtain ⟨hfat, -, hlast, -⟩ := fsNodeCreate_disk (stored (fatFormatDrive fun _ _ => 0) u
      wholeTable 0 i 1) (wholeTable.node (wholeTable.first 1))
    have hfront' := hfront.of_disk (t := fsNodeCreate (stored (fatFormatDrive fun _ _ => 0) u
      wholeTable 0 i 1) (wholeTable.node (wholeTable.first 1))) hfat hlast
    rw [wholeTable_needed] at hfront'
    rw [ht]
    refine ⟨?_, (hfront'.allocated _).mpr (by omega), fun hlaw => ?_⟩
    · have hchildren : childrenOf u.nodes 0 = [] := by
        rw [htook.nodes]
        rfl
      rw [fsNodeCreate, if_pos]
      · exact htook.running
      · exact (congrArg (fun c => c.length + 1 ≤ 128) hchildren).mpr (by decide)
    · have hle := hlaw.le_of_front hfront'
      omega

end Axle.FileManager
