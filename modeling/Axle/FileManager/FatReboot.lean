import Axle.FileManager.FatStructure

/-!
# The tree before and after a reboot

While the file manager runs, the nodes of the tree in memory are those that the calls have made;
after a reboot they are those that `fat_parse_from_disk` finds in the directories.  The two are
filled by different code.  The node of a file gets its name with the precision of
`sizeof(FAT_FILENAME_SIZE)`, the size of an `int`, so four characters of it, while the slot has eight
and they are all read back; and the slot of a file without contents counts as free.

* `fatParseFromDisk` — the tree on disk;
* `memoryTree` — the tree in memory;
* `fat_reboot` — **PROVED**: the trees are equal in every state reached as long as files fit below
  the entry 65536, have contents, and have names of at most four characters.
-/

namespace Axle.FileManager

open Axle.Lib.StepRun

/-! ### The two trees -/

/-- A tree of nodes, with what a node has: the children of a file are none. -/
inductive FsTree where
  | node (name : List Byte) (isDirectory : Bool) (firstFatEntryIdxInFile size : ℕ)
      (children : List FsTree)

/-- The name made in `_parse_node_from_fat_entry`. -/
def DirectoryEntry.fullFilename (e : DirectoryEntry) : List Byte :=
  let filename := e.filename.takeWhile (· != 0)
  if e.isDirectory then filename else filename ++ 0x2e :: e.ext.takeWhile (· != 0)

/-- The slots in use of a directory of `size` bytes. -/
def usedSlots (s : FatState) (directory size : ℕ) : List DirectoryEntry :=
  ((List.range (size / 32)).map (slot (s.data directory))).filter fun e =>
    e.firstFatEntryIdxInFile.toNat ≠ fatSectorTypeEof

/-- `_parse_fat_directory`; directories that contain themselves run out of fuel, and so does one of
more children than a node can have. -/
def parseFatDirectory (s : FatState) : (fuel directory size : ℕ) → Option (List FsTree)
  | 0, _, _ => none
  | fuel + 1, directory, size =>
    if (usedSlots s directory size).length ≤ 128 then
      (usedSlots s directory size).mapM fun e => do
        let children ←
          if e.isDirectory then
            parseFatDirectory s fuel e.firstFatEntryIdxInFile.toNat e.size.toNat
          else some []
        some (.node e.fullFilename e.isDirectory e.firstFatEntryIdxInFile.toNat e.size.toNat
          children)
    else none

def fatParseFromDisk (s : FatState) (fuel : ℕ) : Option FsTree :=
  (parseFatDirectory s fuel 0 sectorSize).map (.node hdd.chars true 0 sectorSize)

/-- The children of a node with their numbers. -/
def memoryChildren (nodes : List FatFsNode) (i : ℕ) : List (FatFsNode × ℕ) :=
  (nodes.zipIdx.drop 1).filter fun c => c.1.parent = i

/-- The trees below node `i`. -/
def memoryTrees (nodes : List FatFsNode) : (fuel i : ℕ) → Option (List FsTree)
  | 0, _ => none
  | fuel + 1, i =>
    (memoryChildren nodes i).mapM fun c => do
      let children ← if c.1.isDirectory then memoryTrees nodes fuel c.2 else some []
      some (.node c.1.name c.1.isDirectory c.1.firstFatEntryIdxInFile c.1.size children)

/-- The tree of nodes below the root of the disk. -/
def memoryTree (nodes : List FatFsNode) (fuel : ℕ) : Option FsTree :=
  (memoryTrees nodes fuel 0).map (.node hdd.chars true 0 sectorSize)

/-- What a reboot would read is the tree there is. -/
def SameTree (s : FatState) : Prop :=
  ∃ tree enough, ∀ fuel ≥ enough,
    memoryTree s.nodes fuel = some tree ∧ fatParseFromDisk s fuel = some tree

/-- A file has contents, and a name of which the node keeps everything. -/
def NameKept : FatEvent → Prop
  | .createDirectory _ _ => True
  | .createFile _ filename _ fileData _ => fileData ≠ [] ∧ filename.chars.length ≤ 4

/-- The name fits the fields of a slot. -/
def NameFits (e : FatEvent) : Prop :=
  e.filename.chars.length ≤ fatFilenameSize ∧ e.ext.chars.length ≤ fatFileExtSize

/-! ### Names -/

theorem strncpy_eq (n : ℕ) (s : CString) :
    strncpy n s = s.chars.take n ++ List.replicate (n - s.chars.length) 0 := by
  refine List.ext_getElem (by simp; omega) fun j hj hj' => ?_
  rw [strncpy_length] at hj
  rw [List.getElem_append]
  simp only [strncpy, List.getElem_map, List.getElem_range, List.getD_eq_getElem?_getD]
  split
  · rename_i hlt
    rw [List.length_take] at hlt
    rw [List.getElem_take, List.getElem?_eq_getElem (by omega), Option.getD_some]
  · rename_i hge
    rw [List.length_take] at hge
    rw [List.getElem_replicate, List.getElem?_eq_none (by omega), Option.getD_none]

/-- What is read from a field is the text up to the width of the field. -/
theorem takeWhile_strncpy (n : ℕ) (s : CString) :
    (strncpy n s).takeWhile (· != 0) = s.chars.take n := by
  have htext : ∀ c ∈ s.chars.take n, (c != 0) = true := fun c hc =>
    bne_iff_ne.mpr fun hzero => s.text (hzero ▸ List.mem_of_mem_take hc)
  rw [strncpy_eq, List.takeWhile_append_of_pos htext]
  cases n - s.chars.length with
  | zero => simp
  | succ k => simp [List.replicate_succ]

/-- A node that is on disk, with its name there. -/
structure FatFsNode.Kept (node : FatFsNode) : Prop where
  sectors : 0 < node.sectors
  name : node.name =
    if node.isDirectory then node.filename.chars.take fatFilenameSize
    else node.filename.chars.take fatFilenameSize ++
      0x2e :: node.ext.chars.take fatFileExtSize

theorem FatEvent.node_kept {e : FatEvent} (hkept : NameKept e) (hfits : NameFits e)
    (first : BitVec 16) : (e.node first).Kept := by
  cases e with
  | createDirectory parent filename =>
    refine ⟨?_, rfl⟩
    show 0 < neededSectors sectorSize
    decide
  | createFile parent filename ext fileData short =>
    obtain ⟨hne, hlen⟩ := hkept
    obtain ⟨-, hext⟩ := hfits
    have hpos : 0 < fileData.length := List.length_pos_iff.mpr hne
    have hext : ext.chars.length ≤ 3 := hext
    refine ⟨?_, ?_⟩
    · show 0 < neededSectors fileData.length
      rw [neededSectors_eq, sectorSize]
      omega
    · show filename.chars.take 4 ++ 0x2e :: ext.chars.take 4 =
        filename.chars.take 8 ++ 0x2e :: ext.chars.take 3
      rw [List.take_of_length_le hlen, List.take_of_length_le (by omega),
        List.take_of_length_le (by omega), List.take_of_length_le hext]

theorem FatFsNode.InSlot.fullFilename {node : FatFsNode} {e : DirectoryEntry} (h : node.InSlot e)
    (hkept : node.Kept) : e.fullFilename = node.name := by
  rw [DirectoryEntry.fullFilename, h.isDirectory, h.filename, takeWhile_strncpy, hkept.name]
  cases hdir : node.isDirectory with
  | true => rfl
  | false =>
    rw [h.ext hdir, takeWhile_strncpy]

/-! ### The same trees -/

theorem mapM_congr_getElem? {α β γ : Type} {f : α → Option γ} {g : β → Option γ} :
    ∀ {as : List α} {bs : List β}, as.length = bs.length →
      (∀ (j : ℕ) (a : α) (b : β), as[j]? = some a → bs[j]? = some b → f a = g b) →
      as.mapM f = bs.mapM g := by
  intro as
  induction as with
  | nil =>
    intro bs hlen _
    rw [List.length_eq_zero_iff.mp hlen.symm]
    rfl
  | cons a as ih =>
    intro bs hlen h
    cases bs with
    | nil => cases hlen
    | cons b bs =>
      rw [List.mapM_cons, List.mapM_cons, h 0 a b rfl rfl,
        ih (Nat.succ.inj hlen) fun j a' b' ha hb => h (j + 1) a' b' ha hb]

theorem exists_mapM {α β : Type} {f : α → Option β} : ∀ {as : List α},
    (∀ a ∈ as, ∃ b, f a = some b) → ∃ bs, as.mapM f = some bs := by
  intro as
  induction as with
  | nil => exact fun _ => ⟨[], rfl⟩
  | cons a as ih =>
    intro h
    obtain ⟨b, hb⟩ := h a List.mem_cons_self
    obtain ⟨bs, hbs⟩ := ih fun a' ha' => h a' (List.mem_cons_of_mem a ha')
    exact ⟨b :: bs, by rw [List.mapM_cons, hb, hbs]; rfl⟩

theorem memoryChildren_fst (nodes : List FatFsNode) (i : ℕ) :
    (memoryChildren nodes i).map Prod.fst = childrenOf nodes i := by
  have hdrop : nodes.drop 1 = (nodes.zipIdx.drop 1).map Prod.fst := by
    rw [List.map_drop, List.zipIdx_map_fst]
  rw [memoryChildren, childrenOf, hdrop, List.filter_map]
  rfl

theorem mem_memoryChildren {nodes : List FatFsNode} {i : ℕ} {c : FatFsNode × ℕ}
    (h : c ∈ memoryChildren nodes i) : 0 < c.2 ∧ nodes[c.2]? = some c.1 ∧ c.1.parent = i := by
  obtain ⟨hmem, hparent⟩ := List.mem_filter.mp h
  obtain ⟨k, hk⟩ := List.mem_iff_getElem?.mp hmem
  rw [List.getElem?_drop, List.getElem?_zipIdx, Option.map_eq_some_iff] at hk
  obtain ⟨node, hnode, rfl⟩ := hk
  refine ⟨?_, by simpa using hnode, of_decide_eq_true hparent⟩
  show 0 < 0 + (1 + k)
  omega

namespace FatInv

variable {s : FatState} {nodes : List FatFsNode} {n : ℕ} (h : FatInv s nodes n)
  (hkept : ∀ (k : ℕ) (node : FatFsNode), 0 < k → nodes[k]? = some node → node.Kept)

include h hkept

omit h in
theorem onDisk_eq (i : ℕ) : onDisk nodes i = childrenOf nodes i := by
  refine List.filter_eq_self.mpr fun node hnode => decide_eq_true ?_
  obtain ⟨k, hk⟩ := List.mem_iff_getElem?.mp (List.mem_filter.mp hnode).1
  rw [List.getElem?_drop] at hk
  exact (hkept (1 + k) node (by omega) hk).sectors

/-- The slots in use of a directory are the first ones, those of its nodes. -/
theorem usedSlots_eq {i : ℕ} {p : FatFsNode} (hp : nodes[i]? = some p)
    (hdir : p.isDirectory = true) : usedSlots s p.firstFatEntryIdxInFile sectorSize =
      (List.range (childrenOf nodes i).length).map (slot (s.data p.firstFatEntryIdxInFile)) := by
  have hholds := h.slots i p hp hdir
  have hfirst := h.onDisk_first_ne_zero (k := i)
  rw [onDisk_eq hkept] at hholds hfirst
  have hcount : sectorSize / 32 = (childrenOf nodes i).length +
      (directorySlotCount - (childrenOf nodes i).length) :=
    (Nat.add_sub_cancel' hholds.length_le).symm
  rw [usedSlots, hcount, List.range_add, List.map_append, List.filter_append]
  have hused : ((List.range (childrenOf nodes i).length).map
      (slot (s.data p.firstFatEntryIdxInFile))).filter
        (fun e => decide (e.firstFatEntryIdxInFile.toNat ≠ fatSectorTypeEof)) =
      (List.range (childrenOf nodes i).length).map (slot (s.data p.firstFatEntryIdxInFile)) := by
    refine List.filter_eq_self.mpr fun e he => decide_eq_true ?_
    obtain ⟨j, hj, rfl⟩ := List.mem_map.mp he
    have hj := List.getElem?_eq_getElem (List.mem_range.mp hj)
    rw [(hholds.used j _ hj).first]
    exact hfirst _ (List.mem_of_getElem? hj)
  have hfree : (((List.range (directorySlotCount - (childrenOf nodes i).length)).map
      ((childrenOf nodes i).length + ·)).map (slot (s.data p.firstFatEntryIdxInFile))).filter
        (fun e => decide (e.firstFatEntryIdxInFile.toNat ≠ fatSectorTypeEof)) = [] := by
    refine List.filter_eq_nil_iff.mpr fun e he => ?_
    obtain ⟨j, hj, rfl⟩ := List.mem_map.mp he
    obtain ⟨j, -, rfl⟩ := List.mem_map.mp hj
    simpa using hholds.free _ (Nat.le_add_right _ j)
  rw [hused, hfree, List.append_nil]

/-- **What is parsed of a directory is what is below its node**, with any fuel. -/
theorem parseFatDirectory_eq : ∀ (fuel i : ℕ) (p : FatFsNode), nodes[i]? = some p →
    p.isDirectory = true →
    parseFatDirectory s fuel p.firstFatEntryIdxInFile sectorSize = memoryTrees nodes fuel i := by
  intro fuel
  induction fuel with
  | zero => exact fun _ _ _ _ => rfl
  | succ fuel ih =>
    intro i p hp hdir
    have hholds := h.slots i p hp hdir
    rw [onDisk_eq hkept] at hholds
    have hslots : (usedSlots s p.firstFatEntryIdxInFile sectorSize).length ≤ 128 := by
      rw [h.usedSlots_eq hkept hp hdir, List.length_map, List.length_range]
      exact hholds.length_le.trans (by decide)
    have hlen : (memoryChildren nodes i).length = (childrenOf nodes i).length := by
      rw [← memoryChildren_fst, List.length_map]
    rw [parseFatDirectory, if_pos hslots, memoryTrees, h.usedSlots_eq hkept hp hdir]
    refine mapM_congr_getElem? (by rw [List.length_map, List.length_range, hlen]) ?_
    intro j e c he hc
    obtain ⟨hpos, hget, -⟩ := mem_memoryChildren (List.mem_of_getElem? hc)
    have hmem := List.mem_of_getElem? hget
    have hchild : (childrenOf nodes i)[j]? = some c.1 := by
      rw [← memoryChildren_fst, List.getElem?_map, hc]
      rfl
    have hslot := hholds.used j c.1 hchild
    obtain ⟨hj, he⟩ := List.getElem?_eq_some_iff.mp he
    rw [List.getElem_map, List.getElem_range] at he
    rw [he] at hslot
    rw [hslot.fullFilename (hkept c.2 c.1 hpos hget), hslot.isDirectory, hslot.first, hslot.size]
    cases hcdir : c.1.isDirectory with
    | false => rfl
    | true =>
      have hsize : c.1.size = sectorSize := by rw [h.sizes c.1 hmem, if_pos hcdir]
      rw [if_pos rfl, if_pos rfl, hsize, ih c.2 c.1 hget hcdir]

omit hkept in
/-- The tree in memory is finite: a child was made after its parent. -/
theorem exists_memoryTrees : ∀ (fuel i : ℕ), i < nodes.length → nodes.length ≤ i + fuel →
    ∃ trees, memoryTrees nodes fuel i = some trees := by
  intro fuel
  induction fuel with
  | zero => exact fun i hi hle => absurd hle (by omega)
  | succ fuel ih =>
    intro i _ hle
    rw [memoryTrees]
    refine exists_mapM fun c hc => ?_
    obtain ⟨hpos, hget, hparent⟩ := mem_memoryChildren hc
    have hlt := (h.parents c.2 c.1 hget hpos).1
    rw [hparent] at hlt
    cases c.1.isDirectory with
    | false => exact ⟨_, rfl⟩
    | true =>
      obtain ⟨trees, htrees⟩ := ih c.2 (List.getElem?_eq_some_iff.mp hget).1 (by omega)
      exact ⟨_, by rw [if_pos rfl, htrees]; rfl⟩

omit hkept in
theorem memoryTrees_fuel : ∀ (fuel fuel' i : ℕ), i < nodes.length → nodes.length ≤ i + fuel →
    nodes.length ≤ i + fuel' → memoryTrees nodes fuel i = memoryTrees nodes fuel' i := by
  intro fuel
  induction fuel with
  | zero => exact fun fuel' i hi hle => absurd hle (by omega)
  | succ fuel ih =>
    intro fuel' i hi hle hle'
    obtain ⟨fuel', rfl⟩ : ∃ f, fuel' = f + 1 := ⟨fuel' - 1, by omega⟩
    rw [memoryTrees, memoryTrees]
    refine mapM_congr_getElem? rfl fun j c c' hc hc' => ?_
    obtain rfl : c = c' := Option.some.inj (hc.symm.trans hc')
    obtain ⟨hpos, hget, hparent⟩ := mem_memoryChildren (List.mem_of_getElem? hc)
    have hlt := (h.parents c.2 c.1 hget hpos).1
    rw [hparent] at hlt
    rw [ih fuel' c.2 (List.getElem?_eq_some_iff.mp hget).1 (by omega) (by omega)]

/-- **A reboot keeps the tree.** -/
theorem sameTree (hnodes : s.nodes = nodes) : SameTree s := by
  have hroot : 0 < nodes.length := (List.getElem?_eq_some_iff.mp h.root).1
  obtain ⟨trees, htrees⟩ := h.exists_memoryTrees nodes.length 0 hroot (Nat.zero_add _).ge
  refine ⟨.node hdd.chars true 0 sectorSize trees, nodes.length, fun fuel hfuel => ?_⟩
  have hmemory : memoryTrees nodes fuel 0 = some trees := by
    rw [h.memoryTrees_fuel fuel nodes.length 0 hroot (by omega) (by omega), htrees]
  have hdisk : parseFatDirectory s fuel 0 sectorSize = some trees :=
    (h.parseFatDirectory_eq hkept fuel 0 fatRoot h.root rfl).trans hmemory
  rw [memoryTree, hnodes, hmemory, fatParseFromDisk, hdisk]
  exact ⟨rfl, rfl⟩

end FatInv

/-! ### Runs -/

/-- The nodes of a run in which files have contents and short names. -/
def KeptRun (s : FatState) : Prop :=
  ∃ nodes n, FatRun s nodes n ∧
    ∀ (k : ℕ) (node : FatFsNode), 0 < k → nodes[k]? = some node → node.Kept

theorem KeptRun.next {s t : FatState} {e : FatEvent} (h : KeptRun s)
    (hok : (Fits s e ∧ NameKept e) ∧ NameFits e) (hnext : fatNext s e = some t) : KeptRun t := by
  obtain ⟨nodes, n, hrun, hkept⟩ := h
  rcases hrun.next hok.1.1 hnext with ⟨hrun', -⟩ | hrun'
  · exact ⟨nodes, n, hrun', hkept⟩
  · refine ⟨_, _, hrun', fun k node hk hnode => ?_⟩
    rcases getElem?_concat hnode with hnode | ⟨-, rfl⟩
    · exact hkept k node hk hnode
    · exact FatEvent.node_kept hok.1.2 hok.2 _

/-- **The tree survives a reboot.**  In every run of calls with names that fit a slot, from a freshly
formatted disk: if every call takes its entries below the entry 65536, and every file has contents
and a name of at most four characters, then in every state the process goes on from, the tree that
would be read from the disk is the one in memory — names, kinds, sizes, first entries and places. -/
theorem fat_reboot (old : ℕ → Sector) (es : List FatEvent) (hnames : ∀ e ∈ es, NameFits e)
    (hkept : Meets fatNext (fun s e => Fits s e ∧ NameKept e) (fatFormatDrive old) es) :
    ∀ s, Passes fatNext (fatFormatDrive old) es s → s.running = true → SameTree s := by
  intro s hs hgoes
  have hinit : KeptRun (fatFormatDrive old) := by
    refine ⟨[fatRoot], 1, fatFormatDrive_run old, fun k node hk hnode => ?_⟩
    obtain ⟨hlt, -⟩ := List.getElem?_eq_some_iff.mp hnode
    rw [List.length_singleton] at hlt
    omega
  obtain ⟨nodes, n, ⟨hinv, hnodes⟩, hkept⟩ := passes_invariant
    (fun _ _ _ h hok hnext => KeptRun.next h hok hnext) hinit
    (hkept.and (Meets.of_forall es _ hnames)) hs
  exact hinv.sameTree hkept (hnodes hgoes)

/-- `ab.c`, with one byte. -/
def shortName : FatEvent :=
  .createFile 0 ⟨[0x61, 0x62], by decide⟩ ⟨[0x63], by decide⟩ [1] (by decide)

theorem fat_reboot_shortName :
    (∀ e ∈ [shortName], NameFits e) ∧
      Meets fatNext (fun s e => Fits s e ∧ NameKept e) (fatFormatDrive fun _ _ => 0) [shortName] ∧
      ∀ s, Passes fatNext (fatFormatDrive fun _ _ => 0) [shortName] s → s.running = true →
        SameTree s := by
  have hnames : ∀ e ∈ [shortName], NameFits e := by
    intro e he
    rw [List.mem_singleton.mp he]
    exact ⟨by decide, by decide⟩
  have hkept : Meets fatNext (fun s e => Fits s e ∧ NameKept e) (fatFormatDrive fun _ _ => 0)
      [shortName] := by
    refine ⟨⟨fun p _ _ _ _ => .inr ⟨1, rfl, by decide⟩, List.cons_ne_nil _ _, by decide⟩, ?_⟩
    exact fun t _ => True.intro
  exact ⟨hnames, hkept, fat_reboot _ [shortName] hnames hkept⟩

/-- `doom1.wad`, with one byte. -/
def doom1 : FatEvent :=
  .createFile 0 ⟨[0x64, 0x6f, 0x6f, 0x6d, 0x31], by decide⟩ ⟨[0x77, 0x61, 0x64], by decide⟩ [1]
    (by decide)

/-- The tree of one file in the root directory. -/
def oneFile (name : List Byte) : FsTree :=
  .node hdd.chars true 0 sectorSize [.node name false 1 1 []]

/-- **The name that the authors wondered about**: `doom.wad` before a reboot, `doom1.wad` after. -/
theorem doom1_renamed : ∃ s, run fatNext (fatFormatDrive fun _ _ => 0) [doom1] = some s ∧
    s.running = true ∧
    (∀ fuel, memoryTree s.nodes (fuel + 1) =
      some (oneFile [0x64, 0x6f, 0x6f, 0x6d, 0x2e, 0x77, 0x61, 0x64])) ∧
    (∀ fuel, fatParseFromDisk s (fuel + 1) =
      some (oneFile [0x64, 0x6f, 0x6f, 0x6d, 0x31, 0x2e, 0x77, 0x61, 0x64])) ∧ ¬ SameTree s := by
  have hnodes : (afterCall (fatFormatDrive fun _ _ => 0) doom1 fatRoot).nodes =
      [fatRoot, doom1.node 1] := by decide +kernel
  have hused : usedSlots (afterCall (fatFormatDrive fun _ _ => 0) doom1 fatRoot) 0 sectorSize =
      [doom1.entry [0, 0, 0] 1] := by decide +kernel
  have hmemory : ∀ fuel, memoryTree (afterCall (fatFormatDrive fun _ _ => 0) doom1 fatRoot).nodes
      (fuel + 1) = some (oneFile [0x64, 0x6f, 0x6f, 0x6d, 0x2e, 0x77, 0x61, 0x64]) := fun fuel => by
    rw [hnodes]
    rfl
  have hdisk : ∀ fuel, fatParseFromDisk (afterCall (fatFormatDrive fun _ _ => 0) doom1 fatRoot)
      (fuel + 1) = some (oneFile [0x64, 0x6f, 0x6f, 0x6d, 0x31, 0x2e, 0x77, 0x61, 0x64]) :=
    fun fuel => by
      rw [fatParseFromDisk, parseFatDirectory, hused]
      rfl
  refine ⟨_, run_cons_eq_some.mpr ⟨_, fatNext_eq_some.mpr ⟨rfl, fatRoot, rfl, rfl, rfl⟩, rfl⟩,
    by decide +kernel, hmemory, hdisk, ?_⟩
  rintro ⟨tree, enough, hsame⟩
  obtain ⟨hmem, hparsed⟩ := hsame (enough + 1) (Nat.le_succ enough)
  have heq := Option.some.inj ((hmemory enough).symm.trans (hmem.trans (hparsed.symm.trans
    (hdisk enough))))
  simp [oneFile] at heq

end Axle.FileManager
