import Mathlib.Data.List.GetD
import Axle.Linker.Jumps

/-!
# The file is about itself

The headers of the file say where in the file things are.  They are read back here from the bytes,
as a loader does it, and compared with what stands there.  The header of a section is given the
offset of its first atom and the summed lengths of its atoms: a section that the source leaves and
enters again is not in one piece, and the header then covers bytes of the other.

* `ElfHeader64.read`, `ElfSection64.read`, `ElfSymbol64.read`, `ElfSegment64.read` — the records,
  read from the bytes;
* `SelfConsistent` — what the headers, the symbols and the names of a file have to agree on;
* `ElfOk` — a condition on what is rendered: the atoms of a section are next to each other, and
  every symbol's name stands in the string table at the 32-bit index that the symbol has room for;
* `self_consistent_iff` — **PROVED**: for every source that is linked, the file is consistent
  exactly then.
-/

namespace Axle.Linker

open Axle.Compiler Axle.Lib.Pieces

/-! ### Reading records -/

def readU16 (bytes : List (BitVec 8)) (i : Nat) : BitVec 16 := bytes.getD (i + 1) 0 ++ bytes.getD i 0

def readU32 (bytes : List (BitVec 8)) (i : Nat) : BitVec 32 :=
  fromNeBytes (bytes.getD i 0) (bytes.getD (i + 1) 0) (bytes.getD (i + 2) 0) (bytes.getD (i + 3) 0)

def readU64 (bytes : List (BitVec 8)) (i : Nat) : BitVec 64 := readU32 bytes (i + 4) ++ readU32 bytes i

def ElfHeader64.read (bytes : List (BitVec 8)) : ElfHeader64 where
  entryPoint := readU64 bytes 24
  programHeaderTableStart := readU64 bytes 32
  sectionHeaderTableStart := readU64 bytes 40
  programHeaderTableEntryCount := readU16 bytes 56
  sectionHeaderTableEntryCount := readU16 bytes 60
  sectionNamesSectionHeaderIndex := readU16 bytes 62

def ElfSegment64.read (bytes : List (BitVec 8)) : ElfSegment64 where
  segmentType := readU32 bytes 0
  flags := readU32 bytes 4
  offset := readU64 bytes 8
  vaddr := readU64 bytes 16
  paddr := readU64 bytes 24
  fileSize := readU64 bytes 32
  memSize := readU64 bytes 40
  align := readU64 bytes 48

def ElfSection64.read (bytes : List (BitVec 8)) : ElfSection64 where
  name := readU32 bytes 0
  segmentType := readU32 bytes 4
  flags := readU64 bytes 8
  addr := readU64 bytes 16
  offset := readU64 bytes 24
  size := readU64 bytes 32
  link := readU32 bytes 40
  info := readU32 bytes 44
  addrAlign := readU64 bytes 48
  entSize := readU64 bytes 56

def ElfSymbol64.read (bytes : List (BitVec 8)) : ElfSymbol64 where
  name := readU32 bytes 0
  info := bytes.getD 4 0
  other := bytes.getD 5 0
  ownerSectionIndex := readU16 bytes 6
  value := readU64 bytes 8
  size := readU64 bytes 16

section Skip

-- Reading behind a field.
variable (v16 : BitVec 16) (v32 : BitVec 32) (v64 : BitVec 64) (rest : List (BitVec 8)) (i : Nat)

theorem readU16_skip16 : readU16 (toLeBytes16 v16 ++ rest) (i + 2) = readU16 rest i := rfl

theorem readU16_skip32 : readU16 (toNeBytes v32 ++ rest) (i + 4) = readU16 rest i := rfl

theorem readU16_skip64 : readU16 (toLeBytes64 v64 ++ rest) (i + 8) = readU16 rest i := rfl

theorem readU32_skip32 : readU32 (toNeBytes v32 ++ rest) (i + 4) = readU32 rest i := rfl

theorem readU32_skip64 : readU32 (toLeBytes64 v64 ++ rest) (i + 8) = readU32 rest i := rfl

theorem readU64_skip16 : readU64 (toLeBytes16 v16 ++ rest) (i + 2) = readU64 rest i := by
  rfl

theorem readU64_skip32 : readU64 (toNeBytes v32 ++ rest) (i + 4) = readU64 rest i := by
  rw [readU64, readU64, readU32_skip32, readU32_skip32]

theorem readU64_skip64 : readU64 (toLeBytes64 v64 ++ rest) (i + 8) = readU64 rest i := by
  rw [readU64, readU64, Nat.add_right_comm, readU32_skip64, readU32_skip64]

theorem readU16_skipIdent : readU16 (ElfHeader64.ident ++ rest) (i + 16) = readU16 rest i := rfl

theorem readU64_skipIdent : readU64 (ElfHeader64.ident ++ rest) (i + 16) = readU64 rest i := by
  rfl

end Skip

theorem readU16_append (value : BitVec 16) (rest : List (BitVec 8)) :
    readU16 (toLeBytes16 value ++ rest) 0 = value := by
  show value.extractLsb' 8 8 ++ value.extractLsb' 0 8 = value
  apply BitVec.eq_of_toNat_eq
  rw [BitVec.toNat_append, BitVec.extractLsb'_toNat, BitVec.extractLsb'_toNat,
    Nat.shiftLeft_eq, Nat.shiftRight_zero, Nat.shiftRight_eq_div_pow, Nat.mul_comm,
    ← Nat.two_pow_add_eq_or_of_lt (Nat.mod_lt _ (Nat.two_pow_pos 8))]
  omega

theorem readU32_append (value : BitVec 32) (rest : List (BitVec 8)) :
    readU32 (toNeBytes value ++ rest) 0 = value := by
  obtain ⟨b0, b1, b2, b3, hbytes, hvalue⟩ := fromNeBytes_toNeBytes value
  rw [hbytes]
  exact hvalue

theorem readU64_append (value : BitVec 64) (rest : List (BitVec 8)) :
    readU64 (toLeBytes64 value ++ rest) 0 = value := by
  have hlow : readU32 (toLeBytes64 value ++ rest) 0 = value.setWidth 32 := by
    exact readU32_append _ _
  have hhigh : readU32 (toLeBytes64 value ++ rest) (0 + 4) = (value >>> 32).setWidth 32 :=
    readU32_append _ rest
  rw [readU64, hlow, hhigh]
  apply BitVec.eq_of_toNat_eq
  rw [BitVec.toNat_append, BitVec.toNat_setWidth, BitVec.toNat_setWidth, BitVec.toNat_ushiftRight,
    Nat.shiftLeft_eq, Nat.shiftRight_eq_div_pow, Nat.mul_comm,
    ← Nat.two_pow_add_eq_or_of_lt (Nat.mod_lt _ (Nat.two_pow_pos 32))]
  omega

theorem ElfHeader64.read_bytes (h : ElfHeader64) (rest : List (BitVec 8)) :
    ElfHeader64.read (h.bytes ++ rest) = h := by
  simp only [ElfHeader64.read, ElfHeader64.bytes, List.append_assoc, readU16_skipIdent,
    readU64_skipIdent, readU16_skip16, readU16_skip32, readU16_skip64, readU64_skip16,
    readU64_skip32, readU64_skip64, readU16_append, readU64_append]

theorem ElfSegment64.read_bytes (s : ElfSegment64) (rest : List (BitVec 8)) :
    ElfSegment64.read (s.bytes ++ rest) = s := by
  simp only [ElfSegment64.read, ElfSegment64.bytes, List.append_assoc, readU32_skip32,
    readU64_skip32, readU64_skip64, readU32_append, readU64_append]

theorem ElfSection64.read_bytes (s : ElfSection64) (rest : List (BitVec 8)) :
    ElfSection64.read (s.bytes ++ rest) = s := by
  simp only [ElfSection64.read, ElfSection64.bytes, List.append_assoc, readU32_skip32,
    readU32_skip64, readU64_skip32, readU64_skip64, readU32_append, readU64_append]

theorem ElfSymbol64.read_bytes (s : ElfSymbol64) (rest : List (BitVec 8)) :
    ElfSymbol64.read (s.bytes ++ rest) = s := by
  have hbytes : s.bytes ++ rest = toNeBytes s.name ++ (s.info :: s.other ::
      (toLeBytes16 s.ownerSectionIndex ++ (toLeBytes64 s.value ++ (toLeBytes64 s.size ++ rest)))) := by
    simp only [ElfSymbol64.bytes, List.append_assoc, List.cons_append, List.nil_append]
  have hsecond : ∀ i, readU64 (s.bytes ++ rest) (i + 8) =
      readU64 (toLeBytes64 s.value ++ (toLeBytes64 s.size ++ rest)) i := by
    intro i
    rfl
  have howner : readU16 (s.bytes ++ rest) 6 = s.ownerSectionIndex := by
    exact readU16_append _ (toLeBytes64 s.value ++ (toLeBytes64 s.size ++ rest))
  have hname : readU32 (s.bytes ++ rest) 0 = s.name := by
    exact readU32_append _ _
  rw [ElfSymbol64.read, hname, howner, hsecond 0, hsecond 8, readU64_skip64, readU64_append,
    readU64_append]
  rfl

/-! ### What is expected -/

section Reading

variable (file : List (BitVec 8))

/-- The section header number `i` of the table that the file header leads to. -/
def sectionAt (i : Nat) : ElfSection64 :=
  ElfSection64.read (file.drop
    ((ElfHeader64.read file).sectionHeaderTableStart.toNat + ElfSection64.structSize * i))

def segmentAt (i : Nat) : ElfSegment64 :=
  ElfSegment64.read (file.drop
    ((ElfHeader64.read file).programHeaderTableStart.toNat + ElfSegment64.structSize * i))

/-- The bytes that a section's header covers. -/
def sectionBytes (header : ElfSection64) : List (BitVec 8) :=
  (file.drop header.offset.toNat).take header.size.toNat

/-- The section with the names of the sections. -/
def sectionNamesTable : List (BitVec 8) :=
  sectionBytes file (sectionAt file (ElfHeader64.read file).sectionNamesSectionHeaderIndex.toNat)

/-- The header of `.symtab`. -/
def symtabHeader : ElfSection64 := sectionAt file 3

def symbolAt (i : Nat) : ElfSymbol64 :=
  ElfSymbol64.read ((sectionBytes file (symtabHeader file)).drop (ElfSymbol64.structSize * i))

/-- The section with the names of the symbols, to which `.symtab` is linked. -/
def symbolNamesTable : List (BitVec 8) :=
  sectionBytes file (sectionAt file (symtabHeader file).link.toNat)

end Reading

/-- A position of the file belongs to a section. -/
def InSection (header : ElfSection64) (q : Nat) : Prop :=
  header.offset.toNat ≤ q ∧ q < header.offset.toNat + header.size.toNat

/-- A name, and the zero byte that ends it, stands at a position of a table. -/
def NameIn (table : List (BitVec 8)) (index : Nat) (name : String) : Prop :=
  0 ∉ utf8Bytes name ∧ utf8Bytes name ++ [0] <+: table.drop index

/-- The atoms of which section a header is about. -/
def SectionHeaderType.mainSection : SectionHeaderType → Option BinarySection
  | .textSection => some .text
  | .readOnlyDataSection => some .readOnlyData
  | _ => none

/-- The bytes of the atoms of a section, in order. -/
def atomBytes (c : MainContents) (elf : RenderedElf) (target : BinarySection) : List (BitVec 8) :=
  ((c.atoms.zip elf.atoms).filter fun p => p.1.unit.containerSection = target).flatMap Prod.snd

/-- The header covers the bytes of the section's atoms, and of no other atom. -/
structure HoldsAtoms (c : MainContents) (elf : RenderedElf) (header : ElfSection64)
    (target : BinarySection) : Prop where
  bytes : sectionBytes elf.bytes header = atomBytes c elf target
  only : ∀ k atom q, c.atoms[k]? = some atom → elf.startOfAtom k ≤ q →
    q < elf.startOfAtom (k + 1) → (InSection header q ↔ atom.unit.containerSection = target)

structure SelfConsistent (virtualBase : BitVec 64) (c : MainContents) (elf : RenderedElf) :
    Prop where
  sectionCount : (ElfHeader64.read elf.bytes).sectionHeaderTableEntryCount.toNat =
    (sectionHeadersFor c).length
  sectionNames : ∀ i header, (sectionHeadersFor c)[i]? = some header →
    NameIn (sectionNamesTable elf.bytes) (sectionAt elf.bytes i).name.toNat header.name
  sectionAtoms : ∀ i header target, (sectionHeadersFor c)[i]? = some header →
    header.sectionHeaderType.mainSection = some target →
    HoldsAtoms c elf (sectionAt elf.bytes i) target
  disjoint : ∀ i j q, i < (sectionHeadersFor c).length → j < (sectionHeadersFor c).length →
    i ≠ j → InSection (sectionAt elf.bytes i) q → ¬InSection (sectionAt elf.bytes j) q
  symbolValues : ∀ i label k, c.labels[i]? = some label → c.atoms[k]? = some label.dataUnit →
    (symbolAt elf.bytes (i + 1)).value = virtualBase + BitVec.ofNat 64 (elf.startOfAtom k)
  symbolNames : ∀ i name, c.symbolNames[i]? = some name →
    NameIn (symbolNamesTable elf.bytes) (symbolAt elf.bytes (i + 1)).name.toNat name
  segment : (segmentAt elf.bytes 0).offset = 0 ∧ (segmentAt elf.bytes 0).vaddr = virtualBase ∧
    (segmentAt elf.bytes 0).fileSize.toNat = elf.bytes.length ∧
    (segmentAt elf.bytes 0).memSize.toNat = elf.bytes.length

/-- A table that begins with `first` and goes on with these names. -/
def tableBytes (first : List (BitVec 8)) (names : List String) : List (BitVec 8) :=
  first ++ names.flatMap fun name => utf8Bytes name ++ [0]

/-- The atoms of a section are next to each other. -/
def Together (c : MainContents) : Prop :=
  ∀ (k l m : Nat) (a b d : Atom), k < l → l < m → c.atoms[k]? = some a → c.atoms[l]? = some b →
    c.atoms[m]? = some d → a.unit.containerSection = d.unit.containerSection →
    b.unit.containerSection = a.unit.containerSection

/-- Where a name stands last, modulo `2 ^ 32`, it stands too. -/
def NamesFit (names : List String) : Prop :=
  ∀ i name, names[i]? = some name → name ∉ names.drop (i + 1) →
    NameIn (tableBytes [0] names) ((tableBytes [0] (names.take i)).length % 2 ^ 32) name

structure ElfOk (c : MainContents) : Prop where
  together : Together c
  names : NamesFit c.symbolNames

/-! ### String tables -/

/-- After the names `done` have been added. -/
structure TableInv (first : List (BitVec 8)) (done : List String) (table : StringTable) : Prop where
  rendered : table.renderedStrings = tableBytes first done
  noZero : ∀ name ∈ done, 0 ∉ utf8Bytes name
  lookup : ∀ name offset, table.lookup name = some offset → ∃ i, done[i]? = some name ∧
    name ∉ done.drop (i + 1) ∧ offset = (tableBytes first (done.take i)).length

variable {first : List (BitVec 8)} {name : String} {names : List String} {table : StringTable}

theorem TableInv.add {done : List String} {table table' : StringTable}
    (h : TableInv first done table) (hadd : table.add name = some table') :
    TableInv first (done ++ [name]) table' := by
  obtain ⟨nameBytes, hname, hadd⟩ := Option.bind_eq_some_iff.mp hadd
  obtain ⟨hzero, hname⟩ := Option.ite_none_left_eq_some.mp hname
  obtain rfl := Option.some.inj hname
  obtain rfl := Option.some.inj hadd
  refine ⟨?_, ?_, ?_⟩
  · rw [tableBytes, List.flatMap_append, ← List.append_assoc, h.rendered, tableBytes]
    simp
  · intro name' hmem
    rcases List.mem_append.mp hmem with hold | hnew
    · exact h.noZero name' hold
    · rw [List.mem_singleton.mp hnew]
      exact hzero
  · intro name' offset hlookup
    dsimp only at hlookup
    rcases eq_or_ne name' name with rfl | hne
    · -- the new entry is the last
      rw [Function.update_self] at hlookup
      refine ⟨done.length, by simp, by simp, ?_⟩
      rw [List.take_left, ← h.rendered]
      exact (Option.some.inj hlookup).symm
    · rw [Function.update_of_ne hne] at hlookup
      obtain ⟨i, hi, hlast, rfl⟩ := h.lookup name' offset hlookup
      have hlt := (List.getElem?_eq_some_iff.mp hi).1
      refine ⟨i, by rwa [List.getElem?_append_left hlt], ?_, ?_⟩
      · rw [List.drop_append_of_le_length hlt, List.mem_append, List.mem_singleton]
        exact not_or.mpr ⟨hlast, hne⟩
      · rw [List.take_append_of_le_length hlt.le]

theorem TableInv.run {first : List (BitVec 8)} : ∀ {names done : List String}
    {table table' : StringTable}, TableInv first done table →
    names.foldlM StringTable.add table = some table' → TableInv first (done ++ names) table' := by
  intro names
  induction names with
  | nil =>
    intro done table table' h hrun
    obtain rfl : table = table' := Option.some.inj hrun
    rwa [List.append_nil]
  | cons name names ih =>
    intro done table table' h hrun
    obtain ⟨u, hadd, hrest⟩ := Option.bind_eq_some_iff.mp hrun
    have := ih (h.add hadd) hrest
    rwa [List.append_assoc] at this

theorem table_spec (h : names.foldlM StringTable.add ⟨first, fun _ => none⟩ = some table) :
    TableInv first names table := by
  have hstart : TableInv first [] ⟨first, fun _ => none⟩ := by
    refine ⟨?_, fun _ h => absurd h List.not_mem_nil, fun _ _ h => by cases h⟩
    simp [tableBytes]
  simpa using hstart.run h

theorem TableInv.nameIn (h : TableInv first names table) {i : Nat} (hi : names[i]? = some name) :
    NameIn table.renderedStrings (tableBytes first (names.take i)).length name := by
  refine ⟨h.noZero name (List.mem_of_getElem? hi), ?_⟩
  obtain ⟨hlt, hget⟩ := List.getElem?_eq_some_iff.mp hi
  have hsplit : tableBytes first names = tableBytes first (names.take i) ++
      (utf8Bytes name ++ [0] ++ (names.drop (i + 1)).flatMap fun name => utf8Bytes name ++ [0]) := by
    have hnames : names = names.take i ++ name :: names.drop (i + 1) := by
      rw [← hget, ← List.drop_eq_getElem_cons hlt, List.take_append_drop]
    conv_lhs => rw [hnames]
    rw [tableBytes, tableBytes, List.flatMap_append, List.flatMap_cons]
    simp only [List.append_assoc]
  rw [h.rendered, hsplit, List.drop_left]
  exact List.prefix_append _ _

/-! ### The layout -/

/-- What `render_elf` has set up and rendered. -/
structure Laid (checks : Bool) (virtualBase : BitVec 64) (c : MainContents) (layout : FileLayout)
    (elf : RenderedElf) : Prop where
  base : layout.virtualBase = virtualBase
  main : layout.mainContents = c
  contents : layout.contents = [.elfHeader, .segmentHeader .textSegmentHeader] ++
    (sectionHeadersFor c).map .sectionHeader ++ [.sectionHeaderNames, .symbolTable, .stringTable]
  sectionNames : TableInv [] ((sectionHeadersFor c).map (·.name)) layout.sectionHeaderNames
  strings : TableInv [0] c.symbolNames layout.strings
  headers : List.Forall₂ (fun packable bytes => layout.renderPackable checks packable = some bytes)
    layout.contents elf.headers
  atoms : c.render = some elf.atoms
  fits : elf.bytes.length < 2 ^ 63

theorem laid_of_renders {checks : Bool} {virtualBase : BitVec 64} {c : MainContents}
    {elf : RenderedElf} (h : renderElf checks virtualBase c = some elf) :
    ∃ layout, Laid checks virtualBase c layout elf := by
  obtain ⟨layout, hlayout, h⟩ := Option.bind_eq_some_iff.mp h
  obtain ⟨headerNames, hnames, hlayout⟩ := Option.bind_eq_some_iff.mp hlayout
  obtain ⟨strings, hstrings, hlayout⟩ := Option.bind_eq_some_iff.mp hlayout
  obtain ⟨headers, hheaders, h⟩ := Option.bind_eq_some_iff.mp h
  obtain ⟨atoms, hatoms, h⟩ := Option.bind_eq_some_iff.mp h
  obtain ⟨hfits, h⟩ := Option.ite_none_right_eq_some.mp h
  obtain rfl := Option.some.inj h
  refine ⟨layout, ?_⟩
  obtain rfl := Option.some.inj hlayout
  exact ⟨rfl, rfl, rfl, table_spec hnames, table_spec hstrings, forall₂_of_mapM hheaders, hatoms,
    hfits⟩

section Layout

variable {checks : Bool} {virtualBase : BitVec 64} {c : MainContents} {layout : FileLayout}
  {elf : RenderedElf}

theorem symbols_length {symbols : List ElfSymbol64} (h : layout.symbols checks = some symbols) :
    symbols.length =
      1 + (layout.mainContents.labels.length + layout.mainContents.equExpressions.length) := by
  obtain ⟨labels, hlabels, h⟩ := Option.bind_eq_some_iff.mp h
  obtain ⟨equs, hequs, h⟩ := Option.bind_eq_some_iff.mp h
  obtain rfl := Option.some.inj h
  rw [List.length_append, List.length_cons, (forall₂_of_mapM hlabels).length_eq,
    (forall₂_of_mapM hequs).length_eq]
  omega

theorem length_toLeBytes16 (value : BitVec 16) : (toLeBytes16 value).length = 2 := rfl

theorem length_toNeBytes (value : BitVec 32) : (toNeBytes value).length = 4 := rfl

theorem length_toLeBytes64 (value : BitVec 64) : (toLeBytes64 value).length = 8 := rfl

theorem ElfHeader64.length_bytes (header : ElfHeader64) :
    header.bytes.length = ElfHeader64.structSize := by
  rfl

theorem ElfSegment64.length_bytes (segment : ElfSegment64) :
    segment.bytes.length = ElfSegment64.structSize := by
  rfl

theorem ElfSection64.length_bytes (sec : ElfSection64) :
    sec.bytes.length = ElfSection64.structSize := by
  rfl

theorem ElfSymbol64.length_bytes (symbol : ElfSymbol64) :
    symbol.bytes.length = ElfSymbol64.structSize := by
  rfl

theorem flatten_symbols_length (symbols : List ElfSymbol64) :
    (symbols.flatMap ElfSymbol64.bytes).length = symbols.length * ElfSymbol64.structSize := by
  induction symbols with
  | nil => rfl
  | cons symbol symbols ih =>
    rw [List.flatMap_cons, List.length_append, ih, ElfSymbol64.length_bytes, List.length_cons,
      Nat.succ_mul, Nat.add_comm]

variable {packable : MagicPackable} {k i offset q size j n : Nat} {header : MagicElfSection64}
  {s : ElfSection64} {target : BinarySection} {label : Label} {name : String} {names : List String}

/-- A part of the file is as long as it says. -/
theorem renderPackable_length {bytes : List (BitVec 8)}
    (h : layout.renderPackable checks packable = some bytes) :
    bytes.length = layout.packableLen packable := by
  cases packable with
  | elfHeader =>
    obtain ⟨_, -, rfl⟩ := Option.map_eq_some_iff.mp h
    exact ElfHeader64.length_bytes _
  | segmentHeader header =>
    obtain ⟨_, -, rfl⟩ := Option.map_eq_some_iff.mp h
    exact ElfSegment64.length_bytes _
  | sectionHeader header =>
    obtain ⟨_, -, rfl⟩ := Option.map_eq_some_iff.mp h
    exact ElfSection64.length_bytes _
  | sectionHeaderNames =>
    obtain rfl := Option.some.inj h
    rfl
  | symbolTable =>
    obtain ⟨symbols, hsymbols, rfl⟩ := Option.map_eq_some_iff.mp h
    rw [flatten_symbols_length, symbols_length hsymbols]
    rfl
  | stringTable =>
    obtain rfl := Option.some.inj h
    rfl

/-- The lengths of the parts before the part number `k`. -/
def headerStart (layout : FileLayout) (k : Nat) : Nat :=
  ((layout.contents.take k).map layout.packableLen).sum

theorem start_eq_sum {ι : Type} {len : ι → Nat} : ∀ {items : List ι}
    {pieces : List (List (BitVec 8))},
    List.Forall₂ (fun item piece => piece.length = len item) items pieces →
    ∀ k, start pieces k = ((items.take k).map len).sum := by
  intro items
  induction items with
  | nil =>
    intro pieces h k
    cases h
    simp [start]
  | cons item items ih =>
    intro pieces h k
    cases h with
    | cons hlen h =>
      cases k with
      | zero => rfl
      | succ k =>
        rw [start_cons_succ, ih h, hlen]
        rfl

section

variable (h : Laid checks virtualBase c layout elf)

include h

theorem Laid.start_headers (k : Nat) : start elf.headers k = headerStart layout k :=
  start_eq_sum (h.headers.imp fun _ _ hrender => renderPackable_length hrender) k

theorem Laid.totalHeaderLen : layout.totalHeaderLen = elf.headers.flatten.length := by
  have hlast := h.start_headers layout.contents.length
  rw [headerStart, List.take_length, h.headers.length_eq, start_length] at hlast
  exact hlast.symm

theorem Laid.drop_header (hk : layout.contents[k]? = some packable) :
    ∃ bytes rest, layout.renderPackable checks packable = some bytes ∧
      elf.bytes.drop (headerStart layout k) = bytes ++ rest := by
  obtain ⟨hlt, hget⟩ := List.getElem?_eq_some_iff.mp hk
  have hlt' : k < elf.headers.length := h.headers.length_eq ▸ hlt
  have hrender := (List.forall₂_iff_get.mp h.headers).2 k hlt hlt'
  rw [List.get_eq_getElem, hget] at hrender
  have hpiece : (elf.headers ++ elf.atoms)[k]? = some elf.headers[k] := by
    rw [List.getElem?_append_left hlt', List.getElem?_eq_getElem hlt']
  have hdrop := drop_start hpiece []
  rw [List.flatten_append, List.nil_append, List.length_nil, Nat.zero_add] at hdrop
  refine ⟨elf.headers[k], (List.drop (k + 1) (elf.headers ++ elf.atoms)).flatten, hrender, ?_⟩
  rw [← h.start_headers, ← hdrop, start, start, List.take_append_of_le_length hlt'.le]
  rfl

end

/-- Five section headers, or six if there is read-only data. -/
theorem sectionHeadersFor_cases (c : MainContents) :
    ((∀ atom ∈ c.atoms, atom.unit.containerSection = .text) ∧ sectionHeadersFor c =
      [.nullSectionHeader, .textSectionHeader, .sectionHeaderNamesSectionHeader,
        .symbolTableSectionHeader, .stringTableSectionHeader]) ∨
    ((∃ atom ∈ c.atoms, atom.unit.containerSection = .readOnlyData) ∧ sectionHeadersFor c =
      [.nullSectionHeader, .textSectionHeader, .sectionHeaderNamesSectionHeader,
        .symbolTableSectionHeader, .stringTableSectionHeader, .readOnlyDataSectionHeader]) := by
  rw [sectionHeadersFor]
  split
  · rename_i hany
    obtain ⟨atom, hmem, hsection⟩ := List.any_eq_true.mp hany
    exact .inr ⟨⟨atom, hmem, of_decide_eq_true hsection⟩, rfl⟩
  · rename_i hany
    refine .inl ⟨fun atom hmem => ?_, rfl⟩
    cases hsection : atom.unit.containerSection with
    | text => rfl
    | readOnlyData => exact absurd (List.any_eq_true.mpr ⟨atom, hmem, decide_eq_true hsection⟩) hany

/-- Where the parts before the atoms are; there are `n` sections. -/
structure Placed (layout : FileLayout) (n : Nat) : Prop where
  segmentHeaders : layout.startOfPackable (fun p => p.structType = .elfSegmentHeader)
    layout.contents = some 64
  sectionHeaders : layout.startOfPackable (fun p => p.structType = .elfSectionHeader)
    layout.contents = some 120
  names : layout.staticStartOf .sectionHeadersStringsTable = some (headerStart layout (n + 2))
  symbols : layout.staticStartOf .symbolTableSection = some (headerStart layout (n + 3))
  strings : layout.staticStartOf .stringsTable = some (headerStart layout (n + 4))
  namesLen : layout.targetLen .sectionHeadersStringsTable =
    some (layout.packableLen .sectionHeaderNames)
  symbolsLen : layout.targetLen .symbolTableSection = some (layout.packableLen .symbolTable)
  stringsLen : layout.targetLen .stringsTable = some (layout.packableLen .stringTable)
  header : ∀ i, i ≤ n → headerStart layout (i + 2) = 120 + 64 * i
  symbolsStart : headerStart layout (n + 3) =
    headerStart layout (n + 2) + layout.packableLen .sectionHeaderNames
  stringsStart : headerStart layout (n + 4) =
    headerStart layout (n + 3) + layout.packableLen .symbolTable
  total : layout.totalHeaderLen = headerStart layout (n + 4) + layout.packableLen .stringTable
  parts : layout.contents[0]? = some .elfHeader ∧
    layout.contents[1]? = some (.segmentHeader .textSegmentHeader) ∧
    layout.contents[n + 2]? = some .sectionHeaderNames ∧
    layout.contents[n + 3]? = some .symbolTable ∧ layout.contents[n + 4]? = some .stringTable
  count : layout.sectionHeaders.length = n ∧ layout.segmentHeaders.length = 1
  indices : layout.sectionHeaderIndex .stringTableSection = some 4 ∧
    layout.sectionHeaderIndex .sectionHeaderNamesSectionHeader = some 2

theorem placed_of_contents (hcontents : layout.contents =
    [.elfHeader, .segmentHeader .textSegmentHeader] ++
      (sectionHeadersFor c).map .sectionHeader ++
      [.sectionHeaderNames, .symbolTable, .stringTable]) :
    Placed layout (sectionHeadersFor c).length := by
  obtain ⟨base, contents, main, headerNames, strings⟩ := layout
  rcases sectionHeadersFor_cases c with ⟨-, hheaders⟩ | ⟨-, hheaders⟩
  · rw [hheaders] at hcontents ⊢
    obtain rfl : contents = _ := hcontents
    refine ⟨rfl, rfl, rfl, rfl, rfl, rfl, rfl, rfl, ?_, ?_, ?_, ?_, ⟨rfl, rfl, rfl, rfl, rfl⟩,
      ⟨rfl, rfl⟩, ⟨rfl, rfl⟩⟩
    · intro i hi
      have hi' : i ≤ 5 := hi
      interval_cases i <;> simp [headerStart, FileLayout.packableLen, ElfHeader64.structSize,
        ElfSegment64.structSize, ElfSection64.structSize]
    · simp [headerStart]
      omega
    · simp [headerStart]
      omega
    · simp [headerStart, FileLayout.totalHeaderLen]
      omega
  · rw [hheaders] at hcontents ⊢
    obtain rfl : contents = _ := hcontents
    refine ⟨rfl, rfl, rfl, rfl, rfl, rfl, rfl, rfl, ?_, ?_, ?_, ?_, ⟨rfl, rfl, rfl, rfl, rfl⟩,
      ⟨rfl, rfl⟩, ⟨rfl, rfl⟩⟩
    · intro i hi
      have hi' : i ≤ 6 := hi
      interval_cases i <;> simp [headerStart, FileLayout.packableLen, ElfHeader64.structSize,
        ElfSegment64.structSize, ElfSection64.structSize]
    · simp [headerStart]
      omega
    · simp [headerStart]
      omega
    · simp [headerStart, FileLayout.totalHeaderLen]
      omega

theorem Laid.placed (h : Laid checks virtualBase c layout elf) :
    Placed layout (sectionHeadersFor c).length :=
  placed_of_contents h.contents

/-! ### The headers, read back -/

theorem count_le (c : MainContents) :
    5 ≤ (sectionHeadersFor c).length ∧ (sectionHeadersFor c).length ≤ 6 := by
  rcases sectionHeadersFor_cases c with ⟨-, hheaders⟩ | ⟨-, hheaders⟩ <;> rw [hheaders] <;> decide

section

variable (h : Laid checks virtualBase c layout elf)

include h

theorem Laid.readHeader : layout.elfHeader checks = some (ElfHeader64.read elf.bytes) := by
  obtain ⟨bytes, rest, hrender, hdrop⟩ := h.drop_header h.placed.parts.1
  obtain ⟨header, hheader, rfl⟩ := Option.map_eq_some_iff.mp hrender
  have hbytes : elf.bytes = header.bytes ++ rest := hdrop
  rw [hbytes, ElfHeader64.read_bytes, hheader]

theorem Laid.fileHeader :
    (ElfHeader64.read elf.bytes).programHeaderTableStart.toNat = 64 ∧
    (ElfHeader64.read elf.bytes).sectionHeaderTableStart.toNat = 120 ∧
    (ElfHeader64.read elf.bytes).sectionHeaderTableEntryCount.toNat = (sectionHeadersFor c).length ∧
    (ElfHeader64.read elf.bytes).sectionNamesSectionHeaderIndex.toNat = 2 := by
  have hp := h.placed
  have hheader := h.readHeader
  obtain ⟨entryPoint, -, hheader⟩ := Option.bind_eq_some_iff.mp hheader
  obtain ⟨sectionCount, hcount, hheader⟩ := Option.bind_eq_some_iff.mp hheader
  obtain ⟨sectionStart, hsections, hheader⟩ := Option.bind_eq_some_iff.mp hheader
  obtain ⟨segmentStart, hsegments, hheader⟩ := Option.bind_eq_some_iff.mp hheader
  obtain ⟨segmentCount, -, hheader⟩ := Option.bind_eq_some_iff.mp hheader
  obtain ⟨namesIndex, hnames, hheader⟩ := Option.bind_eq_some_iff.mp hheader
  rw [FileLayout.getRebasedValue, hp.sectionHeaders] at hsections
  rw [FileLayout.getRebasedValue, hp.segmentHeaders] at hsegments
  rw [FileLayout.getRebasedValue, hp.indices.2] at hnames
  rw [FileLayout.getRebasedValue, hp.count.1] at hcount
  cases hsections
  cases hsegments
  cases hnames
  cases hcount
  rw [← Option.some.inj hheader]
  refine ⟨rfl, rfl, ?_, rfl⟩
  obtain ⟨hlow, hhigh⟩ := count_le c
  show ((BitVec.ofNat 64 (sectionHeadersFor c).length).setWidth 16).toNat = _
  rw [BitVec.toNat_setWidth, BitVec.toNat_ofNat]
  omega

theorem Laid.readSection (hi : (sectionHeadersFor c)[i]? = some header) :
    layout.elfSection checks header = some (sectionAt elf.bytes i) := by
  have hlt := (List.getElem?_eq_some_iff.mp hi).1
  have hpart : layout.contents[i + 2]? = some (.sectionHeader header) := by
    rw [h.contents, List.append_assoc]
    show ((sectionHeadersFor c).map MagicPackable.sectionHeader ++ _)[i]? = _
    rw [List.getElem?_append_left (by rwa [List.length_map]), List.getElem?_map, hi]
    rfl
  obtain ⟨bytes, rest, hrender, hdrop⟩ := h.drop_header hpart
  obtain ⟨s, hs, rfl⟩ := Option.map_eq_some_iff.mp hrender
  rw [sectionAt, h.fileHeader.2.1, ElfSection64.structSize, ← h.placed.header i hlt.le, hdrop,
    ElfSection64.read_bytes, hs]

theorem Laid.readSegment :
    layout.segment checks .textSegmentHeader = some (segmentAt elf.bytes 0) := by
  obtain ⟨bytes, rest, hrender, hdrop⟩ := h.drop_header h.placed.parts.2.1
  obtain ⟨s, hs, rfl⟩ := Option.map_eq_some_iff.mp hrender
  have hstart : headerStart layout 1 = 64 := by
    have hfirst := h.contents
    rw [headerStart, hfirst]
    rfl
  rw [segmentAt, h.fileHeader.1, Nat.mul_zero, Nat.add_zero, ← hstart, hdrop,
    ElfSegment64.read_bytes, hs]

end

theorem elfSection_fields (h : layout.elfSection checks header = some s) :
    (∃ name, layout.sectionHeaderNames.lookup header.name = some name ∧
      s.name = BitVec.ofNat 32 name) ∧
    layout.getRebasedValue checks header.offset = some s.offset ∧
    layout.getRebasedValue checks header.size = some s.size ∧
    ∃ link, layout.getRebasedValue checks header.link = some link ∧ s.link = link.setWidth 32 := by
  obtain ⟨name, hname, h⟩ := Option.bind_eq_some_iff.mp h
  obtain ⟨addr, -, h⟩ := Option.bind_eq_some_iff.mp h
  obtain ⟨offset, hoffset, h⟩ := Option.bind_eq_some_iff.mp h
  obtain ⟨size, hsize, h⟩ := Option.bind_eq_some_iff.mp h
  obtain ⟨link, hlink, h⟩ := Option.bind_eq_some_iff.mp h
  obtain ⟨info, -, h⟩ := Option.bind_eq_some_iff.mp h
  rw [← Option.some.inj h]
  exact ⟨⟨name, hname, rfl⟩, hoffset, hsize, link, hlink, rfl⟩

/-- Where a header says that its section is. -/
structure Located (header : ElfSection64) (offset size : Nat) : Prop where
  offset : header.offset.toNat = offset
  size : header.size.toNat = size

theorem Located.inSection {header : ElfSection64} (h : Located header offset size) :
    InSection header q ↔ offset ≤ q ∧ q < offset + size := by
  rw [InSection, h.offset, h.size]

theorem located_of {target : RebaseTarget} (h : layout.elfSection checks header = some s)
    (hoffset : header.offset = .staticStartOf target) (hsize : header.size = .sizeOf target)
    (hstart : layout.staticStartOf target = some offset)
    (hlen : layout.targetLen target = some size) (hoffset' : offset < 2 ^ 63)
    (hsize' : size < 2 ^ 63) : Located s offset size := by
  obtain ⟨-, hs, hs', -⟩ := elfSection_fields h
  rw [hoffset, FileLayout.getRebasedValue, hstart] at hs
  rw [hsize, FileLayout.getRebasedValue, hlen] at hs'
  refine ⟨?_, ?_⟩
  · rw [← Option.some.inj hs, BitVec.toNat_ofNat]
    exact Nat.mod_eq_of_lt (by omega)
  · rw [← Option.some.inj hs', BitVec.toNat_ofNat]
    exact Nat.mod_eq_of_lt (by omega)

section

variable (h : Laid checks virtualBase c layout elf)

include h

/-- A section that is one of the parts before the atoms. -/
theorem Laid.readTable (hk : layout.contents[k]? = some packable) {header : ElfSection64}
    (hlocated : Located header (headerStart layout k) (layout.packableLen packable)) :
    layout.renderPackable checks packable = some (sectionBytes elf.bytes header) := by
  obtain ⟨bytes, rest, hrender, hdrop⟩ := h.drop_header hk
  rw [Linker.sectionBytes, hlocated.offset, hlocated.size, hdrop, ← renderPackable_length hrender,
    List.take_left, hrender]

theorem Laid.tables :
    Located (sectionAt elf.bytes 2) (headerStart layout ((sectionHeadersFor c).length + 2))
      (layout.packableLen .sectionHeaderNames) ∧
    Located (sectionAt elf.bytes 3) (headerStart layout ((sectionHeadersFor c).length + 3))
      (layout.packableLen .symbolTable) ∧
    Located (sectionAt elf.bytes 4) (headerStart layout ((sectionHeadersFor c).length + 4))
      (layout.packableLen .stringTable) := by
  have hp := h.placed
  have htotal := hp.total
  have hsymbols := hp.symbolsStart
  have hstrings := hp.stringsStart
  rw [h.totalHeaderLen] at htotal
  have hfits := h.fits
  rw [RenderedElf.bytes, List.length_append] at hfits
  have hheader : (sectionHeadersFor c)[2]? = some .sectionHeaderNamesSectionHeader ∧
      (sectionHeadersFor c)[3]? = some .symbolTableSectionHeader ∧
      (sectionHeadersFor c)[4]? = some .stringTableSectionHeader := by
    rcases sectionHeadersFor_cases c with ⟨-, hheaders⟩ | ⟨-, hheaders⟩ <;> rw [hheaders] <;>
      exact ⟨rfl, rfl, rfl⟩
  refine ⟨?_, ?_, ?_⟩
  · exact located_of (h.readSection hheader.1) rfl rfl hp.names hp.namesLen (by omega) (by omega)
  · exact located_of (h.readSection hheader.2.1) rfl rfl hp.symbols hp.symbolsLen (by omega)
      (by omega)
  · exact located_of (h.readSection hheader.2.2) rfl rfl hp.strings hp.stringsLen (by omega)
      (by omega)

theorem Laid.readSectionNames :
    sectionNamesTable elf.bytes = layout.sectionHeaderNames.renderedStrings := by
  have hbytes := h.readTable h.placed.parts.2.2.1 h.tables.1
  rw [Linker.sectionNamesTable, h.fileHeader.2.2.2]
  exact (Option.some.inj hbytes).symm

theorem Laid.readSymbolNames : symbolNamesTable elf.bytes = layout.strings.renderedStrings := by
  have hbytes := h.readTable h.placed.parts.2.2.2.2 h.tables.2.2
  have hheader : (sectionHeadersFor c)[3]? = some .symbolTableSectionHeader := by
    rcases sectionHeadersFor_cases c with ⟨-, hheaders⟩ | ⟨-, hheaders⟩ <;> rw [hheaders] <;> rfl
  obtain ⟨-, -, -, link, hlink, heq⟩ := elfSection_fields (h.readSection hheader)
  have hlink' : link = 4 := by
    have hindex : layout.getRebasedValue checks (.sectionHeaderIndex .stringTableSection) =
        some 4 := by
      rw [FileLayout.getRebasedValue, h.placed.indices.1]
      rfl
    exact Option.some.inj (hlink.symm.trans hindex)
  rw [Linker.symbolNamesTable, symtabHeader, heq, hlink']
  exact (Option.some.inj hbytes).symm

theorem Laid.readSymbols :
    ∃ symbols, layout.symbols checks = some symbols ∧
      ∀ i symbol, symbols[i]? = some symbol → symbolAt elf.bytes i = symbol := by
  have hbytes := h.readTable h.placed.parts.2.2.2.1 h.tables.2.1
  obtain ⟨symbols, hsymbols, hflat⟩ := Option.map_eq_some_iff.mp hbytes
  refine ⟨symbols, hsymbols, fun i symbol hi => ?_⟩
  have hlen : ∀ k, k ≤ symbols.length →
      start (symbols.map ElfSymbol64.bytes) k = ElfSymbol64.structSize * k := by
    intro k hk
    rw [start, ← List.map_take, ← List.flatMap_def, flatten_symbols_length, List.length_take,
      Nat.min_eq_left hk, Nat.mul_comm]
  have hpiece : (symbols.map ElfSymbol64.bytes)[i]? = some symbol.bytes := by
    rw [List.getElem?_map, hi]
    rfl
  have hdrop := drop_start hpiece []
  rw [List.nil_append, List.length_nil, Nat.zero_add, ← List.flatMap_def,
    hlen i (List.getElem?_eq_some_iff.mp hi).1.le] at hdrop
  rw [Linker.symbolAt, symtabHeader, ← hflat, hdrop, ElfSymbol64.read_bytes]

end

/-! ### The atoms of a section -/

theorem offsetOf_some {found : Atom → Bool} : ∀ {atoms : List Atom}
    {pieces : List (List (BitVec 8))} {offset : Nat},
    List.Forall₂ (fun atom piece => atom.unit.len = some piece.length) atoms pieces →
    MainContents.offsetOf found atoms = some offset →
    ∃ (i : Nat) (atom : Atom), atoms[i]? = some atom ∧ found atom = true ∧
      offset = start pieces i ∧ ∀ (j : Nat) (a : Atom), j < i → atoms[j]? = some a →
        found a = false := by
  intro atoms
  induction atoms with
  | nil => exact fun _ h => by cases h
  | cons first atoms ih =>
    intro pieces offset hlens h
    cases hlens with
    | cons hlen hlens =>
      rw [MainContents.offsetOf] at h
      split at h
      · rename_i hfound
        refine ⟨0, first, rfl, hfound, ?_, fun j a hj => absurd hj (Nat.not_lt_zero j)⟩
        exact (Option.some.inj h).symm
      · rename_i hfound
        obtain ⟨len, hlen', h⟩ := Option.bind_eq_some_iff.mp h
        obtain ⟨rest, hrest, h⟩ := Option.bind_eq_some_iff.mp h
        obtain rfl := Option.some.inj h
        obtain ⟨i, atom, hi, hatom, rfl, hbefore⟩ := ih hlens hrest
        refine ⟨i + 1, atom, by simpa using hi, hatom, ?_, fun j a hj ha => ?_⟩
        · rw [start_cons_succ]
          congr 1
          exact Option.some.inj (hlen'.symm.trans hlen)
        · cases j with
          | zero =>
            obtain rfl : first = a := by simpa using ha
            exact Bool.eq_false_iff.mpr hfound
          | succ j => exact hbefore j a (Nat.lt_of_succ_lt_succ hj) (by simpa using ha)

theorem sectionLen_eq (target : BinarySection) : ∀ {atoms : List Atom}
    {pieces : List (List (BitVec 8))},
    List.Forall₂ (fun atom piece => atom.unit.len = some piece.length) atoms pieces →
    ∃ lens, (atoms.filter fun atom => atom.unit.containerSection = target).mapM (·.unit.len) =
        some lens ∧ lens.sum = (((atoms.zip pieces).filter fun p =>
          p.1.unit.containerSection = target).flatMap Prod.snd).length := by
  intro atoms
  induction atoms with
  | nil => exact fun _ => ⟨[], rfl, rfl⟩
  | cons atom atoms ih =>
    intro pieces h
    cases h with
    | cons hlen h =>
      rename_i piece pieces
      obtain ⟨lens, hlens, hsum⟩ := ih h
      rw [List.zip_cons_cons, List.filter_cons, List.filter_cons]
      split
      · refine ⟨piece.length :: lens, ?_, ?_⟩
        · rw [List.mapM_cons, hlen, hlens]
          rfl
        · rw [List.flatMap_cons, List.length_append, List.sum_cons, hsum]
      · exact ⟨lens, hlens, hsum⟩

theorem Laid.lens (h : Laid checks virtualBase c layout elf) :
    List.Forall₂ (fun atom piece => atom.unit.len = some piece.length) c.atoms elf.atoms :=
  (render_forall₂ h.atoms).imp fun _ _ h => h.2

theorem Laid.sectionLen (h : Laid checks virtualBase c layout elf) (target : BinarySection) :
    c.sectionLen target = some (atomBytes c elf target).length := by
  obtain ⟨lens, hlens, hsum⟩ := sectionLen_eq target h.lens
  rw [MainContents.sectionLen, hlens]
  exact congrArg some hsum

/-- Every byte of an atom is in one of the two sections. -/
theorem atomBytes_lengths : ∀ {atoms : List Atom} {pieces : List (List (BitVec 8))},
    atoms.length = pieces.length →
    (((atoms.zip pieces).filter fun p => p.1.unit.containerSection = .text).flatMap
      Prod.snd).length +
    (((atoms.zip pieces).filter fun p => p.1.unit.containerSection = .readOnlyData).flatMap
      Prod.snd).length = pieces.flatten.length := by
  intro atoms
  induction atoms with
  | nil =>
    intro pieces h
    obtain rfl := List.length_eq_zero_iff.mp h.symm
    rfl
  | cons atom atoms ih =>
    intro pieces h
    cases pieces with
    | nil => cases h
    | cons piece pieces =>
      have hrest := ih (Nat.succ.inj h)
      rw [List.zip_cons_cons, List.filter_cons, List.filter_cons, List.flatten_cons,
        List.length_append]
      cases hsection : atom.unit.containerSection with
      | text =>
        rw [if_pos (decide_eq_true rfl), if_neg (by decide), List.flatMap_cons, List.length_append]
        dsimp only
        omega
      | readOnlyData =>
        rw [if_neg (by decide), if_pos (decide_eq_true rfl), List.flatMap_cons, List.length_append]
        dsimp only
        omega

/-- The header of a section with atoms: the first atom's offset, and the summed lengths. -/
theorem Laid.mainSection (h : Laid checks virtualBase c layout elf)
    (hi : (sectionHeadersFor c)[i]? = some header)
    (htarget : header.sectionHeaderType.mainSection = some target) :
    ∃ k atom, c.atoms[k]? = some atom ∧ atom.unit.containerSection = target ∧
      (∀ (j : Nat) (a : Atom), j < k → c.atoms[j]? = some a → a.unit.containerSection ≠ target) ∧
      Located (sectionAt elf.bytes i) (elf.startOfAtom k) (atomBytes c elf target).length := by
  have hsection := h.readSection hi
  have hlens := h.sectionLen target
  have hsum : (atomBytes c elf .text).length + (atomBytes c elf .readOnlyData).length =
      elf.atoms.flatten.length := atomBytes_lengths h.lens.length_eq
  have hfits := h.fits
  rw [RenderedElf.bytes, List.length_append] at hfits
  -- the walk to the first atom has to end
  have hwalk : ∀ {offset}, c.offsetOfSectionStart target = some offset →
      ∃ k atom, c.atoms[k]? = some atom ∧ atom.unit.containerSection = target ∧
        (∀ (j : Nat) (a : Atom), j < k → c.atoms[j]? = some a →
          a.unit.containerSection ≠ target) ∧
        layout.totalHeaderLen + offset = elf.startOfAtom k ∧ elf.startOfAtom k < 2 ^ 63 := by
    intro offset hoffset
    obtain ⟨k, atom, hk, hfound, rfl, hbefore⟩ := offsetOf_some h.lens hoffset
    refine ⟨k, atom, hk, of_decide_eq_true hfound, fun j a hj ha => ?_, ?_, ?_⟩
    · exact of_decide_eq_false (hbefore j a hj ha)
    · rw [h.totalHeaderLen]
      rfl
    · have hle : start elf.atoms k ≤ elf.atoms.flatten.length := by
        rw [← start_length]
        exact start_mono _ (h.lens.length_eq ▸ (List.getElem?_eq_some_iff.mp hk).1.le)
      show elf.headers.flatten.length + start elf.atoms k < 2 ^ 63
      omega
  have hmem := List.mem_of_getElem? hi
  have hkind : (header = .textSectionHeader ∧ target = .text) ∨
      (header = .readOnlyDataSectionHeader ∧ target = .readOnlyData) := by
    rcases sectionHeadersFor_cases c with ⟨-, hheaders⟩ | ⟨-, hheaders⟩ <;> rw [hheaders] at hmem <;>
      simp only [List.mem_cons, List.not_mem_nil, or_false] at hmem <;>
      rcases hmem with rfl | rfl | rfl | rfl | rfl | rfl <;> cases htarget <;> simp
  obtain ⟨-, hoffset, -, -⟩ := elfSection_fields hsection
  have hsize : (atomBytes c elf target).length < 2 ^ 63 := by
    cases target <;> omega
  rcases hkind with ⟨rfl, rfl⟩ | ⟨rfl, rfl⟩
  · obtain ⟨first, hfirst, -⟩ := Option.map_eq_some_iff.mp hoffset
    obtain ⟨offset, hoffset, heq⟩ := Option.map_eq_some_iff.mp hfirst
    rw [h.main] at hoffset
    obtain ⟨k, atom, hk, hatom, hbefore, hstart, hlt⟩ := hwalk hoffset
    refine ⟨k, atom, hk, hatom, hbefore, ?_⟩
    rw [← heq, hstart] at hfirst
    refine located_of hsection rfl rfl hfirst ?_ hlt hsize
    rw [FileLayout.targetLen, h.main]
    exact hlens
  · obtain ⟨first, hfirst, -⟩ := Option.map_eq_some_iff.mp hoffset
    obtain ⟨offset, hoffset, heq⟩ := Option.map_eq_some_iff.mp hfirst
    rw [h.main] at hoffset
    obtain ⟨k, atom, hk, hatom, hbefore, hstart, hlt⟩ := hwalk hoffset
    refine ⟨k, atom, hk, hatom, hbefore, ?_⟩
    rw [← heq, hstart] at hfirst
    refine located_of hsection rfl rfl hfirst ?_ hlt hsize
    rw [FileLayout.targetLen, h.main]
    exact hlens

theorem exists_header {atom : Atom} (hatom : atom ∈ c.atoms) :
    ∃ (i : Nat) (header : MagicElfSection64), (sectionHeadersFor c)[i]? = some header ∧
      header.sectionHeaderType.mainSection = some atom.unit.containerSection := by
  rcases sectionHeadersFor_cases c with ⟨hall, hheaders⟩ | ⟨-, hheaders⟩
  · refine ⟨1, .textSectionHeader, by rfl, ?_⟩
    rw [hall atom hatom]
    rfl
  · cases hsection : atom.unit.containerSection with
    | text => exact ⟨1, .textSectionHeader, by rfl, rfl⟩
    | readOnlyData => exact ⟨5, .readOnlyDataSectionHeader, by rw [hheaders]; rfl, rfl⟩

/-- Where a section covers its atoms and no other, they are next to each other: between two of its
atoms there is room for no other. -/
theorem Laid.together (h : Laid checks virtualBase c layout elf)
    (hne : ∀ piece ∈ elf.atoms, piece ≠ [])
    (hatoms : ∀ i header target, (sectionHeadersFor c)[i]? = some header →
      header.sectionHeaderType.mainSection = some target →
      HoldsAtoms c elf (sectionAt elf.bytes i) target) : Together c := by
  intro k l m a b d hkl hlm hk hl hm hsame
  obtain ⟨i, header, hi, hmain⟩ := exists_header (List.mem_of_getElem? hk)
  have hholds := hatoms i header _ hi hmain
  obtain ⟨first, -, -, -, hbefore, hlocated⟩ := h.mainSection hi hmain
  have hpieces := h.lens.length_eq
  have hlt : ∀ {j : Nat} {atom : Atom}, c.atoms[j]? = some atom → j < elf.atoms.length :=
    fun hj => hpieces ▸ (List.getElem?_eq_some_iff.mp hj).1
  have hmono : ∀ {x y : Nat}, x ≤ y → elf.startOfAtom x ≤ elf.startOfAtom y := fun hle =>
    Nat.add_le_add_left (start_mono elf.atoms hle) _
  have hstrict : ∀ {x y : Nat}, x < y → y ≤ elf.atoms.length →
      elf.startOfAtom x < elf.startOfAtom y := fun hxy hy =>
    Nat.add_lt_add_left (start_lt_start hne hxy hy) _
  have hfirst : first ≤ k := by
    refine Nat.le_of_not_lt fun hk' => ?_
    exact hbefore k a hk' hk rfl
  have hend := (hholds.only m d (elf.startOfAtom m) hm le_rfl
    (hstrict (Nat.lt_succ_self m) (hlt hm))).mpr hsame.symm
  refine (hholds.only l b (elf.startOfAtom l) hl le_rfl
    (hstrict (Nat.lt_succ_self l) (hlt hl))).mp ?_
  rw [hlocated.inSection] at hend ⊢
  exact ⟨hmono (hfirst.trans hkl.le), (hmono hlm.le).trans_lt hend.2⟩


/-- The atoms of a section are those from `i` on and before `j`. -/
structure Block (c : MainContents) (elf : RenderedElf) (target : BinarySection) (i j : Nat) :
    Prop where
  le : i ≤ j
  bound : j ≤ c.atoms.length
  mem : ∀ (k : Nat) (atom : Atom), c.atoms[k]? = some atom →
    (atom.unit.containerSection = target ↔ i ≤ k ∧ k < j)
  bytes : atomBytes c elf target = ((elf.atoms.drop i).take (j - i)).flatten

theorem exists_atomBlock (hlen : c.atoms.length = elf.atoms.length) (htogether : Together c)
    (target : BinarySection) : ∃ i j, Block c elf target i j := by
  have hzip : ∀ (k : Nat) (p : Atom × List (BitVec 8)), (c.atoms.zip elf.atoms)[k]? = some p →
      c.atoms[k]? = some p.1 := by
    intro k p hk
    rw [List.getElem?_zip_eq_some] at hk
    exact hk.1
  obtain ⟨before, block, after, hsplit, hbefore, hblock, hafter⟩ := exists_block
    (fun p => p.1.unit.containerSection = target) (c.atoms.zip elf.atoms)
    fun k l m a b d hkl hlm ha hb hd hpa hpd => by
      rw [decide_eq_true_eq] at hpa hpd ⊢
      rw [← hpa]
      exact htogether k l m a.1 b.1 d.1 hkl hlm (hzip k a ha) (hzip l b hb) (hzip m d hd)
        (hpa.trans hpd.symm)
  refine ⟨before.length, before.length + block.length, Nat.le_add_right _ _, ?_, ?_, ?_⟩
  · have hall := congrArg List.length hsplit
    rw [List.length_zip, hlen, Nat.min_self, List.length_append, List.length_append] at hall
    omega
  · intro k atom hk
    have hlt := (List.getElem?_eq_some_iff.mp hk).1
    have hpair : (c.atoms.zip elf.atoms)[k]? = some (atom, elf.atoms[k]) := by
      rw [List.getElem?_zip_eq_some]
      exact ⟨hk, List.getElem?_eq_getElem (hlen ▸ hlt)⟩
    rw [hsplit] at hpair
    rcases Nat.lt_or_ge k before.length with hk' | hk'
    · rw [List.getElem?_append_left hk'] at hpair
      have hnot := of_decide_eq_false (hbefore _ (List.mem_of_getElem? hpair))
      exact iff_of_false hnot (by omega)
    · rw [List.getElem?_append_right hk'] at hpair
      rcases Nat.lt_or_ge (k - before.length) block.length with hk'' | hk''
      · rw [List.getElem?_append_left hk''] at hpair
        have hin := of_decide_eq_true (hblock _ (List.mem_of_getElem? hpair))
        exact iff_of_true hin (by omega)
      · rw [List.getElem?_append_right hk''] at hpair
        have hnot := of_decide_eq_false (hafter _ (List.mem_of_getElem? hpair))
        exact iff_of_false hnot (by omega)
  · have hpieces : elf.atoms = before.map Prod.snd ++ (block.map Prod.snd ++ after.map Prod.snd) := by
      rw [← List.map_append, ← List.map_append, ← hsplit, List.map_snd_zip hlen.ge]
    have hkept : (c.atoms.zip elf.atoms).filter (fun p => p.1.unit.containerSection = target) =
        block := by
      rw [hsplit, List.filter_append, List.filter_append, List.filter_eq_nil_iff.mpr,
        List.filter_eq_self.mpr hblock, List.filter_eq_nil_iff.mpr]
      · simp
      · exact fun p hp => Bool.eq_false_iff.mp (hafter p hp)
      · exact fun p hp => Bool.eq_false_iff.mp (hbefore p hp)
    rw [atomBytes, hkept, hpieces, Nat.add_sub_cancel_left, List.drop_left' (by simp),
      List.take_left' (by simp), List.flatMap_def]

theorem Block.start_eq (h : Block c elf target i j) :
    elf.startOfAtom j = elf.startOfAtom i + (atomBytes c elf target).length := by
  have hsplit : elf.atoms.take j = elf.atoms.take i ++ (elf.atoms.drop i).take (j - i) := by
    rw [← List.take_add, Nat.add_sub_cancel' h.le]
  rw [RenderedElf.startOfAtom, RenderedElf.startOfAtom, h.bytes, hsplit, List.flatten_append,
    List.length_append, Nat.add_assoc]

theorem Laid.located_block (h : Laid checks virtualBase c layout elf)
    (hn : (sectionHeadersFor c)[n]? = some header)
    (htarget : header.sectionHeaderType.mainSection = some target)
    (hblock : Block c elf target i j) :
    Located (sectionAt elf.bytes n) (elf.startOfAtom i) (atomBytes c elf target).length := by
  obtain ⟨k, atom, hk, hatom, hbefore, hlocated⟩ := h.mainSection hn htarget
  obtain ⟨hik, hkj⟩ := (hblock.mem k atom hk).mp hatom
  -- the first atom of the section is the first of the block
  obtain rfl : i = k := by
    refine Nat.le_antisymm hik (Nat.le_of_not_lt fun hlt => ?_)
    have hlen := (List.getElem?_eq_some_iff.mp hk).1
    refine hbefore i c.atoms[i] hlt (List.getElem?_eq_getElem (by omega)) ?_
    exact (hblock.mem i _ (List.getElem?_eq_getElem (by omega))).mpr ⟨le_rfl, by omega⟩
  exact hlocated

theorem Laid.holdsAtoms (h : Laid checks virtualBase c layout elf)
    (hn : (sectionHeadersFor c)[n]? = some header)
    (htarget : header.sectionHeaderType.mainSection = some target)
    (hblock : Block c elf target i j) : HoldsAtoms c elf (sectionAt elf.bytes n) target := by
  have hlocated := h.located_block hn htarget hblock
  have hmono : ∀ {x y : Nat}, x ≤ y → elf.startOfAtom x ≤ elf.startOfAtom y := fun hle =>
    Nat.add_le_add_left (start_mono elf.atoms hle) _
  refine ⟨?_, ?_⟩
  · rw [Linker.sectionBytes, hlocated.offset, hlocated.size, RenderedElf.bytes,
      RenderedElf.startOfAtom, List.drop_append, List.drop_eq_nil_of_le (Nat.le_add_right _ _),
      Nat.add_sub_cancel_left, List.nil_append, hblock.bytes]
    have hsplit : elf.atoms.flatten = (elf.atoms.take i).flatten ++
        (((elf.atoms.drop i).take (j - i)).flatten ++
          ((elf.atoms.drop i).drop (j - i)).flatten) := by
      rw [← List.flatten_append, ← List.flatten_append, List.take_append_drop,
        List.take_append_drop]
    rw [hsplit, List.drop_left, List.take_left]
  · intro k atom q hk hlow hhigh
    rw [hlocated.inSection, ← hblock.start_eq, hblock.mem k atom hk]
    constructor
    · rintro ⟨hq, hq'⟩
      refine ⟨Nat.le_of_not_lt fun hlt => ?_, Nat.lt_of_not_le fun hle => ?_⟩
      · have := hmono (Nat.succ_le_of_lt hlt)
        exact absurd (hhigh.trans_le this) (Nat.not_lt.mpr hq)
      · have := hmono hle
        exact absurd (hq'.trans_le this) (Nat.not_lt.mpr hlow)
    · rintro ⟨hik, hkj⟩
      exact ⟨(hmono hik).trans hlow, hhigh.trans_le (hmono (Nat.succ_le_of_lt hkj))⟩

/-! ### Sections do not overlap -/

theorem Laid.nullSection (h : Laid checks virtualBase c layout elf) :
    Located (sectionAt elf.bytes 0) 0 0 := by
  have hheader : (sectionHeadersFor c)[0]? = some .nullSectionHeader := by
    rcases sectionHeadersFor_cases c with ⟨-, hheaders⟩ | ⟨-, hheaders⟩ <;> rw [hheaders] <;> rfl
  obtain ⟨-, hoffset, hsize, -⟩ := elfSection_fields (h.readSection hheader)
  exact ⟨by rw [← Option.some.inj hoffset]; rfl, by rw [← Option.some.inj hsize]; rfl⟩

theorem Block.disjoint {target target' : BinarySection} {i j i' j' : Nat}
    (h : Block c elf target i j) (h' : Block c elf target' i' j') (hne : target ≠ target')
    (hq : elf.startOfAtom i ≤ q ∧ q < elf.startOfAtom j) :
    ¬(elf.startOfAtom i' ≤ q ∧ q < elf.startOfAtom j') := by
  rintro ⟨hlow, hhigh⟩
  have hmono : ∀ {x y : Nat}, x ≤ y → elf.startOfAtom x ≤ elf.startOfAtom y := fun hle =>
    Nat.add_le_add_left (start_mono elf.atoms hle) _
  have hlt : i < j' := Nat.lt_of_not_le fun hle => by
    have := hmono hle
    omega
  have hlt' : i' < j := Nat.lt_of_not_le fun hle => by
    have := hmono hle
    omega
  have hlt₁ : i < j := Nat.lt_of_not_le fun hle => by
    have := hmono hle
    omega
  have hlt₂ : i' < j' := Nat.lt_of_not_le fun hle => by
    have := hmono hle
    omega
  -- an atom that is in both
  have hmax : max i i' < c.atoms.length := by
    have := h'.bound
    omega
  have hatom := List.getElem?_eq_getElem hmax
  have hin := (h.mem _ _ hatom).mpr ⟨Nat.le_max_left _ _, by omega⟩
  have hin' := (h'.mem _ _ hatom).mpr ⟨Nat.le_max_right _ _, by omega⟩
  exact hne (hin.symm.trans hin')

theorem Laid.disjoint (h : Laid checks virtualBase c layout elf) (htogether : Together c)
    (hi : i < (sectionHeadersFor c).length) (hj : j < (sectionHeadersFor c).length) (hij : i ≠ j)
    (hin : InSection (sectionAt elf.bytes i) q) : ¬InSection (sectionAt elf.bytes j) q := by
  have hlen := h.lens.length_eq
  obtain ⟨a, b, htext⟩ := exists_atomBlock hlen htogether .text
  obtain ⟨a', b', hdata⟩ := exists_atomBlock hlen htogether .readOnlyData
  have hp := h.placed
  have htotal := hp.total
  rw [h.totalHeaderLen] at htotal
  have hnames := hp.symbolsStart
  have hsymbols := hp.stringsStart
  have hbase : ∀ k, elf.headers.flatten.length ≤ elf.startOfAtom k := fun k => Nat.le_add_right _ _
  -- the interval of each section
  have hregion : ∀ k, k < (sectionHeadersFor c).length → InSection (sectionAt elf.bytes k) q →
      (k = 1 ∧ elf.startOfAtom a ≤ q ∧ q < elf.startOfAtom b) ∨
      (k = 2 ∧ headerStart layout ((sectionHeadersFor c).length + 2) ≤ q ∧
        q < headerStart layout ((sectionHeadersFor c).length + 3)) ∨
      (k = 3 ∧ headerStart layout ((sectionHeadersFor c).length + 3) ≤ q ∧
        q < headerStart layout ((sectionHeadersFor c).length + 4)) ∨
      (k = 4 ∧ headerStart layout ((sectionHeadersFor c).length + 4) ≤ q ∧
        q < elf.headers.flatten.length) ∨
      (k = 5 ∧ elf.startOfAtom a' ≤ q ∧ q < elf.startOfAtom b') := by
    intro k hk hin
    obtain ⟨-, hle⟩ := count_le c
    have hk' : k < 6 := by omega
    interval_cases k
    · have := h.nullSection.inSection.mp hin
      omega
    · have hheader : (sectionHeadersFor c)[1]? = some .textSectionHeader := by
        rcases sectionHeadersFor_cases c with ⟨-, hheaders⟩ | ⟨-, hheaders⟩ <;> rw [hheaders] <;> rfl
      have hq := (h.located_block hheader rfl htext).inSection.mp hin
      rw [← htext.start_eq] at hq
      exact .inl ⟨rfl, hq⟩
    · have hq := h.tables.1.inSection.mp hin
      exact .inr (.inl ⟨rfl, hq.1, by omega⟩)
    · have hq := h.tables.2.1.inSection.mp hin
      exact .inr (.inr (.inl ⟨rfl, hq.1, by omega⟩))
    · have hq := h.tables.2.2.inSection.mp hin
      exact .inr (.inr (.inr (.inl ⟨rfl, hq.1, by omega⟩)))
    · have hheader : (sectionHeadersFor c)[5]? = some .readOnlyDataSectionHeader := by
        rcases sectionHeadersFor_cases c with ⟨-, hheaders⟩ | ⟨-, hheaders⟩
        · rw [hheaders] at hk
          exact absurd hk (by decide)
        · rw [hheaders]
          rfl
      have hq := (h.located_block hheader rfl hdata).inSection.mp hin
      rw [← hdata.start_eq] at hq
      exact .inr (.inr (.inr (.inr ⟨rfl, hq⟩)))
  intro hin'
  have ha := hbase a
  have ha' := hbase a'
  have hoverlap := fun hq => htext.disjoint hdata (by decide) (q := q) hq
  rcases hregion i hi hin with h₁ | h₁ | h₁ | h₁ | h₁ <;>
    rcases hregion j hj hin' with h₂ | h₂ | h₂ | h₂ | h₂ <;> omega

/-! ### The program header and the symbols -/

section

variable (h : Laid checks virtualBase c layout elf)

include h

theorem Laid.segment :
    (segmentAt elf.bytes 0).offset = 0 ∧ (segmentAt elf.bytes 0).vaddr = virtualBase ∧
      (segmentAt elf.bytes 0).fileSize.toNat = elf.bytes.length ∧
      (segmentAt elf.bytes 0).memSize.toNat = elf.bytes.length := by
  have hsegment := h.readSegment
  simp only [FileLayout.segment, Option.bind_eq_bind, Option.bind_eq_some_iff] at hsegment
  obtain ⟨offset, hoffset, vaddr, hvaddr, paddr, -, fileSize, hfileSize, memSize, hmemSize, align,
    -, hsegment⟩ := hsegment
  have hend : layout.getRebasedValue checks (.staticEndOf .textSegment) =
      some (BitVec.ofNat 64 elf.bytes.length) := by
    have hsum : (atomBytes c elf .text).length + (atomBytes c elf .readOnlyData).length =
        elf.atoms.flatten.length := atomBytes_lengths h.lens.length_eq
    have hlen : layout.targetLen .textSegment = some elf.atoms.flatten.length := by
      rw [FileLayout.targetLen, h.main, h.sectionLen, h.sectionLen, ← hsum]
      rfl
    rw [FileLayout.getRebasedValue, hlen, RenderedElf.bytes, List.length_append, ← h.totalHeaderLen]
    rfl
  have hfits : (BitVec.ofNat 64 elf.bytes.length).toNat = elf.bytes.length := by
    exact Nat.mod_eq_of_lt (Nat.lt_trans h.fits (by decide))
  have hfile : fileSize = BitVec.ofNat 64 elf.bytes.length :=
    Option.some.inj (hfileSize.symm.trans hend)
  have hmem : memSize = BitVec.ofNat 64 elf.bytes.length :=
    Option.some.inj (hmemSize.symm.trans hend)
  rw [← Option.some.inj hsegment]
  refine ⟨(Option.some.inj hoffset).symm, ?_, by rw [hfile, hfits], by rw [hmem, hfits]⟩
  rw [← h.base]
  exact (Option.some.inj hvaddr).symm

theorem Laid.labelSymbol (hi : c.labels[i]? = some label) :
    layout.labelSymbol checks label = some (symbolAt elf.bytes (i + 1)) := by
  obtain ⟨symbols, hsymbols, hread⟩ := h.readSymbols
  obtain ⟨labels, hlabels, hsymbols⟩ := Option.bind_eq_some_iff.mp hsymbols
  obtain ⟨equs, -, hsymbols⟩ := Option.bind_eq_some_iff.mp hsymbols
  obtain rfl := Option.some.inj hsymbols
  rw [h.main] at hlabels
  have hall := forall₂_of_mapM hlabels
  obtain ⟨hlt, hget⟩ := List.getElem?_eq_some_iff.mp hi
  have hlt' : i < labels.length := hall.length_eq ▸ hlt
  have hsymbol := (List.forall₂_iff_get.mp hall).2 i hlt hlt'
  rw [List.get_eq_getElem, hget] at hsymbol
  rw [hsymbol, hread (i + 1) labels[i]]
  · rfl
  · rw [List.cons_append, List.getElem?_cons_succ, List.getElem?_append_left hlt',
      List.getElem?_eq_getElem hlt']

theorem Laid.equSymbol {equExpression : EquExpression}
    (hi : c.equExpressions[i]? = some equExpression) :
    layout.equSymbol checks equExpression = some (symbolAt elf.bytes (c.labels.length + i + 1)) := by
  obtain ⟨symbols, hsymbols, hread⟩ := h.readSymbols
  obtain ⟨labels, hlabels, hsymbols⟩ := Option.bind_eq_some_iff.mp hsymbols
  obtain ⟨equs, hequs, hsymbols⟩ := Option.bind_eq_some_iff.mp hsymbols
  obtain rfl := Option.some.inj hsymbols
  rw [h.main] at hlabels hequs
  have hall := forall₂_of_mapM hequs
  have hcount := (forall₂_of_mapM hlabels).length_eq
  obtain ⟨hlt, hget⟩ := List.getElem?_eq_some_iff.mp hi
  have hlt' : i < equs.length := hall.length_eq ▸ hlt
  have hsymbol := (List.forall₂_iff_get.mp hall).2 i hlt hlt'
  rw [List.get_eq_getElem, hget] at hsymbol
  rw [hsymbol, hread (c.labels.length + i + 1) equs[i]]
  · rfl
  · rw [List.cons_append, List.getElem?_cons_succ, hcount, List.getElem?_append_right (by omega),
      Nat.add_sub_cancel_left, List.getElem?_eq_getElem hlt']

theorem Laid.symbolName (hi : c.symbolNames[i]? = some name) :
    ∃ offset, layout.strings.lookup name = some offset ∧
      (symbolAt elf.bytes (i + 1)).name = BitVec.ofNat 32 offset := by
  rw [MainContents.symbolNames] at hi
  rcases Nat.lt_or_ge i c.labels.length with hlt | hge
  · rw [List.getElem?_append_left (by rwa [List.length_map]), List.getElem?_map] at hi
    obtain ⟨label, hlabel, rfl⟩ := Option.map_eq_some_iff.mp hi
    have hsymbol := h.labelSymbol hlabel
    obtain ⟨sectionIndex, -, hsymbol⟩ := Option.bind_eq_some_iff.mp hsymbol
    obtain ⟨offset, hoffset, hsymbol⟩ := Option.bind_eq_some_iff.mp hsymbol
    obtain ⟨value, -, hsymbol⟩ := Option.bind_eq_some_iff.mp hsymbol
    exact ⟨offset, hoffset, by rw [← Option.some.inj hsymbol]⟩
  · rw [List.getElem?_append_right (by rwa [List.length_map]), List.length_map,
      List.getElem?_map] at hi
    obtain ⟨equExpression, hequ, rfl⟩ := Option.map_eq_some_iff.mp hi
    have hsymbol := h.equSymbol hequ
    rw [Nat.add_sub_cancel' hge] at hsymbol
    obtain ⟨offset, hoffset, hsymbol⟩ := Option.bind_eq_some_iff.mp hsymbol
    obtain ⟨value, -, hsymbol⟩ := Option.bind_eq_some_iff.mp hsymbol
    exact ⟨offset, hoffset, by rw [← Option.some.inj hsymbol]⟩

theorem Laid.symbolValue {instructions : List Instr} (hp : Parsed n instructions c)
    (hi : c.labels[i]? = some label) (hk : c.atoms[k]? = some label.dataUnit) :
    (symbolAt elf.bytes (i + 1)).value = virtualBase + BitVec.ofNat 64 (elf.startOfAtom k) := by
  have hsymbol := h.labelSymbol hi
  obtain ⟨sectionIndex, -, hsymbol⟩ := Option.bind_eq_some_iff.mp hsymbol
  obtain ⟨offset, -, hsymbol⟩ := Option.bind_eq_some_iff.mp hsymbol
  obtain ⟨value, hvalue, hsymbol⟩ := Option.bind_eq_some_iff.mp hsymbol
  obtain ⟨labelOffset, hlabelOffset, hvalue⟩ := Option.bind_eq_some_iff.mp hvalue
  obtain ⟨first, hfirst, hvalue⟩ := Option.bind_eq_some_iff.mp hvalue
  rw [h.main] at hlabelOffset
  have hoffset : labelOffset = start elf.atoms k :=
    Option.some.inj (hlabelOffset.symm.trans (hp.offsetOfAtomId h.lens hk))
  rw [← Option.some.inj hsymbol, ← (checked_eq_some.mp hvalue).2, ← (checked_eq_some.mp hfirst).2,
    hoffset, h.base, h.totalHeaderLen, BitVec.add_assoc, ← BitVec.ofNat_add]
  rfl

end

/-! ### Names -/

theorem NameIn.lt_length {table : List (BitVec 8)} {index : Nat} (h : NameIn table index name) :
    index < table.length := by
  have hle := h.2.length_le
  rw [List.length_append, List.length_drop] at hle
  simp only [List.length_cons, List.length_nil] at hle
  omega

theorem Laid.sectionName (h : Laid checks virtualBase c layout elf)
    (hi : (sectionHeadersFor c)[i]? = some header) :
    NameIn (sectionNamesTable elf.bytes) (sectionAt elf.bytes i).name.toNat header.name := by
  obtain ⟨⟨offset, hoffset, hname⟩, -, -, -⟩ := elfSection_fields (h.readSection hi)
  obtain ⟨k, hk, -, rfl⟩ := h.sectionNames.lookup header.name offset hoffset
  have hin := h.sectionNames.nameIn hk
  -- the table of these few names is short
  have hshort : layout.sectionHeaderNames.renderedStrings.length < 2 ^ 32 := by
    rw [h.sectionNames.rendered]
    rcases sectionHeadersFor_cases c with ⟨-, hheaders⟩ | ⟨-, hheaders⟩ <;> rw [hheaders] <;>
      decide +kernel
  rw [h.readSectionNames, hname, BitVec.toNat_ofNat,
    Nat.mod_eq_of_lt (hin.lt_length.trans hshort)]
  exact hin

theorem last_unique (hi : names[i]? = some name) (hi' : name ∉ names.drop (i + 1))
    (hj : names[j]? = some name) (hj' : name ∉ names.drop (j + 1)) : i = j := by
  have hlater : ∀ {a b : Nat}, a < b → names[b]? = some name → name ∈ names.drop (a + 1) := by
    intro a b hab hb
    refine List.mem_of_getElem? (i := b - (a + 1)) ?_
    rw [List.getElem?_drop, Nat.add_sub_cancel' hab, hb]
  rcases Nat.lt_trichotomy i j with hlt | heq | hgt
  · exact absurd (hlater hlt hj) hi'
  · exact heq
  · exact absurd (hlater hgt hi) hj'

theorem Laid.symbolNames_iff (h : Laid checks virtualBase c layout elf) :
    (∀ i name, c.symbolNames[i]? = some name →
      NameIn (symbolNamesTable elf.bytes) (symbolAt elf.bytes (i + 1)).name.toNat name) ↔
    NamesFit c.symbolNames := by
  rw [h.readSymbolNames, h.strings.rendered]
  have hindex : ∀ {i : Nat} {name : String}, c.symbolNames[i]? = some name →
      ∃ k, c.symbolNames[k]? = some name ∧ name ∉ c.symbolNames.drop (k + 1) ∧
        (symbolAt elf.bytes (i + 1)).name.toNat =
          (tableBytes [0] (c.symbolNames.take k)).length % 2 ^ 32 := by
    intro i name hi
    obtain ⟨offset, hoffset, hname⟩ := h.symbolName hi
    obtain ⟨k, hk, hlast, rfl⟩ := h.strings.lookup name offset hoffset
    exact ⟨k, hk, hlast, by rw [hname, BitVec.toNat_ofNat]⟩
  constructor
  · intro hread i name hi hlast
    obtain ⟨k, hk, hk', heq⟩ := hindex hi
    obtain rfl := last_unique hi hlast hk hk'
    rw [← heq]
    exact hread i name hi
  · intro hfit i name hi
    obtain ⟨k, hk, hk', heq⟩ := hindex hi
    rw [heq]
    exact hfit k name hk hk'

theorem namesFit_of_short (hzero : ∀ name ∈ names, 0 ∉ utf8Bytes name)
    (hshort : (tableBytes [0] names).length ≤ 2 ^ 32) : NamesFit names := by
  intro i name hi _
  have hinv : TableInv [0] names ⟨tableBytes [0] names, fun _ => none⟩ :=
    ⟨rfl, hzero, fun _ _ h => by cases h⟩
  have hin : NameIn (tableBytes [0] names) (tableBytes [0] (names.take i)).length name :=
    hinv.nameIn hi
  rwa [Nat.mod_eq_of_lt (hin.lt_length.trans_le hshort)]

end Layout

/-- **The file is consistent.**  In the file made of a source, the headers of the sections cover
their atoms and nothing else and do not overlap, the symbols have the addresses of the atoms they
label, every name index leads to its name, and the program header covers the file: exactly when the
atoms of each section are next to each other and the names of the symbols are within reach of their
32-bit indices. -/
theorem self_consistent_iff (checks : Bool) (virtualBase : BitVec 64) (nextAtomId : Nat)
    (source : List Char) (instructions : List Instr) (c : MainContents) (elf : RenderedElf)
    (h : Linked checks virtualBase nextAtomId source instructions c elf) :
    SelfConsistent virtualBase c elf ↔ ElfOk c := by
  have hp := parse_spec h.parses
  obtain ⟨layout, hlaid⟩ := laid_of_renders h.renders
  have hne := hp.nonempty hlaid.lens
  constructor
  · intro hself
    exact ⟨hlaid.together hne hself.sectionAtoms, hlaid.symbolNames_iff.mp hself.symbolNames⟩
  · intro hok
    refine ⟨hlaid.fileHeader.2.2.1, fun i header hi => hlaid.sectionName hi, ?_, ?_, ?_,
      hlaid.symbolNames_iff.mpr hok.names, hlaid.segment⟩
    · intro i header target hi htarget
      obtain ⟨a, b, hblock⟩ := exists_atomBlock hlaid.lens.length_eq hok.together target
      exact hlaid.holdsAtoms hi htarget hblock
    · exact fun i j q hi hj hij hin => hlaid.disjoint hok.together hi hj hij hin
    · exact fun i label k hi hk => hlaid.symbolValue hp hi hk

/-- Code, and after it read-only data. -/
def dataSource : List Char := "start:\nret\n.section .rodata\nword:\n.word $0x5\n".toList

def dataStatements : List Instr :=
  [.directiveDeclareLabel "start", .return, .directiveSetCurrentSection "rodata",
    .directiveDeclareLabel "word", .directiveEmbedU32 5]

def dataContents : MainContents :=
  ⟨[⟨"start", ⟨0, .instrDataUnit .return⟩⟩,
    ⟨"word", ⟨1, .constantData .readOnlyData (toNeBytes 5)⟩⟩], [],
    [⟨0, .instrDataUnit .return⟩, ⟨1, .constantData .readOnlyData (toNeBytes 5)⟩]⟩

theorem self_consistent_data :
    ∃ elf, Linked true 0x400000 0 dataSource dataStatements dataContents elf ∧
      SelfConsistent 0x400000 dataContents elf := by
  obtain ⟨elf, helf⟩ := Option.isSome_iff_exists.mp
    (show (renderElf true 0x400000 dataContents).isSome = true by decide +kernel)
  have hlinked : Linked true 0x400000 0 dataSource dataStatements dataContents elf :=
    ⟨⟨20, by decide +kernel⟩, by decide +kernel, helf⟩
  refine ⟨elf, hlinked, (self_consistent_iff _ _ _ _ _ _ _ hlinked).mpr ⟨?_, ?_⟩⟩
  · intro k l m a b d hkl hlm _ _ hm
    have hlt : m < 2 := (List.getElem?_eq_some_iff.mp hm).1
    omega
  · exact namesFit_of_short (by decide +kernel) (by decide +kernel)

/-- Read-only data, code, and read-only data again. -/
def reentered : MainContents :=
  ⟨[], [], [⟨0, .constantData .readOnlyData (toNeBytes 1)⟩, ⟨1, .instrDataUnit .return⟩,
    ⟨2, .constantData .readOnlyData (toNeBytes 2)⟩]⟩

def reenteredSource : List Char :=
  ".section .rodata\n.word $0x1\n.section .text\nret\n.section .rodata\n.word $0x2\n".toList

def reenteredStatements : List Instr :=
  [.directiveSetCurrentSection "rodata", .directiveEmbedU32 1, .directiveSetCurrentSection "text",
    .return, .directiveSetCurrentSection "rodata", .directiveEmbedU32 2]

/-- **Covered twice.**  The header of `.rodata` has the offset of its first word and the size of
both, and covers the code in between. -/
theorem section_entered_again :
    ∃ elf, Linked true 0x400000 0 reenteredSource reenteredStatements reentered elf ∧
      ¬SelfConsistent 0x400000 reentered elf := by
  obtain ⟨elf, helf⟩ := Option.isSome_iff_exists.mp
    (show (renderElf true 0x400000 reentered).isSome = true by decide +kernel)
  have hlinked : Linked true 0x400000 0 reenteredSource reenteredStatements reentered elf :=
    ⟨⟨20, by decide +kernel⟩, by decide +kernel, helf⟩
  refine ⟨elf, hlinked, fun hself => ?_⟩
  obtain ⟨layout, hlaid⟩ := laid_of_renders helf
  have htogether := hlaid.together ((parse_spec hlinked.parses).nonempty hlaid.lens)
    hself.sectionAtoms
  have hsame := htogether 0 1 2 _ _ _ (by decide) (by decide) rfl rfl rfl rfl
  exact absurd hsame (by decide)

end Axle.Linker
