import Axle.Linker.AssemblyParser

/-!
# The layout of the ELF file

`FileLayout` and what it packs: the file header, a program header, the section headers, the three
tables, and behind them the atoms in the order of the source.  Every field of a header that is an
offset, a size or an address is a `RebasedValue`: it is computed from the lengths that the parts
of the file *say* they have, before they are rendered.

* `MainContents.offsetOfAtomId`, `offsetOfLabel`, `offsetOfSectionStart`, `sectionLen` — walks
  over the atoms;
* `Atom.render` — an atom's bytes, where jumps are given their displacement;
* `FileLayout.getRebasedValue` — the fields;
* `renderElf` — the file, as a list of rendered parts.
-/

namespace Axle.Linker

open Axle.Compiler

/-! ### Atoms -/

def DataUnit.containerSection : DataUnit → BinarySection
  | .constantData containerSection _ => containerSection
  | _ => .text

/-- The length that an atom claims to have. -/
def DataUnit.len : DataUnit → Option Nat
  | .instrDataUnit instr => instr.assembledLen
  | .interrupt _ => some 2
  | .jump _ => some 5
  | .jumpToLabelIfEqual _ => (Instr.jumpToRelOffIfEqual 0).assembledLen
  | .jumpToLabelIfNotEqual _ => (Instr.jumpToRelOffIfNotEqual 0).assembledLen
  | .constantData _ inner => some inner.length

namespace MainContents

/-- Add up the lengths of the atoms before the first that is looked for. -/
def offsetOf (found : Atom → Bool) : List Atom → Option Nat
  | [] => none
  | atom :: atoms =>
    if found atom then some 0
    else do
      let len ← atom.unit.len
      let offset ← offsetOf found atoms
      some (len + offset)

def offsetOfAtomId (c : MainContents) (atomId : Nat) : Option Nat :=
  offsetOf (fun atom => atom.id = atomId) c.atoms

def offsetOfLabel (c : MainContents) (label : Label) : Option Nat :=
  offsetOf (fun atom => atom.id = label.dataUnit.id) c.atoms

def offsetOfLabelName (c : MainContents) (labelName : String) : Option Nat := do
  let label ← c.labels.find? fun label => label.name = labelName
  c.offsetOfLabel label

def offsetOfSectionStart (c : MainContents) (target : BinarySection) : Option Nat :=
  offsetOf (fun atom => atom.unit.containerSection = target) c.atoms

def sectionLen (c : MainContents) (target : BinarySection) : Option Nat := do
  let lens ← (c.atoms.filter fun atom => atom.unit.containerSection = target).mapM (·.unit.len)
  some lens.sum

/-- The value of an operand, as a `usize`. -/
def operandValue (c : MainContents) (previousAtom : Atom) : SymbolExprOperand → Option (BitVec 64)
  | .outputCursor => do
    let offset ← c.offsetOfAtomId previousAtom.id
    let len ← previousAtom.unit.len
    some (BitVec.ofNat 64 (offset + len))
  | .startOfSymbol labelName => (c.offsetOfLabelName labelName).map (BitVec.ofNat 64)

def evaluateEqu (checks : Bool) (c : MainContents) (equExpression : EquExpression) :
    Option (BitVec 64) := do
  let previousAtom ← equExpression.previousDataUnit
  match equExpression.expression with
  | .subtract op1 op2 =>
    let value1 ← c.operandValue previousAtom op1
    let value2 ← c.operandValue previousAtom op2
    usub checks value1 value2

/-- From just past an atom to the label with a name, if an `i32` holds it. -/
def distanceToTarget (c : MainContents) (atom : Atom) (labelName : String) : Option Int := do
  let offsetOfLabel ← c.offsetOfLabelName labelName
  let offsetOfAtom ← c.offsetOfAtomId atom.id
  let len ← atom.unit.len
  let distance : Int := (offsetOfLabel : Int) - offsetOfAtom - len
  if -2 ^ 31 ≤ distance ∧ distance < 2 ^ 31 then some distance else none

end MainContents

def Atom.render (c : MainContents) (atom : Atom) : Option (List (BitVec 8)) :=
  match atom.unit with
  | .instrDataUnit instr => instr.assemble
  | .interrupt vector => some [0xcd, vector]
  | .jump target => do
    let distance ← c.distanceToTarget atom target
    some (0xe9 :: toNeBytes (BitVec.ofInt 32 distance))
  | .jumpToLabelIfEqual target => do
    let distance ← c.distanceToTarget atom target
    (Instr.jumpToRelOffIfEqual (BitVec.ofInt 64 distance)).assemble
  | .jumpToLabelIfNotEqual target => do
    let distance ← c.distanceToTarget atom target
    (Instr.jumpToRelOffIfNotEqual (BitVec.ofInt 64 distance)).assemble
  | .constantData _ inner => some inner

/-- `MainContentsPacker::render`, atom by atom: an atom's length has to be the one it claims. -/
def MainContents.render (c : MainContents) : Option (List (List (BitVec 8))) :=
  c.atoms.mapM fun atom => do
    let renderedAtom ← atom.render c
    let len ← atom.unit.len
    if renderedAtom.length = len then some renderedAtom else none

/-! ### The records of the file -/

def toLeBytes16 (value : BitVec 16) : List (BitVec 8) :=
  [value.extractLsb' 0 8, value.extractLsb' 8 8]

/-- The fields that differ from file to file. -/
structure ElfHeader64 where
  entryPoint : BitVec 64
  programHeaderTableStart : BitVec 64
  sectionHeaderTableStart : BitVec 64
  programHeaderTableEntryCount : BitVec 16
  sectionHeaderTableEntryCount : BitVec 16
  sectionNamesSectionHeaderIndex : BitVec 16
deriving DecidableEq, Repr

structure ElfSegment64 where
  segmentType : BitVec 32
  flags : BitVec 32
  offset : BitVec 64
  vaddr : BitVec 64
  paddr : BitVec 64
  fileSize : BitVec 64
  memSize : BitVec 64
  align : BitVec 64
deriving DecidableEq, Repr

structure ElfSection64 where
  name : BitVec 32
  segmentType : BitVec 32
  flags : BitVec 64
  addr : BitVec 64
  offset : BitVec 64
  size : BitVec 64
  link : BitVec 32
  info : BitVec 32
  addrAlign : BitVec 64
  entSize : BitVec 64
deriving DecidableEq, Repr

structure ElfSymbol64 where
  name : BitVec 32
  info : BitVec 8
  other : BitVec 8
  ownerSectionIndex : BitVec 16
  value : BitVec 64
  size : BitVec 64
deriving DecidableEq, Repr

def ElfHeader64.structSize : Nat := 64
def ElfSegment64.structSize : Nat := 56
def ElfSection64.structSize : Nat := 64
def ElfSymbol64.structSize : Nat := 24

/-- Magic, word size, endianness, version, ABI and its version, reserved. -/
def ElfHeader64.ident : List (BitVec 8) :=
  [0x7f, 0x45, 0x4c, 0x46, 2, 1, 1, 0xfe, 1, 0, 0, 0, 0, 0, 0, 0]

def ElfHeader64.bytes (h : ElfHeader64) : List (BitVec 8) :=
  ElfHeader64.ident ++ toLeBytes16 0x02 ++ toLeBytes16 0x3e ++ toNeBytes 1 ++
  toLeBytes64 h.entryPoint ++ toLeBytes64 h.programHeaderTableStart ++
  toLeBytes64 h.sectionHeaderTableStart ++ toNeBytes 0 ++ toLeBytes16 64 ++ toLeBytes16 56 ++
  toLeBytes16 h.programHeaderTableEntryCount ++ toLeBytes16 64 ++
  toLeBytes16 h.sectionHeaderTableEntryCount ++ toLeBytes16 h.sectionNamesSectionHeaderIndex

def ElfSegment64.bytes (s : ElfSegment64) : List (BitVec 8) :=
  toNeBytes s.segmentType ++ toNeBytes s.flags ++ toLeBytes64 s.offset ++ toLeBytes64 s.vaddr ++
  toLeBytes64 s.paddr ++ toLeBytes64 s.fileSize ++ toLeBytes64 s.memSize ++ toLeBytes64 s.align

def ElfSection64.bytes (s : ElfSection64) : List (BitVec 8) :=
  toNeBytes s.name ++ toNeBytes s.segmentType ++ toLeBytes64 s.flags ++ toLeBytes64 s.addr ++
  toLeBytes64 s.offset ++ toLeBytes64 s.size ++ toNeBytes s.link ++ toNeBytes s.info ++
  toLeBytes64 s.addrAlign ++ toLeBytes64 s.entSize

def ElfSymbol64.bytes (s : ElfSymbol64) : List (BitVec 8) :=
  toNeBytes s.name ++ [s.info, s.other] ++ toLeBytes16 s.ownerSectionIndex ++
  toLeBytes64 s.value ++ toLeBytes64 s.size

/-! ### String tables -/

/-- Strings one after the other, and where each was put last. -/
structure StringTable where
  renderedStrings : List (BitVec 8)
  lookup : String → Option Nat

def StringTable.add (table : StringTable) (name : String) : Option StringTable := do
  let nameBytes ← bytesWithNul name
  some ⟨table.renderedStrings ++ nameBytes,
    Function.update table.lookup name (some table.renderedStrings.length)⟩

/-- `MagicSectionHeaderNamesStringsTable`, after `prerender`. -/
def sectionHeaderNamesTable (names : List String) : Option StringTable :=
  names.foldlM StringTable.add ⟨[], fun _ => none⟩

def MainContents.symbolNames (c : MainContents) : List String :=
  c.labels.map (·.name) ++ c.equExpressions.map (·.name)

/-- `NewStringTable::new`: the null string comes first. -/
def MainContents.stringTable (c : MainContents) : Option StringTable :=
  c.symbolNames.foldlM StringTable.add ⟨[0], fun _ => none⟩

/-! ### What is packed -/

inductive RebaseTarget where
  | elfHeader
  | elfSegmentHeader
  | elfSectionHeader
  | textSegment
  | textSection
  | readOnlyDataSection
  | symbolTableSection
  | stringsTable
  | sectionHeadersStringsTable
deriving DecidableEq, Repr

inductive SectionHeaderType where
  | nullSection
  | readOnlyDataSection
  | textSection
  | symbolTableSection
  | stringTableSection
  | sectionHeaderNamesSectionHeader
deriving DecidableEq, Repr

inductive RebasedValue where
  | virtStartOf (target : RebaseTarget)
  | staticStartOf (target : RebaseTarget)
  | staticEndOf (target : RebaseTarget)
  | sectionHeaderIndex (sectionHeaderType : SectionHeaderType)
  | sizeOf (target : RebaseTarget)
  | literal (value : Nat)
  | virtualBase
  | segmentHeadersHead
  | segmentHeaderCount
  | sectionHeadersHead
  | sectionHeaderCount
deriving DecidableEq, Repr

structure MagicSegmentHeader64 where
  segmentType : BitVec 32
  flags : BitVec 32
  offset : RebasedValue
  vaddr : RebasedValue
  paddr : RebasedValue
  fileSize : RebasedValue
  memSize : RebasedValue
  align : RebasedValue
deriving DecidableEq, Repr

def MagicSegmentHeader64.textSegmentHeader : MagicSegmentHeader64 where
  segmentType := 1
  flags := 0x1 ||| 0x4
  offset := .literal 0
  vaddr := .virtualBase
  paddr := .virtualBase
  fileSize := .staticEndOf .textSegment
  memSize := .staticEndOf .textSegment
  align := .literal 0x200000

structure MagicElfSection64 where
  sectionHeaderType : SectionHeaderType
  name : String
  segmentType : BitVec 32
  flags : BitVec 64
  addr : RebasedValue
  offset : RebasedValue
  size : RebasedValue
  link : RebasedValue
  info : RebasedValue
  addrAlign : BitVec 64
  entSize : BitVec 64
deriving DecidableEq, Repr

namespace MagicElfSection64

def nullSectionHeader : MagicElfSection64 :=
  ⟨.nullSection, "", 0, 0, .literal 0, .literal 0, .literal 0, .literal 0, .literal 0, 0, 0⟩

def textSectionHeader : MagicElfSection64 :=
  ⟨.textSection, ".text", 1, 0x2 ||| 0x4, .virtStartOf .textSection, .staticStartOf .textSection,
    .sizeOf .textSection, .literal 0, .literal 0, 1, 0⟩

def sectionHeaderNamesSectionHeader : MagicElfSection64 :=
  ⟨.sectionHeaderNamesSectionHeader, ".shstrtab", 3, 0, .literal 0,
    .staticStartOf .sectionHeadersStringsTable, .sizeOf .sectionHeadersStringsTable, .literal 0,
    .literal 0, 1, 0⟩

def symbolTableSectionHeader : MagicElfSection64 :=
  ⟨.symbolTableSection, ".symtab", 2, 0, .literal 0, .staticStartOf .symbolTableSection,
    .sizeOf .symbolTableSection, .sectionHeaderIndex .stringTableSection, .literal 1, 8, 24⟩

def stringTableSectionHeader : MagicElfSection64 :=
  ⟨.stringTableSection, ".strtab", 3, 0, .literal 0, .staticStartOf .stringsTable,
    .sizeOf .stringsTable, .literal 0, .literal 0, 1, 0⟩

def readOnlyDataSectionHeader : MagicElfSection64 :=
  ⟨.readOnlyDataSection, ".rodata", 1, 0x2, .virtStartOf .readOnlyDataSection,
    .staticStartOf .readOnlyDataSection, .sizeOf .readOnlyDataSection, .literal 0, .literal 0, 1, 0⟩

end MagicElfSection64

inductive MagicPackable where
  | elfHeader
  | segmentHeader (header : MagicSegmentHeader64)
  | sectionHeader (header : MagicElfSection64)
  | sectionHeaderNames
  | symbolTable
  | stringTable
deriving DecidableEq, Repr

def MagicPackable.structType : MagicPackable → RebaseTarget
  | .elfHeader => .elfHeader
  | .segmentHeader _ => .elfSegmentHeader
  | .sectionHeader _ => .elfSectionHeader
  | .sectionHeaderNames => .sectionHeadersStringsTable
  | .symbolTable => .symbolTableSection
  | .stringTable => .stringsTable

/-- The layout, once everything has been appended and the names have been rendered. -/
structure FileLayout where
  virtualBase : BitVec 64
  contents : List MagicPackable
  mainContents : MainContents
  sectionHeaderNames : StringTable
  strings : StringTable

namespace FileLayout

variable (checks : Bool) (layout : FileLayout)

def sectionHeaders : List MagicElfSection64 :=
  layout.contents.filterMap fun
    | .sectionHeader header => some header
    | _ => none

def segmentHeaders : List MagicSegmentHeader64 :=
  layout.contents.filterMap fun
    | .segmentHeader header => some header
    | _ => none

/-- `MagicPackable::len`. -/
def packableLen : MagicPackable → Nat
  | .elfHeader => ElfHeader64.structSize
  | .segmentHeader _ => ElfSegment64.structSize
  | .sectionHeader _ => ElfSection64.structSize
  | .sectionHeaderNames => layout.sectionHeaderNames.renderedStrings.length
  | .symbolTable =>
    (1 + (layout.mainContents.labels.length + layout.mainContents.equExpressions.length)) *
      ElfSymbol64.structSize
  | .stringTable => layout.strings.renderedStrings.length

/-- The length of everything before the atoms. -/
def totalHeaderLen : Nat := (layout.contents.map layout.packableLen).sum

/-- Walk to the first packable of a kind. -/
def startOfPackable (found : MagicPackable → Bool) : List MagicPackable → Option Nat
  | [] => none
  | packable :: packables =>
    if found packable then some 0
    else (startOfPackable found packables).map (layout.packableLen packable + ·)

def staticStartOf (target : RebaseTarget) : Option Nat :=
  match target with
  | .textSegment => some layout.totalHeaderLen
  | .textSection =>
    (layout.mainContents.offsetOfSectionStart .text).map (layout.totalHeaderLen + ·)
  | .readOnlyDataSection =>
    (layout.mainContents.offsetOfSectionStart .readOnlyData).map (layout.totalHeaderLen + ·)
  | target => layout.startOfPackable (fun packable => packable.structType = target) layout.contents

def targetLen (target : RebaseTarget) : Option Nat :=
  match target with
  | .textSegment => do
    let textLen ← layout.mainContents.sectionLen .text
    let readOnlyDataLen ← layout.mainContents.sectionLen .readOnlyData
    some (textLen + readOnlyDataLen)
  | .textSection => layout.mainContents.sectionLen .text
  | .readOnlyDataSection => layout.mainContents.sectionLen .readOnlyData
  | target =>
    -- there has to be exactly one
    match layout.contents.filter fun packable => packable.structType = target with
    | [packable] => some (layout.packableLen packable)
    | _ => none

def sectionHeaderIndex (sectionHeaderType : SectionHeaderType) : Option Nat :=
  match layout.sectionHeaders.zipIdx.filter fun p => p.1.sectionHeaderType = sectionHeaderType with
  | [(_, i)] => some i
  | _ => none

def virtStartOf (target : RebaseTarget) : Option (BitVec 64) := do
  let start ← layout.staticStartOf target
  uadd checks (BitVec.ofNat 64 start) layout.virtualBase

def getRebasedValue : RebasedValue → Option (BitVec 64)
  | .virtStartOf target => layout.virtStartOf checks target
  | .staticStartOf target => (layout.staticStartOf target).map (BitVec.ofNat 64)
  | .staticEndOf target => do
    let start ← layout.staticStartOf target
    let len ← layout.targetLen target
    some (BitVec.ofNat 64 (start + len))
  | .sectionHeaderIndex sectionHeaderType =>
    (layout.sectionHeaderIndex sectionHeaderType).map (BitVec.ofNat 64)
  | .sizeOf target => (layout.targetLen target).map (BitVec.ofNat 64)
  | .literal value => some (BitVec.ofNat 64 value)
  | .virtualBase => some layout.virtualBase
  | .segmentHeadersHead =>
    (layout.startOfPackable (fun packable => packable.structType = .elfSegmentHeader)
      layout.contents).map (BitVec.ofNat 64)
  | .segmentHeaderCount => some (BitVec.ofNat 64 layout.segmentHeaders.length)
  | .sectionHeadersHead =>
    (layout.startOfPackable (fun packable => packable.structType = .elfSectionHeader)
      layout.contents).map (BitVec.ofNat 64)
  | .sectionHeaderCount => some (BitVec.ofNat 64 layout.sectionHeaders.length)

/-! ### Rendering -/

def elfHeader : Option ElfHeader64 := do
  let entryPoint ← layout.getRebasedValue checks (.virtStartOf .textSection)
  let sectionHeaderCount ← layout.getRebasedValue checks .sectionHeaderCount
  let sectionHeaderTableStart ← layout.getRebasedValue checks .sectionHeadersHead
  let programHeaderTableStart ← layout.getRebasedValue checks .segmentHeadersHead
  let programHeaderCount ← layout.getRebasedValue checks .segmentHeaderCount
  let namesIndex ←
    layout.getRebasedValue checks (.sectionHeaderIndex .sectionHeaderNamesSectionHeader)
  some ⟨entryPoint, programHeaderTableStart, sectionHeaderTableStart,
    programHeaderCount.setWidth 16, sectionHeaderCount.setWidth 16, namesIndex.setWidth 16⟩

def segment (header : MagicSegmentHeader64) : Option ElfSegment64 := do
  let offset ← layout.getRebasedValue checks header.offset
  let vaddr ← layout.getRebasedValue checks header.vaddr
  let paddr ← layout.getRebasedValue checks header.paddr
  let fileSize ← layout.getRebasedValue checks header.fileSize
  let memSize ← layout.getRebasedValue checks header.memSize
  let align ← layout.getRebasedValue checks header.align
  some ⟨header.segmentType, header.flags, offset, vaddr, paddr, fileSize, memSize, align⟩

def elfSection (header : MagicElfSection64) : Option ElfSection64 := do
  let name ← layout.sectionHeaderNames.lookup header.name
  let addr ← layout.getRebasedValue checks header.addr
  let offset ← layout.getRebasedValue checks header.offset
  let size ← layout.getRebasedValue checks header.size
  let link ← layout.getRebasedValue checks header.link
  let info ← layout.getRebasedValue checks header.info
  some ⟨BitVec.ofNat 32 name, header.segmentType, header.flags, addr, offset, size,
    link.setWidth 32, info.setWidth 32, header.addrAlign, header.entSize⟩

def addressOfLabel (label : Label) : Option (BitVec 64) := do
  let offset ← layout.mainContents.offsetOfLabel label
  let start ← uadd checks layout.virtualBase (BitVec.ofNat 64 layout.totalHeaderLen)
  uadd checks start (BitVec.ofNat 64 offset)

def mainSectionIndex : BinarySection → Option Nat
  | .text => layout.sectionHeaderIndex .textSection
  | .readOnlyData => layout.sectionHeaderIndex .readOnlyDataSection

def labelSymbol (label : Label) : Option ElfSymbol64 := do
  let sectionIndex ← layout.mainSectionIndex label.dataUnit.unit.containerSection
  let name ← layout.strings.lookup label.name
  let value ← layout.addressOfLabel checks label
  some ⟨BitVec.ofNat 32 name, 0, 0, BitVec.ofNat 16 sectionIndex, value, 0⟩

def equSymbol (equExpression : EquExpression) : Option ElfSymbol64 := do
  let name ← layout.strings.lookup equExpression.name
  let value ← layout.mainContents.evaluateEqu checks equExpression
  some ⟨BitVec.ofNat 32 name, 0, 0, 0xfff1, value, 0⟩

/-- The null symbol, the labels and the expressions. -/
def symbols : Option (List ElfSymbol64) := do
  let labels ← layout.mainContents.labels.mapM (layout.labelSymbol checks)
  let equExpressions ← layout.mainContents.equExpressions.mapM (layout.equSymbol checks)
  some (⟨0, 0, 0, 0, 0, 0⟩ :: labels ++ equExpressions)

def renderPackable : MagicPackable → Option (List (BitVec 8))
  | .elfHeader => (layout.elfHeader checks).map ElfHeader64.bytes
  | .segmentHeader header => (layout.segment checks header).map ElfSegment64.bytes
  | .sectionHeader header => (layout.elfSection checks header).map ElfSection64.bytes
  | .sectionHeaderNames => some layout.sectionHeaderNames.renderedStrings
  | .symbolTable => (layout.symbols checks).map fun symbols => symbols.flatMap ElfSymbol64.bytes
  | .stringTable => some layout.strings.renderedStrings

end FileLayout

/-- The parts of the file as they were rendered, the atoms last. -/
structure RenderedElf where
  headers : List (List (BitVec 8))
  atoms : List (List (BitVec 8))
deriving DecidableEq, Repr

namespace RenderedElf

variable (elf : RenderedElf)

def bytes : List (BitVec 8) := elf.headers.flatten ++ elf.atoms.flatten

/-- Where the bytes of the atom number `k` begin in the file. -/
def startOfAtom (k : Nat) : Nat := elf.headers.flatten.length + (elf.atoms.take k).flatten.length

end RenderedElf

/-- `FileLayout::render`.  A `Vec` is never longer than `isize::MAX` bytes. -/
def FileLayout.render (checks : Bool) (layout : FileLayout) : Option RenderedElf := do
  let headers ← layout.contents.mapM (layout.renderPackable checks)
  let atoms ← layout.mainContents.render
  let elf : RenderedElf := ⟨headers, atoms⟩
  if elf.bytes.length < 2 ^ 63 then some elf else none

/-- A header for `.rodata` is added only if there is something in it. -/
def sectionHeadersFor (c : MainContents) : List MagicElfSection64 :=
  [.nullSectionHeader, .textSectionHeader, .sectionHeaderNamesSectionHeader,
    .symbolTableSectionHeader, .stringTableSectionHeader] ++
  if c.atoms.any fun atom => atom.unit.containerSection = .readOnlyData then
    [.readOnlyDataSectionHeader] else []

/-- The layout that `render_elf` sets up. -/
def layoutFor (virtualBase : BitVec 64) (c : MainContents) : Option FileLayout := do
  let sectionHeaders := sectionHeadersFor c
  let sectionHeaderNames ← sectionHeaderNamesTable (sectionHeaders.map (·.name))
  let strings ← c.stringTable
  some ⟨virtualBase,
    [.elfHeader, .segmentHeader .textSegmentHeader] ++ sectionHeaders.map .sectionHeader ++
      [.sectionHeaderNames, .symbolTable, .stringTable], c, sectionHeaderNames, strings⟩

def renderElf (checks : Bool) (virtualBase : BitVec 64) (c : MainContents) : Option RenderedElf := do
  let layout ← layoutFor virtualBase c
  layout.render checks

/-- A source, assembled and linked: the statements, what they were sorted into, and the file. -/
structure Linked (checks : Bool) (virtualBase : BitVec 64) (nextAtomId : Nat) (source : List Char)
    (instructions : List Instr) (c : MainContents) (elf : RenderedElf) : Prop where
  reads : Reads checks source instructions
  parses : parse nextAtomId instructions = some c
  renders : renderElf checks virtualBase c = some elf

end Axle.Linker
