import Axle.Lib.ErrorKinds
import Axle.Kernel.Vmm

/-!
# The ELF loader of the kernel

`elf_load_buffer` runs in the kernel, on bytes that another process has sent.  It checks the magic
and a few fields of the header, stops the task where `task_assert` fails, and follows all other
offsets, counts and addresses as they stand in the file.

An address is given by its distance from the start of the buffer, modulo 2^64.  Where the code does
what it must not do the model ends with a `Violation`.  A region counts as mapped when
`vas_alloc_range` marks it as allocated.  The stack and the jump to user mode come after the
segments and are left out.

* `elfLoadBuffer` — the loader;
* `elf_load_iff` — **PROVED**: on every buffer, in every state of the address space, the loader is
  harmless if and only if the buffer `LoadsSafely`.
-/

namespace Axle.Kernel.ElfLoader

open Axle.Lib.StepRun Axle.Lib.ErrorKinds

/-! ### Reading -/

abbrev Byte := BitVec 8

/-- `buf` and `buf_size`. -/
structure ElfBuffer where
  bytes : List Byte
  length_lt : bytes.length < 2 ^ 32

inductive Violation where
  /-- A byte outside of the buffer is read. -/
  | beyondBuffer
  /-- A length is used that has not been read from the file. -/
  | notInFile
  /-- A length is used that is greater than the size of the buffer. -/
  | notChecked
  /-- The bound of a loop overflows. -/
  | loopBound
  /-- Something is written or mapped above the user half. -/
  | upperHalf
  deriving DecidableEq, Repr

inductive Stop where
  | taskAssert (message : String)
  /-- The kernel stops, with an assertion of its own or in the allocators. -/
  | kernel (fault : Fault)
  | violation (v : Violation)
  deriving DecidableEq, Repr

/-- What must not happen. -/
def Stop.Bad : Stop → Prop
  | .violation _ => True
  | _ => False

/-- A field of a header. -/
structure Field where
  offset : ℕ
  size : ℕ
  deriving DecidableEq, Repr

/-- `elf_header` -/
def Header.ident (i : ℕ) : Field := ⟨i, 1⟩
def Header.type : Field := ⟨16, 2⟩
def Header.machine : Field := ⟨18, 2⟩
def Header.entry : Field := ⟨24, 8⟩
def Header.phoff : Field := ⟨32, 8⟩
def Header.shoff : Field := ⟨40, 8⟩
def Header.phentsize : Field := ⟨54, 2⟩
def Header.phnum : Field := ⟨56, 2⟩
def Header.shentsize : Field := ⟨58, 2⟩
def Header.shnum : Field := ⟨60, 2⟩
def Header.shstrndx : Field := ⟨62, 2⟩

/-- `elf_s_header` -/
def Section.name : Field := ⟨0, 4⟩
def Section.type : Field := ⟨4, 4⟩
def Section.addr : Field := ⟨16, 8⟩
def Section.offset : Field := ⟨24, 8⟩
def Section.size : Field := ⟨32, 8⟩

/-- `elf_phdr` -/
def Segment.type : Field := ⟨0, 4⟩
def Segment.offset : Field := ⟨8, 8⟩
def Segment.vaddr : Field := ⟨16, 8⟩
def Segment.filesz : Field := ⟨32, 8⟩
def Segment.memsz : Field := ⟨40, 8⟩

namespace ElfBuffer

/-- Little endian. -/
def fromLe : List Byte → ℕ
  | [] => 0
  | b :: bs => b.toNat + 256 * fromLe bs

/-- Where the field of a structure at `base` lies. -/
def address (base : ℕ) (f : Field) : ℕ := (base + f.offset) % 2 ^ 64

variable (b : ElfBuffer)

def size : ℕ := b.bytes.length

/-- The field lies inside the buffer. -/
def Inside (base : ℕ) (f : Field) : Prop := address base f + f.size ≤ b.size

instance (base : ℕ) (f : Field) : Decidable (b.Inside base f) :=
  inferInstanceAs (Decidable (_ ≤ _))

def value (base : ℕ) (f : Field) : ℕ := fromLe ((b.bytes.drop (address base f)).take f.size)

def read (base : ℕ) (f : Field) : Except Stop ℕ :=
  if b.Inside base f then .ok (b.value base f) else .error (.violation .beyondBuffer)

def byteAt (addr : ℕ) : Byte := b.bytes.getD addr 0

/-- `!strcmp`, with a string that is given with its terminator. -/
def strcmp (addr : ℕ) : List Byte → Except Stop Bool
  | [] => .ok true
  | c :: cs =>
    if addr < b.size then
      if b.byteAt addr = c then strcmp ((addr + 1) % 2 ^ 64) cs else .ok false
    else .error (.violation .beyondBuffer)

/-- A block of bytes lies inside the buffer; an empty one may lie anywhere. -/
def BlockInside (offset size : ℕ) : Prop := size = 0 ∨ offset + size ≤ b.size

instance (offset size : ℕ) : Decidable (b.BlockInside offset size) :=
  inferInstanceAs (Decidable (_ ∨ _))

/-- The source of a `memcpy`. -/
def readBlock (offset size : ℕ) : Except Stop (List Byte) :=
  if b.BlockInside offset size then .ok ((b.bytes.drop offset).take size)
  else .error (.violation .beyondBuffer)

end ElfBuffer

def taskAssert (cond : Prop) [Decidable cond] (message : String) : Except Stop Unit :=
  if cond then .ok () else .error (.taskAssert message)

/-- The product of two `uint16_t`, an `int`, added to an address. -/
def intProduct (x y : ℕ) : ℕ := ((BitVec.ofNat 32 (x * y)).signExtend 64).toNat

/-- ".strtab", ".symtab" and ".bss" with their terminators. -/
def strtabName : List Byte := [46, 115, 116, 114, 116, 97, 98, 0]
def symtabName : List Byte := [46, 115, 121, 109, 116, 97, 98, 0]
def bssName : List Byte := [46, 98, 115, 115, 0]

/-! ### The header -/

/-- Compare fields one after the other, up to the first that is not as it should be. -/
def checkFields (b : ElfBuffer) : List (Field × List ℕ) → Except Stop Bool
  | [] => .ok true
  | (f, allowed) :: rest => do
    let v ← b.read 0 f
    if v ∈ allowed then checkFields b rest else .ok false

def magicFields : List (Field × List ℕ) :=
  [(Header.ident 0, [0x7f]), (Header.ident 1, [69]), (Header.ident 2, [76]), (Header.ident 3, [70])]

def elfCheckMagic (b : ElfBuffer) : Except Stop Bool := checkFields b magicFields

/-- Class, byte order, machine, version and type. -/
def supportedFields : List (Field × List ℕ) :=
  [(Header.ident 4, [2]), (Header.ident 5, [1]), (Header.machine, [0x3e]), (Header.ident 6, [1]),
    (Header.type, [1, 2])]

def elfCheckSupported (b : ElfBuffer) : Except Stop Bool := checkFields b supportedFields

def elfValidateHeader (b : ElfBuffer) : Except Stop Bool := do
  let magic ← elfCheckMagic b
  if magic then elfCheckSupported b else .ok false

/-! ### Sections -/

/-- How often `for (x = 0; x < shentsize * shnum; x += shentsize)` runs. -/
def sectionLoop (b : ElfBuffer) : Except Stop ℕ := do
  let shentsize ← b.read 0 Header.shentsize
  let shnum ← b.read 0 Header.shnum
  if shentsize * shnum < 2 ^ 31 then .ok (if shentsize = 0 then 0 else shnum)
  else .error (.violation .loopBound)

/-- The header at the offset `x` of the table. -/
def sectionBase (b : ElfBuffer) (x : ℕ) : ℕ := (b.value 0 Header.shoff + x) % 2 ^ 64

def readBeyond : String := "Tried to read beyond the end of an ELF"

/-- The loop of `elf_get_string_table`, with `n` sections to go. -/
def stringTableFrom (b : ElfBuffer) : ℕ → ℕ → Except Stop (Option ℕ)
  | 0, _ => .ok none
  | n + 1, i => do
    let shentsize ← b.read 0 Header.shentsize
    let _ ← b.read 0 Header.shoff
    let shdr := sectionBase b (i * shentsize)
    taskAssert (shdr ≤ b.size) readBeyond
    let shstrndx ← b.read 0 Header.shstrndx
    if i = shstrndx then do
      let offset ← b.read shdr Section.offset
      .ok (some offset)
    else stringTableFrom b n (i + 1)

def elfGetStringTable (b : ElfBuffer) : Except Stop (Option ℕ) := do
  let n ← sectionLoop b
  stringTableFrom b n 0

/-- A pointer into the buffer and a size. -/
structure Block where
  offset : ℕ
  size : ℕ
  deriving DecidableEq, Repr

/-- `elf_t`, of which nothing is initialised. -/
structure Symbols where
  strtab : Option Block
  symtab : Option Block
  deriving DecidableEq, Repr

/-- The size is stored to a `uint32_t`. -/
def readSectionBlock (b : ElfBuffer) (shdr : ℕ) : Except Stop Block := do
  let offset ← b.read shdr Section.offset
  let size ← b.read shdr Section.size
  .ok ⟨offset, size % 2 ^ 32⟩

/-- Keep the section if it has this name. -/
def keepNamed (b : ElfBuffer) (shdr nameAddr : ℕ) (name : List Byte)
    (keep : Block → Symbols) (elf : Symbols) : Except Stop Symbols := do
  let equal ← b.strcmp nameAddr name
  if equal then (readSectionBlock b shdr).map keep else .ok elf

/-- One section in `_record_elf_symbol_table`. -/
def recordSection (b : ElfBuffer) (shentsize strtab : ℕ) (elf : Symbols) (i : ℕ) :
    Except Stop Symbols := do
  let shdr := sectionBase b (i * shentsize)
  let type ← b.read shdr Section.type
  if type = 0 then .ok elf
  else do
    let name ← b.read shdr Section.name
    let nameAddr := (strtab + name) % 2 ^ 64
    let elf ← keepNamed b shdr nameAddr strtabName (fun t => { elf with strtab := some t }) elf
    keepNamed b shdr nameAddr symtabName (fun t => { elf with symtab := some t }) elf

def recordElfSymbolTable (b : ElfBuffer) : Except Stop Symbols := do
  let _ ← b.read 0 Header.shoff
  let shstrndx ← b.read 0 Header.shstrndx
  let shentsize ← b.read 0 Header.shentsize
  let strtab ← b.read (sectionBase b (intProduct shstrndx shentsize)) Section.offset
  let n ← sectionLoop b
  (List.range n).foldlM (recordSection b shentsize strtab) ⟨none, none⟩

/-- `kmalloc` and `memcpy` of a table. -/
def copyTable (b : ElfBuffer) : Option Block → Except Stop (List Byte)
  | none => .error (.violation .notInFile)
  | some table =>
    if table.size ≤ b.size then b.readBlock table.offset table.size
    else .error (.violation .notChecked)

/-- `prog_break` and `bss_loc`. -/
structure Break where
  progBreak : ℕ
  bssLoc : ℕ
  deriving DecidableEq, Repr

/-- One section in the loop that looks for ".bss".  Without a string table the name is read at a
small address, not in the buffer. -/
def bssSection (b : ElfBuffer) (shentsize : ℕ) (stringTable : Option ℕ) (s : Break) (i : ℕ) :
    Except Stop Break := do
  let shdr := sectionBase b (i * shentsize)
  taskAssert (shdr ≤ b.size) readBeyond
  let name ← b.read shdr Section.name
  match stringTable with
  | none => .error (.violation .beyondBuffer)
  | some strtab => do
    let isBss ← b.strcmp ((strtab + name) % 2 ^ 64) bssName
    if isBss then do
      let addr ← b.read shdr Section.addr
      let size ← b.read shdr Section.size
      .ok ⟨(addr + size) % 2 ^ 64, addr⟩
    else .ok s

/-! ### Segments -/

/-- The address space that the program is loaded into. -/
structure Space where
  mem : PhysMem
  vas : Vas

def liftKernel {α : Type} : Except Fault α → Except Stop α
  | .ok a => .ok a
  | .error fault => .error (.kernel fault)

/-- The region lies in the user half; an empty one may lie anywhere. -/
def UserHalf (start size : ℕ) : Prop := size = 0 ∨ start + size ≤ 2 ^ 47

instance (start size : ℕ) : Decidable (UserHalf start size) :=
  inferInstanceAs (Decidable (_ ∨ _))

def userHalfOnly (start size : ℕ) : Except Stop Unit :=
  if UserHalf start size then .ok () else .error (.violation .upperHalf)

def ptLoad : ℕ := 1

/-- `vaddr & PAGING_PAGE_MASK` -/
def vmPageBase (vaddr : ℕ) : ℕ := vaddr / 0x1000 * 0x1000

def pageAlignedSize (vaddr memsz : ℕ) : ℕ :=
  pageAlign ((memsz + (vaddr - vmPageBase vaddr)) % 2 ^ 64)

/-- The segment is mapped, zeroed and copied.  `memset` writes what has just been mapped. -/
def elfLoadSegment (b : ElfBuffer) (seg : ℕ) (space : Space) : Except Stop (Space × Bool) := do
  let type ← b.read seg Segment.type
  if type = ptLoad then do
    let offset ← b.read seg Segment.offset
    let vaddr ← b.read seg Segment.vaddr
    let memsz ← b.read seg Segment.memsz
    let pages := pageAlignedSize vaddr memsz
    let chosen ← liftKernel (selectVirtualAddress space.vas.ranges (vmPageBase vaddr)
      (pageAlign pages))
    userHalfOnly chosen (pageAlign pages)
    let mapped ← liftKernel (vasAllocRange space.mem space.vas (vmPageBase vaddr) pages .readWrite
      .user)
    -- "Failed to map program at its requested address"
    if chosen = vmPageBase vaddr then do
      let filesz ← b.read seg Segment.filesz
      let _ ← b.readBlock offset filesz
      userHalfOnly vaddr filesz
      .ok (⟨mapped.1, mapped.2⟩, true)
    else .error (.kernel .panic)
  else .ok (space, false)

/-- The header of a segment. -/
def segmentBase (b : ElfBuffer) (i : ℕ) : ℕ :=
  (b.value 0 Header.phoff + intProduct i (b.value 0 Header.phentsize)) % 2 ^ 64

def loadNext (b : ElfBuffer) (s : Space × Bool) (i : ℕ) : Except Stop (Space × Bool) := do
  let _ ← b.read 0 Header.phentsize
  let t ← elfLoadSegment b (segmentBase b i) s.1
  .ok (t.1, s.2 || t.2)

/-- The entry point, or 0 if nothing was loaded. -/
def elfLoadSmall (b : ElfBuffer) (space : Space) : Except Stop (Space × ℕ) := do
  let _ ← b.read 0 Header.phoff
  let segcount ← b.read 0 Header.phnum
  taskAssert (0 < segcount) "No loadable segments in ELF"
  let s ← (List.range segcount).foldlM (loadNext b) (space, false)
  if s.2 then do
    let entry ← b.read 0 Header.entry
    .ok (s.1, entry)
  else .ok (s.1, 0)

/-! ### The loader -/

structure Loaded where
  space : Space
  strtab : List Byte
  symtab : List Byte
  brk : Break
  entryPoint : ℕ

/-- What `elf_load_buffer` does with the string table it has found. -/
def loadWithNames (b : ElfBuffer) (space : Space) (stringTable : Option ℕ) :
    Except Stop Loaded := do
  let symbols ← recordElfSymbolTable b
  let strtab ← copyTable b symbols.strtab
  let symtab ← copyTable b symbols.symtab
  let n ← sectionLoop b
  let shentsize ← b.read 0 Header.shentsize
  let brk ← (List.range n).foldlM (bssSection b shentsize stringTable) ⟨0, 0⟩
  let loaded ← elfLoadSmall b space
  taskAssert (loaded.2 ≠ 0) "Failed to find an ELF entry point"
  .ok ⟨loaded.1, strtab, symtab, brk, loaded.2⟩

def elfLoadBuffer (b : ElfBuffer) (space : Space) : Except Stop Loaded := do
  let valid ← elfValidateHeader b
  taskAssert (valid = true) "ELF header validation failed"
  let stringTable ← elfGetStringTable b
  loadWithNames b space stringTable

/-! ### What the code would have to check -/

section Conditions

variable (b : ElfBuffer)

/-- Every field up to the first that is not as it should be lies inside the buffer. -/
def FieldsInside : List (Field × List ℕ) → Prop
  | [] => True
  | (f, allowed) :: rest => b.Inside 0 f ∧ (b.value 0 f ∈ allowed → FieldsInside rest)

def validatedFields : List (Field × List ℕ) := magicFields ++ supportedFields

/-- The header is one that `elf_validate_header` accepts. -/
def Valid : Prop := ∀ p ∈ validatedFields, b.value 0 p.1 ∈ p.2

def sectionCount : ℕ := if b.value 0 Header.shentsize = 0 then 0 else b.value 0 Header.shnum

/-- The header of a section. -/
def shdrOf (i : ℕ) : ℕ := sectionBase b (i * b.value 0 Header.shentsize)

/-- The header of the section with the names, as `_record_elf_symbol_table` computes it. -/
def namesShdr : ℕ :=
  sectionBase b (intProduct (b.value 0 Header.shstrndx) (b.value 0 Header.shentsize))

/-- Where the name of a section is. -/
def nameOf (i : ℕ) : ℕ :=
  (b.value (namesShdr b) Section.offset + b.value (shdrOf b i) Section.name) % 2 ^ 64

/-- The bytes from an address on are these. -/
def matchesAt (addr : ℕ) : List Byte → Bool
  | [] => true
  | c :: cs => b.byteAt addr = c && matchesAt ((addr + 1) % 2 ^ 64) cs

/-- The bytes from an address on that are compared with these lie inside the buffer. -/
def Comparable (addr : ℕ) : List Byte → Prop
  | [] => True
  | c :: cs => addr < b.size ∧ (b.byteAt addr = c → Comparable ((addr + 1) % 2 ^ 64) cs)

/-- The names and the fields that are read lie inside the buffer. -/
structure SectionOk (i : ℕ) : Prop where
  type : b.Inside (shdrOf b i) Section.type
  name : b.value (shdrOf b i) Section.type ≠ 0 → b.Inside (shdrOf b i) Section.name
  strtab : b.value (shdrOf b i) Section.type ≠ 0 → Comparable b (nameOf b i) strtabName
  symtab : b.value (shdrOf b i) Section.type ≠ 0 → Comparable b (nameOf b i) symtabName
  block : b.value (shdrOf b i) Section.type ≠ 0 →
    matchesAt b (nameOf b i) strtabName ∨ matchesAt b (nameOf b i) symtabName →
      b.Inside (shdrOf b i) Section.offset ∧ b.Inside (shdrOf b i) Section.size

/-- The same for the loop that looks for ".bss". -/
structure BssOk (i : ℕ) : Prop where
  name : b.Inside (shdrOf b i) Section.name
  bss : Comparable b (nameOf b i) bssName
  fields : matchesAt b (nameOf b i) bssName →
    b.Inside (shdrOf b i) Section.addr ∧ b.Inside (shdrOf b i) Section.size

/-- The sections with this name that are in use. -/
def sectionsNamed (name : List Byte) : List ℕ :=
  (List.range (sectionCount b)).filter fun i =>
    b.value (shdrOf b i) Section.type ≠ 0 && matchesAt b (nameOf b i) name

/-- There is a section with this name, and the contents of the last one, of as many bytes as its
size has modulo 2^32, lie inside the buffer. -/
def TableOk (name : List Byte) : Prop :=
  ∃ i, (sectionsNamed b name).getLast? = some i ∧
    b.BlockInside (b.value (shdrOf b i) Section.offset)
      (b.value (shdrOf b i) Section.size % 2 ^ 32)

/-- The loop of `elf_get_string_table` stops the task at a section behind the end. -/
def StopsTask : Prop :=
  ∃ i < sectionCount b, i ≤ b.value 0 Header.shstrndx ∧ b.size < shdrOf b i

structure TablesOk : Prop where
  index : b.value 0 Header.shstrndx < sectionCount b
  names : b.Inside (namesShdr b) Section.offset
  sections : ∀ i < sectionCount b, SectionOk b i
  strtab : TableOk b strtabName
  symtab : TableOk b symtabName
  bss : ∀ i < sectionCount b, BssOk b i

/-- The header of a segment lies inside the buffer; the region that is chosen for it, in the user
half; and if it is mapped, the contents in the buffer and where they go to in the user half. -/
def SegmentOk (s : Space × Bool) (i : ℕ) : Prop :=
  let seg := segmentBase b i
  let vaddr := b.value seg Segment.vaddr
  let filesz := b.value seg Segment.filesz
  let pages := pageAlignedSize vaddr (b.value seg Segment.memsz)
  b.Inside seg Segment.type ∧
    (b.value seg Segment.type = ptLoad →
      b.Inside seg Segment.offset ∧ b.Inside seg Segment.vaddr ∧ b.Inside seg Segment.memsz ∧
      ∀ chosen, selectVirtualAddress s.1.vas.ranges (vmPageBase vaddr) (pageAlign pages) =
          .ok chosen →
        UserHalf chosen (pageAlign pages) ∧
        ((vasAllocRange s.1.mem s.1.vas (vmPageBase vaddr) pages .readWrite .user).isOk →
          chosen = vmPageBase vaddr →
          b.Inside seg Segment.filesz ∧ b.BlockInside (b.value seg Segment.offset) filesz ∧
            UserHalf vaddr filesz))

/-- Every segment is as it should be in the address space that it is loaded into. -/
def SegmentsOk (space : Space) : Prop :=
  Meets (fun s i => (loadNext b s i).toOption) (SegmentOk b) (space, false)
    (List.range (b.value 0 Header.phnum))

/-- The fields of the header that are read lie inside the buffer, and if the header is valid: the
product of the section counts does not overflow, and the loader either stops at a section behind
the end or finds tables and segments as they should be. -/
def LoadsSafely (space : Space) : Prop :=
  FieldsInside b validatedFields ∧
    (Valid b →
      b.Inside 0 Header.shnum ∧
      b.value 0 Header.shentsize * b.value 0 Header.shnum < 2 ^ 31 ∧
      (0 < sectionCount b ∧ b.size < shdrOf b 0 ∨
        b.Inside 0 Header.shstrndx ∧ (StopsTask b ∨ TablesOk b ∧ SegmentsOk b space)))

end Conditions

/-! ### Reads, comparisons and checks -/

section Reads

variable {b : ElfBuffer} {α : Type}

theorem violation_bad (v : Violation) : (Stop.violation v).Bad := trivial

theorem not_bad_taskAssert (message : String) : ¬(Stop.taskAssert message).Bad := id

theorem not_bad_kernel (fault : Fault) : ¬(Stop.kernel fault).Bad := id

variable {base : ℕ} {f : Field}

theorem read_of_inside (h : b.Inside base f) : b.read base f = .ok (b.value base f) := if_pos h

theorem avoids_read_bind {g : ℕ → Except Stop α} :
    Avoids Stop.Bad (b.read base f >>= g) ↔
      b.Inside base f ∧ Avoids Stop.Bad (g (b.value base f)) := by
  unfold ElfBuffer.read
  split
  · rename_i h
    exact (and_iff_right h).symm
  · rename_i h
    exact ⟨fun hav => absurd (violation_bad _) (hav _ rfl), fun hav => absurd hav.1 h⟩

theorem avoids_taskAssert_bind {cond : Prop} [Decidable cond] {message : String}
    {g : Unit → Except Stop α} :
    Avoids Stop.Bad (taskAssert cond message >>= g) ↔ (cond → Avoids Stop.Bad (g ())) := by
  unfold taskAssert
  split
  · rename_i h
    exact ⟨fun hav _ => hav, fun hav => hav h⟩
  · rename_i h
    exact ⟨fun _ hc => absurd hc h, fun _ e he => by cases he; exact id⟩

theorem inside_header (hf : f.offset < 2 ^ 64) : b.Inside 0 f ↔ f.offset + f.size ≤ b.size := by
  unfold ElfBuffer.Inside ElfBuffer.address
  rw [Nat.zero_add, Nat.mod_eq_of_lt hf]

theorem strcmp_of_comparable : ∀ {name : List Byte} {addr : ℕ}, Comparable b addr name →
    b.strcmp addr name = .ok (matchesAt b addr name) := by
  intro name
  induction name with
  | nil => exact fun _ => rfl
  | cons c cs ih =>
    intro addr h
    rw [ElfBuffer.strcmp, if_pos h.1, matchesAt]
    by_cases hc : b.byteAt addr = c
    · rw [if_pos hc, ih (h.2 hc), decide_eq_true hc, Bool.true_and]
    · rw [if_neg hc, decide_eq_false hc, Bool.false_and]

theorem avoids_strcmp : ∀ {name : List Byte} {addr : ℕ},
    Avoids Stop.Bad (b.strcmp addr name) → Comparable b addr name := by
  intro name
  induction name with
  | nil => exact fun _ => trivial
  | cons c cs ih =>
    intro addr h
    rw [ElfBuffer.strcmp] at h
    split at h
    · rename_i hlt
      refine ⟨hlt, fun hc => ?_⟩
      rw [if_pos hc] at h
      exact ih h
    · exact absurd (violation_bad _) (h _ rfl)

theorem avoids_strcmp_bind {name : List Byte} {addr : ℕ} {g : Bool → Except Stop α} :
    Avoids Stop.Bad (b.strcmp addr name >>= g) ↔
      Comparable b addr name ∧ Avoids Stop.Bad (g (matchesAt b addr name)) := by
  rw [avoids_bind]
  constructor
  · rintro ⟨h, hg⟩
    have hcomp := avoids_strcmp h
    exact ⟨hcomp, hg _ (strcmp_of_comparable hcomp)⟩
  · rintro ⟨hcomp, hg⟩
    rw [strcmp_of_comparable hcomp]
    refine ⟨avoids_ok _, fun a ha => ?_⟩
    cases ha
    exact hg

end Reads

/-! ### The header -/

section HeaderChecks

variable {b : ElfBuffer}

theorem checkFields_append (l l' : List (Field × List ℕ)) :
    checkFields b (l ++ l') =
      checkFields b l >>= fun ok => if ok then checkFields b l' else .ok false := by
  induction l with
  | nil => rfl
  | cons p l ih =>
    obtain ⟨f, allowed⟩ := p
    rw [List.cons_append, checkFields, checkFields]
    unfold ElfBuffer.read
    split
    · show (if b.value 0 f ∈ allowed then checkFields b (l ++ l') else .ok false) =
        (if b.value 0 f ∈ allowed then checkFields b l else .ok false) >>= _
      split
      · exact ih
      · rfl
    · rfl

variable {l : List (Field × List ℕ)}

theorem checkFields_eq (h : FieldsInside b l) :
    ∃ valid, checkFields b l = .ok valid ∧ (valid = true ↔ ∀ p ∈ l, b.value 0 p.1 ∈ p.2) := by
  induction l with
  | nil => exact ⟨true, rfl, by simp⟩
  | cons p l ih =>
    obtain ⟨f, allowed⟩ := p
    obtain ⟨hinside, hrest⟩ := h
    rw [checkFields, read_of_inside hinside, List.forall_mem_cons]
    by_cases hmem : b.value 0 f ∈ allowed
    · obtain ⟨valid, hvalid, hiff⟩ := ih (hrest hmem)
      refine ⟨valid, ?_, by rw [hiff]; exact (and_iff_right hmem).symm⟩
      show (if b.value 0 f ∈ allowed then checkFields b l else .ok false) = _
      rw [if_pos hmem, hvalid]
    · refine ⟨false, ?_, ⟨fun h => absurd h Bool.false_ne_true, fun h => absurd h.1 hmem⟩⟩
      show (if b.value 0 f ∈ allowed then checkFields b l else .ok false) = _
      rw [if_neg hmem]

theorem avoids_checkFields : Avoids Stop.Bad (checkFields b l) → FieldsInside b l := by
  induction l with
  | nil => exact fun _ => trivial
  | cons p l ih =>
    rw [checkFields, avoids_read_bind]
    rintro ⟨hinside, hrest⟩
    refine ⟨hinside, fun hmem => ih ?_⟩
    rw [if_pos hmem] at hrest
    exact hrest

theorem elfValidateHeader_eq : elfValidateHeader b = checkFields b validatedFields :=
  (checkFields_append magicFields supportedFields).symm

theorem avoids_validated_bind {α : Type} {g : Unit → Except Stop α} :
    Avoids Stop.Bad (elfValidateHeader b >>= fun valid =>
        taskAssert (valid = true) "ELF header validation failed" >>= g) ↔
      FieldsInside b validatedFields ∧ (Valid b → Avoids Stop.Bad (g ())) := by
  rw [elfValidateHeader_eq, avoids_bind]
  constructor
  · rintro ⟨h, hrest⟩
    have hfields := avoids_checkFields h
    obtain ⟨valid, hvalid, hiff⟩ := checkFields_eq hfields
    exact ⟨hfields, fun hv => avoids_taskAssert_bind.mp (hrest valid hvalid) (hiff.mpr hv)⟩
  · rintro ⟨hfields, hrest⟩
    obtain ⟨valid, hvalid, hiff⟩ := checkFields_eq hfields
    rw [hvalid]
    refine ⟨avoids_ok _, fun a ha => ?_⟩
    cases ha
    exact avoids_taskAssert_bind.mpr fun hv => hrest (hiff.mp hv)

end HeaderChecks

/-! ### The string table -/

section StringTable

variable {b : ElfBuffer}

variable {α : Type}

theorem avoids_sectionLoop_bind {g : ℕ → Except Stop α} :
    Avoids Stop.Bad (sectionLoop b >>= g) ↔
      b.Inside 0 Header.shnum ∧
        b.value 0 Header.shentsize * b.value 0 Header.shnum < 2 ^ 31 ∧
        Avoids Stop.Bad (g (sectionCount b)) := by
  have hsize : b.Inside 0 Header.shnum → b.Inside 0 Header.shentsize := by
    exact fun h => le_trans (by decide) h
  unfold sectionLoop
  rw [bind_assoc, avoids_read_bind, bind_assoc, avoids_read_bind]
  by_cases hprod : b.value 0 Header.shentsize * b.value 0 Header.shnum < 2 ^ 31
  · rw [if_pos hprod]
    exact ⟨fun h => ⟨h.2.1, hprod, h.2.2⟩, fun h => ⟨hsize h.1, h.1, h.2.2⟩⟩
  · rw [if_neg hprod]
    refine ⟨fun h => ?_, fun h => absurd h.2.1 hprod⟩
    exact absurd (violation_bad _) (h.2.2 _ rfl)

theorem inside_of_shnum (hshnum : b.Inside 0 Header.shnum) {f : Field}
    (hf : f.offset + f.size ≤ 62) : b.Inside 0 f :=
  (inside_header (by omega)).mpr (hf.trans ((inside_header (by decide)).mp hshnum))

variable {g : Option ℕ → Except Stop α}

theorem avoids_stringTableFrom_succ (hshnum : b.Inside 0 Header.shnum) (n i : ℕ) :
    Avoids Stop.Bad (stringTableFrom b (n + 1) i >>= g) ↔
      (shdrOf b i ≤ b.size → b.Inside 0 Header.shstrndx ∧
        if i = b.value 0 Header.shstrndx then
          b.Inside (shdrOf b i) Section.offset ∧
            Avoids Stop.Bad (g (some (b.value (shdrOf b i) Section.offset)))
        else Avoids Stop.Bad (stringTableFrom b n (i + 1) >>= g)) := by
  rw [stringTableFrom, bind_assoc, avoids_read_bind, and_iff_right (inside_of_shnum hshnum
    (by decide)), bind_assoc, avoids_read_bind, and_iff_right (inside_of_shnum hshnum (by decide))]
  rw [bind_assoc, avoids_taskAssert_bind, bind_assoc, avoids_read_bind]
  split
  · rw [bind_assoc, avoids_read_bind]
    rfl
  · exact Iff.rfl

theorem avoids_stringTableFrom_bind (hshnum : b.Inside 0 Header.shnum)
    (hshstrndx : b.Inside 0 Header.shstrndx) :
    ∀ (n : ℕ) {i : ℕ}, i ≤ b.value 0 Header.shstrndx →
    (Avoids Stop.Bad (stringTableFrom b n i >>= g) ↔
      (∃ k, i ≤ k ∧ k < i + n ∧ k ≤ b.value 0 Header.shstrndx ∧ b.size < shdrOf b k) ∨
        (b.value 0 Header.shstrndx < i + n →
          b.Inside (shdrOf b (b.value 0 Header.shstrndx)) Section.offset) ∧
        Avoids Stop.Bad (g (if b.value 0 Header.shstrndx < i + n then
          some (b.value (shdrOf b (b.value 0 Header.shstrndx)) Section.offset) else none))) := by
  intro n
  induction n with
  | zero =>
    intro i hi
    rw [stringTableFrom, if_neg (by omega)]
    constructor
    · exact fun h => .inr ⟨fun hlt => by omega, h⟩
    · rintro (⟨k, hik, hk, _⟩ | h)
      · omega
      · exact h.2
  | succ n ih =>
    intro i hi
    rw [avoids_stringTableFrom_succ hshnum]
    by_cases hend : b.size < shdrOf b i
    · exact ⟨fun _ => .inl ⟨i, le_rfl, by omega, hi, hend⟩,
        fun _ h => absurd hend (Nat.not_lt.mpr h)⟩
    · rw [forall_prop_of_true (Nat.not_lt.mp hend), and_iff_right hshstrndx]
      by_cases hlast : i = b.value 0 Header.shstrndx
      · rw [if_pos hlast, if_pos (by omega), ← hlast]
        constructor
        · exact fun h => .inr ⟨fun _ => h.1, h.2⟩
        · rintro (⟨k, hik, _, hk, hkend⟩ | h)
          · exact absurd hkend (le_antisymm hik hk ▸ hend)
          · exact ⟨h.1 (by omega), h.2⟩
      · have hnext := ih (i := i + 1) (by omega)
        rw [show i + 1 + n = i + (n + 1) by omega] at hnext
        rw [if_neg hlast, hnext]
        refine or_congr_left ⟨?_, ?_⟩
        · rintro ⟨k, hik, hk⟩
          exact ⟨k, by omega, hk⟩
        · rintro ⟨k, hik, hk, hkle, hkend⟩
          refine ⟨k, Nat.lt_of_le_of_ne hik fun h => hend (h ▸ hkend), hk, hkle, hkend⟩

end StringTable

/-! ### The symbol table -/

section SymbolTable

variable {b : ElfBuffer}

/-- What is kept of a section. -/
def blockOf (b : ElfBuffer) (i : ℕ) : Block :=
  ⟨b.value (shdrOf b i) Section.offset, b.value (shdrOf b i) Section.size % 2 ^ 32⟩

/-- A section in use with this name. -/
def isNamed (b : ElfBuffer) (name : List Byte) (i : ℕ) : Bool :=
  b.value (shdrOf b i) Section.type ≠ 0 && matchesAt b (nameOf b i) name

/-- The table after one section. -/
def recorded (b : ElfBuffer) (elf : Symbols) (i : ℕ) : Symbols where
  strtab := if isNamed b strtabName i then some (blockOf b i) else elf.strtab
  symtab := if isNamed b symtabName i then some (blockOf b i) else elf.symtab

variable {i nameAddr : ℕ} {elf : Symbols} {α : Type}

theorem readSectionBlock_of_inside (hoffset : b.Inside (shdrOf b i) Section.offset)
    (hsize : b.Inside (shdrOf b i) Section.size) :
    readSectionBlock b (shdrOf b i) = .ok (blockOf b i) := by
  rw [readSectionBlock, read_of_inside hoffset, read_of_inside hsize]
  rfl

theorem avoids_readSectionBlock {shdr : ℕ} :
    Avoids Stop.Bad (readSectionBlock b shdr) ↔
      b.Inside shdr Section.offset ∧ b.Inside shdr Section.size := by
  rw [readSectionBlock, avoids_read_bind, avoids_read_bind]
  exact and_congr_right fun _ => and_iff_left (avoids_ok _)

theorem avoids_keepNamed {name : List Byte} {keep : Block → Symbols} :
    Avoids Stop.Bad (keepNamed b (shdrOf b i) nameAddr name keep elf) ↔
      Comparable b nameAddr name ∧ (matchesAt b nameAddr name = true →
        b.Inside (shdrOf b i) Section.offset ∧ b.Inside (shdrOf b i) Section.size) := by
  rw [keepNamed, avoids_strcmp_bind, avoids_ite, avoids_map, avoids_readSectionBlock]
  exact and_congr_right fun _ => and_iff_left fun _ => avoids_ok _

theorem keepNamed_eq {name : List Byte} (keep : Block → Symbols) (elf : Symbols)
    (hname : Comparable b nameAddr name) (hblock : matchesAt b nameAddr name = true →
      b.Inside (shdrOf b i) Section.offset ∧ b.Inside (shdrOf b i) Section.size) :
    keepNamed b (shdrOf b i) nameAddr name keep elf =
      .ok (if matchesAt b nameAddr name then keep (blockOf b i) else elf) := by
  rw [keepNamed, strcmp_of_comparable hname]
  show (if matchesAt b nameAddr name = true then _ else _) = _
  split
  · rename_i hm
    rw [readSectionBlock_of_inside (hblock hm).1 (hblock hm).2]
    rfl
  · rfl

theorem recordSection_of_sectionOk (h : SectionOk b i) (elf : Symbols) :
    recordSection b (b.value 0 Header.shentsize) (b.value (namesShdr b) Section.offset) elf i =
      .ok (recorded b elf i) := by
  unfold recordSection
  rw [show sectionBase b (i * b.value 0 Header.shentsize) = shdrOf b i from rfl]
  dsimp only
  rw [read_of_inside h.type]
  show (if b.value (shdrOf b i) Section.type = 0 then _ else _) = _
  by_cases htype : b.value (shdrOf b i) Section.type = 0
  · rw [if_pos htype, recorded, isNamed, isNamed, htype]
    rfl
  · rw [if_neg htype, read_of_inside (h.name htype)]
    show keepNamed b (shdrOf b i) (nameOf b i) strtabName _ elf >>= _ = _
    rw [keepNamed_eq _ _ (h.strtab htype) fun hm => h.block htype (.inl hm)]
    show keepNamed b (shdrOf b i) (nameOf b i) symtabName _ _ = _
    rw [keepNamed_eq _ _ (h.symtab htype) fun hm => h.block htype (.inr hm)]
    have hused : ∀ name, isNamed b name i = matchesAt b (nameOf b i) name := fun name => by
      rw [isNamed, decide_eq_true htype, Bool.true_and]
    rw [recorded, hused, hused]
    cases matchesAt b (nameOf b i) strtabName <;> cases matchesAt b (nameOf b i) symtabName <;> rfl

theorem sectionOk_of_avoids (h : Avoids Stop.Bad (recordSection b (b.value 0 Header.shentsize)
      (b.value (namesShdr b) Section.offset) elf i)) : SectionOk b i := by
  unfold recordSection at h
  rw [show sectionBase b (i * b.value 0 Header.shentsize) = shdrOf b i from rfl] at h
  rw [avoids_read_bind] at h
  obtain ⟨htype, h⟩ := h
  by_cases hzero : b.value (shdrOf b i) Section.type = 0
  · exact ⟨htype, fun hne => absurd hzero hne, fun hne => absurd hzero hne,
      fun hne => absurd hzero hne, fun hne => absurd hzero hne⟩
  · rw [if_neg hzero, avoids_read_bind, avoids_bind, avoids_keepNamed] at h
    obtain ⟨hname, ⟨hstrtab, hblock⟩, hrest⟩ := h
    have hlast := avoids_keepNamed.mp (hrest _ (keepNamed_eq _ _ hstrtab hblock))
    refine ⟨htype, fun _ => hname, fun _ => hstrtab, fun _ => hlast.1, ?_⟩
    rintro _ (hm | hm)
    · exact hblock hm
    · exact hlast.2 hm

theorem foldl_last {ι β : Type} (p : ι → Bool) (g : ι → β) : ∀ (l : List ι) (found : Option β),
    l.foldl (fun found i => if p i then some (g i) else found) found =
      ((l.filter p).getLast?.map g).or found := by
  intro l
  induction l with
  | nil => exact fun _ => rfl
  | cons i l ih =>
    intro found
    rw [List.foldl_cons, ih, List.filter_cons]
    by_cases hi : p i = true
    · rw [if_pos hi, if_pos hi, List.getLast?_cons]
      cases (l.filter p).getLast? <;> rfl
    · rw [if_neg hi, if_neg hi]

theorem foldl_recorded (l : List ℕ) :
    l.foldl (recorded b) ⟨none, none⟩ =
      ⟨(l.filter (isNamed b strtabName)).getLast?.map (blockOf b),
        (l.filter (isNamed b symtabName)).getLast?.map (blockOf b)⟩ := by
  have hstr : (l.foldl (recorded b) ⟨none, none⟩).strtab =
      (l.filter (isNamed b strtabName)).getLast?.map (blockOf b) := by
    rw [← @List.foldl_hom _ _ _ Symbols.strtab (recorded b) (fun found i =>
      if isNamed b strtabName i then some (blockOf b i) else found) l _ (fun _ _ => rfl), foldl_last,
      Option.or_none]
  have hsym : (l.foldl (recorded b) ⟨none, none⟩).symtab =
      (l.filter (isNamed b symtabName)).getLast?.map (blockOf b) := by
    rw [← @List.foldl_hom _ _ _ Symbols.symtab (recorded b) (fun found i =>
      if isNamed b symtabName i then some (blockOf b i) else found) l _ (fun _ _ => rfl), foldl_last,
      Option.or_none]
  rw [← hstr, ← hsym]

theorem avoids_copyTable (found : Option ℕ) :
    Avoids Stop.Bad (copyTable b (found.map (blockOf b))) ↔
      ∃ i, found = some i ∧ b.BlockInside (blockOf b i).offset (blockOf b i).size := by
  cases found with
  | none => exact ⟨fun h => absurd (violation_bad _) (h _ rfl), fun ⟨_, h, _⟩ => by cases h⟩
  | some i =>
    rw [Option.map_some, copyTable, ElfBuffer.readBlock]
    by_cases hin : b.BlockInside (blockOf b i).offset (blockOf b i).size
    · have hle : (blockOf b i).size ≤ b.size := by
        obtain h | h := hin
        · rw [h]
          exact Nat.zero_le _
        · omega
      rw [if_pos hle, if_pos hin]
      exact ⟨fun _ => ⟨i, rfl, hin⟩, fun _ => avoids_ok _⟩
    · constructor
      · intro h
        split at h <;> exact absurd (violation_bad _) (h _ rfl)
      · rintro ⟨j, hj, hin'⟩
        cases hj
        exact absurd hin' hin

variable {g : Symbols → Except Stop α}

/-- `_record_elf_symbol_table`, once the index of the names can be read. -/
theorem avoids_record_bind (hshnum : b.Inside 0 Header.shnum)
    (hprod : b.value 0 Header.shentsize * b.value 0 Header.shnum < 2 ^ 31)
    (hshstrndx : b.Inside 0 Header.shstrndx) :
    Avoids Stop.Bad (recordElfSymbolTable b >>= g) ↔
      b.Inside (namesShdr b) Section.offset ∧ (∀ i < sectionCount b, SectionOk b i) ∧
        Avoids Stop.Bad (g ⟨(sectionsNamed b strtabName).getLast?.map (blockOf b),
          (sectionsNamed b symtabName).getLast?.map (blockOf b)⟩) := by
  have hentsize : b.Inside 0 Header.shentsize := inside_of_shnum hshnum (by decide)
  have hshoff : b.Inside 0 Header.shoff := inside_of_shnum hshnum (by decide)
  have hrecorded : ∀ i ∈ List.range (sectionCount b), ∀ s, SectionOk b i → recordSection b
      (b.value 0 Header.shentsize) (b.value (namesShdr b) Section.offset) s i =
        .ok (recorded b s i) := fun i _ s h => recordSection_of_sectionOk h s
  have hloop : Avoids Stop.Bad ((List.range (sectionCount b)).foldlM (recordSection b
      (b.value 0 Header.shentsize) (b.value (namesShdr b) Section.offset)) ⟨none, none⟩) ↔
      ∀ i ∈ List.range (sectionCount b), SectionOk b i :=
    avoids_foldlM_iff_forall hrecorded fun i _ s h => sectionOk_of_avoids h
  rw [recordElfSymbolTable, bind_assoc, avoids_read_bind, and_iff_right hshoff, bind_assoc,
    avoids_read_bind, and_iff_right hshstrndx, bind_assoc, avoids_read_bind,
    and_iff_right hentsize, bind_assoc, avoids_read_bind, bind_assoc, avoids_sectionLoop_bind,
    and_iff_right hshnum, and_iff_right hprod]
  refine and_congr_right fun _ => ?_
  rw [avoids_bind]
  constructor
  · rintro ⟨h, hrest⟩
    have hall := hloop.mp h
    refine ⟨fun i hi => hall i (List.mem_range.mpr hi), ?_⟩
    have hvalue := hrest _ (foldlM_eq_foldl (fun i _ s h => recordSection_of_sectionOk h s) hall)
    rwa [foldl_recorded] at hvalue
  · rintro ⟨hall, hrest⟩
    have hall' : ∀ i ∈ List.range (sectionCount b), SectionOk b i :=
      fun i hi => hall i (List.mem_range.mp hi)
    refine ⟨hloop.mpr hall', fun a ha => ?_⟩
    have hsame := foldlM_eq_foldl (f := recordSection b (b.value 0 Header.shentsize)
      (b.value (namesShdr b) Section.offset)) (g := recorded b) (s := ⟨none, none⟩)
      (fun i _ s h => recordSection_of_sectionOk h s) hall'
    have hvalue := hsame.symm.trans ha
    rw [foldl_recorded, Except.ok.injEq] at hvalue
    rw [← hvalue]
    exact hrest

theorem shstrndx_of_avoids_record (h : Avoids Stop.Bad (recordElfSymbolTable b >>= g)) :
    b.Inside 0 Header.shstrndx := by
  rw [recordElfSymbolTable, bind_assoc, avoids_read_bind, bind_assoc, avoids_read_bind] at h
  exact h.2.1

end SymbolTable

/-! ### The loop that looks for ".bss" -/

section Bss

variable {b : ElfBuffer}

/-- The break after one section. -/
def afterSection (b : ElfBuffer) (s : Break) (i : ℕ) : Break :=
  if matchesAt b (nameOf b i) bssName then
    ⟨(b.value (shdrOf b i) Section.addr + b.value (shdrOf b i) Section.size) % 2 ^ 64,
      b.value (shdrOf b i) Section.addr⟩
  else s

variable {i : ℕ} {s : Break}

section

variable (hpass : shdrOf b i ≤ b.size)

include hpass

theorem bssSection_of_bssOk (h : BssOk b i) (s : Break) :
    bssSection b (b.value 0 Header.shentsize) (some (b.value (namesShdr b) Section.offset)) s i =
      .ok (afterSection b s i) := by
  unfold bssSection taskAssert
  rw [show sectionBase b (i * b.value 0 Header.shentsize) = shdrOf b i from rfl]
  dsimp only
  rw [if_pos hpass, read_of_inside h.name]
  show b.strcmp (nameOf b i) bssName >>= _ = _
  rw [strcmp_of_comparable h.bss]
  show (if matchesAt b (nameOf b i) bssName = true then _ else _) = _
  unfold afterSection
  split
  · rename_i hm
    rw [read_of_inside (h.fields hm).1, read_of_inside (h.fields hm).2]
    rfl
  · rfl

theorem bssOk_of_avoids (h : Avoids Stop.Bad (bssSection b (b.value 0 Header.shentsize)
      (some (b.value (namesShdr b) Section.offset)) s i)) : BssOk b i := by
  unfold bssSection at h
  rw [show sectionBase b (i * b.value 0 Header.shentsize) = shdrOf b i from rfl] at h
  rw [avoids_taskAssert_bind] at h
  have hnext := h hpass
  rw [avoids_read_bind, avoids_strcmp_bind] at hnext
  obtain ⟨hname, hbss, hrest⟩ := hnext
  refine ⟨hname, hbss, fun hm => ?_⟩
  rw [show (b.value (namesShdr b) Section.offset + b.value (shdrOf b i) Section.name) % 2 ^ 64 =
    nameOf b i from rfl, if_pos hm, avoids_read_bind, avoids_read_bind] at hrest
  exact ⟨hrest.1, hrest.2.1⟩

/-- Without a string table a name that is compared lies outside of the buffer. -/
theorem not_avoids_bssSection_none :
    ¬Avoids Stop.Bad (bssSection b (b.value 0 Header.shentsize) none s i) := by
  intro h
  unfold bssSection at h
  rw [avoids_taskAssert_bind] at h
  exact (avoids_read_bind.mp (h hpass)).2 _ rfl (violation_bad _)

end

theorem not_avoids_bssLoop_none (hpos : 0 < sectionCount b) (hpass : shdrOf b 0 ≤ b.size) :
    ¬Avoids Stop.Bad ((List.range (sectionCount b)).foldlM
      (bssSection b (b.value 0 Header.shentsize) none) s) := by
  obtain ⟨n, hn⟩ := Nat.exists_eq_succ_of_ne_zero hpos.ne'
  rw [hn, List.range_succ_eq_map, foldlM_cons_eq, avoids_bind]
  exact fun h => not_avoids_bssSection_none hpass h.1

end Bss

/-! ### Segments -/

section Segments

variable {b : ElfBuffer} {α : Type}

theorem avoids_liftKernel_bind {β : Type} {x : Except Fault β} {g : β → Except Stop α} :
    Avoids Stop.Bad (liftKernel x >>= g) ↔ ∀ a, x = .ok a → Avoids Stop.Bad (g a) := by
  cases x with
  | error fault => exact ⟨fun _ _ ha => (by cases ha), fun _ _ he => (by cases he; exact id)⟩
  | ok a => exact ⟨fun h _ ha => (by cases ha; exact h), fun h => h a rfl⟩

theorem avoids_userHalfOnly_bind {start size : ℕ} {g : Unit → Except Stop α} :
    Avoids Stop.Bad (userHalfOnly start size >>= g) ↔
      UserHalf start size ∧ Avoids Stop.Bad (g ()) := by
  unfold userHalfOnly
  split
  · rename_i h
    exact (and_iff_right h).symm
  · rename_i h
    exact ⟨fun hav => absurd (violation_bad _) (hav _ rfl), fun hav => absurd hav.1 h⟩

theorem avoids_readBlock_bind {offset size : ℕ} {g : List Byte → Except Stop α} :
    Avoids Stop.Bad (b.readBlock offset size >>= g) ↔
      b.BlockInside offset size ∧ Avoids Stop.Bad (g ((b.bytes.drop offset).take size)) := by
  unfold ElfBuffer.readBlock
  split
  · rename_i h
    exact (and_iff_right h).symm
  · rename_i h
    exact ⟨fun hav => absurd (violation_bad _) (hav _ rfl), fun hav => absurd hav.1 h⟩

/-- **One segment (proved).** -/
theorem avoids_loadNext (hphentsize : b.Inside 0 Header.phentsize) (s : Space × Bool) (i : ℕ) :
    Avoids Stop.Bad (loadNext b s i) ↔ SegmentOk b s i := by
  rw [loadNext, avoids_read_bind, and_iff_right hphentsize, avoids_bind,
    and_iff_left fun _ _ => avoids_ok _, elfLoadSegment, avoids_read_bind, SegmentOk]
  refine and_congr_right fun _ => ?_
  by_cases htype : b.value (segmentBase b i) Segment.type = ptLoad
  · rw [if_pos htype, forall_prop_of_true htype, avoids_read_bind, avoids_read_bind,
      avoids_read_bind]
    rw [avoids_liftKernel_bind]
    refine and_congr_right fun _ => and_congr_right fun _ => and_congr_right fun _ =>
      forall₂_congr fun chosen hchosen => ?_
    rw [avoids_userHalfOnly_bind, avoids_liftKernel_bind]
    refine and_congr_right fun _ => ?_
    have hlast : ∀ mapped : PhysMem × Vas,
        Avoids Stop.Bad (if chosen = vmPageBase (b.value (segmentBase b i) Segment.vaddr) then do
            let filesz ← b.read (segmentBase b i) Segment.filesz
            let _ ← b.readBlock (b.value (segmentBase b i) Segment.offset) filesz
            userHalfOnly (b.value (segmentBase b i) Segment.vaddr) filesz
            (.ok (⟨mapped.1, mapped.2⟩, true) : Except Stop (Space × Bool))
          else .error (.kernel .panic)) ↔
        (chosen = vmPageBase (b.value (segmentBase b i) Segment.vaddr) →
          b.Inside (segmentBase b i) Segment.filesz ∧
          b.BlockInside (b.value (segmentBase b i) Segment.offset)
            (b.value (segmentBase b i) Segment.filesz) ∧
          UserHalf (b.value (segmentBase b i) Segment.vaddr)
            (b.value (segmentBase b i) Segment.filesz)) := by
      intro mapped
      rw [avoids_ite, avoids_read_bind, avoids_readBlock_bind, avoids_userHalfOnly_bind,
        and_iff_left (avoids_ok _)]
      exact and_iff_left fun _ => (avoids_error _).mpr (not_bad_kernel _)
    simp only [hlast]
    cases vasAllocRange s.1.mem s.1.vas (vmPageBase (b.value (segmentBase b i) Segment.vaddr))
      (pageAlignedSize (b.value (segmentBase b i) Segment.vaddr)
        (b.value (segmentBase b i) Segment.memsz)) .readWrite .user with
    | error fault => exact ⟨fun _ h => absurd h Bool.false_ne_true, fun _ _ ha => (by cases ha)⟩
    | ok mapped => exact ⟨fun h _ => h mapped rfl, fun h _ _ => h rfl⟩
  · rw [if_neg htype]
    exact ⟨fun _ h => absurd h htype, fun _ => avoids_ok _⟩

theorem avoids_elfLoadSmall_bind (hshnum : b.Inside 0 Header.shnum) (space : Space)
    {g : Space × ℕ → Except Stop α} (hg : ∀ loaded, Avoids Stop.Bad (g loaded)) :
    Avoids Stop.Bad (elfLoadSmall b space >>= g) ↔ SegmentsOk b space := by
  have hphentsize : b.Inside 0 Header.phentsize := inside_of_shnum hshnum (by decide)
  have hphoff : b.Inside 0 Header.phoff := inside_of_shnum hshnum (by decide)
  have hphnum : b.Inside 0 Header.phnum := inside_of_shnum hshnum (by decide)
  have hentry : b.Inside 0 Header.entry := inside_of_shnum hshnum (by decide)
  have hloop : Avoids Stop.Bad
      ((List.range (b.value 0 Header.phnum)).foldlM (loadNext b) (space, false)) ↔
      SegmentsOk b space := by
    rw [avoids_foldlM_iff_meets]
    exact Meets.congr (avoids_loadNext hphentsize) _ _
  have hend : ∀ s : Space × Bool, Avoids Stop.Bad ((if s.2 then do
      let entry ← b.read 0 Header.entry
      .ok (s.1, entry) else .ok (s.1, 0) : Except Stop (Space × ℕ)) >>= g) := by
    intro s
    split
    · rw [bind_assoc, avoids_read_bind]
      exact ⟨hentry, hg _⟩
    · exact hg _
  rw [elfLoadSmall, bind_assoc, avoids_read_bind, and_iff_right hphoff, bind_assoc,
    avoids_read_bind, and_iff_right hphnum, bind_assoc, avoids_taskAssert_bind, bind_assoc,
    avoids_bind, hloop]
  constructor
  · intro h
    by_cases hpos : 0 < b.value 0 Header.phnum
    · exact (h hpos).1
    · rw [SegmentsOk, Nat.eq_zero_of_not_pos hpos]
      trivial
  · exact fun h _ => ⟨h, fun s _ => hend s⟩

end Segments

/-! ### The loader -/

section Loader

variable {b : ElfBuffer}

theorem intProduct_of_lt {x y : ℕ} (h : x * y < 2 ^ 31) : intProduct x y = x * y := by
  unfold intProduct
  have hval : (BitVec.ofNat 32 (x * y)).toNat = x * y := by
    rw [BitVec.toNat_ofNat]
    omega
  have hmsb : (BitVec.ofNat 32 (x * y)).msb = false := by
    rw [BitVec.msb_eq_decide, hval]
    exact decide_eq_false (by omega)
  rw [BitVec.signExtend_eq_setWidth_of_msb_false hmsb, BitVec.toNat_setWidth, hval]
  omega

variable {i : ℕ} {P : Prop} {α : Type}

section

variable (hprod : b.value 0 Header.shentsize * b.value 0 Header.shnum < 2 ^ 31)

include hprod

/-- An index below the number of sections times their size does not overflow. -/
theorem mul_shentsize_lt (hi : i < sectionCount b) : i * b.value 0 Header.shentsize < 2 ^ 31 := by
  unfold sectionCount at hi
  split at hi
  · exact absurd hi (Nat.not_lt_zero i)
  · calc i * b.value 0 Header.shentsize
        ≤ b.value 0 Header.shnum * b.value 0 Header.shentsize := Nat.mul_le_mul_right _ hi.le
      _ < 2 ^ 31 := by rwa [Nat.mul_comm]

theorem namesShdr_eq (hindex : b.value 0 Header.shstrndx < sectionCount b) :
    namesShdr b = shdrOf b (b.value 0 Header.shstrndx) := by
  rw [namesShdr, intProduct_of_lt (mul_shentsize_lt hprod hindex), shdrOf]

/-- A section whose type is read inside the buffer passes the check of the loops. -/
theorem shdrOf_le (hfirst : shdrOf b 0 ≤ b.size) (hi : i < sectionCount b) (h : SectionOk b i) :
    shdrOf b i ≤ b.size := by
  have hlt := mul_shentsize_lt hprod hi
  have hsize : b.size < 2 ^ 32 := b.length_lt
  have htype := h.type
  unfold ElfBuffer.Inside ElfBuffer.address Section.type at htype
  unfold shdrOf sectionBase at *
  dsimp only at htype
  omega

end

theorem avoids_copyTable_bind {found : Option ℕ} {g : List Byte → Except Stop α}
    (hg : ∀ bytes, Avoids Stop.Bad (g bytes) ↔ P) :
    Avoids Stop.Bad (copyTable b (found.map (blockOf b)) >>= g) ↔
      (∃ i, found = some i ∧ b.BlockInside (blockOf b i).offset (blockOf b i).size) ∧ P := by
  rw [avoids_bind, avoids_copyTable]
  refine and_congr_right ?_
  rintro ⟨i, rfl, hin⟩
  have hvalue : ∃ bytes, copyTable b ((some i).map (blockOf b)) = .ok bytes := by
    have hav := (avoids_copyTable (some i)).mpr ⟨i, rfl, hin⟩
    rw [Option.map_some, copyTable, ElfBuffer.readBlock, if_pos hin] at hav ⊢
    split at hav
    · rename_i hle
      exact ⟨_, if_pos hle⟩
    · exact absurd (violation_bad _) (hav _ rfl)
  obtain ⟨bytes, hbytes⟩ := hvalue
  exact ⟨fun h => (hg bytes).mp (h bytes hbytes), fun h a _ => (hg a).mpr h⟩

/-- The loop that looks for ".bss", and what comes after it. -/
theorem avoids_bssLoop_bind (hpass : ∀ i < sectionCount b, shdrOf b i ≤ b.size)
    {g : Break → Except Stop α} (hg : ∀ brk, Avoids Stop.Bad (g brk) ↔ P) :
    Avoids Stop.Bad ((List.range (sectionCount b)).foldlM (bssSection b
        (b.value 0 Header.shentsize) (some (b.value (namesShdr b) Section.offset))) ⟨0, 0⟩ >>= g) ↔
      (∀ i < sectionCount b, BssOk b i) ∧ P := by
  have hok : ∀ i ∈ List.range (sectionCount b), ∀ s, BssOk b i → bssSection b
      (b.value 0 Header.shentsize) (some (b.value (namesShdr b) Section.offset)) s i =
        .ok (afterSection b s i) := fun i hi s h =>
    bssSection_of_bssOk (hpass i (List.mem_range.mp hi)) h s
  have hloop : Avoids Stop.Bad ((List.range (sectionCount b)).foldlM (bssSection b
      (b.value 0 Header.shentsize) (some (b.value (namesShdr b) Section.offset))) ⟨0, 0⟩) ↔
      ∀ i ∈ List.range (sectionCount b), BssOk b i :=
    avoids_foldlM_iff_forall hok fun i hi s h => bssOk_of_avoids (hpass i (List.mem_range.mp hi)) h
  rw [avoids_bind, hloop]
  constructor
  · rintro ⟨hall, hrest⟩
    refine ⟨fun i hi => hall i (List.mem_range.mpr hi), ?_⟩
    exact (hg _).mp (hrest _ (foldlM_eq_foldl hok hall))
  · rintro ⟨hall, hP⟩
    exact ⟨fun i hi => hall i (List.mem_range.mp hi), fun a _ => (hg a).mpr hP⟩

/-- **What follows the string table (proved)**, when the loop has not stopped the task. -/
theorem avoids_loadWithNames (hshnum : b.Inside 0 Header.shnum)
    (hprod : b.value 0 Header.shentsize * b.value 0 Header.shnum < 2 ^ 31)
    (hshstrndx : b.Inside 0 Header.shstrndx) (hstops : ¬StopsTask b) (space : Space) :
    Avoids Stop.Bad (loadWithNames b space (if b.value 0 Header.shstrndx < sectionCount b then
        some (b.value (shdrOf b (b.value 0 Header.shstrndx)) Section.offset) else none)) ↔
      TablesOk b ∧ SegmentsOk b space := by
  have hentsize : b.Inside 0 Header.shentsize := inside_of_shnum hshnum (by decide)
  have hfirst : 0 < sectionCount b → shdrOf b 0 ≤ b.size := fun hpos =>
    Nat.not_lt.mp fun hend => hstops ⟨0, hpos, Nat.zero_le _, hend⟩
  have hend : ∀ (strtab symtab : List Byte) (brk : Break), Avoids Stop.Bad (do
      let loaded ← elfLoadSmall b space
      taskAssert (loaded.2 ≠ 0) "Failed to find an ELF entry point"
      (.ok ⟨loaded.1, strtab, symtab, brk, loaded.2⟩ : Except Stop Loaded)) ↔
      SegmentsOk b space := fun strtab symtab brk =>
    avoids_elfLoadSmall_bind hshnum space fun _ => avoids_taskAssert_bind.mpr fun _ => avoids_ok _
  rw [loadWithNames, avoids_record_bind hshnum hprod hshstrndx]
  by_cases hindex : b.value 0 Header.shstrndx < sectionCount b
  · rw [if_pos hindex, ← namesShdr_eq hprod hindex]
    have hpass : (∀ i < sectionCount b, SectionOk b i) →
        ∀ i < sectionCount b, shdrOf b i ≤ b.size := fun hall i hi =>
      shdrOf_le hprod (hfirst (Nat.zero_lt_of_lt hi)) hi (hall i hi)
    constructor
    · rintro ⟨hnames, hall, hrest⟩
      rw [avoids_copyTable_bind fun strtab => avoids_copyTable_bind fun symtab => by
        rw [avoids_sectionLoop_bind, avoids_read_bind,
          avoids_bssLoop_bind (hpass hall) (hend strtab symtab)]] at hrest
      obtain ⟨hstr, hsym, _, _, _, hbss, hsegments⟩ := hrest
      exact ⟨⟨hindex, hnames, hall, hstr, hsym, hbss⟩, hsegments⟩
    · rintro ⟨⟨_, hnames, hall, hstr, hsym, hbss⟩, hsegments⟩
      refine ⟨hnames, hall, ?_⟩
      rw [avoids_copyTable_bind fun strtab => avoids_copyTable_bind fun symtab => by
        rw [avoids_sectionLoop_bind, avoids_read_bind,
          avoids_bssLoop_bind (hpass hall) (hend strtab symtab)]]
      exact ⟨hstr, hsym, hshnum, hprod, hentsize, hbss, hsegments⟩
  · rw [if_neg hindex]
    refine ⟨fun h => ?_, fun h => absurd h.1.index hindex⟩
    obtain ⟨_, hall, hrest⟩ := h
    -- a table has been found, so there is a section whose name is compared
    obtain ⟨i, hi, _⟩ := (avoids_copyTable _).mp (avoids_bind.mp hrest).1
    have hpos : 0 < sectionCount b :=
      Nat.zero_lt_of_lt (List.mem_range.mp (List.mem_of_mem_filter (List.mem_of_getLast? hi)))
    rw [avoids_copyTable_bind fun strtab => avoids_copyTable_bind (P := False) fun symtab => by
      rw [avoids_sectionLoop_bind, avoids_read_bind, avoids_bind, iff_false]
      exact fun h => not_avoids_bssLoop_none hpos (hfirst hpos) h.2.2.2.1] at hrest
    exact absurd hrest.2.2 not_false

theorem forall_ne_violation_iff {x : Except Stop α} :
    (∀ v, x ≠ .error (.violation v)) ↔ Avoids Stop.Bad x := by
  constructor
  · intro h e he
    cases e with
    | violation v => exact absurd he (h v)
    | taskAssert message => exact not_bad_taskAssert message
    | kernel fault => exact not_bad_kernel fault
  · exact fun h v hv => h _ hv (violation_bad v)

/-- **The loader is harmless if and only if the buffer loads safely (proved).** -/
theorem elf_load_iff (b : ElfBuffer) (space : Space) :
    (∀ v, elfLoadBuffer b space ≠ .error (.violation v)) ↔ LoadsSafely b space := by
  rw [forall_ne_violation_iff, elfLoadBuffer, avoids_validated_bind, LoadsSafely]
  refine and_congr_right fun _ => forall_congr' fun _ => ?_
  rw [elfGetStringTable, bind_assoc, avoids_sectionLoop_bind]
  refine and_congr_right fun hshnum => and_congr_right fun hprod => ?_
  by_cases hshstrndx : b.Inside 0 Header.shstrndx
  · rw [avoids_stringTableFrom_bind hshnum hshstrndx (sectionCount b) (Nat.zero_le _)]
    simp only [Nat.zero_add, Nat.zero_le, true_and]
    by_cases hstops : StopsTask b
    · exact ⟨fun _ => .inr ⟨hshstrndx, .inl hstops⟩, fun _ => .inl hstops⟩
    · rw [avoids_loadWithNames hshnum hprod hshstrndx hstops]
      constructor
      · rintro (h | h)
        · exact absurd h hstops
        · exact .inr ⟨hshstrndx, .inr h.2⟩
      · rintro (⟨hpos, hend⟩ | ⟨_, h | h⟩)
        · exact absurd ⟨0, hpos, Nat.zero_le _, hend⟩ hstops
        · exact absurd h hstops
        · refine .inr ⟨fun hindex => ?_, h⟩
          rw [← namesShdr_eq hprod hindex]
          exact h.1.names
  · rw [or_iff_left fun h => hshstrndx h.1]
    by_cases hpos : 0 < sectionCount b
    · obtain ⟨n, hn⟩ := Nat.exists_eq_succ_of_ne_zero hpos.ne'
      rw [and_iff_right hpos, hn, avoids_stringTableFrom_succ hshnum]
      constructor
      · exact fun h => Nat.not_le.mp fun hfirst => hshstrndx (h hfirst).1
      · exact fun hend hfirst => absurd hend (Nat.not_lt.mpr hfirst)
    · rw [Nat.eq_zero_of_not_pos hpos, stringTableFrom]
      constructor
      · exact fun h => absurd (shstrndx_of_avoids_record h) hshstrndx
      · exact fun h => absurd h.1 (Nat.lt_irrefl 0)

end Loader

/-! ### A segment for the kernel -/

def toLe (size v : ℕ) : List Byte := (List.range size).map fun i => BitVec.ofNat 8 (v / 256 ^ i)

/-- A file of 264 bytes: the header, one segment of a page for 0xffff800000000000 with the first
eight bytes of the file, a section ".strtab", and an empty section ".symtab". -/
def kernelSegment : ElfBuffer where
  bytes :=
    [0x7f, 69, 76, 70, 2, 1, 1, 0] ++ toLe 8 0 ++ toLe 2 2 ++ toLe 2 0x3e ++ toLe 4 1 ++
      toLe 8 0xffff800000000000 ++ toLe 8 64 ++ toLe 8 120 ++ toLe 4 0 ++ toLe 2 64 ++ toLe 2 56 ++
      toLe 2 1 ++ toLe 2 64 ++ toLe 2 2 ++ toLe 2 0 ++
    (toLe 4 1 ++ toLe 4 7 ++ toLe 8 0 ++ toLe 8 0xffff800000000000 ++ toLe 8 0 ++ toLe 8 8 ++
      toLe 8 0x1000 ++ toLe 8 0x1000) ++
    (toLe 4 0 ++ toLe 4 3 ++ toLe 8 0 ++ toLe 8 0 ++ toLe 8 248 ++ toLe 8 16 ++ toLe 24 0) ++
    (toLe 4 8 ++ toLe 4 2 ++ toLe 8 0 ++ toLe 8 0 ++ toLe 8 0 ++ toLe 8 0 ++ toLe 24 0) ++
    strtabName ++ symtabName
  length_lt := by decide +kernel

/-- The address space of a new task, without ranges. -/
def newSpace : Space := ⟨⟨fun _ _ => .zero, []⟩, ⟨0, 128, []⟩⟩

def violationOf {α : Type} : Except Stop α → Option Violation
  | .error (.violation v) => some v
  | _ => none

/-- The loader asks for a page of the kernel half to map the segment to. -/
theorem kernelSegment_mapped :
    violationOf (elfLoadBuffer kernelSegment newSpace) = some .upperHalf := by
  decide +kernel

end Axle.Kernel.ElfLoader
