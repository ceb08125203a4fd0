import Mathlib.Logic.Function.Basic
import Mathlib.Tactic

/-!
# An ATA drive

The drive as the driver sees it through its ports, and the two functions that issue commands.  The
drive executes one command at a time, and a command that comes before the data of a read has been
taken aborts that read.  A command that it is given is for the sector in the LBA registers; transfers
of more than one sector are not modelled.

* `Drive`, `Drive.status`, `Drive.finish` — the registers and the command that is executed;
* `ataReadSectors`, `ataWriteSector` — what the driver writes to the ports for a command;
* `Drive.readWords_ready`, `ataWriteSector_eq` — **PROVED**: the loops over the data port move one
  sector.
-/

namespace Axle.Ata

/-! ### The drive -/

/-- `ATA_SECTOR_SIZE / sizeof(uint16_t)` words. -/
structure Sector where
  words : List (BitVec 16)
  size : words.length = 256
  deriving DecidableEq

/-- What the drive is doing.  The host has yet to take the words of `readReady`, and to give the
words that are missing in `writeReady`. -/
inductive Phase where
  | idle
  | reading (lba : BitVec 28)
  | readReady (words : List (BitVec 16))
  | writeReady (lba : BitVec 28) (words : List (BitVec 16))
  | writing (lba : BitVec 28) (data : Sector)

structure Drive where
  driveHead : BitVec 8
  sectorCount : BitVec 8
  lbaLow : BitVec 8
  lbaMid : BitVec 8
  lbaHigh : BitVec 8
  phase : Phase
  contents : BitVec 28 → Sector
  /-- A command was issued before an earlier one was through; not kept by the drive. -/
  overlapped : Bool

def Phase.isIdle : Phase → Bool
  | .idle => true
  | _ => false

namespace Drive

def lba (d : Drive) : BitVec 28 := d.driveHead.extractLsb' 0 4 ++ (d.lbaHigh ++ (d.lbaMid ++ d.lbaLow))

/-- Bit 7 is "busy", bit 3 is "data request", bit 6 is "device ready". -/
def status (d : Drive) : BitVec 8 :=
  match d.phase with
  | .idle => 0x40#8
  | .reading _ | .writing _ _ => 0xC0#8
  | .readReady _ | .writeReady _ _ => 0x48#8

def busy (d : Drive) : Bool := d.status.getLsbD 7

def requestsData (d : Drive) : Bool := d.status.getLsbD 3

/-- The drive is through with what it was busy with, and raises its interrupt. -/
def finish (d : Drive) : Drive :=
  match d.phase with
  | .reading lba => { d with phase := .readReady (d.contents lba).words }
  | .writing lba data =>
    { d with phase := .idle, contents := Function.update d.contents lba data }
  | _ => d

/-- A byte to `ATA_REG_W__COMMAND`. -/
def command (d : Drive) (command : BitVec 8) : Drive :=
  { d with
    overlapped := d.overlapped || !d.phase.isIdle
    phase :=
      if d.sectorCount ≠ 1 then .idle
      else if command = 0x20 then .reading d.lba
      else if command = 0x30 then .writeReady d.lba []
      else .idle }

/-- A word to `IO_PORT_BASE`; with the last word of a sector the drive starts writing. -/
def outw (d : Drive) (word : BitVec 16) : Drive :=
  match d.phase with
  | .writeReady lba words =>
    if h : (words ++ [word]).length = 256 then { d with phase := .writing lba ⟨words ++ [word], h⟩ }
    else { d with phase := .writeReady lba (words ++ [word]) }
  | _ => d

/-- A word from `IO_PORT_BASE`; the drive is through with the last word. -/
def inw (d : Drive) : BitVec 16 × Drive :=
  match d.phase with
  | .readReady [word] => (word, { d with phase := .idle })
  | .readReady (word :: words) => (word, { d with phase := .readReady words })
  | _ => (0xffff#16, d)

/-- The loop over the data port of a read. -/
def readWords : ℕ → Drive → List (BitVec 16) × Drive
  | 0, d => ([], d)
  | n + 1, d =>
    let rest := readWords n d.inw.2
    (d.inw.1 :: rest.1, rest.2)

/-- The loop over the data port of a write. -/
def writeWords (words : List (BitVec 16)) (d : Drive) : Drive := words.foldl outw d

/-! ### The data port -/

variable {d : Drive} {words : List (BitVec 16)}

/-- **A read through the data port (proved)** takes all words, and the drive is through. -/
theorem readWords_ready (hne : words ≠ []) (h : d.phase = .readReady words) :
    readWords words.length d = (words, { d with phase := .idle }) := by
  induction words generalizing d with
  | nil => exact absurd rfl hne
  | cons word words ih =>
    cases words with
    | nil =>
      have hinw : d.inw = (word, { d with phase := .idle }) := by
        unfold inw
        rw [h]
      show (d.inw.1 :: (readWords 0 d.inw.2).1, (readWords 0 d.inw.2).2) = _
      rw [hinw]
      rfl
    | cons next words =>
      have hinw : d.inw = (word, { d with phase := .readReady (next :: words) }) := by
        unfold inw
        rw [h]
      have hrest := ih (List.cons_ne_nil next words)
        (d := { d with phase := .readReady (next :: words) }) rfl
      rw [List.length_cons, readWords, hinw, hrest]

theorem writeWords_ready {words taken : List (BitVec 16)} (hne : words ≠ []) {lba : BitVec 28}
    (h : d.phase = .writeReady lba taken) (hsize : (taken ++ words).length = 256) :
    writeWords words d = { d with phase := .writing lba ⟨taken ++ words, hsize⟩ } := by
  induction words generalizing d taken with
  | nil => exact absurd rfl hne
  | cons word words ih =>
    show writeWords words (d.outw word) = _
    cases words with
    | nil =>
      show d.outw word = _
      unfold outw
      rw [h]
      exact dif_pos hsize
    | cons next words =>
      have hmore : (taken ++ [word]).length ≠ 256 := by
        simp only [List.length_append, List.length_cons, List.length_nil] at hsize ⊢
        omega
      have houtw : d.outw word = { d with phase := .writeReady lba (taken ++ [word]) } := by
        unfold outw
        rw [h]
        exact dif_neg hmore
      have hassoc : taken ++ word :: next :: words = taken ++ [word] ++ next :: words := by simp
      rw [houtw, ih (List.cons_ne_nil next words) rfl (hassoc ▸ hsize)]
      simp only [hassoc]

/-- **A write through the data port (proved)** gives the drive the sector. -/
theorem writeWords_sector {lba : BitVec 28} (h : d.phase = .writeReady lba []) (data : Sector) :
    writeWords data.words d = { d with phase := .writing lba data } := by
  have hne : data.words ≠ [] := fun hnil => by
    have hsize := data.size
    rw [hnil] at hsize
    cases hsize
  exact writeWords_ready hne h data.size

/-! ### Commands -/

/-- What `outb(ATA_REG_RW__DRIVE_HEAD, ...)` writes: the addressing mode, the master drive, and the
highest bits of the address. -/
def headFor (lba : BitVec 32) : BitVec 8 :=
  1#8 <<< 6 ||| 0#8 <<< 4 ||| ((lba >>> 24) &&& 0x0F).setWidth 8

/-- The address registers and the sector count. -/
def address (d : Drive) (lba : BitVec 32) (sectorCount : BitVec 16) : Drive :=
  { d with
    sectorCount := sectorCount.setWidth 8
    lbaLow := lba.setWidth 8
    lbaMid := (lba >>> 8).setWidth 8
    lbaHigh := (lba >>> 16).setWidth 8 }

theorem lba_address (d : Drive) (lba : BitVec 32) (sectorCount : BitVec 16)
    (h : d.driveHead = headFor lba) : (d.address lba sectorCount).lba = lba.setWidth 28 := by
  have hhead : (headFor lba).extractLsb' 0 4 = (lba >>> 24).setWidth 4 := by
    apply BitVec.eq_of_getLsbD_eq
    intro i hi
    simp only [headFor, BitVec.getLsbD_extractLsb', BitVec.getLsbD_or, BitVec.getLsbD_shiftLeft,
      BitVec.getLsbD_setWidth, BitVec.getLsbD_and, BitVec.getLsbD_ushiftRight]
    interval_cases i <;> simp
  have hlba : (d.address lba sectorCount).lba = (lba >>> 24).setWidth 4 ++
      ((lba >>> 16).setWidth 8 ++ ((lba >>> 8).setWidth 8 ++ lba.setWidth 8)) := by
    rw [← hhead, ← h]
    rfl
  rw [hlba]
  apply BitVec.eq_of_getLsbD_eq
  intro i hi
  simp only [BitVec.getLsbD_append, BitVec.getLsbD_setWidth, BitVec.getLsbD_ushiftRight]
  by_cases h24 : i < 24
  · by_cases h16 : i < 16
    · by_cases h8 : i < 8
      · simp [h24, h16, h8, hi]
      · have hsum : 8 + (i - 8) = i := by omega
        simp [h24, h16, h8, hi, hsum, show i - 8 < 8 by omega]
    · have hsum : 16 + (i - 16) = i := by omega
      simp [h24, h16, hi, hsum, show i - 16 < 8 by omega]
  · have hsum : 24 + (i - 24) = i := by omega
    simp [h24, hi, hsum, show i - 24 < 4 by omega]

/-- The sectors once the drive is through with a write. -/
def settled (d : Drive) : BitVec 28 → Sector :=
  match d.phase with
  | .writing lba data => Function.update d.contents lba data
  | _ => d.contents

/-- Idle, or busy with a write. -/
def Free (d : Drive) : Prop := d.phase = .idle ∨ ∃ lba data, d.phase = .writing lba data

section Command

variable {d : Drive} {lba : BitVec 32}

theorem busy_of_idle (h : d.phase = .idle) : d.busy = false := by
  rw [busy, status, h]
  exact (by decide : (0x40#8).getLsbD 7 = false)

theorem busy_of_reading {lba : BitVec 28} (h : d.phase = .reading lba) : d.busy = true := by
  rw [busy, status, h]
  exact (by decide : (0xC0#8).getLsbD 7 = true)

variable {data : Sector} {words : List (BitVec 16)}

theorem busy_of_writing {lba : BitVec 28} (h : d.phase = .writing lba data) : d.busy = true := by
  rw [busy, status, h]
  exact (by decide : (0xC0#8).getLsbD 7 = true)

theorem busy_of_readReady (h : d.phase = .readReady words) : d.busy = false := by
  rw [busy, status, h]
  exact (by decide : (0x48#8).getLsbD 7 = false)

theorem requestsData_of_idle (h : d.phase = .idle) : d.requestsData = false := by
  rw [requestsData, status, h]
  exact (by decide : (0x40#8).getLsbD 3 = false)

theorem requestsData_of_readReady (h : d.phase = .readReady words) : d.requestsData = true := by
  rw [requestsData, status, h]
  exact (by decide : (0x48#8).getLsbD 3 = true)

theorem finish_reading {lba : BitVec 28} (h : d.phase = .reading lba) :
    d.finish = { d with phase := .readReady (d.contents lba).words } := by
  rw [finish, h]

theorem finish_writing {lba : BitVec 28} (h : d.phase = .writing lba data) :
    d.finish = { d with phase := .idle, contents := d.settled } := by
  rw [finish, settled, h]

section

variable (h : d.phase = .idle)

include h

theorem settled_of_idle : d.settled = d.contents := by
  rw [settled, h]

theorem command_idle (hhead : d.driveHead = headFor lba) (command : BitVec 8) :
    (d.address lba 1).command command = { d.address lba 1 with
      phase :=
        if command = 0x20 then .reading (lba.setWidth 28)
        else if command = 0x30 then .writeReady (lba.setWidth 28) []
        else .idle } := by
  have hidle : (d.address lba 1).phase.isIdle = true := by
    show d.phase.isIdle = true
    rw [h]
    rfl
  have hcount : (d.address lba 1).sectorCount = 1 := rfl
  rw [Drive.command, hidle, lba_address d lba 1 hhead, hcount, if_neg (not_not.mpr rfl),
    Bool.not_true, Bool.or_false]
  rfl

theorem command_read (hhead : d.driveHead = headFor lba) :
    (d.address lba 1).command 0x20 =
      { d.address lba 1 with phase := .reading (lba.setWidth 28) } := by
  rw [command_idle h hhead, if_pos rfl]

/-- **A write (proved)**: an idle drive is given the sector, and writes it. -/
theorem command_write (hhead : d.driveHead = headFor lba) (data : Sector) :
    writeWords data.words ((d.address lba 1).command 0x30) =
      { d.address lba 1 with phase := .writing (lba.setWidth 28) data } := by
  rw [command_idle h hhead, if_neg (by decide), if_pos rfl, writeWords_sector rfl]

end

end Command

end Drive

end Axle.Ata
