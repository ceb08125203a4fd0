import Axle.Lib.StepRun
import Mathlib.Data.BitVec

/-!
# Cartridges of the Game Boy emulator

`GameRom` of `gb_emu/src/mmu.rs`: the image, the two bank numbers and four banks of RAM.  A bank
number is whatever byte the program writes; it meets an address only when something is read.  The
type of the bank controller is kept, but neither `read` nor `write` looks at it.

An index past the end of a `Vec` is a panic: `none`.

* `GameRom.new`, `GameRom.read`, `GameRom.write` — the cartridge;
* `BankingLaw` — nothing that is read or written panics, a cartridge without a controller shows its
  first 32 KiB, and a byte of RAM is read back;
* `BanksExist` — a condition on the bank numbers that are written;
* `banking_safe_iff` — **PROVED**: for every image and every run of writes, the law holds exactly
  then.
-/

namespace Axle.GameBoy

open Axle.Lib.StepRun

abbrev Byte := BitVec 8

/-- A byte at every address. -/
abbrev Memory := BitVec 16 → Byte

/-! ### The cartridge -/

inductive MbcType where
  | noMbc
  | mbc1
  | mbc3
deriving DecidableEq, Repr

/-- Four banks of 32 KiB. -/
structure RamBanks where
  banks : List (List Byte)
  count : banks.length = 4
  sizes : ∀ bank ∈ banks, bank.length = 32 * 1024

namespace RamBanks

def new : RamBanks where
  banks := List.replicate 4 (List.replicate (32 * 1024) 0)
  count := List.length_replicate
  sizes := fun bank h => by rw [List.eq_of_mem_replicate h, List.length_replicate]

/-- `ram_banks[bank][offset]`. -/
def load (r : RamBanks) (bank offset : ℕ) : Option Byte := do
  let contents ← r.banks[bank]?
  contents[offset]?

/-- `ram_banks[bank][offset] = val`. -/
def store (r : RamBanks) (bank offset : ℕ) (val : Byte) : Option RamBanks :=
  if h : bank < r.banks.length ∧ offset < 32 * 1024 then
    some
      { banks := r.banks.set bank (r.banks[bank].set offset val)
        count := by rw [List.length_set, r.count]
        sizes := fun contents hmem => by
          rcases List.mem_or_eq_of_mem_set hmem with hold | rfl
          · exact r.sizes contents hold
          · rw [List.length_set, r.sizes _ (List.getElem_mem h.1)] }
  else none

variable {bank offset : ℕ} {r : RamBanks}

theorem load_isSome (hoffset : offset < 32 * 1024) : (r.load bank offset).isSome ↔ bank < 4 := by
  rw [← r.count]
  constructor
  · intro h
    by_contra hbank
    rw [load, List.getElem?_eq_none (Nat.le_of_not_lt hbank)] at h
    cases h
  · intro hbank
    have hsize := r.sizes _ (List.getElem_mem hbank)
    simp [load, List.getElem?_eq_getElem hbank, hsize, hoffset]

theorem exists_store (val : Byte) (hoffset : offset < 32 * 1024) (hbank : bank < 4) :
    ∃ r', r.store bank offset val = some r' := by
  rw [store, dif_pos ⟨r.count ▸ hbank, hoffset⟩]
  exact ⟨_, rfl⟩

theorem load_store {r r' : RamBanks} {val : Byte} (h : r.store bank offset val = some r')
    (b o : ℕ) : r'.load b o = if b = bank ∧ o = offset then some val else r.load b o := by
  rw [store] at h
  split at h
  · rename_i hin
    rw [← Option.some.inj h]
    have hsize := r.sizes _ (List.getElem_mem hin.1)
    by_cases hb : b = bank
    · subst hb
      by_cases ho : o = offset
      · subst ho
        simp [load, hin.1, hsize, hin.2]
      · simp [load, hin.1, ho, List.getElem?_set_ne (Ne.symm ho)]
    · simp [load, hb, List.getElem?_set_ne (Ne.symm hb)]
  · cases h

end RamBanks

structure GameRom where
  mbcType : MbcType
  data : List Byte
  currentRomBank : Byte
  currentRamBank : Byte
  ramBanks : RamBanks

namespace GameRom

/-- The types that the loader accepts. -/
def mbcTypeOf (discriminator : Byte) : Option MbcType :=
  match discriminator.toNat with
  | 0 => some .noMbc
  | 1 => some .mbc1
  | 3 | 19 | 27 => some .mbc3
  | 0xff => some .noMbc
  | _ => none

def new (data : List Byte) : Option GameRom := do
  let discriminator ← data[0x0147]?
  let mbcType ← mbcTypeOf discriminator
  some ⟨mbcType, data, 1, 0, RamBanks.new⟩

/-- The addresses of the cartridge's RAM. -/
def IsRam (addr : BitVec 16) : Prop := 0xa000 ≤ addr.toNat ∧ addr.toNat < 0xc000

instance (addr : BitVec 16) : Decidable (IsRam addr) :=
  inferInstanceAs (Decidable (0xa000 ≤ addr.toNat ∧ addr.toNat < 0xc000))

/-- `contains`. -/
def Contains (addr : BitVec 16) : Prop := addr.toNat < 0x8000 ∨ IsRam addr

instance (addr : BitVec 16) : Decidable (Contains addr) :=
  inferInstanceAs (Decidable (addr.toNat < 0x8000 ∨ IsRam addr))

/-- The bank behind `0x4000`: bank 0 is taken for bank 1. -/
def shownBank (romBank : Byte) : ℕ := if romBank = 0 then 1 else romBank.toNat

def translatedAddr (s : GameRom) (addr : BitVec 16) : ℕ :=
  if 0x4000 ≤ addr.toNat ∧ addr.toNat < 0x8000 then
    addr.toNat + 0x4000 * (shownBank s.currentRomBank - 1)
  else addr.toNat

def read (s : GameRom) (addr : BitVec 16) : Option Byte :=
  if IsRam addr then s.ramBanks.load s.currentRamBank.toNat (addr.toNat - 0xa000)
  else s.data[s.translatedAddr addr]?

def write (s : GameRom) (addr : BitVec 16) (val : Byte) : Option GameRom :=
  -- RAM enable
  if addr.toNat < 0x2000 then some s
  else if addr.toNat < 0x4000 then some { s with currentRomBank := val }
  else if addr.toNat < 0x6000 then some { s with currentRamBank := val }
  -- ROM/RAM mode select
  else if addr.toNat < 0x8000 then some s
  else if IsRam addr then do
    let ramBanks ← s.ramBanks.store s.currentRamBank.toNat (addr.toNat - 0xa000) val
    some { s with ramBanks := ramBanks }
  else some s

end GameRom

/-- A write of the program. -/
structure CpuWrite where
  addr : BitVec 16
  val : Byte
deriving DecidableEq, Repr

def cartridgeNext (s : GameRom) (w : CpuWrite) : Option GameRom := s.write w.addr w.val

variable {s t rom : GameRom} {w : CpuWrite} {addr : BitVec 16} {data : List Byte}
  {ws : List CpuWrite}

/-- **One write**: it leaves the image alone and does one of four things. -/
theorem cartridgeNext_cases (h : cartridgeNext s w = some t) :
    (t = s ∧ ¬GameRom.IsRam w.addr ∧ ¬(0x2000 ≤ w.addr.toNat ∧ w.addr.toNat < 0x6000)) ∨
    (0x2000 ≤ w.addr.toNat ∧ w.addr.toNat < 0x4000 ∧ t = { s with currentRomBank := w.val }) ∨
    (0x4000 ≤ w.addr.toNat ∧ w.addr.toNat < 0x6000 ∧ t = { s with currentRamBank := w.val }) ∨
    (GameRom.IsRam w.addr ∧ ∃ ramBanks,
      s.ramBanks.store s.currentRamBank.toNat (w.addr.toNat - 0xa000) w.val = some ramBanks ∧
      t = { s with ramBanks := ramBanks }) := by
  rw [cartridgeNext, GameRom.write] at h
  split_ifs at h with h1 h2 h3 h4 h5
  · exact .inl ⟨(Option.some.inj h).symm, fun hram => by unfold GameRom.IsRam at hram; omega,
      fun hin => by omega⟩
  · exact .inr (.inl ⟨Nat.le_of_not_lt h1, h2, (Option.some.inj h).symm⟩)
  · exact .inr (.inr (.inl ⟨Nat.le_of_not_lt h2, h3, (Option.some.inj h).symm⟩))
  · exact .inl ⟨(Option.some.inj h).symm, fun hram => by unfold GameRom.IsRam at hram; omega,
      fun hin => by omega⟩
  · obtain ⟨ramBanks, hstore, ht⟩ := Option.bind_eq_some_iff.mp h
    exact .inr (.inr (.inr ⟨h5, ramBanks, hstore, (Option.some.inj ht).symm⟩))
  · exact .inl ⟨(Option.some.inj h).symm, h5, fun hin => by omega⟩

/-! ### The law -/

/-- What holds between two writes. -/
structure Accessible (s : GameRom) : Prop where
  reads : ∀ addr, GameRom.Contains addr → (s.read addr).isSome
  writes : ∀ addr val, GameRom.Contains addr → (s.write addr val).isSome
  shown : s.mbcType = .noMbc → ∀ addr, addr.toNat < 0x8000 → s.read addr = s.data[addr.toNat]?

/-- A write of `w` with the bank `bank` selected is not overwritten by a run from `s`. -/
def NotOverwritten (w : CpuWrite) (bank : Byte) (s : GameRom) (ws : List CpuWrite) : Prop :=
  Meets cartridgeNext (fun s v => v.addr = w.addr → s.currentRamBank ≠ bank) s ws

/-- A byte written to RAM is there as long as it is not overwritten. -/
def ReadBack (rom : GameRom) (ws : List CpuWrite) : Prop :=
  ∀ done w after s t u, ws = done ++ w :: after → GameRom.IsRam w.addr →
    run cartridgeNext rom done = some s → cartridgeNext s w = some t →
    NotOverwritten w s.currentRamBank t after → run cartridgeNext t after = some u →
    u.currentRamBank = s.currentRamBank → u.read w.addr = some w.val

structure BankingLaw (rom : GameRom) (ws : List CpuWrite) : Prop where
  runs : ∀ done, done <+: ws → ∃ s, run cartridgeNext rom done = some s ∧ Accessible s
  readBack : ReadBack rom ws

/-- The bank is in the image, and without a controller it is bank 1 or a copy of it. -/
def RomBankExists (rom : GameRom) (romBank : Byte) : Prop :=
  (GameRom.shownBank romBank + 1) * 0x4000 ≤ rom.data.length ∧
    (rom.mbcType = .noMbc → ∀ i < 0x4000,
      rom.data[GameRom.shownBank romBank * 0x4000 + i]? = rom.data[0x4000 + i]?)

/-- What one write asks of the banks. -/
def SelectsExisting (rom : GameRom) (w : CpuWrite) : Prop :=
  (0x2000 ≤ w.addr.toNat ∧ w.addr.toNat < 0x4000 → RomBankExists rom w.val) ∧
    (0x4000 ≤ w.addr.toNat ∧ w.addr.toNat < 0x6000 → w.val.toNat < 4)

/-- Every bank that is selected exists. -/
def BanksExist (rom : GameRom) (ws : List CpuWrite) : Prop := ∀ w ∈ ws, SelectsExisting rom w

/-! ### Reads of one state -/

theorem read_ram (h : GameRom.IsRam addr) :
    s.read addr = s.ramBanks.load s.currentRamBank.toNat (addr.toNat - 0xa000) := if_pos h

theorem isRam_offset (h : GameRom.IsRam addr) : addr.toNat - 0xa000 < 32 * 1024 := by
  omega

theorem read_rom (h : addr.toNat < 0x8000) : s.read addr = s.data[s.translatedAddr addr]? :=
  if_neg fun hram => by unfold GameRom.IsRam at hram; omega

theorem shownBank_pos (romBank : Byte) : 1 ≤ GameRom.shownBank romBank := by
  unfold GameRom.shownBank
  split_ifs with h
  · exact le_refl 1
  · exact Nat.pos_of_ne_zero fun h0 => h (BitVec.eq_of_toNat_eq (by simpa using h0))

theorem translatedAddr_low (h : addr.toNat < 0x4000) :
    s.translatedAddr addr = addr.toNat := if_neg fun hin => by omega

theorem translatedAddr_high (hlow : 0x4000 ≤ addr.toNat) (hhigh : addr.toNat < 0x8000) :
    s.translatedAddr addr
      = GameRom.shownBank s.currentRomBank * 0x4000 + (addr.toNat - 0x4000) := by
  have hpos := shownBank_pos s.currentRomBank
  rw [GameRom.translatedAddr, if_pos ⟨hlow, hhigh⟩]
  omega

/-- The state of a run of writes: the image is the loaded one and both selected banks exist. -/
structure BanksIn (rom s : GameRom) : Prop where
  mbcType : s.mbcType = rom.mbcType
  data : s.data = rom.data
  romBank : RomBankExists rom s.currentRomBank
  ramBank : s.currentRamBank.toNat < 4

theorem BanksIn.accessible (h : BanksIn rom s) : Accessible s := by
  obtain ⟨hbank, hcopy⟩ := h.romBank
  refine ⟨fun addr haddr => ?_, fun addr val haddr => ?_, fun hmbc addr haddr => ?_⟩
  · by_cases hram : GameRom.IsRam addr
    · rw [read_ram hram, RamBanks.load_isSome (isRam_offset hram)]
      exact h.ramBank
    · have hrom := haddr.resolve_right hram
      rw [read_rom hrom, h.data, isSome_getElem?]
      rcases Nat.lt_or_ge addr.toNat 0x4000 with hlow | hhigh
      · rw [translatedAddr_low hlow]
        omega
      · rw [translatedAddr_high hhigh hrom]
        omega
  · rw [GameRom.write]
    split_ifs with h1 h2 h3 h4 h5
    · rfl
    · rfl
    · rfl
    · rfl
    · obtain ⟨ramBanks, hstore⟩ := RamBanks.exists_store (r := s.ramBanks) val (isRam_offset h5)
        h.ramBank
      rw [hstore]
      rfl
    · rfl
  · rw [read_rom haddr, h.data]
    rcases Nat.lt_or_ge addr.toNat 0x4000 with hlow | hhigh
    · rw [translatedAddr_low hlow]
    · rw [translatedAddr_high hhigh haddr, hcopy (h.mbcType ▸ hmbc) _ (by omega),
        Nat.add_sub_cancel' hhigh]

/-! ### Runs of writes -/

theorem BanksIn.step {rom s : GameRom} {w : CpuWrite} (h : BanksIn rom s)
    (hw : SelectsExisting rom w) : ∃ t, cartridgeNext s w = some t ∧ BanksIn rom t := by
  have hsome : ∃ t, cartridgeNext s w = some t := by
    by_cases hin : GameRom.Contains w.addr
    · exact Option.isSome_iff_exists.mp (h.accessible.writes w.addr w.val hin)
    · refine ⟨s, ?_⟩
      unfold GameRom.Contains at hin
      rw [cartridgeNext, GameRom.write, if_neg (by omega), if_neg (by omega), if_neg (by omega),
        if_neg (by omega), if_neg fun hram => hin (.inr hram)]
  obtain ⟨t, ht⟩ := hsome
  refine ⟨t, ht, ?_⟩
  rcases cartridgeNext_cases ht with ⟨rfl, -⟩ | ⟨hlow, hhigh, rfl⟩ | ⟨hlow, hhigh, rfl⟩ |
    ⟨-, ramBanks, -, rfl⟩
  · exact h
  · exact ⟨h.mbcType, h.data, hw.1 ⟨hlow, hhigh⟩, h.ramBank⟩
  · exact ⟨h.mbcType, h.data, h.romBank, hw.2 ⟨hlow, hhigh⟩⟩
  · exact ⟨h.mbcType, h.data, h.romBank, h.ramBank⟩

theorem new_eq_some (h : GameRom.new data = some rom) :
    ∃ mbcType, rom = ⟨mbcType, data, 1, 0, RamBanks.new⟩ := by
  obtain ⟨discriminator, -, h⟩ := Option.bind_eq_some_iff.mp h
  obtain ⟨mbcType, -, h⟩ := Option.bind_eq_some_iff.mp h
  exact ⟨mbcType, (Option.some.inj h).symm⟩

theorem banksIn_new (hload : GameRom.new data = some rom) (hlen : 0x8000 ≤ data.length) :
    BanksIn rom rom := by
  obtain ⟨mbcType, rfl⟩ := new_eq_some hload
  have hone : GameRom.shownBank 1 = 1 := by decide
  refine ⟨rfl, rfl, ⟨?_, fun _ i _ => by rw [hone, Nat.one_mul]⟩, ?_⟩
  · rw [hone]
    exact hlen
  · show (0 : Byte).toNat < 4
    decide

theorem image_kept (h : run cartridgeNext rom ws = some s) :
    s.mbcType = rom.mbcType ∧ s.data = rom.data := by
  have hstep : ∀ (s : GameRom) (w : CpuWrite) (t : GameRom),
      s.mbcType = rom.mbcType ∧ s.data = rom.data → True → cartridgeNext s w = some t →
        t.mbcType = rom.mbcType ∧ t.data = rom.data := by
    intro s w t hs _ ht
    rcases cartridgeNext_cases ht with ⟨rfl, -⟩ | ⟨-, -, rfl⟩ | ⟨-, -, rfl⟩ | ⟨-, _, -, rfl⟩ <;>
      exact hs
  exact run_invariant hstep ws rom s ⟨rfl, rfl⟩ (Meets.trivial ws rom) h

/-- A stored byte stays where it is: a write to the same address goes to another bank. -/
theorem stored_kept {bank : Byte} (hram : GameRom.IsRam w.addr) {t u : GameRom}
    {after : List CpuWrite}
    (hstored : t.ramBanks.load bank.toNat (w.addr.toNat - 0xa000) = some w.val)
    (hkeep : NotOverwritten w bank t after) (hrun : run cartridgeNext t after = some u) :
    u.ramBanks.load bank.toNat (w.addr.toNat - 0xa000) = some w.val := by
  refine @run_invariant _ _ cartridgeNext _
    (fun s => s.ramBanks.load bank.toNat (w.addr.toNat - 0xa000) = some w.val) ?_ after t u
    hstored hkeep hrun
  intro s v s' hs hother hs'
  rcases cartridgeNext_cases hs' with ⟨rfl, -⟩ | ⟨-, -, rfl⟩ | ⟨-, -, rfl⟩ |
    ⟨hvram, ramBanks, hstore, rfl⟩
  · exact hs
  · exact hs
  · exact hs
  · rw [RamBanks.load_store hstore, if_neg]
    · exact hs
    · intro hsame
      have haddr : v.addr = w.addr := by
        unfold GameRom.IsRam at hram hvram
        exact BitVec.eq_of_toNat_eq (by omega)
      exact hother haddr (BitVec.eq_of_toNat_eq hsame.1.symm)

theorem readBack (rom : GameRom) (ws : List CpuWrite) : ReadBack rom ws := by
  intro done w after s t u _ hram _ hw hkeep hrun hbank
  have hstored : t.ramBanks.load s.currentRamBank.toNat (w.addr.toNat - 0xa000) = some w.val := by
    rcases cartridgeNext_cases hw with ⟨-, hno, -⟩ | ⟨-, hhigh, -⟩ | ⟨-, hhigh, -⟩ |
      ⟨-, ramBanks, hstore, rfl⟩
    · exact absurd hram hno
    · unfold GameRom.IsRam at hram
      omega
    · unfold GameRom.IsRam at hram
      omega
    · rw [RamBanks.load_store hstore, if_pos ⟨rfl, rfl⟩]
  rw [read_ram hram, hbank]
  exact stored_kept hram hstored hkeep hrun

theorem bankingLaw_of_banksExist (hload : GameRom.new data = some rom) (hlen : 0x8000 ≤ data.length)
    (h : BanksExist rom ws) : BankingLaw rom ws := by
  refine ⟨fun done hdone => ?_, readBack rom ws⟩
  have hstep : ∀ (s : GameRom) (w : CpuWrite), BanksIn rom s → SelectsExisting rom w →
      ∃ t, cartridgeNext s w = some t ∧ BanksIn rom t := fun s w hs hw => hs.step hw
  obtain ⟨s, hs, hinv⟩ := run_total hstep done rom (banksIn_new hload hlen)
    (Meets.of_forall done rom fun w hw => h w (hdone.subset hw))
  exact ⟨s, hs, hinv.accessible⟩

theorem romBankExists_of_accessible (hmbc : s.mbcType = rom.mbcType) (hdata : s.data = rom.data)
    (h : Accessible s) : RomBankExists rom s.currentRomBank := by
  refine ⟨?_, fun hno i hi => ?_⟩
  · have hread := h.reads 0x7fff#16 (.inl (by decide))
    rw [read_rom (by decide), translatedAddr_high (by decide) (by decide), hdata,
      isSome_getElem?] at hread
    have htop : (0x7fff#16).toNat = 0x7fff := rfl
    omega
  · have haddr : (BitVec.ofNat 16 (0x4000 + i)).toNat = 0x4000 + i := by
      exact Nat.mod_eq_of_lt (by omega)
    have hshown := h.shown (hmbc.trans hno) (BitVec.ofNat 16 (0x4000 + i)) (by omega)
    rw [read_rom (by omega), translatedAddr_high (by omega) (by omega), hdata, haddr,
      Nat.add_sub_cancel_left] at hshown
    exact hshown

theorem banksExist_of_bankingLaw (h : BankingLaw rom ws) : BanksExist rom ws := by
  intro w hw
  obtain ⟨done, after, rfl⟩ := List.append_of_mem hw
  obtain ⟨s, hs, hacc⟩ := h.runs (done ++ [w]) ⟨after, by simp⟩
  obtain ⟨hmbc, hdata⟩ := image_kept hs
  rw [run_append] at hs
  obtain ⟨u, -, hs⟩ := Option.bind_eq_some_iff.mp hs
  obtain ⟨s', hw', hs'⟩ := run_cons_eq_some.mp hs
  obtain rfl : s' = s := Option.some.inj hs'
  constructor
  · intro hin
    have hbank : s'.currentRomBank = w.val := by
      rcases cartridgeNext_cases hw' with ⟨-, -, hno⟩ | ⟨-, -, rfl⟩ | ⟨hlow, -⟩ | ⟨hram, -⟩
      · omega
      · rfl
      · omega
      · unfold GameRom.IsRam at hram
        omega
    exact hbank ▸ romBankExists_of_accessible hmbc hdata hacc
  · intro hin
    have hbank : s'.currentRamBank = w.val := by
      rcases cartridgeNext_cases hw' with ⟨-, -, hno⟩ | ⟨-, hhigh, -⟩ | ⟨-, -, rfl⟩ | ⟨hram, -⟩
      · omega
      · omega
      · rfl
      · unfold GameRom.IsRam at hram
        omega
    have hread := hacc.reads 0xa000#16 (.inr (by decide))
    rw [read_ram (by decide), RamBanks.load_isSome (by decide), hbank] at hread
    exact hread

/-- **When banking is safe.**  For every image that the loader accepts and every run of writes. -/
theorem banking_safe_iff {data : List Byte} {rom : GameRom} (hload : GameRom.new data = some rom)
    (hlen : 0x8000 ≤ data.length) (ws : List CpuWrite) :
    BankingLaw rom ws ↔ BanksExist rom ws :=
  ⟨banksExist_of_bankingLaw, bankingLaw_of_banksExist hload hlen⟩

/-- 32 KiB of zeros: no bank controller. -/
def zeroImage : List Byte := List.replicate 0x8000 0

def zeroRom : GameRom := ⟨.noMbc, zeroImage, 1, 0, RamBanks.new⟩

theorem zeroImage_length : zeroImage.length = 0x8000 := List.length_replicate

theorem zeroImage_getElem? (i : ℕ) : zeroImage[i]? = if i < 0x8000 then some 0 else none :=
  List.getElem?_replicate

theorem new_zeroImage : GameRom.new zeroImage = some zeroRom := by
  rfl

/-- RAM bank 3, a byte there, and ROM bank 0, which is bank 1. -/
theorem banking_safe_zeroRom :
    BankingLaw zeroRom [⟨0x4000, 3⟩, ⟨0xa000, 7⟩, ⟨0x2000, 0⟩] := by
  refine (banking_safe_iff new_zeroImage zeroImage_length.ge _).mpr ?_
  intro w hw
  simp only [List.mem_cons, List.not_mem_nil, or_false] at hw
  rcases hw with rfl | rfl | rfl
  · exact ⟨fun hin => absurd hin (by decide), fun _ => by decide⟩
  · exact ⟨fun hin => absurd hin (by decide), fun hin => absurd hin (by decide)⟩
  · have hone : GameRom.shownBank 0 = 1 := by decide
    exact ⟨fun _ => ⟨by exact zeroImage_length.ge, fun _ i _ => by rw [hone, Nat.one_mul]⟩,
      fun hin => absurd hin (by decide)⟩

/-- With ROM bank 2 selected, the same cartridge, which has no controller, panics on a read of
`0x4000`. -/
theorem bank_past_the_image :
    GameRom.new zeroImage = some zeroRom ∧ 0x8000 ≤ zeroImage.length ∧ 0x4000 ∣ zeroImage.length ∧
      ∃ s, run cartridgeNext zeroRom [⟨0x2000, 2⟩] = some s ∧ s.read 0x4000 = none ∧
        ¬BankingLaw zeroRom [⟨0x2000, 2⟩] := by
  have hread : ({ zeroRom with currentRomBank := 2 } : GameRom).read 0x4000 = none := by
    show zeroImage[0x8000]? = none
    rw [zeroImage_getElem?, if_neg (by decide)]
  refine ⟨new_zeroImage, zeroImage_length.ge, zeroImage_length ▸ by decide, _, rfl, hread,
    fun hlaw => ?_⟩
  obtain ⟨s, hs, hacc⟩ := hlaw.runs _ List.prefix_rfl
  have hsome := hacc.reads 0x4000 (.inl (by decide))
  rw [← Option.some.inj hs, show GameRom.read _ 0x4000 = none from hread] at hsome
  cases hsome

end Axle.GameBoy
