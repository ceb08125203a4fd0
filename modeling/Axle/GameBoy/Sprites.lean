import Axle.GameBoy.Scanline
import Axle.Lib.RangeLoop

/-!
# The sprites of a line

The entries of OAM are drawn over the line in their order, so that the last one wins where several
cover a pixel.  Their coordinates are those of the screen plus 8 and 16, and the code subtracts these
from unsigned numbers.

* `renderSprite_spec` / `renderSprite_none` — **PROVED**: an entry on the screen is drawn as it
  should be, and one beyond the left or the upper edge stops the program;
* `renderSprites_iff` — **PROVED**: the sprites of a line are drawn exactly when no entry, on this
  line or not, is placed beyond these edges, and no tile number overflows.
-/

namespace Axle.GameBoy

namespace Ppu

/-! ### The picture -/

/-- The position, the tile and the attributes of an entry of OAM. -/
def oamByte (mem : Memory) (i field : ℕ) : Byte := mem (BitVec.ofNat 16 (0xfe00 + i * 4 + field))

def spriteY (mem : Memory) (i : ℕ) : ℕ := (oamByte mem i 0).toNat

def spriteX (mem : Memory) (i : ℕ) : ℕ := (oamByte mem i 1).toNat

def spriteHeight (s : Ppu) : ℕ := if s.lcdControl.getLsbD 2 then 16 else 8

def OnLine (s : Ppu) (mem : Memory) (i y : ℕ) : Prop :=
  spriteY mem i ≤ y + 16 ∧ y + 16 < spriteY mem i + s.spriteHeight

instance (s : Ppu) (mem : Memory) (i y : ℕ) : Decidable (s.OnLine mem i y) :=
  inferInstanceAs (Decidable (_ ∧ _))

/-- The row of the sprite that is on the line, counted from the other side when it is flipped. -/
def spriteRow (s : Ppu) (mem : Memory) (i y : ℕ) : ℕ :=
  if (oamByte mem i 3).getLsbD 6 then s.spriteHeight - 1 - (y + 16 - spriteY mem i)
  else y + 16 - spriteY mem i

def spriteCol (mem : Memory) (i x : ℕ) : ℕ :=
  if (oamByte mem i 3).getLsbD 5 then 7 - (x + 8 - spriteX mem i) else x + 8 - spriteX mem i

/-- A colour number from the palette of the entry; 0 is transparent. -/
def spriteShade (s : Ppu) (mem : Memory) (i colorId : ℕ) : Option Rgb :=
  let palette := if (oamByte mem i 3).getLsbD 4 then s.obp1 else s.obp0
  if colorId = 0 then none else some (paletteShade palette colorId)

/-- What an entry shows at a pixel; the rows of a tall sprite follow each other. -/
def spriteColor (s : Ppu) (mem : Memory) (y x i : ℕ) : Option Rgb :=
  if s.OnLine mem i y ∧ spriteX mem i ≤ x + 8 ∧ x < spriteX mem i then
    s.spriteShade mem i (colorNumber mem
      (0x8000 + (oamByte mem i 2).toNat * 16 + s.spriteRow mem i y * 2) (spriteCol mem i x))
  else none

/-- The last entry that shows a colour there. -/
def topSprite (s : Ppu) (mem : Memory) (y x : ℕ) : Option Rgb :=
  ((List.range 40).filterMap (s.spriteColor mem y x)).getLast?

/-- Some pixels of a line are painted over, and all other bytes stay. -/
structure Overpainted (y : ℕ) (color : ℕ → Option Rgb) (old new : List Byte) : Prop where
  length : new.length = old.length
  shown : ∀ x < screenWidth, ∀ px ∈ color x, PixelIs new (y * screenWidth * 4 + x * 4) px
  kept : ∀ i, (∀ x < screenWidth, color x ≠ none →
    i < y * screenWidth * 4 + x * 4 ∨ y * screenWidth * 4 + x * 4 + 4 ≤ i) → new[i]? = old[i]?

/-- **What the sprites of a line should be.**  Nothing overflows or is out of range. -/
def RendersSprites (s : Ppu) (checks : Bool) (mem : Memory) (screenY : Byte) : Prop :=
  ∃ frame, s.renderSpritesOnScanline checks mem screenY = some frame ∧
    Overpainted screenY.toNat (s.topSprite mem screenY.toNat) s.frame frame

/-! ### Painting over -/

namespace Overpainted

variable {y : ℕ} {color color' : ℕ → Option Rgb} {old mid new : List Byte}

theorem nothing (frame : List Byte) (h : ∀ x < screenWidth, color x = none) :
    Overpainted y color frame frame := by
  refine ⟨rfl, fun x hx px hpx => ?_, fun _ _ => rfl⟩
  rw [h x hx] at hpx
  cases hpx

theorem congr (h : Overpainted y color old new) (heq : ∀ x < screenWidth, color x = color' x) :
    Overpainted y color' old new :=
  ⟨h.length, fun x hx px hpx => h.shown x hx px ((heq x hx).symm ▸ hpx),
    fun i hi => h.kept i fun x hx hne => hi x hx (heq x hx ▸ hne)⟩

theorem trans (h : Overpainted y color old mid) (h' : Overpainted y color' mid new) :
    Overpainted y (fun x => (color' x).or (color x)) old new := by
  refine ⟨h'.length.trans h.length, fun x hx px hpx => ?_, fun i hi => ?_⟩
  · cases hlater : color' x with
    | some px' =>
      rw [hlater] at hpx
      obtain rfl := Option.some.inj hpx
      exact h'.shown x hx _ hlater
    | none =>
      rw [hlater] at hpx
      refine (h.shown x hx px hpx).congr fun i hi hi' => h'.kept i fun x' hx' hne => ?_
      have hxx : x' ≠ x := fun heq => hne (heq ▸ hlater)
      omega
  · rw [h'.kept i fun x hx hne => hi x hx (by
      cases hlater : color' x with
      | none => exact absurd hlater hne
      | some px => exact Option.some_ne_none px)]
    refine h.kept i fun x hx hne => hi x hx ?_
    cases color' x with
    | none => exact hne
    | some px => exact Option.some_ne_none px

theorem single {x : ℕ} (hx : x < screenWidth) {px : Rgb}
    (hput : putPixel old (y * screenWidth * 4 + x * 4) px = some new) :
    Overpainted y (fun x' => if x' = x then some px else none) old new := by
  obtain ⟨hlen, hpixel, hsame⟩ := putPixel_spec hput
  refine ⟨hlen, fun x' _ px' hpx => ?_, fun i hi => hsame i ?_⟩
  · split at hpx
    · rename_i heq
      rw [heq, ← Option.some.inj hpx]
      exact hpixel
    · cases hpx
  · refine hi x hx ?_
    rw [if_pos rfl]
    exact Option.some_ne_none px

end Overpainted

/-! ### Entries -/

/-- The part of a row that is painted from column `xIdx` on. -/
def rowColor (tileRow : List (Option Rgb)) (left : ℕ) (flipped : Bool) (xIdx n x : ℕ) : Option Rgb :=
  if left + xIdx ≤ x ∧ x < left + xIdx + n then
    (tileRow[if flipped then 7 - (x - left) else x - left]?).getD none
  else none

theorem putSpriteRow_spec {tileRow : List (Option Rgb)} (hrow : tileRow.length = 8) {y : ℕ}
    (hy : y < windowHeight) (left : ℕ) (flipped : Bool) :
    ∀ (n xIdx : ℕ) (frame : List Byte), xIdx + n ≤ 8 → frame.length = frameSize →
      ∃ frame', putSpriteRow tileRow (y * screenWidth * 4) left flipped xIdx n frame = some frame' ∧
        Overpainted y (rowColor tileRow left flipped xIdx n) frame frame' := by
  intro n
  induction n with
  | zero =>
    refine fun xIdx frame _ _ => ⟨frame, rfl, .nothing frame fun x _ => if_neg ?_⟩
    omega
  | succ n ih =>
    intro xIdx frame hx hframe
    rw [putSpriteRow]
    by_cases hedge : screenWidth ≤ left + xIdx
    · rw [if_pos hedge]
      refine ⟨frame, rfl, .nothing frame fun x hx => if_neg ?_⟩
      omega
    · have hidx : (if flipped then 7 - xIdx else xIdx) < tileRow.length := by
        split_ifs <;> omega
      -- the first column, and the others
      have hsplit : ∀ x, rowColor tileRow left flipped xIdx (n + 1) x =
          (rowColor tileRow left flipped (xIdx + 1) n x).or
            (if x = left + xIdx then tileRow[if flipped then 7 - xIdx else xIdx] else none) := by
        intro x
        unfold rowColor
        by_cases hfirst : x = left + xIdx
        · have hin : left + xIdx ≤ x ∧ x < left + xIdx + (n + 1) := by omega
          have hout : ¬(left + (xIdx + 1) ≤ x ∧ x < left + (xIdx + 1) + n) := by omega
          have hcol : x - left = xIdx := by omega
          rw [if_pos hin, if_neg hout, if_pos hfirst, hcol, List.getElem?_eq_getElem hidx]
          rfl
        · rw [if_neg hfirst, Option.or_none]
          refine if_congr ?_ rfl rfl
          omega
      rw [if_neg hedge, List.getElem?_eq_getElem hidx, Option.bind_eq_bind, Option.bind_some]
      cases hpx : tileRow[if flipped then 7 - xIdx else xIdx] with
      | none =>
        obtain ⟨frame', hframe', hpainted⟩ := ih (xIdx + 1) frame (by omega) hframe
        refine ⟨frame', hframe', hpainted.congr fun x _ => ?_⟩
        rw [hsplit, hpx, ite_self, Option.or_none]
      | some px =>
        have hoffset : y * screenWidth * 4 + (left + xIdx) * 4 + 3 < frame.length := by
          unfold frameSize screenWidth windowHeight at *
          omega
        obtain ⟨mid, hput, hlen⟩ := putPixel_some px hoffset
        obtain ⟨frame', hframe', hpainted⟩ := ih (xIdx + 1) mid (by omega) (hlen.trans hframe)
        dsimp only
        rw [hput]
        refine ⟨frame', hframe', ((Overpainted.single (by omega) hput).trans hpainted).congr
          fun x _ => ?_⟩
        rw [hsplit, hpx]

/-- An entry that is not beyond the left or the upper edge, and whose second tile has a number. -/
def EntryFits (s : Ppu) (mem : Memory) (y i : ℕ) : Prop :=
  8 ≤ spriteX mem i ∧ 16 ≤ spriteY mem i ∧
    ¬(s.OnLine mem i y ∧ s.spriteHeight = 16 ∧ 8 ≤ s.spriteRow mem i y ∧ oamByte mem i 2 = 255)

instance (s : Ppu) (mem : Memory) (y i : ℕ) : Decidable (s.EntryFits mem y i) :=
  inferInstanceAs (Decidable (_ ∧ _ ∧ _))

/-- The tile a row of the sprite is in, and the row in it. -/
def tileOfRow (s : Ppu) (checks : Bool) (tileIndex : Byte) (row : ℕ) : Option (ℕ × Byte) :=
  if s.lcdControl.getLsbD 2 ∧ 8 ≤ row then
    (incU8 checks tileIndex).map fun index => (row - 8, index)
  else some (row, tileIndex)

section Entry

variable (s : Ppu) {checks : Bool} (mem : Memory) {screenY : Byte} {frame : List Byte} {i : ℕ}

theorem tileOfRow_spec (checks : Bool) {tileIndex : Byte} {row : ℕ}
    (hfits : ¬(s.spriteHeight = 16 ∧ 8 ≤ row ∧ tileIndex = 255)) :
    ∃ tile, s.tileOfRow checks tileIndex row = some tile ∧
      0x8000 + tile.2.toNat * 16 + tile.1 * 2 = 0x8000 + tileIndex.toNat * 16 + row * 2 := by
  unfold tileOfRow
  by_cases hsecond : s.lcdControl.getLsbD 2 = true ∧ 8 ≤ row
  · have hne : tileIndex ≠ 255 := fun heq => hfits ⟨if_pos hsecond.1, hsecond.2, heq⟩
    have hinc : (tileIndex + 1).toNat = tileIndex.toNat + 1 := by
      have hne' : tileIndex.toNat ≠ 255 := fun heq => hne (BitVec.eq_of_toNat_eq heq)
      show (tileIndex.toNat + 1) % 256 = _
      omega
    rw [if_pos hsecond, incU8, if_neg fun h => hne h.1]
    refine ⟨(row - 8, tileIndex + 1), rfl, ?_⟩
    rw [hinc]
    omega
  · rw [if_neg hsecond]
    exact ⟨(row, tileIndex), rfl, rfl⟩

theorem tileOfRow_none {row : ℕ} (hheight : s.spriteHeight = 16) (hrow : 8 ≤ row) :
    s.tileOfRow true 255 row = none := by
  have htall : s.lcdControl.getLsbD 2 = true := by
    unfold spriteHeight at hheight
    split at hheight
    · assumption
    · cases hheight
  rw [tileOfRow, if_pos ⟨htall, hrow⟩, incU8, if_pos ⟨rfl, rfl⟩]
  rfl

theorem tileOfRow_off (tileIndex : Byte) (row : ℕ) :
    ∃ tile, s.tileOfRow false tileIndex row = some tile := by
  unfold tileOfRow
  rw [incU8_off]
  split <;> exact ⟨_, rfl⟩

theorem spriteRow_eq (hupper : 16 ≤ spriteY mem i) :
    (if (oamByte mem i 3).getLsbD 6 = true then
        s.spriteHeight - 1 - (screenY.toNat - (spriteY mem i - 16))
      else screenY.toNat - (spriteY mem i - 16)) = s.spriteRow mem i screenY.toNat := by
  have hplace : screenY.toNat - (spriteY mem i - 16) = screenY.toNat + 16 - spriteY mem i := by
    omega
  rw [hplace, spriteRow]

theorem renderSprite_eq : s.renderSprite checks mem screenY frame i =
    (subUsize checks (spriteX mem i) 8).bind fun left =>
      (subUsize checks (spriteY mem i) 16).bind fun top =>
        if screenY.toNat < top ∨ top + s.spriteHeight ≤ screenY.toNat then some frame
        else (s.tileOfRow checks (oamByte mem i 2)
            (if (oamByte mem i 3).getLsbD 6 then s.spriteHeight - 1 - (screenY.toNat - top)
              else screenY.toNat - top)).bind fun tile =>
          putSpriteRow (getTileRowFromVram mem (0x8000 + tile.2.toNat * 16) tile.1
            (s.spriteShade mem i)) (screenY.toNat * screenWidth * 4) left
            ((oamByte mem i 3).getLsbD 5) 0 tileWidth frame := by
  refine Option.bind_congr fun left _ => Option.bind_congr fun top _ => ?_
  rw [tileOfRow, apply_ite fun tile : Option (ℕ × Byte) => tile.bind _]
  rfl

/-- **An entry on the screen.** -/
theorem renderSprite_spec (hy : screenY.toNat < windowHeight) (hframe : frame.length = frameSize)
    (hfits : s.EntryFits mem screenY.toNat i) :
    ∃ frame', s.renderSprite checks mem screenY frame i = some frame' ∧
      Overpainted screenY.toNat (fun x => s.spriteColor mem screenY.toNat x i) frame frame' := by
  obtain ⟨hleft, hupper, htile⟩ := hfits
  rw [renderSprite_eq, subUsize, if_pos hleft, Option.bind_some, subUsize, if_pos hupper,
    Option.bind_some]
  by_cases hline : s.OnLine mem i screenY.toNat
  · have hskip : ¬(screenY.toNat < spriteY mem i - 16 ∨
        spriteY mem i - 16 + s.spriteHeight ≤ screenY.toNat) := by
      unfold OnLine at hline
      omega
    rw [if_neg hskip, s.spriteRow_eq mem hupper]
    obtain ⟨tile, htileEq, haddress⟩ := s.tileOfRow_spec checks
      fun h => htile ⟨hline, h.1, h.2.1, h.2.2⟩
    rw [htileEq, Option.bind_some]
    obtain ⟨frame', hput, hpainted⟩ := putSpriteRow_spec (getTileRowFromVram_length mem
      (0x8000 + tile.2.toNat * 16) tile.1 (s.spriteShade mem i)) hy (spriteX mem i - 8)
      ((oamByte mem i 3).getLsbD 5) 8 0 frame le_rfl hframe
    refine ⟨frame', hput, hpainted.congr fun x hx => ?_⟩
    unfold rowColor spriteColor
    by_cases hin : spriteX mem i ≤ x + 8 ∧ x < spriteX mem i
    · have hcol : (if (oamByte mem i 3).getLsbD 5 = true then 7 - (x - (spriteX mem i - 8))
          else x - (spriteX mem i - 8)) = spriteCol mem i x := by
        have hsub : x - (spriteX mem i - 8) = x + 8 - spriteX mem i := by omega
        rw [hsub, spriteCol]
      have hlt : spriteCol mem i x < 8 := by
        unfold spriteCol
        split <;> omega
      have hrange : spriteX mem i - 8 + 0 ≤ x ∧ x < spriteX mem i - 8 + 0 + 8 := by omega
      rw [if_pos hrange, hcol, if_pos ⟨hline, hin⟩, getTileRowFromVram_get _ _ _ _ hlt,
        haddress]
      rfl
    · have hrange : ¬(spriteX mem i - 8 + 0 ≤ x ∧ x < spriteX mem i - 8 + 0 + 8) := by omega
      have hnot : ¬(s.OnLine mem i screenY.toNat ∧ spriteX mem i ≤ x + 8 ∧ x < spriteX mem i) :=
        fun h => hin h.2
      rw [if_neg hrange, if_neg hnot]
  · have hskip : screenY.toNat < spriteY mem i - 16 ∨
        spriteY mem i - 16 + s.spriteHeight ≤ screenY.toNat := by
      unfold OnLine at hline
      omega
    rw [if_pos hskip]
    exact ⟨frame, rfl, .nothing frame fun x _ => if_neg fun h => hline h.1⟩

/-- **An entry beyond an edge**, or with a tile number that overflows, when arithmetic is checked. -/
theorem renderSprite_none (hfits : ¬s.EntryFits mem screenY.toNat i) :
    s.renderSprite true mem screenY frame i = none := by
  have hsub : ∀ a b : ℕ, ¬b ≤ a → subUsize true a b = none := fun a b hlt => by
    rw [subUsize, if_neg hlt, if_pos rfl]
  rw [renderSprite_eq]
  by_cases hleft : 8 ≤ spriteX mem i
  · by_cases hupper : 16 ≤ spriteY mem i
    · have htile : s.OnLine mem i screenY.toNat ∧ s.spriteHeight = 16 ∧
          8 ≤ s.spriteRow mem i screenY.toNat ∧ oamByte mem i 2 = 255 := by
        by_contra hnot
        exact hfits ⟨hleft, hupper, hnot⟩
      obtain ⟨hline, hheight, hrow, hindex⟩ := htile
      have hskip : ¬(screenY.toNat < spriteY mem i - 16 ∨
          spriteY mem i - 16 + s.spriteHeight ≤ screenY.toNat) := by
        unfold OnLine at hline
        omega
      rw [subUsize, if_pos hleft, Option.bind_some, subUsize, if_pos hupper, Option.bind_some,
        if_neg hskip, s.spriteRow_eq mem hupper, hindex,
        s.tileOfRow_none hheight hrow]
      rfl
    · rw [subUsize, if_pos hleft, Option.bind_some, hsub _ _ hupper]
      rfl
  · rw [hsub _ _ hleft]
    rfl

/-- Without the checks, an entry beyond the left edge is drawn far beyond the right one. -/
theorem renderSprite_left (hleft : spriteX mem i < 8) :
    s.renderSprite false mem screenY frame i = some frame := by
  have hsub : subUsize false (spriteX mem i) 8 = some (spriteX mem i + 2 ^ 64 - 8) := by
    rw [subUsize, if_neg (by omega), if_neg Bool.false_ne_true]
  obtain ⟨top, htop⟩ := subUsize_off (spriteY mem i) 16
  rw [renderSprite_eq, hsub, Option.bind_some, htop, Option.bind_some]
  split
  · rfl
  · obtain ⟨tile, htileEq⟩ := s.tileOfRow_off (oamByte mem i 2) _
    rw [htileEq, Option.bind_some]
    unfold tileWidth
    rw [putSpriteRow, if_pos (by unfold screenWidth; omega)]

end Entry

/-! ### Lines -/

section Line

variable (s : Ppu) (mem : Memory) {screenY : Byte}

theorem renderSprites_spec (checks : Bool) (hy : screenY.toNat < windowHeight)
    (hframe : s.frame.length = frameSize) : ∀ n : ℕ,
    (∀ i < n, s.EntryFits mem screenY.toNat i) →
    ∃ frame, (List.range n).foldlM (s.renderSprite checks mem screenY) s.frame = some frame ∧
      Overpainted screenY.toNat (fun x =>
        ((List.range n).filterMap (s.spriteColor mem screenY.toNat x)).getLast?) s.frame frame := by
  intro n
  induction n with
  | zero => exact fun _ => ⟨s.frame, rfl, .nothing _ fun _ _ => rfl⟩
  | succ n ih =>
    intro hfits
    obtain ⟨mid, hmid, hpainted⟩ := ih fun i hi => hfits i (Nat.lt_succ_of_lt hi)
    obtain ⟨frame, hlast, hpainted'⟩ := s.renderSprite_spec mem hy (hpainted.length.trans hframe)
      (hfits n (Nat.lt_succ_self n))
    refine ⟨frame, ?_, (hpainted.trans hpainted').congr fun x _ => ?_⟩
    · rw [Axle.Lib.RangeLoop.foldlM_range_succ, hmid, Option.bind_some, hlast]
    · rw [List.range_succ, List.filterMap_append, List.getLast?_append, List.filterMap_cons,
        List.filterMap_nil]
      cases s.spriteColor mem screenY.toNat x n <;> rfl

theorem foldlM_none {α β : Type*} {f : β → α → Option β} {a : α} (ha : ∀ b, f b a = none) :
    ∀ {items : List α} {b : β}, a ∈ items → items.foldlM f b = none := by
  intro items
  induction items with
  | nil => exact fun h => absurd h List.not_mem_nil
  | cons c items ih =>
    intro b hmem
    rw [List.foldlM_cons]
    rcases List.mem_cons.mp hmem with rfl | hmem
    · rw [ha]
      rfl
    · cases f b c with
      | none => rfl
      | some b' => exact ih hmem

/-- **The sprites of a line are drawn as they should be (proved)** exactly when all entries fit;
then also when arithmetic is not checked. -/
theorem renderSprites_iff (hy : screenY.toNat < windowHeight) (hframe : s.frame.length = frameSize) :
    (s.RendersSprites true mem screenY ↔ ∀ i < 40, s.EntryFits mem screenY.toNat i) ∧
      ((∀ i < 40, s.EntryFits mem screenY.toNat i) → s.RendersSprites false mem screenY) := by
  refine ⟨⟨?_, s.renderSprites_spec mem true hy hframe 40⟩,
    s.renderSprites_spec mem false hy hframe 40⟩
  rintro ⟨frame, hrender, -⟩ i hi
  by_contra hfits
  rw [renderSpritesOnScanline, foldlM_none (fun _ => s.renderSprite_none mem hfits)
    (List.mem_range.mpr hi)] at hrender
  cases hrender

/-- All entries at (16, 16) on the screen, with tile 0 in colour 3. -/
def spriteMemory (x : Byte) : Memory := fun addr =>
  if 0x8000 ≤ addr.toNat ∧ addr.toNat < 0x8010 then 0xff
  else if addr.toNat < 0xfe00 then 0
  else if addr.toNat % 4 = 0 then 32
  else if addr.toNat % 4 = 1 then x
  else 0

theorem renderSprites_iff_middle :
    (Ppu.new (List.replicate frameSize 0)).RendersSprites true (spriteMemory 24) 20 :=
  ((Ppu.new (List.replicate frameSize 0)).renderSprites_iff (spriteMemory 24) (by decide)
    (List.length_replicate ..)).1.mpr (by decide)

/-- A sprite whose left half is beyond the left edge stops a build with checks, and is not drawn at
all without them. -/
theorem sprite_beyond_edge :
    (Ppu.new (List.replicate frameSize 0)).topSprite (spriteMemory 4) 20 0 = some (shade 0) ∧
    ¬(Ppu.new (List.replicate frameSize 0)).RendersSprites true (spriteMemory 4) 20 ∧
    ¬(Ppu.new (List.replicate frameSize 0)).RendersSprites false (spriteMemory 4) 20 := by
  have htop : (Ppu.new (List.replicate frameSize 0)).topSprite (spriteMemory 4) 20 0 =
      some (shade 0) := by decide
  refine ⟨htop, ?_, ?_⟩
  · rintro ⟨frame, hrender, -⟩
    cases hrender
  · rintro ⟨frame, hrender, hpainted⟩
    have hleft : ∀ i < 40, spriteX (spriteMemory 4) i < 8 := by decide
    have hsame : ∀ n ≤ 40, (List.range n).foldlM
        ((Ppu.new (List.replicate frameSize 0)).renderSprite false (spriteMemory 4) 20)
        (List.replicate frameSize 0) = some (List.replicate frameSize 0) := by
      intro n
      induction n with
      | zero => exact fun _ => rfl
      | succ n ih =>
        intro hn
        rw [Axle.Lib.RangeLoop.foldlM_range_succ, ih (by omega), Option.bind_some,
          renderSprite_left _ _ (hleft n (by omega))]
    obtain rfl := Option.some.inj (hrender.symm.trans (hsame 40 le_rfl))
    have hpixel := hpainted.shown 0 (by decide) (shade 0) htop
    have halpha := hpixel.2.2.2
    rw [List.getElem?_replicate_of_lt (by decide)] at halpha
    exact absurd halpha (by decide)

end Line

end Ppu

end Axle.GameBoy
