import Axle.GameBoy.Cartridge

/-!
# The picture unit of the Game Boy emulator

`Ppu` of `gb_emu/src/ppu.rs`: a line is 114 steps of OAM search, pixel transfer and horizontal
blank, and is drawn at once, background and window first and then the sprites, on its 64th step.
The picture unit reads the memory while it draws; the contents are part of the event.

Plain `+` and `-` panic (`none`) on overflow when the checks are on and wrap when they are off.

* `Ppu.step`, `Ppu.write` — the unit, with the interrupts it requests and the lines it draws;
* `ModeMachine` — what its registers should show, and frames of 154 lines;
* `Timeline` — where the unit is after a number of steps: its frames have 153 lines;
* `Timeline.of_passes` — **PROVED**: every run follows the timeline.
-/

namespace Axle.GameBoy

open Axle.Lib.StepRun

/-! ### Machine arithmetic and pixels -/

/-- `a - b` on `usize`. -/
def subUsize (checks : Bool) (a b : ℕ) : Option ℕ :=
  if b ≤ a then some (a - b) else if checks then none else some (a + 2 ^ 64 - b)

/-- `a + 1` on `u8`. -/
def incU8 (checks : Bool) (a : Byte) : Option Byte :=
  if a = 255 ∧ checks then none else some (a + 1)

abbrev Rgb := Byte × Byte × Byte

/-- The four shades. -/
def shade : ℕ → Rgb
  | 0 => (227, 246, 211)
  | 1 => (147, 189, 121)
  | 2 => (64, 102, 86)
  | _ => (11, 23, 30)

/-- The shade that a palette register gives to a colour number. -/
def paletteShade (palette : Byte) (colorId : ℕ) : Rgb :=
  shade ((palette.toNat >>> (2 * colorId)) % 4)

/-- The four bytes of a pixel; an index past the buffer is a panic. -/
def putPixel (frame : List Byte) (offset : ℕ) (px : Rgb) : Option (List Byte) :=
  if offset + 3 < frame.length then
    some ((((frame.set offset px.1).set (offset + 1) px.2.1).set (offset + 2) px.2.2).set
      (offset + 3) 0xff)
  else none

def tileWidth : ℕ := 8
def tileHeight : ℕ := 8
def screenWidth : ℕ := 160
def windowHeight : ℕ := 144

/-! ### The unit -/

inductive PpuMode where
  | oamSearch
  | pixelTransfer
  | hBlank
  | vBlank
deriving DecidableEq, Repr

inductive InterruptType where
  | vBlank
  | lcdStat
  | timer
  | serial
  | joypad
deriving DecidableEq, Repr

/-- `frame` is the pixel buffer of `main_window_layer`. -/
structure Ppu where
  frame : List Byte
  lcdControl : Byte
  ly : Byte
  lyc : Byte
  scy : Byte
  scx : Byte
  wx : Byte
  wy : Byte
  bgp : Byte
  obp0 : Byte
  obp1 : Byte
  stat : Byte
  currentMode : PpuMode
  ticks : ℕ
  windowCurrentY : ℕ

inductive StatusUpdate where
  | lycEqualsLy (equals : Bool)
  | mode (mode : PpuMode)

/-- What a step does outside the unit. -/
inductive Signal where
  | interrupt (type : InterruptType)
  | scanline (ly lyc : Byte)
  | renderToScreen
deriving DecidableEq, Repr

namespace Ppu

def new (frame : List Byte) : Ppu where
  frame := frame
  lcdControl := 0b10000000
  ly := 0
  lyc := 0
  scy := 0
  scx := 0
  wx := 0
  wy := 0
  bgp := 0
  obp0 := 0
  obp1 := 0
  stat := 0
  currentMode := .oamSearch
  ticks := 0
  windowCurrentY := 0

/-- The mode in the two low bits of the status register. -/
def modeValue : PpuMode → Byte
  | .hBlank => 0b00
  | .vBlank => 0b01
  | .oamSearch => 0b10
  | .pixelTransfer => 0b11

/-- The bit that enables the interrupt of a mode. -/
def interruptSourceBitIndex : PpuMode → Option ℕ
  | .hBlank => some 3
  | .vBlank => some 4
  | .oamSearch => some 5
  | .pixelTransfer => none

def updateStatus (s : Ppu) : StatusUpdate → Ppu × List Signal
  | .lycEqualsLy equals =>
    let stat := if equals then s.stat ||| 0b100 else s.stat &&& ~~~0b100
    ({ s with stat := stat }, if equals ∧ stat.getLsbD 6 then [.interrupt .lcdStat] else [])
  | .mode mode =>
    let stat := (s.stat &&& ~~~0b11) ||| modeValue mode
    ({ s with stat := stat },
      match interruptSourceBitIndex mode with
      | some bit => if stat.getLsbD bit then [.interrupt .lcdStat] else []
      | none => [])

def setMode (s : Ppu) (state : PpuMode) : Ppu × List Signal :=
  let updated := s.updateStatus (.mode state)
  if state = .vBlank then
    ({ updated.1 with currentMode := state, windowCurrentY := 0 },
      updated.2 ++ [.interrupt .vBlank, .renderToScreen])
  else ({ updated.1 with currentMode := state }, updated.2)

/-! ### Drawing -/

def tileDataBaseAddress (s : Ppu) : ℕ := if s.lcdControl.getLsbD 4 then 0x8000 else 0x8800

def backgroundTileMapBaseAddress (s : Ppu) : ℕ := if s.lcdControl.getLsbD 3 then 0x9c00 else 0x9800

def windowTileMapBaseAddress (s : Ppu) : ℕ := if s.lcdControl.getLsbD 6 then 0x9c00 else 0x9800

def isWindowEnabled (s : Ppu) : Bool := s.lcdControl.getLsbD 5

/-- The eight pixels of a row of a tile. -/
def getTileRowFromVram {α : Type} (mem : Memory) (tileBaseAddress rowIdx : ℕ)
    (colorIdToColor : ℕ → α) : List α :=
  let rowBaseAddress := tileBaseAddress + rowIdx * 2
  let rowByte1 := mem (BitVec.ofNat 16 rowBaseAddress)
  let rowByte2 := mem (BitVec.ofNat 16 (rowBaseAddress + 1))
  (List.range 8).map fun pxIdx =>
    colorIdToColor
      ((rowByte2.getLsbD (tileWidth - pxIdx - 1)).toNat * 2
        + (rowByte1.getLsbD (tileWidth - pxIdx - 1)).toNat)

def getTileRowFromTileGrid (s : Ppu) (mem : Memory) (tileMapBaseAddress rowIdx x y : ℕ) :
    List Rgb :=
  let tileGridLookupIdx := y / 8 * 32 + x / 8
  let tileIdx := mem (BitVec.ofNat 16 (tileMapBaseAddress + tileGridLookupIdx))
  let tileBaseAddress : ℕ :=
    -- the second table counts tiles from `0x9000`, in both directions
    if s.tileDataBaseAddress = 0x8800 then
      (0x9000#16 + tileIdx.signExtend 16 * 16#16).toNat
    else s.tileDataBaseAddress + tileIdx.toNat * 16
  getTileRowFromVram mem tileBaseAddress rowIdx (paletteShade s.bgp)

/-- The variables of the loop over the pixels of a line. -/
structure LineCursor where
  renderedPixelCount : ℕ
  backgroundTileBaseX : ℕ
  cursorWithinTilePixels : ℕ
  tileRow : List Rgb
  isFetchingFromWindowTileMap : Bool
  frame : List Byte

/-- `will_draw_window_this_scanline`. -/
def drawsWindow (s : Ppu) (screenY : Byte) : Bool :=
  s.isWindowEnabled && decide (s.wy ≤ screenY) && decide (s.wx.toNat < screenWidth + 7)

/-- The next row of pixels, when the last one is used up or the window begins here. -/
def fetchTile (s : Ppu) (checks : Bool) (mem : Memory) (screenY : Byte) (c : LineCursor) :
    Option LineCursor :=
  let renderedY := (screenY + s.scy).toNat
  let startsWindow := s.drawsWindow screenY && c.renderedPixelCount + 7 == s.wx.toNat
  if c.cursorWithinTilePixels = tileWidth ∨ startsWindow then
    if c.isFetchingFromWindowTileMap ∨ startsWindow then do
      let x ← subUsize checks c.renderedPixelCount s.wx.toNat
      let y := s.windowCurrentY
      some
        { c with
          cursorWithinTilePixels := 0
          isFetchingFromWindowTileMap := true
          tileRow := s.getTileRowFromTileGrid mem s.windowTileMapBaseAddress (y % tileHeight)
            ((x + 7) % 2 ^ 64) y }
    else
      let tileX :=
        if 256 ≤ c.backgroundTileBaseX + tileWidth then 0 else c.backgroundTileBaseX + tileWidth
      some
        { c with
          cursorWithinTilePixels := 0
          backgroundTileBaseX := tileX
          tileRow := s.getTileRowFromTileGrid mem s.backgroundTileMapBaseAddress
            (renderedY % tileHeight) tileX renderedY }
  else some c

/-- One turn of the loop. -/
def renderPixel (s : Ppu) (checks : Bool) (mem : Memory) (screenY : Byte) (c : LineCursor) :
    Option LineCursor := do
  let c ← s.fetchTile checks mem screenY c
  let px ← c.tileRow[c.cursorWithinTilePixels]?
  let frame ← putPixel c.frame (screenY.toNat * screenWidth * 4 + c.renderedPixelCount * 4) px
  some
    { c with
      frame := frame
      renderedPixelCount := c.renderedPixelCount + 1
      cursorWithinTilePixels := c.cursorWithinTilePixels + 1 }

def renderPixels (s : Ppu) (checks : Bool) (mem : Memory) (screenY : Byte) :
    ℕ → LineCursor → Option LineCursor
  | 0, c => some c
  | n + 1, c => (s.renderPixel checks mem screenY c).bind (s.renderPixels checks mem screenY n)

/-- The variables of the loop at its start: the tile under the left edge. -/
def lineStart (s : Ppu) (mem : Memory) (screenY : Byte) : LineCursor where
  renderedPixelCount := 0
  backgroundTileBaseX := s.scx.toNat / tileWidth * tileWidth
  cursorWithinTilePixels := s.scx.toNat - s.scx.toNat / tileWidth * tileWidth
  tileRow := s.getTileRowFromTileGrid mem s.backgroundTileMapBaseAddress
    ((screenY + s.scy).toNat % tileHeight) (s.scx.toNat / tileWidth * tileWidth)
    (screenY + s.scy).toNat
  isFetchingFromWindowTileMap := false
  frame := s.frame

/-- The new pixel buffer and the new line of the window. -/
def renderScanline (s : Ppu) (checks : Bool) (mem : Memory) (screenY : Byte) :
    Option (List Byte × ℕ) := do
  let c ← s.renderPixels checks mem screenY screenWidth (s.lineStart mem screenY)
  some (c.frame, if s.drawsWindow screenY then s.windowCurrentY + 1 else s.windowCurrentY)

/-- The pixels of a row of a sprite, up to the right edge of the screen; `none` is transparent. -/
def putSpriteRow (tileRow : List (Option Rgb)) (rowBase spriteX : ℕ) (flipped : Bool) :
    ℕ → ℕ → List Byte → Option (List Byte)
  | _, 0, frame => some frame
  | xIdx, n + 1, frame => do
    let pxX := spriteX + xIdx
    if screenWidth ≤ pxX then some frame
    else
      let px ← tileRow[if flipped then 7 - xIdx else xIdx]?
      let frame ← match px with
        | some px => putPixel frame (rowBase + pxX * 4) px
        | none => some frame
      putSpriteRow tileRow rowBase spriteX flipped (xIdx + 1) n frame

/-- One entry of OAM: its row on this line, if it has one. -/
def renderSprite (s : Ppu) (checks : Bool) (mem : Memory) (screenY : Byte) (frame : List Byte)
    (i : ℕ) : Option (List Byte) := do
  let entry := 0xfe00 + i * 4
  let startY := (mem (BitVec.ofNat 16 entry)).toNat
  let startX := (mem (BitVec.ofNat 16 (entry + 1))).toNat
  let tileIndex := mem (BitVec.ofNat 16 (entry + 2))
  let attributes := mem (BitVec.ofNat 16 (entry + 3))
  let spriteX ← subUsize checks startX 8
  let spriteY ← subUsize checks startY 16
  let doubleHeight := s.lcdControl.getLsbD 2
  let height := if doubleHeight then 16 else 8
  if screenY.toNat < spriteY ∨ spriteY + height ≤ screenY.toNat then some frame
  else
    let row := screenY.toNat - spriteY
    let row := if attributes.getLsbD 6 then height - 1 - row else row
    let (row, tileIndex) ←
      if doubleHeight ∧ 8 ≤ row then (incU8 checks tileIndex).map fun index => (row - 8, index)
      else some (row, tileIndex)
    let palette := if attributes.getLsbD 4 then s.obp1 else s.obp0
    let tileRow := getTileRowFromVram mem (0x8000 + tileIndex.toNat * 16) row fun colorId =>
      if colorId = 0 then none else some (paletteShade palette colorId)
    putSpriteRow tileRow (screenY.toNat * screenWidth * 4) spriteX (attributes.getLsbD 5) 0
      tileWidth frame

def renderSpritesOnScanline (s : Ppu) (checks : Bool) (mem : Memory) (screenY : Byte) :
    Option (List Byte) :=
  (List.range 40).foldlM (s.renderSprite checks mem screenY) s.frame

/-! ### Steps and writes -/

/-- The drawing of a line, on its 64th step. -/
def drawLine (s : Ppu) (checks : Bool) (mem : Memory) : Option (Ppu × List Signal) := do
  let (frame, windowCurrentY) ← s.renderScanline checks mem s.ly
  let s := { s with frame := frame, windowCurrentY := windowCurrentY }
  let frame ← s.renderSpritesOnScanline checks mem s.ly
  let s := { s with frame := frame }
  let (t, signals) := s.updateStatus (.lycEqualsLy (decide (s.ly = s.lyc)))
  some (t, .scanline s.ly s.lyc :: signals)

def step (s : Ppu) (checks : Bool) (mem : Memory) : Option (Ppu × List Signal) :=
  let s := { s with ticks := s.ticks + 1 }
  match s.currentMode with
  | .oamSearch => if s.ticks = 20 then some (s.setMode .pixelTransfer) else some (s, [])
  | .pixelTransfer => if s.ticks = 63 then some (s.setMode .hBlank) else some (s, [])
  | .hBlank => do
    let (s, drawn) ← if s.ticks = 64 then s.drawLine checks mem else some (s, [])
    if s.ticks = 114 then
      let ly ← incU8 checks s.ly
      let s := { s with ticks := 0, ly := ly }
      let (s, signals) := s.setMode (if ly.toNat = windowHeight then .vBlank else .oamSearch)
      some (s, drawn ++ signals)
    else some (s, drawn)
  | .vBlank =>
    if s.ticks = 114 then do
      let ly ← incU8 checks s.ly
      let s := { s with ticks := 0, ly := ly }
      if ly = 153 then some ({ s with ly := 0 }.setMode .oamSearch) else some (s, [])
    else some (s, [])

/-- The registers of the unit. -/
def contains (addr : BitVec 16) : Bool :=
  match addr.toNat with
  | 0xff40 | 0xff44 | 0xff45 | 0xff42 | 0xff43 | 0xff41 | 0xff47 | 0xff48 | 0xff49 | 0xff4b
  | 0xff4a => true
  | _ => false

/-- A write to a register of the unit; `none` for an address that is not its own. -/
def write (s : Ppu) (addr : BitVec 16) (val : Byte) : Option Ppu :=
  match addr.toNat with
  | 0xff40 => some { s with lcdControl := val }
  -- not allowed
  | 0xff44 => some s
  | 0xff45 => some { s with lyc := val }
  | 0xff42 => some { s with scy := val }
  | 0xff43 => some { s with scx := val }
  -- the three low bits are read-only
  | 0xff41 => some { s with stat := (val &&& ~~~0b111) ||| (s.stat &&& 0b111) }
  | 0xff47 => some { s with bgp := val }
  | 0xff48 => some { s with obp0 := val }
  | 0xff49 => some { s with obp1 := val }
  | 0xff4b => some { s with wx := val }
  | 0xff4a => some { s with wy := val }
  | _ => none

end Ppu

/-! ### Runs -/

/-- The unit, the number of its steps and all it has signalled, oldest first. -/
structure PpuHistory where
  ppu : Ppu
  steps : ℕ
  signals : List Signal

inductive PpuEvent where
  | step (mem : Memory)
  | write (addr : BitVec 16) (val : Byte)

def PpuHistory.start (frame : List Byte) : PpuHistory := ⟨Ppu.new frame, 0, []⟩

def ppuNext (checks : Bool) (h : PpuHistory) : PpuEvent → Option PpuHistory
  | .step mem => (h.ppu.step checks mem).map fun next => ⟨next.1, h.steps + 1, h.signals ++ next.2⟩
  | .write addr val => (h.ppu.write addr val).map fun ppu => { h with ppu := ppu }

/-- The lines that were drawn, each with `LYC` at that time. -/
def drawnLines (signals : List Signal) : List (Byte × Byte) :=
  signals.filterMap fun
    | .scanline ly lyc => some (ly, lyc)
    | _ => none

def vBlanks (signals : List Signal) : ℕ := signals.count (.interrupt .vBlank)

/-- How often line `y` was drawn. -/
def timesDrawn (signals : List Signal) (y : ℕ) : ℕ :=
  (drawnLines signals).countP fun line => line.1.toNat = y

/-- The mode after `n` steps, where a frame has `lines` lines, and the search and the transfer of
each of the first 144 end with the steps `search` and `transfer`. -/
def modeAt (lines search transfer n : ℕ) : PpuMode :=
  if windowHeight ≤ n / 114 % lines then .vBlank
  else if n % 114 < search then .oamSearch
  else if n % 114 < transfer then .pixelTransfer
  else .hBlank

structure OnSchedule (lines search transfer : ℕ) (h : PpuHistory) : Prop where
  ly : h.ppu.ly.toNat = h.steps / 114 % lines
  mode : h.ppu.currentMode = modeAt lines search transfer h.steps

def ShowsMode (h : PpuHistory) : Prop := h.ppu.stat &&& 0b11 = Ppu.modeValue h.ppu.currentMode

def ShowsLyc (h : PpuHistory) : Prop := h.ppu.stat.getLsbD 2 = true ↔ h.ppu.ly = h.ppu.lyc

/-- The registers show the mode and the comparison, a frame has 154 lines of 114 steps, and each
frame has one request for the vertical blank and draws each line once. -/
structure ModeMachine (checks : Bool) (frame : List Byte) (es : List PpuEvent) : Prop where
  mode : ∀ h, Passes (ppuNext checks) (.start frame) es h → ShowsMode h
  lyc : ∀ h, Passes (ppuNext checks) (.start frame) es h → ShowsLyc h
  ly : ∀ h, Passes (ppuNext checks) (.start frame) es h → h.ppu.ly.toNat < 154
  lines : ∃ search transfer, search < transfer ∧ transfer < 114 ∧
    ∀ h, Passes (ppuNext checks) (.start frame) es h → OnSchedule 154 search transfer h
  frames : ∀ h k, Passes (ppuNext checks) (.start frame) es h → h.steps = k * (154 * 114) →
    vBlanks h.signals = k ∧ ∀ y < windowHeight, timesDrawn h.signals y = k

/-- **Where the unit is.**  The status register shows the mode from the 20th step on and the
comparison of the line drawn last; the vertical blank has nine lines. -/
structure Timeline (h : PpuHistory) : Prop where
  schedule : OnSchedule 153 20 63 h
  ticks : h.ppu.ticks = h.steps % 114
  mode : h.ppu.stat &&& 0b11 = if h.steps < 20 then 0 else Ppu.modeValue h.ppu.currentMode
  lyc : h.ppu.stat.getLsbD 2 = true ↔
    ∃ line, (drawnLines h.signals).getLast? = some line ∧ line.1 = line.2
  vBlanks : vBlanks h.signals = (h.steps + 9 * 114) / (153 * 114)
  drawn : ∀ y < windowHeight,
    timesDrawn h.signals y = (h.steps + (153 * 114 - (y * 114 + 64))) / (153 * 114)

/-! ### One step -/

namespace Ppu

theorem setMode_ly (s : Ppu) (m : PpuMode) : (s.setMode m).1.ly = s.ly := by
  cases m <;> rfl

theorem setMode_ticks (s : Ppu) (m : PpuMode) : (s.setMode m).1.ticks = s.ticks := by
  cases m <;> rfl

theorem setMode_currentMode (s : Ppu) (m : PpuMode) : (s.setMode m).1.currentMode = m := by
  cases m <;> rfl

theorem setMode_stat (s : Ppu) (m : PpuMode) :
    (s.setMode m).1.stat = (s.stat &&& ~~~0b11) ||| modeValue m := by
  cases m <;> rfl

theorem modeValue_and (m : PpuMode) : modeValue m &&& 0b11 = modeValue m := by
  cases m <;> decide

theorem setMode_showsMode (s : Ppu) (m : PpuMode) :
    (s.setMode m).1.stat &&& 0b11 = modeValue m := by
  have hmask : (~~~0b11 : Byte) &&& 0b11 = 0 := by decide
  rw [setMode_stat, BitVec.and_or_distrib_right, BitVec.and_assoc, hmask, modeValue_and]
  simp

theorem setMode_lycBit (s : Ppu) (m : PpuMode) :
    (s.setMode m).1.stat.getLsbD 2 = s.stat.getLsbD 2 := by
  rw [setMode_stat, BitVec.getLsbD_or, BitVec.getLsbD_and]
  cases m <;> simp [modeValue]

theorem setMode_vBlanks (s : Ppu) (m : PpuMode) :
    vBlanks (s.setMode m).2 = if m = .vBlank then 1 else 0 := by
  cases m <;> simp only [setMode, updateStatus, interruptSourceBitIndex, vBlanks] <;>
    split_ifs <;> simp_all

theorem setMode_drawnLines (s : Ppu) (m : PpuMode) : drawnLines (s.setMode m).2 = [] := by
  cases m <;> simp only [setMode, updateStatus, interruptSourceBitIndex, drawnLines] <;>
    split_ifs <;> simp_all

theorem lycStat_mode (stat : Byte) (equals : Bool) :
    (if equals then stat ||| 0b100 else stat &&& ~~~0b100) &&& 0b11 = stat &&& 0b11 := by
  cases equals with
  | true =>
    have hmask : (0b100 : Byte) &&& 0b11 = 0 := by decide
    rw [if_pos rfl, BitVec.and_or_distrib_right, hmask]
    simp
  | false =>
    have hmask : (~~~0b100 : Byte) &&& 0b11 = 0b11 := by decide
    rw [if_neg Bool.false_ne_true, BitVec.and_assoc, hmask]

theorem lycStat_bit (stat : Byte) (equals : Bool) :
    (if equals then stat ||| 0b100 else stat &&& ~~~0b100).getLsbD 2 = equals := by
  cases equals <;> simp

theorem drawLine_spec {s t : Ppu} {checks : Bool} {mem : Memory} {signals : List Signal}
    (h : s.drawLine checks mem = some (t, signals)) :
    t.ly = s.ly ∧ t.ticks = s.ticks ∧ t.currentMode = s.currentMode ∧
      t.stat &&& 0b11 = s.stat &&& 0b11 ∧ (t.stat.getLsbD 2 = true ↔ s.ly = s.lyc) ∧
      vBlanks signals = 0 ∧ drawnLines signals = [(s.ly, s.lyc)] := by
  obtain ⟨⟨frame, windowCurrentY⟩, -, hsprites⟩ := Option.bind_eq_some_iff.mp h
  obtain ⟨frame', -, hlast⟩ := Option.bind_eq_some_iff.mp hsprites
  obtain ⟨ht, hsignals⟩ := Prod.ext_iff.mp (Option.some.inj hlast)
  have hstat : t.stat = if decide (s.ly = s.lyc) then s.stat ||| 0b100 else s.stat &&& ~~~0b100 :=
    (congrArg Ppu.stat ht).symm
  have hout : signals = .scanline s.ly s.lyc ::
      (s.updateStatus (.lycEqualsLy (decide (s.ly = s.lyc)))).2 := hsignals.symm
  refine ⟨(congrArg Ppu.ly ht).symm, (congrArg Ppu.ticks ht).symm,
    (congrArg Ppu.currentMode ht).symm, ?_, ?_, ?_, ?_⟩
  · rw [hstat, lycStat_mode]
  · rw [hstat, lycStat_bit, decide_eq_true_iff]
  · simp only [hout, updateStatus, vBlanks]
    split_ifs <;> rfl
  · simp only [hout, updateStatus, drawnLines]
    split_ifs <;> rfl

end Ppu

theorem vBlanks_append (a b : List Signal) : vBlanks (a ++ b) = vBlanks a + vBlanks b :=
  List.count_append

theorem drawnLines_append (a b : List Signal) :
    drawnLines (a ++ b) = drawnLines a ++ drawnLines b := List.filterMap_append

theorem timesDrawn_append (a b : List Signal) (y : ℕ) :
    timesDrawn (a ++ b) y = timesDrawn a y + timesDrawn b y := by
  rw [timesDrawn, drawnLines_append, List.countP_append]
  rfl

variable {signals : List Signal} {h : PpuHistory} {t s : Ppu} {checks : Bool} {es : List PpuEvent}
  {frame : List Byte}

theorem timesDrawn_of_nil (h : drawnLines signals = []) (y : ℕ) : timesDrawn signals y = 0 := by
  rw [timesDrawn, h]
  rfl

theorem Timeline.of_quiet (hh : Timeline h)
    (hschedule : OnSchedule 153 20 63 ⟨t, h.steps + 1, h.signals ++ signals⟩)
    (hticks : t.ticks = (h.steps + 1) % 114)
    (hmode : t.stat &&& 0b11 = if h.steps + 1 < 20 then 0 else Ppu.modeValue t.currentMode)
    (hlyc : t.stat.getLsbD 2 = h.ppu.stat.getLsbD 2)
    (hblank : GameBoy.vBlanks signals = if (h.steps + 1) % (153 * 114) = 144 * 114 then 1 else 0)
    (hdrawn : drawnLines signals = [])
    (hnot : h.steps / 114 % 153 < 144 → (h.steps + 1) % 114 ≠ 64) :
    Timeline ⟨t, h.steps + 1, h.signals ++ signals⟩ where
  schedule := hschedule
  ticks := hticks
  mode := hmode
  lyc := by
    rw [hlyc, drawnLines_append, hdrawn, List.append_nil]
    exact hh.lyc
  vBlanks := by
    rw [vBlanks_append, hh.vBlanks, hblank]
    show _ = (h.steps + 1 + 9 * 114) / (153 * 114)
    split_ifs <;> omega
  drawn := by
    intro y hy
    rw [timesDrawn_append, timesDrawn_of_nil hdrawn, hh.drawn y hy]
    show _ = (h.steps + 1 + (153 * 114 - (y * 114 + 64))) / (153 * 114)
    unfold windowHeight at hy
    omega

section

variable {n : ℕ}

section

variable (hline : n / 114 % 153 < 144)

include hline

theorem modeAt_oamSearch (hdot : n % 114 < 20) : modeAt 153 20 63 n = .oamSearch := by
  rw [modeAt, windowHeight, if_neg (Nat.not_le.mpr hline), if_pos hdot]

theorem modeAt_pixelTransfer (hlow : 20 ≤ n % 114) (hhigh : n % 114 < 63) :
    modeAt 153 20 63 n = .pixelTransfer := by
  rw [modeAt, windowHeight, if_neg (Nat.not_le.mpr hline), if_neg (Nat.not_lt.mpr hlow), if_pos hhigh]

theorem modeAt_hBlank (hdot : 63 ≤ n % 114) : modeAt 153 20 63 n = .hBlank := by
  rw [modeAt, windowHeight, if_neg (Nat.not_le.mpr hline), if_neg (by omega),
    if_neg (Nat.not_lt.mpr hdot)]

end

theorem modeAt_vBlank (hline : 144 ≤ n / 114 % 153) : modeAt 153 20 63 n = .vBlank := by
  rw [modeAt, windowHeight, if_pos hline]

end

theorem Timeline.of_tick (hh : Timeline h) (hmode : t.currentMode = h.ppu.currentMode)
    (hstat : t.stat = h.ppu.stat) (hly : t.ly.toNat = (h.steps + 1) / 114 % 153)
    (hticks : t.ticks = (h.steps + 1) % 114)
    (hsame : modeAt 153 20 63 (h.steps + 1) = modeAt 153 20 63 h.steps) (hfirst : h.steps ≠ 19)
    (hblank : (h.steps + 1) % (153 * 114) ≠ 144 * 114)
    (hnot : h.steps / 114 % 153 < 144 → (h.steps + 1) % 114 ≠ 64) :
    Timeline ⟨t, h.steps + 1, h.signals ++ []⟩ := by
  refine hh.of_quiet ⟨hly, ?_⟩ hticks ?_ (by rw [hstat]) (by rw [if_neg hblank]; rfl) rfl hnot
  · show t.currentMode = modeAt 153 20 63 (h.steps + 1)
    rw [hmode, hsame, hh.schedule.mode]
  · rw [hstat, hmode, hh.mode]
    exact if_congr (by omega) rfl rfl

theorem Timeline.of_setMode (hh : Timeline h) {u : Ppu} {m : PpuMode}
    (hm : m = modeAt 153 20 63 (h.steps + 1)) (hstat : u.stat = h.ppu.stat)
    (hly : u.ly.toNat = (h.steps + 1) / 114 % 153) (hticks : u.ticks = (h.steps + 1) % 114)
    (hfirst : 19 ≤ h.steps) (hblank : m = .vBlank ↔ (h.steps + 1) % (153 * 114) = 144 * 114)
    (hnot : h.steps / 114 % 153 < 144 → (h.steps + 1) % 114 ≠ 64) :
    Timeline ⟨(u.setMode m).1, h.steps + 1, h.signals ++ (u.setMode m).2⟩ := by
  refine hh.of_quiet ⟨?_, ?_⟩ ?_ ?_ ?_ ?_ (u.setMode_drawnLines m) hnot
  · show (u.setMode m).1.ly.toNat = (h.steps + 1) / 114 % 153
    rw [u.setMode_ly, hly]
  · show (u.setMode m).1.currentMode = modeAt 153 20 63 (h.steps + 1)
    rw [u.setMode_currentMode, hm]
  · rw [u.setMode_ticks, hticks]
  · rw [u.setMode_showsMode, u.setMode_currentMode, if_neg (by omega)]
  · rw [u.setMode_lycBit, hstat]
  · rw [u.setMode_vBlanks]
    exact if_congr hblank rfl rfl

theorem Timeline.of_drawLine (hh : Timeline h) {mem : Memory}
    (hdraw : s.drawLine checks mem = some (t, signals)) (hly : s.ly = h.ppu.ly)
    (hmode : s.currentMode = h.ppu.currentMode) (hstat : s.stat = h.ppu.stat)
    (hticks : s.ticks = (h.steps + 1) % 114) (hline : h.steps / 114 % 153 < 144)
    (hdot : h.steps % 114 = 63) : Timeline ⟨t, h.steps + 1, h.signals ++ signals⟩ := by
  obtain ⟨hly', hticks', hmode', hstat', hlyc, hblank, hdrawn⟩ := Ppu.drawLine_spec hdraw
  have hschedule := hh.schedule
  have hhBlank : modeAt 153 20 63 (h.steps + 1) = modeAt 153 20 63 h.steps := by
    rw [modeAt_hBlank hline hdot.ge, modeAt_hBlank (by omega) (by omega)]
  refine ⟨⟨?_, ?_⟩, ?_, ?_, ?_, ?_, ?_⟩
  · show t.ly.toNat = (h.steps + 1) / 114 % 153
    rw [hly', hly, hschedule.ly]
    omega
  · show t.currentMode = modeAt 153 20 63 (h.steps + 1)
    rw [hmode', hmode, hhBlank, hschedule.mode]
  · show t.ticks = (h.steps + 1) % 114
    rw [hticks', hticks]
  · show t.stat &&& 0b11 = if h.steps + 1 < 20 then 0 else Ppu.modeValue t.currentMode
    rw [hstat', hstat, hh.mode, hmode', hmode]
    exact if_congr (by omega) rfl rfl
  · show t.stat.getLsbD 2 = true ↔ _
    rw [hlyc, drawnLines_append, hdrawn, List.getLast?_concat]
    exact ⟨fun heq => ⟨_, rfl, heq⟩, fun ⟨line, hlast, heq⟩ => by
      cases hlast
      exact heq⟩
  · show GameBoy.vBlanks (h.signals ++ signals) = (h.steps + 1 + 9 * 114) / (153 * 114)
    rw [vBlanks_append, hblank, hh.vBlanks]
    omega
  · intro y hy
    show timesDrawn (h.signals ++ signals) y
      = (h.steps + 1 + (153 * 114 - (y * 114 + 64))) / (153 * 114)
    have hone : timesDrawn signals y = if h.steps / 114 % 153 = y then 1 else 0 := by
      rw [timesDrawn, hdrawn, List.countP_singleton]
      exact if_congr (by rw [decide_eq_true_iff, hly, hschedule.ly]) rfl rfl
    rw [timesDrawn_append, hh.drawn y hy, hone]
    split_ifs <;> omega

theorem incU8_eq_some {a b : Byte} (h : incU8 checks a = some b) (ha : a.toNat < 255) :
    b.toNat = a.toNat + 1 := by
  unfold incU8 at h
  split_ifs at h
  rw [← Option.some.inj h, BitVec.toNat_add]
  exact Nat.mod_eq_of_lt (by simp; omega)

/-- **One step of the unit** follows the timeline. -/
theorem Timeline.step {h : PpuHistory} (hh : Timeline h) {checks : Bool} {mem : Memory} {t : Ppu}
    {signals : List Signal} (hstep : h.ppu.step checks mem = some (t, signals)) :
    Timeline ⟨t, h.steps + 1, h.signals ++ signals⟩ := by
  have hticks := hh.ticks
  have hly := hh.schedule.ly
  have hm := hh.schedule.mode
  unfold modeAt windowHeight at hm
  cases hmode : h.ppu.currentMode with
  | oamSearch =>
    rw [hmode] at hm
    split_ifs at hm with hline hsearch htransfer
    have hsame := modeAt_oamSearch (Nat.not_le.mp hline) hsearch
    simp only [Ppu.step, hmode] at hstep
    split_ifs at hstep with hend
    · obtain ⟨rfl, rfl⟩ := Prod.ext_iff.mp (Option.some.inj hstep)
      refine hh.of_setMode ?_ rfl ?_ ?_ ?_ ?_ ?_
      · exact (modeAt_pixelTransfer (by omega) (by omega) (by omega)).symm
      · show h.ppu.ly.toNat = _
        omega
      · show h.ppu.ticks + 1 = _
        omega
      · omega
      · exact ⟨fun hv => absurd hv (by decide), fun hv => by omega⟩
      · omega
    · obtain ⟨rfl, rfl⟩ := Prod.ext_iff.mp (Option.some.inj hstep)
      refine hh.of_tick hmode.symm rfl ?_ ?_ ?_ ?_ ?_ ?_
      · show h.ppu.ly.toNat = _
        omega
      · show h.ppu.ticks + 1 = _
        omega
      · rw [hsame, modeAt_oamSearch (by omega) (by omega)]
      · omega
      · omega
      · omega
  | pixelTransfer =>
    rw [hmode] at hm
    split_ifs at hm with hline hsearch htransfer
    have hsame := modeAt_pixelTransfer (Nat.not_le.mp hline) (Nat.not_lt.mp hsearch) htransfer
    simp only [Ppu.step, hmode] at hstep
    split_ifs at hstep with hend
    · obtain ⟨rfl, rfl⟩ := Prod.ext_iff.mp (Option.some.inj hstep)
      refine hh.of_setMode ?_ rfl ?_ ?_ ?_ ?_ ?_
      · exact (modeAt_hBlank (by omega) (by omega)).symm
      · show h.ppu.ly.toNat = _
        omega
      · show h.ppu.ticks + 1 = _
        omega
      · omega
      · exact ⟨fun hv => absurd hv (by decide), fun hv => by omega⟩
      · omega
    · obtain ⟨rfl, rfl⟩ := Prod.ext_iff.mp (Option.some.inj hstep)
      refine hh.of_tick hmode.symm rfl ?_ ?_ ?_ ?_ ?_ ?_
      · show h.ppu.ly.toNat = _
        omega
      · show h.ppu.ticks + 1 = _
        omega
      · rw [hsame, modeAt_pixelTransfer (by omega) (by omega) (by omega)]
      · omega
      · omega
      · omega
  | hBlank =>
    rw [hmode] at hm
    split_ifs at hm with hline hsearch htransfer
    have hsame := modeAt_hBlank (Nat.not_le.mp hline) (Nat.not_lt.mp htransfer)
    simp only [Ppu.step, hmode] at hstep
    by_cases hdraw : h.ppu.ticks + 1 = 64
    · rw [if_pos hdraw] at hstep
      obtain ⟨⟨s, drawn⟩, hs, hrest⟩ := Option.bind_eq_some_iff.mp hstep
      have hsticks : s.ticks = h.ppu.ticks + 1 := (Ppu.drawLine_spec hs).2.1
      simp only [hsticks] at hrest
      rw [if_neg (by omega)] at hrest
      obtain ⟨rfl, rfl⟩ := Prod.ext_iff.mp (Option.some.inj hrest)
      refine hh.of_drawLine hs rfl hmode.symm rfl ?_ (by omega) (by omega)
      show h.ppu.ticks + 1 = _
      omega
    · simp only [Option.bind_eq_bind, Option.bind_some] at hstep
      split_ifs at hstep with hend
      · obtain ⟨ly, hinc, hrest⟩ := Option.bind_eq_some_iff.mp hstep
        have hly' := incU8_eq_some hinc (by omega)
        obtain ⟨rfl, rfl⟩ := Prod.ext_iff.mp (Option.some.inj hrest)
        refine hh.of_setMode ?_ rfl ?_ ?_ ?_ ?_ ?_
        · unfold windowHeight
          split_ifs with hbottom
          · exact (modeAt_vBlank (by omega)).symm
          · exact (modeAt_oamSearch (by omega) (by omega)).symm
        · show ly.toNat = _
          omega
        · show 0 = _
          omega
        · omega
        · unfold windowHeight
          split_ifs with hbottom
          · exact ⟨fun _ => by omega, fun _ => rfl⟩
          · exact ⟨fun hv => absurd hv (by decide), fun hv => by omega⟩
        · omega
      · obtain ⟨rfl, rfl⟩ := Prod.ext_iff.mp (Option.some.inj hstep)
        refine hh.of_tick hmode.symm rfl ?_ ?_ ?_ ?_ ?_ ?_
        · show h.ppu.ly.toNat = _
          omega
        · show h.ppu.ticks + 1 = _
          omega
        · rw [hsame, modeAt_hBlank (by omega) (by omega)]
        · omega
        · omega
        · omega
  | vBlank =>
    rw [hmode] at hm
    split_ifs at hm with hline
    have hsame := modeAt_vBlank hline
    simp only [Ppu.step, hmode] at hstep
    split_ifs at hstep with hend
    · obtain ⟨ly, hinc, hrest⟩ := Option.bind_eq_some_iff.mp hstep
      have hly' := incU8_eq_some hinc (by omega)
      split_ifs at hrest with htop
      · have hlast : ly.toNat = 153 := by rw [htop]; rfl
        obtain ⟨rfl, rfl⟩ := Prod.ext_iff.mp (Option.some.inj hrest)
        refine hh.of_setMode ?_ rfl ?_ ?_ ?_ ?_ ?_
        · exact (modeAt_oamSearch (by omega) (by omega)).symm
        · show 0 = _
          omega
        · show 0 = _
          omega
        · omega
        · exact ⟨fun hv => absurd hv (by decide), fun hv => by omega⟩
        · omega
      · have hlast : ly.toNat ≠ 153 := fun heq => htop (BitVec.eq_of_toNat_eq heq)
        obtain ⟨rfl, rfl⟩ := Prod.ext_iff.mp (Option.some.inj hrest)
        refine hh.of_tick hmode.symm rfl ?_ ?_ ?_ ?_ ?_ ?_
        · show ly.toNat = _
          omega
        · show 0 = _
          omega
        · rw [hsame, modeAt_vBlank (by omega)]
        · omega
        · omega
        · omega
    · obtain ⟨rfl, rfl⟩ := Prod.ext_iff.mp (Option.some.inj hstep)
      refine hh.of_tick hmode.symm rfl ?_ ?_ ?_ ?_ ?_ ?_
      · show h.ppu.ly.toNat = _
        omega
      · show h.ppu.ticks + 1 = _
        omega
      · rw [hsame, modeAt_vBlank (by omega)]
      · omega
      · omega
      · omega

/-- A write keeps the counters, the mode and the three low bits of the status. -/
theorem Ppu.write_spec {addr : BitVec 16} {val : Byte} (h : s.write addr val = some t) :
    t.ly = s.ly ∧ t.ticks = s.ticks ∧ t.currentMode = s.currentMode ∧
      t.stat &&& 0b11 = s.stat &&& 0b11 ∧ t.stat.getLsbD 2 = s.stat.getLsbD 2 := by
  have hmode : ((val &&& ~~~0b111) ||| (s.stat &&& 0b111)) &&& 0b11 = s.stat &&& 0b11 := by
    have hhigh : (~~~0b111 : Byte) &&& 0b11 = 0 := by decide
    have hlow : (0b111 : Byte) &&& 0b11 = 0b11 := by decide
    rw [BitVec.and_or_distrib_right, BitVec.and_assoc, BitVec.and_assoc, hhigh, hlow]
    simp
  have hlyc : ((val &&& ~~~0b111) ||| (s.stat &&& 0b111)).getLsbD 2 = s.stat.getLsbD 2 := by
    simp
  unfold Ppu.write at h
  split at h
  all_goals first
    | (obtain rfl := Option.some.inj h
       exact ⟨rfl, rfl, rfl, rfl, rfl⟩)
    | (obtain rfl := Option.some.inj h
       exact ⟨rfl, rfl, rfl, hmode, hlyc⟩)
    | cases h

theorem Timeline.next {h t : PpuHistory} {checks : Bool} {e : PpuEvent} (hh : Timeline h)
    (hnext : ppuNext checks h e = some t) : Timeline t := by
  cases e with
  | step mem =>
    obtain ⟨⟨ppu, signals⟩, hstep, rfl⟩ := Option.map_eq_some_iff.mp hnext
    exact hh.step hstep
  | write addr val =>
    obtain ⟨ppu, hwrite, rfl⟩ := Option.map_eq_some_iff.mp hnext
    obtain ⟨hly, hticks, hmode, hstat, hlyc⟩ := Ppu.write_spec hwrite
    exact ⟨⟨hly ▸ hh.schedule.ly, hmode ▸ hh.schedule.mode⟩, hticks ▸ hh.ticks,
      by show ppu.stat &&& 0b11 = _; rw [hstat, hmode]; exact hh.mode,
      by show ppu.stat.getLsbD 2 = true ↔ _; rw [hlyc]; exact hh.lyc, hh.vBlanks, hh.drawn⟩

theorem Timeline.start (frame : List Byte) : Timeline (.start frame) where
  schedule := ⟨by simp [PpuHistory.start, Ppu.new],
    (modeAt_oamSearch (n := 0) (by decide) (by decide)).symm⟩
  ticks := rfl
  mode := by simp [PpuHistory.start, Ppu.new]
  lyc := by simp [PpuHistory.start, Ppu.new, drawnLines]
  vBlanks := by simp [PpuHistory.start, GameBoy.vBlanks]
  drawn := by
    intro y hy
    show 0 = (0 + (153 * 114 - (y * 114 + 64))) / (153 * 114)
    omega

theorem Timeline.of_passes (hpass : Passes (ppuNext checks) (.start frame) es h) : Timeline h :=
  passes_invariant (fun _ _ _ hs _ hnext => hs.next hnext) (Timeline.start frame)
    (Meets.trivial es _) hpass

/-! ### Subtractions, pixels and rows -/

namespace Ppu

/-- The size of the screen's buffer. -/
def frameSize : ℕ := screenWidth * windowHeight * 4

theorem subUsize_off (a b : ℕ) : ∃ c, subUsize false a b = some c := by
  unfold subUsize
  split_ifs with hle hchecks
  · exact ⟨_, rfl⟩
  · cases hchecks
  · exact ⟨_, rfl⟩

theorem incU8_off (a : Byte) : incU8 false a = some (a + 1) :=
  if_neg fun h => Bool.false_ne_true h.2

variable {frame : List Byte}

theorem putPixel_some {offset : ℕ} (px : Rgb) (h : offset + 3 < frame.length) :
    ∃ frame', putPixel frame offset px = some frame' ∧ frame'.length = frame.length := by
  rw [putPixel, if_pos h]
  exact ⟨_, rfl, by simp⟩

theorem getTileRowFromVram_length {α : Type} (mem : Memory) (base row : ℕ) (color : ℕ → α) :
    (getTileRowFromVram mem base row color).length = 8 := by
  simp [getTileRowFromVram]

end Ppu

end Axle.GameBoy
