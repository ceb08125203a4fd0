import Axle.GameBoy.Ppu

/-!
# The background and the window of a line

A line of the screen is drawn from left to right out of rows of eight pixels.  The first row starts
somewhere in a tile, the rows of the background wrap at the edge of the map, and the source changes
to the window's map at the pixel whose number is seven below `WX`.

* `lineColor` — the colour a pixel should have; `shownColor` — the one it gets;
* `renderPixels_spec` — **PROVED**: what every number of turns of the loop draws, and where the
  subtraction that finds the column of the window underflows;
* `renderScanline_iff` — **PROVED**: lines are drawn as they should be unless the window is on them;
  without the checks, unless it starts to the left of the screen.
-/

namespace Axle.GameBoy

namespace Ppu

/-! ### The picture -/

/-- A column of a row of a tile: a bit of each of its two bytes. -/
def colorNumber (mem : Memory) (rowAddress col : ℕ) : ℕ :=
  ((mem (BitVec.ofNat 16 (rowAddress + 1))).getLsbD (7 - col)).toNat * 2
    + ((mem (BitVec.ofNat 16 rowAddress)).getLsbD (7 - col)).toNat

/-- Tiles are counted from `0x8000`, or from `0x9000` in both directions. -/
def tileAddress (s : Ppu) (tile : Byte) : ℕ :=
  if s.lcdControl.getLsbD 4 then 0x8000 + 16 * tile.toNat else (0x9000 + 16 * tile.toInt).toNat

/-- The colour at a point of a map of 32 x 32 tiles. -/
def mapColor (s : Ppu) (mem : Memory) (tileMap x y : ℕ) : Rgb :=
  let tile := mem (BitVec.ofNat 16 (tileMap + y / 8 * 32 + x / 8))
  paletteShade s.bgp (colorNumber mem (s.tileAddress tile + y % 8 * 2) (x % 8))

def backgroundColor (s : Ppu) (mem : Memory) (screenY : Byte) (x : ℕ) : Rgb :=
  s.mapColor mem s.backgroundTileMapBaseAddress ((x + s.scx.toNat) % 256)
    ((screenY.toNat + s.scy.toNat) % 256)

def windowColor (s : Ppu) (mem : Memory) (x : ℕ) : Rgb :=
  s.mapColor mem s.windowTileMapBaseAddress (x + 7 - s.wx.toNat) s.windowCurrentY

/-- The window is enabled and covers the pixel. -/
def InWindow (s : Ppu) (screenY : Byte) (x : ℕ) : Prop :=
  s.isWindowEnabled = true ∧ s.wy ≤ screenY ∧ s.wx.toNat ≤ x + 7

instance (s : Ppu) (screenY : Byte) (x : ℕ) : Decidable (s.InWindow screenY x) :=
  inferInstanceAs (Decidable (_ ∧ _ ∧ _))

def lineColor (s : Ppu) (mem : Memory) (screenY : Byte) (x : ℕ) : Rgb :=
  if s.InWindow screenY x then s.windowColor mem x else s.backgroundColor mem screenY x

/-- The four bytes of a pixel. -/
def PixelIs (frame : List Byte) (offset : ℕ) (px : Rgb) : Prop :=
  frame[offset]? = some px.1 ∧ frame[offset + 1]? = some px.2.1 ∧
    frame[offset + 2]? = some px.2.2 ∧ frame[offset + 3]? = some 0xff

/-- The first `n` pixels of a line have been painted, and nothing else. -/
structure Painted (y n : ℕ) (color : ℕ → Rgb) (old new : List Byte) : Prop where
  length : new.length = old.length
  inside : ∀ x < n, PixelIs new (y * screenWidth * 4 + x * 4) (color x)
  outside : ∀ i, i < y * screenWidth * 4 ∨ y * screenWidth * 4 + n * 4 ≤ i → new[i]? = old[i]?

/-- **What a line should be.**  Nothing underflows or is out of range, the pixels have their
colours, and the line of the window moves on where the window is. -/
def RendersLine (s : Ppu) (checks : Bool) (mem : Memory) (screenY : Byte) : Prop :=
  ∃ frame windowY, s.renderScanline checks mem screenY = some (frame, windowY) ∧
    Painted screenY.toNat screenWidth (s.lineColor mem screenY) s.frame frame ∧
    windowY = s.windowCurrentY + if ∃ x < screenWidth, s.InWindow screenY x then 1 else 0

/-! ### Pixels -/

variable {frame frame' : List Byte} {offset col : ℕ} {px : Rgb}

theorem putPixel_spec (h : putPixel frame offset px = some frame') :
    frame'.length = frame.length ∧ PixelIs frame' offset px ∧
      ∀ i, i < offset ∨ offset + 4 ≤ i → frame'[i]? = frame[i]? := by
  unfold putPixel at h
  split at h
  · obtain rfl := Option.some.inj h
    refine ⟨by simp only [List.length_set], ⟨?_, ?_, ?_, ?_⟩, fun i hi => ?_⟩
    · rw [List.getElem?_set_ne (by omega), List.getElem?_set_ne (by omega),
        List.getElem?_set_ne (by omega), List.getElem?_set_self (by omega)]
    · rw [List.getElem?_set_ne (by omega), List.getElem?_set_ne (by omega),
        List.getElem?_set_self (by simp only [List.length_set]; omega)]
    · rw [List.getElem?_set_ne (by omega),
        List.getElem?_set_self (by simp only [List.length_set]; omega)]
    · rw [List.getElem?_set_self (by simp only [List.length_set]; omega)]
    · rw [List.getElem?_set_ne (by omega), List.getElem?_set_ne (by omega),
        List.getElem?_set_ne (by omega), List.getElem?_set_ne (by omega)]
  · cases h

theorem PixelIs.congr (h : PixelIs frame offset px)
    (hsame : ∀ i, offset ≤ i → i < offset + 4 → frame'[i]? = frame[i]?) :
    PixelIs frame' offset px := by
  obtain ⟨h0, h1, h2, h3⟩ := h
  exact ⟨(hsame _ (by omega) (by omega)).trans h0, (hsame _ (by omega) (by omega)).trans h1,
    (hsame _ (by omega) (by omega)).trans h2, (hsame _ (by omega) (by omega)).trans h3⟩

theorem PixelIs.unique {px px' : Rgb} (h : PixelIs frame offset px)
    (h' : PixelIs frame offset px') : px = px' := by
  obtain ⟨r, g, b⟩ := px
  obtain ⟨r', g', b'⟩ := px'
  obtain ⟨h0, h1, h2, -⟩ := h
  obtain ⟨h0', h1', h2', -⟩ := h'
  have hr : r = r' := Option.some.inj (h0.symm.trans h0')
  have hg : g = g' := Option.some.inj (h1.symm.trans h1')
  have hb : b = b' := Option.some.inj (h2.symm.trans h2')
  rw [hr, hg, hb]

namespace Painted

variable {y n : ℕ} {color color' : ℕ → Rgb} {old mid new : List Byte}

theorem nothing (y : ℕ) (color : ℕ → Rgb) (frame : List Byte) : Painted y 0 color frame frame :=
  ⟨rfl, fun _ hx => absurd hx (Nat.not_lt_zero _), fun _ _ => rfl⟩

theorem succ (h : Painted y n color old mid)
    (hput : putPixel mid (y * screenWidth * 4 + n * 4) (color n) = some new) :
    Painted y (n + 1) color old new := by
  obtain ⟨hlen, hpixel, hsame⟩ := putPixel_spec hput
  refine ⟨hlen.trans h.length, fun x hx => ?_, fun i hi => ?_⟩
  · rcases Nat.lt_succ_iff_lt_or_eq.mp hx with hlt | rfl
    · exact (h.inside x hlt).congr fun i hi hi' => hsame i (by omega)
    · exact hpixel
  · rw [hsame i (by omega)]
    exact h.outside i (by omega)

theorem congr (h : Painted y n color old new) (heq : ∀ x < n, color x = color' x) :
    Painted y n color' old new :=
  ⟨h.length, fun x hx => heq x hx ▸ h.inside x hx, h.outside⟩

theorem color_eq (h : Painted y n color old new) (h' : Painted y n color' old new) :
    ∀ x < n, color x = color' x :=
  fun x hx => (h.inside x hx).unique (h'.inside x hx)

end Painted

/-! ### Rows of tiles -/

theorem getTileRowFromVram_get {α : Type} (mem : Memory) (base row : ℕ) (color : ℕ → α)
    (hcol : col < 8) : (getTileRowFromVram mem base row color)[col]? =
      some (color (colorNumber mem (base + row * 2) col)) := by
  have hbit : tileWidth - col - 1 = 7 - col := by
    unfold tileWidth
    omega
  rw [getTileRowFromVram, List.getElem?_map, List.getElem?_range hcol, Option.map_some, hbit]
  rfl

theorem signedTileAddress (tile : Byte) :
    (0x9000#16 + tile.signExtend 16 * 16#16).toNat = (0x9000 + 16 * tile.toInt).toNat := by
  revert tile
  decide +kernel

/-- The row that is fetched at the left edge of a tile. -/
theorem getTileRowFromTileGrid_get (s : Ppu) (mem : Memory) (tileMap : ℕ) {x : ℕ} (y : ℕ)
    (hx : 8 ∣ x) (hcol : col < 8) :
    (s.getTileRowFromTileGrid mem tileMap (y % tileHeight) x y)[col]? =
      some (s.mapColor mem tileMap (x + col) y) := by
  have hdiv : (x + col) / 8 = x / 8 := by omega
  have hmod : (x + col) % 8 = col := by omega
  unfold getTileRowFromTileGrid mapColor tileAddress tileDataBaseAddress
  dsimp only
  rw [hdiv, hmod, getTileRowFromVram_get _ _ _ _ hcol, ← add_assoc]
  cases s.lcdControl.getLsbD 4 with
  | true =>
    rw [if_pos rfl, if_neg (by decide), if_pos rfl, mul_comm _ 16]
    rfl
  | false =>
    simp only [Bool.false_eq_true, if_false, if_true, signedTileAddress]
    rfl

/-! ### The loop -/

/-- The pixels that are fetched from the map of the window. -/
def ShowsWindow (s : Ppu) (screenY : Byte) (x : ℕ) : Prop :=
  s.drawsWindow screenY = true ∧ 7 ≤ s.wx.toNat ∧ s.wx.toNat ≤ x + 7

instance (s : Ppu) (screenY : Byte) (x : ℕ) : Decidable (s.ShowsWindow screenY x) :=
  inferInstanceAs (Decidable (_ ∧ _ ∧ _))

def shownColor (s : Ppu) (mem : Memory) (screenY : Byte) (x : ℕ) : Rgb :=
  if s.ShowsWindow screenY x then s.windowColor mem x else s.backgroundColor mem screenY x

/-- The subtraction that finds the column of the window underflows at its first pixel. -/
def Underflows (s : Ppu) (checks : Bool) (screenY : Byte) (x : ℕ) : Prop :=
  checks = true ∧ s.drawsWindow screenY = true ∧ x + 7 = s.wx.toNat

/-- **The invariant**: what the row in hand is a row of, before pixel `n`. -/
structure Fetched (s : Ppu) (mem : Memory) (screenY : Byte) (n : ℕ) (c : LineCursor) : Prop where
  count : c.renderedPixelCount = n
  window : c.isFetchingFromWindowTileMap = true → s.ShowsWindow screenY n ∧
    ∃ x, 8 ∣ x ∧ x + c.cursorWithinTilePixels + s.wx.toNat = n + 7 ∧ ∀ col < 8,
      c.tileRow[col]? = some (s.mapColor mem s.windowTileMapBaseAddress (x + col) s.windowCurrentY)
  background : c.isFetchingFromWindowTileMap = false →
    (s.drawsWindow screenY = true → s.wx.toNat < 7 ∨ n + 7 ≤ s.wx.toNat) ∧
    8 ∣ c.backgroundTileBaseX ∧ c.backgroundTileBaseX < 256 ∧
    (c.backgroundTileBaseX + c.cursorWithinTilePixels) % 256 = (n + s.scx.toNat) % 256 ∧
    ∀ col < 8, c.tileRow[col]? = some (s.mapColor mem s.backgroundTileMapBaseAddress
      (c.backgroundTileBaseX + col) ((screenY.toNat + s.scy.toNat) % 256))

namespace Fetched

variable {s : Ppu} {mem : Memory} {screenY : Byte} {n : ℕ} {c : LineCursor}

theorem start (s : Ppu) (mem : Memory) (screenY : Byte) :
    Fetched s mem screenY 0 (s.lineStart mem screenY) := by
  have hy : (screenY + s.scy).toNat = (screenY.toNat + s.scy.toNat) % 256 := BitVec.toNat_add ..
  have hdvd : 8 ∣ s.scx.toNat / tileWidth * tileWidth := Nat.dvd_mul_left 8 _
  refine ⟨rfl, nofun, fun _ => ⟨fun _ => ?_, hdvd, ?_, ?_, fun col hcol => ?_⟩⟩
  · omega
  · unfold lineStart tileWidth
    dsimp only
    omega
  · unfold lineStart tileWidth
    dsimp only
    omega
  · unfold lineStart
    rw [getTileRowFromTileGrid_get s mem _ _ hdvd hcol, hy]

theorem pixel (h : Fetched s mem screenY n c) (hcursor : c.cursorWithinTilePixels < 8)
    (hstart : c.isFetchingFromWindowTileMap = false →
      ¬(s.drawsWindow screenY = true ∧ n + 7 = s.wx.toNat)) :
    c.tileRow[c.cursorWithinTilePixels]? = some (s.shownColor mem screenY n) := by
  unfold shownColor
  cases hfetch : c.isFetchingFromWindowTileMap with
  | true =>
    obtain ⟨hshows, x, -, hplace, hrow⟩ := h.window hfetch
    have hx : n + 7 - s.wx.toNat = x + c.cursorWithinTilePixels := by omega
    rw [if_pos hshows, windowColor, hx]
    exact hrow _ hcursor
  | false =>
    obtain ⟨hbefore, hdvd, hlt, hplace, hrow⟩ := h.background hfetch
    have hx : (n + s.scx.toNat) % 256 = c.backgroundTileBaseX + c.cursorWithinTilePixels := by
      omega
    have hnot : ¬s.ShowsWindow screenY n := by
      rintro ⟨hdraws, hlow, hhigh⟩
      rcases hbefore hdraws with hleft | hright
      · omega
      · exact hstart hfetch ⟨hdraws, by omega⟩
    rw [if_neg hnot, backgroundColor, hx]
    exact hrow _ hcursor

theorem advance (h : Fetched s mem screenY n c)
    (hstart : c.isFetchingFromWindowTileMap = false →
      ¬(s.drawsWindow screenY = true ∧ n + 7 = s.wx.toNat)) (frame : List Byte) :
    Fetched s mem screenY (n + 1) { c with
      frame := frame
      renderedPixelCount := c.renderedPixelCount + 1
      cursorWithinTilePixels := c.cursorWithinTilePixels + 1 } := by
  refine ⟨congrArg (· + 1) h.count, fun hfetch => ?_, fun hfetch => ?_⟩
  · obtain ⟨⟨hdraws, hlow, hhigh⟩, x, hdvd, hplace, hrow⟩ := h.window hfetch
    refine ⟨⟨hdraws, hlow, by omega⟩, x, hdvd, ?_, hrow⟩
    dsimp only
    omega
  · obtain ⟨hbefore, hdvd, hlt, hplace, hrow⟩ := h.background hfetch
    refine ⟨fun hdraws => ?_, hdvd, hlt, ?_, hrow⟩
    · have hne : n + 7 ≠ s.wx.toNat := fun heq => hstart hfetch ⟨hdraws, heq⟩
      rcases hbefore hdraws with hleft | hright
      · exact .inl hleft
      · exact .inr (by omega)
    · dsimp only
      omega

end Fetched

theorem startsWindow_iff (s : Ppu) (screenY : Byte) (n : ℕ) :
    (s.drawsWindow screenY && n + 7 == s.wx.toNat) = true ↔
      s.drawsWindow screenY = true ∧ n + 7 = s.wx.toNat := by
  rw [Bool.and_eq_true, beq_iff_eq]

section Loop

variable {s : Ppu} {checks : Bool} {mem : Memory} {screenY : Byte} {n : ℕ} {c : LineCursor}

section

variable (h : Fetched s mem screenY n c)

include h

/-- **The next row.**  At the first pixel of the window the column is found by a subtraction that
wraps twice when it is not checked. -/
theorem fetchTile_spec (hcursor : c.cursorWithinTilePixels ≤ 8)
    (hpast : c.isFetchingFromWindowTileMap = true → s.wx.toNat < n + 7) (hn : n < screenWidth)
    (hno : ¬s.Underflows checks screenY n) :
    ∃ c', s.fetchTile checks mem screenY c = some c' ∧ Fetched s mem screenY n c' ∧
      c'.cursorWithinTilePixels < 8 ∧ c'.frame = c.frame ∧
      (c'.isFetchingFromWindowTileMap = false →
        ¬(s.drawsWindow screenY = true ∧ n + 7 = s.wx.toNat)) := by
  unfold fetchTile
  rw [h.count]
  by_cases hstarts : s.drawsWindow screenY = true ∧ n + 7 = s.wx.toNat
  · -- the window begins here
    have hchecks : checks = false := by
      cases checks with
      | false => rfl
      | true => exact absurd ⟨rfl, hstarts⟩ hno
    have hsub : subUsize checks n s.wx.toNat = some (n + 2 ^ 64 - s.wx.toNat) := by
      rw [subUsize, if_neg (by omega), if_neg (by rw [hchecks]; decide)]
    have hcolumn : (n + 2 ^ 64 - s.wx.toNat + 7) % 2 ^ 64 = 0 := by omega
    rw [(startsWindow_iff s screenY n).mpr hstarts, if_pos (.inr rfl), if_pos (.inr rfl), hsub]
    refine ⟨_, rfl, ⟨rfl, fun _ => ⟨⟨hstarts.1, by omega, by omega⟩, 0, dvd_zero 8, ?_, ?_⟩,
      nofun⟩, Nat.zero_lt_succ 7, rfl, nofun⟩
    · dsimp only
      omega
    · intro col hcol
      rw [hcolumn]
      exact getTileRowFromTileGrid_get s mem _ _ (dvd_zero 8) hcol
  · have hstarts' : (s.drawsWindow screenY && n + 7 == s.wx.toNat) = false :=
      Bool.eq_false_iff.mpr fun heq => hstarts ((startsWindow_iff s screenY n).mp heq)
    rw [hstarts']
    by_cases hend : c.cursorWithinTilePixels = tileWidth
    · rw [if_pos (.inl hend)]
      unfold tileWidth at hend
      cases hfetch : c.isFetchingFromWindowTileMap with
      | true =>
        obtain ⟨hshows, x, hdvd, hplace, -⟩ := h.window hfetch
        have hsub : subUsize checks n s.wx.toNat = some (n - s.wx.toNat) := by
          rw [subUsize, if_pos (by omega)]
        have hcolumn : (n - s.wx.toNat + 7) % 2 ^ 64 = x + 8 := by
          unfold screenWidth at hn
          omega
        rw [if_pos (.inl rfl), hsub]
        refine ⟨_, rfl, ⟨rfl, fun _ => ⟨hshows, x + 8, by omega, ?_, ?_⟩, nofun⟩,
          Nat.zero_lt_succ 7, rfl, fun _ => hstarts⟩
        · dsimp only
          omega
        · intro col hcol
          rw [hcolumn]
          exact getTileRowFromTileGrid_get s mem _ _ (by omega) hcol
      | false =>
        obtain ⟨hbefore, hdvd, hlt, hplace, -⟩ := h.background hfetch
        have hy : (screenY + s.scy).toNat = (screenY.toNat + s.scy.toNat) % 256 :=
          BitVec.toNat_add ..
        have hnext : ∀ x, x = (if 256 ≤ c.backgroundTileBaseX + tileWidth then 0
            else c.backgroundTileBaseX + tileWidth) →
            8 ∣ x ∧ x < 256 ∧ (x + 0) % 256 = (n + s.scx.toNat) % 256 := by
          intro x hx
          unfold tileWidth at hx
          split at hx <;> omega
        obtain ⟨hdvd', hlt', hplace'⟩ := hnext _ rfl
        refine ⟨_, rfl, ⟨rfl, nofun, fun _ => ⟨hbefore, hdvd', hlt', hplace', ?_⟩⟩,
          Nat.zero_lt_succ 7, rfl, fun _ => hstarts⟩
        intro col hcol
        rw [getTileRowFromTileGrid_get s mem _ _ hdvd' hcol, hy]
    · rw [if_neg (by rintro (h | h); exacts [hend h, Bool.false_ne_true h])]
      exact ⟨c, rfl, h, Nat.lt_of_le_of_ne hcursor hend, rfl, fun _ => hstarts⟩

theorem fetchTile_none (hunder : s.Underflows checks screenY n) :
    s.fetchTile checks mem screenY c = none := by
  obtain ⟨hchecks, hstarts⟩ := hunder
  have hsub : subUsize checks n s.wx.toNat = none := by
    rw [subUsize, if_neg (by omega), if_pos hchecks]
  unfold fetchTile
  rw [h.count, (startsWindow_iff s screenY n).mpr hstarts, if_pos (.inr rfl), if_pos (.inr rfl), hsub]
  rfl

/-- **One turn of the loop.** -/
theorem renderPixel_spec (hcursor : c.cursorWithinTilePixels ≤ 8)
    (hpast : c.isFetchingFromWindowTileMap = true → s.wx.toNat < n + 7) (hn : n < screenWidth)
    (hy : screenY.toNat < windowHeight) (hframe : c.frame.length = frameSize)
    (hno : ¬s.Underflows checks screenY n) :
    ∃ c', s.renderPixel checks mem screenY c = some c' ∧ Fetched s mem screenY (n + 1) c' ∧
      c'.cursorWithinTilePixels ≤ 8 ∧
      (c'.isFetchingFromWindowTileMap = true → s.wx.toNat < n + 1 + 7) ∧
      putPixel c.frame (screenY.toNat * screenWidth * 4 + n * 4) (s.shownColor mem screenY n) =
        some c'.frame := by
  obtain ⟨d, hd, hfetched, hlt, hsame, hstart⟩ := fetchTile_spec h hcursor hpast hn hno
  have hoffset : screenY.toNat * screenWidth * 4 + n * 4 + 3 < c.frame.length := by
    unfold frameSize screenWidth windowHeight at *
    omega
  obtain ⟨frame, hput, -⟩ := putPixel_some (s.shownColor mem screenY n) hoffset
  refine ⟨_, ?_, hfetched.advance hstart frame, Nat.succ_le_of_lt hlt, fun hfetch => ?_, hput⟩
  · rw [renderPixel, hd, Option.bind_eq_bind, Option.bind_some, hfetched.pixel hlt hstart,
      Option.bind_eq_bind, Option.bind_some, hsame, hfetched.count, hput]
    rfl
  · have hshows := (hfetched.window hfetch).1.2.2
    omega

end

/-- **Some turns of the loop**: the pixels they draw, unless the subtraction underflows in one of
them. -/
theorem renderPixels_spec (hy : screenY.toNat < windowHeight) {old : List Byte}
    (hframe : old.length = frameSize) : ∀ (k n : ℕ) (c : LineCursor), n + k ≤ screenWidth →
    Fetched s mem screenY n c → c.cursorWithinTilePixels ≤ 8 →
    (c.isFetchingFromWindowTileMap = true → s.wx.toNat < n + 7) →
    Painted screenY.toNat n (s.shownColor mem screenY) old c.frame →
    ((∃ x, n ≤ x ∧ x < n + k ∧ s.Underflows checks screenY x) →
      s.renderPixels checks mem screenY k c = none) ∧
    ((∀ x, n ≤ x → x < n + k → ¬s.Underflows checks screenY x) →
      ∃ c', s.renderPixels checks mem screenY k c = some c' ∧
        Painted screenY.toNat (n + k) (s.shownColor mem screenY) old c'.frame) := by
  intro k
  induction k with
  | zero =>
    intro n c _ _ _ _ hpainted
    refine ⟨?_, fun _ => ⟨c, rfl, hpainted⟩⟩
    omega
  | succ k ih =>
    intro n c hk hfetched hcursor hpast hpainted
    rw [renderPixels]
    by_cases hunder : s.Underflows checks screenY n
    · have hnone : s.renderPixel checks mem screenY c = none := by
        rw [renderPixel, fetchTile_none hfetched hunder]
        rfl
      rw [hnone]
      exact ⟨fun _ => rfl, fun hno => absurd hunder (hno n le_rfl (by omega))⟩
    · obtain ⟨c', hc', hfetched', hcursor', hpast', hput⟩ := renderPixel_spec hfetched hcursor hpast
        (by omega) hy (hpainted.length.trans hframe) hunder
      obtain ⟨hnone, hsome⟩ := ih (n + 1) c' (by omega) hfetched' hcursor' hpast'
        (hpainted.succ hput)
      rw [hc', Option.bind_some]
      refine ⟨?_, fun hno => ?_⟩
      · rintro ⟨x, hlow, hhigh, hx⟩
        have hne : x ≠ n := fun heq => hunder (heq ▸ hx)
        exact hnone ⟨x, by omega, by omega, hx⟩
      · rw [← Nat.add_right_comm, Nat.add_assoc] at hsome
        exact hsome fun x hlow hhigh => hno x (by omega) (by omega)

end Loop

/-! ### Lines -/

section Line

variable (s : Ppu) (mem : Memory) {screenY : Byte}

theorem exists_underflows_iff (screenY : Byte) (checks : Bool) :
    (∃ x < screenWidth, s.Underflows checks screenY x) ↔
      checks = true ∧ s.drawsWindow screenY = true ∧ 7 ≤ s.wx.toNat := by
  constructor
  · rintro ⟨x, -, hchecks, hdraws, hx⟩
    exact ⟨hchecks, hdraws, by omega⟩
  · rintro ⟨hchecks, hdraws, hlow⟩
    refine ⟨s.wx.toNat - 7, ?_, hchecks, hdraws, by omega⟩
    have hright := hdraws
    unfold drawsWindow screenWidth at hright
    rw [Bool.and_eq_true, decide_eq_true_eq] at hright
    unfold screenWidth
    omega

/-- **A line as it is drawn.** -/
theorem renderScanline_spec (checks : Bool) (hy : screenY.toNat < windowHeight)
    (hframe : s.frame.length = frameSize) :
    (checks = true ∧ s.drawsWindow screenY = true ∧ 7 ≤ s.wx.toNat →
      s.renderScanline checks mem screenY = none) ∧
    (¬(checks = true ∧ s.drawsWindow screenY = true ∧ 7 ≤ s.wx.toNat) →
      ∃ frame, s.renderScanline checks mem screenY = some (frame,
          if s.drawsWindow screenY then s.windowCurrentY + 1 else s.windowCurrentY) ∧
        Painted screenY.toNat screenWidth (s.shownColor mem screenY) s.frame frame) := by
  have hcursor : (s.lineStart mem screenY).cursorWithinTilePixels ≤ 8 := by
    unfold lineStart tileWidth
    dsimp only
    omega
  obtain ⟨hnone, hsome⟩ := @renderPixels_spec s checks mem screenY hy _ hframe screenWidth 0
    (s.lineStart mem screenY) (Nat.zero_add _).le (Fetched.start s mem screenY) hcursor nofun
    (Painted.nothing _ _ _)
  have hexists := s.exists_underflows_iff screenY checks
  refine ⟨fun hunder => ?_, fun hno => ?_⟩
  · obtain ⟨x, hx, hunder⟩ := hexists.mpr hunder
    rw [renderScanline, hnone ⟨x, Nat.zero_le x, hx, hunder⟩]
    rfl
  · obtain ⟨c, hc, hpainted⟩ := hsome fun x _ hx hunder => hno (hexists.mp ⟨x, hx, hunder⟩)
    refine ⟨c.frame, ?_, hpainted⟩
    rw [renderScanline, hc]
    rfl

theorem drawsWindow_iff : s.drawsWindow screenY = true ↔ ∃ x < screenWidth, s.InWindow screenY x := by
  unfold drawsWindow InWindow
  simp only [Bool.and_eq_true, decide_eq_true_eq]
  constructor
  · rintro ⟨⟨henabled, hwy⟩, hwx⟩
    exact ⟨159, by decide, henabled, hwy, by unfold screenWidth at hwx; omega⟩
  · rintro ⟨x, hx, henabled, hwy, hwx⟩
    exact ⟨⟨henabled, hwy⟩, by omega⟩

/-- The two differ where the window starts to the left of the screen. -/
theorem shownColor_eq_lineColor (hleft : s.drawsWindow screenY = true → 7 ≤ s.wx.toNat) {x : ℕ}
    (hx : x < screenWidth) : s.shownColor mem screenY x = s.lineColor mem screenY x := by
  have hiff : s.ShowsWindow screenY x ↔ s.InWindow screenY x := by
    constructor
    · rintro ⟨hdraws, -, hwx⟩
      obtain ⟨-, -, henabled, hwy, -⟩ := s.drawsWindow_iff.mp hdraws
      exact ⟨henabled, hwy, hwx⟩
    · intro hin
      have hdraws := s.drawsWindow_iff.mpr ⟨x, hx, hin⟩
      exact ⟨hdraws, hleft hdraws, hin.2.2⟩
  exact if_congr hiff rfl rfl

/-- The whole line of the window looks like the background under it. -/
def SameAsBackground (screenY : Byte) : Prop :=
  ∀ x < screenWidth, s.windowColor mem x = s.backgroundColor mem screenY x

instance (screenY : Byte) : Decidable (s.SameAsBackground mem screenY) :=
  inferInstanceAs (Decidable (∀ x < screenWidth, _))

/-- On a line with a window that starts to the left of the screen, only the background is shown. -/
theorem shownColor_eq_lineColor_iff (hdraws : s.drawsWindow screenY = true)
    (hleft : s.wx.toNat < 7) :
    (∀ x < screenWidth, s.shownColor mem screenY x = s.lineColor mem screenY x) ↔
      s.SameAsBackground mem screenY := by
  obtain ⟨-, -, henabled, hwy, -⟩ := s.drawsWindow_iff.mp hdraws
  refine forall₂_congr fun x _ => ?_
  have hshows : ¬s.ShowsWindow screenY x := fun h => absurd h.2.1 (by omega)
  have hin : s.InWindow screenY x := ⟨henabled, hwy, by omega⟩
  unfold shownColor lineColor
  rw [if_neg hshows, if_pos hin]
  exact eq_comm

/-- **Lines are drawn as they should be (proved)**, in a build that checks its arithmetic and in one
that does not, exactly under these conditions. -/
theorem renderScanline_iff (hy : screenY.toNat < windowHeight)
    (hframe : s.frame.length = frameSize) :
    (s.RendersLine true mem screenY ↔
      (s.drawsWindow screenY = true → s.wx.toNat < 7 ∧ s.SameAsBackground mem screenY)) ∧
    (s.RendersLine false mem screenY ↔
      (s.drawsWindow screenY = true → 7 ≤ s.wx.toNat ∨ s.SameAsBackground mem screenY)) := by
  have hcounter : (s.windowCurrentY + if ∃ x < screenWidth, s.InWindow screenY x then 1 else 0) =
      if s.drawsWindow screenY then s.windowCurrentY + 1 else s.windowCurrentY := by
    rw [← if_congr s.drawsWindow_iff rfl rfl]
    split <;> rfl
  have hrenders : ∀ checks, s.RendersLine checks mem screenY ↔
      ¬(checks = true ∧ s.drawsWindow screenY = true ∧ 7 ≤ s.wx.toNat) ∧
        ∀ x < screenWidth, s.shownColor mem screenY x = s.lineColor mem screenY x := by
    intro checks
    obtain ⟨hnone, hsome⟩ := s.renderScanline_spec mem checks hy hframe
    constructor
    · rintro ⟨frame, windowY, hrender, hpainted, -⟩
      by_cases hunder : checks = true ∧ s.drawsWindow screenY = true ∧ 7 ≤ s.wx.toNat
      · rw [hnone hunder] at hrender
        cases hrender
      · obtain ⟨frame', hrender', hpainted'⟩ := hsome hunder
        obtain ⟨rfl, -⟩ := Prod.mk.inj (Option.some.inj (hrender.symm.trans hrender'))
        exact ⟨hunder, hpainted'.color_eq hpainted⟩
    · rintro ⟨hno, hcolors⟩
      obtain ⟨frame, hrender, hpainted⟩ := hsome hno
      exact ⟨frame, _, hrender, hpainted.congr hcolors, hcounter.symm⟩
  have hcolors : (∀ x < screenWidth, s.shownColor mem screenY x = s.lineColor mem screenY x) ↔
      (s.drawsWindow screenY = true → 7 ≤ s.wx.toNat ∨ s.SameAsBackground mem screenY) := by
    by_cases hbad : s.drawsWindow screenY = true ∧ s.wx.toNat < 7
    · rw [s.shownColor_eq_lineColor_iff mem hbad.1 hbad.2]
      exact ⟨fun h _ => .inr h, fun h => (h hbad.1).resolve_left (by omega)⟩
    · have hleft : s.drawsWindow screenY = true → 7 ≤ s.wx.toNat := fun hdraws => by
        by_contra hlt
        exact hbad ⟨hdraws, by omega⟩
      exact ⟨fun _ hdraws => .inl (hleft hdraws),
        fun _ x hx => s.shownColor_eq_lineColor mem hleft hx⟩
  constructor
  · rw [hrenders, hcolors]
    constructor
    · rintro ⟨hno, hsame⟩ hdraws
      have hlt : s.wx.toNat < 7 := by
        by_contra hle
        exact hno ⟨rfl, hdraws, by omega⟩
      exact ⟨hlt, (hsame hdraws).resolve_left (by omega)⟩
    · intro hsame
      refine ⟨?_, fun hdraws => .inr (hsame hdraws).2⟩
      rintro ⟨-, hdraws, hle⟩
      have := (hsame hdraws).1
      omega
  · rw [hrenders, hcolors]
    exact ⟨fun h => h.2, fun h => ⟨fun hbad => Bool.false_ne_true hbad.1, h⟩⟩

end Line

/-- A window at the position `WX`, over tiles of another colour. -/
def windowPpu (wx : Byte) : Ppu :=
  { Ppu.new (List.replicate frameSize 0) with lcdControl := 0b11110000, wx := wx, bgp := 0b11100100 }

/-- The map of the window consists of tile 1, whose pixels have colour 3. -/
def windowMemory : Memory := fun addr =>
  if 0x8010 ≤ addr.toNat ∧ addr.toNat < 0x8020 then 0xff
  else if 0x9c00 ≤ addr.toNat then 1
  else 0

/-- Without a window the line is drawn. -/
theorem renderScanline_iff_background :
    RendersLine { windowPpu 7 with lcdControl := 0b11010000 } true windowMemory 0 :=
  (renderScanline_iff { windowPpu 7 with lcdControl := 0b11010000 } windowMemory (by decide)
    (List.length_replicate ..)).1.mpr fun h => absurd h (by decide)

/-- A window at the left edge of the screen stops a build with checks; one that starts further to
the left is not shown. -/
theorem window_at_left_edge : ¬RendersLine (windowPpu 7) true windowMemory 0 ∧
    ¬RendersLine (windowPpu 3) false windowMemory 0 := by
  have hframe : ∀ wx, (windowPpu wx).frame.length = frameSize := fun _ => List.length_replicate ..
  constructor
  · rintro ⟨frame, windowY, hrender, -⟩
    cases hrender
  · rintro ⟨frame, windowY, hrender, hpainted, -⟩
    obtain ⟨frame', hrender', hpainted'⟩ :=
      (@renderScanline_spec (windowPpu 3) windowMemory 0 false (by decide) (hframe 3)).2 (by decide)
    obtain ⟨rfl, -⟩ := Prod.mk.inj (Option.some.inj (hrender.symm.trans hrender'))
    exact absurd (hpainted'.color_eq hpainted 0 (by decide)) (by decide)

end Ppu

end Axle.GameBoy
