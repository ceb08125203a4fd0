import Axle.Lib.InverseTable
import Axle.Ttf.GlyphOutline

/-!
# From characters to glyphs

`parse_character_map` makes a map from glyph indexes to the first 256 codepoints, `FontParser::parse`
turns it round, and `glyph_for_codepoint` looks a codepoint up, which is made of the low byte of a
character.  So of several characters with one glyph only the last one is found, and a character
above U+00FF finds what its low byte finds.

* `parse`, `glyphForCodepoint` — the two maps and the lookup;
* `Maps`, `Assigns` — the glyph that the `cmap` table gives to a character;
* `glyphForCodepoint_iff` — **PROVED**: when the font is parsed and the character finds its glyph.
-/

namespace Axle.Ttf.CharacterMap

open Axle.Lib.InverseTable
open Outline (readWords)

/-! ### Reading -/

def readU32 (bytes : List Byte) : Option (BitVec 32 × List Byte) := do
  let (hi, bytes) ← readU16 bytes
  let (lo, bytes) ← readU16 bytes
  some (hi ++ lo, bytes)

/-- The word at an address in the table. -/
def readAt (cmap : List Byte) (addr : ℕ) : Option (BitVec 16) :=
  (readU16 (cmap.drop addr)).map Prod.fst

/-- The words from a cursor on. -/
def readWordsAt (cmap : List Byte) (cursor n : ℕ) : Option (List (BitVec 16)) :=
  (readWords n (cmap.drop cursor)).map Prod.fst

/-! ### The subtables -/

inductive CharacterMapUnicodeEncoding where
  | version1_0
  | version1_1
  | version2_0Bmp
  | version2_0Extended
  deriving DecidableEq, Repr

inductive CharacterMapPlatformAndEncoding where
  | unicode (encoding : CharacterMapUnicodeEncoding)
  | macintosh
  | microsoft
  deriving DecidableEq, Repr

def fromPlatformAndSpecificId (platformId platformSpecificId : ℕ) :
    Option CharacterMapPlatformAndEncoding :=
  match platformId with
  | 0 =>
    match platformSpecificId with
    | 0 => some (.unicode .version1_0)
    | 1 => some (.unicode .version1_1)
    | 3 => some (.unicode .version2_0Bmp)
    | 4 => some (.unicode .version2_0Extended)
    | _ => none
  | 1 => some .macintosh
  | 3 => some .microsoft
  | _ => none

def recognizedUnicodeEncodings : List CharacterMapPlatformAndEncoding :=
  [.unicode .version2_0Bmp, .unicode .version2_0Extended, .unicode .version1_1,
    .unicode .version1_0]

/-- The offset of the first subtable of a recognized encoding. -/
def findUnicodeSubtable : ℕ → List Byte → Option ℕ
  | 0, _ => none
  | subtablesCount + 1, bytes => do
    let (platformId, bytes) ← readU16 bytes
    let (platformSpecificId, bytes) ← readU16 bytes
    let (offset, bytes) ← readU32 bytes
    let platformAndEncoding ← fromPlatformAndSpecificId platformId.toNat platformSpecificId.toNat
    if platformAndEncoding ∈ recognizedUnicodeEncodings then some offset.toNat
    else findUnicodeSubtable subtablesCount bytes

/-- A round of the loop over the codepoints, which stops where a glyph index cannot be read. -/
def mapCodepoint (glyphIndexOf : ℕ → Option (Option ℕ)) (glyphIndexesToCodepoints : ℕ → Option ℕ)
    (codepoint : ℕ) : Option (ℕ → Option ℕ) :=
  (glyphIndexOf codepoint).map fun
    | none => glyphIndexesToCodepoints
    | some glyphIndex => Function.update glyphIndexesToCodepoints glyphIndex (some codepoint)

/-- The first 256 codepoints. -/
def mapCodepoints (glyphIndexOf : ℕ → Option (Option ℕ)) : Option (ℕ → Option ℕ) :=
  (List.range 256).foldlM (mapCodepoint glyphIndexOf) fun _ => none

/-- What the loop finds for a codepoint in a table of format 4. -/
def glyphIndexFormat4 (cmap : List Byte) (segmentIdRangeBase : ℕ)
    (lastCodes startCodes idDeltas idRangeOffsets : List (BitVec 16)) (codepoint : ℕ) :
    Option (Option ℕ) :=
  let segmentRanges := (startCodes.zip lastCodes).map fun r => (r.1.toNat, r.2.toNat + 1)
  match segmentRanges.findIdx? fun r => r.1 ≤ codepoint ∧ codepoint < r.2 with
  | none => some none
  | some segmentIndex => do
    let idRange ← idRangeOffsets[segmentIndex]?
    let idDelta ← idDeltas[segmentIndex]?
    let segmentRange ← segmentRanges[segmentIndex]?
    if idRange = 0 then some (some (idDelta + BitVec.ofNat 16 codepoint).toNat)
    else do
      let glyphIndexAddr := idRange.toNat + 2 * (codepoint - segmentRange.1) +
        (segmentIdRangeBase + segmentIndex * 2)
      let glyphIndex ← readAt cmap glyphIndexAddr
      some (some (if glyphIndex = 0 then 0 else (idDelta + glyphIndex).toNat))

def parseCharacterMapTableFormat4 (cmap : List Byte) (dataHeaderOffset : ℕ) :
    Option (ℕ → Option ℕ) := do
  let header ← readWordsAt cmap dataHeaderOffset 7
  let segCountX2 ← header[3]?
  let segCount := segCountX2.toNat / 2
  let cursor := dataHeaderOffset + 14
  let lastCodes ← readWordsAt cmap cursor segCount
  -- over the `reserved_pad` field
  let cursor := cursor + 2 * segCount + 2
  let startCodes ← readWordsAt cmap cursor segCount
  let cursor := cursor + 2 * segCount
  let idDeltas ← readWordsAt cmap cursor segCount
  let segmentIdRangeBase := cursor + 2 * segCount
  let idRangeOffsets ← readWordsAt cmap segmentIdRangeBase segCount
  mapCodepoints
    (glyphIndexFormat4 cmap segmentIdRangeBase lastCodes startCodes idDeltas idRangeOffsets)

structure GroupHeader where
  startCharCode : ℕ
  endCharCode : ℕ
  startGlyphCode : ℕ
  deriving DecidableEq, Repr

def readGroups : ℕ → List Byte → Option (List GroupHeader)
  | 0, _ => some []
  | n + 1, bytes => do
    let (startCharCode, bytes) ← readU32 bytes
    let (endCharCode, bytes) ← readU32 bytes
    let (startGlyphCode, bytes) ← readU32 bytes
    let groups ← readGroups n bytes
    some (⟨startCharCode.toNat, endCharCode.toNat, startGlyphCode.toNat⟩ :: groups)

/-- What the loop finds for a codepoint in a table of format 12. -/
def glyphIndexFormat12 (groups : List GroupHeader) (codepoint : ℕ) : Option ℕ :=
  (groups.find? fun group => group.startCharCode ≤ codepoint ∧ codepoint < group.endCharCode + 1).map
    fun group => group.startGlyphCode + (codepoint - group.startCharCode)

def parseCharacterMapTableFormat12 (cmap : List Byte) (dataHeaderOffset : ℕ) :
    Option (ℕ → Option ℕ) := do
  let (groupsCount, bytes) ← readU32 (cmap.drop (dataHeaderOffset + 12))
  let groups ← readGroups groupsCount.toNat bytes
  mapCodepoints fun codepoint => some (glyphIndexFormat12 groups codepoint)

/-- `cmap` is the table, with what follows it in the file. -/
def parseCharacterMap (cmap : List Byte) : Option (ℕ → Option ℕ) := do
  let (_, bytes) ← readU16 cmap
  let (subtablesCount, bytes) ← readU16 bytes
  let dataHeaderOffset ← findUnicodeSubtable subtablesCount.toNat bytes
  let (format, bytes) ← readU16 (cmap.drop dataHeaderOffset)
  let _ ← readU16 bytes
  match format.toNat with
  | 4 => parseCharacterMapTableFormat4 cmap dataHeaderOffset
  | 12 => parseCharacterMapTableFormat12 cmap dataHeaderOffset
  | _ => none

/-! ### The font -/

structure FontFile where
  data : FontData
  ascent : ℤ
  cmap : List Byte

abbrev Codepoint := ℕ

/-- `Codepoint::from`: `value as u8 as usize`. -/
def Codepoint.fromChar (value : Char) : Codepoint := value.toNat % 256

structure Font where
  glyphs : List Outline.GlyphRenderDescription
  metricsCells : Metrics
  codepointsToGlyphIndexes : Codepoint → Option ℕ

/-- The glyphs, and their metrics after both passes. -/
def parseGlyphs (font : FontFile) : Option (List Outline.GlyphRenderDescription × Metrics) := do
  let long ← parseHorizontalMetrics font.data
  let vertical ← parseVerticalMetrics font.data
  let allGlyphs ← (List.range font.data.numGlyphs).mapM (Outline.parseGlyph font.data font.ascent)
  let glyphs := allGlyphs.map Outline.GlyphRenderDescription.withoutOutline
  let m ← (List.range font.data.numGlyphs).foldlM (setMetrics long vertical glyphs)
    ⟨fun _ => none, fun _ => none⟩
  let m ← (List.range font.data.numGlyphs).foldlM
    (inheritMetrics font.data.glyphBoundingBox glyphs) m
  some (allGlyphs, m)

/-- What the loop over the glyphs of `parse` puts into the map. -/
def insertCodepoint (glyphIndexesToCodepoints : ℕ → Option ℕ)
    (codepointsToGlyphIndexes : Codepoint → Option ℕ) (i : ℕ) : Codepoint → Option ℕ :=
  match glyphIndexesToCodepoints i with
  | none => codepointsToGlyphIndexes
  | some codepoint => Function.update codepointsToGlyphIndexes codepoint (some i)

/-- `FontParser::parse`. -/
def parse (font : FontFile) : Option Font := do
  let glyphIndexesToCodepoints ← parseCharacterMap font.cmap
  let (allGlyphs, m) ← parseGlyphs font
  some ⟨allGlyphs, m,
    (List.range font.data.numGlyphs).foldl (insertCodepoint glyphIndexesToCodepoints) fun _ => none⟩

def Font.glyphForCodepoint (font : Font) (codepoint : Codepoint) :
    Option Outline.GlyphRenderDescription :=
  match font.codepointsToGlyphIndexes codepoint with
  | none => none
  | some glyphIndex => font.glyphs[glyphIndex]?

/-! ### What the table says -/

/-- The long word at an offset. -/
def longAt (bytes : List Byte) (i : ℕ) : BitVec 32 := wordAt bytes i ++ wordAt bytes (i + 2)

section Spec

variable (cmap : List Byte) (offset : ℕ)

def format : ℕ := (wordAt cmap offset).toNat

def segCount : ℕ := (wordAt cmap (offset + 6)).toNat / 2

def lastCode (i : ℕ) : ℕ := (wordAt cmap (offset + 14 + 2 * i)).toNat

def startCode (i : ℕ) : ℕ := (wordAt cmap (offset + 16 + 2 * segCount cmap offset + 2 * i)).toNat

def idDelta (i : ℕ) : ℕ := (wordAt cmap (offset + 16 + 4 * segCount cmap offset + 2 * i)).toNat

def idRangeOffsetAddr (i : ℕ) : ℕ := offset + 16 + 6 * segCount cmap offset + 2 * i

def idRangeOffset (i : ℕ) : ℕ := (wordAt cmap (idRangeOffsetAddr cmap offset i)).toNat

/-- The address of a glyph index in the array that follows the range offsets. -/
def glyphIndexAddr (i c : ℕ) : ℕ :=
  idRangeOffsetAddr cmap offset i + idRangeOffset cmap offset i +
    2 * (c - startCode cmap offset i)

/-- The glyph index that a segment of format 4 gives to a character. -/
def segmentGlyph (i c : ℕ) : ℕ :=
  if idRangeOffset cmap offset i = 0 then (idDelta cmap offset i + c) % 65536
  else if (wordAt cmap (glyphIndexAddr cmap offset i c)).toNat = 0 then 0
  else (idDelta cmap offset i + (wordAt cmap (glyphIndexAddr cmap offset i c)).toNat) % 65536

/-- The first segment that does not end before the character gives it the glyph index. -/
def MapsFormat4 (c g : ℕ) : Prop :=
  ∃ i < segCount cmap offset, (∀ j < i, lastCode cmap offset j < c) ∧ startCode cmap offset i ≤ c ∧
    c ≤ lastCode cmap offset i ∧ g = segmentGlyph cmap offset i c

structure WellFormedFormat4 : Prop where
  arrays : offset + 16 + 8 * segCount cmap offset ≤ cmap.length
  sorted : ∀ i j, i < j → j < segCount cmap offset → lastCode cmap offset i < startCode cmap offset j
  glyphIndexes : ∀ i < segCount cmap offset, idRangeOffset cmap offset i ≠ 0 → ∀ c,
    startCode cmap offset i ≤ c → c ≤ lastCode cmap offset i →
      glyphIndexAddr cmap offset i c + 2 ≤ cmap.length

def groupsCount : ℕ := (longAt cmap (offset + 12)).toNat

def group (k : ℕ) : GroupHeader :=
  ⟨(longAt cmap (offset + 16 + 12 * k)).toNat, (longAt cmap (offset + 20 + 12 * k)).toNat,
    (longAt cmap (offset + 24 + 12 * k)).toNat⟩

/-- A group gives the character the glyph index. -/
def MapsFormat12 (c g : ℕ) : Prop :=
  ∃ k < groupsCount cmap offset, (group cmap offset k).startCharCode ≤ c ∧
    c ≤ (group cmap offset k).endCharCode ∧
    g = (group cmap offset k).startGlyphCode + (c - (group cmap offset k).startCharCode)

structure WellFormedFormat12 : Prop where
  arrays : offset + 16 + 12 * groupsCount cmap offset ≤ cmap.length
  sorted : ∀ i j, i < j → j < groupsCount cmap offset →
    (group cmap offset i).endCharCode < (group cmap offset j).startCharCode

def MapsAt (c g : ℕ) : Prop :=
  (format cmap offset = 4 ∧ MapsFormat4 cmap offset c g) ∨
    (format cmap offset = 12 ∧ MapsFormat12 cmap offset c g)

def subtablesCount : ℕ := (wordAt cmap 2).toNat

def platformId (k : ℕ) : ℕ := (wordAt cmap (4 + 8 * k)).toNat

def platformSpecificId (k : ℕ) : ℕ := (wordAt cmap (6 + 8 * k)).toNat

def subtableOffset (k : ℕ) : ℕ := (longAt cmap (8 + 8 * k)).toNat

/-- A Unicode subtable of one of the two formats. -/
def IsUnicode (k : ℕ) : Prop :=
  k < subtablesCount cmap ∧ platformId cmap k = 0 ∧
    (format cmap (subtableOffset cmap k) = 4 ∨ format cmap (subtableOffset cmap k) = 12)

def Maps (c g : ℕ) : Prop := ∃ k, IsUnicode cmap k ∧ MapsAt cmap (subtableOffset cmap k) c g

/-- Index 0 is that of the missing glyph. -/
def Assigns (c g : ℕ) : Prop := Maps cmap c g ∧ g ≠ 0

/-- The first subtable is of an encoding that the parser knows, and of one of the two formats. -/
def Recognized : Prop :=
  platformSpecificId cmap 0 ∈ [0, 1, 3, 4] ∧
    (format cmap (subtableOffset cmap 0) = 4 ∨ format cmap (subtableOffset cmap 0) = 12)

/-- Some greater codepoint below 256 has the same glyph index. -/
def SharedAbove (c g : ℕ) : Prop := ∃ c', c < c' ∧ c' < 256 ∧ Maps cmap c' g

end Spec

/-- The font has a Unicode subtable of one of the formats.  The subtables are sorted by platform, and
if there are several of these they say the same of the first 256 codepoints. -/
structure WellFormed (font : FontFile) : Prop where
  directory : 4 + 8 * subtablesCount font.cmap ≤ font.cmap.length
  sorted : ∀ i j, i < j → j < subtablesCount font.cmap →
    platformId font.cmap i ≤ platformId font.cmap j
  unicode : ∃ k, IsUnicode font.cmap k
  format4 : ∀ k, IsUnicode font.cmap k → format font.cmap (subtableOffset font.cmap k) = 4 →
    WellFormedFormat4 font.cmap (subtableOffset font.cmap k)
  format12 : ∀ k, IsUnicode font.cmap k → format font.cmap (subtableOffset font.cmap k) = 12 →
    WellFormedFormat12 font.cmap (subtableOffset font.cmap k)
  agree : ∀ k k', IsUnicode font.cmap k → IsUnicode font.cmap k' → ∀ c < 256, ∀ g,
    MapsAt font.cmap (subtableOffset font.cmap k) c g →
      MapsAt font.cmap (subtableOffset font.cmap k') c g
  glyphs : ∀ c g, Maps font.cmap c g → g < font.data.numGlyphs

/-- A character below U+0100 that has a glyph finds it, and all others find none. -/
structure FindsGlyph (font : FontFile) (parsed : Font) (ch : Char) : Prop where
  assigned : ch.toNat < 256 → ∀ g, Assigns font.cmap ch.toNat g →
    ∃ glyph, Outline.parseGlyph font.data font.ascent g = some glyph ∧
      parsed.glyphForCodepoint (Codepoint.fromChar ch) = some glyph
  others : ¬(ch.toNat < 256 ∧ ∃ g, Assigns font.cmap ch.toNat g) →
    parsed.glyphForCodepoint (Codepoint.fromChar ch) = none

/-! ### Words of the table -/

section Words

variable {cmap : List Byte}

theorem readU16_drop {addr : ℕ} (h : addr + 2 ≤ cmap.length) :
    readU16 (cmap.drop addr) = some (wordAt cmap addr, cmap.drop (addr + 2)) := by
  have h₀ : addr < cmap.length := by omega
  have h₁ : addr + 1 < cmap.length := by omega
  have hget : ∀ i (hi : i < cmap.length), cmap.getD i 0 = cmap[i] := fun i hi => by
    rw [List.getD_eq_getElem?_getD, List.getElem?_eq_getElem hi, Option.getD_some]
  rw [List.drop_eq_getElem_cons h₀, List.drop_eq_getElem_cons h₁, wordAt, hget _ h₀, hget _ h₁]
  rfl

variable {addr : ℕ}

theorem length_of_readU16_drop {r : BitVec 16 × List Byte} (h : readU16 (cmap.drop addr) = some r) :
    addr + 2 ≤ cmap.length := by
  have hlength : (cmap.drop addr).length = cmap.length - addr := List.length_drop
  match hdrop : cmap.drop addr with
  | [] | [_] =>
    rw [hdrop] at h
    cases h
  | _ :: _ :: _ =>
    rw [hdrop, List.length_cons, List.length_cons] at hlength
    omega

theorem readU32_drop {addr : ℕ} (h : addr + 4 ≤ cmap.length) :
    readU32 (cmap.drop addr) = some (longAt cmap addr, cmap.drop (addr + 4)) := by
  rw [readU32, readU16_drop (by omega)]
  dsimp only [Option.bind_eq_bind, Option.bind_some]
  rw [readU16_drop (by omega)]
  rfl

theorem readAt_eq (h : addr + 2 ≤ cmap.length) : readAt cmap addr = some (wordAt cmap addr) := by
  rw [readAt, readU16_drop h]
  rfl

theorem readWordsAt_eq (n : ℕ) : ∀ {cursor : ℕ}, cursor + 2 * n ≤ cmap.length →
    readWordsAt cmap cursor n = some ((List.range n).map fun k => wordAt cmap (cursor + 2 * k)) := by
  induction n with
  | zero => exact fun _ => rfl
  | succ n ih =>
    intro cursor h
    have hrest := @ih (cursor + 2) (by omega)
    obtain ⟨⟨words, bytes⟩, hwords, hlist⟩ := Option.map_eq_some_iff.mp hrest
    rw [readWordsAt, readWords, readU16_drop (by omega)]
    dsimp only [Option.bind_eq_bind, Option.bind_some]
    rw [hwords, Option.bind_some, Option.map_some, List.range_succ_eq_map, List.map_cons,
      List.map_map]
    dsimp only at hlist ⊢
    rw [hlist]
    congr 2
    refine List.map_congr_left fun k _ => ?_
    show wordAt cmap (cursor + 2 + 2 * k) = wordAt cmap (cursor + 2 * (k + 1))
    congr 1
    omega

theorem readGroups_eq {offset : ℕ} : ∀ (n i : ℕ), offset + 16 + 12 * (i + n) ≤ cmap.length →
    readGroups n (cmap.drop (offset + 16 + 12 * i)) =
      some ((List.range n).map fun k => group cmap offset (i + k)) := by
  intro n
  induction n with
  | zero => exact fun _ _ => rfl
  | succ n ih =>
    intro i h
    have hstart := @readU32_drop cmap (offset + 16 + 12 * i) (by omega)
    have hend := @readU32_drop cmap (offset + 20 + 12 * i) (by omega)
    have hglyph := @readU32_drop cmap (offset + 24 + 12 * i) (by omega)
    rw [show offset + 16 + 12 * i + 4 = offset + 20 + 12 * i by omega] at hstart
    rw [show offset + 20 + 12 * i + 4 = offset + 24 + 12 * i by omega] at hend
    rw [show offset + 24 + 12 * i + 4 = offset + 16 + 12 * (i + 1) by omega] at hglyph
    have hmap : (List.range n).map (fun k => group cmap offset (i + 1 + k)) =
        (List.range n).map ((fun k => group cmap offset (i + k)) ∘ Nat.succ) := by
      refine List.map_congr_left fun k _ => ?_
      rw [Nat.add_assoc, Nat.add_comm 1 k]
      rfl
    rw [readGroups, hstart]
    dsimp only [Option.bind_eq_bind, Option.bind_some]
    rw [hend]
    dsimp only [Option.bind_some]
    rw [hglyph]
    dsimp only [Option.bind_some]
    rw [ih (i + 1) (by omega), Option.bind_some, List.range_succ_eq_map, List.map_cons,
      List.map_map, hmap]
    rfl

end Words

/-! ### The two formats -/

section Formats

variable {cmap : List Byte} {offset : ℕ}

variable {glyphIndexOf : ℕ → Option (Option ℕ)} {i n c : ℕ}

theorem mapCodepoints_eq (h : ∀ c < 256, ∃ r, glyphIndexOf c = some r) :
    mapCodepoints glyphIndexOf = some (fill (fun c => (glyphIndexOf c).join) 256) := by
  suffices hn : ∀ n ≤ 256, (List.range n).foldlM (mapCodepoint glyphIndexOf) (fun _ => none) =
      some (fill (fun c => (glyphIndexOf c).join) n) from hn 256 le_rfl
  intro n
  induction n with
  | zero => exact fun _ => rfl
  | succ n ih =>
    intro hn
    obtain ⟨r, hr⟩ := h n hn
    rw [Axle.Lib.RangeLoop.foldlM_range_succ, ih (Nat.le_of_succ_le hn), Option.bind_some,
      fill_succ, mapCodepoint, insertAt, hr, Option.map_some]
    cases r <;> rfl

theorem mapCodepoints_spec {maps : ℕ → ℕ → Prop}
    (h : ∀ c < 256, ∃ r, glyphIndexOf c = some r ∧ ∀ g, r = some g ↔ maps c g) :
    ∃ f, mapCodepoints glyphIndexOf = some (fill f 256) ∧
      ∀ c < 256, ∀ g, f c = some g ↔ maps c g := by
  refine ⟨fun c => (glyphIndexOf c).join,
    mapCodepoints_eq fun c hc => (h c hc).imp fun _ hr => hr.1, fun c hc g => ?_⟩
  obtain ⟨r, hr, hmaps⟩ := h c hc
  dsimp only
  rw [hr, Option.join_some]
  exact hmaps g

theorem segmentRanges_eq (f g : ℕ → BitVec 16) (n : ℕ) :
    (((List.range n).map f).zip ((List.range n).map g)).map
        (fun r => (r.1.toNat, r.2.toNat + 1)) =
      (List.range n).map fun k => ((f k).toNat, (g k).toNat + 1) := by
  rw [List.zip_map', List.map_map]
  rfl

theorem findIdx?_range_eq_some_iff {p : ℕ × ℕ → Bool} {f : ℕ → ℕ × ℕ} :
    ((List.range n).map f).findIdx? p = some i ↔
      i < n ∧ p (f i) = true ∧ ∀ j < i, p (f j) = false := by
  rw [List.findIdx?_eq_some_iff_getElem]
  simp only [List.length_map, List.length_range, List.getElem_map, List.getElem_range,
    Bool.not_eq_true, exists_prop]

theorem range_map_get {α : Type*} (f : ℕ → α) (hi : i < n) :
    ((List.range n).map f)[i]? = some (f i) := by
  rw [List.getElem?_map, List.getElem?_range hi]
  rfl

theorem segmentGlyph_eq {i c : ℕ} (hc : c < 256) :
    segmentGlyph cmap offset i c =
      if wordAt cmap (idRangeOffsetAddr cmap offset i) = 0 then
        (wordAt cmap (offset + 16 + 4 * segCount cmap offset + 2 * i) + BitVec.ofNat 16 c).toNat
      else if wordAt cmap (glyphIndexAddr cmap offset i c) = 0 then 0
      else (wordAt cmap (offset + 16 + 4 * segCount cmap offset + 2 * i) +
        wordAt cmap (glyphIndexAddr cmap offset i c)).toNat := by
  have hzero : ∀ w : BitVec 16, w = 0 ↔ w.toNat = 0 := fun w => BitVec.toNat_inj.symm
  have hc' : (BitVec.ofNat 16 c).toNat = c := by
    exact Nat.mod_eq_of_lt (by omega)
  simp only [segmentGlyph, idRangeOffset, idDelta, hzero, BitVec.toNat_add, hc']
  rfl

theorem glyphIndexFormat4_spec (hwf : WellFormedFormat4 cmap offset) (hc : c < 256) :
    ∃ r, glyphIndexFormat4 cmap (offset + 16 + 6 * segCount cmap offset)
        ((List.range (segCount cmap offset)).map fun k => wordAt cmap (offset + 14 + 2 * k))
        ((List.range (segCount cmap offset)).map fun k =>
          wordAt cmap (offset + 16 + 2 * segCount cmap offset + 2 * k))
        ((List.range (segCount cmap offset)).map fun k =>
          wordAt cmap (offset + 16 + 4 * segCount cmap offset + 2 * k))
        ((List.range (segCount cmap offset)).map fun k =>
          wordAt cmap (offset + 16 + 6 * segCount cmap offset + 2 * k)) c = some r ∧
      ∀ g, r = some g ↔ MapsFormat4 cmap offset c g := by
  unfold glyphIndexFormat4
  rw [segmentRanges_eq]
  dsimp only
  have hin : ∀ i, decide (startCode cmap offset i ≤ c ∧ c < lastCode cmap offset i + 1) = true ↔
      startCode cmap offset i ≤ c ∧ c ≤ lastCode cmap offset i := fun i => by
    rw [decide_eq_true_iff, Nat.lt_succ_iff]
  cases hfind : ((List.range (segCount cmap offset)).map fun k =>
      ((wordAt cmap (offset + 16 + 2 * segCount cmap offset + 2 * k)).toNat,
        (wordAt cmap (offset + 14 + 2 * k)).toNat + 1)).findIdx?
      fun r => decide (r.1 ≤ c ∧ c < r.2) with
  | none =>
    refine ⟨none, rfl, fun g => ⟨nofun, ?_⟩⟩
    rintro ⟨i, hi, -, hstart, hlast, -⟩
    have hnot := List.findIdx?_eq_none_iff.mp hfind _ (List.mem_map_of_mem (List.mem_range.mpr hi))
    exact absurd (hnot.symm.trans ((hin i).mpr ⟨hstart, hlast⟩)) Bool.false_ne_true
  | some i =>
    obtain ⟨hi, hmem, hbefore⟩ := findIdx?_range_eq_some_iff.mp hfind
    obtain ⟨hstart, hlast⟩ := (hin i).mp hmem
    have hmaps : ∀ g, MapsFormat4 cmap offset c g ↔ g = segmentGlyph cmap offset i c := by
      intro g
      constructor
      · rintro ⟨i', hi', hlt', hstart', hlast', rfl⟩
        rcases Nat.lt_trichotomy i i' with hlt | rfl | hlt
        · exact absurd (hlt' i hlt) (by omega)
        · rfl
        · exact absurd ((hbefore i' hlt).symm.trans ((hin i').mpr ⟨hstart', hlast'⟩))
            Bool.false_ne_true
      · rintro rfl
        refine ⟨i, hi, fun j hj => ?_, hstart, hlast, rfl⟩
        exact lt_of_lt_of_le (hwf.sorted j i hj hi) hstart
    simp only [range_map_get _ hi]
    have hglyph := @segmentGlyph_eq cmap offset i c hc
    by_cases hzero : wordAt cmap (idRangeOffsetAddr cmap offset i) = 0
    · rw [if_pos hzero] at hglyph
      refine ⟨_, if_pos hzero, fun g => ?_⟩
      rw [hmaps, hglyph, Option.some_inj, eq_comm]
    · have haddr := hwf.glyphIndexes i hi
        (fun h => hzero (BitVec.eq_of_toNat_eq h)) c hstart hlast
      have hread : readAt cmap ((wordAt cmap (idRangeOffsetAddr cmap offset i)).toNat +
          2 * (c - startCode cmap offset i) +
          (offset + 16 + 6 * segCount cmap offset + i * 2)) =
          some (wordAt cmap (glyphIndexAddr cmap offset i c)) := by
        have heq : (wordAt cmap (idRangeOffsetAddr cmap offset i)).toNat +
            2 * (c - startCode cmap offset i) +
            (offset + 16 + 6 * segCount cmap offset + i * 2) = glyphIndexAddr cmap offset i c := by
          unfold glyphIndexAddr idRangeOffset idRangeOffsetAddr
          omega
        rw [heq, readAt_eq haddr]
      rw [if_neg hzero] at hglyph
      refine ⟨_, (if_neg hzero).trans (by erw [hread]; rfl), fun g => ?_⟩
      rw [hmaps, hglyph, Option.some_inj, eq_comm]

theorem glyphIndexFormat12_eq_some_iff (hwf : WellFormedFormat12 cmap offset) {c g : ℕ} :
    glyphIndexFormat12 ((List.range (groupsCount cmap offset)).map (group cmap offset)) c = some g ↔
      MapsFormat12 cmap offset c g := by
  have hfound : ∀ {b}, ((List.range (groupsCount cmap offset)).map (group cmap offset)).find?
      (fun group => group.startCharCode ≤ c ∧ c < group.endCharCode + 1) = some b →
      ∃ k < groupsCount cmap offset, b = group cmap offset k ∧
        (group cmap offset k).startCharCode ≤ c ∧ c ≤ (group cmap offset k).endCharCode := by
    intro b hb
    obtain ⟨k, hk, rfl⟩ := List.mem_map.mp (List.mem_of_find?_eq_some hb)
    have hin := List.find?_some hb
    obtain ⟨hstart, hend⟩ := of_decide_eq_true hin
    exact ⟨k, List.mem_range.mp hk, rfl, hstart, Nat.lt_succ_iff.mp hend⟩
  unfold glyphIndexFormat12
  rw [Option.map_eq_some_iff]
  constructor
  · rintro ⟨b, hb, rfl⟩
    obtain ⟨k, hk, rfl, hstart, hend⟩ := hfound hb
    exact ⟨k, hk, hstart, hend, rfl⟩
  · rintro ⟨k, hk, hstart, hend, rfl⟩
    have hsome : (((List.range (groupsCount cmap offset)).map (group cmap offset)).find?
        (fun group => group.startCharCode ≤ c ∧ c < group.endCharCode + 1)).isSome = true :=
      List.find?_isSome.mpr ⟨_, List.mem_map_of_mem (List.mem_range.mpr hk),
        decide_eq_true ⟨hstart, Nat.lt_succ_of_le hend⟩⟩
    obtain ⟨b, hb⟩ := Option.isSome_iff_exists.mp hsome
    obtain ⟨k', hk', rfl, hstart', hend'⟩ := hfound hb
    refine ⟨_, hb, ?_⟩
    -- the groups do not overlap
    rcases Nat.lt_trichotomy k k' with hlt | rfl | hlt
    · exact absurd (hwf.sorted k k' hlt hk') (by omega)
    · rfl
    · exact absurd (hwf.sorted k' k hlt hk) (by omega)

theorem parseCharacterMapTableFormat4_spec (hwf : WellFormedFormat4 cmap offset) :
    ∃ f, parseCharacterMapTableFormat4 cmap offset = some (fill f 256) ∧
      ∀ c < 256, ∀ g, f c = some g ↔ MapsFormat4 cmap offset c g := by
  have harrays := hwf.arrays
  have hsegCount : segCount cmap offset = (wordAt cmap (offset + 2 * 3)).toNat / 2 := rfl
  have hstarts : offset + 14 + 2 * segCount cmap offset + 2 =
      offset + 16 + 2 * segCount cmap offset := by omega
  have hdeltas : offset + 16 + 2 * segCount cmap offset + 2 * segCount cmap offset =
      offset + 16 + 4 * segCount cmap offset := by omega
  have hoffsets : offset + 16 + 4 * segCount cmap offset + 2 * segCount cmap offset =
      offset + 16 + 6 * segCount cmap offset := by omega
  unfold parseCharacterMapTableFormat4
  rw [readWordsAt_eq 7 (by omega)]
  dsimp only [Option.bind_eq_bind, Option.bind_some]
  rw [range_map_get _ (by decide), Option.bind_some, ← hsegCount, readWordsAt_eq _ (by omega),
    Option.bind_some, hstarts, readWordsAt_eq _ (by omega), Option.bind_some, hdeltas,
    readWordsAt_eq _ (by omega), Option.bind_some, hoffsets, readWordsAt_eq _ (by omega),
    Option.bind_some]
  exact mapCodepoints_spec fun c hc => glyphIndexFormat4_spec hwf hc

theorem parseCharacterMapTableFormat12_spec (hwf : WellFormedFormat12 cmap offset) :
    ∃ f, parseCharacterMapTableFormat12 cmap offset = some (fill f 256) ∧
      ∀ c < 256, ∀ g, f c = some g ↔ MapsFormat12 cmap offset c g := by
  have harrays := hwf.arrays
  have hgroups := @readGroups_eq cmap offset (groupsCount cmap offset) 0 (by omega)
  simp only [Nat.mul_zero, Nat.add_zero, Nat.zero_add] at hgroups
  unfold parseCharacterMapTableFormat12
  rw [readU32_drop (by omega)]
  dsimp only [Option.bind_eq_bind, Option.bind_some]
  rw [show offset + 12 + 4 = offset + 16 by omega, show (longAt cmap (offset + 12)).toNat =
    groupsCount cmap offset from rfl, hgroups, Option.bind_some]
  exact mapCodepoints_spec fun c _ => ⟨_, rfl, fun g => glyphIndexFormat12_eq_some_iff hwf⟩

end Formats

/-! ### The directory -/

section Directory

variable {font : FontFile}

theorem WellFormed.first (hwf : WellFormed font) :
    0 < subtablesCount font.cmap ∧ platformId font.cmap 0 = 0 := by
  obtain ⟨k, hk, hplatform, -⟩ := hwf.unicode
  refine ⟨by omega, ?_⟩
  rcases Nat.eq_zero_or_pos k with rfl | hpos
  · exact hplatform
  · have := hwf.sorted 0 k hpos hk
    omega

theorem WellFormed.isUnicode_zero (hwf : WellFormed font) (h : Recognized font.cmap) :
    IsUnicode font.cmap 0 :=
  ⟨hwf.first.1, hwf.first.2, h.2⟩

theorem fromPlatformAndSpecificId_zero (id : ℕ) :
    (id ∈ [0, 1, 3, 4] → ∃ e, fromPlatformAndSpecificId 0 id = some e ∧
      e ∈ recognizedUnicodeEncodings) ∧
    (id ∉ [0, 1, 3, 4] → fromPlatformAndSpecificId 0 id = none) := by
  constructor
  · intro h
    simp only [List.mem_cons, List.not_mem_nil, or_false] at h
    rcases h with rfl | rfl | rfl | rfl <;> exact ⟨_, rfl, by decide⟩
  · intro h
    match id, h with
    | 0, h | 1, h | 3, h | 4, h => exact absurd (by decide) h
    | 2, _ | n + 5, _ => rfl

theorem findUnicodeSubtable_eq (hwf : WellFormed font) :
    findUnicodeSubtable (subtablesCount font.cmap) (font.cmap.drop 4) =
      if platformSpecificId font.cmap 0 ∈ [0, 1, 3, 4] then some (subtableOffset font.cmap 0)
      else none := by
  obtain ⟨hcount, hplatform⟩ := hwf.first
  have hlength := hwf.directory
  obtain ⟨n, hn⟩ : ∃ n, subtablesCount font.cmap = n + 1 :=
    ⟨_, (Nat.sub_add_cancel hcount).symm⟩
  have hplatform' : (wordAt font.cmap 4).toNat = 0 := hplatform
  have hspecific : (wordAt font.cmap (4 + 2)).toNat = platformSpecificId font.cmap 0 := rfl
  have hoffset : (longAt font.cmap (4 + 2 + 2)).toNat = subtableOffset font.cmap 0 := rfl
  rw [hn, findUnicodeSubtable, readU16_drop (by omega)]
  dsimp only [Option.bind_eq_bind, Option.bind_some]
  rw [readU16_drop (by omega)]
  dsimp only [Option.bind_some]
  rw [readU32_drop (by omega)]
  dsimp only [Option.bind_some]
  rw [hplatform', hspecific, hoffset]
  by_cases hid : platformSpecificId font.cmap 0 ∈ [0, 1, 3, 4]
  · obtain ⟨e, he, hmem⟩ := (fromPlatformAndSpecificId_zero _).1 hid
    rw [he, Option.bind_some, if_pos hmem, if_pos hid]
  · rw [(fromPlatformAndSpecificId_zero _).2 hid, if_neg hid]
    rfl

/-- The map is read if and only if the first subtable is recognized, and is then filled by what the
table says. -/
theorem parseCharacterMap_cases (hwf : WellFormed font) :
    (Recognized font.cmap ∧ ∃ f, parseCharacterMap font.cmap = some (fill f 256) ∧
      ∀ c < 256, ∀ g, f c = some g ↔ Maps font.cmap c g) ∨
    (¬Recognized font.cmap ∧ parseCharacterMap font.cmap = none) := by
  have hlength := hwf.directory
  have hversion := @readU16_drop font.cmap 0 (by omega)
  rw [List.drop_zero] at hversion
  have hfind := findUnicodeSubtable_eq hwf
  unfold parseCharacterMap
  rw [hversion]
  dsimp only [Option.bind_eq_bind, Option.bind_some]
  rw [readU16_drop (by omega)]
  dsimp only [Option.bind_some]
  rw [show (wordAt font.cmap (0 + 2)).toNat = subtablesCount font.cmap from rfl, hfind]
  by_cases hid : platformSpecificId font.cmap 0 ∈ [0, 1, 3, 4]
  · rw [if_pos hid, Option.bind_some]
    by_cases hformat : format font.cmap (subtableOffset font.cmap 0) = 4 ∨
        format font.cmap (subtableOffset font.cmap 0) = 12
    · refine .inl ⟨⟨hid, hformat⟩, ?_⟩
      have hzero := hwf.isUnicode_zero ⟨hid, hformat⟩
      -- all Unicode subtables say what the first one says
      have hmaps : ∀ c < 256, ∀ g, MapsAt font.cmap (subtableOffset font.cmap 0) c g ↔
          Maps font.cmap c g := fun c hc g =>
        ⟨fun h => ⟨0, hzero, h⟩, fun ⟨k, hk, h⟩ => hwf.agree k 0 hk hzero c hc g h⟩
      rcases hformat with h4 | h12
      · have hwf4 := hwf.format4 0 hzero h4
        have harrays := hwf4.arrays
        obtain ⟨f, hf, hfmaps⟩ := parseCharacterMapTableFormat4_spec hwf4
        rw [readU16_drop (by omega)]
        dsimp only [Option.bind_some]
        rw [readU16_drop (by omega), Option.bind_some,
          show (wordAt font.cmap (subtableOffset font.cmap 0)).toNat = 4 from h4]
        refine ⟨f, hf, fun c hc g => ?_⟩
        rw [hfmaps c hc, ← hmaps c hc]
        exact ⟨fun h => .inl ⟨h4, h⟩, fun h => h.elim And.right fun h => by rw [h4] at h; cases h.1⟩
      · have hwf12 := hwf.format12 0 hzero h12
        have harrays := hwf12.arrays
        obtain ⟨f, hf, hfmaps⟩ := parseCharacterMapTableFormat12_spec hwf12
        rw [readU16_drop (by omega)]
        dsimp only [Option.bind_some]
        rw [readU16_drop (by omega), Option.bind_some,
          show (wordAt font.cmap (subtableOffset font.cmap 0)).toNat = 12 from h12]
        refine ⟨f, hf, fun c hc g => ?_⟩
        rw [hfmaps c hc, ← hmaps c hc]
        exact ⟨fun h => .inr ⟨h12, h⟩, fun h => h.elim (fun h => by rw [h12] at h; cases h.1)
          And.right⟩
    · refine .inr ⟨fun h => hformat h.2, ?_⟩
      cases hread : readU16 (font.cmap.drop (subtableOffset font.cmap 0)) with
      | none => rfl
      | some r =>
        rw [readU16_drop (length_of_readU16_drop hread)] at hread
        cases hread
        dsimp only [Option.bind_some]
        cases readU16 (font.cmap.drop (subtableOffset font.cmap 0 + 2)) with
        | none => rfl
        | some r =>
          split
          · rename_i h4
            exact absurd (.inl h4) hformat
          · rename_i h12
            exact absurd (.inr h12) hformat
          · rfl
  · rw [if_neg hid]
    exact .inr ⟨fun h => hid h.1, rfl⟩

end Directory

/-! ### The lookup -/

section Lookup

variable {font : FontFile}

theorem foldl_insertCodepoint (table : ℕ → Option ℕ) (n : ℕ) :
    (List.range n).foldl (insertCodepoint table) (fun _ => none) = fill table n := by
  have hstep : insertCodepoint table = insertAt table := by
    funext m i
    unfold insertCodepoint insertAt
    cases table i <;> rfl
  rw [hstep]
  rfl

variable {i : ℕ}

theorem parseGlyphs_get {glyphs : List Outline.GlyphRenderDescription} {m : Metrics}
    (h : parseGlyphs font = some (glyphs, m)) (hi : i < font.data.numGlyphs) :
    ∃ glyph, Outline.parseGlyph font.data font.ascent i = some glyph ∧ glyphs[i]? = some glyph := by
  obtain ⟨long, -, h⟩ := Option.bind_eq_some_iff.mp h
  obtain ⟨vertical, -, h⟩ := Option.bind_eq_some_iff.mp h
  obtain ⟨allGlyphs, hall, h⟩ := Option.bind_eq_some_iff.mp h
  obtain ⟨m₁, -, h⟩ := Option.bind_eq_some_iff.mp h
  obtain ⟨m₂, -, h⟩ := Option.bind_eq_some_iff.mp h
  cases h
  obtain ⟨hlength, hget⟩ := Axle.Lib.RangeLoop.mapM_range_eq_some_iff.mp hall
  have hlt : i < glyphs.length := by rw [hlength]; exact hi
  refine ⟨glyphs[i], ?_, List.getElem?_eq_getElem hlt⟩
  rw [← hget i hi, List.getElem?_eq_getElem hlt]

/-- What the low byte of a character finds: its glyph, unless a greater codepoint has the same. -/
theorem glyphForCodepoint_eq_some_iff {f : ℕ → Option ℕ}
    (hf : ∀ c < 256, ∀ g, f c = some g ↔ Maps font.cmap c g) {n c i : ℕ} (hc : c < 256) :
    fill (fill f 256) n c = some i ↔
      i < n ∧ Maps font.cmap c i ∧ ¬SharedAbove font.cmap c i := by
  rw [fill_fill_eq_some_iff, hf c hc]
  constructor
  · rintro ⟨hi, -, hmaps, hlast⟩
    refine ⟨hi, hmaps, fun ⟨c', hlt, hc', hmaps'⟩ => ?_⟩
    exact hlast c' hlt hc' ((hf c' hc' i).mpr hmaps')
  · rintro ⟨hi, hmaps, hnot⟩
    refine ⟨hi, hc, hmaps, fun c' hlt hc' hsome => hnot ⟨c', hlt, hc', ?_⟩⟩
    exact (hf c' hc' i).mp hsome

section Parsed

variable {f : ℕ → Option ℕ} {parsed : Font} {c : ℕ}

variable {glyphs : List Outline.GlyphRenderDescription} {m : Metrics}

theorem glyphForCodepoint_of_maps (hglyphs : parseGlyphs font = some (glyphs, m))
    (hwf : WellFormed font) (hf : ∀ c < 256, ∀ g, f c = some g ↔ Maps font.cmap c g)
    (hparsed : parsed = ⟨glyphs, m, fill (fill f 256) font.data.numGlyphs⟩) (hc : c < 256) {g : ℕ}
    (hmaps : Maps font.cmap c g) (hshared : ¬SharedAbove font.cmap c g) :
    ∃ glyph, Outline.parseGlyph font.data font.ascent g = some glyph ∧
      parsed.glyphForCodepoint c = some glyph := by
  have hg := hwf.glyphs c g hmaps
  obtain ⟨glyph, hglyph, hget⟩ := parseGlyphs_get hglyphs hg
  have hindex := (glyphForCodepoint_eq_some_iff hf hc).mpr ⟨hg, hmaps, hshared⟩
  refine ⟨glyph, hglyph, ?_⟩
  rw [hparsed, Font.glyphForCodepoint]
  dsimp only
  rw [hindex]
  exact hget

theorem glyphForCodepoint_eq_none_iff (hglyphs : parseGlyphs font = some (glyphs, m))
    (hwf : WellFormed font) (hf : ∀ c < 256, ∀ g, f c = some g ↔ Maps font.cmap c g)
    (hparsed : parsed = ⟨glyphs, m, fill (fill f 256) font.data.numGlyphs⟩) (hc : c < 256) :
    parsed.glyphForCodepoint c = none ↔ ∀ g, Maps font.cmap c g → SharedAbove font.cmap c g := by
  constructor
  · intro hnone g hmaps
    by_contra hshared
    obtain ⟨glyph, -, hsome⟩ := glyphForCodepoint_of_maps hglyphs hwf hf hparsed hc hmaps hshared
    rw [hnone] at hsome
    cases hsome
  · intro hall
    rw [hparsed, Font.glyphForCodepoint]
    cases hindex : fill (fill f 256) font.data.numGlyphs c with
    | none =>
      dsimp only
      rw [hindex]
    | some i =>
      obtain ⟨-, hmaps, hshared⟩ := (glyphForCodepoint_eq_some_iff hf hc).mp hindex
      exact absurd (hall i hmaps) hshared

end Parsed

/-- **When a character finds its glyph (proved).**  The other tables of the font are taken to be
parsed. -/
theorem glyphForCodepoint_iff (font : FontFile) (hwf : WellFormed font)
    (htables : ∃ glyphs m, parseGlyphs font = some (glyphs, m)) (ch : Char) :
    (∃ parsed, parse font = some parsed ∧ FindsGlyph font parsed ch) ↔
      Recognized font.cmap ∧ ∀ g, Maps font.cmap (ch.toNat % 256) g →
        (SharedAbove font.cmap (ch.toNat % 256) g ↔ ¬(ch.toNat < 256 ∧ g ≠ 0)) := by
  obtain ⟨glyphs, m, hglyphs⟩ := htables
  have hc : ch.toNat % 256 < 256 := Nat.mod_lt _ (by decide)
  have hlow : ch.toNat < 256 → ch.toNat % 256 = ch.toNat := Nat.mod_eq_of_lt
  rcases parseCharacterMap_cases hwf with ⟨hrecognized, f, hmap, hf⟩ | ⟨hnot, hmap⟩
  · have hunique : ∀ {g g'}, Maps font.cmap (ch.toNat % 256) g →
        Maps font.cmap (ch.toNat % 256) g' → g = g' := fun h h' =>
      Option.some.inj (((hf _ hc _).mpr h).symm.trans ((hf _ hc _).mpr h'))
    have hparse : parse font =
        some ⟨glyphs, m, fill (fill f 256) font.data.numGlyphs⟩ := by
      rw [parse, hmap]
      dsimp only [Option.bind_eq_bind, Option.bind_some]
      rw [hglyphs, Option.bind_some, foldl_insertCodepoint]
    have hnone := glyphForCodepoint_eq_none_iff hglyphs hwf hf rfl hc
    rw [hparse]
    constructor
    · rintro ⟨parsed, hsome, hfinds⟩
      obtain rfl := Option.some.inj hsome
      refine ⟨hrecognized, fun g hmaps => ⟨fun hshared h => ?_, fun hnot => ?_⟩⟩
      · obtain ⟨glyph, -, hget⟩ := hfinds.assigned h.1 g ⟨hlow h.1 ▸ hmaps, h.2⟩
        have hget' := hnone.mpr fun g' hmaps' => hunique hmaps hmaps' ▸ hshared
        rw [Codepoint.fromChar, hget'] at hget
        cases hget
      · refine hnone.mp (hfinds.others fun h => ?_) g hmaps
        obtain ⟨hch, g', hassigned⟩ := h
        rw [← hlow hch] at hassigned
        exact hnot ⟨hch, hunique hmaps hassigned.1 ▸ hassigned.2⟩
    · rintro ⟨-, hcondition⟩
      refine ⟨_, rfl, fun hch g hassigned => ?_, fun hnot => ?_⟩
      · rw [← hlow hch] at hassigned
        refine glyphForCodepoint_of_maps hglyphs hwf hf rfl hc hassigned.1 fun hshared => ?_
        exact (hcondition g hassigned.1).mp hshared ⟨hch, hassigned.2⟩
      · refine hnone.mpr fun g hmaps => (hcondition g hmaps).mpr fun h => ?_
        exact hnot ⟨h.1, g, hlow h.1 ▸ hmaps, h.2⟩
  · rw [parse, hmap]
    exact ⟨fun ⟨_, h, _⟩ => (by cases h), fun h => absurd h.1 hnot⟩

end Lookup

/-- Three blank glyphs.  The letter A has glyph 1, and B the given one. -/
def twoLetters (glyphOfB : Byte) : FontFile where
  data :=
    { numGlyphs := 3
      glyphBoundingBox := Axle.Agx.Rect.new 0 0 10 10
      longHorMetricsCount := 3
      hmtx := List.replicate 12 0
      vmtx := none
      loca := [0, 0, 0, 0]
      glyf := [] }
  ascent := 8
  cmap :=
    [0, 0, 0, 1, 0, 0, 0, 4, 0, 0, 0, 12,
      0, 12, 0, 0, 0, 0, 0, 40, 0, 0, 0, 0, 0, 0, 0, 2,
      0, 0, 0, 0x41, 0, 0, 0, 0x41, 0, 0, 0, 1,
      0, 0, 0, 0x42, 0, 0, 0, 0x42, 0, 0, 0, glyphOfB]

section TwoLetters

variable {b : Byte} (hb : b = 1 ∨ b = 2)

include hb

theorem subtables_twoLetters : subtablesCount (twoLetters b).cmap = 1 ∧
    platformId (twoLetters b).cmap 0 = 0 ∧ subtableOffset (twoLetters b).cmap 0 = 12 ∧
    format (twoLetters b).cmap 12 = 12 ∧ groupsCount (twoLetters b).cmap 12 = 2 := by
  rcases hb with rfl | rfl <;> decide +kernel

theorem group_twoLetters : group (twoLetters b).cmap 12 0 = ⟨0x41, 0x41, 1⟩ ∧
    group (twoLetters b).cmap 12 1 = ⟨0x42, 0x42, b.toNat⟩ := by
  rcases hb with rfl | rfl <;> decide +kernel

theorem isUnicode_twoLetters_iff {k : ℕ} :
    IsUnicode (twoLetters b).cmap k ↔ k = 0 := by
  obtain ⟨hcount, hplatform, hoffset, hformat, -⟩ := subtables_twoLetters hb
  constructor
  · intro h
    have := h.1
    omega
  · rintro rfl
    exact ⟨by omega, hplatform, .inr (by rw [hoffset, hformat])⟩

theorem maps_twoLetters_iff {c g : ℕ} :
    Maps (twoLetters b).cmap c g ↔ (c = 0x41 ∧ g = 1) ∨ (c = 0x42 ∧ g = b.toNat) := by
  obtain ⟨-, -, hoffset, hformat, hgroups⟩ := subtables_twoLetters hb
  obtain ⟨hA, hB⟩ := group_twoLetters hb
  have hmaps : Maps (twoLetters b).cmap c g ↔ MapsFormat12 (twoLetters b).cmap 12 c g := by
    constructor
    · rintro ⟨k, hk, hmaps⟩
      rw [(isUnicode_twoLetters_iff hb).mp hk, hoffset] at hmaps
      rcases hmaps with ⟨h, -⟩ | ⟨-, h⟩
      · rw [hformat] at h
        cases h
      · exact h
    · exact fun h => ⟨0, (isUnicode_twoLetters_iff hb).mpr rfl, by rw [hoffset]; exact .inr ⟨hformat, h⟩⟩
  rw [hmaps]
  constructor
  · rintro ⟨k, hk, hstart, hend, hg⟩
    have : k = 0 ∨ k = 1 := by omega
    rcases this with rfl | rfl
    · rw [hA] at hstart hend hg
      dsimp only at hstart hend hg
      exact .inl (by omega)
    · rw [hB] at hstart hend hg
      dsimp only at hstart hend hg
      exact .inr (by omega)
  · rintro (⟨rfl, rfl⟩ | ⟨rfl, rfl⟩)
    · exact ⟨0, by rw [hgroups]; decide, by rw [hA], by rw [hA], by rw [hA]; rfl⟩
    · exact ⟨1, by rw [hgroups]; decide, by rw [hB], by rw [hB], by rw [hB]; rfl⟩

theorem wellFormed_twoLetters : WellFormed (twoLetters b) := by
  obtain ⟨hcount, -, hoffset, hformat, hgroups⟩ := subtables_twoLetters hb
  obtain ⟨hA, hB⟩ := group_twoLetters hb
  have hformat' : ∀ k, IsUnicode (twoLetters b).cmap k →
      subtableOffset (twoLetters b).cmap k = 12 := fun k hk => by
    rw [(isUnicode_twoLetters_iff hb).mp hk, hoffset]
  exact
    { directory := by rw [hcount, show (twoLetters b).cmap.length = 52 from rfl]; omega
      sorted := fun i j hi hj => by omega
      unicode := ⟨0, (isUnicode_twoLetters_iff hb).mpr rfl⟩
      format4 := fun k hk h => by rw [hformat' k hk, hformat] at h; cases h
      format12 := fun k hk _ => by
        rw [hformat' k hk]
        refine ⟨by rw [hgroups, show (twoLetters b).cmap.length = 52 from rfl], fun i j hi hj => ?_⟩
        obtain ⟨rfl, rfl⟩ : i = 0 ∧ j = 1 := by omega
        rw [hA, hB]
        exact Nat.lt_succ_self 0x41
      agree := fun k k' hk hk' c _ g h => by rwa [hformat' k hk, ← hformat' k' hk'] at h
      glyphs := fun c g h => by
        show g < 3
        rcases (maps_twoLetters_iff hb).mp h with ⟨-, rfl⟩ | ⟨-, rfl⟩
        · decide
        · rcases hb with rfl | rfl <;> decide }

end TwoLetters

/-- With two glyphs, A finds its own. -/
theorem twoLetters_distinct : ∃ parsed, parse (twoLetters 2) = some parsed ∧
    FindsGlyph (twoLetters 2) parsed 'A' := by
  refine (glyphForCodepoint_iff (twoLetters 2) (wellFormed_twoLetters (.inr rfl))
    ?_ 'A').mpr ⟨⟨by decide, .inr (by decide)⟩, fun g hmaps => ?_⟩
  · obtain ⟨r, hr⟩ := Option.isSome_iff_exists.mp
      (show (parseGlyphs (twoLetters 2)).isSome = true by decide +kernel)
    exact ⟨r.1, r.2, hr⟩
  · have hg : g = 1 := by
      rcases (maps_twoLetters_iff (.inr rfl)).mp hmaps with ⟨-, h⟩ | ⟨h, -⟩
      · exact h
      · exact absurd h (by decide)
    refine iff_of_false ?_ fun h => h ⟨by decide, by omega⟩
    rintro ⟨c', hlt, -, hmaps'⟩
    rcases (maps_twoLetters_iff (.inr rfl)).mp hmaps' with ⟨rfl, -⟩ | ⟨-, h⟩
    · exact absurd hlt (by decide)
    · rw [hg] at h
      exact absurd h (by decide)

/-- When both letters have glyph 1, A finds none; and U+0142 finds the glyph of B. -/
theorem twoLetters_shared : WellFormed (twoLetters 1) ∧ Assigns (twoLetters 1).cmap 'A'.toNat 1 ∧
    (parse (twoLetters 1)).map (fun parsed => parsed.glyphForCodepoint (Codepoint.fromChar 'A')) =
      some none ∧
    (parse (twoLetters 1)).map (fun parsed => parsed.glyphForCodepoint (Codepoint.fromChar 'ł')) =
      some (some ⟨Axle.Agx.Rect.new 0 0 10 10, .blankGlyph, none⟩) := by
  refine ⟨wellFormed_twoLetters (.inl rfl), ⟨(maps_twoLetters_iff (.inl rfl)).mpr (.inl ⟨rfl, rfl⟩), by decide⟩,
    ?_, ?_⟩
  · decide +kernel
  · decide +kernel

end Axle.Ttf.CharacterMap
