import Axle.Ttf.GlyphMetrics

/-!
# Outlines of simple glyphs

`parse_glyph` reads the ends of the contours, the instructions, the flags with their repetitions,
and then all x coordinates and all y coordinates, each as a difference to the one before it in the
form that the flags say.  `GlyphMetrics` has the same function without the outlines.

The coordinates of a point are `f64`s in the source; all that can be read here are exact ones, and
they are integers here.  A slice out of range, a counter below zero and a read behind the last byte
count as a panic.

* `parseFlags`, `interpretValuesViaFlags`, `Outline.parseGlyph` — the decoding;
* `parseGlyph_simpleGlyph` — **PROVED**: from any encoding of contours, the contours come back.
-/

namespace Axle.Ttf.Outline

open Axle.Agx

inductive CoordinateComponentType where
  | x
  | y
  deriving DecidableEq, Repr

inductive GlyphOutlineFlag where
  | onCurve
  | shortX
  | shortY
  | repeats
  | sameX
  | sameY
  deriving DecidableEq, Repr

abbrev Polygon := List Point

inductive GlyphRenderInstructions where
  | polygonsGlyph (polygons : List Polygon)
  | blankGlyph
  | compoundGlyph (instructions : CompoundGlyphRenderInstructions)
  deriving DecidableEq, Repr

structure GlyphRenderDescription where
  boundingBox : Rect
  renderInstructions : GlyphRenderInstructions
  hintingProgramBytes : Option (List Byte)
  deriving DecidableEq, Repr

/-! ### Decoding -/

def GlyphOutlineFlags.fromByte (byte : Byte) : List GlyphOutlineFlag :=
  (if byte.getLsbD 0 then [.onCurve] else []) ++
  (if byte.getLsbD 1 then [.shortX] else []) ++
  (if byte.getLsbD 2 then [.shortY] else []) ++
  (if byte.getLsbD 3 then [.repeats] else []) ++
  (if byte.getLsbD 4 then [.sameX] else []) ++
  (if byte.getLsbD 5 then [.sameY] else [])

/-- `flag_count_to_parse -= n`. -/
def checkedSub (count n : ℕ) : Option ℕ := if n ≤ count then some (count - n) else none

/-- The loop over `flag_count_to_parse`. -/
def parseFlags : List Byte → ℕ → Option (List (List GlyphOutlineFlag) × List Byte)
  | bytes, 0 => some ([], bytes)
  | [], _ + 1 => none
  | flagByte :: bytes, flagCountToParse + 1 =>
    let flags := GlyphOutlineFlags.fromByte flagByte
    if .repeats ∈ flags then
      match bytes with
      | [] => none
      | repeatCount :: bytes => do
        let flagCountToParse ← checkedSub (flagCountToParse + 1) repeatCount.toNat
        let flagCountToParse ← checkedSub flagCountToParse 1
        let (rest, bytes) ← parseFlags bytes flagCountToParse
        -- the flags themselves, and the repetitions
        some (List.replicate (repeatCount.toNat + 1) (flags.filter (· ≠ .repeats)) ++ rest, bytes)
    else do
      let (rest, bytes) ← parseFlags bytes flagCountToParse
      some (flags :: rest, bytes)

def CoordinateComponentType.shortFlag : CoordinateComponentType → GlyphOutlineFlag
  | .x => .shortX
  | .y => .shortY

def CoordinateComponentType.sameFlag : CoordinateComponentType → GlyphOutlineFlag
  | .x => .sameX
  | .y => .sameY

/-- One round of `interpret_values_via_flags`. -/
def interpretValue (valueType : CoordinateComponentType) (flagSet : List GlyphOutlineFlag)
    (lastValue : ℤ) (bytes : List Byte) : Option (ℤ × List Byte) :=
  if valueType.shortFlag ∈ flagSet then
    (readU8 bytes).map fun r =>
      (if valueType.sameFlag ∈ flagSet then lastValue + r.1.toNat else lastValue - r.1.toNat, r.2)
  else if valueType.sameFlag ∈ flagSet then some (lastValue, bytes)
  else (readU16 bytes).map fun r => (lastValue + r.1.toInt, r.2)

def interpretValuesFrom (valueType : CoordinateComponentType) :
    ℤ → List (List GlyphOutlineFlag) → List Byte → Option (List ℤ × List Byte)
  | _, [], bytes => some ([], bytes)
  | lastValue, flagSet :: allFlags, bytes => do
    let (value, bytes) ← interpretValue valueType flagSet lastValue bytes
    let (values, bytes) ← interpretValuesFrom valueType value allFlags bytes
    some (value :: values, bytes)

def interpretValuesViaFlags (allFlags : List (List GlyphOutlineFlag))
    (valueType : CoordinateComponentType) (bytes : List Byte) : Option (List ℤ × List Byte) :=
  interpretValuesFrom valueType 0 allFlags bytes

def readWords : ℕ → List Byte → Option (List (BitVec 16) × List Byte)
  | 0, bytes => some ([], bytes)
  | n + 1, bytes => do
    let (word, bytes) ← readU16 bytes
    let (words, bytes) ← readWords n bytes
    some (word :: words, bytes)

def readBytes (n : ℕ) (bytes : List Byte) : Option (List Byte × List Byte) :=
  if n ≤ bytes.length then some (bytes.take n, bytes.drop n) else none

/-- `points[start_idx..=end_idx]`. -/
def slice (points : List Point) (startIdx endIdx : ℕ) : Option Polygon :=
  if startIdx ≤ endIdx + 1 ∧ endIdx < points.length then
    some ((points.drop startIdx).take (endIdx + 1 - startIdx))
  else none

/-- The polygons, of which the next one starts at `startIdx`. -/
def splitPolygons (points : List Point) : ℕ → List ℕ → Option (List Polygon)
  | _, [] => some []
  | startIdx, endIdx :: lastPointIndexes => do
    let polygon ← slice points startIdx endIdx
    let polygons ← splitPolygons points (endIdx + 1) lastPointIndexes
    some (polygon :: polygons)

/-- What `parse_glyph` makes of the bytes behind the header of a glyph with contours. -/
def parseOutline (ascent : ℤ) (contourCount : ℕ) (bytes : List Byte) :
    Option (List Polygon × List Byte) := do
  let (lastPoints, bytes) ← readWords contourCount bytes
  let lastPointIndexes := lastPoints.map BitVec.toNat
  let maxPointIdx ← lastPointIndexes.max?
  let pointCount := maxPointIdx + 1
  let (instructionsLen, bytes) ← readU16 bytes
  let (instructions, bytes) ← readBytes instructionsLen.toNat bytes
  let (allFlags, bytes) ← parseFlags bytes pointCount
  let (xValues, bytes) ← interpretValuesViaFlags allFlags .x bytes
  let (yValues, _) ← interpretValuesViaFlags allFlags .y bytes
  let points := (xValues.zip yValues).map fun p => (⟨p.1, ascent - p.2⟩ : Point)
  let polygons ← splitPolygons points 0 lastPointIndexes
  some (polygons, instructions)

/-- `parse_glyph` with the outlines; `ascent` is that of the font's layout metrics. -/
def parseGlyph (font : FontData) (ascent : ℤ) (glyphIndex : ℕ) : Option GlyphRenderDescription := do
  let (glyphOffset, glyphDataLength) ← getGlyphOffsetAndLength font glyphIndex
  if glyphDataLength = 0 then some ⟨font.glyphBoundingBox, .blankGlyph, none⟩
  else do
    let (contourCount, bytes) ← readU16 (font.glyf.drop glyphOffset)
    let (minX, bytes) ← readU16 bytes
    let (minY, bytes) ← readU16 bytes
    let (maxX, bytes) ← readU16 bytes
    let (maxY, bytes) ← readU16 bytes
    if contourCount.toInt ≤ 0 then do
      let instructions ← parseCompoundGlyph bytes
      some ⟨font.glyphBoundingBox, .compoundGlyph instructions, none⟩
    else do
      let (polygons, instructions) ← parseOutline ascent contourCount.toInt.toNat bytes
      some
        ⟨Rect.new minX.toInt minY.toInt |maxX.toInt - minX.toInt| |maxY.toInt - minY.toInt|,
          .polygonsGlyph polygons, some instructions⟩

/-- The description without the outline. -/
def GlyphRenderDescription.withoutOutline (glyph : GlyphRenderDescription) :
    Ttf.GlyphRenderDescription :=
  ⟨glyph.boundingBox,
    match glyph.renderInstructions with
    | .polygonsGlyph _ => .polygonsGlyph
    | .blankGlyph => .blankGlyph
    | .compoundGlyph instructions => .compoundGlyph instructions⟩

/-! ### The format -/

def CoordinateComponentType.short (axis : CoordinateComponentType) (flag : Byte) : Bool :=
  match axis with
  | .x => flag.getLsbD 1
  | .y => flag.getLsbD 2

def CoordinateComponentType.same (axis : CoordinateComponentType) (flag : Byte) : Bool :=
  match axis with
  | .x => flag.getLsbD 4
  | .y => flag.getLsbD 5

/-- Bytes that stand for the flags of the points, repeated or not. -/
inductive FlagStream : List Byte → List Byte → Prop
  | nil : FlagStream [] []
  | single {flag : Byte} {flags bytes : List Byte} (once : flag.getLsbD 3 = false)
      (rest : FlagStream flags bytes) : FlagStream (flag :: flags) (flag :: bytes)
  | run {flag repeatCount : Byte} {flags bytes : List Byte} (repeats : flag.getLsbD 3 = true)
      (rest : FlagStream flags bytes) :
      FlagStream (List.replicate (repeatCount.toNat + 1) flag ++ flags)
        (flag :: repeatCount :: bytes)

/-- The forms of a difference, by the short bit and the same bit. -/
inductive DeltaForm : Bool → Bool → ℤ → List Byte → Prop
  | positive (b : Byte) : DeltaForm true true b.toNat [b]
  | negative (b : Byte) : DeltaForm true false (-b.toNat) [b]
  | unchanged : DeltaForm false true 0 []
  | word (hi lo : Byte) : DeltaForm false false (hi ++ lo : BitVec 16).toInt [hi, lo]

/-- Bytes that stand for the coordinates of points with these flags, behind a last one. -/
inductive Coordinates (axis : CoordinateComponentType) : ℤ → List Byte → List ℤ → List Byte → Prop
  | nil {last : ℤ} : Coordinates axis last [] [] []
  | cons {last value : ℤ} {flag : Byte} {flags delta bytes : List Byte} {values : List ℤ}
      (form : DeltaForm (axis.short flag) (axis.same flag) (value - last) delta)
      (rest : Coordinates axis value flags values bytes) :
      Coordinates axis last (flag :: flags) (value :: values) (delta ++ bytes)

/-- The number of the last point of each contour, the first of which starts with point `start`. -/
def contourEnds (start : ℕ) : List (List Point) → List ℕ
  | [] => []
  | contour :: contours => (start + contour.length - 1) :: contourEnds (start + contour.length) contours

def encodeWord (w : BitVec 16) : List Byte := [w.extractLsb' 8 8, w.extractLsb' 0 8]

/-- A simple glyph as it stands in the file. -/
structure SimpleGlyph (contours : List (List Point)) where
  contourCount : BitVec 16
  minX : BitVec 16
  minY : BitVec 16
  maxX : BitVec 16
  maxY : BitVec 16
  ends : List (BitVec 16)
  instructionsLen : BitVec 16
  instructions : List Byte
  flags : List Byte
  flagBytes : List Byte
  xBytes : List Byte
  yBytes : List Byte
  count : contourCount.toInt = contours.length
  ends_eq : ends.map BitVec.toNat = contourEnds 0 contours
  instructions_length : instructions.length = instructionsLen.toNat
  flagStream : FlagStream flags flagBytes
  xCoordinates : Coordinates .x 0 flags (contours.flatten.map Point.x) xBytes
  yCoordinates : Coordinates .y 0 flags (contours.flatten.map Point.y) yBytes

namespace SimpleGlyph

variable {contours : List (List Point)} (glyph : SimpleGlyph contours)

def outlineBytes : List Byte :=
  glyph.ends.flatMap encodeWord ++ (encodeWord glyph.instructionsLen ++ (glyph.instructions ++
    (glyph.flagBytes ++ (glyph.xBytes ++ glyph.yBytes))))

def encode : List Byte :=
  encodeWord glyph.contourCount ++ (encodeWord glyph.minX ++ (encodeWord glyph.minY ++
    (encodeWord glyph.maxX ++ (encodeWord glyph.maxY ++ glyph.outlineBytes))))

def boundingBox : Rect :=
  Rect.new glyph.minX.toInt glyph.minY.toInt |glyph.maxX.toInt - glyph.minX.toInt|
    |glyph.maxY.toInt - glyph.minY.toInt|

end SimpleGlyph

/-- Flipped about the ascent. -/
def flipY (ascent : ℤ) (p : Point) : Point := ⟨p.x, ascent - p.y⟩

/-! ### Words and flags -/

theorem readU16_encodeWord (w : BitVec 16) (rest : List Byte) :
    readU16 (encodeWord w ++ rest) = some (w, rest) := by
  have hw : (w.extractLsb' 8 8 ++ w.extractLsb' 0 8 : BitVec 16) = w := by
    ext i hi
    rw [BitVec.getElem_append]
    by_cases h : i < 8
    · simp [h, BitVec.getLsbD_eq_getElem hi]
    · have hsub : 8 + (i - 8) = i := by omega
      simp [h, hsub, BitVec.getLsbD_eq_getElem hi]
  show some ((w.extractLsb' 8 8 ++ w.extractLsb' 0 8 : BitVec 16), rest) = _
  rw [hw]

theorem readWords_flatMap (rest : List Byte) : ∀ words : List (BitVec 16),
    readWords words.length (words.flatMap encodeWord ++ rest) = some (words, rest) := by
  intro words
  induction words with
  | nil => rfl
  | cons word words ih =>
    rw [List.flatMap_cons, List.append_assoc, List.length_cons, readWords, readU16_encodeWord]
    dsimp only [Option.bind_eq_bind, Option.bind_some]
    rw [ih]
    rfl

theorem readBytes_append (bytes rest : List Byte) :
    readBytes bytes.length (bytes ++ rest) = some (bytes, rest) := by
  rw [readBytes, if_pos (by rw [List.length_append]; exact Nat.le_add_right _ _), List.take_left,
    List.drop_left]

/-- The flags of a point, once the repetitions are resolved. -/
def storedFlags (flag : Byte) : List GlyphOutlineFlag :=
  (GlyphOutlineFlags.fromByte flag).filter (· ≠ .repeats)

theorem repeats_mem_fromByte (flag : Byte) :
    .repeats ∈ GlyphOutlineFlags.fromByte flag ↔ flag.getLsbD 3 = true := by
  simp [GlyphOutlineFlags.fromByte]

theorem shortFlag_mem_storedFlags (axis : CoordinateComponentType) (flag : Byte) :
    axis.shortFlag ∈ storedFlags flag ↔ axis.short flag = true := by
  cases axis <;>
    simp [storedFlags, GlyphOutlineFlags.fromByte, CoordinateComponentType.shortFlag,
      CoordinateComponentType.short]

theorem sameFlag_mem_storedFlags (axis : CoordinateComponentType) (flag : Byte) :
    axis.sameFlag ∈ storedFlags flag ↔ axis.same flag = true := by
  cases axis <;>
    simp [storedFlags, GlyphOutlineFlags.fromByte, CoordinateComponentType.sameFlag,
      CoordinateComponentType.same]

variable {flag : Byte} {bytes flags : List Byte} {axis : CoordinateComponentType} {last : ℤ}
  {values : List ℤ} {contours : List (List Point)}

theorem fromByte_of_once (once : flag.getLsbD 3 = false) :
    GlyphOutlineFlags.fromByte flag = storedFlags flag := by
  refine (List.filter_eq_self.mpr fun f hf => ?_).symm
  have hne : f ≠ .repeats := by
    rintro rfl
    rw [repeats_mem_fromByte, once] at hf
    exact Bool.false_ne_true hf
  exact decide_eq_true hne

theorem parseFlags_once (once : flag.getLsbD 3 = false) (bytes : List Byte) (n : ℕ) :
    parseFlags (flag :: bytes) (n + 1) =
      (parseFlags bytes n).map fun r => (storedFlags flag :: r.1, r.2) := by
  have hnot : .repeats ∉ GlyphOutlineFlags.fromByte flag := by
    rw [repeats_mem_fromByte, once]
    exact Bool.false_ne_true
  rw [parseFlags.eq_def]
  dsimp only
  rw [if_neg hnot, fromByte_of_once once]
  cases parseFlags bytes n <;> rfl

theorem parseFlags_repeats (repeats : flag.getLsbD 3 = true) (repeatCount : Byte)
    (bytes : List Byte) (n : ℕ) :
    parseFlags (flag :: repeatCount :: bytes) (repeatCount.toNat + n + 1) =
      (parseFlags bytes n).map fun r =>
        (List.replicate (repeatCount.toNat + 1) (storedFlags flag) ++ r.1, r.2) := by
  -- neither subtraction goes below zero
  have hcount : checkedSub (repeatCount.toNat + n + 1) repeatCount.toNat = some (n + 1) := by
    rw [checkedSub, if_pos (by omega), show _ - _ = n + 1 by omega]
  have hone : checkedSub (n + 1) 1 = some n := if_pos (Nat.le_add_left 1 n)
  show (if .repeats ∈ GlyphOutlineFlags.fromByte flag then
    ((checkedSub (repeatCount.toNat + n + 1) repeatCount.toNat).bind fun n =>
      (checkedSub n 1).bind fun n => _) else _) = _
  rw [if_pos ((repeats_mem_fromByte flag).mpr repeats), hcount, Option.bind_some, hone,
    Option.bind_some]
  cases parseFlags bytes n <;> rfl

/-- The counter reaches zero with the last point, and never goes below. -/
theorem parseFlags_flagStream (h : FlagStream flags bytes) (rest : List Byte) :
    parseFlags (bytes ++ rest) flags.length = some (flags.map storedFlags, rest) := by
  induction h with
  | nil => cases rest <;> rfl
  | @single flag flags bytes once _ ih =>
    rw [List.cons_append, List.length_cons, parseFlags_once once, ih]
    rfl
  | @run flag repeatCount flags bytes repeats _ ih =>
    have hlength : (List.replicate (repeatCount.toNat + 1) flag ++ flags).length =
        repeatCount.toNat + flags.length + 1 := by
      rw [List.length_append, List.length_replicate]
      omega
    rw [hlength, List.cons_append, List.cons_append, parseFlags_repeats repeats, ih,
      List.map_append, List.map_replicate]
    rfl

/-! ### Coordinates -/

theorem interpretValue_deltaForm {value last : ℤ} {delta : List Byte}
    (h : DeltaForm (axis.short flag) (axis.same flag) (value - last) delta) (rest : List Byte) :
    interpretValue axis (storedFlags flag) last (delta ++ rest) = some (value, rest) := by
  have hshort := shortFlag_mem_storedFlags axis flag
  have hsame := sameFlag_mem_storedFlags axis flag
  unfold interpretValue
  generalize axis.short flag = short at h hshort
  generalize axis.same flag = same at h hsame
  generalize hd : value - last = d at h
  cases h with
  | positive b =>
    rw [if_pos (hshort.mpr rfl)]
    simp only [List.cons_append, readU8, Option.map_some, if_pos (hsame.mpr rfl)]
    rw [← hd, add_sub_cancel]
    rfl
  | negative b =>
    have hnot : axis.sameFlag ∉ storedFlags flag := fun hmem => Bool.false_ne_true (hsame.mp hmem)
    rw [if_pos (hshort.mpr rfl)]
    simp only [List.cons_append, readU8, Option.map_some, if_neg hnot]
    rw [sub_eq_add_neg, ← hd, add_sub_cancel]
    rfl
  | unchanged =>
    rw [if_neg fun hmem => Bool.false_ne_true (hshort.mp hmem), if_pos (hsame.mpr rfl),
      ← sub_eq_zero.mp hd]
    rfl
  | word hi lo =>
    rw [if_neg fun hmem => Bool.false_ne_true (hshort.mp hmem),
      if_neg fun hmem => Bool.false_ne_true (hsame.mp hmem)]
    simp only [List.cons_append, readU16, Option.map_some]
    rw [← hd, add_sub_cancel]
    rfl

theorem interpretValuesFrom_coordinates (h : Coordinates axis last flags values bytes)
    (rest : List Byte) :
    interpretValuesFrom axis last (flags.map storedFlags) (bytes ++ rest) = some (values, rest) := by
  induction h with
  | nil => rfl
  | cons form _ ih =>
    rw [List.map_cons, List.append_assoc, interpretValuesFrom, interpretValue_deltaForm form]
    dsimp only [Option.bind_eq_bind, Option.bind_some]
    rw [ih]
    rfl

theorem Coordinates.length_eq (h : Coordinates axis last flags values bytes) :
    flags.length = values.length := by
  induction h with
  | nil => rfl
  | cons _ _ ih => exact congrArg Nat.succ ih

/-! ### Contours -/

section

variable (hne : ∀ c ∈ contours, c ≠ [])

include hne

theorem contourEnds_lt :
    ∀ {start e : ℕ}, e ∈ contourEnds start contours → e < start + contours.flatten.length := by
  induction contours with
  | nil => intro start e he; cases he
  | cons contour contours ih =>
    intro start e he
    have hpos := List.length_pos_of_ne_nil (hne contour List.mem_cons_self)
    rw [List.flatten_cons, List.length_append]
    rcases List.mem_cons.mp he with rfl | he
    · omega
    · have := ih (fun c hc => hne c (List.mem_cons_of_mem _ hc)) he
      omega

theorem last_mem_contourEnds (hcontours : contours ≠ []) :
    ∀ start, start + contours.flatten.length - 1 ∈ contourEnds start contours := by
  induction contours with
  | nil => exact absurd rfl hcontours
  | cons contour contours ih =>
    intro start
    rw [List.flatten_cons, List.length_append, contourEnds]
    by_cases hnil : contours = []
    · rw [hnil]
      exact List.mem_cons_self
    · have := ih (fun c hc => hne c (List.mem_cons_of_mem _ hc)) hnil (start + contour.length)
      rw [Nat.add_assoc] at this
      exact List.mem_cons_of_mem _ this

/-- The largest number of a last point is that of the last point of all. -/
theorem max_contourEnds (hcontours : contours ≠ []) :
    (contourEnds 0 contours).max? = some (contours.flatten.length - 1) := by
  refine List.max?_eq_some_iff.mpr ⟨?_, fun e he => ?_⟩
  · have := last_mem_contourEnds hne hcontours 0
    rwa [Nat.zero_add] at this
  · have := contourEnds_lt hne he
    omega

end

theorem splitPolygons_contourEnds {points : List Point} :
    ∀ {contours : List (List Point)} {done : List Point}, (∀ c ∈ contours, c ≠ []) →
      points = done ++ contours.flatten →
      splitPolygons points done.length (contourEnds done.length contours) = some contours := by
  intro contours
  induction contours with
  | nil => exact fun _ _ => rfl
  | cons contour contours ih =>
    intro done hne hpoints
    have hpos := List.length_pos_of_ne_nil (hne contour List.mem_cons_self)
    have hlast : done.length + contour.length - 1 + 1 = (done ++ contour).length := by
      rw [List.length_append]
      omega
    rw [List.flatten_cons, ← List.append_assoc] at hpoints
    have hslice : slice points done.length (done.length + contour.length - 1) = some contour := by
      have hlt : done.length + contour.length - 1 < points.length := by
        rw [hpoints, List.length_append, List.length_append]
        omega
      rw [slice, if_pos ⟨by omega, hlt⟩, hlast, List.length_append, Nat.add_sub_cancel_left, hpoints,
        List.append_assoc, List.drop_left, List.take_left]
    rw [contourEnds, splitPolygons, hslice]
    rw [hlast, ← List.length_append, ih (fun c hc => hne c (List.mem_cons_of_mem _ hc)) hpoints]
    rfl

/-! ### The glyph -/

theorem zip_flipY (ascent : ℤ) (points : List Point) :
    ((points.map Point.x).zip (points.map Point.y)).map
      (fun p => (⟨p.1, ascent - p.2⟩ : Point)) = points.map (flipY ascent) := by
  rw [List.zip_map', List.map_map]
  rfl

theorem contourEnds_map (f : Point → Point) (contours : List (List Point)) :
    ∀ start, contourEnds start (contours.map (List.map f)) = contourEnds start contours := by
  induction contours with
  | nil => exact fun _ => rfl
  | cons contour contours ih =>
    intro start
    rw [List.map_cons, contourEnds, contourEnds, List.length_map, ih]

theorem splitPolygons_map (f : Point → Point) (hne : ∀ c ∈ contours, c ≠ []) :
    splitPolygons (contours.flatten.map f) 0 (contourEnds 0 contours) =
      some (contours.map (List.map f)) := by
  rw [← contourEnds_map f, List.map_flatten]
  refine @splitPolygons_contourEnds _ _ [] (fun c' hc' => ?_) rfl
  obtain ⟨c, hc, rfl⟩ := List.mem_map.mp hc'
  exact fun h => hne c hc (List.map_eq_nil_iff.mp h)

section Glyph

variable {contours : List (List Point)} (glyph : SimpleGlyph contours)

include glyph

theorem SimpleGlyph.ends_length : glyph.ends.length = contours.length := by
  have hlength : ∀ (cs : List (List Point)) (start : ℕ), (contourEnds start cs).length = cs.length := by
    intro cs
    induction cs with
    | nil => exact fun _ => rfl
    | cons c cs ih => exact fun start => congrArg Nat.succ (ih _)
  rw [← List.length_map BitVec.toNat, glyph.ends_eq, hlength]

theorem parseOutline_outlineBytes (ascent : ℤ) (hcontours : contours ≠ [])
    (hne : ∀ c ∈ contours, c ≠ []) (rest : List Byte) :
    parseOutline ascent contours.length (glyph.outlineBytes ++ rest) =
      some (contours.map (List.map (flipY ascent)), glyph.instructions) := by
  have hends := readWords_flatMap
    (encodeWord glyph.instructionsLen ++ (glyph.instructions ++
      (glyph.flagBytes ++ (glyph.xBytes ++ (glyph.yBytes ++ rest))))) glyph.ends
  have hflags : glyph.flags.length = contours.flatten.length := by
    rw [glyph.xCoordinates.length_eq, List.length_map]
  have hpos : 0 < contours.flatten.length := by
    have := contourEnds_lt hne (last_mem_contourEnds hne hcontours 0)
    omega
  have hx := interpretValuesFrom_coordinates glyph.xCoordinates (glyph.yBytes ++ rest)
  have hy := interpretValuesFrom_coordinates glyph.yCoordinates rest
  have hinstructions := readBytes_append glyph.instructions
    (glyph.flagBytes ++ (glyph.xBytes ++ (glyph.yBytes ++ rest)))
  have hflagBytes := parseFlags_flagStream glyph.flagStream
    (glyph.xBytes ++ (glyph.yBytes ++ rest))
  rw [glyph.ends_length] at hends
  rw [glyph.instructions_length] at hinstructions
  rw [hflags, ← Nat.sub_add_cancel hpos] at hflagBytes
  unfold parseOutline SimpleGlyph.outlineBytes interpretValuesViaFlags
  simp only [List.append_assoc]
  rw [hends]
  dsimp only [Option.bind_eq_bind, Option.bind_some]
  rw [glyph.ends_eq, max_contourEnds hne hcontours]
  rw [readU16_encodeWord]
  dsimp only [Option.bind_some]
  rw [hinstructions]
  dsimp only [Option.bind_some]
  rw [hflagBytes]
  dsimp only [Option.bind_some]
  rw [hx]
  dsimp only [Option.bind_some]
  rw [hy]
  dsimp only [Option.bind_some]
  rw [zip_flipY]
  rw [splitPolygons_map (flipY ascent) hne]
  rfl

end Glyph

/-- **Decoding undoes the encoding (proved).** -/
theorem parseGlyph_simpleGlyph (font : FontData) (ascent : ℤ) (contours : List (List Point))
    (hcontours : contours ≠ []) (hne : ∀ c ∈ contours, c ≠ []) (glyph : SimpleGlyph contours)
    (i glyphOffset glyphDataLength : ℕ) (rest : List Byte)
    (hoffset : getGlyphOffsetAndLength font i = some (glyphOffset, glyphDataLength))
    (hlength : glyphDataLength ≠ 0) (hbytes : font.glyf.drop glyphOffset = glyph.encode ++ rest) :
    parseGlyph font ascent i = some ⟨glyph.boundingBox,
      .polygonsGlyph (contours.map (List.map (flipY ascent))), some glyph.instructions⟩ := by
  have hpos := List.length_pos_of_ne_nil hcontours
  have hcount : ¬glyph.contourCount.toInt ≤ 0 := by
    rw [glyph.count]
    omega
  have houtline := parseOutline_outlineBytes glyph ascent hcontours hne rest
  rw [← Int.toNat_natCast contours.length, ← glyph.count] at houtline
  unfold parseGlyph
  rw [hoffset]
  dsimp only [Option.bind_eq_bind, Option.bind_some]
  rw [if_neg hlength, hbytes, SimpleGlyph.encode]
  simp only [List.append_assoc, readU16_encodeWord, Option.bind_some]
  rw [if_neg hcount, houtline]
  rfl

/-- A triangle whose second point has the flags of the first one by repetition, and whose third one
goes back in both directions. -/
def triangle : SimpleGlyph [[⟨5, 300⟩, ⟨10, 600⟩, ⟨9, 600⟩]] where
  contourCount := 1
  minX := 5
  minY := 300
  maxX := 10
  maxY := 600
  ends := [2]
  instructionsLen := 1
  instructions := [0xb0]
  flags := [0x1a, 0x1a, 0x22]
  flagBytes := [0x1a, 1, 0x22]
  xBytes := [5, 5, 1]
  yBytes := [1, 44, 1, 44]
  count := by decide
  ends_eq := by decide
  instructions_length := by decide
  flagStream := @FlagStream.run 0x1a 1 [0x22] [0x22] (by decide) (.single (by decide) .nil)
  xCoordinates :=
    @Coordinates.cons .x 0 5 0x1a [0x1a, 0x22] [5] [5, 1] [10, 9] (.positive 5) <|
    @Coordinates.cons .x 5 10 0x1a [0x22] [5] [1] [9] (.positive 5) <|
    @Coordinates.cons .x 10 9 0x22 [] [1] [] [] (.negative 1) .nil
  yCoordinates :=
    @Coordinates.cons .y 0 300 0x1a [0x1a, 0x22] [1, 44] [1, 44] [600, 600] (.word 1 44) <|
    @Coordinates.cons .y 300 600 0x1a [0x22] [1, 44] [] [600] (.word 1 44) <|
    @Coordinates.cons .y 600 600 0x22 [] [] [] [] .unchanged .nil

def triangleFont : FontData where
  numGlyphs := 1
  glyphBoundingBox := Rect.new 0 0 10 600
  longHorMetricsCount := 0
  hmtx := []
  vmtx := none
  loca := [0, 24]
  glyf := triangle.encode

theorem parseGlyph_triangle :
    parseGlyph triangleFont 1000 0 = some ⟨Rect.new 5 300 5 300,
      .polygonsGlyph [[⟨5, 700⟩, ⟨10, 400⟩, ⟨9, 400⟩]], some [0xb0]⟩ :=
  (parseGlyph_simpleGlyph triangleFont 1000 _ (List.cons_ne_nil _ _)
    (fun c hc => by rw [List.mem_singleton.mp hc]; exact List.cons_ne_nil _ _) triangle 0 0 24 []
    (by decide) (by decide) (by decide)).trans (by decide)

end Axle.Ttf.Outline
