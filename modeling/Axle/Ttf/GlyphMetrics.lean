import Axle.Agx.Rect
import Axle.Lib.RangeLoop
import Mathlib.Logic.Function.Basic
import Mathlib.Tactic

/-!
# Metrics of glyphs in a TrueType font

`FontParser::parse` gives each glyph its metrics in two passes.  The first one gives glyph `i` the
`i`-th long horizontal metric, if there are so many.  The second one copies to a compound glyph the
metrics of the component that says so, as they are at that time.  `metrics()` unwraps them.

The tables are given as their bytes.  `head`, `maxp`, `hhea` and `cmap` have been read, and the
outlines of simple glyphs are left out.  A read behind the last byte counts as a panic.

* `parse`, `Font.metrics` — the two passes, and what is unwrapped of them;
* `parse_metrics_iff` — **PROVED**: a well-formed font is parsed, and all its glyphs have metrics
  with their advance widths, if and only if each glyph's metrics are found.
-/

namespace Axle.Ttf

open Axle.Agx
open Axle.Lib.RangeLoop

/-! ### Reading -/

abbrev Byte := BitVec 8

def readU16 : List Byte → Option (BitVec 16 × List Byte)
  | hi :: lo :: rest => some (hi ++ lo, rest)
  | _ => none

def readU8 : List Byte → Option (Byte × List Byte)
  | b :: rest => some (b, rest)
  | [] => none

/-- Values that are read and not used. -/
def skip (n : ℕ) (bytes : List Byte) : Option (List Byte) :=
  if n ≤ bytes.length then some (bytes.drop n) else none

structure LongHorMetric where
  advanceWidth : ℕ
  leftSideBearing : ℤ
  deriving DecidableEq, Repr

structure VerticalMetrics where
  advanceHeight : ℕ
  topSideBearing : ℤ
  deriving DecidableEq, Repr

structure GlyphMetrics where
  advanceWidth : ℕ
  advanceHeight : ℕ
  leftSideBearing : ℤ
  topSideBearing : ℤ
  deriving DecidableEq, Repr

/-- The parsed numbers, and the tables with what follows them in the file.  `loca` has the offsets
into `glyf`. -/
structure FontData where
  numGlyphs : ℕ
  glyphBoundingBox : Rect
  longHorMetricsCount : ℕ
  hmtx : List Byte
  vmtx : Option (List Byte)
  loca : List ℕ
  glyf : List Byte

/-- Records of an unsigned and a signed word. -/
def readRecords : ℕ → List Byte → Option (List (BitVec 16 × BitVec 16))
  | 0, _ => some []
  | n + 1, bytes => do
    let (fst, bytes) ← readU16 bytes
    let (snd, bytes) ← readU16 bytes
    let rest ← readRecords n bytes
    some ((fst, snd) :: rest)

def parseHorizontalMetrics (font : FontData) : Option (List LongHorMetric) :=
  (readRecords font.longHorMetricsCount font.hmtx).map fun records =>
    records.map fun r => ⟨r.1.toNat, r.2.toInt⟩

def parseVerticalMetrics (font : FontData) : Option (Option (List VerticalMetrics)) :=
  match font.vmtx with
  | none => some none
  | some vmtx =>
    (readRecords font.numGlyphs vmtx).map fun records =>
      some (records.map fun r => ⟨r.1.toNat, r.2.toInt⟩)

/-! ### Glyphs -/

structure CompoundGlyphComponent where
  glyphIndex : ℕ
  origin : Point
  deriving DecidableEq, Repr

structure CompoundGlyphRenderInstructions where
  children : List CompoundGlyphComponent
  useMetricsFromChildIdx : Option ℕ
  deriving DecidableEq, Repr

inductive GlyphRenderInstructions where
  | polygonsGlyph
  | blankGlyph
  | compoundGlyph (instructions : CompoundGlyphRenderInstructions)
  deriving DecidableEq, Repr

structure GlyphRenderDescription where
  boundingBox : Rect
  renderInstructions : GlyphRenderInstructions
  deriving DecidableEq, Repr

abbrev ComponentFlags := BitVec 16

namespace ComponentFlags

variable (flags : ComponentFlags)

def headerValuesAreWords : Bool := flags.getLsbD 0
def headerValuesAreCoordinates : Bool := flags.getLsbD 1
def customScale : Bool := flags.getLsbD 3
def moreComponentsFollow : Bool := flags.getLsbD 5
def hasDifferentScalesForXAndY : Bool := flags.getLsbD 6
def hasTwoByTwoTransformation : Bool := flags.getLsbD 7
def useMetricsFromThisComponent : Bool := flags.getLsbD 9

/-- The size of one argument. -/
def argSize : ℕ := if headerValuesAreWords flags then 2 else 1

/-- The size of the scales. -/
def scaleSize : ℕ :=
  if customScale flags then 2
  else if hasDifferentScalesForXAndY flags then 4
  else if hasTwoByTwoTransformation flags then 8
  else 0

end ComponentFlags

/-- `read_value_of_type`, for the type that the flags say. -/
def readArgument (flags : ComponentFlags) (bytes : List Byte) : Option (ℤ × List Byte) :=
  if flags.headerValuesAreWords then
    (readU16 bytes).map fun r =>
      (if flags.headerValuesAreCoordinates then r.1.toInt else r.1.toNat, r.2)
  else
    (readU8 bytes).map fun r =>
      (if flags.headerValuesAreCoordinates then r.1.toInt else r.1.toNat, r.2)

/-- What a component's flag makes of the index of the component whose metrics are used. -/
def noteMetrics (flags : ComponentFlags) (childIdx : ℕ) (useMetricsOfChildIdx : Option ℕ) :
    Option (Option ℕ) :=
  if flags.useMetricsFromThisComponent then
    -- "This flag can only be used in one component"
    if useMetricsOfChildIdx = none then some (some childIdx) else none
  else some useMetricsOfChildIdx

/-- The loop of `parse_compound_glyph`.  A component takes bytes, so as many rounds as there are
bytes are enough. -/
def parseComponents : ℕ → List Byte → List CompoundGlyphComponent → Option ℕ →
    Option CompoundGlyphRenderInstructions
  | 0, _, _, _ => none
  | n + 1, bytes, children, useMetricsOfChildIdx => do
    let (flags, bytes) ← readU16 bytes
    let (glyphIndexOfComponent, bytes) ← readU16 bytes
    let (x, bytes) ← readArgument flags bytes
    let (y, bytes) ← readArgument flags bytes
    let useMetricsOfChildIdx ← noteMetrics flags children.length useMetricsOfChildIdx
    let bytes ← skip (ComponentFlags.scaleSize flags) bytes
    let children := children ++ [⟨glyphIndexOfComponent.toNat, ⟨x, y⟩⟩]
    if ComponentFlags.moreComponentsFollow flags then
      parseComponents n bytes children useMetricsOfChildIdx
    else some ⟨children, useMetricsOfChildIdx⟩

def parseCompoundGlyph (bytes : List Byte) : Option CompoundGlyphRenderInstructions :=
  parseComponents bytes.length bytes [] none

def getGlyphOffsetAndLength (font : FontData) (glyphIndex : ℕ) : Option (ℕ × ℕ) := do
  let glyphOffset ← font.loca[glyphIndex]?
  let nextGlyphOffset ← font.loca[glyphIndex + 1]?
  if glyphOffset ≤ nextGlyphOffset then some (glyphOffset, nextGlyphOffset - glyphOffset) else none

/-- A glyph without data is blank.  A glyph without contours is taken for a compound glyph. -/
def parseGlyph (font : FontData) (glyphIndex : ℕ) : Option GlyphRenderDescription := do
  let (glyphOffset, glyphDataLength) ← getGlyphOffsetAndLength font glyphIndex
  if glyphDataLength = 0 then some ⟨font.glyphBoundingBox, .blankGlyph⟩
  else do
    let (contourCount, bytes) ← readU16 (font.glyf.drop glyphOffset)
    let (minX, bytes) ← readU16 bytes
    let (minY, bytes) ← readU16 bytes
    let (maxX, bytes) ← readU16 bytes
    let (maxY, bytes) ← readU16 bytes
    if contourCount.toInt ≤ 0 then do
      let instructions ← parseCompoundGlyph bytes
      some ⟨font.glyphBoundingBox, .compoundGlyph instructions⟩
    else
      some
        ⟨Rect.new minX.toInt minY.toInt |maxX.toInt - minX.toInt| |maxY.toInt - minY.toInt|,
          .polygonsGlyph⟩

/-! ### The two passes -/

/-- The cells of the glyphs' metrics. -/
structure Metrics where
  horizontal : ℕ → Option LongHorMetric
  vertical : ℕ → Option VerticalMetrics

def Metrics.setHorizontal (m : Metrics) (i : ℕ) (h : LongHorMetric) : Metrics :=
  { m with horizontal := Function.update m.horizontal i (some h) }

def Metrics.setVertical (m : Metrics) (i : ℕ) (v : VerticalMetrics) : Metrics :=
  { m with vertical := Function.update m.vertical i (some v) }

/-- The component that a compound glyph takes its metrics from. -/
def GlyphRenderDescription.useMetricsFromChildIdx (glyph : GlyphRenderDescription) : Option ℕ :=
  match glyph.renderInstructions with
  | .compoundGlyph instructions => instructions.useMetricsFromChildIdx
  | _ => none

/-- The first pass at a glyph. -/
def setMetrics (long : List LongHorMetric) (vertical : Option (List VerticalMetrics))
    (glyphs : List GlyphRenderDescription) (m : Metrics) (i : ℕ) : Option Metrics := do
  let glyph ← glyphs[i]?
  -- handled in the second pass
  if glyph.useMetricsFromChildIdx.isSome then some m
  else
    let m :=
      match long[i]? with
      | some h => m.setHorizontal i h
      | none => m
    match vertical with
    | some vertical => (vertical[i]?).map fun v => m.setVertical i v
    | none => some m

/-- The second pass at a glyph. -/
def inheritMetrics (glyphBoundingBox : Rect) (glyphs : List GlyphRenderDescription) (m : Metrics)
    (i : ℕ) : Option Metrics := do
  let glyph ← glyphs[i]?
  match glyph.renderInstructions with
  | .compoundGlyph ⟨children, some childIdx⟩ => do
    let child ← children[childIdx]?
    let _ ← glyphs[child.glyphIndex]?
    let h ← m.horizontal child.glyphIndex
    let v := (m.vertical child.glyphIndex).getD ⟨glyphBoundingBox.height.toNat, 0⟩
    some ((m.setHorizontal i h).setVertical i v)
  | _ => some m

structure Font where
  glyphs : List GlyphRenderDescription
  metricsCells : Metrics

def parse (font : FontData) : Option Font := do
  let long ← parseHorizontalMetrics font
  let vertical ← parseVerticalMetrics font
  let glyphs ← (List.range font.numGlyphs).mapM (parseGlyph font)
  let m ← (List.range font.numGlyphs).foldlM (setMetrics long vertical glyphs)
    ⟨fun _ => none, fun _ => none⟩
  let m ← (List.range font.numGlyphs).foldlM (inheritMetrics font.glyphBoundingBox glyphs) m
  some ⟨glyphs, m⟩

/-- `GlyphRenderMetrics::metrics` of a glyph. -/
def Font.metrics (font : Font) (i : ℕ) : Option GlyphMetrics := do
  let glyph ← font.glyphs[i]?
  let h ← font.metricsCells.horizontal i
  let v := (font.metricsCells.vertical i).getD ⟨glyph.boundingBox.height.toNat, 0⟩
  some ⟨h.advanceWidth, v.advanceHeight, h.leftSideBearing, v.topSideBearing⟩

/-! ### What the font says -/

/-- A component as it stands in the file. -/
structure ComponentForm where
  flagsHi : Byte
  flagsLo : Byte
  indexHi : Byte
  indexLo : Byte
  args : List Byte
  scale : List Byte
  args_length : args.length = 2 * ComponentFlags.argSize (flagsHi ++ flagsLo)
  scale_length : scale.length = ComponentFlags.scaleSize (flagsHi ++ flagsLo)

namespace ComponentForm

variable (c : ComponentForm)

def flags : ComponentFlags := c.flagsHi ++ c.flagsLo

def glyphIndex : ℕ := (c.indexHi ++ c.indexLo : BitVec 16).toNat

def encode : List Byte := [c.flagsHi, c.flagsLo, c.indexHi, c.indexLo] ++ c.args ++ c.scale

/-- The compound glyph is to have the metrics of this component. -/
def UsesMetrics : Prop := ComponentFlags.useMetricsFromThisComponent c.flags = true

end ComponentForm

/-- The bytes begin with these components. -/
inductive Components : List Byte → List ComponentForm → Prop
  | last {c : ComponentForm} {tail : List Byte}
      (more : ComponentFlags.moreComponentsFollow c.flags = false) :
      Components (c.encode ++ tail) [c]
  | cons {c : ComponentForm} {bytes : List Byte} {rest : List ComponentForm}
      (more : ComponentFlags.moreComponentsFollow c.flags = true)
      (components : Components bytes rest) : Components (c.encode ++ bytes) (c :: rest)

/-- The word at an offset. -/
def wordAt (bytes : List Byte) (i : ℕ) : BitVec 16 := bytes.getD i 0 ++ bytes.getD (i + 1) 0

section Spec

variable (font : FontData)

def glyphBytes (i : ℕ) : List Byte := font.glyf.drop (font.loca.getD i 0)

def HasData (i : ℕ) : Prop := font.loca.getD i 0 < font.loca.getD (i + 1) 0

def contourCount (i : ℕ) : ℤ := (wordAt (glyphBytes font i) 0).toInt

/-- The glyph is made of these components. -/
def CompoundOf (i : ℕ) (components : List ComponentForm) : Prop :=
  i < font.numGlyphs ∧ HasData font i ∧ contourCount font i < 0 ∧
    Components ((glyphBytes font i).drop 10) components

/-- The tables have all their entries, and compound glyphs are made of glyphs of the font. -/
structure WellFormed : Prop where
  metricsCount : 1 ≤ font.longHorMetricsCount ∧ font.longHorMetricsCount ≤ font.numGlyphs
  hmtx : 4 * font.longHorMetricsCount ≤ font.hmtx.length
  vmtx : ∀ vmtx ∈ font.vmtx, 4 * font.numGlyphs ≤ vmtx.length
  loca : font.loca.length = font.numGlyphs + 1
  sorted : ∀ i < font.numGlyphs, font.loca.getD i 0 ≤ font.loca.getD (i + 1) 0
  header : ∀ i < font.numGlyphs, HasData font i → 10 ≤ (glyphBytes font i).length
  compound : ∀ i < font.numGlyphs, HasData font i → contourCount font i < 0 →
    ∃ components, CompoundOf font i components
  components : ∀ i components, CompoundOf font i components → ∀ c ∈ components,
    c.glyphIndex < font.numGlyphs

/-- The advance width of a glyph: its own in `hmtx`, where the last one stands for all glyphs
behind it, or that of the component whose metrics it uses. -/
inductive Advance : ℕ → ℕ → Prop
  | own {i : ℕ} (lt : i < font.numGlyphs)
      (none_used : ∀ components, CompoundOf font i components → ∀ c ∈ components, ¬c.UsesMetrics) :
      Advance i (wordAt font.hmtx (4 * min i (font.longHorMetricsCount - 1))).toNat
  | inherited {i w : ℕ} {components : List ComponentForm} {c : ComponentForm}
      (compound : CompoundOf font i components) (mem : c ∈ components) (uses : c.UsesMetrics)
      (advance : Advance c.glyphIndex w) : Advance i w

/-- The parser takes the glyph for one made of these components, also where it has no contours. -/
def TakenForCompound (i : ℕ) (components : List ComponentForm) : Prop :=
  HasData font i ∧ contourCount font i ≤ 0 ∧ Components ((glyphBytes font i).drop 10) components

/-- The metrics of `i` are copied from `c`. -/
def TakesMetricsOf (i c : ℕ) : Prop :=
  ∃ components, TakenForCompound font i components ∧
    ∃ component ∈ components, component.UsesMetrics ∧ component.glyphIndex = c

/-- When the second pass comes to `i`, the glyph `c` has metrics. -/
def HasMetricsAt (i c : ℕ) : Prop :=
  ((∀ d, ¬TakesMetricsOf font c d) → c < font.longHorMetricsCount) ∧
    ((∃ d, TakesMetricsOf font c d) → c < i)

/-- At most one of the components has the flag. -/
def OneUsed (components : List ComponentForm) : Prop :=
  components.Pairwise fun c d => ¬(c.UsesMetrics ∧ d.UsesMetrics)

/-- At most one component has the flag.  If the metrics of the glyph are its own, it has an entry in
`hmtx`; if they are those of another glyph, that one has metrics already; and where a glyph without
contours is taken for a compound glyph, the two have the same width. -/
structure MetricsFound (i : ℕ) : Prop where
  read : HasData font i → contourCount font i ≤ 0 →
    ∃ components, TakenForCompound font i components ∧ OneUsed components
  own : (∀ c, ¬TakesMetricsOf font i c) → i < font.longHorMetricsCount
  taken : ∀ c, TakesMetricsOf font i c → c < font.numGlyphs ∧ HasMetricsAt font i c ∧
    (contourCount font i = 0 → ∃ w, Advance font c w ∧ Advance font i w)

end Spec

/-! ### Records -/

theorem readRecords_spec : ∀ (n : ℕ) (bytes : List Byte), 4 * n ≤ bytes.length →
    ∃ records, readRecords n bytes = some records ∧ records.length = n ∧
      ∀ k < n, records[k]? = some (wordAt bytes (4 * k), wordAt bytes (4 * k + 2)) := by
  intro n
  induction n with
  | zero => exact fun bytes _ => ⟨[], rfl, rfl, fun k hk => absurd hk (Nat.not_lt_zero k)⟩
  | succ n ih =>
    intro bytes hlen
    match bytes, hlen with
    | b₀ :: b₁ :: b₂ :: b₃ :: rest, hlen =>
      rw [List.length_cons, List.length_cons, List.length_cons, List.length_cons] at hlen
      obtain ⟨records, hrecords, hlength, hget⟩ := ih rest (by omega)
      refine ⟨(b₀ ++ b₁, b₂ ++ b₃) :: records, ?_, by rw [List.length_cons, hlength], ?_⟩
      · show (readRecords n rest >>= fun r => some ((b₀ ++ b₁, b₂ ++ b₃) :: r)) = _
        rw [hrecords]
        rfl
      · intro k hk
        cases k with
        | zero => rfl
        | succ k =>
          rw [List.getElem?_cons_succ, hget k (by omega)]
          rfl

variable {font : FontData} {c : ComponentForm} {childIdx n : ℕ} {use use' : Option ℕ}
  {bytes rest : List Byte} {components : List ComponentForm}

theorem parseHorizontalMetrics_spec (hwf : WellFormed font) :
    ∃ long, parseHorizontalMetrics font = some long ∧ long.length = font.longHorMetricsCount ∧
      ∀ k < font.longHorMetricsCount, ∃ h, long[k]? = some h ∧
        h.advanceWidth = (wordAt font.hmtx (4 * k)).toNat := by
  obtain ⟨records, hrecords, hlength, hget⟩ := readRecords_spec _ _ hwf.hmtx
  refine ⟨_, by rw [parseHorizontalMetrics, hrecords]; rfl, by rw [List.length_map, hlength], ?_⟩
  intro k hk
  rw [List.getElem?_map, hget k hk]
  exact ⟨_, rfl, rfl⟩

theorem parseVerticalMetrics_spec (hwf : WellFormed font) :
    ∃ vertical, parseVerticalMetrics font = some vertical ∧
      ∀ v ∈ vertical, v.length = font.numGlyphs := by
  unfold parseVerticalMetrics
  cases hvmtx : font.vmtx with
  | none => exact ⟨none, rfl, fun v hv => by cases hv⟩
  | some vmtx =>
    obtain ⟨records, hrecords, hlength, _⟩ := readRecords_spec _ _ (hwf.vmtx vmtx hvmtx)
    refine ⟨_, by dsimp only; rw [hrecords]; rfl, fun v hv => ?_⟩
    cases hv
    rw [List.length_map, hlength]

/-! ### Components -/

theorem readArgument_append {flags : ComponentFlags} {arg : List Byte} (rest : List Byte)
    (hlen : arg.length = flags.argSize) :
    ∃ v, readArgument flags (arg ++ rest) = some (v, rest) := by
  unfold ComponentFlags.argSize at hlen
  unfold readArgument
  split at hlen
  · rename_i hwords
    match arg, hlen with
    | [b₀, b₁], _ =>
      rw [if_pos hwords]
      exact ⟨_, rfl⟩
  · rename_i hwords
    match arg, hlen with
    | [b], _ =>
      rw [if_neg hwords]
      exact ⟨_, rfl⟩

theorem parseComponents_encode (c : ComponentForm) (n : ℕ) (bytes : List Byte)
    (children : List CompoundGlyphComponent) (use : Option ℕ) :
    ∃ origin, parseComponents (n + 1) (c.encode ++ bytes) children use =
      (noteMetrics c.flags children.length use).bind fun use' =>
        if ComponentFlags.moreComponentsFollow c.flags then
          parseComponents n bytes (children ++ [⟨c.glyphIndex, origin⟩]) use'
        else some ⟨children ++ [⟨c.glyphIndex, origin⟩], use'⟩ := by
  have hargs : c.args.length = 2 * ComponentFlags.argSize c.flags := c.args_length
  have hscale : c.scale.length = ComponentFlags.scaleSize c.flags := c.scale_length
  obtain ⟨x, hx⟩ := readArgument_append
    (c.args.drop (ComponentFlags.argSize c.flags) ++ (c.scale ++ bytes))
    (show (c.args.take (ComponentFlags.argSize c.flags)).length = _ by
      rw [List.length_take, hargs, Nat.two_mul]
      exact Nat.min_eq_left (Nat.le_add_left _ _))
  obtain ⟨y, hy⟩ := readArgument_append (c.scale ++ bytes)
    (show (c.args.drop (ComponentFlags.argSize c.flags)).length = _ by
      rw [List.length_drop, hargs, Nat.two_mul, Nat.add_sub_cancel])
  have hskip : skip (ComponentFlags.scaleSize c.flags) (c.scale ++ bytes) = some bytes := by
    rw [skip, ← hscale, if_pos (by rw [List.length_append]; exact Nat.le_add_right _ _),
      List.drop_left]
  have hbytes : c.encode ++ bytes = c.flagsHi :: c.flagsLo :: c.indexHi :: c.indexLo ::
      (c.args.take (ComponentFlags.argSize c.flags) ++
        (c.args.drop (ComponentFlags.argSize c.flags) ++ (c.scale ++ bytes))) := by
    rw [← List.append_assoc (c.args.take _), List.take_append_drop]
    simp [ComponentForm.encode]
  refine ⟨⟨x, y⟩, ?_⟩
  rw [hbytes, parseComponents]
  show ((readArgument c.flags _).bind _) = _
  rw [hx, Option.bind_some]
  show ((readArgument c.flags _).bind _) = _
  rw [hy, Option.bind_some]
  show (Option.bind _ fun use' => Option.bind (skip (ComponentFlags.scaleSize c.flags) _) _) = _
  rw [hskip]
  rfl

/-- What has been noted after these components, the first of which is child `childIdx`. -/
def Noted (components : List ComponentForm) (childIdx : ℕ) (use use' : Option ℕ) : Prop :=
  (use' = use ∧ ∀ c ∈ components, ¬c.UsesMetrics) ∨
    (use = none ∧ ∃ k c, components[k]? = some c ∧ c.UsesMetrics ∧ use' = some (childIdx + k) ∧
      ∀ c' ∈ components, c'.UsesMetrics → c'.glyphIndex = c.glyphIndex)

theorem noted_singleton (h : noteMetrics c.flags childIdx use = some use') :
    Noted [c] childIdx use use' := by
  unfold noteMetrics at h
  split at h
  · rename_i huses
    split at h
    · rename_i hnone
      cases h
      refine Or.inr ⟨hnone, 0, c, rfl, huses, rfl, fun c' hc' _ => ?_⟩
      rw [List.mem_singleton.mp hc']
    · cases h
  · rename_i huses
    cases h
    refine Or.inl ⟨rfl, fun c' hc' => ?_⟩
    rw [List.mem_singleton.mp hc']
    exact huses

theorem Noted.cons {c : ComponentForm} {rest : List ComponentForm} {childIdx : ℕ}
    {use use' use'' : Option ℕ} (h : noteMetrics c.flags childIdx use = some use')
    (hrest : Noted rest (childIdx + 1) use' use'') : Noted (c :: rest) childIdx use use'' := by
  rcases noted_singleton h with ⟨rfl, hnot⟩ | ⟨hnone, k, c₀, hk, huses, hset, -⟩
  · have hc : ¬c.UsesMetrics := hnot c (List.mem_singleton_self c)
    rcases hrest with ⟨rfl, hrest⟩ | ⟨hnone, k, d, hk, huses, rfl, honly⟩
    · refine Or.inl ⟨rfl, fun c' hc' => ?_⟩
      rcases List.mem_cons.mp hc' with rfl | hmem
      · exact hc
      · exact hrest c' hmem
    · refine Or.inr ⟨hnone, k + 1, d, by rw [List.getElem?_cons_succ, hk], huses,
        by rw [Nat.add_assoc, Nat.add_comm 1 k], fun c' hc' huses' => ?_⟩
      rcases List.mem_cons.mp hc' with rfl | hmem
      · exact absurd huses' hc
      · exact honly c' hmem huses'
  · obtain ⟨rfl, rfl⟩ : k = 0 ∧ c = c₀ := by
      cases k with
      | zero => exact ⟨rfl, Option.some.inj hk⟩
      | succ k => cases hk
    rcases hrest with ⟨rfl, hrest⟩ | ⟨hnone', -⟩
    · refine Or.inr ⟨hnone, 0, c, rfl, huses, hset, fun c' hc' huses' => ?_⟩
      rcases List.mem_cons.mp hc' with rfl | hmem
      · rfl
      · exact absurd huses' (hrest c' hmem)
    · rw [hset] at hnone'
      cases hnone'

theorem parseComponents_components (hc : Components bytes components) :
    ∀ {n : ℕ} {children : List CompoundGlyphComponent} {use : Option ℕ}
      {instructions : CompoundGlyphRenderInstructions},
      parseComponents n bytes children use = some instructions →
      instructions.children.map CompoundGlyphComponent.glyphIndex =
          children.map CompoundGlyphComponent.glyphIndex ++
            components.map ComponentForm.glyphIndex ∧
        Noted components children.length use instructions.useMetricsFromChildIdx := by
  induction hc with
  | @last c tail more =>
    intro n children use instructions h
    cases n with
    | zero => cases h
    | succ n =>
      obtain ⟨origin, heq⟩ := parseComponents_encode c n tail children use
      rw [heq] at h
      obtain ⟨use', huse', h⟩ := Option.bind_eq_some_iff.mp h
      rw [more, if_neg Bool.false_ne_true] at h
      cases h
      exact ⟨by rw [List.map_append]; rfl, noted_singleton huse'⟩
  | @cons c bytes rest more hrest ih =>
    intro n children use instructions h
    cases n with
    | zero => cases h
    | succ n =>
      obtain ⟨origin, heq⟩ := parseComponents_encode c n bytes children use
      rw [heq] at h
      obtain ⟨use', huse', h⟩ := Option.bind_eq_some_iff.mp h
      rw [if_pos more] at h
      obtain ⟨hmap, hnoted⟩ := ih h
      rw [List.length_append] at hnoted
      exact ⟨by rw [hmap, List.map_append, List.append_assoc]; rfl, hnoted.cons huse'⟩

theorem usesMetrics_of_noteMetrics (h : noteMetrics c.flags childIdx use = some use') :
    (c.UsesMetrics ∧ use = none ∧ use' ≠ none) ∨ (¬c.UsesMetrics ∧ use' = use) := by
  unfold noteMetrics at h
  split at h
  · rename_i huses
    split at h
    · rename_i hnone
      cases h
      exact Or.inl ⟨huses, hnone, Option.some_ne_none childIdx⟩
    · cases h
  · rename_i huses
    cases h
    exact Or.inr ⟨huses, rfl⟩

theorem exists_noteMetrics (childIdx : ℕ) (h : use = none ∨ ¬c.UsesMetrics) :
    ∃ use', noteMetrics c.flags childIdx use = some use' ∧
      (c.UsesMetrics ∨ (¬c.UsesMetrics ∧ use' = use)) := by
  unfold noteMetrics
  split
  · rename_i huses
    refine ⟨some childIdx, if_pos ?_, Or.inl huses⟩
    exact h.resolve_right fun hnot => hnot huses
  · rename_i huses
    exact ⟨use, rfl, Or.inr ⟨huses, rfl⟩⟩

/-- The loop reads components of which at most one has the flag, as far as none has been noted. -/
theorem parseComponents_complete (hc : Components bytes components) :
    ∀ {n : ℕ} (children : List CompoundGlyphComponent) {use : Option ℕ}, components.length ≤ n →
      OneUsed components → (use = none ∨ ∀ c ∈ components, ¬c.UsesMetrics) →
      ∃ instructions, parseComponents n bytes children use = some instructions := by
  induction hc with
  | @last c tail more =>
    intro n children use hn hone huse
    obtain ⟨n, rfl⟩ : ∃ k, n = k + 1 := ⟨n - 1, (Nat.sub_add_cancel hn).symm⟩
    obtain ⟨origin, heq⟩ := parseComponents_encode c n tail children use
    obtain ⟨use', huse', -⟩ := exists_noteMetrics children.length
      (huse.imp_right fun h => h c (List.mem_singleton_self c))
    rw [heq, huse', Option.bind_some, more, if_neg Bool.false_ne_true]
    exact ⟨_, rfl⟩
  | @cons c bytes rest more hrest ih =>
    intro n children use hn hone huse
    rw [List.length_cons] at hn
    obtain ⟨n, rfl⟩ : ∃ k, n = k + 1 := ⟨n - 1, (Nat.sub_add_cancel (by omega)).symm⟩
    obtain ⟨origin, heq⟩ := parseComponents_encode c n bytes children use
    obtain ⟨hfst, hone⟩ := List.pairwise_cons.mp hone
    obtain ⟨use', huse', hnoted⟩ := exists_noteMetrics children.length
      (huse.imp_right fun h => h c List.mem_cons_self)
    rw [heq, huse', Option.bind_some, if_pos more]
    refine ih _ (Nat.le_of_succ_le_succ hn) hone ?_
    rcases hnoted with huses | ⟨-, rfl⟩
    · exact Or.inr fun d hd huses' => hfst d hd ⟨huses, huses'⟩
    · exact huse.imp_right fun h d hd => h d (List.mem_cons_of_mem c hd)

theorem readU16_eq_some {v : BitVec 16} (h : readU16 bytes = some (v, rest)) :
    ∃ hi lo, bytes = hi :: lo :: rest ∧ v = hi ++ lo := by
  match bytes, h with
  | hi :: lo :: rest, h =>
    cases h
    exact ⟨hi, lo, rfl, rfl⟩

theorem readArgument_eq_some {flags : ComponentFlags} {v : ℤ}
    (h : readArgument flags bytes = some (v, rest)) :
    ∃ arg, bytes = arg ++ rest ∧ arg.length = flags.argSize := by
  unfold readArgument at h
  unfold ComponentFlags.argSize
  split at h
  · rename_i hwords
    obtain ⟨⟨u, rest'⟩, hread, heq⟩ := Option.map_eq_some_iff.mp h
    cases heq
    obtain ⟨hi, lo, rfl, -⟩ := readU16_eq_some hread
    exact ⟨[hi, lo], rfl, by rw [if_pos hwords]; rfl⟩
  · rename_i hwords
    obtain ⟨⟨u, rest'⟩, hread, heq⟩ := Option.map_eq_some_iff.mp h
    cases heq
    match bytes, hread with
    | _ :: _, rfl => exact ⟨[u], rfl, by rw [if_neg hwords]; rfl⟩

/-- What the loop has read are components, of which at most one has the flag. -/
theorem parseComponents_sound : ∀ (n : ℕ) {bytes : List Byte}
    {children : List CompoundGlyphComponent} {use : Option ℕ}
    {instructions : CompoundGlyphRenderInstructions},
    parseComponents n bytes children use = some instructions →
    ∃ components, Components bytes components ∧ OneUsed components ∧
      (use = none ∨ ∀ c ∈ components, ¬c.UsesMetrics) := by
  intro n
  induction n with
  | zero => exact fun h => by cases h
  | succ n ih =>
    intro bytes children use instructions h
    obtain ⟨⟨flags, bytes₁⟩, hflags, h⟩ := Option.bind_eq_some_iff.mp h
    obtain ⟨⟨index, bytes₂⟩, hindex, h⟩ := Option.bind_eq_some_iff.mp h
    obtain ⟨⟨x, bytes₃⟩, hx, h⟩ := Option.bind_eq_some_iff.mp h
    obtain ⟨⟨y, bytes₄⟩, hy, h⟩ := Option.bind_eq_some_iff.mp h
    obtain ⟨use', huse', h⟩ := Option.bind_eq_some_iff.mp h
    obtain ⟨bytes₅, hskip, h⟩ := Option.bind_eq_some_iff.mp h
    obtain ⟨flagsHi, flagsLo, rfl, rfl⟩ := readU16_eq_some hflags
    obtain ⟨indexHi, indexLo, rfl, rfl⟩ := readU16_eq_some hindex
    obtain ⟨xs, rfl, hxs⟩ := readArgument_eq_some hx
    obtain ⟨ys, rfl, hys⟩ := readArgument_eq_some hy
    unfold skip at hskip
    split at hskip
    · rename_i hle
      cases hskip
      let c : ComponentForm :=
        { flagsHi, flagsLo, indexHi, indexLo
          args := xs ++ ys
          scale := bytes₄.take (ComponentFlags.scaleSize (flagsHi ++ flagsLo))
          args_length := by rw [List.length_append, hxs, hys, Nat.two_mul]
          scale_length := by rw [List.length_take, Nat.min_eq_left hle] }
      have hbytes : flagsHi :: flagsLo :: indexHi :: indexLo :: (xs ++ (ys ++ bytes₄)) =
          c.encode ++ bytes₄.drop (ComponentFlags.scaleSize (flagsHi ++ flagsLo)) := by
        show _ = ([flagsHi, flagsLo, indexHi, indexLo] ++ (xs ++ ys) ++ bytes₄.take _) ++ _
        simp
      have hnote : noteMetrics c.flags children.length use = some use' := huse'
      rw [hbytes]
      split at h
      · rename_i hmore
        obtain ⟨rest, hrest, hone, hnone⟩ := ih h
        refine ⟨c :: rest, .cons hmore hrest, List.pairwise_cons.mpr ⟨?_, hone⟩, ?_⟩
        · rintro d hd ⟨huses, huses'⟩
          rcases usesMetrics_of_noteMetrics hnote with ⟨-, -, hsome⟩ | ⟨hnot, -⟩
          · rcases hnone with hnone | hnone
            · exact hsome hnone
            · exact hnone d hd huses'
          · exact hnot huses
        · rcases usesMetrics_of_noteMetrics hnote with ⟨-, hnone', -⟩ | ⟨hnot, rfl⟩
          · exact Or.inl hnone'
          · refine hnone.imp_right fun hnone d hd => ?_
            rcases List.mem_cons.mp hd with rfl | hmem
            · exact hnot
            · exact hnone d hmem
      · rename_i hmore
        refine ⟨[c], .last (Bool.eq_false_iff.mpr hmore), List.pairwise_singleton _ _, ?_⟩
        rcases usesMetrics_of_noteMetrics hnote with ⟨-, hnone, -⟩ | ⟨hnot, -⟩
        · exact Or.inl hnone
        · exact Or.inr fun d hd => by rwa [List.mem_singleton.mp hd]
    · cases hskip

theorem Components.length_le (h : Components bytes components) :
    components.length ≤ bytes.length := by
  have hencode : ∀ c : ComponentForm, 1 ≤ c.encode.length := fun c => by
    rw [ComponentForm.encode, List.append_assoc, List.length_append]
    exact Nat.le_add_right_of_le (Nat.one_le_iff_ne_zero.mpr (Nat.succ_ne_zero 3))
  induction h with
  | @last c tail more =>
    rw [List.length_append]
    exact Nat.le_add_right_of_le (hencode c)
  | @cons c bytes rest more _ ih =>
    rw [List.length_append, List.length_cons, Nat.add_comm]
    exact Nat.add_le_add (hencode c) ih

theorem exists_parseCompoundGlyph_iff (bytes : List Byte) :
    (∃ instructions, parseCompoundGlyph bytes = some instructions) ↔
      ∃ components, Components bytes components ∧ OneUsed components := by
  constructor
  · rintro ⟨instructions, h⟩
    obtain ⟨components, hc, hone, -⟩ := parseComponents_sound _ h
    exact ⟨components, hc, hone⟩
  · rintro ⟨components, hc, hone⟩
    exact parseComponents_complete hc [] hc.length_le hone (Or.inl rfl)

theorem noteMetrics_lt {flags : ComponentFlags} {childIdx k : ℕ}
    (h : noteMetrics flags childIdx use = some use') (huse : ∀ k ∈ use, k < childIdx)
    (hk : k ∈ use') : k < childIdx + 1 := by
  unfold noteMetrics at h
  split at h
  · split at h
    · cases h
      cases hk
      exact Nat.lt_succ_self childIdx
    · cases h
  · cases h
    exact Nat.lt_succ_of_lt (huse k hk)

theorem parseComponents_lt : ∀ (n : ℕ) {bytes : List Byte} {children : List CompoundGlyphComponent}
    {use : Option ℕ} {instructions : CompoundGlyphRenderInstructions},
    parseComponents n bytes children use = some instructions → (∀ k ∈ use, k < children.length) →
    ∀ k ∈ instructions.useMetricsFromChildIdx, k < instructions.children.length := by
  intro n
  induction n with
  | zero => exact fun h => by cases h
  | succ n ih =>
    intro bytes children use instructions h huse
    obtain ⟨⟨flags, bytes₁⟩, -, h⟩ := Option.bind_eq_some_iff.mp h
    obtain ⟨⟨index, bytes₂⟩, -, h⟩ := Option.bind_eq_some_iff.mp h
    obtain ⟨⟨x, bytes₃⟩, -, h⟩ := Option.bind_eq_some_iff.mp h
    obtain ⟨⟨y, bytes₄⟩, -, h⟩ := Option.bind_eq_some_iff.mp h
    obtain ⟨use', huse', h⟩ := Option.bind_eq_some_iff.mp h
    obtain ⟨bytes₅, -, h⟩ := Option.bind_eq_some_iff.mp h
    have hlt : ∀ k ∈ use',
        k < (children ++ [(⟨index.toNat, ⟨x, y⟩⟩ : CompoundGlyphComponent)]).length := by
      intro k hk
      rw [List.length_append]
      exact noteMetrics_lt huse' huse hk
    split at h
    · exact ih h hlt
    · cases h
      exact hlt

/-! ### A glyph -/

/-- The glyph that a glyph's metrics are copied from, as it has been read. -/
def GlyphRenderDescription.metricsGlyph (glyph : GlyphRenderDescription) : Option ℕ :=
  match glyph.renderInstructions with
  | .compoundGlyph ⟨children, some childIdx⟩ =>
    children[childIdx]?.map CompoundGlyphComponent.glyphIndex
  | _ => none

/-- The same for an index. -/
def metricsGlyph (font : FontData) (i : ℕ) : Option ℕ :=
  (parseGlyph font i).bind GlyphRenderDescription.metricsGlyph

section Glyph

variable {font : FontData} {i : ℕ} {glyph : GlyphRenderDescription}

section

variable (hwf : WellFormed font)

include hwf

theorem getGlyphOffsetAndLength_eq (hi : i < font.numGlyphs) :
    getGlyphOffsetAndLength font i =
      some (font.loca.getD i 0, font.loca.getD (i + 1) 0 - font.loca.getD i 0) := by
  have hlen := hwf.loca
  have hfst : font.loca[i]? = some (font.loca.getD i 0) := by
    rw [List.getD_eq_getElem?_getD, List.getElem?_eq_getElem (by omega), Option.getD_some]
  have hsnd : font.loca[i + 1]? = some (font.loca.getD (i + 1) 0) := by
    rw [List.getD_eq_getElem?_getD, List.getElem?_eq_getElem (by omega), Option.getD_some]
  unfold getGlyphOffsetAndLength
  rw [hfst, hsnd]
  exact if_pos (hwf.sorted i hi)

theorem parseGlyph_blank (hi : i < font.numGlyphs) (hdata : ¬HasData font i) :
    parseGlyph font i = some ⟨font.glyphBoundingBox, .blankGlyph⟩ := by
  unfold parseGlyph
  rw [getGlyphOffsetAndLength_eq hwf hi]
  exact if_pos (Nat.sub_eq_zero_of_le (Nat.le_of_not_lt hdata))

theorem parseGlyph_data (hi : i < font.numGlyphs) (hdata : HasData font i) :
    ∃ boundingBox, parseGlyph font i =
      if contourCount font i ≤ 0 then
        (parseCompoundGlyph ((glyphBytes font i).drop 10)).map fun instructions =>
          ⟨font.glyphBoundingBox, .compoundGlyph instructions⟩
      else some ⟨boundingBox, .polygonsGlyph⟩ := by
  have hheader := hwf.header i hi hdata
  unfold parseGlyph
  rw [getGlyphOffsetAndLength_eq hwf hi]
  dsimp only [Option.bind_eq_bind, Option.bind_some]
  rw [if_neg (Nat.sub_ne_zero_of_lt hdata)]
  show ∃ boundingBox, (readU16 (glyphBytes font i)).bind _ = _
  unfold contourCount
  match glyphBytes font i, hheader with
  | b₀ :: b₁ :: b₂ :: b₃ :: b₄ :: b₅ :: b₆ :: b₇ :: b₈ :: b₉ :: rest, _ =>
    refine ⟨Rect.new (b₂ ++ b₃ : BitVec 16).toInt (b₄ ++ b₅ : BitVec 16).toInt
      |(b₆ ++ b₇ : BitVec 16).toInt - (b₂ ++ b₃ : BitVec 16).toInt|
      |(b₈ ++ b₉ : BitVec 16).toInt - (b₄ ++ b₅ : BitVec 16).toInt|, ?_⟩
    show (if (b₀ ++ b₁ : BitVec 16).toInt ≤ 0 then _ else _) = _
    split
    · rename_i hcount
      rw [if_pos (show (wordAt (b₀ :: b₁ :: _) 0).toInt ≤ 0 from hcount)]
      show ((parseCompoundGlyph rest).bind _) = (parseCompoundGlyph rest).map _
      cases parseCompoundGlyph rest <;> rfl
    · rename_i hcount
      rw [if_neg (show ¬(wordAt (b₀ :: b₁ :: _) 0).toInt ≤ 0 from hcount)]

theorem parseGlyph_child_lt (hi : i < font.numGlyphs)
    {instructions : CompoundGlyphRenderInstructions} (hglyph : parseGlyph font i = some glyph)
    (hins : glyph.renderInstructions = .compoundGlyph instructions) :
    ∀ k ∈ instructions.useMetricsFromChildIdx, k < instructions.children.length := by
  by_cases hdata : HasData font i
  · obtain ⟨boundingBox, heq⟩ := parseGlyph_data hwf hi hdata
    rw [heq] at hglyph
    split at hglyph
    · obtain ⟨instructions', hparse, rfl⟩ := Option.map_eq_some_iff.mp hglyph
      cases hins
      exact parseComponents_lt _ hparse fun k hk => by cases hk
    · cases hglyph
      cases hins
  · rw [parseGlyph_blank hwf hi hdata] at hglyph
    cases hglyph
    cases hins

/-- A glyph is passed over in the first pass if and only if it takes its metrics from another. -/
theorem useMetricsFromChildIdx_isSome_iff (hi : i < font.numGlyphs)
    (hglyph : parseGlyph font i = some glyph) :
    glyph.useMetricsFromChildIdx.isSome ↔ metricsGlyph font i ≠ none := by
  have hlt : ∀ instructions, glyph.renderInstructions = .compoundGlyph instructions →
      ∀ k ∈ instructions.useMetricsFromChildIdx, k < instructions.children.length :=
    fun instructions hins => parseGlyph_child_lt hwf hi hglyph hins
  rw [metricsGlyph, hglyph, Option.bind_some]
  obtain ⟨boundingBox, instructions⟩ := glyph
  match instructions, hlt with
  | .polygonsGlyph, _ | .blankGlyph, _ | .compoundGlyph ⟨_, none⟩, _ =>
    exact ⟨fun h => (by cases h), fun h => absurd rfl h⟩
  | .compoundGlyph ⟨children, some k⟩, hlt =>
    refine ⟨fun _ => ?_, fun _ => rfl⟩
    show (children[k]?.map _) ≠ none
    rw [List.getElem?_eq_getElem (hlt _ rfl k rfl)]
    exact Option.some_ne_none _

end

variable {c : ℕ} {components : List ComponentForm}

theorem exists_child (hglyph : parseGlyph font i = some glyph) (hc : metricsGlyph font i = some c) :
    ∃ children k child, glyph.renderInstructions = .compoundGlyph ⟨children, some k⟩ ∧
      children[k]? = some child ∧ child.glyphIndex = c := by
  rw [metricsGlyph, hglyph, Option.bind_some] at hc
  obtain ⟨boundingBox, instructions⟩ := glyph
  match instructions, hc with
  | .compoundGlyph ⟨children, some k⟩, hc =>
    obtain ⟨child, hchild, rfl⟩ := Option.map_eq_some_iff.mp hc
    exact ⟨children, k, child, rfl, hchild, rfl⟩

theorem metricsGlyph_compound (hwf : WellFormed font) (hi : i < font.numGlyphs)
    (hcomp : TakenForCompound font i components) (hglyph : parseGlyph font i = some glyph) :
    (metricsGlyph font i = none ∧ ∀ c ∈ components, ¬c.UsesMetrics) ∨
      ∃ c ∈ components, c.UsesMetrics ∧ metricsGlyph font i = some c.glyphIndex ∧
        ∀ c' ∈ components, c'.UsesMetrics → c'.glyphIndex = c.glyphIndex := by
  obtain ⟨hdata, hcount, hbytes⟩ := hcomp
  obtain ⟨boundingBox, heq⟩ := parseGlyph_data hwf hi hdata
  rw [if_pos hcount] at heq
  rw [heq] at hglyph
  obtain ⟨⟨children, use⟩, hparse, rfl⟩ := Option.map_eq_some_iff.mp hglyph
  rw [metricsGlyph, heq, hparse]
  obtain ⟨hmap, hnoted⟩ := parseComponents_components hbytes hparse
  rcases hnoted with ⟨rfl, hnot⟩ | ⟨-, k, c, hk, huses, rfl, honly⟩
  · exact Or.inl ⟨rfl, hnot⟩
  · refine Or.inr ⟨c, List.mem_of_getElem? hk, huses, ?_, honly⟩
    show children[0 + k]?.map CompoundGlyphComponent.glyphIndex = _
    rw [Nat.zero_add, ← List.getElem?_map, hmap, List.map_nil, List.nil_append, List.getElem?_map,
      hk, Option.map_some]

theorem metricsGlyph_of_usesMetrics (hwf : WellFormed font) (hi : i < font.numGlyphs)
    (hcomp : TakenForCompound font i components) (hglyph : parseGlyph font i = some glyph)
    {c : ComponentForm} (hmem : c ∈ components) (huses : c.UsesMetrics) :
    metricsGlyph font i = some c.glyphIndex := by
  rcases metricsGlyph_compound hwf hi hcomp hglyph with ⟨-, hnot⟩ | ⟨d, -, -, hd, honly⟩
  · exact absurd huses (hnot c hmem)
  · rw [hd, honly c hmem huses]

theorem CompoundOf.taken (h : CompoundOf font i components) : TakenForCompound font i components :=
  ⟨h.2.1, h.2.2.1.le, h.2.2.2⟩

section

variable (hwf : WellFormed font)

include hwf

theorem exists_parseGlyph_iff (hi : i < font.numGlyphs) :
    (∃ glyph, parseGlyph font i = some glyph) ↔
      (HasData font i → contourCount font i ≤ 0 →
        ∃ components, TakenForCompound font i components ∧ OneUsed components) := by
  by_cases hdata : HasData font i
  · obtain ⟨boundingBox, heq⟩ := parseGlyph_data hwf hi hdata
    rw [heq]
    split
    · rename_i hcount
      constructor
      · rintro ⟨glyph, hglyph⟩ - -
        obtain ⟨instructions, hparse, -⟩ := Option.map_eq_some_iff.mp hglyph
        obtain ⟨components, hc, hone⟩ :=
          (exists_parseCompoundGlyph_iff _).mp ⟨instructions, hparse⟩
        exact ⟨components, ⟨hdata, hcount, hc⟩, hone⟩
      · intro h
        obtain ⟨components, ⟨-, -, hc⟩, hone⟩ := h hdata hcount
        obtain ⟨instructions, hparse⟩ :=
          (exists_parseCompoundGlyph_iff _).mpr ⟨components, hc, hone⟩
        rw [hparse]
        exact ⟨_, rfl⟩
    · rename_i hcount
      exact ⟨fun _ _ hle => absurd hle hcount, fun _ => ⟨_, rfl⟩⟩
  · rw [parseGlyph_blank hwf hi hdata]
    exact ⟨fun _ h => absurd h hdata, fun _ => ⟨_, rfl⟩⟩

/-- Where a glyph is read, the metrics are copied from the glyph that the font says. -/
theorem metricsGlyph_eq_some_iff (hi : i < font.numGlyphs)
    (hglyph : parseGlyph font i = some glyph) :
    metricsGlyph font i = some c ↔ TakesMetricsOf font i c := by
  constructor
  · intro hc
    obtain ⟨components, hcomp⟩ : ∃ components, TakenForCompound font i components := by
      have hread := (exists_parseGlyph_iff hwf hi).mp ⟨glyph, hglyph⟩
      by_cases hdata : HasData font i
      · by_cases hcount : contourCount font i ≤ 0
        · exact (hread hdata hcount).imp fun _ h => h.1
        · obtain ⟨boundingBox, heq⟩ := parseGlyph_data hwf hi hdata
          rw [if_neg hcount] at heq
          rw [metricsGlyph, heq] at hc
          cases hc
      · rw [metricsGlyph, parseGlyph_blank hwf hi hdata] at hc
        cases hc
    rcases metricsGlyph_compound hwf hi hcomp hglyph with ⟨hnone, -⟩ | ⟨d, hmem, huses, hd, -⟩
    · rw [hc] at hnone
      cases hnone
    · rw [hc] at hd
      exact ⟨components, hcomp, d, hmem, huses, (Option.some.inj hd).symm⟩
  · rintro ⟨components, hcomp, d, hmem, huses, rfl⟩
    exact metricsGlyph_of_usesMetrics hwf hi hcomp hglyph hmem huses

theorem metricsGlyph_eq_none_iff (hi : i < font.numGlyphs)
    (hglyph : parseGlyph font i = some glyph) :
    metricsGlyph font i = none ↔ ∀ c, ¬TakesMetricsOf font i c := by
  rw [Option.eq_none_iff_forall_ne_some]
  exact forall_congr' fun c => not_congr (metricsGlyph_eq_some_iff hwf hi hglyph)

/-- Only a compound glyph, or one without contours, takes its metrics from another. -/
theorem exists_compoundOf (hi : i < font.numGlyphs) (hc : metricsGlyph font i = some c)
    (hcount : contourCount font i ≠ 0) : ∃ components, CompoundOf font i components := by
  obtain ⟨glyph, hglyph, hc⟩ := Option.bind_eq_some_iff.mp hc
  by_cases hdata : HasData font i
  · obtain ⟨boundingBox, heq⟩ := parseGlyph_data hwf hi hdata
    by_cases hle : contourCount font i ≤ 0
    · exact hwf.compound i hi hdata (lt_of_le_of_ne hle hcount)
    · rw [heq, if_neg hle] at hglyph
      cases hglyph
      cases hc
  · rw [parseGlyph_blank hwf hi hdata] at hglyph
    cases hglyph
    cases hc

end

end Glyph

/-! ### Advance widths -/

section Advances

variable {font : FontData} {i : ℕ}

theorem advance_own (hwf : WellFormed font) (hi : i < font.numGlyphs)
    {glyph : GlyphRenderDescription} (hglyph : parseGlyph font i = some glyph)
    (hnone : metricsGlyph font i = none) :
    Advance font i
      (wordAt font.hmtx (4 * min i (font.longHorMetricsCount - 1))).toNat := by
  refine .own hi fun components hcomp => ?_
  rcases metricsGlyph_compound hwf hi hcomp.taken hglyph with ⟨-, hnot⟩ | ⟨c, -, -, hc, -⟩
  · exact hnot
  · rw [hnone] at hc
    cases hc

theorem advance_inherited (hwf : WellFormed font) (hi : i < font.numGlyphs)
    {c w : ℕ} (hc : metricsGlyph font i = some c) (hcount : contourCount font i ≠ 0)
    (hadvance : Advance font c w) : Advance font i w := by
  obtain ⟨components, hcomp⟩ := exists_compoundOf hwf hi hc hcount
  obtain ⟨glyph, hglyph, -⟩ := Option.bind_eq_some_iff.mp hc
  rcases metricsGlyph_compound hwf hi hcomp.taken hglyph with
    ⟨hnone, -⟩ | ⟨c', hmem, huses, hc', -⟩
  · rw [hc] at hnone
    cases hnone
  · obtain rfl : c = c'.glyphIndex := by
      rw [hc] at hc'
      exact Option.some.inj hc'
    exact .inherited hcomp hmem huses hadvance

theorem Advance.unique (hwf : WellFormed font)
    (hread : ∀ i < font.numGlyphs, ∃ glyph, parseGlyph font i = some glyph) {w w' : ℕ}
    (h : Advance font i w) (h' : Advance font i w') : w = w' := by
  induction h generalizing w' with
  | own hlt hnone =>
    cases h' with
    | own => rfl
    | inherited hcomp hmem huses => exact absurd huses (hnone _ hcomp _ hmem)
  | inherited hcomp hmem huses _ ih =>
    cases h' with
    | own _ hnone => exact absurd huses (hnone _ hcomp _ hmem)
    | inherited hcomp' hmem' huses' hadvance' =>
      obtain ⟨glyph, hglyph⟩ := hread _ hcomp.1
      have heq := (metricsGlyph_of_usesMetrics hwf hcomp.1 hcomp.taken hglyph hmem huses).symm.trans
        (metricsGlyph_of_usesMetrics hwf hcomp.1 hcomp'.taken hglyph hmem' huses')
      rw [← Option.some.inj heq] at hadvance'
      exact ih hadvance'

end Advances

/-! ### The passes -/

section Passes

variable {font : FontData} {long : List LongHorMetric} {vertical : Option (List VerticalMetrics)}
  {glyphs : List GlyphRenderDescription}

/-- The list of glyphs as it is read. -/
structure Read (font : FontData) (glyphs : List GlyphRenderDescription) : Prop where
  length : glyphs.length = font.numGlyphs
  get : ∀ i < font.numGlyphs, glyphs[i]? = parseGlyph font i

variable {i c : ℕ} {m m' : Metrics}

theorem Read.exists_get (hread : Read font glyphs) (hi : i < font.numGlyphs) :
    ∃ glyph, glyphs[i]? = some glyph ∧ parseGlyph font i = some glyph := by
  rw [← hread.get i hi]
  rw [← hread.length] at hi
  exact ⟨glyphs[i], List.getElem?_eq_getElem hi, List.getElem?_eq_getElem hi⟩

/-- When the second pass comes to `i`, the glyph `c` has metrics, as the glyphs have been read. -/
def ReadyAt (font : FontData) (i c : ℕ) : Prop :=
  (metricsGlyph font c = none → c < font.longHorMetricsCount) ∧
    (metricsGlyph font c ≠ none → c < i)

/-- The cells when the first pass has come to `i`. -/
def OwnCells (font : FontData) (long : List LongHorMetric) (i : ℕ) (m : Metrics) : Prop :=
  ∀ j, m.horizontal j = if j < i ∧ metricsGlyph font j = none then long[j]? else none

theorem ownCells_succ_of_some (h : OwnCells font long i m) (hsome : metricsGlyph font i ≠ none) :
    OwnCells font long (i + 1) m := by
  intro j
  rw [h j]
  refine if_congr ⟨fun hj => ⟨Nat.lt_succ_of_lt hj.1, hj.2⟩, fun hj => ⟨?_, hj.2⟩⟩ rfl rfl
  refine lt_of_le_of_ne (Nat.le_of_lt_succ hj.1) fun heq => ?_
  rw [heq] at hj
  exact hsome hj.2

theorem ownCells_succ_of_none (h : OwnCells font long i m) (hnone : metricsGlyph font i = none)
    (hm : ∀ j, m'.horizontal j = if j = i then long[i]? else m.horizontal j) :
    OwnCells font long (i + 1) m' := by
  intro j
  rw [hm j]
  by_cases hj : j = i
  · rw [hj, if_pos rfl, if_pos ⟨Nat.lt_succ_self i, hnone⟩]
  · rw [if_neg hj, h j]
    refine if_congr ⟨fun h => ⟨Nat.lt_succ_of_lt h.1, h.2⟩, fun h => ⟨?_, h.2⟩⟩ rfl rfl
    exact lt_of_le_of_ne (Nat.le_of_lt_succ h.1) hj

theorem setMetrics_spec (hwf : WellFormed font) (hread : Read font glyphs)
    (hvertical : ∀ v ∈ vertical, v.length = font.numGlyphs) (hi : i < font.numGlyphs)
    (h : OwnCells font long i m) :
    ∃ m', setMetrics long vertical glyphs m i = some m' ∧ OwnCells font long (i + 1) m' := by
  obtain ⟨glyph, hget, hglyph⟩ := hread.exists_get hi
  have htakes := useMetricsFromChildIdx_isSome_iff hwf hi hglyph
  unfold setMetrics
  rw [hget]
  dsimp only [Option.bind_eq_bind, Option.bind_some]
  split
  · rename_i hsome
    exact ⟨m, rfl, ownCells_succ_of_some h (htakes.mp hsome)⟩
  · rename_i hsome
    have hnone : metricsGlyph font i = none := by
      by_contra hne
      exact hsome (htakes.mpr hne)
    obtain ⟨m₁, hm₁, hcells⟩ : ∃ m₁, (match long[i]? with
        | some h => m.setHorizontal i h
        | none => m) = m₁ ∧ ∀ j, m₁.horizontal j = if j = i then long[i]? else m.horizontal j := by
      refine ⟨_, rfl, fun j => ?_⟩
      cases hlong : long[i]? with
      | some v => exact Function.update_apply m.horizontal i (some v) j
      | none =>
        by_cases hj : j = i
        · rw [if_pos hj, hj]
          show m.horizontal i = none
          rw [h i, if_neg fun hlt => absurd hlt.1 (lt_irrefl i)]
        · rw [if_neg hj]
    rw [hm₁]
    cases vertical with
    | none => exact ⟨m₁, rfl, ownCells_succ_of_none h hnone hcells⟩
    | some v =>
      rw [← hvertical v rfl] at hi
      refine ⟨m₁.setVertical i v[i], ?_, ownCells_succ_of_none h hnone hcells⟩
      show (v[i]?).map _ = _
      rw [List.getElem?_eq_getElem hi, Option.map_some]

/-- The cells when the second pass has come to `i`: the glyphs with metrics of their own have them,
those before `i` that take theirs from another have them, and the others have not. -/
structure InheritedCells (font : FontData) (long : List LongHorMetric) (i : ℕ) (m : Metrics) :
    Prop where
  own : ∀ j < font.numGlyphs, metricsGlyph font j = none → m.horizontal j = long[j]?
  taken : ∀ j < i, ∀ c, metricsGlyph font j = some c →
    ∃ h, m.horizontal j = some h ∧ m.horizontal c = some h
  pending : ∀ j, i ≤ j → metricsGlyph font j ≠ none → m.horizontal j = none

theorem OwnCells.inherited (h : OwnCells font long font.numGlyphs m) :
    InheritedCells font long 0 m where
  own j hj hnone := by rw [h j, if_pos ⟨hj, hnone⟩]
  taken j hj := absurd hj (Nat.not_lt_zero j)
  pending j _ hsome := by rw [h j, if_neg fun hj => hsome hj.2]

/-- When the second pass comes to `i`, another glyph has metrics where `ReadyAt` says. -/
theorem InheritedCells.isSome_iff (hlong : long.length = font.longHorMetricsCount)
    (h : InheritedCells font long i m) (hc : c < font.numGlyphs) :
    (m.horizontal c).isSome ↔ ReadyAt font i c := by
  cases hsrc : metricsGlyph font c with
  | none =>
    have hlt : (long[c]?).isSome ↔ c < font.longHorMetricsCount := by
      rw [← hlong]
      simp
    rw [h.own c hc hsrc, hlt]
    exact ⟨fun hlt => ⟨fun _ => hlt, fun hne => absurd hsrc hne⟩, fun hat => hat.1 hsrc⟩
  | some d =>
    have hne : metricsGlyph font c ≠ none := by rw [hsrc]; exact Option.some_ne_none d
    constructor
    · intro hsome
      refine ⟨fun hnone => absurd hnone hne, fun _ => Nat.lt_of_not_le fun hle => ?_⟩
      rw [h.pending c hle hne] at hsome
      cases hsome
    · intro hat
      obtain ⟨v, hv, -⟩ := h.taken c (hat.2 hne) d hsrc
      rw [hv]
      rfl

theorem InheritedCells.succ_of_none (h : InheritedCells font long i m)
    (hnone : metricsGlyph font i = none) : InheritedCells font long (i + 1) m where
  own := h.own
  taken j hj c hc := by
    refine h.taken j (lt_of_le_of_ne (Nat.le_of_lt_succ hj) fun heq => ?_) c hc
    rw [heq, hnone] at hc
    cases hc
  pending j hj := h.pending j (Nat.le_of_succ_le hj)

theorem InheritedCells.succ_of_some (h : InheritedCells font long i m)
    (hsrc : metricsGlyph font i = some c) {v : LongHorMetric} (hv : m.horizontal c = some v)
    (hm : m'.horizontal = Function.update m.horizontal i (some v)) :
    InheritedCells font long (i + 1) m' := by
  have hne : metricsGlyph font i ≠ none := by rw [hsrc]; exact Option.some_ne_none c
  have hi : m.horizontal i = none := h.pending i le_rfl hne
  -- a glyph that has metrics is not `i`
  have hkeep : ∀ {j w}, m.horizontal j = some w → m'.horizontal j = some w := by
    intro j w hw
    rw [hm, Function.update_of_ne, hw]
    intro heq
    rw [heq, hi] at hw
    cases hw
  constructor
  · intro j hj hnone
    rw [hm, Function.update_of_ne, h.own j hj hnone]
    intro heq
    rw [heq] at hnone
    exact hne hnone
  · intro j hj d hd
    rcases Nat.lt_succ_iff_lt_or_eq.mp hj with hlt | rfl
    · obtain ⟨w, hw, hw'⟩ := h.taken j hlt d hd
      exact ⟨w, hkeep hw, hkeep hw'⟩
    · rw [hsrc] at hd
      cases hd
      exact ⟨v, by rw [hm, Function.update_self], hkeep hv⟩
  · intro j hj hsome
    rw [hm, Function.update_of_ne (by omega), h.pending j (Nat.le_of_succ_le hj) hsome]

/-- What the second pass looks for at a glyph. -/
def Found (font : FontData) (i : ℕ) : Prop :=
  ∀ c, metricsGlyph font i = some c → c < font.numGlyphs ∧ ReadyAt font i c

/-- The second pass fails at a glyph if and only if it does not find what it looks for. -/
theorem inheritMetrics_cases (hwf : WellFormed font) (hread : Read font glyphs)
    (hlong : long.length = font.longHorMetricsCount) (hi : i < font.numGlyphs)
    (h : InheritedCells font long i m) :
    (Found font i ∧ ∃ m', inheritMetrics font.glyphBoundingBox glyphs m i = some m' ∧
        InheritedCells font long (i + 1) m') ∨
      (¬Found font i ∧ inheritMetrics font.glyphBoundingBox glyphs m i = none) := by
  obtain ⟨glyph, hget, hglyph⟩ := hread.exists_get hi
  unfold inheritMetrics
  rw [hget]
  dsimp only [Option.bind_eq_bind, Option.bind_some]
  cases hsrc : metricsGlyph font i with
  | none =>
    refine Or.inl ⟨fun c hc => ?_, m, ?_, h.succ_of_none hsrc⟩
    · rw [hsrc] at hc
      cases hc
    · have htakes := useMetricsFromChildIdx_isSome_iff hwf hi hglyph
      unfold GlyphRenderDescription.useMetricsFromChildIdx at htakes
      match glyph.renderInstructions, htakes with
      | .polygonsGlyph, _ | .blankGlyph, _ | .compoundGlyph ⟨_, none⟩, _ => rfl
      | .compoundGlyph ⟨_, some _⟩, htakes => exact absurd hsrc (htakes.mp rfl)
  | some c =>
    obtain ⟨children, k, child, hins, hchild, rfl⟩ := exists_child hglyph hsrc
    rw [hins]
    dsimp only
    rw [hchild, Option.bind_some]
    by_cases hc : child.glyphIndex < font.numGlyphs
    · obtain ⟨childGlyph, hchildGlyph, -⟩ := hread.exists_get hc
      rw [hchildGlyph, Option.bind_some]
      cases hv : m.horizontal child.glyphIndex with
      | some v =>
        have hat := (h.isSome_iff hlong hc).mp (by rw [hv]; rfl)
        refine Or.inl ⟨fun d hd => ?_, _, rfl, h.succ_of_some hsrc hv rfl⟩
        rw [hsrc] at hd
        cases hd
        exact ⟨hc, hat⟩
      | none =>
        refine Or.inr ⟨fun hfound => ?_, rfl⟩
        have hsome := (h.isSome_iff hlong hc).mpr (hfound _ hsrc).2
        rw [hv] at hsome
        cases hsome
    · refine Or.inr ⟨fun hfound => hc (hfound _ hsrc).1, ?_⟩
      rw [List.getElem?_eq_none (by rw [hread.length]; exact Nat.le_of_not_lt hc)]
      rfl

end Passes

/-! ### The whole font -/

section Whole

variable {font : FontData}

theorem parse_cases (hwf : WellFormed font) :
    (((∀ i < font.numGlyphs, ∃ glyph, parseGlyph font i = some glyph) ∧
        ∀ i < font.numGlyphs, Found font i) ∧
      ∃ long parsed, parse font = some parsed ∧ Read font parsed.glyphs ∧
        parseHorizontalMetrics font = some long ∧
        InheritedCells font long font.numGlyphs parsed.metricsCells) ∨
    ((¬((∀ i < font.numGlyphs, ∃ glyph, parseGlyph font i = some glyph) ∧
        ∀ i < font.numGlyphs, Found font i)) ∧ parse font = none) := by
  obtain ⟨long, hhor, hlong, -⟩ := parseHorizontalMetrics_spec hwf
  obtain ⟨vertical, hver, hvertical⟩ := parseVerticalMetrics_spec hwf
  unfold parse
  rw [hhor, hver]
  dsimp only [Option.bind_eq_bind, Option.bind_some]
  cases hglyphs : (List.range font.numGlyphs).mapM (parseGlyph font) with
  | none =>
    refine Or.inr ⟨fun h => ?_, rfl⟩
    obtain ⟨glyphs, hsome⟩ := exists_mapM_range_iff.mpr h.1
    rw [hglyphs] at hsome
    cases hsome
  | some glyphs =>
    obtain ⟨hlength, hget⟩ := mapM_range_eq_some_iff.mp hglyphs
    have hread : Read font glyphs := ⟨hlength, hget⟩
    have hall := exists_mapM_range_iff.mp ⟨glyphs, hglyphs⟩
    rw [Option.bind_some]
    -- the first pass
    obtain ⟨m, hm, hown⟩ : ∃ m, (List.range font.numGlyphs).foldlM
        (setMetrics long vertical glyphs) ⟨fun _ => none, fun _ => none⟩ = some m ∧
        OwnCells font long font.numGlyphs m := by
      have hempty : OwnCells font long 0 ⟨fun _ => none, fun _ => none⟩ :=
        fun j => (if_neg fun h => absurd h.1 (Nat.not_lt_zero j)).symm
      rcases foldlM_range_cases (G := fun _ => True) hempty fun i hi m hcells =>
        Or.inl ⟨trivial, setMetrics_spec hwf hread hvertical hi hcells⟩ with ⟨-, h⟩ | ⟨h, -⟩
      · exact h
      · exact absurd (fun _ _ => trivial) h
    rw [hm, Option.bind_some]
    -- the second pass
    rcases foldlM_range_cases hown.inherited fun i hi m hcells =>
      inheritMetrics_cases hwf hread hlong hi hcells with ⟨hfound, m', hm', hcells⟩ | ⟨hnot, hnone⟩
    · rw [hm', Option.bind_some]
      exact Or.inl ⟨⟨hall, hfound⟩, long, _, rfl, hread, rfl, hcells⟩
    · rw [hnone]
      exact Or.inr ⟨fun h => hnot h.2, rfl⟩

variable {i : ℕ} {long : List LongHorMetric}

theorem metrics_eq_some_iff {parsed : Font} (hread : Read font parsed.glyphs)
    (hi : i < font.numGlyphs) (P : ℕ → Prop) :
    (∃ m, parsed.metrics i = some m ∧ P m.advanceWidth) ↔
      ∃ h, parsed.metricsCells.horizontal i = some h ∧ P h.advanceWidth := by
  obtain ⟨glyph, hget, -⟩ := hread.exists_get hi
  unfold Font.metrics
  rw [hget]
  cases parsed.metricsCells.horizontal i with
  | none => exact ⟨fun ⟨_, h, _⟩ => (by cases h), fun ⟨_, h, _⟩ => (by cases h)⟩
  | some h =>
    constructor
    · rintro ⟨m, hm, hP⟩
      cases hm
      exact ⟨h, rfl, hP⟩
    · rintro ⟨h', hh, hP⟩
      cases hh
      exact ⟨_, rfl, hP⟩

/-- `MetricsFound` as the glyphs have been read. -/
def Provided (font : FontData) (i : ℕ) : Prop :=
  (∃ glyph, parseGlyph font i = some glyph) ∧
    (metricsGlyph font i = none → i < font.longHorMetricsCount) ∧
    ∀ c, metricsGlyph font i = some c → c < font.numGlyphs ∧ ReadyAt font i c ∧
      (contourCount font i = 0 → ∃ w, Advance font c w ∧ Advance font i w)

/-- A glyph with metrics of its own has the width that `hmtx` gives it. -/
theorem advance_of_own (hwf : WellFormed font) (hhor : parseHorizontalMetrics font = some long)
    (hi : i < font.longHorMetricsCount) {glyph : GlyphRenderDescription}
    (hglyph : parseGlyph font i = some glyph) (hnone : metricsGlyph font i = none) :
    ∃ h, long[i]? = some h ∧ Advance font i h.advanceWidth := by
  obtain ⟨long', hhor', -, hget⟩ := parseHorizontalMetrics_spec hwf
  obtain rfl : long = long' := by
    rw [hhor] at hhor'
    exact Option.some.inj hhor'
  obtain ⟨h, hh, hwidth⟩ := hget i hi
  refine ⟨h, hh, ?_⟩
  have hown := advance_own hwf (lt_of_lt_of_le hi hwf.metricsCount.2) hglyph hnone
  rwa [Nat.min_eq_left (Nat.le_sub_one_of_lt hi), ← hwidth] at hown

/-- Where all metrics are found, the cells have the widths that the font gives. -/
theorem advance_of_found (hwf : WellFormed font) (hhor : parseHorizontalMetrics font = some long)
    {m : Metrics} (hcells : InheritedCells font long font.numGlyphs m)
    (hfound : ∀ i < font.numGlyphs, Provided font i) :
    ∀ i < font.numGlyphs, ∃ h, m.horizontal i = some h ∧ Advance font i h.advanceWidth := by
  intro i
  induction i using Nat.strong_induction_on with
  | _ i ih =>
    intro hi
    obtain ⟨⟨glyph, hglyph⟩, hown, hsrc⟩ := hfound i hi
    cases hmetrics : metricsGlyph font i with
    | none =>
      rw [hcells.own i hi hmetrics]
      exact advance_of_own hwf hhor (hown hmetrics) hglyph hmetrics
    | some c =>
      obtain ⟨hc, hat, hsame⟩ := hsrc c hmetrics
      obtain ⟨h, hh, hhc⟩ := hcells.taken i hi c hmetrics
      refine ⟨h, hh, ?_⟩
      -- the width of `c`, by the induction hypothesis where `c` takes its metrics from another
      have hadvance : Advance font c h.advanceWidth := by
        by_cases hnone : metricsGlyph font c = none
        · obtain ⟨⟨glyph', hglyph'⟩, -, -⟩ := hfound c hc
          obtain ⟨h', hh', hadvance⟩ := advance_of_own hwf hhor (hat.1 hnone) hglyph' hnone
          rw [hcells.own c hc hnone, hh'] at hhc
          cases hhc
          exact hadvance
        · obtain ⟨h', hh', hadvance⟩ := ih c (hat.2 hnone) hc
          rw [hhc] at hh'
          cases hh'
          exact hadvance
      by_cases hcount : contourCount font i = 0
      · obtain ⟨w, hcw, hiw⟩ := hsame hcount
        rwa [Advance.unique hwf (fun j hj => (hfound j hj).1) hadvance hcw]
      · exact advance_inherited hwf hi hmetrics hcount hadvance

theorem parse_metrics_iff_provided (font : FontData) (hwf : WellFormed font) :
    (∃ parsed, parse font = some parsed ∧ ∀ i < font.numGlyphs,
        ∃ m, parsed.metrics i = some m ∧ Advance font i m.advanceWidth) ↔
      ∀ i < font.numGlyphs, Provided font i := by
  constructor
  · rintro ⟨parsed, hparse, hmetrics⟩ i hi
    rcases parse_cases hwf with ⟨⟨hall, hfound⟩, long, parsed', hparse', hread, hhor, hcells⟩ |
      ⟨-, hnone⟩
    · rw [hparse] at hparse'
      cases hparse'
      have hwidth : ∀ j < font.numGlyphs, ∃ h, parsed.metricsCells.horizontal j = some h ∧
          Advance font j h.advanceWidth :=
        fun j hj => (metrics_eq_some_iff hread hj _).mp (hmetrics j hj)
      obtain ⟨h, hh, hadvance⟩ := hwidth i hi
      refine ⟨hall i hi, fun hnone => ?_, fun c hc => ⟨(hfound i hi c hc).1, (hfound i hi c hc).2,
        fun _ => ?_⟩⟩
      · obtain ⟨long', hhor', hlong, -⟩ := parseHorizontalMetrics_spec hwf
        obtain rfl : long = long' := by
          rw [hhor] at hhor'
          exact Option.some.inj hhor'
        rw [hcells.own i hi hnone] at hh
        rw [← hlong]
        exact (List.getElem?_eq_some_iff.mp hh).1
      · obtain ⟨h', hh', hadvance'⟩ := hwidth c (hfound i hi c hc).1
        obtain ⟨h'', hi'', hc''⟩ := hcells.taken i hi c hc
        rw [hh] at hi''
        cases hi''
        rw [hh'] at hc''
        cases hc''
        exact ⟨_, hadvance', hadvance⟩
    · rw [hparse] at hnone
      cases hnone
  · intro hfound
    rcases parse_cases hwf with ⟨-, long, parsed, hparse, hread, hhor, hcells⟩ | ⟨hnot, -⟩
    · refine ⟨parsed, hparse, fun i hi => (metrics_eq_some_iff hread hi _).mpr ?_⟩
      exact advance_of_found hwf hhor hcells hfound i hi
    · refine absurd ⟨fun i hi => (hfound i hi).1, fun i hi c hc => ?_⟩ hnot
      obtain ⟨hc', hat, -⟩ := (hfound i hi).2.2 c hc
      exact ⟨hc', hat⟩

theorem readyAt_iff (hwf : WellFormed font)
    (hread : ∀ i < font.numGlyphs, ∃ glyph, parseGlyph font i = some glyph) {i c : ℕ}
    (hc : c < font.numGlyphs) : ReadyAt font i c ↔ HasMetricsAt font i c := by
  obtain ⟨glyph, hglyph⟩ := hread c hc
  have hnone := metricsGlyph_eq_none_iff hwf hc hglyph
  unfold ReadyAt HasMetricsAt
  rw [hnone, ← not_forall_not, ne_eq, hnone]

theorem provided_iff (hwf : WellFormed font)
    (hread : ∀ i < font.numGlyphs, ∃ glyph, parseGlyph font i = some glyph)
    (hi : i < font.numGlyphs) : Provided font i ↔ MetricsFound font i := by
  obtain ⟨glyph, hglyph⟩ := hread i hi
  have hnone := metricsGlyph_eq_none_iff hwf hi hglyph
  constructor
  · rintro ⟨hex, hown, htaken⟩
    refine ⟨(exists_parseGlyph_iff hwf hi).mp hex, fun h => hown (hnone.mpr h), fun c hc => ?_⟩
    obtain ⟨hlt, hat, hsame⟩ := htaken c ((metricsGlyph_eq_some_iff hwf hi hglyph).mpr hc)
    exact ⟨hlt, (readyAt_iff hwf hread hlt).mp hat, hsame⟩
  · intro h
    refine ⟨⟨glyph, hglyph⟩, fun hi => h.own (hnone.mp hi), fun c hc => ?_⟩
    obtain ⟨hlt, hat, hsame⟩ := h.taken c ((metricsGlyph_eq_some_iff hwf hi hglyph).mp hc)
    exact ⟨hlt, (readyAt_iff hwf hread hlt).mpr hat, hsame⟩

/-- **When every glyph has its metrics (proved).** -/
theorem parse_metrics_iff (font : FontData) (hwf : WellFormed font) :
    (∃ parsed, parse font = some parsed ∧ ∀ i < font.numGlyphs,
        ∃ m, parsed.metrics i = some m ∧ Advance font i m.advanceWidth) ↔
      ∀ i < font.numGlyphs, MetricsFound font i := by
  rw [parse_metrics_iff_provided font hwf]
  constructor
  · intro h i hi
    exact (provided_iff hwf (fun j hj => (h j hj).1) hi).mp (h i hi)
  · intro h i hi
    exact (provided_iff hwf (fun j hj => (exists_parseGlyph_iff hwf hj).mpr (h j hj).read) hi).mpr
      (h i hi)

end Whole

/-- Two glyphs without data, and some of the two entries of `hmtx`. -/
def blankGlyphs (longHorMetricsCount : ℕ) : FontData where
  numGlyphs := 2
  glyphBoundingBox := Rect.new 0 0 10 10
  longHorMetricsCount := longHorMetricsCount
  hmtx := [0, 5, 0, 0, 0, 6, 0, 0]
  vmtx := none
  loca := [0, 0, 0]
  glyf := []

theorem not_hasData_blankGlyphs {n i : ℕ} (hi : i < 2) : ¬HasData (blankGlyphs n) i := by
  have : i = 0 ∨ i = 1 := by omega
  rcases this with rfl | rfl <;> exact lt_irrefl 0

theorem wellFormed_blankGlyphs (h : 1 ≤ n) (h' : n ≤ 2) : WellFormed (blankGlyphs n) := by
  have hblank : ∀ i < 2, ¬HasData (blankGlyphs n) i := fun i hi => not_hasData_blankGlyphs hi
  exact
    { metricsCount := ⟨h, h'⟩
      hmtx := by show 4 * n ≤ 8; omega
      vmtx := fun vmtx hvmtx => by cases hvmtx
      loca := rfl
      sorted := fun i hi => by
        have : i = 0 ∨ i = 1 := by change i < 2 at hi; omega
        rcases this with rfl | rfl <;> exact le_rfl
      header := fun i hi hdata => absurd hdata (hblank i hi)
      compound := fun i hi hdata => absurd hdata (hblank i hi)
      components := fun i components hcomp => absurd hcomp.2.1 (hblank i hcomp.1) }

theorem blankGlyphs_metrics : ∃ parsed, parse (blankGlyphs 2) = some parsed ∧
    ∀ i < 2, ∃ m, parsed.metrics i = some m ∧ Advance (blankGlyphs 2) i m.advanceWidth := by
  refine (parse_metrics_iff (blankGlyphs 2)
    (wellFormed_blankGlyphs (by decide) le_rfl)).mpr fun i hi => ?_
  have hblank := not_hasData_blankGlyphs (n := 2) hi
  exact ⟨fun hdata => absurd hdata hblank, fun _ => hi,
    fun c ⟨components, hcomp, _⟩ => absurd hcomp.1 hblank⟩

/-- The glyph behind the last entry of `hmtx` is left without metrics. -/
theorem tail_withoutMetrics : WellFormed (blankGlyphs 1) ∧
    ∃ parsed, parse (blankGlyphs 1) = some parsed ∧ parsed.metrics 1 = none :=
  ⟨wellFormed_blankGlyphs le_rfl (by decide), _, rfl, rfl⟩

end Axle.Ttf
