import Axle.Netclient.Layout

/-!
# The flow of text in a block

The texts in a block are cut into fragments, from line box to line box.  A text goes on in the line
where the one before it has ended, as far as there is room for one of its characters.

* `textFlow_iff` — **PROVED**: `TextFlow` holds if and only if the texts are `FitsTexts`.

A fragment begins at the lower right corner of the one before it, so that two fragments of a line
never have the same top edge.
-/

namespace Axle.Netclient.Layout

/-! ### What is promised -/

def textNode (cssNodes : List CssNode) (block : Box) (text : String) : LayoutNode :=
  .mk (createNode cssNodes block .textLayout (some text)) []

/-- `lines` are the line boxes of `block` when `texts` have been laid out in it. -/
def Flows (cssNodes : List CssNode) (block : Box) (texts : List String) (lines : List LineBox) :
    Prop :=
  ∃ fuel b nodes, calculateChildren fuel { block with lineBoxes := [] } none
    (texts.map (textNode cssNodes block)) = some (b, nodes) ∧ b.lineBoxes = lines

def inOrder (lines : List LineBox) : List LineFragment := lines.flatMap LineBox.fragments

/-- The fragments are those of a text from `start` to `stop`, without gaps. -/
def Contiguous : ℕ → List LineFragment → ℕ → Prop
  | start, [], stop => start = stop
  | start, fragment :: fragments, stop =>
    fragment.startIdx = start ∧ Contiguous (start + fragment.length) fragments stop

structure ProperLine (lineBox : LineBox) : Prop where
  sameTop : ∀ f ∈ lineBox.fragments, ∀ g ∈ lineBox.fragments, f.frame.y = g.frame.y
  apart : lineBox.fragments.Pairwise fun f g =>
    f.frame.x.toInt + (f.frame.width.toNat : ℤ) ≤ g.frame.x.toInt
  narrow : (lineBox.fragments.map fun f => f.frame.width.toNat).sum ≤ lineBox.maxWidth.toNat

/-- The fragments of a text are the ones that come with it. -/
structure TextFlow (cssNodes : List CssNode) (block : Box) (texts : List String) : Prop where
  ends : ∃ lines, Flows cssNodes block texts lines
  partition : ∀ done text rest, texts = done ++ text :: rest → ∀ lines lines',
    Flows cssNodes block done lines → Flows cssNodes block (done ++ [text]) lines' →
      ∃ new, inOrder lines' = inOrder lines ++ new ∧ Contiguous 0 new text.length
  proper : ∀ lines, Flows cssNodes block texts lines → ∀ lineBox ∈ lines, ProperLine lineBox

/-- The font of a node is a multiple of 8 by 12, as `size_make(8 * em_scale, 12 * em_scale)`. -/
def Styled (box : Box) : Prop := ∃ em : Word, box.fontWidth = 8 * em ∧ box.fontHeight = 12 * em

def charWidth (cssNodes : List CssNode) (block : Box) (text : String) : ℕ :=
  (createNode cssNodes block .textLayout (some text)).fontWidth.toNat

/-- `rest` is what the last line with a fragment has left, and `used` how many of them there are. -/
def FitsTexts (cssNodes : List CssNode) (block : Box) : ℕ → ℕ → List String → Prop
  | _, _, [] => True
  | rest, used, text :: texts =>
    let width := block.contentFrame.width.toNat
    let c := charWidth cssNodes block text
    c ≠ 0 ∧
      if text.length = 0 then FitsTexts cssNodes block rest used texts
      else
        text.length < 2 ^ 32 ∧ c ≤ width ∧ rest < c ∧
          used + (text.length + width / c - 1) / (width / c) ≤ 32 ∧
          FitsTexts cssNodes block (width - c * ((text.length - 1) % (width / c) + 1))
            (used + (text.length + width / c - 1) / (width / c)) texts

theorem Styled.createNode {cssNodes : List CssNode} {parent : Box} (h : Styled parent)
    (mode : LayoutMode) (name : Option String) : Styled (createNode cssNodes parent mode name) := by
  obtain ⟨em, hwidth, hheight⟩ := h
  unfold Layout.createNode applyCssStyling
  dsimp only
  split
  · exact ⟨em, hwidth, hheight⟩
  · rename_i cssNode _
    cases hem : cssNode.fontSizeEm with
    | none => exact ⟨em, by simp [hwidth], by simp [hheight]⟩
    | some own => exact ⟨own, by simp, by simp⟩

theorem Styled.height_ne {box : Box} (h : Styled box) (hwidth : box.fontWidth ≠ 0) :
    box.fontHeight ≠ 0 := by
  obtain ⟨em, hw, hh⟩ := h
  rw [hw] at hwidth
  rw [hh]
  intro hzero
  have height : (8 : Word) = 0x55555556 * 12 := by decide
  rw [height, BitVec.mul_assoc, hzero] at hwidth
  exact hwidth BitVec.mul_zero

/-! ### One round -/

section Rounds

variable {block text : Box} {n next : ℕ} {finished lines : List LineBox} {lineBox : LineBox}

/-- The rest of the text can be laid out, and then the lines are `lines`. -/
def Gives (block text : Box) (n : ℕ) (finished : List LineBox) (lineBox : LineBox) (next : ℕ)
    (lines : List LineBox) : Prop :=
  ∃ fuel, generateLineFragments block text n fuel finished lineBox next = some lines

theorem not_gives_of_zero (h : text.fontWidth = 0) :
    ¬Gives block text n finished lineBox next lines := by
  rintro ⟨_ | fuel, hgen⟩
  · cases hgen
  · rw [generateLineFragments, if_pos h] at hgen
    cases hgen

theorem gives_done (hc : text.fontWidth ≠ 0) (hneed : (n - next) % 2 ^ 32 = 0) :
    Gives block text n finished lineBox next lines ↔ lines = finished ++ [lineBox] := by
  constructor
  · rintro ⟨_ | fuel, hgen⟩
    · cases hgen
    · rw [generateLineFragments, if_neg hc] at hgen
      rw [if_pos hneed] at hgen
      exact (Option.some.inj hgen).symm
  · rintro rfl
    refine ⟨1, ?_⟩
    rw [generateLineFragments, if_neg hc]
    rw [if_pos hneed]

theorem gives_iff_of_round {p : Prop} [Decidable p] {finished' : List LineBox} {lineBox' : LineBox}
    {next' : ℕ}
    (hround : ∀ fuel, generateLineFragments block text n (fuel + 1) finished lineBox next =
      if p then generateLineFragments block text n fuel finished' lineBox' next' else none) :
    Gives block text n finished lineBox next lines ↔
      p ∧ Gives block text n finished' lineBox' next' lines := by
  constructor
  · rintro ⟨_ | fuel, hgen⟩
    · cases hgen
    · rw [hround] at hgen
      split at hgen
      · exact ⟨‹_›, fuel, hgen⟩
      · cases hgen
  · rintro ⟨hp, fuel, hgen⟩
    exact ⟨fuel + 1, by rw [hround, if_pos hp, hgen]⟩

section

variable (hc : text.fontWidth ≠ 0)

include hc

theorem gives_newLine (hneed : (n - next) % 2 ^ 32 ≠ 0)
    (hnarrow : placeableChars text lineBox ((n - next) % 2 ^ 32) = 0) :
    Gives block text n finished lineBox next lines ↔
      finished.length + 2 ≤ 32 ∧
        Gives block text n (finished ++ [lineBox.commit text])
          (lineBoxAlloc block (finished ++ [lineBox.commit text])) next lines := by
  refine gives_iff_of_round fun fuel => ?_
  rw [generateLineFragments, if_neg hc]
  dsimp only
  rw [if_neg hneed, if_pos hnarrow, List.length_append, List.length_singleton]

theorem gives_place {p : ℕ} (hneed : (n - next) % 2 ^ 32 ≠ 0)
    (hp : placeableChars text lineBox ((n - next) % 2 ^ 32) = p) (hpos : p ≠ 0) :
    Gives block text n finished lineBox next lines ↔
      lineBox.fragments.length + 1 ≤ 16 ∧
        Gives block text n finished (lineBox.place text next p) (next + p) lines := by
  refine gives_iff_of_round fun fuel => ?_
  rw [generateLineFragments, if_neg hc]
  rw [if_neg hneed, hp, if_neg hpos]

/-- A line that is too narrow for one character is followed by no other kind. -/
theorem not_gives_of_wide (hneed : (n - next) % 2 ^ 32 ≠ 0)
    (hwide : block.contentFrame.width.toNat < text.fontWidth.toNat) :
    ∀ fuel (finished : List LineBox) (lineBox : LineBox),
      placeableChars text lineBox ((n - next) % 2 ^ 32) = 0 →
        generateLineFragments block text n fuel finished lineBox next = none := by
  intro fuel
  induction fuel with
  | zero => exact fun _ _ _ => rfl
  | succ fuel ih =>
    intro finished lineBox hnarrow
    rw [generateLineFragments, if_neg hc]
    dsimp only
    rw [if_neg hneed, if_pos hnarrow]
    split
    · refine ih _ _ ?_
      have hfresh : ((lineBoxAlloc block (finished ++ [lineBox.commit text])).maxWidth -
          fragmentsWidth (lineBoxAlloc block (finished ++ [lineBox.commit text]))) =
          block.contentFrame.width := BitVec.sub_zero _
      rw [placeableChars, hfresh, BitVec.toNat_udiv, Nat.div_eq_of_lt hwide, Nat.min_zero]
    · rfl

end

theorem exists_line_of_generate : ∀ {fuel next : ℕ} {finished : List LineBox} {lineBox : LineBox},
    generateLineFragments block text n fuel finished lineBox next = some lines →
      ∃ l rest, lines = finished ++ l :: rest ∧ lineBox.fragments <+: l.fragments ∧
        l.maxWidth = lineBox.maxWidth := by
  intro fuel
  induction fuel with
  | zero => exact fun h => nomatch h
  | succ fuel ih =>
    intro next finished lineBox h
    rw [generateLineFragments] at h
    dsimp only at h
    split at h
    · cases h
    split at h
    · exact ⟨lineBox, [], (Option.some.inj h).symm, List.prefix_rfl, rfl⟩
    split at h
    · split at h
      · obtain ⟨l, rest, hlines, -⟩ := ih h
        exact ⟨lineBox.commit text, l :: rest, by simpa using hlines, List.prefix_rfl, rfl⟩
      · cases h
    · split at h
      · obtain ⟨l, rest, hlines, hfragments, hwidth⟩ := ih h
        exact ⟨l, rest, hlines, (List.prefix_append _ _).trans hfragments, hwidth⟩
      · cases h

/-! ### A text that begins on a line of its own -/

/-- One fragment, of `p` characters. -/
structure Single (width : Word) (text : Box) (start p : ℕ) (l : LineBox) : Prop where
  fragment : ∃ f, l.fragments = [f] ∧ f.startIdx = start ∧ f.length = p ∧
    f.frame.width.toNat = text.fontWidth.toNat * p ∧ f.frame.height = text.fontHeight
  maxWidth : l.maxWidth = width
  fits : text.fontWidth.toNat * p ≤ width.toNat

/-- The lines of a text of which `m` characters are left from `start` on, `k` for a line. -/
def Filled (width : Word) (text : Box) (k : ℕ) : ℕ → ℕ → List LineBox → Prop
  | _, _, [] => False
  | start, m, [l] => m ≤ k ∧ 0 < m ∧ Single width text start m l
  | start, m, l :: ls =>
    k < m ∧ Single width text start k l ∧ Filled width text k (start + k) (m - k) ls

variable {width : Word} {m : ℕ}

theorem placeableChars_fresh (hfresh : lineBox.fragments = [])
    (hwidth : lineBox.maxWidth = width) :
    placeableChars text lineBox m =
      min m (width.toNat / text.fontWidth.toNat) := by
  have hrest : lineBox.maxWidth - fragmentsWidth lineBox = width := by
    rw [fragmentsWidth, hfresh, hwidth]
    exact BitVec.sub_zero _
  rw [placeableChars, hrest, BitVec.toNat_udiv]

theorem place_fresh {p : ℕ} (hfresh : lineBox.fragments = [])
    (hwidth : lineBox.maxWidth = width)
    (hp : p ≤ width.toNat / text.fontWidth.toNat) :
    Single width text next p (lineBox.place text next p) := by
  have hle : text.fontWidth.toNat * p ≤ width.toNat :=
    (Nat.mul_le_mul_left _ hp).trans (Nat.mul_div_le _ _)
  have hlt := width.isLt
  refine ⟨⟨_, by rw [LineBox.place, hfresh, List.nil_append], rfl, rfl, ?_, rfl⟩, hwidth, hle⟩
  rw [BitVec.toNat_mul, BitVec.toNat_ofNat, Nat.mod_mul_mod, Nat.mul_comm,
    Nat.mod_eq_of_lt (hle.trans_lt hlt)]

theorem Single.rest {start p : ℕ} {l : LineBox} (h : Single width text start p l) :
    (l.maxWidth - fragmentsWidth l).toNat =
      width.toNat - text.fontWidth.toNat * p := by
  obtain ⟨f, hf, -, -, hwidth, -⟩ := h.fragment
  have hsum : fragmentsWidth l = f.frame.width := by
    rw [fragmentsWidth, hf, List.map_singleton, List.sum_singleton]
  have hle : f.frame.width ≤ l.maxWidth := by
    rw [BitVec.le_def, hwidth, h.maxWidth]
    exact h.fits
  rw [hsum, BitVec.toNat_sub_of_le hle, hwidth, h.maxWidth]

/-- **A text from the beginning of a line on (proved)**: it takes as many lines as it needs, and
is laid out if the block can have them. -/
theorem gives_fresh {k : ℕ} (hc : text.fontWidth ≠ 0)
    (hk : block.contentFrame.width.toNat / text.fontWidth.toNat = k) (hpos : 0 < k) :
    ∀ (m next : ℕ) (finished : List LineBox) (lineBox : LineBox), 0 < m →
      lineBox.fragments = [] → lineBox.maxWidth = block.contentFrame.width →
      next + m = n % 2 ^ 32 →
      (finished.length + (m + k - 1) / k ≤ 32 →
        ∃ lines, Gives block text n finished lineBox next lines) ∧
      ∀ lines, Gives block text n finished lineBox next lines →
        ∃ new, lines = finished ++ new ∧ Filled block.contentFrame.width text k next m new ∧
          new.length = (m + k - 1) / k ∧
          finished.length + new.length ≤ max 32 (finished.length + 1) := by
  have hc' : 0 < text.fontWidth.toNat := by
    rw [Nat.pos_iff_ne_zero]
    exact fun h => hc (BitVec.eq_of_toNat_eq h)
  intro m
  induction m using Nat.strong_induction_on with
  | _ m ih =>
    intro next finished lineBox hm hfresh hwidth hnext
    have hneed : (n - next) % 2 ^ 32 = m := by omega
    have hplaceable : placeableChars text lineBox m = _ := placeableChars_fresh hfresh hwidth
    rw [hk] at hplaceable
    have hsingle : ∀ {p}, p ≤ k →
        Single block.contentFrame.width text next p (lineBox.place text next p) :=
      fun hp => place_fresh hfresh hwidth (hk ▸ hp)
    have hplace : ∀ lines, Gives block text n finished lineBox next lines ↔
        Gives block text n finished (lineBox.place text next (min m k)) (next + min m k) lines := by
      intro lines
      rw [gives_place (p := min m k) hc (by omega) (by rw [hneed, hplaceable]) (by omega), hfresh]
      exact and_iff_right (show 0 + 1 ≤ 16 by decide)
    by_cases hlast : m ≤ k
    · rw [Nat.min_eq_left hlast] at hplace
      have hdone : ∀ lines, Gives block text n finished lineBox next lines ↔
          lines = finished ++ [lineBox.place text next m] :=
        fun lines => (hplace lines).trans (gives_done hc (by omega))
      have hone : (m + k - 1) / k = 1 := Nat.div_eq_of_lt_le (by omega) (by omega)
      refine ⟨fun _ => ⟨_, (hdone _).mpr rfl⟩, fun lines h => ?_⟩
      exact ⟨_, (hdone lines).mp h, ⟨hlast, hm, hsingle hlast⟩, by rw [hone]; rfl,
        le_max_right _ _⟩
    · have hgt : k < m := Nat.lt_of_not_le hlast
      rw [Nat.min_eq_right hgt.le] at hplace
      have hfull := hsingle (le_refl k)
      have hnone : placeableChars text (lineBox.place text next k) ((n - (next + k)) % 2 ^ 32) =
          0 := by
        have hmod := Nat.mod_lt block.contentFrame.width.toNat hc'
        have hdiv := Nat.div_add_mod block.contentFrame.width.toNat text.fontWidth.toNat
        rw [hk] at hdiv
        rw [placeableChars, BitVec.toNat_udiv, hfull.rest, Nat.div_eq_of_lt (by omega),
          Nat.min_zero]
      have hstep : ∀ lines, Gives block text n finished lineBox next lines ↔
          finished.length + 2 ≤ 32 ∧
            Gives block text n (finished ++ [(lineBox.place text next k).commit text])
              (lineBoxAlloc block (finished ++ [(lineBox.place text next k).commit text]))
              (next + k) lines :=
        fun lines => (hplace lines).trans (gives_newLine hc (by omega) hnone)
      have hcount : (m + k - 1) / k = (m - k + k - 1) / k + 1 := by
        rw [← Nat.add_div_right _ hpos]
        congr 1
        omega
      obtain ⟨hexists, hall⟩ := ih (m - k) (by omega) (next + k)
        (finished ++ [(lineBox.place text next k).commit text])
        (lineBoxAlloc block (finished ++ [(lineBox.place text next k).commit text])) (by omega)
        rfl rfl (by omega)
      rw [List.length_append, List.length_singleton] at hexists hall
      have hmore : 0 < (m - k + k - 1) / k := Nat.div_pos (by omega) hpos
      constructor
      · intro hroom
        obtain ⟨lines, hlines⟩ := hexists (by omega)
        exact ⟨lines, (hstep lines).mpr ⟨by omega, hlines⟩⟩
      · intro lines h
        obtain ⟨hlen, h⟩ := (hstep lines).mp h
        obtain ⟨new, hlines, hfilled, hlength, hle⟩ := hall lines h
        refine ⟨(lineBox.place text next k).commit text :: new, by rw [hlines]; simp, ?_, ?_, ?_⟩
        · cases new with
          | nil => exact hfilled.elim
          | cons l ls => exact ⟨hgt, ⟨hfull.fragment, hfull.maxWidth, hfull.fits⟩, hfilled⟩
        · rw [List.length_cons, hlength, hcount]
        · rw [List.length_cons]
          omega

theorem Single.proper {start p : ℕ} {l : LineBox} (h : Single width text start p l) :
    ProperLine l := by
  obtain ⟨f, hf, -, -, hw, -⟩ := h.fragment
  refine ⟨by simp [hf], by simp [hf], ?_⟩
  rw [hf, List.map_singleton, List.sum_singleton, hw, h.maxWidth]
  exact h.fits

theorem Filled.spec {k : ℕ} (hk : 0 < k) : ∀ {new : List LineBox} {start m : ℕ},
    Filled width text k start m new →
      Contiguous start (inOrder new) (start + m) ∧ (∀ l ∈ new, ProperLine l) ∧
        ∃ front l s, new = front ++ [l] ∧ Single width text s ((m - 1) % k + 1) l := by
  intro new
  induction new with
  | nil => exact fun h => h.elim
  | cons l ls ih =>
    intro start m h
    cases ls with
    | nil =>
      obtain ⟨hle, hpos, hsingle⟩ := h
      obtain ⟨f, hf, hstart, hlen, -⟩ := hsingle.fragment
      refine ⟨?_, List.forall_mem_singleton.mpr hsingle.proper, [], l, start, rfl, ?_⟩
      · simp only [inOrder, List.flatMap_cons, List.flatMap_nil, hf, List.append_nil, Contiguous]
        exact ⟨hstart, by rw [hlen]⟩
      · rw [Nat.mod_eq_of_lt (by omega), Nat.sub_add_cancel hpos]
        exact hsingle
    | cons l' ls =>
      obtain ⟨hgt, hsingle, hrest⟩ := h
      obtain ⟨f, hf, hstart, hlen, -⟩ := hsingle.fragment
      obtain ⟨hcontiguous, hproper, front, last, s, hnew, hlast⟩ := ih hrest
      refine ⟨?_, List.forall_mem_cons.mpr ⟨hsingle.proper, hproper⟩, l :: front, last, s,
        by rw [hnew, List.cons_append], ?_⟩
      · have heq : start + k + (m - k) = start + m := by omega
        rw [inOrder, List.flatMap_cons, hf]
        exact ⟨hstart, hlen.symm ▸ heq ▸ hcontiguous⟩
      · have hmod : (m - 1) % k = (m - k - 1) % k := by
          rw [Nat.mod_eq_sub_mod (by omega), Nat.sub_right_comm]
        rw [hmod]
        exact hlast

end Rounds

/-! ### One text -/

section Steps

variable {block text : Box} {lines lines' : List LineBox} {width : Word} {rest used m k : ℕ}

/-- The text of a node. -/
def textLength (text : Box) : ℕ := (text.domName.getD "").length

def Lays (block text : Box) (lines lines' : List LineBox) : Prop :=
  ∃ fuel, layoutText fuel { block with lineBoxes := lines } text = some lines'

theorem lays_concat {front : List LineBox} {l : LineBox} :
    Lays block text (front ++ [l]) lines' ↔
      Gives { block with lineBoxes := front ++ [l] } text (textLength text) front l 0 lines' := by
  simp only [Lays, Gives, layoutText, List.getLast?_concat, List.dropLast_concat, textLength]

/-- The lines of a block between two of its texts. -/
structure Stand (width : Word) (rest used : ℕ) (lines : List LineBox) : Prop where
  proper : ∀ l ∈ lines, ProperLine l
  last : (used = 0 ∧ rest = 0 ∧
      (lines = [] ∨ ∃ l, lines = [l] ∧ l.fragments = [] ∧ l.maxWidth = width)) ∨
    (used = lines.length ∧ ∃ front l before s p, lines = front ++ [l] ∧
      Single width before s p l ∧ 0 < before.fontWidth.toNat * p ∧ before.fontHeight ≠ 0 ∧
      rest = width.toNat - before.fontWidth.toNat * p)

/-- Nothing to lay out: at most an empty line comes with it. -/
theorem Stand.empty (h : Stand block.contentFrame.width rest used lines)
    (hc : text.fontWidth ≠ 0) (hm : textLength text % 2 ^ 32 = 0) :
    (∃ lines', Lays block text lines lines') ∧ ∀ lines', Lays block text lines lines' →
      Stand block.contentFrame.width rest used lines' ∧ inOrder lines' = inOrder lines := by
  rcases lines.eq_nil_or_concat' with rfl | ⟨front, l, rfl⟩
  · have hdone : ∀ lines', Lays block text [] lines' ↔ lines' = [lineBoxAlloc block []] :=
      fun lines' => @gives_done { block with lineBoxes := [] } _ _ _ _ _ _ hc hm
    refine ⟨⟨_, (hdone _).mpr rfl⟩, fun lines' h' => ?_⟩
    obtain rfl := (hdone lines').mp h'
    refine ⟨⟨List.forall_mem_singleton.mpr ⟨by simp [lineBoxAlloc], by simp [lineBoxAlloc],
      Nat.zero_le _⟩, Or.inl ?_⟩, rfl⟩
    rcases h.last with ⟨hused, hrest, -⟩ | ⟨-, front, l, _, _, _, hlines, -⟩
    · exact ⟨hused, hrest, Or.inr ⟨_, rfl, rfl, rfl⟩⟩
    · simp at hlines
  · have hdone : ∀ lines', Lays block text (front ++ [l]) lines' ↔ lines' = front ++ [l] :=
      fun lines' => lays_concat.trans (gives_done hc hm)
    refine ⟨⟨_, (hdone _).mpr rfl⟩, fun lines' h' => ?_⟩
    obtain rfl := (hdone lines').mp h'
    exact ⟨h, rfl⟩

/-- A text that finds no room beside the last one begins on a line of its own. -/
theorem Stand.begin (h : Stand block.contentFrame.width rest used lines)
    (hc : text.fontWidth ≠ 0) (hm : textLength text % 2 ^ 32 ≠ 0)
    (hrest : rest < text.fontWidth.toNat) :
    ∃ b finished l, b.contentFrame = block.contentFrame ∧ finished.length = used ∧
      inOrder finished = inOrder lines ∧ (∀ l ∈ finished, ProperLine l) ∧ l.fragments = [] ∧
      l.maxWidth = block.contentFrame.width ∧
      ∀ lines', Lays block text lines lines' ↔
        used + 1 ≤ max 32 1 ∧ Gives b text (textLength text) finished l 0 lines' := by
  rcases h.last with ⟨rfl, -, rfl | ⟨l, rfl, hfresh, hwidth⟩⟩ |
    ⟨hused, front, l, before, s, p, rfl, hsingle, -, -, rfl⟩
  · exact ⟨{ block with lineBoxes := [] }, [], lineBoxAlloc block [], rfl, rfl, rfl, h.proper, rfl,
      rfl, fun lines' => (and_iff_right (by decide)).symm⟩
  · refine ⟨{ block with lineBoxes := [l] }, [], l, rfl, rfl, ?_, by simp, hfresh, hwidth,
      fun lines' => (and_iff_right (by decide)).symm⟩
    rw [inOrder, inOrder, List.flatMap_singleton, hfresh, List.flatMap_nil]
  · have hnone : placeableChars text l (textLength text % 2 ^ 32) = 0 := by
      rw [placeableChars, BitVec.toNat_udiv, hsingle.rest, Nat.div_eq_of_lt hrest, Nat.min_zero]
    refine ⟨{ block with lineBoxes := front ++ [l] }, front ++ [l.commit text],
      lineBoxAlloc block (front ++ [l.commit text]), rfl, ?_, ?_, ?_, rfl, rfl, fun lines' => ?_⟩
    · rw [hused, List.length_append, List.length_append, List.length_singleton,
        List.length_singleton]
    · simp only [inOrder, List.flatMap_append, List.flatMap_singleton]
      rfl
    · intro l' hl'
      rcases List.mem_append.mp hl' with hfront | hlast
      · exact h.proper l' (List.mem_append_left _ hfront)
      · obtain rfl := List.mem_singleton.mp hlast
        have hproper := h.proper l (List.mem_append_right _ (List.mem_singleton_self l))
        exact ⟨hproper.sameTop, hproper.apart, hproper.narrow⟩
    · rw [lays_concat, gives_newLine hc hm hnone, hused, List.length_append, List.length_singleton]
      rfl

theorem Stand.next (h : Stand block.contentFrame.width rest used lines) (hstyled : Styled text)
    (hc : text.fontWidth ≠ 0) (hm : textLength text % 2 ^ 32 = m) (hpos : 0 < m)
    (hk : block.contentFrame.width.toNat / text.fontWidth.toNat = k) (hfits : 0 < k)
    (hrest : rest < text.fontWidth.toNat) :
    ((∃ lines', Lays block text lines lines') ↔ used + (m + k - 1) / k ≤ 32) ∧
      ∀ lines', Lays block text lines lines' →
        Stand block.contentFrame.width
          (block.contentFrame.width.toNat - text.fontWidth.toNat * ((m - 1) % k + 1))
          (used + (m + k - 1) / k) lines' ∧
        ∃ new, inOrder lines' = inOrder lines ++ new ∧ Contiguous 0 new m := by
  obtain ⟨b, finished, l, hb, rfl, horder, hproper, hfresh, hwidth, hlays⟩ :=
    h.begin hc (hm.trans_ne hpos.ne') hrest
  obtain ⟨hexists, hall⟩ := @gives_fresh b text (textLength text) k hc (hb ▸ hk) hfits m 0 finished l
    hpos hfresh (hb ▸ hwidth) (by omega)
  have hone : 0 < (m + k - 1) / k := Nat.div_pos (by omega) hfits
  refine ⟨⟨?_, fun hle => ?_⟩, fun lines' h' => ?_⟩
  · rintro ⟨lines', h'⟩
    obtain ⟨hroom, hgives⟩ := (hlays lines').mp h'
    obtain ⟨new, -, -, hlength, hle⟩ := hall lines' hgives
    omega
  · obtain ⟨lines', hgives⟩ := hexists hle
    exact ⟨lines', (hlays lines').mpr ⟨by omega, hgives⟩⟩
  · obtain ⟨new, rfl, hfilled, hlength, -⟩ := hall lines' ((hlays lines').mp h').2
    obtain ⟨hcontiguous, hnew, front, last, s, rfl, hlast⟩ := hfilled.spec hfits
    rw [hb] at hlast
    refine ⟨⟨?_, Or.inr ⟨?_, finished ++ front, last, text, s, _, by rw [List.append_assoc], hlast,
      ?_, hstyled.height_ne hc, rfl⟩⟩, inOrder (front ++ [last]), ?_, ?_⟩
    · exact List.forall_mem_append.mpr ⟨hproper, hnew⟩
    · rw [List.length_append, hlength]
    · exact Nat.mul_pos (Nat.zero_lt_of_lt hrest) (Nat.succ_pos _)
    · rw [inOrder, List.flatMap_append, ← inOrder, ← inOrder, horder]
    · rw [Nat.zero_add] at hcontiguous
      exact hcontiguous

/-- In a block that is narrower than a character no text is laid out. -/
theorem Stand.wide (h : Stand block.contentFrame.width rest used lines) (hc : text.fontWidth ≠ 0)
    (hm : textLength text % 2 ^ 32 ≠ 0)
    (hwide : block.contentFrame.width.toNat < text.fontWidth.toNat) :
    ¬Lays block text lines lines' := by
  have hrest : rest < text.fontWidth.toNat := by
    rcases h.last with ⟨-, rfl, -⟩ | ⟨-, -, -, -, -, -, -, -, -, -, rfl⟩ <;> omega
  obtain ⟨b, finished, l, hb, -, -, -, hfresh, hwidth, hlays⟩ := h.begin hc hm hrest
  intro hlines
  obtain ⟨-, fuel, hgen⟩ := (hlays lines').mp hlines
  rw [not_gives_of_wide hc hm (hb ▸ hwide) fuel finished l] at hgen
  · cases hgen
  · rw [placeableChars_fresh hfresh hwidth, Nat.div_eq_of_lt hwide, Nat.min_zero]

/-- A text that is put beside the one before it is not at the same height. -/
theorem Stand.beside (h : Stand block.contentFrame.width rest used lines)
    (hm : textLength text % 2 ^ 32 ≠ 0) (hc : text.fontWidth ≠ 0)
    (hrest : text.fontWidth.toNat ≤ rest) (hlays : Lays block text lines lines') :
    ∃ l ∈ lines', ¬ProperLine l := by
  have hc' : 0 < text.fontWidth.toNat := Nat.pos_of_ne_zero fun h => hc (BitVec.eq_of_toNat_eq h)
  rcases h.last with ⟨-, rfl, -⟩ | ⟨-, front, l, before, s, p, rfl, hsingle, -, hheight, rfl⟩
  · omega
  · obtain ⟨f, hf, -, -, -, hfheight⟩ := hsingle.fragment
    have hplaceable : placeableChars text l (textLength text % 2 ^ 32) ≠ 0 := by
      have hdiv := Nat.div_pos hrest hc'
      rw [placeableChars, BitVec.toNat_udiv, hsingle.rest]
      omega
    obtain ⟨-, fuel, hgen⟩ := (gives_place hc hm rfl hplaceable).mp (lays_concat.mp hlays)
    obtain ⟨l', rest, rfl, hfragments, -⟩ := exists_line_of_generate hgen
    refine ⟨l', by simp, fun hproper => ?_⟩
    have hmem : ∀ g ∈ (l.place text 0 (placeableChars text l (textLength text % 2 ^ 32))).fragments,
        g ∈ l'.fragments := fun g hg => hfragments.subset hg
    rw [LineBox.place, hf] at hmem
    have htop := hproper.sameTop _ (hmem _ (List.mem_append_right _ (List.mem_singleton_self _)))
      f (hmem f (by simp))
    have hzero : f.frame.height = 0 := BitVec.add_right_eq_self.mp htop
    exact hheight (hfheight ▸ hzero)

theorem Lays.grows (h : Lays block text lines lines') :
    ∀ l ∈ lines, ∃ l' ∈ lines', l.fragments <+: l'.fragments ∧ l'.maxWidth = l.maxWidth := by
  rcases lines.eq_nil_or_concat' with rfl | ⟨front, last, rfl⟩
  · exact fun l hl => absurd hl List.not_mem_nil
  · obtain ⟨fuel, hgen⟩ := lays_concat.mp h
    obtain ⟨last', rest, rfl, hlast, hwidth⟩ := exists_line_of_generate hgen
    intro l hl
    rcases List.mem_append.mp hl with hfront | hl
    · exact ⟨l, List.mem_append_left _ hfront, List.prefix_rfl, rfl⟩
    · obtain rfl := List.mem_singleton.mp hl
      exact ⟨last', by simp, hlast, hwidth⟩

theorem ProperLine.of_longer {l l' : LineBox} (h : ProperLine l')
    (hfragments : l.fragments <+: l'.fragments) (hwidth : l'.maxWidth = l.maxWidth) :
    ProperLine l := by
  obtain ⟨more, hmore⟩ := hfragments
  obtain ⟨htop, hapart, hnarrow⟩ := h
  rw [← hmore] at htop hapart hnarrow
  refine ⟨fun f hf g hg => htop f (List.mem_append_left _ hf) g (List.mem_append_left _ hg),
    (List.pairwise_append.mp hapart).1, ?_⟩
  rw [List.map_append, List.sum_append, hwidth] at hnarrow
  exact (Nat.le_add_right _ _).trans hnarrow

end Steps

/-! ### All texts -/

variable {cssNodes : List CssNode} {block : Box}

/-- The texts are laid out one after the other. -/
def Laid (cssNodes : List CssNode) (block : Box) :
    List LineBox → List String → List LineBox → Prop
  | start, [], lines => lines = start
  | start, text :: texts, lines =>
    ∃ middle, Lays block (createNode cssNodes block .textLayout (some text)) start middle ∧
      Laid cssNodes block middle texts lines

theorem generateLineFragments_mono {b text : Box} {n : ℕ} {lines : List LineBox} :
    ∀ {fuel fuel' : ℕ} {finished : List LineBox} {lineBox : LineBox} {next : ℕ}, fuel ≤ fuel' →
      generateLineFragments b text n fuel finished lineBox next = some lines →
        generateLineFragments b text n fuel' finished lineBox next = some lines := by
  intro fuel
  induction fuel with
  | zero => exact fun _ h => nomatch h
  | succ fuel ih =>
    intro fuel' finished lineBox next hle h
    obtain ⟨more, rfl⟩ := Nat.exists_eq_add_of_le' hle
    rw [← Nat.add_assoc]
    rw [generateLineFragments] at h ⊢
    dsimp only at h ⊢
    have hmore : fuel ≤ more + fuel := Nat.le_add_left fuel more
    split_ifs at h ⊢ with hzero hdone hnarrow hroom hroom
    · exact h
    · exact ih hmore h
    · exact ih hmore h

theorem layoutText_mono {b text : Box} {lines : List LineBox} {fuel fuel' : ℕ} (hle : fuel ≤ fuel')
    (h : layoutText fuel b text = some lines) : layoutText fuel' b text = some lines := by
  unfold layoutText at h ⊢
  split at h
  · exact generateLineFragments_mono hle h
  · exact generateLineFragments_mono hle h

theorem Lays.unique {text : Box} {start lines lines' : List LineBox} (h : Lays block text start lines)
    (h' : Lays block text start lines') : lines = lines' := by
  obtain ⟨fuel, hfuel⟩ := h
  obtain ⟨fuel', hfuel'⟩ := h'
  have hmax := layoutText_mono (le_max_left fuel fuel') hfuel
  rw [layoutText_mono (le_max_right fuel fuel') hfuel'] at hmax
  exact (Option.some.inj hmax).symm

theorem calculateChildren_texts (fuel : ℕ) (texts : List String) : ∀ (start : List LineBox)
    (previous : Option Rect) (b : Box) (nodes : List LayoutNode),
    calculateChildren fuel { block with lineBoxes := start } previous
        (texts.map (textNode cssNodes block)) = some (b, nodes) →
      Laid cssNodes block start texts b.lineBoxes := by
  induction texts with
  | nil =>
    intro start previous b nodes h
    obtain ⟨rfl, -⟩ := Prod.mk.inj (Option.some.inj h)
    rfl
  | cons text texts ih =>
    intro start previous b nodes h
    obtain ⟨⟨b', node⟩, hfirst, h⟩ := Option.bind_eq_some_iff.mp h
    rw [textNode, calculateFrame, (createNode_rest cssNodes block .textLayout (some text)).1]
      at hfirst
    obtain ⟨middle, hmiddle, hfirst⟩ := Option.bind_eq_some_iff.mp hfirst
    cases hfirst
    obtain ⟨⟨b'', nodes'⟩, hrest, h⟩ := Option.bind_eq_some_iff.mp h
    cases h
    exact ⟨middle, ⟨fuel, hmiddle⟩, ih middle _ _ _ hrest⟩

theorem Laid.exists_fuel {texts : List String} : ∀ {start lines : List LineBox},
    Laid cssNodes block start texts lines →
      ∃ least, ∀ fuel, least ≤ fuel → ∀ previous, ∃ nodes,
        calculateChildren fuel { block with lineBoxes := start } previous
          (texts.map (textNode cssNodes block)) = some ({ block with lineBoxes := lines }, nodes) := by
  induction texts with
  | nil =>
    rintro start lines rfl
    exact ⟨0, fun fuel _ previous => ⟨[], rfl⟩⟩
  | cons text texts ih =>
    rintro start lines ⟨middle, ⟨fuel₁, hfirst⟩, hrest⟩
    obtain ⟨least, hleast⟩ := ih hrest
    refine ⟨max fuel₁ least, fun fuel hfuel previous => ?_⟩
    have hlay := layoutText_mono ((le_max_left _ _).trans hfuel) hfirst
    obtain ⟨nodes, hnodes⟩ := hleast fuel (by omega)
      (some (createNode cssNodes block .textLayout (some text)).marginFrame)
    refine ⟨textNode cssNodes block text :: nodes, ?_⟩
    rw [List.map_cons, calculateChildren, textNode, calculateFrame,
      (createNode_rest cssNodes block .textLayout (some text)).1]
    simp only [hlay, Option.bind_eq_bind, Option.bind_some]
    rw [show (LayoutNode.mk (createNode cssNodes block .textLayout (some text)) []).box =
      createNode cssNodes block .textLayout (some text) from rfl, hnodes]
    rfl

theorem flows_iff {texts : List String} {lines : List LineBox} :
    Flows cssNodes block texts lines ↔ Laid cssNodes block [] texts lines := by
  constructor
  · rintro ⟨fuel, b, nodes, h, rfl⟩
    exact calculateChildren_texts fuel texts [] none b nodes h
  · intro h
    obtain ⟨least, hleast⟩ := h.exists_fuel
    obtain ⟨nodes, hnodes⟩ := hleast least le_rfl none
    exact ⟨least, _, nodes, hnodes, rfl⟩

theorem Laid.grows {texts : List String} : ∀ {start lines : List LineBox},
    Laid cssNodes block start texts lines → (∀ l ∈ lines, ProperLine l) →
      ∀ l ∈ start, ProperLine l := by
  induction texts with
  | nil =>
    rintro start lines rfl h
    exact h
  | cons text texts ih =>
    rintro start lines ⟨middle, hlays, hrest⟩ hproper l hl
    obtain ⟨l', hl', hfragments, hwidth⟩ := hlays.grows l hl
    exact (ih hrest hproper l' hl').of_longer hfragments hwidth

/-- `TextFlow`, for the texts from some of them on. -/
structure FlowFrom (cssNodes : List CssNode) (block : Box) (start : List LineBox)
    (texts : List String) : Prop where
  ends : ∃ lines, Laid cssNodes block start texts lines
  partition : ∀ done text rest, texts = done ++ text :: rest → ∀ lines lines',
    Laid cssNodes block start done lines → Laid cssNodes block start (done ++ [text]) lines' →
      ∃ new, inOrder lines' = inOrder lines ++ new ∧ Contiguous 0 new text.length
  proper : ∀ lines, Laid cssNodes block start texts lines → ∀ l ∈ lines, ProperLine l

variable {start : List LineBox} {text : String} {texts : List String}

theorem FlowFrom.cons {middle : List LineBox}
    (hlays : Lays block (createNode cssNodes block .textLayout (some text)) start middle)
    (hflow : FlowFrom cssNodes block middle texts)
    (hnew : ∃ new, inOrder middle = inOrder start ++ new ∧ Contiguous 0 new text.length) :
    FlowFrom cssNodes block start (text :: texts) := by
  refine ⟨?_, ?_, ?_⟩
  · obtain ⟨lines, hlines⟩ := hflow.ends
    exact ⟨lines, middle, hlays, hlines⟩
  · rintro (_ | ⟨first, done⟩) last rest htexts lines lines' hdone hlast
    · obtain ⟨rfl, rfl⟩ := List.cons.inj htexts
      obtain rfl := hdone
      obtain ⟨middle', hlays', rfl⟩ := hlast
      exact hlays.unique hlays' ▸ hnew
    · obtain ⟨rfl, hsame⟩ := List.cons.inj htexts
      obtain ⟨middle₁, hlays₁, hdone⟩ := hdone
      obtain ⟨middle₂, hlays₂, hlast⟩ := hlast
      obtain rfl := hlays.unique hlays₁
      obtain rfl := hlays.unique hlays₂
      exact hflow.partition done last rest hsame lines lines' hdone hlast
  · rintro lines ⟨middle', hlays', hlines⟩
    obtain rfl := hlays.unique hlays'
    exact hflow.proper lines hlines

theorem FlowFrom.tail (h : FlowFrom cssNodes block start (text :: texts)) :
    ∃ middle, Lays block (createNode cssNodes block .textLayout (some text)) start middle ∧
      FlowFrom cssNodes block middle texts ∧ (∀ l ∈ middle, ProperLine l) ∧
      ∃ new, inOrder middle = inOrder start ++ new ∧ Contiguous 0 new text.length := by
  obtain ⟨lines, middle, hlays, hrest⟩ := h.ends
  refine ⟨middle, hlays, ⟨⟨lines, hrest⟩, ?_, ?_⟩, ?_, ?_⟩
  · intro done last rest htexts lines lines' hdone hlast
    exact h.partition (text :: done) last rest (congrArg _ htexts) lines lines'
      ⟨middle, hlays, hdone⟩ ⟨middle, hlays, hlast⟩
  · exact fun lines hlines => h.proper lines ⟨middle, hlays, hlines⟩
  · exact hrest.grows (h.proper lines ⟨middle, hlays, hrest⟩)
  · exact h.partition [] text texts rfl start middle rfl ⟨middle, hlays, rfl⟩

theorem contiguous_unique : ∀ {fragments : List LineFragment} {n m m' : ℕ},
    Contiguous n fragments m → Contiguous n fragments m' → m = m' := by
  intro fragments
  induction fragments with
  | nil =>
    rintro n m m' rfl rfl
    rfl
  | cons f fs ih => exact fun h h' => ih h.2 h'.2

theorem not_lays_of_zero {node : Box} {lines : List LineBox} (hzero : node.fontWidth = 0) :
    ¬Lays block node start lines := by
  rcases start.eq_nil_or_concat' with rfl | ⟨front, l, rfl⟩
  · exact @not_gives_of_zero { block with lineBoxes := [] } _ _ _ _ _ _ hzero
  · exact fun h => not_gives_of_zero hzero (lays_concat.mp h)

theorem textLength_createNode : textLength (createNode cssNodes block .textLayout (some text)) =
    text.length := by
  unfold textLength createNode applyCssStyling
  dsimp only
  split <;> rfl

/-- One text at a time, on the state that the ones before it leave behind. -/
theorem flowFrom_iff (hblock : Styled block) : ∀ (texts : List String) (start : List LineBox)
    (rest used : ℕ), Stand block.contentFrame.width rest used start →
      (FlowFrom cssNodes block start texts ↔ FitsTexts cssNodes block rest used texts) := by
  intro texts
  induction texts with
  | nil =>
    intro start rest used h
    refine iff_of_true ⟨⟨start, rfl⟩, ?_, ?_⟩ True.intro
    · rintro (_ | ⟨_, _⟩) _ _ htexts <;> cases htexts
    · rintro lines rfl
      exact h.proper
  | cons text texts ih =>
    intro start rest used h
    have hstyled := @Styled.createNode cssNodes block hblock .textLayout (some text)
    have hlength : textLength (createNode cssNodes block .textLayout (some text)) = text.length :=
      textLength_createNode
    have hzero : charWidth cssNodes block text ≠ 0 ↔
        (createNode cssNodes block .textLayout (some text)).fontWidth ≠ 0 :=
      not_congr ⟨fun h => BitVec.eq_of_toNat_eq h, fun h => by rw [charWidth, h]; rfl⟩
    constructor
    · intro hflow
      obtain ⟨middle, hlays, hrest, hproper, new, horder, hnew⟩ := hflow.tail
      have hc := fun hz => not_lays_of_zero hz hlays
      refine ⟨hzero.mpr hc, ?_⟩
      by_cases hm : text.length % 2 ^ 32 = 0
      · obtain ⟨hstand, hsame⟩ := (h.empty hc (hlength ▸ hm)).2 middle hlays
        obtain rfl : new = [] := List.append_right_eq_self.mp (horder.symm.trans hsame)
        rw [if_pos hnew.symm]
        exact (ih middle rest used hstand).mp hrest
      · have hwide : charWidth cssNodes block text ≤ block.contentFrame.width.toNat :=
          Nat.le_of_not_lt fun hlt => h.wide hc (hlength ▸ hm) hlt hlays
        have hnarrow : rest < charWidth cssNodes block text := by
          refine Nat.lt_of_not_le fun hle => ?_
          obtain ⟨l, hl, hbad⟩ := h.beside (hlength ▸ hm) hc hle hlays
          exact hbad (hproper l hl)
        have hk := Nat.div_pos hwide (Nat.pos_of_ne_zero (hzero.mpr hc))
        obtain ⟨hexists, hall⟩ := h.next hstyled hc (hlength ▸ rfl) (Nat.pos_of_ne_zero hm) rfl hk
          hnarrow
        obtain ⟨hstand, new', horder', hnew'⟩ := hall middle hlays
        obtain rfl := List.append_cancel_left (horder.symm.trans horder')
        have hmod := contiguous_unique hnew' hnew
        rw [if_neg fun h0 => hm (by rw [h0, Nat.zero_mod])]
        rw [hmod] at hexists hstand
        exact ⟨hmod ▸ Nat.mod_lt _ (by decide), hwide, hnarrow, hexists.mp ⟨middle, hlays⟩,
          (ih middle _ _ hstand).mp hrest⟩
    · rintro ⟨hc, hfits⟩
      rw [hzero] at hc
      split at hfits
      case isTrue h0 =>
        obtain ⟨⟨middle, hlays⟩, hall⟩ := h.empty hc (by rw [hlength, h0, Nat.zero_mod])
        obtain ⟨hstand, hsame⟩ := hall middle hlays
        exact .cons hlays ((ih middle rest used hstand).mpr hfits)
          ⟨[], by rw [hsame, List.append_nil], h0.symm⟩
      case isFalse h0 =>
        obtain ⟨hlt, hwide, hnarrow, hroom, hfits⟩ := hfits
        have hk := Nat.div_pos hwide (Nat.pos_of_ne_zero (hzero.mpr hc))
        obtain ⟨hexists, hall⟩ := h.next hstyled hc (by rw [hlength, Nat.mod_eq_of_lt hlt])
          (Nat.pos_of_ne_zero h0) rfl hk hnarrow
        obtain ⟨middle, hlays⟩ := hexists.mpr hroom
        obtain ⟨hstand, hnew⟩ := hall middle hlays
        exact .cons hlays ((ih middle _ _ hstand).mpr hfits) hnew

/-- **Text flow (proved)**, for every block whose font a stylesheet can set, of any width, and
every sequence of texts under every stylesheet. -/
theorem textFlow_iff (cssNodes : List CssNode) (block : Box) (hblock : Styled block)
    (texts : List String) :
    TextFlow cssNodes block texts ↔ FitsTexts cssNodes block 0 0 texts := by
  have hstand : Stand block.contentFrame.width 0 0 [] :=
    ⟨List.forall_mem_nil _, Or.inl ⟨rfl, rfl, Or.inl rfl⟩⟩
  rw [← flowFrom_iff hblock texts [] 0 0 hstand]
  constructor
  · rintro ⟨hends, hpartition, hproper⟩
    simp only [flows_iff] at hends hpartition hproper
    exact ⟨hends, hpartition, hproper⟩
  · rintro ⟨hends, hpartition, hproper⟩
    simp only [← flows_iff] at hends hpartition hproper
    exact ⟨hends, hpartition, hproper⟩

/-- A block for 13 characters of the default font. -/
def narrowBlock : Box :=
  ⟨.blockLayout, false, none, 0, 0, 0, 0, 8, 12, Rect.zero, ⟨0, 0, 104, 0⟩, []⟩

/-- The first text fills its line. -/
theorem textFlow_fullLine : TextFlow [] narrowBlock ["abcdefghijklm", "", "a"] := by
  have hwidth : ∀ text, charWidth [] narrowBlock text = 8 := fun _ => rfl
  refine (textFlow_iff [] narrowBlock ⟨1, rfl, rfl⟩ _).mpr ?_
  simp only [FitsTexts, hwidth]
  decide +kernel

/-- Two texts on one line: the second one hangs below the first. -/
theorem second_text_below : ∃ lines, Flows [] narrowBlock ["a", "b"] lines ∧
    ∃ l ∈ lines, ∃ f ∈ l.fragments, ∃ g ∈ l.fragments, f.frame.y ≠ g.frame.y :=
  ⟨_, ⟨4, _, _, rfl, rfl⟩, _, List.mem_cons_self, _, List.mem_cons_self, _,
    List.mem_cons_of_mem _ List.mem_cons_self, by decide⟩

end Axle.Netclient.Layout
