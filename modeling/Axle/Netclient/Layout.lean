import Mathlib.Data.BitVec
import Mathlib.Tactic

/-!
# The box tree of a page

`layout_generate` makes a layout node for each DOM node below `body`, styles it, and then computes
the frames in one recursion: a block takes its left edge and its width from its parent and its top
edge from the sibling before it, lays out its children, and takes the sum of their heights.

Coordinates are words of 32 bits in the source, signed in frames and unsigned in between.  Colours
and what is printed are left out.  `none` is a failed assertion or a division by zero; the loop over
the characters of a text may not end and has a bound on its rounds.

* `layoutGenerate` — the layout tree with its frames;
* `ProperTree` — widths without margins, stacked siblings, children and lines in their parents;
* `layoutGenerate_proper` — **PROVED**: a page of blocks, no matter how nested, is a proper tree;
* `layout_iff` — **PROVED**: in a window that is wide enough only a page of blocks is one.
-/

namespace Axle.Netclient.Layout

/-! ### Nodes -/

abbrev Word := BitVec 32

structure Rect where
  x : Word
  y : Word
  width : Word
  height : Word
  deriving DecidableEq, Repr

def Rect.zero : Rect := ⟨0, 0, 0, 0⟩

def Rect.maxX (r : Rect) : Word := r.x + r.width

def Rect.maxY (r : Rect) : Word := r.y + r.height

inductive DomNodeType where
  | document
  | htmlTag
  | text
  deriving DecidableEq, Repr

/-- `html_dom_node_t`.  The name of a text node is its text. -/
inductive DomNode where
  | mk (type : DomNodeType) (name : String) (children : List DomNode)

def DomNode.type : DomNode → DomNodeType
  | .mk type _ _ => type

def DomNode.name : DomNode → String
  | .mk _ name _ => name

def DomNode.children : DomNode → List DomNode
  | .mk _ _ children => children

/-- `css_node_t`: what a rule sets. -/
structure CssNode where
  name : String
  marginTop : Option Word
  marginBottom : Option Word
  marginLeft : Option Word
  marginRight : Option Word
  fontSizeEm : Option Word
  deriving DecidableEq, Repr

inductive LayoutMode where
  | rootLayout
  | blockLayout
  | inlineLayout
  | textLayout
  deriving DecidableEq, Repr

structure LineFragment where
  startIdx : ℕ
  length : ℕ
  frame : Rect
  deriving DecidableEq, Repr

structure LineBox where
  frame : Rect
  maxWidth : Word
  fragments : List LineFragment
  deriving DecidableEq, Repr

/-- `layout_node_base_t` and, for blocks, the line boxes. -/
structure Box where
  mode : LayoutMode
  isAnonymous : Bool
  domName : Option String
  marginTop : Word
  marginBottom : Word
  marginLeft : Word
  marginRight : Word
  fontWidth : Word
  fontHeight : Word
  marginFrame : Rect
  contentFrame : Rect
  lineBoxes : List LineBox
  deriving DecidableEq, Repr

inductive LayoutNode where
  | mk (box : Box) (children : List LayoutNode)

def LayoutNode.box : LayoutNode → Box
  | .mk box _ => box

/-! ### Styling -/

/-- `strncmp` with a bound of 64. -/
def sameName (a b : String) : Bool := a.toList.take 64 = b.toList.take 64

/-- The first rule for a name. -/
def cssNodeFor (cssNodes : List CssNode) (name : String) : Option CssNode :=
  cssNodes.find? fun cssNode => sameName name cssNode.name

/-- `_layout_node_apply_css_styling`: the font is that of the parent, if no rule sets it. -/
def applyCssStyling (cssNodes : List CssNode) (parent box : Box) : Box :=
  let box := { box with fontWidth := parent.fontWidth, fontHeight := parent.fontHeight }
  match box.domName.bind (cssNodeFor cssNodes) with
  | none => box
  | some cssNode =>
    { box with
      fontWidth := (cssNode.fontSizeEm.map fun em => 8 * em).getD box.fontWidth
      fontHeight := (cssNode.fontSizeEm.map fun em => 12 * em).getD box.fontHeight
      marginTop := cssNode.marginTop.getD box.marginTop
      marginBottom := cssNode.marginBottom.getD box.marginBottom
      marginLeft := cssNode.marginLeft.getD box.marginLeft
      marginRight := cssNode.marginRight.getD box.marginRight }

/-- A new node; the DOM node of an anonymous one is missing. -/
def createNode (cssNodes : List CssNode) (parent : Box) (mode : LayoutMode)
    (domName : Option String) : Box :=
  applyCssStyling cssNodes parent
    ⟨mode, domName.isNone, domName, 0, 0, 0, 0, 0, 0, Rect.zero, Rect.zero, []⟩

def horizontalStep : Word := 10
def verticalStep : Word := 8

/-- The root is not styled: it has no DOM node to match. -/
def rootNode : Box :=
  ⟨.rootLayout, false, none, verticalStep, verticalStep, horizontalStep, horizontalStep, 8, 12,
    Rect.zero, Rect.zero, []⟩

def blockTags : List String :=
  ["html", "body", "article", "section", "nav", "aside",
    "h1", "h2", "h3", "h4", "h5", "h6", "hgroup", "header",
    "footer", "address", "p", "hr", "ol", "ul", "menu", "li",
    "dl", "dt", "dd", "figure", "figcaption", "main", "div",
    "table", "form", "fieldset", "legend", "details", "summary"]

/-- `strcicmp` says that the names are equal. -/
def sameTag (a b : String) : Bool := a.toList.map Char.toLower = b.toList.map Char.toLower

/-- `_layout_mode_for_dom_node`. -/
def layoutModeFor (node : DomNode) : Option LayoutMode :=
  match node.type with
  | .document => none
  | .text => some .textLayout
  | .htmlTag =>
    if blockTags.any (sameTag node.name) then some .blockLayout else some .inlineLayout

section Tree

variable (cssNodes : List CssNode)

mutual

/-- `_layout_node_from_dom_node`. -/
def layoutNodeFrom (parent : Box) : DomNode → Option LayoutNode
  | .mk type name children =>
    match layoutModeFor (.mk type name children) with
    | some .blockLayout =>
      let block := createNode cssNodes parent .blockLayout (some name)
      let needsWrapping := children.any fun child => layoutModeFor child = some .blockLayout
      (blockChildrenFrom block needsWrapping children).map (LayoutNode.mk block)
    | some .inlineLayout =>
      let inlineBox := createNode cssNodes parent .inlineLayout (some name)
      (inlineChildrenFrom inlineBox children).map (LayoutNode.mk inlineBox)
    | some .textLayout =>
      -- text nodes must be leafs
      if children.isEmpty then
        some (.mk (createNode cssNodes parent .textLayout (some name)) [])
      else none
    | _ => none

/-- The children of a block.  Inline nodes next to blocks are wrapped in anonymous blocks. -/
def blockChildrenFrom (block : Box) (needsWrapping : Bool) :
    List DomNode → Option (List LayoutNode)
  | [] => some []
  | child :: rest =>
    let anonymous := createNode cssNodes block .blockLayout none
    let node :=
      if layoutModeFor child = some .inlineLayout ∧ needsWrapping then
        (layoutNodeFrom anonymous child).map fun node => LayoutNode.mk anonymous [node]
      else layoutNodeFrom block child
    node.bind fun node => (blockChildrenFrom block needsWrapping rest).map (node :: ·)

def inlineChildrenFrom (inlineBox : Box) : List DomNode → Option (List LayoutNode)
  | [] => some []
  | child :: rest => do
    let node ← layoutNodeFrom inlineBox child
    let nodes ← inlineChildrenFrom inlineBox rest
    some (node :: nodes)

end

end Tree

/-! ### Frames -/

/-- `_line_box_alloc`: below the last line box. -/
def lineBoxAlloc (block : Box) (lineBoxes : List LineBox) : LineBox :=
  let y :=
    match lineBoxes.getLast? with
    | some prev => prev.frame.maxY
    | none => block.contentFrame.y
  ⟨⟨block.contentFrame.x, y, 0, 0⟩, block.contentFrame.width, []⟩

/-- The widths of the fragments of a line. -/
def fragmentsWidth (lineBox : LineBox) : Word :=
  (lineBox.fragments.map fun fragment => fragment.frame.width).sum

/-- How many of the characters that are left the line has room for. -/
def placeableChars (text : Box) (lineBox : LineBox) (needToPlace : ℕ) : ℕ :=
  min needToPlace ((lineBox.maxWidth - fragmentsWidth lineBox) / text.fontWidth).toNat

/-- The line box gets its size. -/
def LineBox.commit (lineBox : LineBox) (text : Box) : LineBox :=
  { lineBox with
    frame := { lineBox.frame with width := fragmentsWidth lineBox, height := text.fontHeight } }

/-- A new fragment, at the corner of the last one. -/
def LineBox.place (lineBox : LineBox) (text : Box) (startIdx length : ℕ) : LineBox :=
  let origin : Word × Word :=
    match lineBox.fragments.getLast? with
    | some fragment => (fragment.frame.maxX, fragment.frame.maxY)
    | none => (lineBox.frame.x, lineBox.frame.y)
  { lineBox with
    fragments := lineBox.fragments ++ [⟨startIdx, length,
      ⟨origin.1, origin.2, BitVec.ofNat 32 length * text.fontWidth, text.fontHeight⟩⟩] }

/-- `_layout_text_node_generate_line_fragments`, for the rest of the text.  The line boxes but the
last are finished.  A block has an array of 32 line boxes, and a line box one of 16 fragments. -/
def generateLineFragments (block text : Box) (textLength : ℕ) :
    ℕ → List LineBox → LineBox → ℕ → Option (List LineBox)
  | 0, _, _, _ => none
  | fuel + 1, finished, lineBox, nextIdx =>
    if text.fontWidth = 0 then none
    else
      let needToPlace := (textLength - nextIdx) % 2 ^ 32
      let placeable := placeableChars text lineBox needToPlace
      if needToPlace = 0 then some (finished ++ [lineBox])
      else if placeable = 0 then
        let finished := finished ++ [lineBox.commit text]
        if finished.length + 1 ≤ 32 then
          generateLineFragments block text textLength fuel finished (lineBoxAlloc block finished)
            nextIdx
        else none
      else if lineBox.fragments.length + 1 ≤ 16 then
        generateLineFragments block text textLength fuel finished
          (lineBox.place text nextIdx placeable) (nextIdx + placeable)
      else none

/-- The text is laid out in the last line box of its block. -/
def layoutText (fuel : ℕ) (block text : Box) : Option (List LineBox) :=
  let textLength := (text.domName.getD "").length
  match block.lineBoxes.getLast? with
  | some lineBox =>
    generateLineFragments block text textLength fuel block.lineBoxes.dropLast lineBox 0
  | none => generateLineFragments block text textLength fuel [] (lineBoxAlloc block []) 0

/-- The top of the container, or just below the previous sibling. -/
def topEdge (parentContent : Rect) : Option Rect → Word
  | some previousSibling => previousSibling.maxY
  | none => parentContent.y

/-- Where a block begins: its edges and its width, before the children are laid out. -/
def startBlock (parentContent : Rect) (previousSibling : Option Rect) (block : Box) : Box :=
  let y := topEdge parentContent previousSibling
  { block with
    marginFrame := ⟨parentContent.x, y, parentContent.width, 0⟩
    contentFrame := ⟨parentContent.x + block.marginLeft, y + block.marginTop,
      parentContent.width - block.marginLeft - block.marginRight, 0⟩ }

/-- The height of a block: that of its children, and its margins. -/
def finishBlock (block : Box) (children : List LayoutNode) : Box :=
  let heightSum := (children.map fun child => child.box.marginFrame.height).sum
  { block with
    contentFrame := { block.contentFrame with height := heightSum }
    marginFrame :=
      { block.marginFrame with height := heightSum + block.marginTop + block.marginBottom } }

mutual

/-- `layout_node_calculate_frame`, with the block that the node is in. -/
def calculateFrame (fuel : ℕ) (block : Box) (previousSibling : Option Rect) :
    LayoutNode → Option (Box × LayoutNode)
  | .mk box children =>
    match box.mode with
    | .blockLayout => do
      let started := startBlock block.contentFrame previousSibling box
      let (started, children) ← calculateChildren fuel started none children
      some (block, .mk (finishBlock started children) children)
    | .inlineLayout => some (block, .mk box children)
    | .textLayout => do
      let lineBoxes ← layoutText fuel block box
      some ({ block with lineBoxes := lineBoxes }, .mk box children)
    | .rootLayout => none

/-- The children of a block, which may put lines into it. -/
def calculateChildren (fuel : ℕ) (block : Box) (previousSibling : Option Rect) :
    List LayoutNode → Option (Box × List LayoutNode)
  | [] => some (block, [])
  | child :: rest => do
    let (block, child) ← calculateFrame fuel block previousSibling child
    let (block, rest) ← calculateChildren fuel block (some child.box.marginFrame) rest
    some (block, child :: rest)

end

/-- `layout_tree_calculate_frames`. -/
def calculateTree (fuel : ℕ) (windowWidth : Word) (body : LayoutNode) : Option LayoutNode := do
  let root : Box := { rootNode with
    marginFrame := ⟨0, 0, windowWidth, 0⟩
    contentFrame := ⟨rootNode.marginLeft, rootNode.marginTop,
      windowWidth - rootNode.marginLeft - rootNode.marginRight, 0⟩ }
  let (root, body) ← calculateFrame fuel root none body
  let height := body.box.marginFrame.height
  some (.mk { root with
    contentFrame := { root.contentFrame with height := height }
    marginFrame :=
      { root.marginFrame with height := height + root.marginTop + root.marginBottom } } [body])

/-- `_html_child_tag_with_name`. -/
def htmlChildTagWithName (node : DomNode) (tagName : String) : Option DomNode :=
  node.children.find? fun child =>
    child.type = .htmlTag ∧ child.name.toList.map Char.toLower = tagName.toList

def layoutGenerate (fuel : ℕ) (root : DomNode) (cssNodes : List CssNode) (windowWidth : Word) :
    Option LayoutNode := do
  let domHtml ← htmlChildTagWithName root "html"
  let domBody ← htmlChildTagWithName domHtml "body"
  let body ← layoutNodeFrom cssNodes rootNode domBody
  calculateTree fuel windowWidth body

/-! ### What a page is to be -/

/-- A frame lies in another one, with coordinates as signed words. -/
structure Inside (inner outer : Rect) : Prop where
  left : outer.x.toInt ≤ inner.x.toInt
  top : outer.y.toInt ≤ inner.y.toInt
  right : inner.maxX.toInt ≤ outer.maxX.toInt
  bottom : inner.maxY.toInt ≤ outer.maxY.toInt

/-- A node and its children. -/
structure ProperNode (box : Box) (children : List LayoutNode) : Prop where
  widths : ∀ child ∈ children, child.box.mode = .blockLayout →
    child.box.contentFrame.width.toNat + child.box.marginLeft.toNat +
      child.box.marginRight.toNat = box.contentFrame.width.toNat
  stacked : (children.filter fun child => child.box.mode = .blockLayout).Pairwise
    fun a b => a.box.marginFrame.maxY.toInt ≤ b.box.marginFrame.y.toInt
  inside : ∀ child ∈ children, Inside child.box.marginFrame box.contentFrame
  lines : ∀ lineBox ∈ box.lineBoxes, ∀ fragment ∈ lineBox.fragments,
    Inside fragment.frame box.contentFrame

inductive ProperTree : LayoutNode → Prop
  | mk {box : Box} {children : List LayoutNode} (node : ProperNode box children)
      (subtrees : ∀ child ∈ children, ProperTree child) : ProperTree (.mk box children)

/-- Only tags of blocks, at any depth. -/
inductive BlockPage : DomNode → Prop
  | mk {type : DomNodeType} {name : String} {children : List DomNode}
      (mode : layoutModeFor (.mk type name children) = some .blockLayout)
      (subtrees : ∀ child ∈ children, BlockPage child) : BlockPage (.mk type name children)

section Room

variable (cssNodes : List CssNode)

/-- A margin that the stylesheet gives to a name. -/
def marginOf (margin : CssNode → Option Word) (name : String) : ℕ :=
  (((cssNodeFor cssNodes name).bind margin).getD 0).toNat

/-- The left and right margins of the blocks fit into the width, one inside the other. -/
inductive FitsWidth : ℕ → DomNode → Prop
  | block {available : ℕ} {type : DomNodeType} {name : String} {children : List DomNode}
      (mode : layoutModeFor (.mk type name children) = some .blockLayout)
      (le : marginOf cssNodes CssNode.marginLeft name +
        marginOf cssNodes CssNode.marginRight name ≤ available)
      (subtrees : ∀ child ∈ children, FitsWidth (available -
        (marginOf cssNodes CssNode.marginLeft name + marginOf cssNodes CssNode.marginRight name))
          child) : FitsWidth available (.mk type name children)
  | other {available : ℕ} {node : DomNode} (mode : layoutModeFor node ≠ some .blockLayout) :
      FitsWidth available node

mutual

/-- The height of a page of blocks: the sum of the top and bottom margins. -/
def height : DomNode → ℕ
  | .mk _ name children => heights children + marginOf cssNodes CssNode.marginTop name +
      marginOf cssNodes CssNode.marginBottom name

def heights : List DomNode → ℕ
  | [] => 0
  | child :: rest => height child + heights rest

end

end Room

/-! ### Words -/

theorem toNat_add {a b : Word} {m n : ℕ} (ha : a.toNat = m) (hb : b.toNat = n)
    (hlt : m + n < 2 ^ 31) : (a + b).toNat = m + n := by
  rw [BitVec.toNat_add, ha, hb, Nat.mod_eq_of_lt (hlt.trans (by decide))]

variable {a : Word} {m h w x y bottom : ℕ} {r : Rect} {nodes : List LayoutNode}

theorem toInt_eq (ha : a.toNat = m) (hlt : m < 2 ^ 31) : a.toInt = m := by
  rw [BitVec.toInt_eq_toNat_of_lt (by omega), ha]

/-- The frame is there, and its corners are signed words. -/
structure At (r : Rect) (x y w h : ℕ) : Prop where
  x_eq : r.x.toNat = x
  y_eq : r.y.toNat = y
  width_eq : r.width.toNat = w
  height_eq : r.height.toNat = h
  right : x + w < 2 ^ 31
  bottom : y + h < 2 ^ 31

theorem At.maxX (hr : At r x y w h) : r.maxX.toNat = x + w :=
  toNat_add hr.x_eq hr.width_eq hr.right

theorem At.maxY (hr : At r x y w h) : r.maxY.toNat = y + h :=
  toNat_add hr.y_eq hr.height_eq hr.bottom

theorem At.inside {r r' : Rect} {x y w h x' y' w' h' : ℕ} (hr : At r x y w h)
    (hr' : At r' x' y' w' h') (hx : x' ≤ x) (hy : y' ≤ y) (hright : x + w ≤ x' + w')
    (hbottom : y + h ≤ y' + h') : Inside r r' := by
  have hrr := hr.right
  have hrb := hr.bottom
  have hrr' := hr'.right
  have hrb' := hr'.bottom
  constructor
  · rw [toInt_eq hr.x_eq (by omega), toInt_eq hr'.x_eq (by omega)]
    exact Int.ofNat_le.mpr hx
  · rw [toInt_eq hr.y_eq (by omega), toInt_eq hr'.y_eq (by omega)]
    exact Int.ofNat_le.mpr hy
  · rw [toInt_eq hr.maxX hrr, toInt_eq hr'.maxX hrr']
    exact Int.ofNat_le.mpr hright
  · rw [toInt_eq hr.maxY hrb, toInt_eq hr'.maxY hrb']
    exact Int.ofNat_le.mpr hbottom

/-! ### Stacked children -/

/-- The margin frames of the nodes fill a column, from its top to its bottom. -/
inductive Column (x w : ℕ) : ℕ → List LayoutNode → ℕ → Prop
  | nil (y : ℕ) : Column x w y [] y
  | cons {y h bottom : ℕ} {child : LayoutNode} {rest : List LayoutNode}
      (first : At child.box.marginFrame x y w h) (column : Column x w (y + h) rest bottom) :
      Column x w y (child :: rest) bottom

theorem Column.le (h : Column x w y nodes bottom) : y ≤ bottom := by
  induction h with
  | nil => exact le_rfl
  | cons _ _ ih => exact (Nat.le_add_right _ _).trans ih

theorem Column.exists_at (h : Column x w y nodes bottom) {child : LayoutNode}
    (hmem : child ∈ nodes) :
    ∃ y' h', At child.box.marginFrame x y' w h' ∧ y ≤ y' ∧ y' + h' ≤ bottom := by
  induction h with
  | nil => cases hmem
  | cons first column ih =>
    rcases List.mem_cons.mp hmem with rfl | hrest
    · exact ⟨_, _, first, le_rfl, column.le⟩
    · obtain ⟨y', h', hat, hle, hle'⟩ := ih hrest
      exact ⟨y', h', hat, (Nat.le_add_right _ _).trans hle, hle'⟩

theorem Column.pairwise (h : Column x w y nodes bottom) :
    nodes.Pairwise fun a b => a.box.marginFrame.maxY.toInt ≤ b.box.marginFrame.y.toInt := by
  induction h with
  | nil => exact .nil
  | cons first column ih =>
    refine List.pairwise_cons.mpr ⟨fun b hb => ?_, ih⟩
    obtain ⟨y', h', hat, hle, -⟩ := column.exists_at hb
    have hbottom := hat.bottom
    rw [toInt_eq first.maxY first.bottom, toInt_eq hat.y_eq (by omega)]
    exact Int.ofNat_le.mpr hle

theorem Column.sum (h : Column x w y nodes bottom) (hlt : bottom < 2 ^ 31) :
    ((nodes.map fun child => child.box.marginFrame.height).sum : Word).toNat = bottom - y := by
  induction h with
  | nil => rw [Nat.sub_self]; rfl
  | cons first column ih =>
    have hle := column.le
    rw [List.map_cons, List.sum_cons, toNat_add first.height_eq (ih hlt) (by omega)]
    omega

/-! ### Pages of blocks -/

section Blocks

variable {cssNodes : List CssNode} {fuel : ℕ}

/-- The margins of a new block are those of the stylesheet. -/
theorem createNode_margins (cssNodes : List CssNode) (parent : Box) (mode : LayoutMode)
    (name : String) :
    (createNode cssNodes parent mode (some name)).marginTop.toNat =
        marginOf cssNodes CssNode.marginTop name ∧
      (createNode cssNodes parent mode (some name)).marginBottom.toNat =
        marginOf cssNodes CssNode.marginBottom name ∧
      (createNode cssNodes parent mode (some name)).marginLeft.toNat =
        marginOf cssNodes CssNode.marginLeft name ∧
      (createNode cssNodes parent mode (some name)).marginRight.toNat =
        marginOf cssNodes CssNode.marginRight name := by
  unfold createNode applyCssStyling marginOf
  dsimp only [Option.bind_some]
  cases cssNodeFor cssNodes name with
  | none => exact ⟨rfl, rfl, rfl, rfl⟩
  | some cssNode => exact ⟨rfl, rfl, rfl, rfl⟩

theorem createNode_rest (cssNodes : List CssNode) (parent : Box) (mode : LayoutMode)
    (domName : Option String) :
    (createNode cssNodes parent mode domName).mode = mode ∧
      (createNode cssNodes parent mode domName).lineBoxes = [] ∧
      (createNode cssNodes parent mode domName).marginFrame = Rect.zero := by
  unfold createNode applyCssStyling
  dsimp only
  split <;> exact ⟨rfl, rfl, rfl⟩

/-- A node gets its frames in any block that has the room for it: a frame that fills the width of
the block, from the edge below the previous sibling. -/
def LaysOut (cssNodes : List CssNode) (fuel : ℕ) (dom : DomNode) (node : LayoutNode) : Prop :=
  ∀ (block : Box) (previousSibling : Option Rect) (x y w : ℕ),
    FitsWidth cssNodes w dom → block.contentFrame.x.toNat = x →
    block.contentFrame.width.toNat = w →
    (topEdge block.contentFrame previousSibling).toNat = y → x + w < 2 ^ 31 →
    y + height cssNodes dom < 2 ^ 31 →
    ∃ laid, calculateFrame fuel block previousSibling node = some (block, laid) ∧
      At laid.box.marginFrame x y w (height cssNodes dom) ∧ laid.box.mode = .blockLayout ∧
      laid.box.contentFrame.width.toNat + laid.box.marginLeft.toNat +
        laid.box.marginRight.toNat = w ∧ ProperTree laid

/-- What is known of a child that has been laid out. -/
def GoodChild (w : ℕ) (child : LayoutNode) : Prop :=
  child.box.mode = .blockLayout ∧
    child.box.contentFrame.width.toNat + child.box.marginLeft.toNat +
      child.box.marginRight.toNat = w ∧ ProperTree child

variable {doms : List DomNode} {nodes : List LayoutNode} {dom : DomNode}

theorem calculateChildren_spec (h : List.Forall₂ (LaysOut cssNodes fuel) doms nodes) :
    ∀ (block : Box) (previousSibling : Option Rect) (x y w : ℕ),
      (∀ dom ∈ doms, FitsWidth cssNodes w dom) → block.contentFrame.x.toNat = x →
      block.contentFrame.width.toNat = w →
      (topEdge block.contentFrame previousSibling).toNat = y → x + w < 2 ^ 31 →
      y + heights cssNodes doms < 2 ^ 31 →
      ∃ laid, calculateChildren fuel block previousSibling nodes = some (block, laid) ∧
        Column x w y laid (y + heights cssNodes doms) ∧ ∀ child ∈ laid, GoodChild w child := by
  induction h with
  | nil =>
    intro block previousSibling x y w _ _ _ _ _ _
    exact ⟨[], rfl, by exact .nil y, fun _ h => by cases h⟩
  | @cons dom node doms nodes hfirst _ ih =>
    intro block previousSibling x y w hfits hx hw hy hxw hyh
    rw [heights] at hyh
    obtain ⟨child, hchild, hat, hgood⟩ := hfirst block previousSibling x y w
      (hfits dom List.mem_cons_self) hx hw hy hxw (by omega)
    have hnext : (topEdge block.contentFrame (some child.box.marginFrame)).toNat =
        y + height cssNodes dom := hat.maxY
    obtain ⟨rest, hrest, hcolumn, hgoods⟩ := ih block (some child.box.marginFrame) x
      (y + height cssNodes dom) w (fun d hd => hfits d (List.mem_cons_of_mem dom hd)) hx hw hnext
      hxw (by omega)
    refine ⟨child :: rest, ?_, ?_, List.forall_mem_cons.mpr ⟨hgood, hgoods⟩⟩
    · rw [calculateChildren, hchild]
      show (calculateChildren fuel block _ nodes).bind _ = _
      rw [hrest]
      rfl
    · rw [heights, ← Nat.add_assoc]
      exact .cons hat hcolumn

theorem startBlock_width {box : Box} {parentContent : Rect} (previousSibling : Option Rect)
    {w left right : ℕ} (hw : parentContent.width.toNat = w) (hleft : box.marginLeft.toNat = left)
    (hright : box.marginRight.toNat = right) (hle : left + right ≤ w) :
    (startBlock parentContent previousSibling box).contentFrame.width.toNat =
      w - (left + right) := by
  show (parentContent.width - box.marginLeft - box.marginRight).toNat = _
  have hfst : (parentContent.width - box.marginLeft).toNat = w - left := by
    rw [BitVec.toNat_sub_of_le (BitVec.le_def.mpr (by omega)), hw, hleft]
  rw [BitVec.toNat_sub_of_le (BitVec.le_def.mpr (by omega)), hfst, hright, Nat.sub_sub]

theorem laysOut_block {type : DomNodeType} {name : String} {box : Box}
    (hmode : layoutModeFor (.mk type name doms) = some .blockLayout)
    (hbox : box.mode = .blockLayout) (hlines : box.lineBoxes = [])
    (htop : box.marginTop.toNat = marginOf cssNodes CssNode.marginTop name)
    (hbottom : box.marginBottom.toNat = marginOf cssNodes CssNode.marginBottom name)
    (hleft : box.marginLeft.toNat = marginOf cssNodes CssNode.marginLeft name)
    (hright : box.marginRight.toNat = marginOf cssNodes CssNode.marginRight name)
    (hnodes : List.Forall₂ (LaysOut cssNodes fuel) doms nodes) :
    LaysOut cssNodes fuel (.mk type name doms) (.mk box nodes) := by
  intro block previousSibling x y w hfits hx hw hy hxw hyh
  cases hfits with
  | other hnot => exact absurd hmode hnot
  | block _ hle hsub =>
    rw [height] at hyh
    have hstartX : (startBlock block.contentFrame previousSibling box).contentFrame.x.toNat =
        x + marginOf cssNodes CssNode.marginLeft name := toNat_add hx hleft (by omega)
    have hstartY : (startBlock block.contentFrame previousSibling box).contentFrame.y.toNat =
        y + marginOf cssNodes CssNode.marginTop name := toNat_add hy htop (by omega)
    have hstartW := startBlock_width previousSibling hw hleft hright hle
    obtain ⟨laid, hlaid, hcolumn, hgoods⟩ := calculateChildren_spec hnodes
      (startBlock block.contentFrame previousSibling box) none _ _ _ hsub hstartX hstartW hstartY
      (by omega) (by omega)
    have hsum := hcolumn.sum (by omega)
    rw [Nat.add_sub_cancel_left] at hsum
    have hfinished : calculateFrame fuel block previousSibling (.mk box nodes) = some (block,
        .mk (finishBlock (startBlock block.contentFrame previousSibling box) laid) laid) := by
      rw [calculateFrame, hbox]
      show (calculateChildren fuel (startBlock block.contentFrame previousSibling box) none
        nodes).bind _ = _
      rw [hlaid]
      rfl
    have hcontent : At (finishBlock (startBlock block.contentFrame previousSibling box)
        laid).contentFrame (x + marginOf cssNodes CssNode.marginLeft name)
        (y + marginOf cssNodes CssNode.marginTop name)
        (w - (marginOf cssNodes CssNode.marginLeft name +
          marginOf cssNodes CssNode.marginRight name)) (heights cssNodes doms) :=
      ⟨hstartX, hstartY, hstartW, hsum, by omega, by omega⟩
    refine ⟨_, hfinished, ⟨hx, hy, hw, ?_, hxw, by exact hyh⟩, hbox, ?_, ?_⟩
    · exact toNat_add (toNat_add hsum htop (by omega)) hbottom (by omega)
    · show (startBlock block.contentFrame previousSibling box).contentFrame.width.toNat +
        box.marginLeft.toNat + box.marginRight.toNat = w
      omega
    · refine .mk ⟨fun child hchild _ => ?_, ?_, fun child hchild => ?_, ?_⟩
        fun child hchild => (hgoods child hchild).2.2
      · exact ((hgoods child hchild).2.1).trans hstartW.symm
      · exact hcolumn.pairwise.sublist List.filter_sublist
      · obtain ⟨y', h', hat, hle, hle'⟩ := hcolumn.exists_at hchild
        exact hat.inside hcontent le_rfl hle le_rfl hle'
      · intro lineBox hlineBox
        change lineBox ∈ box.lineBoxes at hlineBox
        rw [hlines] at hlineBox
        cases hlineBox

theorem blockChildrenFrom_spec (cssNodes : List CssNode) (fuel : ℕ) (block : Box)
    (needsWrapping : Bool) : ∀ (doms : List DomNode),
    (∀ dom ∈ doms, layoutModeFor dom = some .blockLayout) →
    (∀ dom ∈ doms, ∀ parent, ∃ node, layoutNodeFrom cssNodes parent dom = some node ∧
      LaysOut cssNodes fuel dom node) →
    ∃ nodes, blockChildrenFrom cssNodes block needsWrapping doms = some nodes ∧
      List.Forall₂ (LaysOut cssNodes fuel) doms nodes := by
  intro doms
  induction doms with
  | nil => exact fun _ _ => ⟨[], rfl, .nil⟩
  | cons dom doms ih =>
    intro hmodes hspecs
    obtain ⟨node, hnode, hlays⟩ := hspecs dom List.mem_cons_self block
    obtain ⟨nodes, hnodes, hall⟩ := ih (fun d hd => hmodes d (List.mem_cons_of_mem dom hd))
      fun d hd => hspecs d (List.mem_cons_of_mem dom hd)
    refine ⟨node :: nodes, ?_, .cons hlays hall⟩
    have hdirect : ¬(layoutModeFor dom = some .inlineLayout ∧ needsWrapping) := by
      rintro ⟨hmode, -⟩
      rw [hmodes dom List.mem_cons_self] at hmode
      cases hmode
    rw [blockChildrenFrom, if_neg hdirect, hnode, hnodes]
    rfl

theorem BlockPage.mode (h : BlockPage dom) : layoutModeFor dom = some .blockLayout := by
  cases h with
  | mk hmode => exact hmode

/-- A page of blocks is laid out wherever there is room. -/
theorem BlockPage.laysOut (cssNodes : List CssNode) (fuel : ℕ) (h : BlockPage dom) :
    ∀ parent, ∃ node, layoutNodeFrom cssNodes parent dom = some node ∧
      LaysOut cssNodes fuel dom node := by
  induction h with
  | @mk type name doms hmode hsub ih =>
    intro parent
    obtain ⟨nodes, hnodes, hall⟩ := blockChildrenFrom_spec cssNodes fuel
      (createNode cssNodes parent .blockLayout (some name))
      (doms.any fun child => layoutModeFor child = some .blockLayout) doms
      (fun dom hdom => (hsub dom hdom).mode) ih
    obtain ⟨htop, hbottom, hleft, hright⟩ := createNode_margins cssNodes parent
      .blockLayout name
    obtain ⟨hbox, hlines, -⟩ := createNode_rest cssNodes parent .blockLayout (some name)
    refine ⟨_, ?_, laysOut_block hmode hbox hlines htop hbottom hleft hright hall⟩
    rw [layoutNodeFrom, hmode]
    dsimp only
    rw [hnodes]
    rfl

end Blocks

/-! ### Only pages of blocks -/

section Necessity

variable {cssNodes : List CssNode} {fuel : ℕ}

theorem DomNode.induction {P : DomNode → Prop}
    (mk : ∀ type name children, (∀ child ∈ children, P child) → P (.mk type name children)) :
    ∀ dom, P dom :=
  fun dom => @DomNode.rec P (fun children => ∀ child ∈ children, P child) mk
    (fun child hchild => by cases hchild)
    (fun child rest hchild hrest c hc => by
      rcases List.mem_cons.mp hc with rfl | hmem
      · exact hchild
      · exact hrest c hmem) dom

variable {block block' : Box} {laid node : LayoutNode} {previousSibling : Option Rect}
  {outer : Rect} {x : ℕ}

/-- Laying out a child may put lines into its block, and leaves the block's frame. -/
theorem calculateFrame_contentFrame
    (h : calculateFrame fuel block previousSibling node = some (block', laid)) :
    block'.contentFrame = block.contentFrame := by
  obtain ⟨box, children⟩ := node
  rw [calculateFrame] at h
  split at h
  · obtain ⟨⟨started, children'⟩, -, h⟩ := Option.bind_eq_some_iff.mp h
    cases h
    rfl
  · cases h
    rfl
  · obtain ⟨lineBoxes, -, h⟩ := Option.bind_eq_some_iff.mp h
    cases h
    rfl
  · cases h

/-- What has become of a node that is no block: it has not got a frame. -/
theorem calculateFrame_other
    (h : calculateFrame fuel block previousSibling node = some (block', laid))
    (hmode : node.box.mode ≠ .blockLayout) : laid = node := by
  obtain ⟨box, children⟩ := node
  rw [calculateFrame] at h
  split at h
  · rename_i hblock
    exact absurd hblock hmode
  · cases h
    rfl
  · obtain ⟨lineBoxes, -, h⟩ := Option.bind_eq_some_iff.mp h
    cases h
    rfl
  · cases h

theorem calculateChildren_mem : ∀ {nodes : List LayoutNode} {block block' : Box}
    {previousSibling : Option Rect} {laid : List LayoutNode},
    calculateChildren fuel block previousSibling nodes = some (block', laid) →
    block'.contentFrame = block.contentFrame ∧ ∀ node ∈ nodes, ∃ child ∈ laid,
      ∃ block₁ block₂ prev, block₁.contentFrame = block.contentFrame ∧
        calculateFrame fuel block₁ prev node = some (block₂, child) := by
  intro nodes
  induction nodes with
  | nil =>
    intro block block' previousSibling laid h
    cases h
    exact ⟨rfl, fun node hnode => by cases hnode⟩
  | cons node nodes ih =>
    intro block block' previousSibling laid h
    obtain ⟨⟨block₁, child⟩, hchild, h⟩ := Option.bind_eq_some_iff.mp h
    obtain ⟨⟨block₂, rest⟩, hrest, h⟩ := Option.bind_eq_some_iff.mp h
    cases h
    have hsame := calculateFrame_contentFrame hchild
    obtain ⟨hcontent, hall⟩ := ih hrest
    refine ⟨hcontent.trans hsame, fun n hn => ?_⟩
    rcases List.mem_cons.mp hn with rfl | hmem
    · exact ⟨child, List.mem_cons_self, block, _, previousSibling, rfl, hchild⟩
    · obtain ⟨c, hc, b₁, b₂, prev, hb₁, hcalc⟩ := hall n hmem
      exact ⟨c, List.mem_cons_of_mem child hc, b₁, b₂, prev, hb₁.trans hsame, hcalc⟩

theorem calculateFrame_block {box : Box} {nodes : List LayoutNode}
    (h : calculateFrame fuel block previousSibling (.mk box nodes) = some (block', laid))
    (hmode : box.mode = .blockLayout) :
    ∃ finished children,
      laid = .mk finished children ∧
      finished.contentFrame.x = block.contentFrame.x + box.marginLeft ∧
      ∀ node ∈ nodes, ∃ child ∈ children, ∃ block₁ block₂ prev,
        block₁.contentFrame = (startBlock block.contentFrame previousSibling box).contentFrame ∧
        calculateFrame fuel block₁ prev node = some (block₂, child) := by
  rw [calculateFrame, hmode] at h
  obtain ⟨⟨started, children⟩, hchildren, h⟩ := Option.bind_eq_some_iff.mp h
  cases h
  obtain ⟨hcontent, hall⟩ := calculateChildren_mem hchildren
  refine ⟨_, _, rfl, ?_, hall⟩
  show started.contentFrame.x = _
  rw [hcontent]
  rfl

/-- A child without a frame is not inside a block that begins right of the window's edge. -/
theorem not_inside_zero (hx : outer.x.toNat = x) (hpos : 1 ≤ x) (hlt : x < 2 ^ 31) :
    ¬Inside Rect.zero outer := by
  intro h
  have hleft := h.left
  rw [toInt_eq hx hlt] at hleft
  have hzero : Rect.zero.x.toInt = 0 := by decide
  omega

/-- The node made for a DOM node has its mode, and no frame yet. -/
theorem layoutNodeFrom_box {parent : Box} {dom : DomNode}
    (h : layoutNodeFrom cssNodes parent dom = some node) :
    layoutModeFor dom = some node.box.mode ∧ node.box.marginFrame = Rect.zero := by
  have hnew : ∀ mode domName,
      some mode = some (createNode cssNodes parent mode domName).mode ∧
        (createNode cssNodes parent mode domName).marginFrame = Rect.zero := by
    intro mode domName
    obtain ⟨hmode, -, hframe⟩ := createNode_rest cssNodes parent mode domName
    exact ⟨by rw [hmode], hframe⟩
  obtain ⟨type, name, children⟩ := dom
  rw [layoutNodeFrom] at h
  split at h
  · rename_i hmode
    obtain ⟨nodes, -, rfl⟩ := Option.map_eq_some_iff.mp h
    rw [hmode]
    exact hnew .blockLayout (some name)
  · rename_i hmode
    obtain ⟨nodes, -, rfl⟩ := Option.map_eq_some_iff.mp h
    rw [hmode]
    exact hnew .inlineLayout (some name)
  · rename_i hmode
    split at h
    · cases h
      rw [hmode]
      exact hnew .textLayout (some name)
    · cases h
  · cases h

/-- What has been made for each child of a block: its node, or an anonymous block around it. -/
theorem blockChildrenFrom_mem (block : Box) (needsWrapping : Bool) :
    ∀ {doms : List DomNode} {nodes : List LayoutNode},
      blockChildrenFrom cssNodes block needsWrapping doms = some nodes → ∀ dom ∈ doms,
      (∃ node ∈ nodes, layoutNodeFrom cssNodes block dom = some node) ∨
        ∃ node, LayoutNode.mk (createNode cssNodes block .blockLayout none) [node] ∈ nodes ∧
          layoutModeFor dom = some .inlineLayout ∧
          layoutNodeFrom cssNodes (createNode cssNodes block .blockLayout none) dom =
            some node := by
  intro doms
  induction doms with
  | nil => exact fun _ dom hdom => by cases hdom
  | cons dom doms ih =>
    intro nodes h d hd
    obtain ⟨node, hnode, h⟩ := Option.bind_eq_some_iff.mp h
    obtain ⟨rest, hrest, rfl⟩ := Option.map_eq_some_iff.mp h
    rcases List.mem_cons.mp hd with rfl | hmem
    · split at hnode
      · rename_i hwrap
        obtain ⟨n, hn, rfl⟩ := Option.map_eq_some_iff.mp hnode
        exact Or.inr ⟨n, List.mem_cons_self, hwrap.1, hn⟩
      · exact Or.inl ⟨node, List.mem_cons_self, hnode⟩
    · rcases ih hrest d hmem with ⟨n, hn, heq⟩ | ⟨n, hn, hmode, heq⟩
      · exact Or.inl ⟨n, List.mem_cons_of_mem node hn, heq⟩
      · exact Or.inr ⟨n, List.mem_cons_of_mem node hn, hmode, heq⟩

/-- Where a block is laid out properly, its children are blocks. -/
theorem mode_of_inside {node child : LayoutNode} {block₁ block₂ : Box} {prev : Option Rect}
    (hframe : node.box.marginFrame = Rect.zero)
    (hcalc : calculateFrame fuel block₁ prev node = some (block₂, child))
    (hinside : Inside child.box.marginFrame outer) (hx : outer.x.toNat = x) (hpos : 1 ≤ x)
    (hlt : x < 2 ^ 31) : node.box.mode = .blockLayout := by
  by_contra hmode
  rw [calculateFrame_other hcalc hmode, hframe] at hinside
  exact not_inside_zero hx hpos hlt hinside

theorem blockPage_of_proper : ∀ (dom : DomNode) {parent block block' : Box}
    {previousSibling : Option Rect} {node laid : LayoutNode} {x w : ℕ},
    layoutNodeFrom cssNodes parent dom = some node →
    calculateFrame fuel block previousSibling node = some (block', laid) → ProperTree laid →
    layoutModeFor dom = some .blockLayout → FitsWidth cssNodes w dom →
    block.contentFrame.x.toNat = x → block.contentFrame.width.toNat = w → 1 ≤ x →
    x + w < 2 ^ 31 → BlockPage dom := by
  intro dom
  induction dom using DomNode.induction with
  | mk type name doms ih =>
    intro parent block block' previousSibling node laid x w hnode hlaid hproper hmode hfits hx hw
      hpos hxw
    cases hfits with
    | other hnot => exact absurd hmode hnot
    | block _ hle hsub =>
      rw [layoutNodeFrom, hmode] at hnode
      obtain ⟨nodes, hnodes, rfl⟩ := Option.map_eq_some_iff.mp hnode
      obtain ⟨-, -, hleft, hright⟩ := createNode_margins cssNodes parent
        .blockLayout name
      obtain ⟨hbox, -, -⟩ := createNode_rest cssNodes parent .blockLayout (some name)
      obtain ⟨finished, children, rfl, hfx, hall⟩ := calculateFrame_block hlaid hbox
      have hfinishedX : finished.contentFrame.x.toNat =
          x + marginOf cssNodes CssNode.marginLeft name := by
        rw [hfx]
        exact toNat_add hx hleft (by omega)
      cases hproper with
      | mk hroot hsubtrees =>
        refine .mk hmode fun dom hdom => ?_
        rcases blockChildrenFrom_mem _ _ hnodes dom hdom with ⟨n, hn, hfrom⟩ |
          ⟨n, hn, hinline, hfrom⟩
        · obtain ⟨child, hchild, block₁, block₂, prev, hcontent, hcalc⟩ := hall n hn
          obtain ⟨hdomMode, hframe⟩ := layoutNodeFrom_box hfrom
          rw [mode_of_inside hframe hcalc (hroot.inside child hchild) hfinishedX (by omega)
            (by omega)] at hdomMode
          have hx₁ : block₁.contentFrame.x.toNat =
              x + marginOf cssNodes CssNode.marginLeft name := by
            rw [hcontent]
            exact toNat_add hx hleft (by omega)
          have hw₁ : block₁.contentFrame.width.toNat = w -
              (marginOf cssNodes CssNode.marginLeft name +
                marginOf cssNodes CssNode.marginRight name) := by
            rw [hcontent]
            exact startBlock_width previousSibling hw hleft hright hle
          exact ih dom hdom hfrom hcalc (hsubtrees child hchild) hdomMode (hsub dom hdom) hx₁ hw₁
            (by omega) (by omega)
        · -- an inline node in an anonymous block
          obtain ⟨child, hchild, block₁, block₂, prev, hcontent, hcalc⟩ := hall _ hn
          obtain ⟨hanonymous, -, -⟩ := createNode_rest cssNodes
            (createNode cssNodes parent .blockLayout (some name)) .blockLayout none
          obtain ⟨wrapper, inner, rfl, hwx, hinner⟩ := calculateFrame_block hcalc hanonymous
          obtain ⟨c, hc, block₃, block₄, prev', -, hcalc'⟩ := hinner n (List.mem_singleton_self n)
          obtain ⟨hdomMode, hframe⟩ := layoutNodeFrom_box hfrom
          have hwrapperX : wrapper.contentFrame.x.toNat =
              x + marginOf cssNodes CssNode.marginLeft name := by
            have hzero : (createNode cssNodes (createNode cssNodes parent .blockLayout
              (some name)) .blockLayout none).marginLeft.toNat = 0 := rfl
            have hsum := toNat_add (toNat_add hx hleft (by omega)) hzero (by omega)
            rw [hwx, hcontent]
            exact hsum
          cases hsubtrees _ hchild with
          | mk hproper _ =>
            rw [mode_of_inside hframe hcalc' (hproper.inside c hc) hwrapperX (by omega) (by omega),
              hinline] at hdomMode
            cases hdomMode

end Necessity

/-! ### Whole pages -/

section Pages

variable {cssNodes : List CssNode}

/-- The body of a page. -/
def domBody (root : DomNode) : Option DomNode :=
  (htmlChildTagWithName root "html").bind fun html => htmlChildTagWithName html "body"

/-- The window is wide enough for the margins of the root and of all blocks. -/
structure WideEnough (cssNodes : List CssNode) (windowWidth : Word) (body : DomNode) : Prop where
  le : 20 ≤ windowWidth.toNat
  fits : FitsWidth cssNodes (windowWidth.toNat - 20) body

theorem sameTag_body {name : String}
    (h : name.toList.map Char.toLower = "body".toList) : sameTag name "body" = true := by
  unfold sameTag
  rw [h]
  decide

variable {body root : DomNode} {fuel : ℕ} {windowWidth : Word}

theorem layoutModeFor_body (h : domBody root = some body) :
    layoutModeFor body = some .blockLayout := by
  obtain ⟨html, -, hbody⟩ := Option.bind_eq_some_iff.mp h
  have hfound := List.find?_some hbody
  simp only [decide_eq_true_eq] at hfound
  unfold layoutModeFor
  rw [hfound.1]
  rw [if_pos]
  exact List.any_eq_true.mpr ⟨"body", by decide, sameTag_body hfound.2⟩

theorem layoutGenerate_eq (h : domBody root = some body) :
    layoutGenerate fuel root cssNodes windowWidth =
      (layoutNodeFrom cssNodes rootNode body).bind (calculateTree fuel windowWidth) := by
  obtain ⟨html, hhtml, hbody⟩ := Option.bind_eq_some_iff.mp h
  unfold layoutGenerate
  rw [hhtml]
  dsimp only [Option.bind_eq_bind, Option.bind_some]
  rw [hbody, Option.bind_some]

/-- The root as the body is laid out in it. -/
def startRoot (windowWidth : Word) : Box :=
  { rootNode with
    marginFrame := ⟨0, 0, windowWidth, 0⟩
    contentFrame := ⟨rootNode.marginLeft, rootNode.marginTop,
      windowWidth - rootNode.marginLeft - rootNode.marginRight, 0⟩ }

theorem startRoot_width (hle : 20 ≤ windowWidth.toNat) :
    (startRoot windowWidth).contentFrame.width.toNat = windowWidth.toNat - 20 :=
  @startBlock_width rootNode ⟨0, 0, windowWidth, 0⟩ none _ 10 10 rfl rfl rfl hle

/-- The width of the window and the height of the page are signed words. -/
def SignedWords (cssNodes : List CssNode) (windowWidth : Word) (body : DomNode) : Prop :=
  windowWidth.toNat < 2 ^ 31 ∧ height cssNodes body + 16 < 2 ^ 31

/-- **A page of blocks is a proper tree (proved)**, in a window that is wide enough. -/
theorem layoutGenerate_proper (hbody : domBody root = some body)
    (hwide : WideEnough cssNodes windowWidth body) (hblocks : BlockPage body)
    (hsigned : SignedWords cssNodes windowWidth body) (fuel : ℕ) :
    ∃ tree, layoutGenerate fuel root cssNodes windowWidth = some tree ∧ ProperTree tree := by
  have hle := hwide.le
  obtain ⟨hlt, hheight⟩ := hsigned
  obtain ⟨node, hnode, hlays⟩ := hblocks.laysOut cssNodes fuel rootNode
  obtain ⟨laid, hlaid, hat, hmode, hwidths, hproper⟩ := hlays (startRoot windowWidth) none 10 8
    (windowWidth.toNat - 20) hwide.fits rfl (startRoot_width hle) rfl (by omega) (by omega)
  have htree : calculateTree fuel windowWidth node = some (.mk { startRoot windowWidth with
      contentFrame := { (startRoot windowWidth).contentFrame with
        height := laid.box.marginFrame.height }
      marginFrame := { (startRoot windowWidth).marginFrame with
        height := laid.box.marginFrame.height + verticalStep + verticalStep } } [laid]) := by
    show (calculateFrame fuel (startRoot windowWidth) none node).bind _ = _
    rw [hlaid]
    rfl
  refine ⟨_, by rw [layoutGenerate_eq hbody, hnode, Option.bind_some, htree], .mk ?_ ?_⟩
  · have hroot : At ⟨rootNode.marginLeft, rootNode.marginTop,
        windowWidth - rootNode.marginLeft - rootNode.marginRight, laid.box.marginFrame.height⟩
        10 8 (windowWidth.toNat - 20) (height cssNodes body) :=
      ⟨rfl, rfl, startRoot_width hle, hat.height_eq, by omega, by omega⟩
    refine ⟨fun child hchild _ => ?_, ?_, fun child hchild => ?_, fun lineBox hline => ?_⟩
    · rw [List.mem_singleton.mp hchild, hwidths]
      exact (startRoot_width hle).symm
    · exact (List.pairwise_singleton _ laid).sublist List.filter_sublist
    · rw [List.mem_singleton.mp hchild]
      exact hat.inside hroot le_rfl le_rfl le_rfl le_rfl
    · cases hline
  · intro child hchild
    rw [List.mem_singleton.mp hchild]
    exact hproper

/-- A page that is a proper tree has blocks only. -/
theorem blockPage_of_layoutGenerate {tree : LayoutNode} (hbody : domBody root = some body)
    (hwide : WideEnough cssNodes windowWidth body) (hlt : windowWidth.toNat < 2 ^ 31)
    (htree : layoutGenerate fuel root cssNodes windowWidth = some tree)
    (hproper : ProperTree tree) : BlockPage body := by
  have hle := hwide.le
  rw [layoutGenerate_eq hbody] at htree
  obtain ⟨node, hnode, htree⟩ := Option.bind_eq_some_iff.mp htree
  obtain ⟨⟨root', laid⟩, hlaid, htree⟩ := Option.bind_eq_some_iff.mp htree
  cases htree
  have hleft : (startRoot windowWidth).contentFrame.x.toNat = 10 := rfl
  cases hproper with
  | mk _ hsubtrees =>
    exact blockPage_of_proper body hnode hlaid (hsubtrees laid List.mem_cons_self)
      (layoutModeFor_body hbody) hwide.fits hleft (startRoot_width hle) (by omega) (by omega)

/-- **Only pages of blocks are proper trees (proved).**  They are, as far as their sizes are signed
words. -/
theorem layout_iff (root body : DomNode) (cssNodes : List CssNode) (windowWidth : Word)
    (hbody : domBody root = some body) (hwide : WideEnough cssNodes windowWidth body) :
    (BlockPage body ∧ SignedWords cssNodes windowWidth body → ∀ fuel, ∃ tree,
        layoutGenerate fuel root cssNodes windowWidth = some tree ∧ ProperTree tree) ∧
      (windowWidth.toNat < 2 ^ 31 → (∃ fuel tree,
        layoutGenerate fuel root cssNodes windowWidth = some tree ∧ ProperTree tree) →
          BlockPage body) := by
  constructor
  · exact fun h fuel => layoutGenerate_proper hbody hwide h.1 h.2 fuel
  · rintro hlt ⟨fuel, tree, htree, hproper⟩
    exact blockPage_of_layoutGenerate hbody hwide hlt htree hproper

end Pages

/-- A page with a body. -/
def pageOf (children : List DomNode) : DomNode :=
  .mk .document "" [.mk .htmlTag "html" [.mk .htmlTag "body" children]]

def paragraphRule : CssNode := ⟨"p", some 5, some 5, some 3, some 4, none⟩

theorem paragraphs_wideEnough : WideEnough [paragraphRule] 100
    (.mk .htmlTag "body" [.mk .htmlTag "p" [], .mk .htmlTag "p" []]) := by
  have hp : ∀ available, 7 ≤ available →
      FitsWidth [paragraphRule] available (.mk .htmlTag "p" []) := fun available hle =>
    .block (by decide +kernel) hle fun child hchild => by cases hchild
  refine ⟨by decide, .block (by decide +kernel) (Nat.zero_le _) fun child hchild => ?_⟩
  rcases List.mem_cons.mp hchild with rfl | hmem
  · exact hp _ (by decide)
  · rw [List.mem_singleton.mp hmem]
    exact hp _ (by decide)

theorem paragraphs_blockPage :
    BlockPage (.mk .htmlTag "body" [.mk .htmlTag "p" [], .mk .htmlTag "p" []]) := by
  have hp : BlockPage (.mk .htmlTag "p" []) :=
    .mk (by decide +kernel) fun child hchild => by cases hchild
  refine .mk (by decide +kernel) fun child hchild => ?_
  rcases List.mem_cons.mp hchild with rfl | hmem
  · exact hp
  · rw [List.mem_singleton.mp hmem]
    exact hp

theorem paragraphs_proper : ∃ tree,
    layoutGenerate 0 (pageOf [.mk .htmlTag "p" [], .mk .htmlTag "p" []]) [paragraphRule] 100 =
      some tree ∧ ProperTree tree :=
  (layout_iff (pageOf [.mk .htmlTag "p" [], .mk .htmlTag "p" []])
    (.mk .htmlTag "body" [.mk .htmlTag "p" [], .mk .htmlTag "p" []]) [paragraphRule] 100
    rfl paragraphs_wideEnough).1 ⟨paragraphs_blockPage, by decide, by decide +kernel⟩ 0

/-- A text in the body has no frame. -/
theorem text_notProper : WideEnough [] 100 (.mk .htmlTag "body" [.mk .text "a" []]) ∧
    ¬∃ fuel tree, layoutGenerate fuel (pageOf [.mk .text "a" []]) [] 100 = some tree ∧
      ProperTree tree := by
  have hwide : WideEnough [] 100 (.mk .htmlTag "body" [.mk .text "a" []]) := by
    refine ⟨by decide, .block (by decide +kernel) (Nat.zero_le _) fun child hchild => ?_⟩
    rw [List.mem_singleton.mp hchild]
    exact .other (by decide)
  refine ⟨hwide, ?_⟩
  rintro ⟨fuel, tree, htree, hproper⟩
  cases blockPage_of_layoutGenerate rfl hwide (by decide) htree hproper with
  | mk _ hsub =>
    have hmode := (hsub _ List.mem_cons_self).mode
    cases hmode

end Axle.Netclient.Layout
