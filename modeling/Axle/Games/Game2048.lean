import Axle.Lib.BinaryWeight
import Axle.Lib.StepRun
import Mathlib.Logic.Function.Basic
import Mathlib.Tactic

/-!
# The game 2048

A key press slides all tiles one way, each as far as it goes, and then puts a new piece on a free
square.  When no square is free after the slide the game is taken to be over and starts anew.

What is drawn is left out.  Of the clock only counts whether all animations are over, which an
event says; so do the results of `rand`.

* `Lawful` — what a turn must be like;
* `game_iff` — **PROVED**: a game never fails an assertion, and all its turns are `Lawful` if and
  only if they are `StillOpen`.

`_is_game_over` looks for free squares only.  A full board with equal neighbours is given up when
the key pressed happens to move nothing on it.
-/

namespace Axle.Games.Game2048

open Finset Function
open Axle.Lib.StepRun Axle.Lib.BinaryWeight

/-! ### The board -/

def tileCount : ℕ := 16
def tilesPerRow : ℕ := 4
def tilesPerCol : ℕ := 4
def tileRows : ℕ := tileCount / tilesPerRow
def tileCols : ℕ := tileCount / tilesPerCol

inductive SlideDirection where
  | left
  | right
  | up
  | down
  deriving DecidableEq, Repr

inductive SlideAction where
  | slideToEmptySquare
  | slideAndCombine
  | slideNotAllowed
  deriving DecidableEq, Repr

structure Tile where
  isOccupied : Bool
  value : BitVec 32
  alreadyCombinedThisTurn : Bool
  deriving DecidableEq, Repr

/-- The array of tiles: what stands at an index below `tileCount`. -/
abbrev Tiles := ℕ → Tile

/-- The pending animations are given by their `tile_pos`. -/
structure GameState where
  tiles : Tiles
  animationsOngoing : Bool
  pendingAnimations : List ℕ

/-! ### Counting loops -/

/-- `for (i = start; i < stop; i += step)` -/
def upTo (start stop step : ℕ) : List ℕ :=
  List.range' start ((stop + step - 1 - start) / step) step

/-- `for (i = start; i >= stop; i -= step)` -/
def downTo (start stop step : ℕ) : List ℕ :=
  (List.range ((start + step - stop) / step)).map fun k => start - k * step

/-! ### Sliding one tile -/

/-- The assertions on where a tile is that could be combined with its destination. -/
def positioned : SlideDirection → ℕ → ℕ → Bool
  | .left, tileIdx, destinationIdx =>
    destinationIdx < tileIdx && tileIdx - destinationIdx ≤ tilesPerRow
  | .right, tileIdx, destinationIdx =>
    tileIdx < destinationIdx && destinationIdx - tileIdx ≤ tilesPerRow
  | .up, tileIdx, destinationIdx =>
    let tileRow := tileIdx / tilesPerRow
    let destRow := destinationIdx / tilesPerRow
    destinationIdx < tileIdx && destRow < tileRow &&
      tileRow / tilesPerCol == destRow / tilesPerCol
  | .down, tileIdx, destinationIdx =>
    let tileRow := tileIdx / tilesPerRow
    let destRow := destinationIdx / tilesPerRow
    tileIdx < destinationIdx && tileRow < destRow &&
      tileRow / tilesPerCol == destRow / tilesPerCol

/-- The squares that must be free for the two to combine. -/
def inBetween : SlideDirection → ℕ → ℕ → List ℕ
  | .left, tileIdx, destinationIdx => downTo (tileIdx - 1) (destinationIdx + 1) 1
  | .right, tileIdx, destinationIdx => downTo (destinationIdx - 1) (tileIdx + 1) 1
  | .up, tileIdx, destinationIdx => downTo (tileIdx - tilesPerRow) (destinationIdx + 1) tilesPerRow
  | .down, tileIdx, destinationIdx =>
    downTo (destinationIdx - tilesPerRow) (tileIdx + 1) tilesPerRow

def slidePossibility (tiles : Tiles) (tileIdx destinationIdx : ℕ) (direction : SlideDirection) :
    Option SlideAction :=
  let tile := tiles tileIdx
  let destination := tiles destinationIdx
  if tile.isOccupied = false then none
  else if destination.isOccupied then
    if tile.value = destination.value then
      if !tile.alreadyCombinedThisTurn && !destination.alreadyCombinedThisTurn then
        if positioned direction tileIdx destinationIdx then
          if (inBetween direction tileIdx destinationIdx).any fun i => (tiles i).isOccupied then
            some .slideNotAllowed
          else some .slideAndCombine
        else none
      else some .slideNotAllowed
    else some .slideNotAllowed
  else some .slideToEmptySquare

/-- The tile leaves its square. -/
def leave (tiles : Tiles) (tileIdx : ℕ) : Tiles :=
  update tiles tileIdx { tiles tileIdx with isOccupied := false }

def trySlide (tiles : Tiles) (tileIdx destinationIdx : ℕ) (direction : SlideDirection) :
    Option (Tiles × Bool) :=
  (slidePossibility tiles tileIdx destinationIdx direction).map fun result =>
    let tile := tiles tileIdx
    let destination := tiles destinationIdx
    match result with
    | .slideToEmptySquare =>
      (update (leave tiles tileIdx) destinationIdx
        { destination with isOccupied := true, value := tile.value }, true)
    | .slideAndCombine =>
      (update (leave tiles tileIdx) destinationIdx
        { destination with
          value := destination.value + tile.value, alreadyCombinedThisTurn := true }, true)
    | .slideNotAllowed => (tiles, false)

/-- `array_insert` fails when the array of `tileCount` elements is full. -/
def enqueueMoveAnimation (s : GameState) (tileIdx : ℕ) : Option GameState :=
  if s.pendingAnimations.length + 1 ≤ tileCount then
    some
      { s with
        animationsOngoing := true, pendingAnimations := s.pendingAnimations ++ [tileIdx] }
  else none

/-- The loop over the destinations, the farthest one first. -/
def slideInto (direction : SlideDirection) (tileIdx : ℕ) :
    List ℕ → GameState → Option (GameState × Bool)
  | [], s => some (s, false)
  | i :: rest, s =>
    (trySlide s.tiles tileIdx i direction).bind fun r =>
      if r.2 then (enqueueMoveAnimation { s with tiles := r.1 } i).map fun s' => (s', true)
      else slideInto direction tileIdx rest s

/-- What the four routines have in common; at the edge there are no destinations. -/
def slideTile (direction : SlideDirection) (s : GameState) (tileIdx : ℕ) (destinations : List ℕ) :
    Option (GameState × Bool) :=
  if (s.tiles tileIdx).isOccupied = false then some (s, false)
  else slideInto direction tileIdx destinations s

def slideTileLeft (s : GameState) (tileIdx : ℕ) : Option (GameState × Bool) :=
  let idxWithinRow := tileIdx % tilesPerCol
  let rowStart := tileIdx - idxWithinRow
  slideTile .left s tileIdx (if idxWithinRow = 0 then [] else upTo rowStart tileIdx 1)

def slideTileRight (s : GameState) (tileIdx rowEnd : ℕ) : Option (GameState × Bool) :=
  let idxWithinRow := tileIdx % tilesPerCol
  slideTile .right s tileIdx
    (if idxWithinRow = tilesPerRow - 1 then [] else downTo rowEnd (tileIdx + 1) 1)

def slideTileUp (s : GameState) (tileIdx colStart : ℕ) : Option (GameState × Bool) :=
  let idxWithinCol := tileIdx / tilesPerRow
  slideTile .up s tileIdx (if idxWithinCol = 0 then [] else upTo colStart tileIdx tilesPerRow)

def slideTileDown (s : GameState) (tileIdx colEnd : ℕ) : Option (GameState × Bool) :=
  let idxWithinCol := tileIdx / tilesPerRow
  slideTile .down s tileIdx
    (if idxWithinCol = tileRows - 1 then [] else downTo colEnd (tileIdx + 1) tilesPerRow)

/-! ### Sliding all tiles -/

section SlideEach

variable {α : Type}

/-- The loop over the tiles, with `found_tile_to_move`. -/
def slideEach (slide : GameState → α → Option (GameState × Bool)) :
    List α → GameState → Bool → Option (GameState × Bool)
  | [], s, found => some (s, found)
  | a :: rest, s, found => (slide s a).bind fun r => slideEach slide rest r.1 (found || r.2)

end SlideEach

def leftSlideAllTiles (s : GameState) : Option (GameState × Bool) :=
  slideEach slideTileLeft (upTo 0 tileCount 1) s false

/-- The tiles in their order, each with the end of its row. -/
def rightOrder : List (ℕ × ℕ) :=
  (upTo 0 tileRows 1).flatMap fun i =>
    let rowStart := i * tilesPerRow
    let rowEnd := (i + 1) * tilesPerRow - 1
    (downTo (rowEnd - 1) rowStart 1).map fun j => (j, rowEnd)

def rightSlideAllTiles (s : GameState) : Option (GameState × Bool) :=
  slideEach (fun s p => slideTileRight s p.1 p.2) rightOrder s false

/-- The tiles in their order, each with the start of its column. -/
def upOrder : List (ℕ × ℕ) :=
  (upTo 0 tileCols 1).flatMap fun colStart =>
    let colEnd := colStart + tilesPerRow * (tileCols - 1)
    (upTo (colStart + tilesPerRow) (colEnd + 1) tilesPerRow).map fun i => (i, colStart)

def upSlideAllTiles (s : GameState) : Option (GameState × Bool) :=
  slideEach (fun s p => slideTileUp s p.1 p.2) upOrder s false

/-- The tiles in their order, each with the end of its column. -/
def downOrder : List (ℕ × ℕ) :=
  (downTo (tileCols - 1) 0 1).flatMap fun colStart =>
    let colEnd := colStart + tilesPerRow * (tileCols - 1)
    (downTo (colEnd - tilesPerRow) colStart tilesPerRow).map fun i => (i, colEnd)

def downSlideAllTiles (s : GameState) : Option (GameState × Bool) :=
  slideEach (fun s p => slideTileDown s p.1 p.2) downOrder s false

def slideAllTiles : SlideDirection → GameState → Option (GameState × Bool)
  | .left => leftSlideAllTiles
  | .right => rightSlideAllTiles
  | .up => upSlideAllTiles
  | .down => downSlideAllTiles

/-! ### New pieces and new games -/

/-- The results of the two calls of `rand` for a new piece. -/
structure Draw where
  square : ℕ
  value : ℕ
  deriving DecidableEq, Repr

/-- "10% chance to get a 4" -/
def Draw.pieceValue (draw : Draw) : BitVec 32 := if draw.value % 10 = 1 then 4 else 2

def freeTileIdxs (tiles : Tiles) : List ℕ :=
  (List.range tileCount).filter fun i => !(tiles i).isOccupied

/-- Without a free tile the remainder is a division by zero. -/
def spawnRandomPiece (s : GameState) (draw : Draw) : Option GameState :=
  let free := freeTileIdxs s.tiles
  (free[draw.square % free.length]?).bind fun chosenTileIdx =>
    let chosenTile := s.tiles chosenTileIdx
    enqueueMoveAnimation
      { s with
        tiles := update s.tiles chosenTileIdx
          { chosenTile with isOccupied := true, value := draw.pieceValue } }
      chosenTileIdx

def isGameOver (tiles : Tiles) : Bool :=
  (List.range tileCount).all fun i => (tiles i).isOccupied

/-- `finished` says that all pending animations have ended by now. -/
def drawInProgressAnimations (s : GameState) (finished : Bool) : GameState :=
  if s.pendingAnimations = [] ∨ finished then
    { s with animationsOngoing := false, pendingAnimations := [] }
  else s

/-- The board of a new game, up to the drawing. -/
def deal (s : GameState) (first second : Draw) : Option GameState :=
  let cleared : GameState :=
    { s with tiles := fun i => { s.tiles i with isOccupied := false, value := 0 } }
  (spawnRandomPiece cleared first).bind fun s' => spawnRandomPiece s' second

def startNewGame (s : GameState) (first second : Draw) (finished : Bool) : Option GameState :=
  (deal s first second).map fun s' => drawInProgressAnimations s' finished

/-- The game as `main` starts it. -/
def newGame (first second : Draw) (finished : Bool) : Option GameState :=
  startNewGame ⟨fun _ => ⟨false, 0, false⟩, false, []⟩ first second finished

/-! ### Key presses -/

def resetTurnFlags (tiles : Tiles) : Tiles :=
  fun i => { tiles i with alreadyCombinedThisTurn := false }

/-- The arrow keys and their letters. -/
def directionOf (ch : BitVec 32) : Option SlideDirection :=
  if ch = 'a'.toNat ∨ ch = 0x997 then some .left
  else if ch = 's'.toNat ∨ ch = 0x996 then some .right
  else if ch = 'w'.toNat ∨ ch = 0x999 then some .up
  else if ch = 'r'.toNat ∨ ch = 0x998 then some .down
  else none

/-- The slide of a key press; other keys slide nothing. -/
def slideFor (s : GameState) (ch : BitVec 32) : Option (GameState × Bool) :=
  match directionOf ch with
  | some direction => slideAllTiles direction { s with tiles := resetTurnFlags s.tiles }
  | none => some ({ s with tiles := resetTurnFlags s.tiles }, false)

/-- `finishedNew` is for the drawing in `_start_new_game`. -/
def keyEntered (s : GameState) (ch : BitVec 32) (first second : Draw)
    (finishedNew finished : Bool) : Option GameState :=
  if s.animationsOngoing then some s
  else
    (slideFor s ch).bind fun slid =>
      let next :=
        if isGameOver slid.1.tiles then startNewGame slid.1 first second finishedNew
        else spawnRandomPiece slid.1 first
      next.map fun s' =>
        if s'.animationsOngoing then drawInProgressAnimations s' finished else s'

inductive Event where
  | key (ch : BitVec 32) (first second : Draw) (finishedNew finished : Bool)
  | timer (finished : Bool)

def step (s : GameState) : Event → Option GameState
  | .key ch first second finishedNew finished => keyEntered s ch first second finishedNew finished
  | .timer finished => some (drawInProgressAnimations s finished)

/-! ### What turns must be like -/

/-- Every occupied tile has a power of two, at least 2. -/
def PowersOfTwo (tiles : Tiles) : Prop :=
  ∀ i < tileCount, (tiles i).isOccupied = true → ∃ k, (tiles i).value.toNat = 2 * 2 ^ k

/-- What a square adds to the sum. -/
def Tile.worth (tile : Tile) : ℕ := if tile.isOccupied = true then tile.value.toNat else 0

/-- The sum of the values on the board. -/
def total (tiles : Tiles) : ℕ := ∑ i ∈ range tileCount, (tiles i).worth

/-- A slide in this direction would move or merge a tile. -/
def CanSlide (tiles : Tiles) (direction : SlideDirection) : Prop :=
  ∃ s', slideAllTiles direction ⟨resetTurnFlags tiles, false, []⟩ = some (s', true)

/-- The key press gives up the board and starts a new game. -/
def Resets (s : GameState) (ch : BitVec 32) : Prop :=
  s.animationsOngoing = false ∧ ∃ slid ∈ slideFor s ch, isGameOver slid.1.tiles = true

/-- The animations a turn has enqueued when its drawing starts. -/
def enqueued (s : GameState) (ch : BitVec 32) (first second : Draw) : Option (List ℕ) :=
  (slideFor s ch).bind fun slid =>
    (if isGameOver slid.1.tiles then deal slid.1 first second
      else spawnRandomPiece slid.1 first).map GameState.pendingAnimations

/-- The laws of a key press.  While animations are ongoing it is dropped, without a new piece. -/
structure LawfulKey (s : GameState) (ch : BitVec 32) (first second : Draw) (t : GameState) :
    Prop where
  powers : PowersOfTwo t.tiles
  dropped : s.animationsOngoing = true → t = s
  sum : s.animationsOngoing = false → ¬Resets s ch →
    total t.tiles = total s.tiles + first.pieceValue.toNat
  animations : s.animationsOngoing = false →
    ∃ pending, enqueued s ch first second = some pending ∧ pending.length ≤ tileCount
  givenUp : Resets s ch → ∀ direction, ¬CanSlide s.tiles direction

def Lawful (s : GameState) : Event → Prop
  | .key ch first second finishedNew finished =>
    ∀ t, keyEntered s ch first second finishedNew finished = some t →
      LawfulKey s ch first second t
  | .timer finished => (drawInProgressAnimations s finished).tiles = s.tiles

/-- The two squares are next to each other in the direction of the slide, or against it. -/
def Beside (direction : SlideDirection) (i j : ℕ) : Prop :=
  match direction with
  | .left | .right => i / tilesPerRow = j / tilesPerRow ∧ i + 1 = j
  | .up | .down => i + tilesPerRow = j

instance Beside.decidable : ∀ (direction : SlideDirection) (i j : ℕ),
    Decidable (Beside direction i j)
  | .left, _, _ | .right, _, _ => inferInstanceAs (Decidable (_ ∧ _))
  | .up, _, _ | .down, _, _ => inferInstanceAs (Decidable (_ = _))

def Full (tiles : Tiles) : Prop := ∀ i < tileCount, (tiles i).isOccupied = true

/-- Two tiles next to each other along the direction have the same value. -/
def EqualNeighbours (tiles : Tiles) (direction : SlideDirection) : Prop :=
  ∃ i < tileCount, ∃ j < tileCount, Beside direction i j ∧ (tiles i).value = (tiles j).value

/-- The key press finds a free square, or no equal neighbours, or slides equal neighbours into
each other (or is dropped). -/
def StillOpen (s : GameState) : Event → Prop
  | .key ch _ _ _ _ =>
    s.animationsOngoing = true ∨ ¬Full s.tiles ∨ (∀ direction, ¬EqualNeighbours s.tiles direction) ∨
      ∃ direction, directionOf ch = some direction ∧ EqualNeighbours s.tiles direction
  | .timer _ => True

/-! ### The squares of a slide -/

/-- The tiles of a slide in their order, each with its destinations. -/
def plan : SlideDirection → List (ℕ × List ℕ)
  | .left => (upTo 0 tileCount 1).map fun i =>
    (i, if i % tilesPerCol = 0 then [] else upTo (i - i % tilesPerCol) i 1)
  | .right => rightOrder.map fun p =>
    (p.1, if p.1 % tilesPerCol = tilesPerRow - 1 then [] else downTo p.2 (p.1 + 1) 1)
  | .up => upOrder.map fun p =>
    (p.1, if p.1 / tilesPerRow = 0 then [] else upTo p.2 p.1 tilesPerRow)
  | .down => downOrder.map fun p =>
    (p.1, if p.1 / tilesPerRow = tileRows - 1 then [] else downTo p.2 (p.1 + 1) tilesPerRow)

theorem slideEach_map {α β : Type} {slide : GameState → α → Option (GameState × Bool)}
    {slide' : GameState → β → Option (GameState × Bool)} {g : α → β}
    (h : ∀ s a, slide s a = slide' s (g a)) : ∀ (l : List α) (s : GameState) (found : Bool),
    slideEach slide l s found = slideEach slide' (l.map g) s found := by
  intro l
  induction l with
  | nil => exact fun _ _ => rfl
  | cons a l ih =>
    intro s found
    rw [List.map_cons, slideEach, slideEach, h]
    simp only [ih]

theorem slideAllTiles_eq (direction : SlideDirection) (s : GameState) :
    slideAllTiles direction s =
      slideEach (fun s p => slideTile direction s p.1 p.2) (plan direction) s false := by
  cases direction <;> exact slideEach_map (fun _ _ => rfl) _ _ _

/-- A tile and its destinations are squares that pass the assertions. -/
def WellPlanned (direction : SlideDirection) (tileIdx : ℕ) (destinations : List ℕ) : Prop :=
  tileIdx < tileCount ∧ ∀ x ∈ destinations, x < tileCount ∧ x ≠ tileIdx ∧
    positioned direction tileIdx x = true ∧ ∀ y ∈ inBetween direction tileIdx x, y < tileCount

theorem plan_wellPlanned (direction : SlideDirection) :
    ∀ p ∈ plan direction, WellPlanned direction p.1 p.2 := by
  unfold WellPlanned
  cases direction <;> decide

/-- The tiles that have a destination at all. -/
def movers (l : List (ℕ × List ℕ)) : ℕ := (l.filter fun p => !p.2.isEmpty).length

section

variable (direction : SlideDirection)

theorem movers_plan : movers (plan direction) = 12 := by
  cases direction <;> decide

theorem beside_of_plan :
    ∀ p ∈ plan direction, ∀ x ∈ p.2, inBetween direction p.1 x = [] →
      Beside direction p.1 x ∨ Beside direction x p.1 := by
  cases direction <;> decide

theorem plan_of_beside :
    ∀ i < tileCount, ∀ j < tileCount, Beside direction i j →
      ∃ p ∈ plan direction, ∃ x ∈ p.2, inBetween direction p.1 x = [] ∧
        (p.1 = i ∧ x = j ∨ p.1 = j ∧ x = i) := by
  cases direction <;> decide

end

/-! ### Sums over the board -/

/-- The number of pieces on the board. -/
def pieces (tiles : Tiles) : ℕ := ∑ i ∈ range tileCount, (tiles i).isOccupied.toNat

variable {j : ℕ} {tiles : Tiles} {s : GameState}

theorem sum_update (f : Tile → ℕ) (tiles : Tiles) (hj : j < tileCount) (tile : Tile) :
    (∑ i ∈ range tileCount, f (update tiles j tile i)) + f (tiles j) =
      (∑ i ∈ range tileCount, f (tiles i)) + f tile := by
  have hmem : j ∈ range tileCount := mem_range.mpr hj
  have hrest : ∑ i ∈ (range tileCount).erase j, f (update tiles j tile i) =
      ∑ i ∈ (range tileCount).erase j, f (tiles i) :=
    sum_congr rfl fun i hi => by rw [update_of_ne (ne_of_mem_erase hi)]
  rw [← add_sum_erase _ _ hmem, ← add_sum_erase _ (fun i => f (tiles i)) hmem, hrest,
    update_self]
  omega

theorem pieces_eq_of_full (h : Full tiles) : pieces tiles = tileCount := by
  have hone : ∀ i ∈ range tileCount, (tiles i).isOccupied.toNat = 1 := fun i hi => by
    rw [h i (mem_range.mp hi)]
    rfl
  rw [pieces, sum_congr rfl hone, sum_const, card_range, smul_eq_mul, Nat.mul_one]

theorem pieces_lt_of_free (hj : j < tileCount) (hfree : (tiles j).isOccupied = false) :
    pieces tiles < tileCount := by
  have hsum := sum_update (fun tile => tile.isOccupied.toNat) tiles hj ⟨true, 0, false⟩
  have hle : ∑ i ∈ range tileCount, (update tiles j ⟨true, 0, false⟩ i).isOccupied.toNat ≤
      ∑ _i ∈ range tileCount, 1 := sum_le_sum fun i _ => Bool.toNat_le _
  rw [sum_const, card_range, smul_eq_mul, Nat.mul_one] at hle
  rw [hfree] at hsum
  simp only [Bool.toNat_false, Bool.toNat_true] at hsum
  rw [pieces]
  omega

theorem full_iff_pieces (tiles : Tiles) : Full tiles ↔ pieces tiles = tileCount := by
  refine ⟨pieces_eq_of_full, fun h i hi => ?_⟩
  by_contra hocc
  exact absurd h (pieces_lt_of_free hi (Bool.eq_false_of_not_eq_true hocc)).ne

theorem pieces_le (tiles : Tiles) : pieces tiles ≤ tileCount := by
  refine (sum_le_sum fun i _ => Bool.toNat_le _).trans ?_
  rw [sum_const, card_range, smul_eq_mul, Nat.mul_one]

theorem isGameOver_iff (tiles : Tiles) : isGameOver tiles = true ↔ Full tiles := by
  simp [isGameOver, Full]

theorem worth_add_le (tiles : Tiles) {i j : ℕ} (hi : i < tileCount) (hj : j < tileCount)
    (hne : i ≠ j) : (tiles i).worth + (tiles j).worth ≤ total tiles := by
  have hpair : ∑ k ∈ ({i, j} : Finset ℕ), (tiles k).worth ≤ total tiles := by
    refine sum_le_sum_of_subset fun k hk => mem_range.mpr ?_
    rw [mem_insert, mem_singleton] at hk
    obtain rfl | rfl := hk
    · exact hi
    · exact hj
  rwa [sum_pair hne] at hpair

/-- **A board with a free square has room below 2^18 for the next piece (proved).**  Otherwise its
sum would have more ones in binary than there are pieces. -/
theorem total_add_lt (hpow : PowersOfTwo tiles) (hroom : pieces tiles < tileCount)
    (htotal : total tiles < 2 ^ 18) : total tiles + 4 < 2 ^ 18 := by
  have hweight : weight (total tiles) ≤ pieces tiles := by
    have hsum := weight_sum_le_card (range tileCount) (fun i => (tiles i).isOccupied = true)
      (fun i => (tiles i).value.toNat) fun i hi hocc => by
        obtain ⟨k, hk⟩ := hpow i (mem_range.mp hi) hocc
        exact ⟨k + 1, by rw [hk, Nat.pow_succ']⟩
    have hcount : pieces tiles =
        ∑ i ∈ range tileCount, if (tiles i).isOccupied = true then 1 else 0 :=
      sum_congr rfl fun i _ => by cases (tiles i).isOccupied <;> rfl
    rw [hcount]
    exact hsum
  have h16 := weight_pred_two_pow 16
  have h17 := weight_pred_two_pow 17
  have h18 := weight_pred_two_pow 18
  by_contra hbig
  have hcount : tileCount = 16 := rfl
  obtain h | h | h | h : total tiles = 2 * (2 * (2 ^ 16 - 1)) ∨
      total tiles = 2 * (2 * (2 ^ 16 - 1)) + 1 ∨ total tiles = 2 * (2 ^ 17 - 1) ∨
      total tiles = 2 ^ 18 - 1 := by omega
  · rw [h, weight_two_mul, weight_two_mul] at hweight
    omega
  · rw [h, weight_two_mul_add_one, weight_two_mul] at hweight
    omega
  · rw [h, weight_two_mul] at hweight
    omega
  · rw [h] at hweight
    omega

/-! ### What a slide does -/

/-- What sliding does to the board: the sum stays, and once a tile has moved a square is free. -/
structure Slides (s s' : GameState) (moved : Bool) : Prop where
  powers : PowersOfTwo s'.tiles
  total : total s'.tiles = total s.tiles
  pieces : pieces s'.tiles ≤ pieces s.tiles
  still : moved = false → s' = s
  room : moved = true → Game2048.pieces s'.tiles < tileCount

theorem Slides.refl (hpow : PowersOfTwo s.tiles) : Slides s s false :=
  ⟨hpow, rfl, le_rfl, fun _ => rfl, fun h => absurd h Bool.false_ne_true⟩

theorem Slides.trans {s u t : GameState} {m m' : Bool} (h : Slides s u m) (h' : Slides u t m') :
    Slides s t (m || m') where
  powers := h'.powers
  total := h'.total.trans h.total
  pieces := h'.pieces.trans h.pieces
  still := by
    intro hm
    rw [Bool.or_eq_false_iff] at hm
    rw [h'.still hm.2, h.still hm.1]
  room := by
    intro hm
    cases m' with
    | true => exact h'.room rfl
    | false =>
      rw [Bool.or_false] at hm
      rw [h'.still rfl]
      exact h.room hm

theorem Slides.still_of_full {s s' : GameState} {moved : Bool} (h : Slides s s' moved)
    (hfull : Full s'.tiles) : moved = false := by
  cases moved with
  | true => exact absurd (pieces_eq_of_full hfull) (h.room rfl).ne
  | false => rfl

section Squares

variable {s : GameState} {direction : SlideDirection} {tileIdx x : ℕ}

theorem sum_leave (f : Tile → ℕ) (tiles : Tiles) (ht : tileIdx < tileCount) (hx : x < tileCount)
    (hne : x ≠ tileIdx) (tile : Tile) :
    (∑ i ∈ range tileCount, f (update (leave tiles tileIdx) x tile i)) + f (tiles tileIdx) +
        f (tiles x) =
      (∑ i ∈ range tileCount, f (tiles i)) + f { tiles tileIdx with isOccupied := false } +
        f tile := by
  have hleave := sum_update f tiles ht { tiles tileIdx with isOccupied := false }
  have henter := sum_update f (leave tiles tileIdx) hx tile
  rw [show leave tiles tileIdx x = tiles x from update_of_ne hne _ _] at henter
  unfold leave at henter ⊢
  omega

section

variable (hpow : PowersOfTwo s.tiles)

include hpow

/-- A tile leaves its square, and its value goes to another one. -/
theorem slides_move (ht : tileIdx < tileCount) (hocc : (s.tiles tileIdx).isOccupied = true)
    (hx : x < tileCount) (hne : x ≠ tileIdx) {tile : Tile} (htile : tile.isOccupied = true)
    (hvalue : ∃ k, tile.value.toNat = 2 * 2 ^ k)
    (hworth : tile.worth = (s.tiles tileIdx).worth + (s.tiles x).worth) :
    Slides s { s with tiles := update (leave s.tiles tileIdx) x tile } true where
  powers := by
    intro i hi hocc'
    dsimp only at hocc' ⊢
    by_cases hix : i = x
    · subst hix
      rw [update_self]
      exact hvalue
    · rw [update_of_ne hix] at hocc' ⊢
      by_cases hit : i = tileIdx
      · subst hit
        rw [leave, update_self] at hocc'
        exact absurd hocc' Bool.false_ne_true
      · rw [leave, update_of_ne hit] at hocc' ⊢
        exact hpow i hi hocc'
  total := by
    have hsum := sum_leave Tile.worth s.tiles ht hx hne tile
    have hleft : ({ s.tiles tileIdx with isOccupied := false } : Tile).worth = 0 := rfl
    unfold total
    dsimp only
    omega
  pieces := by
    have hsum := sum_leave (fun tile => tile.isOccupied.toNat) s.tiles ht hx hne tile
    simp only [hocc, htile, Bool.toNat_true, Bool.toNat_false] at hsum
    unfold pieces
    dsimp only
    omega
  still := fun h => absurd h.symm Bool.false_ne_true
  room := by
    intro _
    refine pieces_lt_of_free ht ?_
    dsimp only
    rw [update_of_ne hne.symm, leave, update_self]

/-- One attempt.  Equal tiles are powers of two, and their sum does not wrap around. -/
theorem trySlide_spec (htotal : total s.tiles < 2 ^ 32) (ht : tileIdx < tileCount)
    (hocc : (s.tiles tileIdx).isOccupied = true) (hx : x < tileCount) (hne : x ≠ tileIdx)
    (hpos : positioned direction tileIdx x = true) :
    ∃ tiles' moved, trySlide s.tiles tileIdx x direction = some (tiles', moved) ∧
      Slides s { s with tiles := tiles' } moved := by
  obtain ⟨k, hk⟩ := hpow tileIdx ht hocc
  have hworth : (s.tiles tileIdx).worth = (s.tiles tileIdx).value.toNat := if_pos hocc
  unfold trySlide slidePossibility
  rw [if_neg (by rw [hocc]; exact Bool.noConfusion), if_pos hpos]
  split
  · rename_i hdest
    have hworth' : (s.tiles x).worth = (s.tiles x).value.toNat := if_pos hdest
    split
    · rename_i hvalue
      split
      · split
        · exact ⟨_, _, rfl, Slides.refl hpow⟩
        · have hsum : ((s.tiles x).value + (s.tiles tileIdx).value).toNat =
              (s.tiles x).value.toNat + (s.tiles tileIdx).value.toNat := by
            have hle := worth_add_le s.tiles ht hx hne.symm
            rw [BitVec.toNat_add, Nat.mod_eq_of_lt (by omega)]
          refine ⟨_, _, rfl, slides_move hpow ht hocc hx hne hdest ⟨k + 1, ?_⟩ ?_⟩
          · rw [hsum, ← hvalue, hk, Nat.pow_succ']
            omega
          · rw [hworth, hworth', Tile.worth, if_pos hdest, hsum, Nat.add_comm]
      · exact ⟨_, _, rfl, Slides.refl hpow⟩
    · exact ⟨_, _, rfl, Slides.refl hpow⟩
  · rename_i hdest
    refine ⟨_, _, rfl, slides_move hpow ht hocc hx hne rfl ⟨k, hk⟩ ?_⟩
    rw [hworth, Tile.worth, Tile.worth, if_pos rfl, if_neg hdest, Nat.add_zero]

/-- The loop over the destinations enqueues an animation when the tile has moved. -/
theorem slideInto_spec (htotal : total s.tiles < 2 ^ 32)
    (hocc : (s.tiles tileIdx).isOccupied = true) (hroom : s.pendingAnimations.length < tileCount) :
    ∀ {destinations : List ℕ}, WellPlanned direction tileIdx destinations →
    ∃ s' moved, slideInto direction tileIdx destinations s = some (s', moved) ∧
      Slides s s' moved ∧
      s'.pendingAnimations.length ≤ s.pendingAnimations.length + moved.toNat := by
  intro destinations
  induction destinations with
  | nil => exact fun _ => ⟨s, false, rfl, Slides.refl hpow, le_rfl⟩
  | cons x rest ih =>
    intro hplan
    obtain ⟨hx, hne, hpos, _⟩ := hplan.2 x List.mem_cons_self
    obtain ⟨tiles', moved, htry, hslides⟩ := trySlide_spec hpow htotal hplan.1 hocc hx hne hpos
    rw [slideInto, htry, Option.bind_some]
    cases moved with
    | true =>
      rw [if_pos rfl, enqueueMoveAnimation]
      dsimp only
      rw [if_pos (by omega)]
      refine ⟨_, true, rfl, ?_, ?_⟩
      · exact ⟨hslides.powers, hslides.total, hslides.pieces,
          fun h => absurd h.symm Bool.false_ne_true, hslides.room⟩
      · rw [List.length_append, List.length_singleton, Bool.toNat_true]
    | false =>
      exact ih ⟨hplan.1, fun y hy => hplan.2 y (List.mem_cons_of_mem x hy)⟩

theorem slideTile_spec (htotal : total s.tiles < 2 ^ 32) {destinations : List ℕ}
    (hplan : WellPlanned direction tileIdx destinations)
    (hroom : s.pendingAnimations.length + (!destinations.isEmpty).toNat ≤ tileCount) :
    ∃ s' moved, slideTile direction s tileIdx destinations = some (s', moved) ∧
      Slides s s' moved ∧
      s'.pendingAnimations.length ≤
        s.pendingAnimations.length + (!destinations.isEmpty).toNat := by
  unfold slideTile
  split
  · exact ⟨s, false, rfl, Slides.refl hpow, Nat.le_add_right _ _⟩
  · rename_i hocc
    have hocc' := Bool.eq_true_of_not_eq_false hocc
    cases destinations with
    | nil => exact ⟨s, false, rfl, Slides.refl hpow, le_rfl⟩
    | cons x rest =>
      obtain ⟨s', moved, hinto, hslides, hpending⟩ :=
        slideInto_spec hpow htotal hocc' hroom hplan
      exact ⟨s', moved, hinto, hslides, hpending.trans (Nat.add_le_add_left (Bool.toNat_le _) _)⟩

end

end Squares

theorem movers_cons (p : ℕ × List ℕ) (l : List (ℕ × List ℕ)) :
    movers (p :: l) = (!p.2.isEmpty).toNat + movers l := by
  unfold movers
  rw [List.filter_cons]
  cases p.2.isEmpty with
  | true => simp
  | false => simp [Nat.add_comm]

/-- **The loop over the tiles (proved).**  Each tile is moved at most once. -/
theorem slideEach_spec {direction : SlideDirection} : ∀ (l : List (ℕ × List ℕ)) (s : GameState)
    (found : Bool), (∀ p ∈ l, WellPlanned direction p.1 p.2) → PowersOfTwo s.tiles →
    total s.tiles < 2 ^ 32 → s.pendingAnimations.length + movers l ≤ tileCount →
    ∃ s' moved, slideEach (fun s p => slideTile direction s p.1 p.2) l s found =
        some (s', found || moved) ∧ Slides s s' moved ∧
      s'.pendingAnimations.length ≤ s.pendingAnimations.length + movers l := by
  intro l
  induction l with
  | nil =>
    intro s found _ hpow _ _
    exact ⟨s, false, by rw [slideEach, Bool.or_false], Slides.refl hpow, Nat.le_add_right _ _⟩
  | cons p l ih =>
    intro s found hplan hpow htotal hroom
    rw [movers_cons] at hroom ⊢
    obtain ⟨u, m, hu, hslides, hpending⟩ := slideTile_spec hpow htotal
      (hplan p List.mem_cons_self) (by omega)
    obtain ⟨t, m', ht, hslides', hpending'⟩ := ih u (found || m)
      (fun q hq => hplan q (List.mem_cons_of_mem p hq)) hslides.powers
      (by rw [hslides.total]; exact htotal) (by omega)
    refine ⟨t, m || m', ?_, hslides.trans hslides', by omega⟩
    rw [slideEach, hu, Option.bind_some, ht, Bool.or_assoc]

theorem slideAllTiles_spec (direction : SlideDirection) (hpow : PowersOfTwo s.tiles)
    (htotal : total s.tiles < 2 ^ 32) (hpending : s.pendingAnimations = []) :
    ∃ s' moved, slideAllTiles direction s = some (s', moved) ∧ Slides s s' moved ∧
      s'.pendingAnimations.length ≤ 12 := by
  rw [slideAllTiles_eq]
  have hspec := slideEach_spec (plan direction) s false (plan_wellPlanned direction) hpow htotal
  rw [hpending, List.length_nil, Nat.zero_add, movers_plan] at hspec
  exact hspec (by decide)

/-! ### Full boards -/

section FullBoard

variable {s : GameState} {direction : SlideDirection}

variable {moved : Bool} {tileIdx : ℕ} {s' : GameState}

/-- On a full board only tiles next to each other can combine. -/
theorem trySlide_full (hfull : Full s.tiles)
    (hflags : ∀ i, (s.tiles i).alreadyCombinedThisTurn = false) {tileIdx x : ℕ}
    (ht : tileIdx < tileCount) (hx : x < tileCount)
    (hbetween : ∀ y ∈ inBetween direction tileIdx x, y < tileCount) {tiles' : Tiles}
    (htry : trySlide s.tiles tileIdx x direction = some (tiles', moved)) :
    moved = true ↔ inBetween direction tileIdx x = [] ∧
      (s.tiles tileIdx).value = (s.tiles x).value := by
  have hany : ((inBetween direction tileIdx x).any fun i => (s.tiles i).isOccupied) = true ↔
      inBetween direction tileIdx x ≠ [] := by
    constructor
    · intro h hnil
      rw [hnil] at h
      exact Bool.false_ne_true h
    · intro h
      obtain ⟨y, hy⟩ := List.exists_mem_of_ne_nil _ h
      exact List.any_eq_true.mpr ⟨y, hy, hfull y (hbetween y hy)⟩
  unfold trySlide slidePossibility at htry
  simp only [hfull tileIdx ht, hfull x hx, hflags, hany, Bool.true_eq_false, if_false, if_true,
    Bool.not_false, Bool.and_self] at htry
  by_cases hvalue : (s.tiles tileIdx).value = (s.tiles x).value
  · rw [if_pos hvalue] at htry
    split at htry
    · by_cases hnil : inBetween direction tileIdx x = []
      · rw [if_neg (not_not_intro hnil)] at htry
        cases htry
        exact ⟨fun _ => ⟨hnil, hvalue⟩, fun _ => rfl⟩
      · rw [if_pos hnil] at htry
        cases htry
        exact ⟨fun h => absurd h Bool.false_ne_true, fun h => absurd h.1 hnil⟩
    · exact absurd htry (by simp)
  · rw [if_neg hvalue] at htry
    cases htry
    exact ⟨fun h => absurd h Bool.false_ne_true, fun h => absurd h.2 hvalue⟩

theorem slideInto_full (hfull : Full s.tiles)
    (hflags : ∀ i, (s.tiles i).alreadyCombinedThisTurn = false) :
    ∀ {destinations : List ℕ} {s' : GameState} {moved : Bool},
    WellPlanned direction tileIdx destinations →
    slideInto direction tileIdx destinations s = some (s', moved) →
    (moved = true ↔ ∃ x ∈ destinations, inBetween direction tileIdx x = [] ∧
      (s.tiles tileIdx).value = (s.tiles x).value) := by
  intro destinations
  induction destinations with
  | nil =>
    intro s' moved _ h
    cases h
    simp
  | cons x rest ih =>
    intro s' moved hplan h
    obtain ⟨hx, _, _, hbetween⟩ := hplan.2 x List.mem_cons_self
    obtain ⟨⟨tiles', m⟩, htry, h⟩ := Option.bind_eq_some_iff.mp h
    have hiff := trySlide_full hfull hflags hplan.1 hx hbetween htry
    rw [List.exists_mem_cons_iff, ← hiff]
    cases m with
    | true =>
      obtain ⟨u, _, hu⟩ := Option.map_eq_some_iff.mp h
      cases hu
      simp
    | false =>
      have hrest := ih ⟨hplan.1, fun y hy => hplan.2 y (List.mem_cons_of_mem x hy)⟩ h
      simpa using hrest

/-- Once a tile has been found to move it stays found. -/
theorem slideEach_found {α : Type} {slide : GameState → α → Option (GameState × Bool)} :
    ∀ {l : List α} {s s' : GameState} {found : Bool},
    slideEach slide l s true = some (s', found) → found = true := by
  intro l
  induction l with
  | nil =>
    intro s s' found h
    cases h
    rfl
  | cons a l ih =>
    intro s s' found h
    obtain ⟨r, _, h⟩ := Option.bind_eq_some_iff.mp h
    exact ih h

theorem slideEach_full (hpow : PowersOfTwo s.tiles) (htotal : total s.tiles < 2 ^ 32)
    (hfull : Full s.tiles) (hflags : ∀ i, (s.tiles i).alreadyCombinedThisTurn = false)
    {found : Bool} : ∀ {l : List (ℕ × List ℕ)},
    (∀ p ∈ l, WellPlanned direction p.1 p.2) →
    s.pendingAnimations.length + movers l ≤ tileCount →
    slideEach (fun s p => slideTile direction s p.1 p.2) l s false = some (s', found) →
    (found = true ↔ ∃ p ∈ l, ∃ x ∈ p.2, inBetween direction p.1 x = [] ∧
      (s.tiles p.1).value = (s.tiles x).value) := by
  intro l
  induction l with
  | nil =>
    intro _ _ h
    cases h
    simp
  | cons p l ih =>
    intro hplan hroom h
    rw [movers_cons] at hroom
    obtain ⟨u, m, hu, hslides, _⟩ := slideTile_spec hpow htotal (hplan p List.mem_cons_self)
      (by omega)
    rw [slideEach, hu, Option.bind_some, Bool.false_or] at h
    have hocc := hfull p.1 (hplan p List.mem_cons_self).1
    rw [slideTile, if_neg (by rw [hocc]; exact Bool.noConfusion)] at hu
    have hiff := slideInto_full hfull hflags (hplan p List.mem_cons_self) hu
    rw [List.exists_mem_cons_iff, ← hiff]
    cases m with
    | true =>
      rw [slideEach_found h]
      simp
    | false =>
      rw [hslides.still rfl] at h
      have hrest := ih (fun q hq => hplan q (List.mem_cons_of_mem p hq)) (by omega) h
      simpa using hrest

/-- **A slide moves something on a full board if it has equal neighbours (proved).** -/
theorem slideAllTiles_full (hpow : PowersOfTwo s.tiles) (htotal : total s.tiles < 2 ^ 32)
    (hfull : Full s.tiles) (hflags : ∀ i, (s.tiles i).alreadyCombinedThisTurn = false)
    (hpending : s.pendingAnimations = []) (h : slideAllTiles direction s = some (s', moved)) :
    moved = true ↔ EqualNeighbours s.tiles direction := by
  have hplan := plan_wellPlanned direction
  rw [slideAllTiles_eq] at h
  rw [slideEach_full hpow htotal hfull hflags hplan
    (by rw [hpending, movers_plan]; decide) h]
  constructor
  · rintro ⟨p, hp, x, hx, hnil, hvalue⟩
    have hp1 := (hplan p hp).1
    have hx1 := ((hplan p hp).2 x hx).1
    obtain hbeside | hbeside := beside_of_plan direction p hp x hx hnil
    · exact ⟨p.1, hp1, x, hx1, hbeside, hvalue⟩
    · exact ⟨x, hx1, p.1, hp1, hbeside, hvalue.symm⟩
  · rintro ⟨i, hi, j, hj, hbeside, hvalue⟩
    obtain ⟨p, hp, x, hx, hnil, ⟨rfl, rfl⟩ | ⟨rfl, rfl⟩⟩ := plan_of_beside direction i hi j hj hbeside
    · exact ⟨p, hp, x, hx, hnil, hvalue⟩
    · exact ⟨p, hp, x, hx, hnil, hvalue.symm⟩

end FullBoard

/-! ### New pieces -/

theorem Draw.pieceValue_toNat (draw : Draw) :
    ∃ k, draw.pieceValue.toNat = 2 * 2 ^ k ∧ draw.pieceValue.toNat ≤ 4 := by
  unfold Draw.pieceValue
  split
  · exact ⟨1, rfl, by decide⟩
  · exact ⟨0, rfl, by decide⟩

/-- **A new piece (proved)** on a board that is not full. -/
theorem spawnRandomPiece_spec (draw : Draw) (hpow : PowersOfTwo s.tiles)
    (hfree : pieces s.tiles < tileCount) (hroom : s.pendingAnimations.length < tileCount) :
    ∃ t, spawnRandomPiece s draw = some t ∧ PowersOfTwo t.tiles ∧
      total t.tiles = total s.tiles + draw.pieceValue.toNat ∧
      pieces t.tiles = pieces s.tiles + 1 ∧ t.animationsOngoing = true ∧
      t.pendingAnimations.length = s.pendingAnimations.length + 1 := by
  have hpos : 0 < (freeTileIdxs s.tiles).length := by
    rw [List.length_pos_iff]
    intro hnil
    refine hfree.ne ((full_iff_pieces s.tiles).mp fun i hi => ?_)
    have hnot := List.filter_eq_nil_iff.mp hnil i (List.mem_range.mpr hi)
    simpa using hnot
  have hidx := Nat.mod_lt draw.square hpos
  have hmem := List.getElem_mem hidx
  obtain ⟨hlt, hempty⟩ := List.mem_filter.mp hmem
  rw [List.mem_range] at hlt
  have hocc : (s.tiles (freeTileIdxs s.tiles)[draw.square % (freeTileIdxs s.tiles).length]).isOccupied
      = false := by simpa using hempty
  unfold spawnRandomPiece
  dsimp only
  rw [List.getElem?_eq_getElem hidx, Option.bind_some]
  generalize (freeTileIdxs s.tiles)[draw.square % (freeTileIdxs s.tiles).length] = chosen at *
  rw [enqueueMoveAnimation]
  dsimp only
  rw [if_pos (by omega)]
  obtain ⟨k, hk, _⟩ := draw.pieceValue_toNat
  refine ⟨_, rfl, ?_, ?_, ?_, rfl, List.length_append⟩
  · intro i hi hi'
    dsimp only at hi' ⊢
    by_cases hic : i = chosen
    · subst hic
      rw [update_self]
      exact ⟨k, hk⟩
    · rw [update_of_ne hic] at hi' ⊢
      exact hpow i hi hi'
  · have hsum := sum_update Tile.worth s.tiles hlt
      { s.tiles chosen with isOccupied := true, value := draw.pieceValue }
    have hold : (s.tiles chosen).worth = 0 := by rw [Tile.worth, hocc]; rfl
    rw [hold, Nat.add_zero] at hsum
    exact hsum
  · have hsum := sum_update (fun tile => tile.isOccupied.toNat) s.tiles hlt
      { s.tiles chosen with isOccupied := true, value := draw.pieceValue }
    simp only [hocc, Bool.toNat_false, Nat.add_zero, Bool.toNat_true] at hsum
    exact hsum

theorem deal_spec (first second : Draw) (hpending : s.pendingAnimations = []) :
    ∃ t, deal s first second = some t ∧ PowersOfTwo t.tiles ∧ total t.tiles ≤ 8 ∧
      t.animationsOngoing = true ∧ t.pendingAnimations.length = 2 := by
  unfold deal
  dsimp only
  set cleared : GameState :=
    { s with tiles := fun i => { s.tiles i with isOccupied := false, value := 0 } }
  have hpow : PowersOfTwo cleared.tiles := fun i _ h => absurd h Bool.false_ne_true
  have hpieces : pieces cleared.tiles = 0 := sum_eq_zero fun _ _ => rfl
  have htotal : total cleared.tiles = 0 := sum_eq_zero fun _ _ => rfl
  have hlen : cleared.pendingAnimations.length = 0 := by
    show s.pendingAnimations.length = 0
    rw [hpending]
    rfl
  obtain ⟨u, hu, hpowu, htotalu, hpiecesu, _, hlenu⟩ := spawnRandomPiece_spec first hpow
    (by rw [hpieces]; decide) (by rw [hlen]; decide)
  obtain ⟨t, ht, hpowt, htotalt, _, hongoing, hlent⟩ := spawnRandomPiece_spec second hpowu
    (by rw [hpiecesu, hpieces]; decide) (by rw [hlenu, hlen]; decide)
  obtain ⟨_, _, hfirst⟩ := first.pieceValue_toNat
  obtain ⟨_, _, hsecond⟩ := second.pieceValue_toNat
  refine ⟨t, ?_, hpowt, by omega, hongoing, by omega⟩
  rw [hu, Option.bind_some, ht]

/-! ### A key press -/

/-- What holds between two events. -/
structure Inv (s : GameState) : Prop where
  powers : PowersOfTwo s.tiles
  total : total s.tiles < 2 ^ 18
  idle : s.animationsOngoing = false → s.pendingAnimations = []

@[simp] theorem drawInProgressAnimations_tiles (s : GameState) (finished : Bool) :
    (drawInProgressAnimations s finished).tiles = s.tiles := by
  unfold drawInProgressAnimations
  split <;> rfl

theorem Inv.draw (h : Inv s) (finished : Bool) : Inv (drawInProgressAnimations s finished) where
  powers := by rw [drawInProgressAnimations_tiles]; exact h.powers
  total := by rw [drawInProgressAnimations_tiles]; exact h.total
  idle := by
    unfold drawInProgressAnimations
    split
    · exact fun _ => rfl
    · exact h.idle

section KeyPress

variable {s : GameState} (ch : BitVec 32)

/-- The slide of a key press, and when it moves something on a full board. -/
theorem slideFor_spec (hinv : Inv s) (hidle : s.animationsOngoing = false) :
    ∃ slid moved, slideFor s ch = some (slid, moved) ∧
      Slides { s with tiles := resetTurnFlags s.tiles } slid moved ∧
      slid.pendingAnimations.length ≤ 12 ∧
      (Full s.tiles → (moved = true ↔ ∃ direction, directionOf ch = some direction ∧
        EqualNeighbours s.tiles direction)) := by
  have hpow : PowersOfTwo (resetTurnFlags s.tiles) := hinv.powers
  have hpending := hinv.idle hidle
  have htotal : total (resetTurnFlags s.tiles) < 2 ^ 32 := lt_trans hinv.total (by decide)
  unfold slideFor
  cases hdir : directionOf ch with
  | none =>
    refine ⟨_, _, rfl, Slides.refl hpow, ?_, ?_⟩
    · rw [hpending]
      exact Nat.zero_le _
    · simp
  | some direction =>
    obtain ⟨slid, moved, hslid, hslides, hlen⟩ := slideAllTiles_spec direction
      (s := { s with tiles := resetTurnFlags s.tiles }) hpow htotal hpending
    refine ⟨slid, moved, hslid, hslides, hlen, fun hfull => ?_⟩
    have hiff := slideAllTiles_full (s := { s with tiles := resetTurnFlags s.tiles }) hpow htotal
      hfull (fun _ => rfl) hpending hslid
    rw [hiff]
    constructor
    · exact fun h => ⟨direction, rfl, h⟩
    · rintro ⟨d, hd, h⟩
      cases hd
      exact h

/-- The code gives up exactly the full boards on which the slide moves nothing. -/
theorem resets_iff (hinv : Inv s) :
    Resets s ch ↔ s.animationsOngoing = false ∧ Full s.tiles ∧
      ¬∃ direction, directionOf ch = some direction ∧ EqualNeighbours s.tiles direction := by
  refine and_congr_right fun hidle => ?_
  obtain ⟨slid, moved, hslid, hslides, _, hiff⟩ := slideFor_spec ch hinv hidle
  rw [hslid]
  constructor
  · rintro ⟨r, hr, hover⟩
    cases hr
    have hslidFull := (isGameOver_iff _).mp hover
    have hstill := hslides.still_of_full hslidFull
    have hfull : Full s.tiles := by
      rw [hslides.still hstill] at hslidFull
      exact hslidFull
    refine ⟨hfull, fun h => ?_⟩
    rw [(hiff hfull).mpr h] at hstill
    cases hstill
  · rintro ⟨hfull, hno⟩
    have hstill : moved = false := Bool.eq_false_of_not_eq_true fun h => hno ((hiff hfull).mp h)
    refine ⟨_, rfl, (isGameOver_iff _).mpr ?_⟩
    rw [hslides.still hstill]
    exact hfull

theorem canSlide_iff_of_full (hinv : Inv s) (hfull : Full s.tiles) (direction : SlideDirection) :
    CanSlide s.tiles direction ↔ EqualNeighbours s.tiles direction := by
  have hpow : PowersOfTwo (resetTurnFlags s.tiles) := hinv.powers
  have htotal : total (resetTurnFlags s.tiles) < 2 ^ 32 := lt_trans hinv.total (by decide)
  obtain ⟨s', moved, hslid, _, _⟩ := slideAllTiles_spec direction
    (s := ⟨resetTurnFlags s.tiles, false, []⟩) hpow htotal rfl
  have hiff : moved = true ↔ EqualNeighbours s.tiles direction :=
    slideAllTiles_full (s := ⟨resetTurnFlags s.tiles, false, []⟩) hpow htotal hfull
      (fun _ => rfl) rfl hslid
  unfold CanSlide
  rw [← hiff, hslid]
  constructor
  · rintro ⟨t, ht⟩
    cases ht
    rfl
  · rintro rfl
    exact ⟨s', rfl⟩

theorem Inv.afterTurn {t : GameState} (hinv : Inv t) (finished : Bool) :
    Inv (if t.animationsOngoing then drawInProgressAnimations t finished else t) := by
  split
  · exact hinv.draw finished
  · exact hinv

variable (first second : Draw) (finishedNew finished : Bool)

/-- **A key press (proved)**: it never fails, and obeys all laws but the one about giving up. -/
theorem keyEntered_spec (hinv : Inv s) :
    ∃ t, keyEntered s ch first second finishedNew finished = some t ∧ Inv t ∧
      (s.animationsOngoing = true → t = s) ∧
      (s.animationsOngoing = false → ¬Resets s ch →
        total t.tiles = total s.tiles + first.pieceValue.toNat) ∧
      (s.animationsOngoing = false →
        ∃ pending, enqueued s ch first second = some pending ∧ pending.length ≤ tileCount) := by
  unfold keyEntered
  split
  · rename_i hongoing
    refine ⟨s, rfl, hinv, fun _ => rfl, fun h => ?_, fun h => ?_⟩
    all_goals
      rw [hongoing] at h
      cases h
  · rename_i hongoing
    have hidle := Bool.eq_false_of_not_eq_true hongoing
    obtain ⟨slid, moved, hslid, hslides, hlen, _⟩ := slideFor_spec ch hinv hidle
    have htotal : total slid.tiles = total s.tiles := hslides.total
    have hlt := hinv.total
    unfold enqueued Resets
    rw [hslid, Option.bind_some, Option.bind_some]
    by_cases hover : isGameOver slid.1 = true
    · -- nothing has moved, so no animation is pending
      have hpending : slid.pendingAnimations = [] := by
        rw [hslides.still (hslides.still_of_full ((isGameOver_iff _).mp hover))]
        exact hinv.idle hidle
      obtain ⟨t, ht, hpow, hsum, hongoingt, hlent⟩ := deal_spec first second hpending
      rw [if_pos hover, if_pos hover, startNewGame, ht, Option.map_some, Option.map_some,
        Option.map_some]
      have hinvt : Inv t := ⟨hpow, by omega, fun h => absurd hongoingt (by rw [h]; decide)⟩
      refine ⟨_, rfl, (hinvt.draw finishedNew).afterTurn finished, fun h => absurd h hongoing,
        fun _ hno => ?_, fun _ => ⟨_, rfl, by rw [hlent]; decide⟩⟩
      exact absurd ⟨hidle, _, rfl, hover⟩ hno
    · have hfree : pieces slid.tiles < tileCount := by
        refine lt_of_le_of_ne (pieces_le _) fun h => hover ((isGameOver_iff _).mpr ?_)
        exact (full_iff_pieces _).mpr h
      have hcapacity : tileCount = 16 := rfl
      obtain ⟨t, ht, hpow, hsum, _, hongoingt, hlent⟩ := spawnRandomPiece_spec first
        hslides.powers hfree (by omega)
      have hroom := total_add_lt hslides.powers hfree (by omega)
      obtain ⟨_, _, hpiece⟩ := first.pieceValue_toNat
      rw [if_neg hover, if_neg hover, ht, Option.map_some, Option.map_some]
      have hinvt : Inv t := ⟨hpow, by omega, fun h => absurd hongoingt (by rw [h]; decide)⟩
      refine ⟨_, rfl, hinvt.afterTurn finished, fun h => absurd h hongoing, fun _ _ => ?_,
        fun _ => ⟨_, rfl, by omega⟩⟩
      rw [if_pos hongoingt, drawInProgressAnimations_tiles]
      omega

end KeyPress

/-! ### Runs -/

theorem newGame_spec (first second : Draw) (finished : Bool) :
    ∃ start, newGame first second finished = some start ∧ Inv start := by
  obtain ⟨t, ht, hpow, htotal, hongoing, _⟩ := deal_spec
    (s := ⟨fun _ => ⟨false, 0, false⟩, false, []⟩) first second rfl
  have hinv : Inv t := ⟨hpow, by omega, fun h => absurd hongoing (by rw [h]; decide)⟩
  refine ⟨drawInProgressAnimations t finished, ?_, hinv.draw finished⟩
  rw [newGame, startNewGame, ht, Option.map_some]

theorem step_spec (hinv : Inv s) (e : Event) : ∃ t, step s e = some t ∧ Inv t := by
  cases e with
  | key ch first second finishedNew finished =>
    obtain ⟨t, ht, hinvt, _⟩ := keyEntered_spec ch first second finishedNew finished hinv
    exact ⟨t, ht, hinvt⟩
  | timer finished => exact ⟨_, rfl, hinv.draw finished⟩

/-- A turn obeys all laws if the board is not given up too early. -/
theorem lawful_iff (hinv : Inv s) (e : Event) : Lawful s e ↔ StillOpen s e := by
  cases e with
  | timer finished => exact ⟨fun _ => trivial, fun _ => drawInProgressAnimations_tiles s finished⟩
  | key ch first second finishedNew finished =>
    obtain ⟨t, ht, hinvt, hdropped, hsum, hanimations⟩ :=
      keyEntered_spec ch first second finishedNew finished hinv
    have hgivenUp : (Resets s ch → ∀ direction, ¬CanSlide s.tiles direction) ↔
        StillOpen s (.key ch first second finishedNew finished) := by
      rw [resets_iff ch hinv]
      constructor
      · intro h
        by_cases hongoing : s.animationsOngoing = true
        · exact .inl hongoing
        · by_cases hfull : Full s.tiles
          · refine .inr (.inr (or_iff_not_imp_right.mpr fun hno direction => ?_))
            rw [← canSlide_iff_of_full hinv hfull]
            exact h ⟨Bool.eq_false_of_not_eq_true hongoing, hfull, hno⟩ direction
          · exact .inr (.inl hfull)
      · rintro hopen ⟨hidle, hfull, hno⟩ direction
        rw [canSlide_iff_of_full hinv hfull]
        obtain hongoing | hnot | hdead | hmoves := hopen
        · rw [hidle] at hongoing
          cases hongoing
        · exact absurd hfull hnot
        · exact hdead direction
        · exact absurd hmoves hno
    rw [← hgivenUp]
    constructor
    · exact fun h => (h t ht).givenUp
    · intro h t' ht'
      rw [ht] at ht'
      cases ht'
      exact ⟨hinvt.powers, hdropped, hsum, hanimations, h⟩

/-- **Games never fail an assertion, and are lawful if no board is given up too early
(proved).** -/
theorem game_iff (first second : Draw) (finished : Bool) (events : List Event) :
    ∃ start, newGame first second finished = some start ∧ PowersOfTwo start.tiles ∧
      (∃ final, run step start events = some final) ∧
      (Meets step Lawful start events ↔ Meets step StillOpen start events) := by
  obtain ⟨start, hstart, hinv⟩ := newGame_spec first second finished
  have hstep : ∀ s e t, Inv s → True → step s e = some t → Inv t := by
    intro s e t hs _ ht
    obtain ⟨t', ht', hinvt⟩ := step_spec hs e
    rw [ht] at ht'
    cases ht'
    exact hinvt
  refine ⟨start, hstart, hinv.powers, ?_, ?_⟩
  · have htotal : ∀ s e, Inv s → True → ∃ t, step s e = some t ∧ Inv t :=
      fun s e hs _ => step_spec hs e
    obtain ⟨final, hfinal, _⟩ := run_total htotal events start hinv (Meets.trivial events start)
    exact ⟨final, hfinal⟩
  · constructor
    · intro h
      have hlawful : ∀ s e t, Inv s → Lawful s e → step s e = some t → Inv t :=
        fun s e t hs _ => hstep s e t hs trivial
      exact Meets.of_invariant hlawful (fun s e hs he => (lawful_iff hs e).mp he) hinv h
    · intro h
      have hopen : ∀ s e t, Inv s → StillOpen s e → step s e = some t → Inv t :=
        fun s e t hs _ => hstep s e t hs trivial
      exact Meets.of_invariant hopen (fun s e hs he => (lawful_iff hs e).mpr he) hinv h

/-- **Boards are bounded (proved)**: after any events, in any game, the board has powers of two which
sum up to less than `2 ^ 18`, and nothing is left to be animated when no animation is ongoing. -/
theorem boards_bounded (first second : Draw) (finished : Bool) (events : List Event) :
    ∃ start final, newGame first second finished = some start ∧ run step start events = some final ∧
      PowersOfTwo final.tiles ∧ total final.tiles < 2 ^ 18 ∧
      (final.animationsOngoing = false → final.pendingAnimations = []) := by
  obtain ⟨start, hstart, hinv⟩ := newGame_spec first second finished
  obtain ⟨final, hfinal, hlast⟩ := run_total (fun s e hs _ => step_spec hs e) events start hinv
    (Meets.trivial events start)
  exact ⟨start, final, hstart, hfinal, hlast.powers, hlast.total, hlast.idle⟩

/-- Fourteen presses of the left key fill the board with the rows 2, 4, 2, 4. -/
def columns : Option GameState :=
  (newGame ⟨0, 0⟩ ⟨0, 1⟩ true).bind fun start =>
    run step start ((List.range 14).map fun i => .key 97 ⟨0, i % 2⟩ ⟨0, 0⟩ true true)

theorem columns_isSome : columns.isSome = true := by decide +kernel

/-- The board with four equal columns. -/
def columnsFilled : GameState := columns.get columns_isSome

/-- The next press of the key gives the board up, although all columns could be merged. -/
theorem columns_givenUp :
    columns = some columnsFilled ∧ Resets columnsFilled 97 ∧ CanSlide columnsFilled.tiles .up := by
  have hslid : (slideFor columnsFilled 97).isSome = true := by decide +kernel
  have hup : ((slideAllTiles .up ⟨resetTurnFlags columnsFilled.tiles, false, []⟩).map
      Prod.snd) = some true := by decide +kernel
  refine ⟨(Option.some_get columns_isSome).symm, ⟨by decide +kernel, ?_⟩, ?_⟩
  · refine ⟨_, (Option.some_get hslid).symm, ?_⟩
    show isGameOver ((slideFor columnsFilled 97).get (by decide +kernel)).1.tiles = true
    decide +kernel
  · obtain ⟨⟨t, moved⟩, ht, hmoved⟩ := Option.map_eq_some_iff.mp hup
    subst hmoved
    exact ⟨t, ht⟩

end Axle.Games.Game2048
