import Axle.Awm.Survival

/-!
# The grid of desktop shortcuts

A shortcut is put into a slot when its line of the configuration file is read, and moves to the
nearest free slot when it is dropped.  The state has a list of shortcuts and, beside it, the
occupants of the slots.

* `GridEvent`, `gridNext` — a shortcut is added, by coordinates or to the next free slot, or
  dragged to some place and dropped there;
* `GridOk` — every shortcut has its one slot, and could be dropped anywhere;
* `shortcut_grid_iff` — **PROVED**: this holds all through a run, and no shortcut is lost, exactly
  when no shortcut is added by the coordinates of an occupied slot;
* `shortcut_pushed_out` — two lines with the same coordinates.
-/

namespace Axle.Awm

open Axle.Agx Axle.Lib

/-! ### Events -/

inductive GridEvent where
  /-- A line of the file, with coordinates or without. -/
  | addShortcut (line : ShortcutLine)
  /-- A shortcut is let go of at a point. -/
  | dragShortcut (shortcut : ElementId) (origin : Point)
  deriving DecidableEq, Repr

def GridEvent.isAdd : GridEvent → Bool
  | addShortcut _ => true
  | dragShortcut _ _ => false

namespace Desktop

/-- The shortcut has been dragged to `origin`, and goes to the nearest slot. -/
def dropShortcut (d : Desktop) (s : ElementId) (origin : Point) : Option Desktop :=
  ((d.setFrame s ((d.frame s).replaceOrigin origin)).transferShortcutToNearestSlot s).map Prod.snd

def gridNext (d : Desktop) : GridEvent → Option Desktop
  | .addShortcut line => d.loadShortcut line
  | .dragShortcut s origin => if s ∈ d.shortcuts then d.dropShortcut s origin else none

/-- Every shortcut is in exactly one slot, every occupant is one of the shortcuts, and any of them
can be dropped anywhere. -/
structure GridOk (d : Desktop) : Prop where
  slot : ∀ s ∈ d.shortcuts, ∃! slot, slot ∈ d.slots ∧ slot.occupant = some s
  distinct : (d.slots.map DesktopShortcutGridSlot.coordinates).Nodup
  known : ∀ slot ∈ d.slots, ∀ s, slot.occupant = some s → s ∈ d.shortcuts
  drop : ∀ s ∈ d.shortcuts, ∀ origin, ∃ d', d.dropShortcut s origin = some d'

/-- Coordinates are given for a free slot only. -/
def SlotFree (d : Desktop) : GridEvent → Prop
  | .addShortcut line => ∀ c ∈ line.coordinates, ∀ slot ∈ d.slots, slot.coordinates = c →
      slot.occupant = none
  | .dragShortcut _ _ => True

/-! ### Occupants -/

/-- `set_occupant` on the slot with the coordinates `c`. -/
def setOccupant (c : ℤ × ℤ) (occupant : Option ElementId) (slots : List DesktopShortcutGridSlot) :
    List DesktopShortcutGridSlot :=
  slots.map fun slot => if slot.coordinates = c then { slot with occupant := occupant } else slot

/-- The slot with the coordinates `c` holds `s`. -/
def Holds (slots : List DesktopShortcutGridSlot) (c : ℤ × ℤ) (s : ElementId) : Prop :=
  ∃ slot ∈ slots, slot.coordinates = c ∧ slot.occupant = some s

section Slots

variable {slots : List DesktopShortcutGridSlot} {c c' : ℤ × ℤ} {s s' : ElementId}
  {occupant : Option ElementId}

theorem setOccupant_coordinates :
    (setOccupant c occupant slots).map DesktopShortcutGridSlot.coordinates =
      slots.map DesktopShortcutGridSlot.coordinates := by
  unfold setOccupant
  rw [List.map_map]
  apply List.map_congr_left
  intro slot _
  dsimp only [Function.comp_apply]
  split
  · rfl
  · rfl

/-- The slot that is set holds what it was set to, and the others what they held. -/
theorem holds_setOccupant (hc : c ∈ slots.map DesktopShortcutGridSlot.coordinates) :
    Holds (setOccupant c occupant slots) c' s ↔
      if c' = c then occupant = some s else Holds slots c' s := by
  simp only [Holds, setOccupant, List.mem_map]
  constructor
  · rintro ⟨slot, ⟨old, hold, rfl⟩, hcoord, hocc⟩
    by_cases heq : old.coordinates = c
    · rw [if_pos heq] at hcoord hocc
      rw [if_pos (hcoord.symm.trans heq)]
      exact hocc
    · rw [if_neg heq] at hcoord hocc
      rw [if_neg (hcoord ▸ heq)]
      exact ⟨old, hold, hcoord, hocc⟩
  · intro h
    by_cases heq : c' = c
    · rw [if_pos heq] at h
      obtain ⟨old, hold, hcoord⟩ := List.mem_map.mp hc
      exact ⟨_, ⟨old, hold, rfl⟩, by rw [if_pos hcoord]; exact hcoord.trans heq.symm,
        by rw [if_pos hcoord]; exact h⟩
    · rw [if_neg heq] at h
      obtain ⟨old, hold, hcoord, hocc⟩ := h
      exact ⟨_, ⟨old, hold, rfl⟩, by rw [if_neg (hcoord ▸ heq)]; exact hcoord,
        by rw [if_neg (hcoord ▸ heq)]; exact hocc⟩

/-- With distinct coordinates, a slot holds at most one shortcut. -/
theorem Holds.unique (hnodup : (slots.map DesktopShortcutGridSlot.coordinates).Nodup)
    (h : Holds slots c s) (h' : Holds slots c s') : s = s' := by
  obtain ⟨slot, hslot, hcoord, hocc⟩ := h
  obtain ⟨slot', hslot', hcoord', hocc'⟩ := h'
  have heq := List.inj_on_of_nodup_map hnodup hslot hslot' (hcoord.trans hcoord'.symm)
  rw [heq, hocc'] at hocc
  exact (Option.some.inj hocc).symm

theorem nearestOf_mem {shortcutFrame : Rect} {nearest : DesktopShortcutGridSlot} :
    ∀ {rest : List DesktopShortcutGridSlot} {best : DesktopShortcutGridSlot},
      nearestOf shortcutFrame best rest = some nearest → nearest ∈ best :: rest := by
  intro rest
  induction rest with
  | nil =>
    intro best h
    cases h
    exact List.mem_cons_self
  | cons slot rest ih =>
    intro best h
    unfold nearestOf at h
    split at h
    · have hmem := ih h
      rw [List.mem_cons] at hmem
      simp only [List.mem_cons]
      rcases hmem with rfl | hmem
      · split
        · exact .inl rfl
        · exact .inr (.inl rfl)
      · exact .inr (.inr hmem)
    · cases h

end Slots

/-! ### The invariant -/

structure GridInv (d : Desktop) : Prop where
  distinct : (d.slots.map DesktopShortcutGridSlot.coordinates).Nodup
  positive : ∀ r ∈ d.slots.map DesktopShortcutGridSlot.frame, r.Positive
  held : ∀ s ∈ d.shortcuts, ∃ c, Holds d.slots c s
  once : ∀ s c c', Holds d.slots c s → Holds d.slots c' s → c = c'
  known : ∀ c s, Holds d.slots c s → s ∈ d.shortcuts
  below : ∀ s ∈ d.shortcuts, s < d.nextDesktopElementId
  nodup : d.shortcuts.Nodup
  framed : ∀ s ∈ d.shortcuts, (d.frame s).Positive

variable {d d' : Desktop} {s : ElementId} {origin : Point}

theorem GridInv.gridOk (h : d.GridInv) : d.GridOk where
  slot := by
    intro s hs
    obtain ⟨c, slot, hslot, hcoord, hocc⟩ := h.held s hs
    refine ⟨slot, ⟨hslot, hocc⟩, ?_⟩
    rintro slot' ⟨hslot', hocc'⟩
    apply List.inj_on_of_nodup_map h.distinct hslot' hslot
    exact h.once s _ _ ⟨slot', hslot', rfl, hocc'⟩ ⟨slot, hslot, rfl, hocc⟩
  distinct := h.distinct
  known := fun slot hslot s hocc => h.known slot.coordinates s ⟨slot, hslot, rfl, hocc⟩
  drop := by
    intro s hs origin
    obtain ⟨c, slot, hslot, -, hocc⟩ := h.held s hs
    have hpos : ((d.setFrame s ((d.frame s).replaceOrigin origin)).frame s).Positive := by
      show (Function.update d.frame s _ s).Positive
      rw [Function.update_self]
      exact h.framed s hs
    obtain ⟨slot, htransfer⟩ := transferShortcutToNearestSlot_total
      (d := d.setFrame s ((d.frame s).replaceOrigin origin)) h.positive ⟨slot, hslot, hocc⟩ hpos
    exact ⟨slot.2, by rw [dropShortcut, htransfer]; rfl⟩

/-! ### Dropping a shortcut -/

/-- A drop clears the slot that held the shortcut and fills one that is free then. -/
theorem transferShortcutToNearestSlot_cases {r : Rect}
    (hnodup : (d.slots.map DesktopShortcutGridSlot.coordinates).Nodup)
    (h : d.transferShortcutToNearestSlot s = some (r, d')) :
    ∃ c c', Holds d.slots c s ∧ c' ∈ d.slots.map DesktopShortcutGridSlot.coordinates ∧
      (∀ s', ¬Holds (setOccupant c none d.slots) c' s') ∧
      d' = { d with slots := setOccupant c' (some s) (setOccupant c none d.slots) } := by
  unfold transferShortcutToNearestSlot at h
  split at h
  · cases h
  · rename_i previous hfind
    have hprevious : previous ∈ d.slots := List.mem_of_find?_eq_some hfind
    have hholds : Holds d.slots previous.coordinates s := by
      have hocc := List.find?_some hfind
      exact ⟨previous, hprevious, rfl, of_decide_eq_true hocc⟩
    have hcoord := List.mem_map_of_mem (f := DesktopShortcutGridSlot.coordinates) hprevious
    obtain ⟨nearest, hnearest, heq⟩ := Option.map_eq_some_iff.mp h
    cases heq
    refine ⟨previous.coordinates, nearest.coordinates, hholds, ?_⟩
    split at hnearest
    · cases hnearest
      refine ⟨hcoord, fun s' hs' => ?_, rfl⟩
      rw [holds_setOccupant hcoord, if_pos rfl] at hs'
      cases hs'
    · rename_i slot rest hnear
      have hmem := nearestOf_mem hnearest
      rw [← hnear, List.mem_filter] at hmem
      obtain ⟨hmem, hfree⟩ := hmem
      have hfree : nearest.occupant = none := by
        rw [Bool.and_eq_true, decide_eq_true_eq] at hfree
        exact hfree.1
      have hslot : nearest ∈ setOccupant previous.coordinates none d.slots := hmem
      have hin := List.mem_map_of_mem (f := DesktopShortcutGridSlot.coordinates) hslot
      refine ⟨by rwa [setOccupant_coordinates] at hin, fun s' hs' => ?_, rfl⟩
      -- the coordinates name one slot
      obtain ⟨other, hother, hsame, hocc⟩ := hs'
      have heq := List.inj_on_of_nodup_map (by rwa [setOccupant_coordinates]) hother hslot hsame
      rw [heq, hfree] at hocc
      cases hocc

theorem GridInv.drop (h : d.GridInv) (hs : s ∈ d.shortcuts)
    (hdrop : d.dropShortcut s origin = some d') : d'.GridInv := by
  obtain ⟨⟨r, e⟩, htransfer, rfl⟩ := Option.map_eq_some_iff.mp hdrop
  obtain ⟨c, c', hheld, hc', hfree, rfl⟩ := transferShortcutToNearestSlot_cases
    (d := d.setFrame s ((d.frame s).replaceOrigin origin)) h.distinct htransfer
  have hc : c ∈ d.slots.map DesktopShortcutGridSlot.coordinates := by
    obtain ⟨slot, hslot, rfl, -⟩ := hheld
    exact List.mem_map_of_mem hslot
  have hcleared : ∀ c₁ s', Holds (setOccupant c none d.slots) c₁ s' ↔
      c₁ ≠ c ∧ Holds d.slots c₁ s' := by
    intro c₁ s'
    rw [holds_setOccupant hc]
    split
    · rename_i heq
      simp [heq]
    · rename_i hne
      simp [hne]
  have hafter : ∀ c₁ s', Holds (setOccupant c' (some s) (setOccupant c none d.slots)) c₁ s' ↔
      (c₁ = c' ∧ s' = s) ∨ (c₁ ≠ c' ∧ c₁ ≠ c ∧ Holds d.slots c₁ s') := by
    intro c₁ s'
    rw [holds_setOccupant (by rw [setOccupant_coordinates]; exact hc')]
    split
    · rename_i heq
      simp [heq, eq_comm]
    · rename_i hne
      simp [hne, hcleared]
  -- another shortcut's slot is neither of the two
  have hother : ∀ c₁ s', s' ≠ s → Holds d.slots c₁ s' → c₁ ≠ c' ∧ c₁ ≠ c := by
    intro c₁ s' hne hholds
    have hc₁ : c₁ ≠ c := by
      rintro rfl
      exact hne (hholds.unique h.distinct hheld)
    refine ⟨?_, hc₁⟩
    rintro rfl
    exact hfree s' ((hcleared c₁ s').mpr ⟨hc₁, hholds⟩)
  exact
    { distinct := by
        show (List.map _ (setOccupant c' (some s) (setOccupant c none d.slots))).Nodup
        rw [setOccupant_coordinates, setOccupant_coordinates]
        exact h.distinct
      positive := by
        show ∀ r ∈ List.map DesktopShortcutGridSlot.frame
          (setOccupant c' (some s) (setOccupant c none d.slots)), r.Positive
        rw [setOccupant, setOccupant, setOccupant_frames, setOccupant_frames]
        exact h.positive
      held := by
        intro s' hs'
        by_cases heq : s' = s
        · exact ⟨c', (hafter c' s').mpr (.inl ⟨rfl, heq⟩)⟩
        · obtain ⟨c₁, hc₁⟩ := h.held s' hs'
          have hne := hother c₁ s' heq hc₁
          exact ⟨c₁, (hafter c₁ s').mpr (.inr ⟨hne.1, hne.2, hc₁⟩)⟩
      once := by
        intro s' c₁ c₂ h₁ h₂
        rcases (hafter c₁ s').mp h₁ with ⟨rfl, rfl⟩ | ⟨-, hne₁, hold₁⟩
        · rcases (hafter c₂ s').mp h₂ with ⟨rfl, -⟩ | ⟨-, hne₂, hold₂⟩
          · rfl
          · exact absurd (h.once s' c₂ c hold₂ hheld) hne₂
        · rcases (hafter c₂ s').mp h₂ with ⟨rfl, rfl⟩ | ⟨-, hne₂, hold₂⟩
          · exact absurd (h.once s' c₁ c hold₁ hheld) hne₁
          · exact h.once s' c₁ c₂ hold₁ hold₂
      known := by
        intro c₁ s' hholds
        rcases (hafter c₁ s').mp hholds with ⟨-, rfl⟩ | ⟨-, -, hholds⟩
        · exact hs
        · exact h.known c₁ s' hholds
      below := h.below
      nodup := h.nodup
      framed := by
        intro s' hs'
        show (Function.update d.frame s _ s').Positive
        by_cases heq : s' = s
        · subst heq
          rw [Function.update_self]
          exact h.framed s' hs
        · rw [Function.update_of_ne heq]
          exact h.framed s' hs' }

/-! ### Adding a shortcut -/

theorem slotFor_mem {line : ShortcutLine} {slot : DesktopShortcutGridSlot}
    (h : d.slotFor line = some slot) : slot ∈ d.slots := by
  unfold slotFor at h
  split at h
  · exact List.mem_of_find?_eq_some h
  · exact List.mem_of_find?_eq_some h

theorem loadShortcut_cases {line : ShortcutLine} (h : d.loadShortcut line = some d') :
    ∃ slot, d.slotFor line = some slot ∧
      d'.slots = setOccupant slot.coordinates (some d.nextDesktopElementId) d.slots ∧
      d'.shortcuts = d.shortcuts ++ [d.nextDesktopElementId] ∧
      d'.nextDesktopElementId = d.nextDesktopElementId + 1 ∧
      d'.frame = Function.update d.frame d.nextDesktopElementId (shortcutFrame slot) := by
  obtain ⟨slot, hslot, rfl⟩ := Option.map_eq_some_iff.mp h
  obtain ⟨rects, queue, heq, -⟩ := recompute_eq (d.insertShortcut line slot) (shortcutFrame slot)
  refine ⟨slot, hslot, ?_⟩
  rw [heq]
  exact ⟨rfl, rfl, rfl, rfl⟩

theorem GridInv.add (h : d.GridInv) {line : ShortcutLine} (hfree : d.SlotFree (.addShortcut line))
    (hload : d.loadShortcut line = some d') : d'.GridInv := by
  obtain ⟨slot, hslot, hslots, hshortcuts, hnext, hframe⟩ := loadShortcut_cases hload
  have hmem := slotFor_mem hslot
  have hcoord := List.mem_map_of_mem (f := DesktopShortcutGridSlot.coordinates) hmem
  have hnone : slot.occupant = none := by
    unfold slotFor at hslot
    split at hslot
    · rename_i c hc
      have hat := List.find?_some hslot
      exact hfree c hc slot hmem (of_decide_eq_true hat)
    · have hnone := List.find?_some hslot
      exact of_decide_eq_true hnone
  have hempty : ∀ s, ¬Holds d.slots slot.coordinates s := by
    rintro s ⟨other, hother, hsame, hocc⟩
    rw [List.inj_on_of_nodup_map h.distinct hother hmem hsame, hnone] at hocc
    cases hocc
  have hafter : ∀ c s, Holds d'.slots c s ↔
      (c = slot.coordinates ∧ s = d.nextDesktopElementId) ∨ Holds d.slots c s := by
    intro c s
    rw [hslots, holds_setOccupant hcoord]
    split
    · rename_i heq
      subst heq
      simp [hempty, eq_comm]
    · rename_i hne
      simp [hne]
  have hfresh : d.nextDesktopElementId ∉ d.shortcuts := fun hmem =>
    absurd (h.below _ hmem) (lt_irrefl _)
  exact
    { distinct := by
        rw [hslots, setOccupant_coordinates]
        exact h.distinct
      positive := by
        rw [hslots, setOccupant, setOccupant_frames]
        exact h.positive
      held := by
        intro s hs
        rw [hshortcuts, List.mem_append, List.mem_singleton] at hs
        rcases hs with hs | rfl
        · obtain ⟨c, hc⟩ := h.held s hs
          exact ⟨c, (hafter c s).mpr (.inr hc)⟩
        · exact ⟨slot.coordinates, (hafter _ _).mpr (.inl ⟨rfl, rfl⟩)⟩
      once := by
        intro s c c' h₁ h₂
        rcases (hafter c s).mp h₁ with ⟨rfl, rfl⟩ | h₁
        · rcases (hafter c' _).mp h₂ with ⟨rfl, -⟩ | h₂
          · rfl
          · exact absurd (h.known c' _ h₂) hfresh
        · rcases (hafter c' s).mp h₂ with ⟨rfl, rfl⟩ | h₂
          · exact absurd (h.known c _ h₁) hfresh
          · exact h.once s c c' h₁ h₂
      known := by
        intro c s hholds
        rw [hshortcuts, List.mem_append, List.mem_singleton]
        rcases (hafter c s).mp hholds with ⟨-, rfl⟩ | hholds
        · exact .inr rfl
        · exact .inl (h.known c s hholds)
      below := by
        intro s hs
        rw [hshortcuts, List.mem_append, List.mem_singleton] at hs
        rw [hnext]
        rcases hs with hs | rfl
        · exact Nat.lt_succ_of_lt (h.below s hs)
        · exact Nat.lt_succ_self _
      nodup := by
        rw [hshortcuts]
        exact List.nodup_append.mpr ⟨h.nodup, List.nodup_singleton _, fun a ha b hb heq =>
          hfresh (List.mem_singleton.mp hb ▸ heq ▸ ha)⟩
      framed := by
        intro s hs
        rw [hshortcuts, List.mem_append, List.mem_singleton] at hs
        rw [hframe]
        by_cases heq : s = d.nextDesktopElementId
        · rw [heq, Function.update_self]
          show 0 < shortcutSize.width ∧ 0 < shortcutSize.height
          decide
        · rw [Function.update_of_ne heq]
          exact h.framed s (hs.resolve_right heq) }

/-- A shortcut that is put on top of another one pushes it out of the grid. -/
theorem GridInv.slotFree (h : d.GridInv) {line : ShortcutLine}
    (hok : ∀ d', d.loadShortcut line = some d' → d'.GridOk) : d.SlotFree (.addShortcut line) := by
  intro c hc other hother hcoord
  have hline : line.coordinates = some c := hc
  cases hocc : other.occupant with
  | none => rfl
  | some s =>
    exfalso
    have hheld : Holds d.slots c s := ⟨other, hother, hcoord, hocc⟩
    have hs := h.known c s hheld
    -- the line is for the slot that `s` is in
    have hslot : ∃ slot, d.slotFor line = some slot := by
      rw [← Option.isSome_iff_exists, slotFor, hline, List.find?_isSome]
      exact ⟨other, hother, decide_eq_true hcoord⟩
    obtain ⟨slot, hslot⟩ := hslot
    obtain ⟨d', hload⟩ : ∃ d', d.loadShortcut line = some d' :=
      ⟨_, by rw [loadShortcut, hslot]; rfl⟩
    obtain ⟨slot', hslot', hslots, hshortcuts, -, -⟩ := loadShortcut_cases hload
    have hc' : slot'.coordinates = c := by
      rw [slotFor, hline] at hslot'
      have hat := List.find?_some hslot'
      exact of_decide_eq_true hat
    have hcoord' : slot'.coordinates ∈ d.slots.map DesktopShortcutGridSlot.coordinates :=
      List.mem_map_of_mem (slotFor_mem hslot')
    obtain ⟨now, ⟨hnow, hnowocc⟩, -⟩ := (hok _ hload).slot s
      (by rw [hshortcuts]; exact List.mem_append_left _ hs)
    have hholds : Holds (setOccupant slot'.coordinates (some d.nextDesktopElementId) d.slots)
        now.coordinates s := ⟨now, hslots ▸ hnow, rfl, hnowocc⟩
    rw [holds_setOccupant hcoord'] at hholds
    split at hholds
    · have := h.below s hs
      rw [Option.some.inj hholds] at this
      exact lt_irrefl _ this
    · rename_i hne
      exact hne ((h.once s _ _ hholds hheld).trans hc'.symm)

/-! ### Runs -/

theorem gridSlots_coordinates_nodup (desktopSize : Size) :
    ((gridSlots desktopSize).map DesktopShortcutGridSlot.coordinates).Nodup := by
  unfold gridSlots
  have hproduct : ∀ columns rows : List (ℤ × ℕ),
      (columns.flatMap fun column => rows.map fun row =>
        DesktopShortcutGridSlot.mk (column.2, row.2) ⟨⟨column.1, row.1⟩, gridSlotSize⟩ none).map
          DesktopShortcutGridSlot.coordinates =
      ((columns.map Prod.snd).product (rows.map Prod.snd)).map
        fun p : ℕ × ℕ => ((p.1 : ℤ), (p.2 : ℤ)) := by
    simp [List.product, List.map_flatMap, List.flatMap_map, Function.comp_def]
  rw [hproduct, List.zipIdx_map_snd, List.zipIdx_map_snd]
  apply List.Nodup.map
  · intro p q h
    simp only [Prod.mk.injEq, Nat.cast_inj] at h
    exact Prod.ext h.1 h.2
  · exact List.Nodup.product (List.nodup_range' ..) (List.nodup_range' ..)

theorem gridSlots_free {desktopSize : Size} {c : ℤ × ℤ} {s : ElementId} :
    ¬Holds (gridSlots desktopSize) c s := by
  rintro ⟨slot, hslot, -, hocc⟩
  obtain ⟨column, -, hslot⟩ := List.mem_flatMap.mp hslot
  obtain ⟨row, -, rfl⟩ := List.mem_map.mp hslot
  cases hocc

theorem new_gridInv (desktopSize : Size) (images : WindowDecorationImages) :
    (Desktop.new desktopSize images).GridInv where
  distinct := gridSlots_coordinates_nodup desktopSize
  positive := gridSlots_positive desktopSize
  held := fun _ hs => absurd hs List.not_mem_nil
  once := fun _ _ _ h _ => absurd h gridSlots_free
  known := fun _ _ h => absurd h gridSlots_free
  below := fun _ hs => absurd hs List.not_mem_nil
  nodup := List.nodup_nil
  framed := fun _ hs => absurd hs List.not_mem_nil

theorem GridInv.next (h : d.GridInv) {event : GridEvent} (hfree : d.SlotFree event)
    (hnext : d.gridNext event = some d') : d'.GridInv := by
  cases event with
  | addShortcut line => exact h.add hfree hnext
  | dragShortcut s origin =>
    rw [gridNext] at hnext
    split at hnext
    · exact h.drop ‹_› hnext
    · cases hnext

theorem gridNext_length {event : GridEvent} (h : d.gridNext event = some d') :
    d'.shortcuts.length = d.shortcuts.length + (if event.isAdd then 1 else 0) := by
  cases event with
  | addShortcut line =>
    obtain ⟨slot, -, -, hshortcuts, -⟩ := loadShortcut_cases h
    rw [hshortcuts, List.length_append]
    rfl
  | dragShortcut s origin =>
    rw [gridNext] at h
    split at h
    · obtain ⟨slot, htransfer, rfl⟩ := Option.map_eq_some_iff.mp h
      rw [(transferShortcutToNearestSlot_quiet htransfer).shortcuts]
      rfl
    · cases h

/-- Every shortcut that was added is still there. -/
theorem gridNext_run_length : ∀ (events : List GridEvent) (d d' : Desktop),
    StepRun.run gridNext d events = some d' →
    d'.shortcuts.length = d.shortcuts.length + events.countP GridEvent.isAdd := by
  intro events
  induction events with
  | nil =>
    intro d d' hrun
    cases hrun
    rfl
  | cons event events ih =>
    intro d d' hrun
    obtain ⟨e, hnext, hrest⟩ := StepRun.run_cons_eq_some.mp hrun
    rw [ih e d' hrest, gridNext_length hnext, List.countP_cons]
    omega

end Desktop

/-- **The grid of shortcuts.**  On a desktop of any size and through any run of shortcuts added and
dropped: in every state passed through, every shortcut is in exactly one slot and no slot holds
anything else, none of the shortcuts added is gone, and none can be dropped anywhere with a panic —
exactly when no shortcut is added by the coordinates of a slot that is occupied. -/
theorem shortcut_grid_iff (desktopSize : Size) (images : WindowDecorationImages)
    (events : List GridEvent) :
    (∀ done d, done <+: events →
        StepRun.run Desktop.gridNext (Desktop.new desktopSize images) done = some d →
        d.GridOk ∧ d.shortcuts.Nodup ∧ d.shortcuts.length = done.countP GridEvent.isAdd) ↔
      StepRun.Meets Desktop.gridNext Desktop.SlotFree (Desktop.new desktopSize images) events := by
  have hstep : ∀ d event d', Desktop.GridInv d → Desktop.SlotFree d event →
      d.gridNext event = some d' → d'.GridInv := fun _ _ _ h hfree hnext => h.next hfree hnext
  have hinv := Desktop.new_gridInv desktopSize images
  constructor
  · intro hall
    have hgood : ∀ d, StepRun.Passes Desktop.gridNext (Desktop.new desktopSize images) events d →
        d.GridOk := by
      rintro d ⟨done, hdone, hrun⟩
      exact (hall done d hdone hrun).1
    refine StepRun.meets_of_passes (fun d event d' h _ => hstep d event d' h) hinv
      (StepRun.Meets.trivial events _) hgood fun d event h _ hok => ?_
    cases event with
    | addShortcut line => exact h.slotFree hok
    | dragShortcut s origin => trivial
  · intro hmeets done d hdone hrun
    have h := StepRun.passes_invariant hstep hinv hmeets ⟨done, hdone, hrun⟩
    refine ⟨h.gridOk, h.nodup, ?_⟩
    rw [Desktop.gridNext_run_length done _ d hrun]
    exact Nat.zero_add _

/-- Two lines that ask for the same slot. -/
def sameSlotLines : List GridEvent :=
  [.addShortcut ⟨"usr/applications/snake", "Snake", some (0, 0)⟩,
    .addShortcut ⟨"usr/applications/tetris", "Tetris", some (0, 0)⟩]

/-- The second shortcut takes the slot, the first one is in no slot any more, and letting go of it
is a panic. -/
theorem shortcut_pushed_out :
    ∃ d, StepRun.run Desktop.gridNext (Desktop.new ⟨400, 400⟩ ⟨⟨12, 12⟩, ⟨12, 12⟩⟩) sameSlotLines =
        some d ∧
      d.shortcuts = [0, 1] ∧ (∀ slot ∈ d.slots, slot.occupant ≠ some 0) ∧
      (d.dropShortcut 0 ⟨300, 300⟩).isNone ∧ ¬d.GridOk := by
  have hrun : (StepRun.run Desktop.gridNext (Desktop.new ⟨400, 400⟩ ⟨⟨12, 12⟩, ⟨12, 12⟩⟩)
      sameSlotLines).any (fun d => d.shortcuts = [0, 1] ∧
        (∀ slot ∈ d.slots, slot.occupant ≠ some 0) ∧
        (d.dropShortcut 0 ⟨300, 300⟩).isNone) = true := by decide +kernel
  obtain ⟨d, hd, hfacts⟩ := (Option.any_eq_true _ _).mp hrun
  obtain ⟨hshortcuts, hslots, hdrop⟩ := of_decide_eq_true hfacts
  refine ⟨d, hd, hshortcuts, hslots, hdrop, fun hok => ?_⟩
  obtain ⟨slot, ⟨hslot, hocc⟩, -⟩ := hok.slot 0 (by rw [hshortcuts]; decide)
  exact hslots slot hslot hocc

end Axle.Awm
