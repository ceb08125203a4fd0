import Axle.GameBoy.Sprites

/-!
# The runs of the picture unit

The unit draws the lines below 144.  Without overflow checks nothing stops it: the loop over a line
ends with all its pixels, and a sprite is drawn or passed over wherever it is.

* `ppu_run_some` — **PROVED**: without the checks no run stops;
* `mode_machine_never` — **PROVED**: no run keeps the law, and every run follows the timeline.
-/

namespace Axle.GameBoy

open Axle.Lib.StepRun

variable {h : PpuHistory} {s : Ppu} {es : List PpuEvent} {frame : List Byte} {screenY : Byte}

namespace Ppu

/-! ### Drawing does not panic without the checks -/

theorem renderScanline_some (mem : Memory) (hy : screenY.toNat < 144)
    (hframe : s.frame.length = frameSize) :
    ∃ frame windowY, s.renderScanline false mem screenY = some (frame, windowY) ∧
      frame.length = frameSize := by
  obtain ⟨frame, hrender, hpainted⟩ := (s.renderScanline_spec mem false hy hframe).2
    fun h => Bool.false_ne_true h.1
  exact ⟨frame, _, hrender, hpainted.length.trans hframe⟩

theorem renderSprite_some (s : Ppu) (mem : Memory) (hy : screenY.toNat < 144)
    (hframe : frame.length = frameSize) (i : ℕ) :
    ∃ frame', s.renderSprite false mem screenY frame i = some frame' ∧
      frame'.length = frameSize := by
  obtain ⟨left, hleft⟩ := subUsize_off (spriteX mem i) 8
  obtain ⟨top, htop⟩ := subUsize_off (spriteY mem i) 16
  rw [renderSprite_eq, hleft, Option.bind_some, htop, Option.bind_some]
  split
  · exact ⟨frame, rfl, hframe⟩
  · obtain ⟨tile, htile⟩ := s.tileOfRow_off (oamByte mem i 2) (if (oamByte mem i 3).getLsbD 6 then
      s.spriteHeight - 1 - (screenY.toNat - top) else screenY.toNat - top)
    rw [htile, Option.bind_some]
    obtain ⟨frame', hput, hpainted⟩ := putSpriteRow_spec (getTileRowFromVram_length mem
      (0x8000 + tile.2.toNat * 16) tile.1 (s.spriteShade mem i)) hy left
      ((oamByte mem i 3).getLsbD 5) 8 0 frame le_rfl hframe
    exact ⟨frame', hput, hpainted.length.trans hframe⟩

theorem renderSprites_some (s : Ppu) (mem : Memory) (hy : screenY.toNat < 144) :
    ∀ (entries : List ℕ) (frame : List Byte), frame.length = frameSize →
      ∃ frame', entries.foldlM (s.renderSprite false mem screenY) frame = some frame' ∧
        frame'.length = frameSize := by
  intro entries
  induction entries with
  | nil => exact fun frame hframe => ⟨frame, rfl, hframe⟩
  | cons i entries ih =>
    intro frame hframe
    obtain ⟨frame', hsprite, hlen⟩ := s.renderSprite_some mem hy hframe i
    rw [List.foldlM_cons, hsprite]
    exact ih frame' hlen

theorem drawLine_some (s : Ppu) (mem : Memory) (hy : s.ly.toNat < 144)
    (hframe : s.frame.length = frameSize) :
    ∃ t signals, s.drawLine false mem = some (t, signals) ∧ t.frame.length = frameSize := by
  obtain ⟨frame, windowY, hscan, hlen⟩ := renderScanline_some mem hy hframe
  obtain ⟨frame', hsprites, hlen'⟩ :=
    ({ s with frame := frame, windowCurrentY := windowY } : Ppu).renderSprites_some mem hy
      (List.range 40) frame hlen
  have hsprites' : ({ s with frame := frame, windowCurrentY := windowY } : Ppu).renderSpritesOnScanline
      false mem s.ly = some frame' := hsprites
  exact ⟨_, _, by
    rw [drawLine, hscan, Option.bind_eq_bind, Option.bind_some]
    dsimp only
    rw [hsprites']
    rfl, hlen'⟩

theorem setMode_frame (s : Ppu) (m : PpuMode) : (s.setMode m).1.frame = s.frame := by
  cases m <;> rfl

theorem setMode_some {m : PpuMode} (hframe : s.frame.length = frameSize) :
    ∃ t signals, some (s.setMode m) = some (t, signals) ∧ t.frame.length = frameSize :=
  ⟨(s.setMode m).1, (s.setMode m).2, rfl, by rw [setMode_frame, hframe]⟩

theorem step_some (mem : Memory) (hly : s.currentMode = .hBlank → s.ly.toNat < 144)
    (hframe : s.frame.length = frameSize) :
    ∃ t signals, s.step false mem = some (t, signals) ∧ t.frame.length = frameSize := by
  cases hmode : s.currentMode with
  | oamSearch =>
    simp only [step, hmode]
    split_ifs
    · exact setMode_some hframe
    · exact ⟨_, _, rfl, hframe⟩
  | pixelTransfer =>
    simp only [step, hmode]
    split_ifs
    · exact setMode_some hframe
    · exact ⟨_, _, rfl, hframe⟩
  | hBlank =>
    simp only [step, hmode]
    by_cases hdraw : s.ticks + 1 = 64
    · obtain ⟨t, signals, ht, hlen⟩ :=
        ({ s with ticks := s.ticks + 1, currentMode := .hBlank } : Ppu).drawLine_some mem (hly hmode)
          hframe
      have hticks : t.ticks = s.ticks + 1 := (drawLine_spec ht).2.1
      rw [if_pos hdraw, ht, Option.bind_eq_bind, Option.bind_some]
      dsimp only
      rw [if_neg (by omega)]
      exact ⟨_, _, rfl, hlen⟩
    · rw [if_neg hdraw, Option.bind_eq_bind, Option.bind_some]
      split_ifs
      · rw [incU8_off, Option.bind_eq_bind, Option.bind_some]
        exact ⟨_, _, rfl, (congrArg List.length (setMode_frame _ _)).trans hframe⟩
      · exact ⟨_, _, rfl, hframe⟩
  | vBlank =>
    simp only [step, hmode]
    split_ifs
    · rw [incU8_off, Option.bind_eq_bind, Option.bind_some]
      split_ifs
      · exact setMode_some hframe
      · exact ⟨_, _, rfl, hframe⟩
    · exact ⟨_, _, rfl, hframe⟩

theorem write_some {addr : BitVec 16} (val : Byte) (h : contains addr = true) :
    ∃ t, s.write addr val = some t ∧ t.frame = s.frame := by
  unfold contains at h
  unfold write
  split
  all_goals first
    | exact ⟨_, rfl, rfl⟩
    | simp_all

end Ppu

/-- A step, or a write that reaches the unit. -/
def PpuEvent.Owned : PpuEvent → Prop
  | .step _ => True
  | .write addr _ => Ppu.contains addr = true

theorem ppuNext_some (hh : Timeline h) (hframe : h.ppu.frame.length = Ppu.frameSize) {e : PpuEvent}
    (he : e.Owned) :
    ∃ t, ppuNext false h e = some t ∧ Timeline t ∧ t.ppu.frame.length = Ppu.frameSize := by
  cases e with
  | step mem =>
    have hly : h.ppu.currentMode = .hBlank → h.ppu.ly.toNat < 144 := by
      intro hmode
      have hm := hmode.symm.trans hh.schedule.mode
      unfold modeAt windowHeight at hm
      split_ifs at hm with hline
      rw [hh.schedule.ly]
      exact Nat.not_le.mp hline
    obtain ⟨ppu, signals, hstep, hlen⟩ := Ppu.step_some mem hly hframe
    have hnext : ppuNext false h (.step mem) = some ⟨ppu, h.steps + 1, h.signals ++ signals⟩ := by
      rw [ppuNext, hstep, Option.map_some]
    exact ⟨_, hnext, hh.next hnext, hlen⟩
  | write addr val =>
    obtain ⟨ppu, hwrite, hsame⟩ := Ppu.write_some (s := h.ppu) val he
    have hnext : ppuNext false h (.write addr val) = some { h with ppu := ppu } := by
      rw [ppuNext, hwrite, Option.map_some]
    exact ⟨_, hnext, hh.next hnext, hsame ▸ hframe⟩

theorem ppu_run_some (hframe : frame.length = Ppu.frameSize) (hes : ∀ e ∈ es, e.Owned) :
    ∃ h, run (ppuNext false) (.start frame) es = some h := by
  have hstep : ∀ (h : PpuHistory) (e : PpuEvent),
      Timeline h ∧ h.ppu.frame.length = Ppu.frameSize → e.Owned →
        ∃ t, ppuNext false h e = some t ∧ Timeline t ∧ t.ppu.frame.length = Ppu.frameSize :=
    fun h e hs he => ppuNext_some hs.1 hs.2 he
  obtain ⟨h, hrun, -⟩ := run_total hstep es (.start frame) ⟨Timeline.start frame, hframe⟩
    (Meets.of_forall es _ hes)
  exact ⟨h, hrun⟩

/-! ### The law -/

theorem start_not_showsMode (frame : List Byte) : ¬ShowsMode (.start frame) := by
  show ¬((0 : Byte) &&& 0b11 = Ppu.modeValue .oamSearch)
  decide

theorem start_not_showsLyc (frame : List Byte) : ¬ShowsLyc (.start frame) := by
  show ¬((0 : Byte).getLsbD 2 = true ↔ (0 : Byte) = 0)
  decide

theorem passes_start (checks : Bool) (frame : List Byte) (es : List PpuEvent) :
    Passes (ppuNext checks) (.start frame) es (.start frame) := ⟨[], List.nil_prefix, rfl⟩

/-- After 153 lines of 114 steps the unit is back at line 0, not at line 153. -/
theorem Timeline.not_onSchedule (hh : Timeline h) (hsteps : h.steps = 153 * 114)
    (search transfer : ℕ) : ¬OnSchedule 154 search transfer h := by
  intro hon
  have hly := hh.schedule.ly
  rw [hon.ly, hsteps] at hly
  exact absurd hly (by decide)

/-- **The law fails in every run**: the status register is wrong from the start, in both of its
parts, and a frame that is run to its end is one line short.  Every run follows the timeline, and
without overflow checks none stops. -/
theorem mode_machine_never (checks : Bool) (frame : List Byte) (es : List PpuEvent) :
    ¬ModeMachine checks frame es ∧
      (∃ h, Passes (ppuNext checks) (.start frame) es h ∧ ¬ShowsMode h ∧ ¬ShowsLyc h) ∧
      (∀ h, Passes (ppuNext checks) (.start frame) es h →
        Timeline h ∧ (h.steps = 153 * 114 → ∀ search transfer, ¬OnSchedule 154 search transfer h)) ∧
      (checks = false → frame.length = Ppu.frameSize → (∀ e ∈ es, e.Owned) →
        ∃ h, run (ppuNext checks) (.start frame) es = some h) := by
  have hstart := passes_start checks frame es
  refine ⟨fun hlaw => start_not_showsMode frame (hlaw.mode _ hstart),
    ⟨_, hstart, start_not_showsMode frame, start_not_showsLyc frame⟩, fun h hpass => ?_, ?_⟩
  · have hh := Timeline.of_passes hpass
    exact ⟨hh, hh.not_onSchedule⟩
  · rintro rfl hframe hes
    exact ppu_run_some hframe hes

/-- The new unit searches OAM and compares equal, and its status register says neither. -/
theorem status_of_new :
    (Ppu.new []).currentMode = .oamSearch ∧ (Ppu.new []).stat &&& 0b11 = Ppu.modeValue .hBlank ∧
      (Ppu.new []).ly = (Ppu.new []).lyc ∧ (Ppu.new []).stat.getLsbD 2 = false ∧
      ¬ModeMachine true [] [] := by
  refine ⟨rfl, by decide, rfl, by decide, fun hlaw => ?_⟩
  exact start_not_showsMode [] (hlaw.mode _ (passes_start true [] []))

end Axle.GameBoy
