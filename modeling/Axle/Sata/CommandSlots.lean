import Axle.Lib.StepRun
import Mathlib.Logic.Function.Basic
import Mathlib.Tactic

/-!
# Command slots of the SATA driver

A port of the AHCI controller has 32 command slots.  `send_command_req` takes the first slot whose
bit in the issue register is clear, writes the slot's command header, and sets the bit.  The device
clears the bit when it is done with the command.  The driver learns of it at the port's next
interrupt, where `handle_interrupt` completes and drops commands.

* `portNext` — requests, device steps that clear one issue bit, and interrupts;
* `SlotsOk` — the slots of the active commands are distinct and their headers untouched, and
  `complete` is called once for each command, with its bit clear;
* `StepKeepsSlots` — an interrupt finds no command outstanding, and a request does not take the
  slot of a command the driver still counts as active;
* `command_slots_iff` — **PROVED**: the slots are in order all along a run if and only if every
  step of it is of this kind.

The body of `handle_interrupt` calls `complete` for every active command, whatever its bit says,
so an interrupt for one command completes all others as well.
-/

namespace Axle.Sata

open Axle.Lib.StepRun

/-! ### Requests and commands -/

structure DiskSectorRange where
  startSector : ℕ
  sectorCount : ℕ
  deriving DecidableEq, Repr

def sectorSize : ℕ := 512

def DiskSectorRange.size (r : DiskSectorRange) : ℕ := sectorSize * r.sectorCount

inductive CommandOpcode where
  | readDmaExt
  | writeDmaExt
  | identifyDevice
  deriving DecidableEq, Repr

inductive CommandData where
  | identifyDevice
  | writeDmaExt (sectorRange : DiskSectorRange) (data : List (BitVec 8))
  | readDmaExt (sectorRange : DiskSectorRange)
  deriving DecidableEq, Repr

structure CommandRequest where
  opcode : CommandOpcode
  cmdData : CommandData
  deriving DecidableEq, Repr

namespace CommandRequest

def newIdentifyCommand : CommandRequest := ⟨.identifyDevice, .identifyDevice⟩

end CommandRequest

namespace CommandData

def requiredDataBufferSize : CommandData → ℕ
  | identifyDevice => 0x1000
  | readDmaExt sectorRange => sectorRange.size
  | writeDmaExt sectorRange _ => sectorRange.size

/-- The size in regions of 0x1000 bytes, rounded up. -/
def physRegionCount (data : CommandData) : ℕ := (data.requiredDataBufferSize + 0xfff) / 0x1000

/-- The conversion of the sector count to a `u16` does not fail. -/
def fitsFis : CommandData → Bool
  | identifyDevice => true
  | readDmaExt sectorRange | writeDmaExt sectorRange _ => sectorRange.sectorCount < 65536

end CommandData

structure ActiveCommand where
  /-- The number of the request; the source tells commands apart by their buffers. -/
  id : ℕ
  commandSlot : ℕ
  commandData : CommandData
  commandType : CommandOpcode
  deriving DecidableEq, Repr

/-- `complete` does not panic: it looks at the first region of a command that has read data, and
a read command must have the data of one. -/
def ActiveCommand.completes (c : ActiveCommand) : Bool :=
  match c.commandType with
  | .readDmaExt =>
    match c.commandData with
    | .readDmaExt _ => 0 < c.commandData.physRegionCount
    | _ => false
  | .writeDmaExt => true
  | .identifyDevice => 0 < c.commandData.physRegionCount

/-- The header of a slot: the command table is given by the number of its command. -/
structure CommandHeader where
  commandTable : ℕ
  commandFisLen : ℕ
  write : Bool
  clearBusyUponROk : Bool
  physRegionDescTableLen : ℕ
  deriving DecidableEq, Repr

/-! ### The port -/

structure AhciPort where
  commandIssue : BitVec 32
  commandList : ℕ → Option CommandHeader
  activeCommands : List ActiveCommand
  nextId : ℕ
  panicked : Bool
  /-- The calls of `complete`, each with the command's issue bit; not kept by the code. -/
  completions : List (ℕ × Bool)

namespace AhciPort

/-- A port after its initialization. -/
def init : AhciPort := ⟨0#32, fun _ => none, [], 0, false, []⟩

def findFreeCommandSlot (p : AhciPort) : Option ℕ :=
  (List.range 32).find? fun slot => p.commandIssue.getLsbD slot = false

def headerFor (id : ℕ) (request : CommandRequest) : CommandHeader where
  commandTable := id
  commandFisLen := 5
  write := request.opcode = .writeDmaExt
  clearBusyUponROk := true
  physRegionDescTableLen := request.cmdData.physRegionCount

def sendCommandReq (p : AhciPort) (request : CommandRequest) : AhciPort :=
  match p.findFreeCommandSlot with
  | none => { p with panicked := true }
  | some slot =>
    let p := { p with
      commandList := Function.update p.commandList slot (some (headerFor p.nextId request)) }
    if request.cmdData.fitsFis then
      { p with
        activeCommands := p.activeCommands ++ [⟨p.nextId, slot, request.cmdData, request.opcode⟩]
        nextId := p.nextId + 1
        commandIssue := p.commandIssue ||| (1#32 <<< slot) }
    else { p with panicked := true }

/-- The device is done with the command in a slot. -/
def clearIssueBit (p : AhciPort) (slot : ℕ) : AhciPort :=
  { p with commandIssue := p.commandIssue &&& ~~~(1#32 <<< slot) }

def errorBits : List ℕ := [04, 23, 24, 26, 27, 28, 29, 30]

def hasError (interruptStatus : BitVec 32) : Bool := errorBits.any (interruptStatus.getLsbD ·)

/-- The commands whose `complete` is called: all of them, up to one that panics. -/
def reached : List ActiveCommand → List ActiveCommand
  | [] => []
  | c :: rest => if c.completes then c :: reached rest else [c]

def handleInterrupt (p : AhciPort) (interruptStatus : BitVec 32) : AhciPort :=
  -- "Handle port error"
  if hasError interruptStatus then { p with panicked := true }
  else
    let p := { p with
      completions := p.completions ++
        (reached p.activeCommands).map fun c : ActiveCommand =>
          (c.id, p.commandIssue.getLsbD c.commandSlot) }
    if p.activeCommands.all ActiveCommand.completes then
      { p with
        activeCommands := p.activeCommands.filter fun c : ActiveCommand =>
          p.commandIssue.getLsbD c.commandSlot }
    else { p with panicked := true }

end AhciPort

inductive PortEvent where
  | send (request : CommandRequest)
  | device (slot : ℕ)
  | interrupt (interruptStatus : BitVec 32)
  deriving DecidableEq, Repr

/-- The device clears only bits that are set, and nothing happens after a panic. -/
def portNext (p : AhciPort) (event : PortEvent) : Option AhciPort :=
  if p.panicked then none
  else
    match event with
    | .send request => some (p.sendCommandReq request)
    | .device slot => if p.commandIssue.getLsbD slot then some (p.clearIssueBit slot) else none
    | .interrupt interruptStatus => some (p.handleInterrupt interruptStatus)

/-! ### The slots -/

namespace AhciPort

/-- The commands that are active have slots of their own, whose headers are still theirs, as has
every command that is outstanding.  `complete` has been called once for each command that is no
longer active, for no command twice, and only with the command's issue bit clear. -/
structure SlotsOk (p : AhciPort) : Prop where
  distinct : (p.activeCommands.map ActiveCommand.commandSlot).Nodup
  headers : ∀ c ∈ p.activeCommands,
    p.commandList c.commandSlot = some (headerFor c.id ⟨c.commandType, c.commandData⟩)
  outstanding : ∀ slot, p.commandIssue.getLsbD slot = true →
    slot ∈ p.activeCommands.map ActiveCommand.commandSlot
  once : (p.completions.map Prod.fst).Nodup
  dropped : ∀ id < p.nextId, id ∉ p.activeCommands.map ActiveCommand.id →
    id ∈ p.completions.map Prod.fst
  clear : ∀ call ∈ p.completions, call.2 = false

end AhciPort

/-- A request does not take the slot of an active command; at an interrupt without an error, no
command that `complete` is called for is outstanding. -/
def StepKeepsSlots (p : AhciPort) : PortEvent → Prop
  | .send _ => p.panicked = false →
      ∀ slot ∈ p.findFreeCommandSlot, ∀ c ∈ p.activeCommands, c.commandSlot ≠ slot
  | .device _ => True
  | .interrupt interruptStatus => p.panicked = false →
      AhciPort.hasError interruptStatus = false →
      ∀ c ∈ AhciPort.reached p.activeCommands, p.commandIssue.getLsbD c.commandSlot = false

instance (p : AhciPort) : ∀ event, Decidable (StepKeepsSlots p event)
  | .send _ => inferInstanceAs (Decidable (_ → ∀ slot ∈ p.findFreeCommandSlot, _))
  | .device _ => inferInstanceAs (Decidable True)
  | .interrupt _ => inferInstanceAs (Decidable (_ → _ → _))

namespace AhciPort

variable {p p' : AhciPort}

variable {l : List ActiveCommand} {slot : ℕ}

theorem mem_of_mem_reached {c : ActiveCommand} (h : c ∈ reached l) : c ∈ l := by
  induction l with
  | nil => exact h
  | cons a l ih =>
    unfold reached at h
    split at h
    · rcases List.mem_cons.mp h with rfl | h
      · exact List.mem_cons_self
      · exact List.mem_cons_of_mem a (ih h)
    · rw [List.mem_singleton.mp h]
      exact List.mem_cons_self

theorem reached_sublist (l : List ActiveCommand) : (reached l).Sublist l := by
  induction l with
  | nil => exact List.Sublist.refl []
  | cons a l ih =>
    unfold reached
    split
    · exact ih.cons_cons a
    · exact List.singleton_sublist.mpr List.mem_cons_self

theorem reached_eq_self (h : l.all ActiveCommand.completes = true) : reached l = l := by
  induction l with
  | nil => rfl
  | cons a l ih =>
    obtain ⟨ha, hl⟩ := Bool.and_eq_true_iff.mp (List.all_cons ▸ h)
    rw [reached, if_pos ha, ih hl]

theorem findFreeCommandSlot_spec (h : p.findFreeCommandSlot = some slot) :
    slot < 32 ∧ p.commandIssue.getLsbD slot = false := by
  have hmem := List.mem_of_find?_eq_some h
  have hbit := List.find?_some h
  exact ⟨List.mem_range.mp hmem, of_decide_eq_true hbit⟩

theorem getLsbD_issue (hslot : slot < 32) (issue : BitVec 32) (i : ℕ) :
    (issue ||| (1#32 <<< slot)).getLsbD i = (issue.getLsbD i || decide (i = slot)) := by
  by_cases hi : i = slot
  · subst hi
    simp [hslot]
  · simp only [BitVec.getLsbD_or, BitVec.getLsbD_shiftLeft, BitVec.getLsbD_one, hi, decide_false,
      Bool.or_false]
    have : (decide (i < 32) && !decide (i < slot) && (decide (0 < 32) && decide (i - slot = 0)))
        = false := by
      simp only [Bool.and_eq_false_iff, Bool.not_eq_false', decide_eq_true_eq,
        decide_eq_false_iff_not]
      omega
    rw [this, Bool.or_false]

theorem getLsbD_clearIssueBit {slot i : ℕ} (h : (p.clearIssueBit slot).commandIssue.getLsbD i) :
    p.commandIssue.getLsbD i = true := by
  unfold clearIssueBit at h
  rw [BitVec.getLsbD_and, Bool.and_eq_true] at h
  exact h.1

/-! ### The invariant -/

/-- The slots are in order, and the numbers of the commands tell them apart. -/
structure SlotInv (p : AhciPort) : Prop extends SlotsOk p where
  ids_lt : ∀ c ∈ p.activeCommands, c.id < p.nextId
  ids_nodup : (p.activeCommands.map ActiveCommand.id).Nodup
  calls_lt : ∀ id ∈ p.completions.map Prod.fst, id < p.nextId
  pending : p.panicked = false → ∀ c ∈ p.activeCommands, c.id ∉ p.completions.map Prod.fst

theorem init_slotInv : SlotInv init where
  distinct := List.nodup_nil
  headers := by simp [init]
  outstanding := by simp [init]
  once := List.nodup_nil
  dropped := by simp [init]
  clear := by simp [init]
  ids_lt := by simp [init]
  ids_nodup := List.nodup_nil
  calls_lt := by simp [init]
  pending := by simp [init]

theorem SlotInv.panic (h : SlotInv p) : SlotInv { p with panicked := true } :=
  { h with pending := fun hrun => absurd hrun (by simp) }

/-- A header is written to a slot that no active command has. -/
theorem SlotInv.writeHeader (h : SlotInv p) (header : CommandHeader)
    (hfree : ∀ c ∈ p.activeCommands, c.commandSlot ≠ slot) :
    SlotInv { p with commandList := Function.update p.commandList slot (some header) } := by
  refine { h with headers := ?_ }
  intro c hc
  show Function.update p.commandList slot (some header) c.commandSlot = _
  rw [Function.update_of_ne (hfree c hc)]
  exact h.headers c hc

theorem SlotInv.send (h : SlotInv p) (request : CommandRequest)
    (hrun : p.panicked = false)
    (hfree : ∀ slot ∈ p.findFreeCommandSlot, ∀ c ∈ p.activeCommands, c.commandSlot ≠ slot) :
    SlotInv (p.sendCommandReq request) := by
  unfold sendCommandReq
  split
  · exact h.panic
  · rename_i slot hslot
    have hout := hfree slot hslot
    have hwrite := h.writeHeader (headerFor p.nextId request) hout
    split
    · have hbound := (findFreeCommandSlot_spec hslot).1
      refine ⟨⟨?_, ?_, ?_, h.once, ?_, h.clear⟩, ?_, ?_, ?_, ?_⟩
      · rw [List.map_append, List.nodup_append]
        refine ⟨h.distinct, List.nodup_singleton _, ?_⟩
        intro a ha b hb
        obtain ⟨c, hc, rfl⟩ := List.mem_map.mp ha
        rw [List.mem_singleton.mp hb]
        exact hout c hc
      · intro c hc
        rcases List.mem_append.mp hc with hc | hc
        · exact hwrite.headers c hc
        · rw [List.mem_singleton.mp hc]
          exact Function.update_self _ _ _
      · intro i hi
        rw [getLsbD_issue hbound, Bool.or_eq_true, decide_eq_true_eq] at hi
        rw [List.map_append]
        rcases hi with hi | rfl
        · exact List.mem_append_left _ (h.outstanding i hi)
        · exact List.mem_append_right _ (List.mem_singleton.mpr rfl)
      · intro id hid hnot
        rw [List.map_append, List.mem_append, not_or] at hnot
        have hne : id ≠ p.nextId := fun heq => hnot.2 (List.mem_singleton.mpr heq)
        exact h.dropped id (by dsimp only at hid; omega) hnot.1
      · intro c hc
        rcases List.mem_append.mp hc with hc | hc
        · exact Nat.lt_succ_of_lt (h.ids_lt c hc)
        · rw [List.mem_singleton.mp hc]
          exact Nat.lt_succ_self _
      · rw [List.map_append, List.nodup_append]
        refine ⟨h.ids_nodup, List.nodup_singleton _, ?_⟩
        intro a ha b hb
        obtain ⟨c, hc, rfl⟩ := List.mem_map.mp ha
        rw [List.mem_singleton.mp hb]
        exact (h.ids_lt c hc).ne
      · exact fun id hid => Nat.lt_succ_of_lt (h.calls_lt id hid)
      · intro _ c hc hcall
        rcases List.mem_append.mp hc with hc | hc
        · exact h.pending hrun c hc hcall
        · rw [List.mem_singleton.mp hc] at hcall
          exact (h.calls_lt _ hcall).false
    · exact hwrite.panic

theorem SlotInv.device (h : SlotInv p) (slot : ℕ) : SlotInv (p.clearIssueBit slot) :=
  { h with outstanding := fun i hi => h.outstanding i (getLsbD_clearIssueBit hi) }

theorem map_calls (issue : BitVec 32) (l : List ActiveCommand) :
    (l.map fun c : ActiveCommand => (c.id, issue.getLsbD c.commandSlot)).map Prod.fst =
      l.map ActiveCommand.id := by
  rw [List.map_map]
  rfl

theorem SlotInv.interrupt (h : SlotInv p) (interruptStatus : BitVec 32)
    (hrun : p.panicked = false)
    (hdone : hasError interruptStatus = false →
      ∀ c ∈ reached p.activeCommands, p.commandIssue.getLsbD c.commandSlot = false) :
    SlotInv (p.handleInterrupt interruptStatus) := by
  unfold handleInterrupt
  split
  · exact h.panic
  · rename_i hok
    have hclear := hdone (by simpa using hok)
    have honce : ((p.completions ++ (reached p.activeCommands).map fun c : ActiveCommand =>
        (c.id, p.commandIssue.getLsbD c.commandSlot)).map Prod.fst).Nodup := by
      rw [List.map_append, map_calls, List.nodup_append]
      refine ⟨h.once, h.ids_nodup.sublist ((reached_sublist _).map _), ?_⟩
      intro a ha b hb
      obtain ⟨c, hc, rfl⟩ := List.mem_map.mp hb
      rintro rfl
      exact h.pending hrun c (mem_of_mem_reached hc) ha
    have hcalls : ∀ call ∈ p.completions ++ (reached p.activeCommands).map
        fun c : ActiveCommand => (c.id, p.commandIssue.getLsbD c.commandSlot),
        call.2 = false := by
      intro call hcall
      rcases List.mem_append.mp hcall with hcall | hcall
      · exact h.clear call hcall
      · obtain ⟨c, hc, rfl⟩ := List.mem_map.mp hcall
        exact hclear c hc
    have hlt : ∀ id ∈ (p.completions ++ (reached p.activeCommands).map
        fun c : ActiveCommand => (c.id, p.commandIssue.getLsbD c.commandSlot)).map Prod.fst,
        id < p.nextId := by
      intro id hid
      rw [List.map_append, map_calls] at hid
      rcases List.mem_append.mp hid with hid | hid
      · exact h.calls_lt id hid
      · obtain ⟨c, hc, rfl⟩ := List.mem_map.mp hid
        exact h.ids_lt c (mem_of_mem_reached hc)
    have hsub : ∀ id ∈ p.completions.map Prod.fst,
        id ∈ (p.completions ++ (reached p.activeCommands).map fun c : ActiveCommand =>
          (c.id, p.commandIssue.getLsbD c.commandSlot)).map Prod.fst := by
      intro id hid
      rw [List.map_append]
      exact List.mem_append_left _ hid
    dsimp only
    split
    · rename_i hall
      rw [reached_eq_self hall] at hclear
      have hnone : (p.activeCommands.filter fun c : ActiveCommand =>
          p.commandIssue.getLsbD c.commandSlot) = [] := by
        rw [List.filter_eq_nil_iff]
        intro c hc
        rw [hclear c hc]
        exact Bool.false_ne_true
      refine ⟨⟨?_, ?_, ?_, honce, ?_, hcalls⟩, ?_, ?_, hlt, ?_⟩
      · rw [hnone]
        exact List.nodup_nil
      · rw [hnone]
        exact fun c hc => absurd hc List.not_mem_nil
      · -- a bit that is set belongs to an active command, and all their bits are clear
        intro slot hslot
        obtain ⟨c, hc, rfl⟩ := List.mem_map.mp (h.outstanding slot hslot)
        rw [hclear c hc] at hslot
        exact absurd hslot Bool.false_ne_true
      · intro id hid _
        by_cases hact : id ∈ p.activeCommands.map ActiveCommand.id
        · rw [List.map_append, map_calls, reached_eq_self hall]
          exact List.mem_append_right _ hact
        · exact hsub id (h.dropped id hid hact)
      · rw [hnone]
        exact fun c hc => absurd hc List.not_mem_nil
      · rw [hnone]
        exact List.nodup_nil
      · rw [hnone]
        exact fun _ c hc => absurd hc List.not_mem_nil
    · exact ⟨⟨h.distinct, h.headers, h.outstanding, honce,
        fun id hid hact => hsub id (h.dropped id hid hact), hcalls⟩, h.ids_lt, h.ids_nodup, hlt,
        fun hrun' => absurd hrun' (by simp)⟩

end AhciPort

variable {event : PortEvent} {p : AhciPort}

/-- **A step that keeps the slots keeps the invariant (proved).** -/
theorem portNext_slotInv {p p' : AhciPort} (h : AhciPort.SlotInv p) (hok : StepKeepsSlots p event)
    (hnext : portNext p event = some p') : AhciPort.SlotInv p' := by
  unfold portNext at hnext
  split at hnext
  · exact absurd hnext (by simp)
  · rename_i hpanic
    have hrun : p.panicked = false := by simpa using hpanic
    cases event with
    | send request =>
      rw [← Option.some.inj hnext]
      exact h.send request hrun (hok hrun)
    | device slot =>
      dsimp only at hnext
      split at hnext
      · rw [← Option.some.inj hnext]
        exact h.device slot
      · exact absurd hnext (by simp)
    | interrupt interruptStatus =>
      rw [← Option.some.inj hnext]
      exact h.interrupt interruptStatus hrun (hok hrun)

theorem stepKeepsSlots_of_slotsOk (h : AhciPort.SlotInv p)
    (hgood : ∀ p', portNext p event = some p' → AhciPort.SlotsOk p') : StepKeepsSlots p event := by
  cases event with
  | send request =>
    intro hrun slot hslot c hc heq
    have hafter := hgood (p.sendCommandReq request) (by simp [portNext, hrun])
    unfold AhciPort.sendCommandReq at hafter
    rw [Option.mem_def.mp hslot] at hafter
    dsimp only at hafter
    split at hafter
    · -- the slot is in the list twice
      have hdistinct := hafter.distinct
      rw [List.map_append, List.nodup_append] at hdistinct
      exact hdistinct.2.2 _ (List.mem_map_of_mem hc) slot (List.mem_singleton.mpr rfl) heq
    · -- the panic comes after the header has been written
      have hheader := hafter.headers c hc
      dsimp only at hheader
      rw [heq, Function.update_self] at hheader
      have hid := congrArg CommandHeader.commandTable (Option.some.inj hheader)
      exact (h.ids_lt c hc).ne' hid
  | device slot => exact True.intro
  | interrupt interruptStatus =>
    intro hrun herror c hc
    have hafter := hgood (p.handleInterrupt interruptStatus) (by simp [portNext, hrun])
    have hcall : (c.id, p.commandIssue.getLsbD c.commandSlot) ∈
        (p.handleInterrupt interruptStatus).completions := by
      unfold AhciPort.handleInterrupt
      rw [if_neg (by simp [herror])]
      dsimp only
      have hmem : (c.id, p.commandIssue.getLsbD c.commandSlot) ∈ p.completions ++
          (AhciPort.reached p.activeCommands).map fun c : ActiveCommand =>
            (c.id, p.commandIssue.getLsbD c.commandSlot) :=
        List.mem_append_right _ (List.mem_map.mpr ⟨c, hc, rfl⟩)
      split
      · exact hmem
      · exact hmem
    exact hafter.clear _ hcall

/-- **When the command slots are in order (proved).**  For every interleaving of requests, device
steps and interrupts: in every state of the run the active commands have slots of their own with
their own headers, and `complete` has been called exactly once for every command that is gone and
never with its issue bit set, if and only if no request takes the slot of an active command and no
interrupt finds one outstanding. -/
theorem command_slots_iff (events : List PortEvent) :
    (∀ p, Passes portNext AhciPort.init events p → AhciPort.SlotsOk p) ↔
      Meets portNext StepKeepsSlots AhciPort.init events := by
  constructor
  · intro hgood
    have hstep : ∀ p event p', AhciPort.SlotInv p → True → StepKeepsSlots p event →
        portNext p event = some p' → AhciPort.SlotInv p' :=
      fun p event p' h _ hok hnext => portNext_slotInv h hok hnext
    exact meets_of_passes hstep AhciPort.init_slotInv (Meets.trivial events _) hgood
      (fun p event h _ hnext => stepKeepsSlots_of_slotsOk h hnext)
  · intro hmeets p hpass
    exact (passes_invariant (fun p event p' h hok hnext => portNext_slotInv h hok hnext)
      AhciPort.init_slotInv hmeets hpass).toSlotsOk

/-- An interrupt while the command is with the device. -/
def interruptedEarly : List PortEvent := [.send CommandRequest.newIdentifyCommand, .interrupt 0#32]

/-- `complete` is called with the issue bit set. -/
theorem interruptedEarly_completed :
    ¬ ∀ p, Passes portNext AhciPort.init interruptedEarly p → AhciPort.SlotsOk p := by
  intro h
  obtain ⟨p, hp⟩ : ∃ p, run portNext AhciPort.init interruptedEarly = some p := ⟨_, rfl⟩
  have hclear := (h p ⟨interruptedEarly, List.prefix_refl _, hp⟩).clear (0, true)
  rw [← Option.some.inj hp] at hclear
  exact absurd (hclear (by decide)) (by decide)

/-- Two commands that are done before an interrupt comes, the second one in the slot of the first:
a run that does not meet the condition either. -/
example : ¬ Meets portNext StepKeepsSlots AhciPort.init
    [.send CommandRequest.newIdentifyCommand, .device 0,
      .send CommandRequest.newIdentifyCommand] := by decide

end Axle.Sata
