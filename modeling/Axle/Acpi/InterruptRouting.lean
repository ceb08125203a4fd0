import Mathlib.Data.BitVec
import Mathlib.Data.List.Nodup
import Mathlib.Logic.Function.Basic
import Mathlib.Tactic.SplitIfs

/-!
# Interrupt routing

`apic_init` routes the interrupts of the ISA bus to vectors from 64 on: those with an override by its
line of the I/O APIC, the others by the line of their own number unless an override has taken it.
The first vector that is left goes to the local timer.

* `RoutesInterrupts` — what the table should say afterwards;
* `routesInterrupts_iff` — **PROVED**: it says so exactly when the lowest byte of the local APIC's
  id register is the id.

The id is the highest byte of that register, and `ProcessorLocalApic::id` returns it unshifted.
-/

namespace Axle.Acpi

open Function

/-! ### Entries of the redirection table -/

/-- `bits[start..start + w].store(value)`, which keeps the low bits of the value. -/
def store {n : ℕ} (bits : BitVec 64) (start w : ℕ) (value : BitVec n) : BitVec 64 :=
  (bits &&& ~~~((BitVec.allOnes w).setWidth 64 <<< start)) |||
    ((value.setWidth w).setWidth 64 <<< start)

structure RemapIrqDescription where
  inner : BitVec 64
  /-- The line, which is the number of the entry. -/
  irqVector : BitVec 8

namespace RemapIrqDescription

def setRemappedIntVector (r : RemapIrqDescription) (vector : BitVec 8) : RemapIrqDescription :=
  { r with inner := store r.inner 0 8 vector }

def setInterruptMasked (r : RemapIrqDescription) (masked : Bool) : RemapIrqDescription :=
  { r with inner := store r.inner 16 1 (BitVec.ofBool masked) }

def setDestinationLocalApicId (r : RemapIrqDescription) (apicId : BitVec 32) :
    RemapIrqDescription :=
  { r with inner := store r.inner 56 8 apicId }

def new (irqVector remappedIntVector : BitVec 8) (destLocalApicId : BitVec 32) :
    RemapIrqDescription :=
  let ret := (⟨0, irqVector⟩ : RemapIrqDescription).setRemappedIntVector remappedIntVector
  let ret := { ret with inner := store ret.inner 8 3 (0 : BitVec 8) }
  let ret := { ret with inner := store ret.inner 11 1 (BitVec.ofBool false) }
  (ret.setInterruptMasked false).setDestinationLocalApicId destLocalApicId

end RemapIrqDescription

/-- The registers of the I/O APIC, by the number written to its select word. -/
abbrev Registers := ℕ → BitVec 32

def lowReg (line : ℕ) : ℕ := 0x10 + line * 2

def remapIrq (registers : Registers) (remap : RemapIrqDescription) : Registers :=
  let low := lowReg remap.irqVector.toNat
  update (update registers low (remap.inner.setWidth 32)) (low + 1)
    ((remap.inner >>> 32).setWidth 32)

/-- `IoApic::max_redirection_entry` -/
def maxRedirectionEntry (registers : Registers) : ℕ := ((registers 1).extractLsb' 16 8).toNat

/-- `ProcessorLocalApic::id` -/
def localApicId (localApic : Registers) : BitVec 32 := localApic 2

/-! ### The initialisation -/

structure InterruptOverride where
  busSource : ℕ
  irqSource : ℕ
  sysInterrupt : ℕ
  deriving DecidableEq, Repr

def ioapicIdtBase : ℕ := 64

/-- The table and the worklists. -/
structure Routing where
  registers : Registers
  isaIrqsToRemap : List ℕ
  freeIdtVectors : List ℕ

namespace Routing

def start (registers : Registers) : Routing where
  registers := registers
  isaIrqsToRemap := List.range 16
  freeIdtVectors := List.range' ioapicIdtBase 32

variable (apicId : BitVec 32)

/-- An interrupt gets its line, and the vector is not free any more: the end of both loops. -/
def remap (r : Routing) (line source : ℕ) : Routing :=
  let idtVec := ioapicIdtBase + source
  { r with
    registers := remapIrq r.registers
      (.new (BitVec.ofNat 8 line) (BitVec.ofNat 8 idtVec) apicId)
    freeIdtVectors := r.freeIdtVectors.filter (· ≠ idtVec) }

/-- A turn of the first loop. -/
def processOverride (r : Routing) (o : InterruptOverride) : Routing :=
  let r := r.remap apicId o.sysInterrupt o.irqSource
  { r with
    isaIrqsToRemap := (r.isaIrqsToRemap.filter (· ≠ o.sysInterrupt)).filter (· ≠ o.irqSource) }

/-- The second loop, which drains its worklist. -/
def identityMap (r : Routing) : Routing :=
  r.isaIrqsToRemap.foldl (fun r line => r.remap apicId line line) { r with isaIrqsToRemap := [] }

end Routing

/-- `apic_init`, up to the vector of the local timer: the table, that vector, and the free vectors
that are left.  Without a free vector the removal panics. -/
def apicInit (localApic registers : Registers) (overrides : List InterruptOverride) :
    Option (Registers × ℕ × List ℕ) :=
  let r := overrides.foldl (Routing.processOverride (localApicId localApic)) (.start registers)
  let r := r.identityMap (localApicId localApic)
  match r.freeIdtVectors with
  | [] => none
  | timerIntVector :: free => some (r.registers, timerIntVector, free)

/-! ### What the table should say -/

/-- The entry of a line: its vector, not masked, to one APIC. -/
structure Routed (registers : Registers) (line vector : ℕ) (apicId : BitVec 8) : Prop where
  vector : ((registers (lowReg line)).setWidth 8).toNat = vector
  unmasked : (registers (lowReg line)).getLsbD 16 = false
  destination : (registers (lowReg line + 1)).extractLsb' 24 8 = apicId

/-- The lines and the interrupts they are for: that of an override for the interrupt it is about,
and every other line up to 15 for the interrupt of its number, unless this one is overridden. -/
def routes (overrides : List InterruptOverride) : List (ℕ × ℕ) :=
  overrides.map (fun o => (o.sysInterrupt, o.irqSource)) ++
    ((List.range 16).filter fun n =>
      ∀ o ∈ overrides, o.sysInterrupt ≠ n ∧ o.irqSource ≠ n).map fun n => (n, n)

/-- The overrides are about different interrupts of the ISA bus and different lines of the table. -/
structure ProperOverrides (registers : Registers) (overrides : List InterruptOverride) : Prop where
  isa : ∀ o ∈ overrides, o.irqSource < 16
  sources : (overrides.map InterruptOverride.irqSource).Nodup
  inTable : ∀ o ∈ overrides, o.sysInterrupt ≤ maxRedirectionEntry registers
  lines : (overrides.map InterruptOverride.sysInterrupt).Nodup

/-- **What the table should say**: the interrupts are routed to the boot processor, whose id is in
the highest byte of the register; nothing else is written; and no vector is used twice, by two
entries or by an entry and the timer. -/
def RoutesInterrupts (localApic registers : Registers) (overrides : List InterruptOverride) : Prop :=
  ∃ table timerIntVector free,
    apicInit localApic registers overrides = some (table, timerIntVector, free) ∧
    (∀ r ∈ routes overrides,
      Routed table r.1 (ioapicIdtBase + r.2) ((localApic 2).extractLsb' 24 8)) ∧
    (∀ i, (∀ r ∈ routes overrides, i ≠ lowReg r.1 ∧ i ≠ lowReg r.1 + 1) → table i = registers i) ∧
    (∀ r ∈ routes overrides, ∀ r' ∈ routes overrides,
      (table (lowReg r.1)).setWidth 8 = (table (lowReg r'.1)).setWidth 8 → r = r') ∧
    ∀ r ∈ routes overrides, timerIntVector ≠ ((table (lowReg r.1)).setWidth 8).toNat

/-! ### The entries -/

section Entries

variable (line vector : BitVec 8) (apicId : BitVec 32)

/-- A store is seen in its own bits only. -/
theorem store_getLsbD {n : ℕ} (bits : BitVec 64) (start w : ℕ) (value : BitVec n) (i : ℕ) :
    (store bits start w value).getLsbD i = if start ≤ i ∧ i < start + w ∧ i < 64 then
      value.getLsbD (i - start) else bits.getLsbD i := by
  by_cases h64 : i < 64
  · simp [store, h64]
    grind
  · rw [if_neg (by omega), BitVec.getLsbD_of_ge _ _ (by omega), BitVec.getLsbD_of_ge _ _ (by omega)]

theorem new_getLsbD (i : ℕ) : (RemapIrqDescription.new line vector apicId).inner.getLsbD i =
    if i < 8 then vector.getLsbD i else
      if 56 ≤ i ∧ i < 64 then apicId.getLsbD (i - 56) else false := by
  simp only [RemapIrqDescription.new, RemapIrqDescription.setRemappedIntVector,
    RemapIrqDescription.setInterruptMasked, RemapIrqDescription.setDestinationLocalApicId,
    store_getLsbD]
  by_cases h8 : i < 8
  · simp [h8]
    grind
  · simp [h8]

theorem new_low : (RemapIrqDescription.new line vector apicId).inner.setWidth 32 =
    vector.setWidth 32 := by
  ext i hi
  rw [← BitVec.getLsbD_eq_getElem, ← BitVec.getLsbD_eq_getElem, BitVec.getLsbD_setWidth,
    new_getLsbD, BitVec.getLsbD_setWidth]
  grind

theorem new_high : ((RemapIrqDescription.new line vector apicId).inner >>> 32).setWidth 32 =
    (apicId.setWidth 8).setWidth 32 <<< 24 := by
  ext i hi
  rw [← BitVec.getLsbD_eq_getElem, BitVec.getLsbD_setWidth, BitVec.getLsbD_ushiftRight, new_getLsbD]
  simp [hi]
  grind

end Entries

/-- The table when the lines have been given their interrupts. -/
def written (apicId : BitVec 32) (registers : Registers) (routes : List (ℕ × ℕ)) : Registers :=
  routes.foldl (fun table r => remapIrq table (.new (BitVec.ofNat 8 r.1)
    (BitVec.ofNat 8 (ioapicIdtBase + r.2)) apicId)) registers

section Written

variable {apicId : BitVec 32} {routes : List (ℕ × ℕ)}

theorem written_cons {r : ℕ × ℕ} {registers : Registers} (hr : r.1 < 256) :
    written apicId registers (r :: routes) =
      written apicId (update (update registers (lowReg r.1)
        ((BitVec.ofNat 8 (ioapicIdtBase + r.2)).setWidth 32)) (lowReg r.1 + 1)
        ((apicId.setWidth 8).setWidth 32 <<< 24)) routes := by
  have hline : (BitVec.ofNat 8 r.1).toNat = r.1 := Nat.mod_eq_of_lt hr
  rw [written, List.foldl_cons, remapIrq, new_low, new_high]
  show _ = List.foldl _ (update (update registers (lowReg r.1) _) (lowReg r.1 + 1) _) routes
  conv_rhs => rw [← hline]
  rfl

theorem written_apart {i : ℕ} : ∀ {registers : Registers}, (∀ r ∈ routes, r.1 < 256) →
    (∀ r ∈ routes, i ≠ lowReg r.1 ∧ i ≠ lowReg r.1 + 1) →
    written apicId registers routes i = registers i := by
  induction routes with
  | nil => intro _ _ _; rfl
  | cons r routes ih =>
    intro registers hlt hi
    rw [List.forall_mem_cons] at hlt hi
    rw [written_cons hlt.1, ih hlt.2 hi.2, update_of_ne hi.1.2, update_of_ne hi.1.1]

theorem written_at {r : ℕ × ℕ} : ∀ {registers : Registers}, (∀ r ∈ routes, r.1 < 256) →
    (routes.map Prod.fst).Nodup → r ∈ routes →
    written apicId registers routes (lowReg r.1) =
        (BitVec.ofNat 8 (ioapicIdtBase + r.2)).setWidth 32 ∧
      written apicId registers routes (lowReg r.1 + 1) = (apicId.setWidth 8).setWidth 32 <<< 24 := by
  induction routes with
  | nil => intro _ _ _ h; cases h
  | cons q routes ih =>
    intro registers hlt hnodup hr
    rw [List.forall_mem_cons] at hlt
    rw [List.map_cons, List.nodup_cons] at hnodup
    rw [written_cons hlt.1]
    cases hr with
    | tail _ hr => exact ih hlt.2 hnodup.2 hr
    | head =>
      -- the lines behind it are other lines
      have hne : ∀ q ∈ routes, q.1 ≠ r.1 := fun q hq heq =>
        hnodup.1 (heq ▸ List.mem_map_of_mem hq)
      constructor
      · rw [written_apart hlt.2 fun q hq => by have := hne q hq; unfold lowReg; omega,
          update_of_ne (by omega), update_self]
      · rw [written_apart hlt.2 fun q hq => by have := hne q hq; unfold lowReg; omega, update_self]

end Written

/-! ### The two loops -/

section Loops

variable {i : BitVec 32} {overrides : List InterruptOverride} {registers localApic : Registers}

/-- A loop whose every turn gives one line its interrupt. -/
theorem foldl_remap {α : Type} {f : Routing → α → Routing} {p : α → ℕ × ℕ}
    (hregisters : ∀ r a, (f r a).registers = written i r.registers [p a])
    (hfree : ∀ r a v, v ∈ (f r a).freeIdtVectors ↔
      v ∈ r.freeIdtVectors ∧ v ≠ ioapicIdtBase + (p a).2) (l : List α) : ∀ r : Routing,
    (l.foldl f r).registers = written i r.registers (l.map p) ∧
      ∀ v, v ∈ (l.foldl f r).freeIdtVectors ↔
        v ∈ r.freeIdtVectors ∧ ∀ q ∈ l.map p, v ≠ ioapicIdtBase + q.2 := by
  induction l with
  | nil => intro r; exact ⟨rfl, by simp⟩
  | cons a l ih =>
    intro r
    rw [List.foldl_cons, (ih (f r a)).1, hregisters]
    refine ⟨rfl, fun v => ?_⟩
    rw [(ih (f r a)).2, hfree, List.map_cons, List.forall_mem_cons, and_assoc]

/-- What the first loop leaves for the second. -/
theorem foldl_isaIrqsToRemap : ∀ r : Routing,
    (overrides.foldl (Routing.processOverride i) r).isaIrqsToRemap =
      r.isaIrqsToRemap.filter fun n =>
        ∀ o ∈ overrides, o.sysInterrupt ≠ n ∧ o.irqSource ≠ n := by
  induction overrides with
  | nil => intro r; simp
  | cons o overrides ih =>
    intro r
    rw [List.foldl_cons, ih]
    show ((r.isaIrqsToRemap.filter _).filter _).filter _ = _
    rw [List.filter_filter, List.filter_filter]
    apply List.filter_congr
    intro n _
    simp only [List.forall_mem_cons, ← Bool.decide_and, decide_eq_decide]
    grind

/-- What `apic_init` returns: a vector is left, as there are more vectors than ISA interrupts. -/
theorem apicInit_eq (hsources : ∀ r ∈ routes overrides, r.2 < 16) :
    ∃ timerIntVector free, apicInit localApic registers overrides =
        some (written (localApicId localApic) registers (routes overrides), timerIntVector, free) ∧
      ∀ r ∈ routes overrides, timerIntVector ≠ ioapicIdtBase + r.2 := by
  have hfirst := @foldl_remap (localApicId localApic) _ (Routing.processOverride _)
    (fun o => (o.sysInterrupt, o.irqSource)) (fun _ _ => rfl)
    (by simp [Routing.processOverride, Routing.remap]) overrides (.start registers)
  have hsecond := fun r : Routing => @foldl_remap (localApicId localApic) _
    (fun r line => r.remap _ line line) (fun n => (n, n)) (fun _ _ => rfl)
    (by simp [Routing.remap]) r.isaIrqsToRemap { r with isaIrqsToRemap := [] }
  rw [apicInit]
  generalize hr : overrides.foldl (Routing.processOverride (localApicId localApic))
    (.start registers) = r at hfirst
  have hroutes : routes overrides = overrides.map (fun o => (o.sysInterrupt, o.irqSource)) ++
      r.isaIrqsToRemap.map fun n => (n, n) := by
    rw [← hr, foldl_isaIrqsToRemap]
    rfl
  have hfree : ∀ v, v ∈ (r.identityMap (localApicId localApic)).freeIdtVectors ↔
      v ∈ (Routing.start registers).freeIdtVectors ∧
        ∀ q ∈ routes overrides, v ≠ ioapicIdtBase + q.2 := by
    intro v
    rw [hroutes, List.forall_mem_append, ← and_assoc, ← hfirst.2]
    exact (hsecond r).2 v
  cases hv : (r.identityMap (localApicId localApic)).freeIdtVectors with
  | nil =>
    -- the vector behind those of the ISA interrupts is in the list
    have hmem := (hfree (ioapicIdtBase + 16)).mpr ⟨by simp [Routing.start], fun q hq => by
      have := hsources q hq
      omega⟩
    rw [hv] at hmem
    cases hmem
  | cons timerIntVector free =>
    refine ⟨timerIntVector, free, ?_, ((hfree _).mp (hv ▸ List.mem_cons_self)).2⟩
    rw [hroutes, written, List.foldl_append]
    have htable := (hsecond r).1.trans (congrArg (written _ · _) hfirst.1)
    exact congrArg (fun table => some (table, timerIntVector, free)) htable

/-! ### The routes -/

theorem nodup_routes {f : InterruptOverride → ℕ} {g : ℕ × ℕ → ℕ}
    (hg : ∀ o : InterruptOverride, g (o.sysInterrupt, o.irqSource) = f o) (hid : ∀ n, g (n, n) = n)
    (hf : (overrides.map f).Nodup)
    (hnot : ∀ (o : InterruptOverride) n, o.sysInterrupt ≠ n ∧ o.irqSource ≠ n → f o ≠ n) :
    ((routes overrides).map g).Nodup := by
  have heq : (routes overrides).map g = overrides.map f ++ (List.range 16).filter fun n =>
      ∀ o ∈ overrides, o.sysInterrupt ≠ n ∧ o.irqSource ≠ n := by
    simp [routes, Function.comp_def, hg, hid]
  rw [heq, List.nodup_append]
  refine ⟨hf, List.nodup_range.filter _, ?_⟩
  intro a ha n hn
  obtain ⟨o, ho, rfl⟩ := List.mem_map.mp ha
  exact hnot o n (of_decide_eq_true (List.mem_filter.mp hn).2 o ho)

theorem ProperOverrides.routes_lt (h : ProperOverrides registers overrides) :
    ∀ r ∈ routes overrides, r.1 < 256 ∧ r.2 < 16 := by
  intro r hr
  rcases List.mem_append.mp hr with hr | hr
  · obtain ⟨o, ho, rfl⟩ := List.mem_map.mp hr
    exact ⟨(h.inTable o ho).trans_lt (BitVec.isLt _), h.isa o ho⟩
  · obtain ⟨n, hn, rfl⟩ := List.mem_map.mp hr
    have := List.mem_range.mp (List.mem_filter.mp hn).1
    exact ⟨by omega, this⟩

theorem routes_ne_nil : ∃ r, r ∈ routes overrides := by
  cases overrides with
  | nil => exact ⟨(0, 0), by decide⟩
  | cons o overrides => exact ⟨_, List.mem_cons_self⟩

/-- **When interrupts are routed as they should be (proved).**  For every list of proper overrides
and whatever the registers hold: exactly when the lowest byte of the local APIC's id register is the
same as its highest byte. -/
theorem routesInterrupts_iff (h : ProperOverrides registers overrides) :
    RoutesInterrupts localApic registers overrides ↔
      (localApic 2).setWidth 8 = (localApic 2).extractLsb' 24 8 := by
  have hlines : ((routes overrides).map Prod.fst).Nodup :=
    nodup_routes (fun _ => rfl) (fun _ => rfl) h.lines fun _ _ hne => hne.1
  have hsources : ((routes overrides).map Prod.snd).Nodup :=
    nodup_routes (fun _ => rfl) (fun _ => rfl) h.sources fun _ _ hne => hne.2
  obtain ⟨timerIntVector, free, hinit, htimer⟩ :=
    @apicInit_eq _ registers localApic fun r hr => (h.routes_lt r hr).2
  have hlt : ∀ r ∈ routes overrides, r.1 < 256 := fun r hr => (h.routes_lt r hr).1
  have hvector : ∀ r ∈ routes overrides, ((written (localApicId localApic) registers
      (routes overrides) (lowReg r.1)).setWidth 8).toNat = ioapicIdtBase + r.2 := by
    intro r hr
    have := (h.routes_lt r hr).2
    rw [(written_at hlt hlines hr).1]
    simp [ioapicIdtBase]
    omega
  have hdest : ∀ r ∈ routes overrides, (written (localApicId localApic) registers
      (routes overrides) (lowReg r.1 + 1)).extractLsb' 24 8 = (localApic 2).setWidth 8 := by
    intro r hr
    rw [(written_at hlt hlines hr).2]
    ext i hi
    simp [localApicId]
    grind
  constructor
  · rintro ⟨table, _, _, hinit', hrouted, -⟩
    rw [hinit] at hinit'
    cases hinit'
    obtain ⟨r, hr⟩ : ∃ r, r ∈ routes overrides := routes_ne_nil
    rw [← hdest r hr, (hrouted r hr).destination]
  · intro hid
    refine ⟨_, _, _, hinit, ?_, fun i hi => written_apart hlt hi, ?_, ?_⟩
    · intro r hr
      refine ⟨hvector r hr, ?_, by rw [hdest r hr, hid]⟩
      rw [(written_at hlt hlines hr).1]
      simp
    · intro r hr r' hr' heq
      have hsame := congrArg BitVec.toNat heq
      rw [hvector r hr, hvector r' hr'] at hsame
      exact List.inj_on_of_nodup_map hsources hr hr' (Nat.add_left_cancel hsame)
    · intro r hr
      rw [hvector r hr]
      exact htimer r hr

end Loops

/-- The two overrides of a PC, for processor 0. -/
theorem routesInterrupts_pc :
    RoutesInterrupts (fun _ => 0) (fun _ => 0x00170011) [⟨0, 0, 2⟩, ⟨0, 9, 9⟩] :=
  (routesInterrupts_iff ⟨by decide, by decide, by decide, by decide⟩).mpr (by decide)

/-- The boot processor has id 1: the entries name processor 0. -/
theorem second_processor_not_named :
    ¬RoutesInterrupts (fun _ => 0x01000000) (fun _ => 0x00170011) [⟨0, 0, 2⟩, ⟨0, 9, 9⟩] := by
  rintro ⟨table, _, _, hinit, hrouted, -⟩
  have hdest : (apicInit (fun _ => 0x01000000) (fun _ => 0x00170011) [⟨0, 0, 2⟩, ⟨0, 9, 9⟩]).map
      (fun r => (r.1 (lowReg 2 + 1)).extractLsb' 24 8) = some 0 := by decide
  rw [hinit] at hdest
  have hnamed := (hrouted (2, 0) (by decide)).destination
  rw [show (table (lowReg 2 + 1)).extractLsb' 24 8 = 0 from Option.some.inj hdest] at hnamed
  cases hnamed

end Axle.Acpi
