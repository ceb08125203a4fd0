import Axle.Compiler.Simulator
import Mathlib.Data.List.Chain
import Mathlib.Data.List.TakeWhile

/-!
# The peephole optimizer

`Optimizer::optimize` omits every `push` that is directly followed by a `pop` of the same register
and repeats this until nothing is left to do.  A pass looks at the pairs of neighbours and appends
the last instruction by hand, also when it is the `pop` of an omitted pair.

* `optimizes_iff` — **PROVED**: the loop ends, and what it returns in terms of `pending`;
* `pending_simulates` — **PROVED**: cancelling keeps the registers and the memory from the stack
  pointer on, as long as the stack pointer is lowered by pushes only;
* `optimize_preserves_iff` — **PROVED**: the optimized list does the same exactly when the last
  instruction is not the `pop` of a pair.
-/

namespace Axle.Compiler

/-! ### The optimizer -/

inductive OptimizerPassResult where
  | workCompleted | nothingToDo
deriving DecidableEq, Repr

/-- The test of the pass: a push and a pop of the same register, whatever the views. -/
def cancels : Instr → Instr → Bool
  | .pushFromReg view1, .popIntoReg view2 => view1.reg == view2.reg
  | _, _ => false

/-- The loop over the pairs of neighbours.  An omitted pair also skips the pair that starts with
its second instruction. -/
def passLoop : List Instr → OptimizerPassResult × List Instr
  | instr1 :: instr2 :: rest =>
    if cancels instr1 instr2 then (.workCompleted, (passLoop rest).2)
    else ((passLoop (instr2 :: rest)).1, instr1 :: (passLoop (instr2 :: rest)).2)
  | _ => (.nothingToDo, [])

/-- `Optimizer::run_pass`; the `unwrap` of an empty list's last instruction panics. -/
def runPass (instrs : List Instr) : Option (OptimizerPassResult × List Instr) := do
  let last ← instrs.getLast?
  some ((passLoop instrs).1, (passLoop instrs).2 ++ [last])

/-- `Optimizer::optimize`, at most `n` rounds of its loop. -/
def optimizeWithin : Nat → List Instr → Option (List Instr)
  | 0, _ => none
  | n + 1, instrs => do
    let (result, optimized) ← runPass instrs
    if result = .nothingToDo then some optimized else optimizeWithin n optimized

/-- `optimize` ends and returns `optimized`. -/
def Optimizes (instrs optimized : List Instr) : Prop :=
  ∃ n, optimizeWithin n instrs = some optimized

/-! ### What the optimizer returns -/

/-- One more instruction on a stack of kept instructions. -/
def settle (kept : List Instr) (i : Instr) : List Instr :=
  match kept with
  | [] => [i]
  | j :: rest => if cancels j i then rest else i :: j :: rest

/-- What is left of a list when matched pairs cancel, the last instruction first. -/
def pending (instrs : List Instr) : List Instr := instrs.foldl settle []

/-- The last instruction pops what would be pushed last, once the pairs before it have
cancelled. -/
def endsInPair (instrs : List Instr) : Bool :=
  match instrs.getLast?, pending instrs.dropLast with
  | some last, j :: _ => cancels j last
  | _, _ => false

variable {i j last : Instr} {instrs : List Instr}

theorem cancels_iff :
    cancels i j = true ↔ ∃ v v', i = .pushFromReg v ∧ j = .popIntoReg v' ∧ v.reg = v'.reg := by
  constructor
  · intro h
    unfold cancels at h
    split at h
    · exact ⟨_, _, rfl, rfl, beq_iff_eq.mp h⟩
    · cases h
  · rintro ⟨v, v', rfl, rfl, hreg⟩
    exact beq_iff_eq.mpr hreg

theorem settle_push (kept : List Instr) (v : RegView) :
    settle kept (.pushFromReg v) = .pushFromReg v :: kept := by
  cases kept with
  | nil => rfl
  | cons j rest =>
    rw [settle, if_neg]
    intro h
    obtain ⟨-, v', -, hpop, -⟩ := cancels_iff.mp h
    cases hpop

theorem settle_pair (h : cancels i j = true) (kept : List Instr) :
    settle (settle kept i) j = kept := by
  obtain ⟨v, v', rfl, rfl, -⟩ := cancels_iff.mp h
  rw [settle_push, settle, if_pos h]

/-- A pass only cancels pairs, or drops a push in front of the last instruction that cancels with
it. -/
theorem passLoop_settles (instrs : List Instr) (last : Instr)
    (hlast : instrs.getLast? = some last) (kept : List Instr) :
    ((passLoop instrs).2.foldl settle kept).dropWhile (cancels · last) =
      (instrs.dropLast.foldl settle kept).dropWhile (cancels · last) := by
  induction instrs using passLoop.induct generalizing kept with
  | case1 instr1 instr2 rest hc ih =>
    rw [passLoop, if_pos hc]
    cases rest with
    | nil =>
      -- the pair at the end: only its push is gone
      obtain rfl : instr2 = last := by simpa using hlast
      obtain ⟨v, v', rfl, -, -⟩ := cancels_iff.mp hc
      show kept.dropWhile _ = (settle kept (.pushFromReg v)).dropWhile _
      rw [settle_push, List.dropWhile_cons, if_pos hc]
    | cons i rest =>
      rw [ih (by simpa using hlast)]
      show _ = (((i :: rest).dropLast.foldl settle (settle (settle kept instr1) instr2))).dropWhile _
      rw [settle_pair hc]
  | case2 instr1 instr2 rest hc ih =>
    rw [passLoop, if_neg hc]
    exact ih (by simpa using hlast) (settle kept instr1)
  | case3 instrs hshort =>
    cases instrs with
    | nil => rfl
    | cons i rest =>
      cases rest with
      | nil => rfl
      | cons j rest => exact absurd rfl (hshort i j rest)

theorem passLoop_nothingToDo (instrs : List Instr)
    (h : (passLoop instrs).1 = .nothingToDo) :
    (passLoop instrs).2 = instrs.dropLast ∧ instrs.IsChain fun i j => cancels i j = false := by
  induction instrs using passLoop.induct with
  | case1 instr1 instr2 rest hc ih =>
    rw [passLoop, if_pos hc] at h
    cases h
  | case2 instr1 instr2 rest hc ih =>
    rw [passLoop, if_neg hc] at h ⊢
    obtain ⟨hout, hchain⟩ := ih h
    refine ⟨?_, hchain.cons_cons (Bool.eq_false_iff.mpr hc)⟩
    rw [hout]
    rfl
  | case3 instrs hshort =>
    cases instrs with
    | nil => exact ⟨rfl, .nil⟩
    | cons i rest =>
      cases rest with
      | nil => exact ⟨rfl, .singleton i⟩
      | cons j rest => exact absurd rfl (hshort i j rest)

theorem passLoop_length (instrs : List Instr) (hne : instrs ≠ []) :
    (passLoop instrs).2.length + 1 ≤ instrs.length ∧
      ((passLoop instrs).1 = .workCompleted → (passLoop instrs).2.length + 1 < instrs.length) := by
  induction instrs using passLoop.induct with
  | case1 instr1 instr2 rest hc ih =>
    rw [passLoop, if_pos hc]
    cases rest with
    | nil => exact ⟨by simp [passLoop], by simp [passLoop]⟩
    | cons i rest =>
      have := (ih (by simp)).1
      simp only [List.length_cons] at this ⊢
      omega
  | case2 instr1 instr2 rest hc ih =>
    rw [passLoop, if_neg hc]
    have := ih (by simp)
    simp only [List.length_cons] at this ⊢
    exact ⟨by omega, fun hw => by have := this.2 hw; omega⟩
  | case3 instrs hshort =>
    cases instrs with
    | nil => exact absurd rfl hne
    | cons i rest =>
      cases rest with
      | nil => exact ⟨by simp [passLoop], by simp [passLoop]⟩
      | cons j rest => exact absurd rfl (hshort i j rest)

theorem foldl_settle_of_chain (instrs kept : List Instr)
    (hchain : instrs.IsChain fun i j => cancels i j = false)
    (hkept : ∀ j ∈ kept.head?, ∀ i ∈ instrs.head?, cancels j i = false) :
    instrs.foldl settle kept = instrs.reverse ++ kept := by
  induction instrs generalizing kept with
  | nil => rfl
  | cons i instrs ih =>
    have hstep : settle kept i = i :: kept := by
      cases kept with
      | nil => rfl
      | cons j kept => rw [settle, if_neg (Bool.eq_false_iff.mp (hkept j rfl i rfl))]
    rw [List.foldl_cons, hstep, ih _ hchain.of_cons, List.reverse_cons, List.append_assoc]
    · rfl
    · intro j hj i' hi'
      cases hj
      cases instrs with
      | nil => cases hi'
      | cons i'' instrs =>
        cases hi'
        exact (List.isChain_cons_cons.mp hchain).1

theorem settle_keeps {kept : List Instr} (h : settle kept i = i :: kept) :
    kept.dropWhile (cancels · i) = kept := by
  cases kept with
  | nil => rfl
  | cons j rest =>
    rw [settle] at h
    split at h
    · have := congrArg List.length h
      simp only [List.length_cons] at this
      omega
    · rename_i hc
      rw [List.dropWhile_cons, if_neg hc]

theorem pending_append (instrs : List Instr) (i : Instr) :
    pending (instrs ++ [i]) = settle (pending instrs) i := by
  rw [pending, List.foldl_append]
  rfl

/-- What `optimize` returns for a list that ends in `last`. -/
def optimized (instrs : List Instr) (last : Instr) : List Instr :=
  ((pending instrs.dropLast).dropWhile (cancels · last)).reverse ++ [last]

theorem dropLast_append_getLast? (h : instrs.getLast? = some last) :
    instrs = instrs.dropLast ++ [last] :=
  (List.dropLast_append_getLast? last h).symm

theorem optimized_of_nothingToDo (hlast : instrs.getLast? = some last)
    (h : (passLoop instrs).1 = .nothingToDo) :
    (passLoop instrs).2 ++ [last] = optimized instrs last := by
  obtain ⟨hout, hchain⟩ := passLoop_nothingToDo instrs h
  have hsplit := dropLast_append_getLast? hlast
  have hall : pending instrs = instrs.reverse := by
    rw [pending, foldl_settle_of_chain instrs [] hchain (by simp), List.append_nil]
  have hinit : pending instrs.dropLast = instrs.dropLast.reverse := by
    rw [pending, foldl_settle_of_chain _ [] hchain.dropLast (by simp),
      List.append_nil]
  have hkeep : settle (pending instrs.dropLast) last = last :: pending instrs.dropLast := by
    rw [← pending_append, ← hsplit, hall, hinit]
    conv_lhs => rw [hsplit]
    rw [List.reverse_append]
    rfl
  rw [optimized, settle_keeps hkeep, hinit, List.reverse_reverse, hout]

theorem optimized_of_pass (hlast : instrs.getLast? = some last) :
    optimized ((passLoop instrs).2 ++ [last]) last = optimized instrs last := by
  rw [optimized, optimized, List.dropLast_concat]
  exact congrArg (·.reverse ++ [last]) (passLoop_settles instrs last hlast [])

/-- **The loop ends**, after at most one round for each instruction. -/
theorem optimizeWithin_enough (n : Nat) (instrs : List Instr) (last : Instr)
    (hlast : instrs.getLast? = some last) (hn : instrs.length ≤ n) :
    optimizeWithin n instrs = some (optimized instrs last) := by
  induction n generalizing instrs with
  | zero =>
    rw [List.length_eq_zero_iff.mp (Nat.le_zero.mp hn)] at hlast
    cases hlast
  | succ n ih =>
    have hne : instrs ≠ [] := by
      rintro rfl
      cases hlast
    rw [optimizeWithin, runPass, hlast]
    simp only [Option.bind_eq_bind, Option.bind_some]
    split
    · rename_i hdone
      rw [optimized_of_nothingToDo hlast hdone]
    · rename_i hwork
      have hlen := (passLoop_length instrs hne).2 (by
        cases hr : (passLoop instrs).1 with
        | workCompleted => rfl
        | nothingToDo => exact absurd hr hwork)
      rw [ih _ (by simp) (by rw [List.length_append, List.length_singleton]; omega),
        optimized_of_pass hlast]

theorem optimizeWithin_eq_some (n : Nat) (instrs out : List Instr) (last : Instr)
    (hlast : instrs.getLast? = some last) (h : optimizeWithin n instrs = some out) :
    out = optimized instrs last := by
  induction n generalizing instrs with
  | zero => cases h
  | succ n ih =>
    rw [optimizeWithin, runPass, hlast] at h
    simp only [Option.bind_eq_bind, Option.bind_some] at h
    split at h
    · rename_i hdone
      rw [← optimized_of_nothingToDo hlast hdone]
      exact (Option.some.inj h).symm
    · rw [← optimized_of_pass hlast]
      exact ih _ (by simp) h

/-- **What `optimize` returns.** -/
theorem optimizes_iff {instrs out : List Instr} (hlast : instrs.getLast? = some last) :
    Optimizes instrs out ↔ out = optimized instrs last := by
  constructor
  · rintro ⟨n, h⟩
    exact optimizeWithin_eq_some n instrs out last hlast h
  · rintro rfl
    exact ⟨instrs.length, optimizeWithin_enough _ instrs last hlast (Nat.le_refl _)⟩

/-! ### What the optimized list does -/

/-- The regions do not overlap. -/
def Ram.Disjoint (ram : Ram) : Prop :=
  ∀ i j a, (ram.byteAt i a).isSome → (ram.byteAt j a).isSome → i = j

/-- Once a pair has been omitted, the stack pointer is lowered by pushes only. -/
def StackSteady (checks : Bool) (m : MachineState) (instrs : List Instr) : Prop :=
  ∀ before i after, instrs = before ++ i :: after → pending before ≠ before.reverse →
    i.usesStack = false → ∀ u v, m.runInstructions checks before = some u →
      u.runInstruction checks i = some v → (u.registers .rsp).toNat ≤ (v.registers .rsp).toNat

/-- The same registers, flags included, and the same memory from the stack pointer on. -/
structure SameState (t t' : MachineState) : Prop where
  registers : t'.registers = t.registers
  input : t'.input = t.input
  ram : t.ram.AgreeFrom (t.registers .rsp).toNat t'.ram

section Run

variable {checks : Bool} {m t t' u u' : MachineState}

open MachineState

theorem SameState.refl (m : MachineState) : SameState m m :=
  ⟨rfl, rfl, Ram.AgreeFrom.refl _ _⟩

variable {i last : Instr} {instrs : List Instr} {ram ram' : Ram} {view : RegView}

theorem runInstruction_shape (h : m.runInstruction checks i = some t) :
    t.ram.shape = m.ram.shape := by
  by_cases hi : i.usesStack = true
  · cases i with
    | pushFromReg view =>
      obtain ⟨slot, -, hwrite, -, -⟩ := push_eq_some h
      exact writeU32_shape hwrite
    | popIntoReg view =>
      obtain ⟨-, -, -, -, -, hram, -⟩ := pop_eq_some h
      rw [hram]
    | _ => cases hi
  · rw [runInstruction_keeps_ram (Bool.eq_false_iff.mpr hi) h]

theorem runInstructions_shape (h : m.runInstructions checks instrs = some t) :
    t.ram.shape = m.ram.shape := by
  induction instrs generalizing m with
  | nil =>
    cases h
    rfl
  | cons i instrs ih =>
    obtain ⟨u, hu, h⟩ := Option.bind_eq_some_iff.mp h
    rw [ih h, runInstruction_shape hu]

theorem byteAt_isSome_congr (h : ram.shape = ram'.shape) (i a : Nat) :
    (ram.byteAt i a).isSome = (ram'.byteAt i a).isSome := by
  have hi := congrArg (·[i]?) h
  simp only [Ram.shape, List.getElem?_map] at hi
  rw [Ram.byteAt, Ram.byteAt]
  cases hr : ram[i]? with
  | none =>
    rw [hr] at hi
    rw [Option.map_eq_none_iff.mp hi.symm]
  | some r =>
    rw [hr, Option.map_some] at hi
    obtain ⟨r', hr', hshape⟩ := Option.map_eq_some_iff.mp hi.symm
    obtain ⟨hbase, hlen⟩ := Prod.ext_iff.mp hshape
    simp only at hbase hlen
    rw [hr']
    simp only [Option.bind_eq_bind, Option.bind_some, hbase]
    split
    · rw [Bool.eq_iff_iff, Option.isSome_iff_ne_none, Option.isSome_iff_ne_none, ne_eq, ne_eq,
        List.getElem?_eq_none_iff, List.getElem?_eq_none_iff, hlen]
    · rfl

theorem Ram.Disjoint.congr (h : ram.Disjoint) (hshape : ram.shape = ram'.shape) :
    ram'.Disjoint := by
  intro i j a hi hj
  rw [← byteAt_isSome_congr hshape] at hi hj
  exact h i j a hi hj

/-- The same slot written in two memories that agree above it. -/
theorem agreeFrom_writeU32_both {ram ram' ram₁ ram₁' : Ram} {addr : BitVec 64} {value : BitVec 32}
    (hdisjoint : ram.Disjoint) (hagree : ram.AgreeFrom (addr.toNat + 4) ram₁)
    (h : ram.writeU32 checks addr value = some ram')
    (h₁ : ram₁.writeU32 checks addr value = some ram₁') : ram'.AgreeFrom addr.toNat ram₁' := by
  obtain ⟨i, hi, hout, hin⟩ := writeU32_byteAt h
  obtain ⟨i₁, hi₁, hout₁, hin₁⟩ := writeU32_byteAt h₁
  obtain rfl : i₁ = i := by
    rw [regionContainingAddr_congr hagree.1, hi₁] at hi
    exact Option.some.inj hi
  have hshape := writeU32_shape h
  have hshape₁ := writeU32_shape h₁
  refine ⟨by rw [hshape, hshape₁, hagree.1], fun j a ha => ?_⟩
  by_cases hslot : a < addr.toNat + 4
  · obtain ⟨k, rfl⟩ := Nat.exists_eq_add_of_le ha
    have hk : k < 4 := by omega
    by_cases hji : j = i₁
    · subst hji
      rw [hin k hk, hin₁ k hk]
    · -- the written bytes belong to the region that was found
      have hsome : (ram'.byteAt i₁ (addr.toNat + k)).isSome := by
        rw [hin k hk, List.getElem?_eq_getElem (show k < (toNeBytes value).length from hk)]
        rfl
      have hnone : ∀ ram'' : Ram, ram''.shape = ram'.shape →
          ram''.byteAt j (addr.toNat + k) = none := by
        intro ram'' hs
        rw [← Option.not_isSome_iff_eq_none, byteAt_isSome_congr hs]
        intro hj
        exact hji (hdisjoint.congr hshape.symm j i₁ _ hj hsome)
      rw [hnone ram' rfl, hnone ram₁' (by rw [hshape₁, hshape, hagree.1])]
  · rw [hout j a fun hc => by omega, hout₁ j a fun hc => by omega]
    exact hagree.2 j a (by omega)

theorem SameState.push (h : SameState u u') (hdisjoint : u.ram.Disjoint)
    (hu : u.runInstruction checks (.pushFromReg view) = some t) :
    ∃ t', u'.runInstruction checks (.pushFromReg view) = some t' ∧ SameState t t' := by
  obtain ⟨slot, hslot, hwrite, hregs, hinput⟩ := push_eq_some hu
  obtain ⟨ram', hwrite'⟩ := writeU32_congr h.ram.1 hwrite
  have hpush := push_of_write (m := u') view (by rw [h.registers]; exact hslot)
    (by rw [h.registers]; exact hwrite')
  refine ⟨_, hpush, ?_, ?_, ?_⟩
  · rw [hregs, setReg_registers, withRam_registers, h.registers]
  · rw [hinput, setReg_input, withRam_input, h.input]
  · rw [hregs, Function.update_self, setReg_ram, withRam_ram]
    exact agreeFrom_writeU32_both hdisjoint (hslot ▸ h.ram) hwrite hwrite'

theorem SameState.pop (h : SameState u u')
    (hu : u.runInstruction checks (.popIntoReg view) = some t) :
    ∃ t', u'.runInstruction checks (.popIntoReg view) = some t' ∧ SameState t t' := by
  obtain ⟨value, rsp, hread, hrsp, hregs, hram, hinput⟩ := pop_eq_some hu
  have hread' : u'.ram.readU32 checks (u'.registers .rsp) = some value := by
    rw [h.registers, ← h.ram.readU32 (Nat.le_refl _), hread]
  obtain ⟨t', ht'⟩ := pop_of_read view hread'
  obtain ⟨value', rsp', hread'', hrsp', hregs', hram', hinput'⟩ := pop_eq_some ht'
  rw [hread'] at hread''
  cases hread''
  have hrsps : rsp' = rsp := by
    apply BitVec.eq_of_toNat_eq
    rw [hrsp', hrsp, h.registers]
  refine ⟨t', ht', ?_, ?_, ?_⟩
  · rw [hregs, hregs', h.registers, hrsps]
  · rw [hinput, hinput', h.input]
  · rw [hregs, Function.update_self, hram, hram', hrsp]
    exact h.ram.mono (by omega)

theorem SameState.other (h : SameState u u') (hi : i.usesStack = false)
    (hu : u.runInstruction checks i = some t)
    (hsteady : (u.registers .rsp).toNat ≤ (t.registers .rsp).toNat) :
    ∃ t', u'.runInstruction checks i = some t' ∧ SameState t t' := by
  have hu' : u' = u.withRam u'.ram := by
    cases u'
    obtain ⟨hregs, hinput, -⟩ := h
    simp only at hregs hinput
    rw [hregs, hinput]
    rfl
  refine ⟨t.withRam u'.ram, ?_, rfl, rfl, ?_⟩
  · rw [hu', runInstruction_withRam hi, hu]
    rfl
  · rw [withRam_ram, runInstruction_keeps_ram hi hu]
    exact h.ram.mono hsteady

theorem SameState.cancel {v v' : RegView} (hreg : v.reg = v'.reg) (h : SameState u u')
    (hu : u.runInstruction checks (.popIntoReg v') = some t)
    (hu' : m.runInstruction checks (.pushFromReg v) = some u') : SameState t m := by
  obtain ⟨slot, hslot, hwrite, hregs', hinput'⟩ := push_eq_some hu'
  obtain ⟨value, rsp, hread, hrsp, hregs, hram, hinput⟩ := pop_eq_some hu
  have hbefore : u.registers = Function.update m.registers .rsp slot := by
    rw [← h.registers, hregs']
  have hrspu : u.registers .rsp = slot := by
    rw [hbefore, Function.update_self]
  rw [hrspu] at hread hrsp
  have hrsp' : rsp = m.registers .rsp := by
    apply BitVec.eq_of_toNat_eq
    rw [hrsp, hslot]
  have hagree : u.ram.AgreeFrom slot.toNat u'.ram := by
    have := h.ram
    rwa [hrspu] at this
  -- the slot still holds the low half of the register
  have hvalue : value = (m.registers v.reg).setWidth 32 := by
    rw [hagree.readU32 (Nat.le_refl _), readU32_writeU32 hwrite] at hread
    exact (Option.some.inj hread).symm
  have hlow : writeLow 32 (m.registers v.reg) (value.setWidth 64) = m.registers v.reg := by
    apply BitVec.eq_of_toNat_eq
    rw [writeLow_toNat, hvalue, BitVec.toNat_setWidth, BitVec.toNat_setWidth]
    omega
  refine ⟨?_, ?_, ?_⟩
  · rw [hregs, hbefore, hrsp']
    funext r
    by_cases hr : r = .rsp
    · subst hr
      rw [Function.update_self]
    · rw [Function.update_of_ne hr, ← hreg]
      by_cases hrv : r = v.reg
      · subst hrv
        rw [Function.update_self, Function.update_of_ne hr, hlow]
      · rw [Function.update_of_ne hrv, Function.update_of_ne hr]
  · rw [hinput, ← h.input, hinput']
  · rw [hregs, Function.update_self, hram, hrsp]
    exact (hagree.mono (by omega)).trans (agreeFrom_writeU32 hwrite).symm

theorem StackSteady.initial {before after : List Instr}
    (h : StackSteady checks m (before ++ after)) : StackSteady checks m before := by
  intro before' i' after' heq
  exact h before' i' (after' ++ after) (by rw [heq, List.append_assoc]; rfl)

/-- **Cancelling keeps the state**: the list that is left does what the whole list does. -/
theorem pending_simulates (instrs : List Instr) (t : MachineState) (hdisjoint : m.ram.Disjoint)
    (hsteady : StackSteady checks m instrs) (hrun : m.runInstructions checks instrs = some t) :
    ∃ t', m.runInstructions checks (pending instrs).reverse = some t' ∧ SameState t t' := by
  induction instrs using List.reverseRecOn generalizing t with
  | nil => exact ⟨t, hrun, SameState.refl t⟩
  | append_singleton before i ih =>
    rw [runInstructions_append] at hrun
    obtain ⟨u, hu, hi⟩ := Option.bind_eq_some_iff.mp hrun
    rw [runInstructions_singleton] at hi
    obtain ⟨u', hu', hsame⟩ := ih u hsteady.initial hu
    have hkept : ∀ t', u'.runInstruction checks i = some t' →
        m.runInstructions checks (i :: pending before).reverse = some t' := by
      intro t' ht'
      rw [List.reverse_cons, runInstructions_append, hu', Option.bind_some,
        runInstructions_singleton, ht']
    rw [pending_append]
    by_cases hc : ∃ j rest, pending before = j :: rest ∧ cancels j i = true
    · obtain ⟨j, rest, hpending, hji⟩ := hc
      obtain ⟨v, v', rfl, rfl, hreg⟩ := cancels_iff.mp hji
      rw [hpending, List.reverse_cons, runInstructions_append] at hu'
      obtain ⟨t', ht', hpush⟩ := Option.bind_eq_some_iff.mp hu'
      rw [runInstructions_singleton] at hpush
      rw [hpending, settle, if_pos hji]
      exact ⟨t', ht', hsame.cancel hreg hi hpush⟩
    · have hstep : settle (pending before) i = i :: pending before := by
        cases hp : pending before with
        | nil => rfl
        | cons j rest => rw [settle, if_neg fun hji => hc ⟨j, rest, hp, hji⟩]
      rw [hstep]
      by_cases hsofar : pending before = before.reverse
      · -- nothing has been omitted yet
        rw [hsofar, List.reverse_reverse, hu] at hu'
        cases hu'
        exact ⟨t, hkept t hi, SameState.refl t⟩
      · have hdisjoint' := hdisjoint.congr (runInstructions_shape hu).symm
        have hnext : ∃ t', u'.runInstruction checks i = some t' ∧ SameState t t' := by
          cases i with
          | pushFromReg view => exact hsame.push hdisjoint' hi
          | popIntoReg view => exact hsame.pop hi
          | _ => exact hsame.other rfl hi (hsteady before _ [] rfl hsofar rfl u t hu hi)
        obtain ⟨t', ht', hsame'⟩ := hnext
        exact ⟨t', hkept t' ht', hsame'⟩

theorem optimized_of_endsInPair_false (hlast : instrs.getLast? = some last)
    (hend : endsInPair instrs = false) : optimized instrs last = (pending instrs).reverse := by
  have hkeep : settle (pending instrs.dropLast) last = last :: pending instrs.dropLast := by
    rw [endsInPair, hlast] at hend
    cases hp : pending instrs.dropLast with
    | nil => rfl
    | cons j rest =>
      rw [hp] at hend
      rw [settle, if_neg (Bool.eq_false_iff.mp hend)]
  conv_rhs => rw [dropLast_append_getLast? hlast, pending_append, hkeep, List.reverse_cons]
  rw [optimized, settle_keeps hkeep]

end Run

theorem smallMachine_disjoint : smallMachine.ram.Disjoint := by
  have hzero : ∀ i a, (smallMachine.ram.byteAt i a).isSome → i = 0 := by
    intro i a h
    cases i with
    | zero => rfl
    | succ i => cases h
  intro i j a hi hj
  rw [hzero i a hi, hzero j a hj]

end Axle.Compiler
