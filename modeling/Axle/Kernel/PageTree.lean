import Axle.Kernel.PageTables

/-!
# The tree of page tables

The tables below a PML4 are a radix table in physical memory.  A `slot` is an entry of it, named
by its level and by the number of the block it covers; reading the tree by slots leaves the
frames the tables happen to live in out of sight.

* `getOrCreate_holds` — **PROVED**: one spec for the three "re-use or allocate" steps;
* `mapRegion4kPages_holds` — **PROVED**: the tree after `_map_region_4k_pages`, slot by slot;
* `freeRegion4kPages_ok` — **PROVED**: the tree and the frame queue after `_free_region_4k_pages`.
-/

namespace Axle.Kernel

open Axle.Lib

/-! ### Slots: the entries of the tree by level and block number -/

/-- The path to the table of block `x` at level `ℓ`: the PML4 itself at level 0, then PDPT, page
directory and page table. -/
def path : Nat → Nat → List (Fin 512)
  | 0, _ => []
  | ℓ + 1, x => path ℓ (x / 512) ++ [idx x]

/-- The entry for block `x` in its table at level `ℓ`, when it can be reached and is present: a
PML4 entry at level 0, a page-table entry at level 3. -/
def slot (m : PhysMem) (r : Frame) (ℓ x : Nat) : Option PageEntry :=
  RadixTable.entry PageEntry.child m.tables r (path ℓ (x / 512)) (idx x)

/-- The frame that page `P` maps. -/
def frameAt (m : PhysMem) (r : Frame) (P : Nat) : Option Frame := (slot m r 3 P).map PageEntry.base

/-- The frame of the table of block `x` at level `ℓ`. -/
def tableAt (m : PhysMem) (r : Frame) (ℓ x : Nat) : Option Frame :=
  RadixTable.node PageEntry.child m.tables r (path ℓ x)

/-- The positions of the tables below the first `B` entries of the PML4s `R`. -/
def Tracked (R : Frame → Prop) (B : Nat) (r : Frame) (p : List (Fin 512)) : Prop :=
  R r ∧ p.length ≤ 3 ∧ ∀ i ∈ p.head?, i.val < B

/-- Slot `x` of level `ℓ` lies below one of the first `B` entries of the PML4. -/
def Below (B ℓ x : Nat) : Prop := ℓ ≤ 3 ∧ x / 512 ^ ℓ < B

theorem tracked_rooted (R : Frame → Prop) (B : Nat) : RadixTable.Rooted (Tracked R B) := by
  intro r p i h
  obtain ⟨hr, hlen, hhead⟩ := h
  cases p with
  | nil => exact ⟨hr, by simp, by simp⟩
  | cons j p => exact ⟨hr, by simp at hlen ⊢; omega, hhead⟩

@[simp] theorem path_length : ∀ ℓ x, (path ℓ x).length = ℓ := by
  intro ℓ
  induction ℓ with
  | zero => exact fun x => rfl
  | succ ℓ ih => exact fun x => by simp [path, ih]

theorem path_inj : ∀ {ℓ x y : Nat}, x < 512 ^ ℓ → y < 512 ^ ℓ → path ℓ x = path ℓ y → x = y := by
  intro ℓ
  induction ℓ with
  | zero => exact fun hx hy _ => by omega
  | succ ℓ ih =>
    intro x y hx hy h
    obtain ⟨hp, hi⟩ := List.append_inj' h rfl
    have hdiv := ih (Nat.div_lt_of_lt_mul (by omega)) (Nat.div_lt_of_lt_mul (by omega)) hp
    have hmod : x % 512 = y % 512 := congrArg Fin.val (List.singleton_inj.mp hi)
    omega

theorem path_head? : ∀ ℓ x, (path (ℓ + 1) x).head? = some (idx (x / 512 ^ ℓ)) := by
  intro ℓ
  induction ℓ with
  | zero => exact fun x => by simp [path]
  | succ ℓ ih =>
    intro x
    rw [path, List.head?_append, ih, Option.some_or, Nat.div_div_eq_div_mul, Nat.pow_succ,
      Nat.mul_comm 512]

theorem exists_path (p : List (Fin 512)) : ∃ x < 512 ^ p.length, path p.length x = p := by
  induction p using List.reverseRecOn with
  | nil => exact ⟨0, Nat.one_pos, rfl⟩
  | append_singleton p i ih =>
    obtain ⟨x, hx, hp⟩ := ih
    have hlen : (p ++ [i]).length = p.length + 1 := by simp
    have hdiv : (512 * x + i.val) / 512 = x := by omega
    have hmod : (512 * x + i.val) % 512 = i.val := by omega
    refine ⟨512 * x + i.val, ?_, ?_⟩
    · rw [hlen, Nat.pow_succ]
      omega
    · rw [hlen, path, hdiv, hp]
      exact congrArg (fun j => p ++ [j]) (Fin.ext hmod)

variable {B x ℓ : Nat} {R : Frame → Prop} {r f : Frame} {e : PageEntry} {m m' : PhysMem}

theorem tracked_path (hB : B ≤ 512) (hr : R r) (hx : Below B ℓ x) :
    Tracked R B r (path ℓ (x / 512)) := by
  refine ⟨hr, by rw [path_length]; exact hx.1, ?_⟩
  cases ℓ with
  | zero => exact fun i hi => by cases hi
  | succ ℓ =>
    intro i hi
    rw [path_head?] at hi
    cases hi
    have hx' := hx.2
    rw [Nat.pow_succ, Nat.mul_comm, ← Nat.div_div_eq_div_mul] at hx'
    show x / 512 / 512 ^ ℓ % 512 < B
    rwa [Nat.mod_eq_of_lt (by omega)]

theorem tableAt_zero (m : PhysMem) (r : Frame) (x : Nat) : tableAt m r 0 x = some r := rfl

theorem tableAt_succ (m : PhysMem) (r : Frame) (ℓ x : Nat) :
    tableAt m r (ℓ + 1) x = (slot m r ℓ x).bind PageEntry.child :=
  RadixTable.node_snoc_eq_entry

theorem slot_above (h : slot m r (ℓ + 1) x = some e) : ∃ e', slot m r ℓ (x / 512) = some e' := by
  cases hs : slot m r ℓ (x / 512) with
  | some e' => exact ⟨e', rfl⟩
  | none =>
    have hnode : tableAt m r (ℓ + 1) (x / 512) = none := by
      rw [tableAt_succ, hs, Option.bind_none]
    have : slot m r (ℓ + 1) x = none := by
      show Option.bind (tableAt m r (ℓ + 1) (x / 512)) _ = none
      rw [hnode, Option.bind_none]
    rw [this] at h
    cases h

theorem slot_present (h : slot m r ℓ x = some e) : e.present = true := by
  obtain ⟨t, -, ht⟩ := Option.bind_eq_some_iff.mp h
  split at ht
  · rename_i hc
    cases ht
    unfold PageEntry.child at hc
    by_contra hp
    rw [if_neg hp] at hc
    cases hc
  · cases ht

/-- A mapped frame is what the path of four indices leads to. -/
theorem frameAt_eq_tableAt (m : PhysMem) (r : Frame) (P : Nat) :
    frameAt m r P = tableAt m r 4 P := by
  rw [tableAt_succ, frameAt]
  cases hs : slot m r 3 P with
  | none => rfl
  | some e =>
    rw [Option.map_some, Option.bind_some, PageEntry.child, if_pos (slot_present hs)]

theorem Below.lt (hB : B ≤ 512) (hx : Below B ℓ x) : x < 512 ^ (ℓ + 1) := by
  have := (Nat.div_lt_iff_lt_mul (Nat.pow_pos (by decide))).mp (Nat.lt_of_lt_of_le hx.2 hB)
  rwa [Nat.pow_succ, Nat.mul_comm]

/-- Slots at different levels or of different blocks are different entries. -/
theorem position_eq_iff {B ℓ x ℓ' x' : Nat} (hB : B ≤ 512) (hx : Below B ℓ x)
    (hx' : Below B ℓ' x') :
    path ℓ' (x' / 512) = path ℓ (x / 512) ∧ idx x' = idx x ↔ ℓ' = ℓ ∧ x' = x := by
  constructor
  · intro h
    have hℓ : ℓ' = ℓ := by
      have := congrArg List.length h.1
      rwa [path_length, path_length] at this
    subst hℓ
    refine ⟨rfl, path_inj (hx'.lt hB) (hx.lt hB) ?_⟩
    rw [path, path, h.1, h.2]
  · rintro ⟨rfl, rfl⟩
    exact ⟨rfl, rfl⟩

/-! ### Well-formed trees and the steps on them -/

/-- The tables below the first `B` entries of the PML4s `R` form a forest: no table is reached in
two ways, and none of their frames is free; no frame is free twice. -/
structure PhysMem.Wf (R : Frame → Prop) (B : Nat) (m : PhysMem) : Prop where
  separated : RadixTable.Separated PageEntry.child m.tables (Tracked R B)
  fresh : ∀ f ∈ m.free, ∀ r p, Tracked R B r p →
    RadixTable.node PageEntry.child m.tables r p ≠ some f
  nodup : m.free.Nodup

/-- The frame holds one of the tables. -/
def IsTable (R : Frame → Prop) (B : Nat) (m : PhysMem) (f : Frame) : Prop :=
  ∃ r p, Tracked R B r p ∧ RadixTable.node PageEntry.child m.tables r p = some f

/-- From `m` to `m'` one slot is set, the tables stay well formed, and the frames of new tables
were free. -/
structure SetsSlot (R : Frame → Prop) (B : Nat) (m m' : PhysMem) (r : Frame) (ℓ x : Nat)
    (e : Option PageEntry) : Prop where
  wf : m'.Wf R B
  slots : ∀ r' ℓ' x', R r' → Below B ℓ' x' →
    slot m' r' ℓ' x' = if r' = r ∧ ℓ' = ℓ ∧ x' = x then e else slot m r' ℓ' x'
  free : m'.free <:+ m.free
  tables : ∀ f, IsTable R B m' f → IsTable R B m f ∨ f ∈ m.free

/-- Below PML4s without present entries there is no table. -/
theorem node_of_empty (hempty : ∀ r i, R r → i.val < B → (m.tables r i).present = false)
    {p : List (Fin 512)} (hp : Tracked R B r p)
    (h : RadixTable.node PageEntry.child m.tables r p = some f) : p = [] ∧ f = r := by
  cases p with
  | nil => exact ⟨rfl, (Option.some.inj h).symm⟩
  | cons i p =>
    have hi := hempty r i hp.1 (hp.2.2 i rfl)
    have : RadixTable.node PageEntry.child m.tables r (i :: p) = none := by
      simp [RadixTable.node, PageEntry.child, hi]
    rw [this] at h
    cases h

/-- PML4s without present entries, with frames that are not free, form a forest. -/
theorem wf_of_empty (hempty : ∀ r i, R r → i.val < B → (m.tables r i).present = false)
    (hroots : ∀ f ∈ m.free, ¬R f) (hnodup : m.free.Nodup) : m.Wf R B := by
  refine ⟨?_, ?_, hnodup⟩
  · intro r p r' p' f hp hp' h h'
    obtain ⟨rfl, rfl⟩ := node_of_empty hempty hp h
    obtain ⟨rfl, rfl⟩ := node_of_empty hempty hp' h'
    exact ⟨rfl, rfl⟩
  · intro f hf r p hp h
    obtain ⟨-, rfl⟩ := node_of_empty hempty hp h
    exact hroots f hf hp.1

section Steps

variable {R : Frame → Prop} {B : Nat} {m : PhysMem} {r t : Frame} {ℓ x : Nat}

variable {m' : PhysMem} {e : PageEntry}

/-- The lemmas on entries by position, read by slot. -/
theorem slots_of_entries {e : Option PageEntry} (hB : B ≤ 512) (hx : Below B ℓ x)
    (h : ∀ r' p j, Tracked R B r' p →
      RadixTable.entry PageEntry.child m'.tables r' p j =
        if r' = r ∧ p = path ℓ (x / 512) ∧ j = idx x then e
        else RadixTable.entry PageEntry.child m.tables r' p j) :
    ∀ r' ℓ' x', R r' → Below B ℓ' x' →
      slot m' r' ℓ' x' = if r' = r ∧ ℓ' = ℓ ∧ x' = x then e else slot m r' ℓ' x' := by
  intro r' ℓ' x' hr' hx'
  rw [slot, h r' _ _ (tracked_path hB hr' hx')]
  exact if_congr (and_congr_right fun _ => position_eq_iff hB hx hx') rfl rfl

theorem PageEntry.child_isSome (e : PageEntry) : e.child.isSome = e.present := by
  unfold PageEntry.child
  cases e.present <;> rfl

theorem not_tracked_below_leaf (r : Frame) (x : Nat) :
    ¬Tracked R B r (path 3 (x / 512) ++ [idx x]) := by
  intro h
  have := h.2.1
  rw [List.length_append, path_length, List.length_singleton] at this
  omega

theorem slot_of_tableAt (ht : tableAt m r ℓ (x / 512) = some t) :
    slot m r ℓ x =
      if (m.tables t (idx x)).present then some (m.tables t (idx x)) else none := by
  rw [slot, RadixTable.entry_of_node ht, PageEntry.child_isSome]

/-- A write that keeps the entry's child, or is made in a page table, moves no table. -/
theorem set_nodes (hB : B ≤ 512)
    (hsep : RadixTable.Separated PageEntry.child m.tables (Tracked R B)) (hr : R r)
    (hx : Below B ℓ x) (ht : tableAt m r ℓ (x / 512) = some t)
    (he : e.child = (m.tables t (idx x)).child ∨ ℓ = 3) :
    ∀ r' p, Tracked R B r' p →
      RadixTable.node PageEntry.child (m.set t (idx x) e).tables r' p =
        RadixTable.node PageEntry.child m.tables r' p := by
  intro r' p hp
  rcases he with hc | rfl
  · exact RadixTable.node_write_of_child_eq hc
  · exact RadixTable.node_write_of_not_below (tracked_rooted R B) hsep (tracked_path hB hr hx) ht
      (not_tracked_below_leaf r x) r' p hp

theorem set_slots (hB : B ≤ 512)
    (hsep : RadixTable.Separated PageEntry.child m.tables (Tracked R B)) (hr : R r)
    (hx : Below B ℓ x) (ht : tableAt m r ℓ (x / 512) = some t)
    (he : e.child = (m.tables t (idx x)).child ∨ ℓ = 3) :
    ∀ r' ℓ' x', R r' → Below B ℓ' x' → slot (m.set t (idx x) e) r' ℓ' x' =
      if r' = r ∧ ℓ' = ℓ ∧ x' = x then (if e.present then some e else none)
      else slot m r' ℓ' x' := by
  apply slots_of_entries hB hx
  intro r' p j hp
  have hok : e.child = (m.tables t (idx x)).child ∨
      ¬Tracked R B r (path ℓ (x / 512) ++ [idx x]) := by
    apply he.imp id
    rintro rfl
    exact not_tracked_below_leaf r x
  have := RadixTable.entry_write (j := j) (tracked_rooted R B) hsep (tracked_path hB hr hx) ht hok
    hp
  rwa [PageEntry.child_isSome] at this

theorem setsSlot_of_set (hB : B ≤ 512) (hwf : m.Wf R B) (hr : R r) (hx : Below B ℓ x)
    (ht : tableAt m r ℓ (x / 512) = some t) (he : e.child = (m.tables t (idx x)).child ∨ ℓ = 3) :
    SetsSlot R B m (m.set t (idx x) e) r ℓ x (if e.present then some e else none) := by
  have hnode := set_nodes hB hwf.separated hr hx ht he
  refine ⟨⟨hwf.separated.congr hnode, ?_, hwf.nodup⟩, set_slots hB hwf.separated hr hx ht he,
    List.suffix_rfl, ?_⟩
  · intro f hf r' p hp
    rw [hnode r' p hp]
    exact hwf.fresh f hf r' p hp
  · rintro f ⟨r', p, hp, hf⟩
    rw [hnode r' p hp] at hf
    exact .inl ⟨r', p, hp, hf⟩

/-- **Re-use or create.**  The entry is present afterwards with this call's `user_mode`; it keeps
its `writable` when it was present and takes `createdWritable` when it was not. -/
theorem getOrCreate_holds (hB : B ≤ 512) (hwf : m.Wf R B) (hr : R r) (hx : Below B ℓ x)
    (ht : tableAt m r ℓ (x / 512) = some t) (w u : Bool) :
    Holds (· = .outOfFrames) (getOrCreate m t (idx x) w u) fun a =>
      SetsSlot R B m a.2 r ℓ x (some
        { present := true, writable := ((slot m r ℓ x).map PageEntry.writable).getD w,
          userMode := u, base := a.1 }) := by
  have hslot := slot_of_tableAt ht
  rw [getOrCreate]
  by_cases hp : (m.tables t (idx x)).present = true
  · have := setsSlot_of_set (e := { m.tables t (idx x) with userMode := u }) hB hwf hr hx ht
      (.inl rfl)
    simp only [hp, if_true] at this
    simp only [Holds, hp, hslot, Option.map_some, Option.getD_some]
    exact this
  · rw [if_neg hp] at hslot ⊢
    rw [pmmAlloc]
    cases hfree : m.free with
    | nil => exact rfl
    | cons f rest =>
      rw [ok_bind, hslot]
      have hpos := tracked_path hB hr hx
      have hnone : (m.tables t (idx x)).child = none := by
        rw [PageEntry.child, if_neg hp]
      have hfresh := hwf.fresh f (by rw [hfree]; exact List.mem_cons_self)
      have hnodup := hwf.nodup
      rw [hfree, List.nodup_cons] at hnodup
      have hnode := RadixTable.node_create (e := ⟨true, w, u, f⟩) (tracked_rooted R B)
        hwf.separated hpos ht hnone hfresh (show PageEntry.zero.child = none from rfl) rfl
      refine ⟨⟨hwf.separated.create (tracked_rooted R B) hpos ht hnone hfresh rfl rfl, ?_,
        hnodup.2⟩, ?_, ⟨[f], hfree.symm⟩, ?_⟩
      · intro g hg r' p hp'
        show RadixTable.node _ (RadixTable.write _ t (idx x) _) r' p ≠ some g
        rw [hnode r' p hp']
        split
        · intro h
          exact hnodup.1 (Option.some.inj h ▸ hg)
        · exact hwf.fresh g (by rw [hfree]; exact List.mem_cons_of_mem f hg) r' p hp'
      · apply slots_of_entries hB hx
        intro r' p j hp'
        exact RadixTable.entry_create (tracked_rooted R B) hwf.separated hpos ht hnone hfresh rfl
          rfl hp'
      · rintro g ⟨r', p, hp', hg⟩
        replace hg := (hnode r' p hp').symm.trans hg
        split at hg
        · exact .inr (by rw [hfree, ← Option.some.inj hg]; exact List.mem_cons_self)
        · exact .inl ⟨r', p, hp', hg⟩

theorem SetsSlot.tableAt_succ (h : SetsSlot R B m m' r ℓ x (some e)) (hr : R r) (hx : Below B ℓ x)
    (he : e.present = true) : tableAt m' r (ℓ + 1) x = some e.base := by
  rw [Kernel.tableAt_succ, h.slots r ℓ x hr hx, if_pos ⟨rfl, rfl, rfl⟩, Option.bind_some,
    PageEntry.child, if_pos he]

theorem SetsSlot.tableAt_other {e : Option PageEntry} {r' : Frame} {ℓ' x' : Nat}
    (h : SetsSlot R B m m' r ℓ x e) (hr : R r') (hx : Below B ℓ' x') (hne : ¬(ℓ' = ℓ ∧ x' = x)) :
    tableAt m' r' (ℓ' + 1) x' = tableAt m r' (ℓ' + 1) x' := by
  rw [Kernel.tableAt_succ, Kernel.tableAt_succ, h.slots r' ℓ' x' hr hx,
    if_neg fun hc => hne hc.2]

end Steps

/-! ### The tree after mapping a region -/

/-- What an upper-level entry contributes to the effective rights: `writable` and `user_mode`. -/
def PageEntry.rights (e : PageEntry) : Bool × Bool := (e.writable, e.userMode)

def rightsAt (m : PhysMem) (r : Frame) (ℓ x : Nat) : Option (Bool × Bool) :=
  (slot m r ℓ x).map PageEntry.rights

/-- The `writable` of a new entry of level `ℓ`: a new page directory's follows the access type. -/
def createdWritable (access : VasRangeAccess) (ℓ : Nat) : Bool :=
  if ℓ = 1 then access == .readWrite else true

/-- The page-table entry a region's page gets. -/
def requestedEntry (physAddr : Nat) (access : VasRangeAccess) (privilege : VasRangePrivilege) :
    PageEntry where
  present := true
  writable := access == .readWrite
  userMode := privilege == .user
  base := frameOf physAddr

/-- The upper-level slots of the first `k` pages from `S`; the PML4 entry of `S` always counts. -/
def Visited (S k ℓ x : Nat) : Prop :=
  (ℓ = 0 ∧ x = S / 512 / 512 / 512) ∨ (ℓ = 1 ∧ ∃ j < k, x = (S + j) / 512 / 512) ∨
    (ℓ = 2 ∧ ∃ j < k, x = (S + j) / 512)

/-- The tree `m` as mapping left it: from `m₀`, with the upper-level slots `V` taken for this
privilege level and the first `k` pages from `S` mapped. -/
structure MapState (R : Frame → Prop) (B : Nat) (m₀ : PhysMem) (r : Frame) (S phys : Nat)
    (access : VasRangeAccess) (privilege : VasRangePrivilege) (V : Nat → Nat → Prop)
    (m : PhysMem) (k : Nat) : Prop where
  wf : m.Wf R B
  upper : ∀ r' ℓ x, R r' → Below B ℓ x → ℓ ≤ 2 → ¬(r' = r ∧ V ℓ x) →
    rightsAt m r' ℓ x = rightsAt m₀ r' ℓ x
  touched : ∀ ℓ x, Below B ℓ x → ℓ ≤ 2 → V ℓ x →
    rightsAt m r ℓ x = some (((rightsAt m₀ r ℓ x).map Prod.fst).getD (createdWritable access ℓ),
      privilege == .user)
  leaf : ∀ r' P, R r' → Below B 3 P → ¬(r' = r ∧ S ≤ P ∧ P < S + k) →
    slot m r' 3 P = slot m₀ r' 3 P
  mapped : ∀ j < k, Below B 3 (S + j) →
    slot m r 3 (S + j) = some (requestedEntry (phys + 0x1000 * j) access privilege)
  free : m.free <:+ m₀.free
  tables : ∀ f, IsTable R B m f → IsTable R B m₀ f ∨ f ∈ m₀.free

section Map

variable {R : Frame → Prop} {B : Nat} {m₀ m m' : PhysMem} {r : Frame} {S n phys k : Nat}
  {access : VasRangeAccess} {privilege : VasRangePrivilege} {V V' : Nat → Nat → Prop}

theorem MapState.refl (hwf : m₀.Wf R B) :
    MapState R B m₀ r S phys access privilege (fun _ _ => False) m₀ 0 where
  wf := hwf
  upper := fun _ _ _ _ _ _ _ => rfl
  touched := fun _ _ _ _ h => h.elim
  leaf := fun _ _ _ _ _ => rfl
  mapped := fun j hj => absurd hj (Nat.not_lt_zero j)
  free := List.suffix_rfl
  tables := fun _ h => .inl h

theorem MapState.congr (h : MapState R B m₀ r S phys access privilege V m k)
    (hV : ∀ ℓ x, V' ℓ x ↔ V ℓ x) : MapState R B m₀ r S phys access privilege V' m k := by
  have : V' = V := funext fun ℓ => funext fun x => propext (hV ℓ x)
  rw [this]
  exact h

variable {x ℓ : Nat}

section

variable (h : MapState R B m₀ r S phys access privilege V m k)

include h

theorem MapState.tables_trans {e : Option PageEntry} (hs : SetsSlot R B m m' r ℓ x e) :
    ∀ f, IsTable R B m' f → IsTable R B m₀ f ∨ f ∈ m₀.free := by
  intro f hf
  cases hs.tables f hf with
  | inl ht => exact h.tables f ht
  | inr hfree => exact .inr (h.free.subset hfree)

theorem MapState.touch {f : Frame} (hr : R r) (hx : Below B ℓ x) (hℓ : ℓ ≤ 2)
    (hs : SetsSlot R B m m' r ℓ x (some
      { present := true,
        writable := ((slot m r ℓ x).map PageEntry.writable).getD (createdWritable access ℓ),
        userMode := privilege == .user, base := f })) :
    MapState R B m₀ r S phys access privilege (fun ℓ' x' => V ℓ' x' ∨ (ℓ' = ℓ ∧ x' = x)) m' k := by
  have hother : ∀ r' ℓ' x', R r' → Below B ℓ' x' → ¬(r' = r ∧ ℓ' = ℓ ∧ x' = x) →
      slot m' r' ℓ' x' = slot m r' ℓ' x' := by
    intro r' ℓ' x' hr' hx' hne
    rw [hs.slots r' ℓ' x' hr' hx', if_neg hne]
  have hsame : rightsAt m' r ℓ x =
      some (((rightsAt m r ℓ x).map Prod.fst).getD (createdWritable access ℓ),
        privilege == .user) := by
    unfold rightsAt
    rw [hs.slots r ℓ x hr hx, if_pos ⟨rfl, rfl, rfl⟩, Option.map_map]
    rfl
  refine ⟨hs.wf, ?_, ?_, ?_, ?_, hs.free.trans h.free, h.tables_trans hs⟩
  · intro r' ℓ' x' hr' hx' hℓ' hnot
    rw [rightsAt, hother r' ℓ' x' hr' hx' fun hc => hnot ⟨hc.1, .inr hc.2⟩]
    exact h.upper r' ℓ' x' hr' hx' hℓ' fun hc => hnot ⟨hc.1, .inl hc.2⟩
  · intro ℓ' x' hx' hℓ' hV
    by_cases hat : ℓ' = ℓ ∧ x' = x
    · obtain ⟨rfl, rfl⟩ := hat
      rw [hsame]
      -- a slot taken before keeps the `writable` it then had
      by_cases hold : V ℓ' x'
      · rw [h.touched ℓ' x' hx' hℓ' hold]
        rfl
      · rw [h.upper r ℓ' x' hr hx' hℓ' fun hc => hold hc.2]
    · rw [rightsAt, hother r ℓ' x' hr hx' fun hc => hat hc.2]
      exact h.touched ℓ' x' hx' hℓ' (hV.resolve_right hat)
  · intro r' P hr' hP hnot
    rw [hother r' 3 P hr' hP fun hc => by omega]
    exact h.leaf r' P hr' hP hnot
  · intro j hj hP
    rw [hother r 3 (S + j) hr hP fun hc => by omega]
    exact h.mapped j hj hP

theorem MapState.writePage (hr : R r) (hs : SetsSlot R B m m' r 3 (S + k)
      (some (requestedEntry (phys + 0x1000 * k) access privilege))) :
    MapState R B m₀ r S phys access privilege V m' (k + 1) := by
  have hother : ∀ r' ℓ x, R r' → Below B ℓ x → ¬(r' = r ∧ ℓ = 3 ∧ x = S + k) →
      slot m' r' ℓ x = slot m r' ℓ x := by
    intro r' ℓ x hr' hx hne
    rw [hs.slots r' ℓ x hr' hx, if_neg hne]
  refine ⟨hs.wf, ?_, ?_, ?_, ?_, hs.free.trans h.free, h.tables_trans hs⟩
  · intro r' ℓ x hr' hx hℓ hnot
    rw [rightsAt, hother r' ℓ x hr' hx fun hc => by omega]
    exact h.upper r' ℓ x hr' hx hℓ hnot
  · intro ℓ x hx hℓ hV
    rw [rightsAt, hother r ℓ x hr hx fun hc => by omega]
    exact h.touched ℓ x hx hℓ hV
  · intro r' P hr' hP hnot
    rw [hother r' 3 P hr' hP fun hc => hnot ⟨hc.1, by omega⟩]
    exact h.leaf r' P hr' hP fun hc => hnot ⟨hc.1, by omega⟩
  · intro j hj hP
    rw [hs.slots r 3 (S + j) hr hP]
    by_cases hjk : j = k
    · rw [if_pos ⟨rfl, rfl, by omega⟩, hjk]
    · rw [if_neg fun hc => by omega]
      exact h.mapped j (by omega) hP

end

theorem visited_succ (S k ℓ x : Nat) :
    Visited S (k + 1) ℓ x ↔ Visited S k ℓ x ∨ (ℓ = 1 ∧ x = (S + k) / 512 / 512) ∨
      (ℓ = 2 ∧ x = (S + k) / 512) := by
  have hex : ∀ b : Nat → Nat, (∃ j < k + 1, x = b j) ↔ (∃ j < k, x = b j) ∨ x = b k := by
    intro b
    constructor
    · rintro ⟨j, hj, hx⟩
      rcases Nat.lt_succ_iff_lt_or_eq.mp hj with hj | rfl
      · exact .inl ⟨j, hj, hx⟩
      · exact .inr hx
    · rintro (⟨j, hj, hx⟩ | hx)
      · exact ⟨j, Nat.lt_succ_of_lt hj, hx⟩
      · exact ⟨k, Nat.lt_succ_self k, hx⟩
  rw [Visited, Visited, hex, hex, and_or_left, and_or_left]
  generalize (∃ j < k, x = (S + j) / 512 / 512) = p, (∃ j < k, x = (S + j) / 512) = q
  tauto

theorem below_of_lt {B P : Nat} (hP : P < B * 512 ^ 3) :
    Below B 3 P ∧ Below B 2 (P / 512) ∧ Below B 1 (P / 512 / 512) ∧
      Below B 0 (P / 512 / 512 / 512) := by
  refine ⟨⟨by omega, ?_⟩, ⟨by omega, ?_⟩, ⟨by omega, ?_⟩, ⟨by omega, ?_⟩⟩ <;> omega

/-- The map body does at every directory, table and page what the description says. -/
theorem mapVisitor_rule (hB : B ≤ 512) (hr : R r) (hS : S + n ≤ B * 512 ^ 3) (pdpt : Frame) :
    RegionRule (· = .outOfFrames) (mapVisitor access privilege) pdpt S n phys
      (fun m k => MapState R B m₀ r S phys access privilege (Visited S k) m k ∧
        tableAt m r 1 (S / 512 / 512 / 512) = some pdpt)
      (fun m k d f => MapState R B m₀ r S phys access privilege
          (fun ℓ x => Visited S k ℓ x ∨ (ℓ = 1 ∧ x = d)) m k ∧
        tableAt m r 1 (S / 512 / 512 / 512) = some pdpt ∧ tableAt m r 2 d = some f)
      (fun m k t f g => MapState R B m₀ r S phys access privilege
          (fun ℓ x => (Visited S k ℓ x ∨ (ℓ = 1 ∧ x = t / 512)) ∨ (ℓ = 2 ∧ x = t)) m k ∧
        tableAt m r 1 (S / 512 / 512 / 512) = some pdpt ∧ tableAt m r 2 (t / 512) = some f ∧
        tableAt m r 3 t = some g) := by
  have hbelow := fun j (hj : j < n) => below_of_lt (B := B) (P := S + j) (by omega)
  have htop : 0 < n → Below B 0 (S / 512 / 512 / 512) := fun hn => (hbelow 0 hn).2.2.2
  constructor
  case directory =>
    intro m k hk hpml4 ⟨hm, hpdpt⟩
    obtain ⟨-, -, hd, -⟩ := hbelow k hk
    refine (getOrCreate_holds hB hm.wf hr hd (t := pdpt) (by rw [hpml4, hpdpt]) _ _).mono
      fun a ha => ?_
    refine ⟨hm.touch hr hd (by omega) ha, ?_, ha.tableAt_succ hr hd rfl⟩
    rw [ha.tableAt_other hr (htop (by omega)) (by omega), hpdpt]
  case table =>
    intro m k f hk ⟨hm, hpdpt, hf⟩
    obtain ⟨-, ht, hd, -⟩ := hbelow k hk
    refine (getOrCreate_holds hB hm.wf hr ht hf _ _).mono fun a ha => ?_
    refine ⟨hm.touch hr ht (by omega) ha, ?_, ?_, ha.tableAt_succ hr ht rfl⟩
    · rw [ha.tableAt_other hr (htop (by omega)) (by omega), hpdpt]
    · rw [ha.tableAt_other hr hd (by omega), hf]
  case page =>
    intro m k f g addr hk haddr ⟨hm, hpdpt, hf, hg⟩
    obtain ⟨hP, ht, hd, -⟩ := hbelow k hk
    have ha := setsSlot_of_set (e := requestedEntry addr access privilege) hB hm.wf hr hP hg
      (.inr rfl)
    have hentry : requestedEntry addr access privilege =
        requestedEntry (phys + 0x1000 * k) access privilege := by
      rw [requestedEntry, haddr, requestedEntry]
    refine ⟨(hm.writePage hr (hentry ▸ ha)).congr fun ℓ x => ?_, ?_, ?_, ?_⟩
    · rw [visited_succ]
      tauto
    · exact (ha.tableAt_other hr (htop (by omega)) (by omega)).trans hpdpt
    · exact (ha.tableAt_other hr hd (by omega)).trans hf
    · exact (ha.tableAt_other hr ht (by omega)).trans hg
  case leaveTable =>
    intro m k f g h
    obtain ⟨hm, hpdpt, hf, -⟩ := h
    refine ⟨hm.congr fun ℓ x => ?_, hpdpt, hf⟩
    rw [visited_succ]
    tauto
  case leaveDirectory =>
    intro m k f h
    obtain ⟨hm, hpdpt, -⟩ := h
    refine ⟨hm.congr fun ℓ x => ?_, hpdpt⟩
    rw [visited_succ]
    tauto

/-- **The tree after `_map_region_4k_pages`** on a region that fits its tables. -/
theorem mapRegion4kPages_holds (hB : B ≤ 512) (hwf : m₀.Wf R B) (hr : R r)
    (hS : S + n ≤ B * 512 ^ 3) (hlt : S < B * 512 ^ 3) (hfit : RegionFits S n) {start : Nat}
    (hstart : pageOf start = S) :
    Holds (· = .outOfFrames) (mapRegion4kPages m₀ r start (0x1000 * n) phys access privilege)
      fun m => MapState R B m₀ r S phys access privilege (Visited S (regionReach S n)) m
        (regionReach S n) := by
  have htop := (below_of_lt hlt).2.2.2
  have hreach := regionReach_le S n
  rw [mapRegion4kPages, pdptGetOrCreate, vmaPml4eIdx_eq, hstart, tableIndex_mod]
  refine Holds.bind (getOrCreate_holds hB hwf hr htop (tableAt_zero m₀ r _) true
    (privilege == .user)) fun a ha => ?_
  have hrefl : MapState R B m₀ r S phys access privilege (fun _ _ => False) m₀ 0 :=
    MapState.refl hwf
  have hinit : MapState R B m₀ r S phys access privilege (Visited S 0) a.2 0 := by
    refine (hrefl.touch hr htop (by omega) ha).congr fun ℓ x => ?_
    simp [Visited]
  refine Holds.bind (regionWalk_holds (by omega) hfit (mapVisitor_rule hB hr (by omega) a.1)
    (pagesIn_mul n) (fun _ => hstart) ⟨hinit, ha.tableAt_succ hr htop rfl⟩) fun c hc => ?_
  exact hc.1

end Map

/-! ### One page, and one frame from the queue -/

/-- From `m` to `m'` page `P` is mapped to frame `f` and no other page changes. -/
structure MapsPage (R : Frame → Prop) (B : Nat) (m m' : PhysMem) (r : Frame) (P : Nat)
    (f : Frame) : Prop where
  wf : m'.Wf R B
  frames : ∀ r' P', R r' → P' < B * 512 ^ 3 →
    frameAt m' r' P' = if r' = r ∧ P' = P then some f else frameAt m r' P'
  free : m'.free <:+ m.free
  tables : ∀ g, IsTable R B m' g → IsTable R B m g ∨ g ∈ m.free

theorem mapRegion4kPages_page {v phys : Nat} {access : VasRangeAccess}
    {privilege : VasRangePrivilege} (hB : B ≤ 512) (hwf : m.Wf R B) (hr : R r)
    (hP : pageOf v < B * 512 ^ 3)
    (h : mapRegion4kPages m r v 0x1000 phys access privilege = .ok m') :
    MapsPage R B m m' r (pageOf v) (frameOf phys) := by
  have hfit : RegionFits (pageOf v) 1 := ⟨fun _ => by omega, fun h => by omega⟩
  have hreach : regionReach (pageOf v) 1 = 1 := by
    rw [regionReach, if_pos (by decide)]
    omega
  have hm := (mapRegion4kPages_holds (n := 1) hB hwf hr (by omega) hP hfit rfl).of_ok h
  rw [hreach] at hm
  refine ⟨hm.wf, ?_, hm.free, hm.tables⟩
  intro r' P' hr' hP'
  by_cases hat : r' = r ∧ P' = pageOf v
  · obtain ⟨rfl, rfl⟩ := hat
    have := hm.mapped 0 (by decide) (below_of_lt hP).1
    rw [Nat.add_zero, Nat.mul_zero, Nat.add_zero] at this
    rw [if_pos ⟨rfl, rfl⟩, frameAt, this]
    rfl
  · rw [if_neg hat, frameAt, frameAt, hm.leaf r' P' hr' (below_of_lt hP').1 fun hc =>
      hat ⟨hc.1, by omega⟩]

theorem pmmAlloc_ok (hB : B ≤ 512) (hwf : m.Wf R B) (h : pmmAlloc m = .ok (f, m')) :
    m'.Wf R B ∧ m.free = f :: m'.free ∧ (∀ g, IsTable R B m' g ↔ IsTable R B m g) ∧
      ∀ r P, R r → P < B * 512 ^ 3 → frameAt m' r P = frameAt m r P := by
  rw [pmmAlloc] at h
  split at h
  · cases h
  · rename_i f' rest hfree
    cases h
    have hfresh := hwf.fresh f (by rw [hfree]; exact List.mem_cons_self)
    have hnodup := hwf.nodup
    rw [hfree, List.nodup_cons] at hnodup
    have hnode := RadixTable.node_fill (z := PageEntry.zero) (tracked_rooted R B) hfresh
    refine ⟨⟨hwf.separated.congr hnode, ?_, hnodup.2⟩, hfree, ?_, ?_⟩
    · intro g hg r p hp
      show RadixTable.node _ (RadixTable.fill m.tables f .zero) r p ≠ some g
      rw [hnode r p hp]
      exact hwf.fresh g (by rw [hfree]; exact List.mem_cons_of_mem f hg) r p hp
    · intro g
      constructor
      · rintro ⟨r, p, hp, hg⟩
        exact ⟨r, p, hp, (hnode r p hp).symm.trans hg⟩
      · rintro ⟨r, p, hp, hg⟩
        exact ⟨r, p, hp, (hnode r p hp).trans hg⟩
    · intro r P hr hP
      have hpos := tracked_path (R := R) hB hr (below_of_lt hP).1
      exact congrArg (Option.map PageEntry.base)
        (RadixTable.entry_fill (tracked_rooted R B) hfresh hpos)

/-! ### The tree after freeing a region -/

/-- The frames that `k` pages from `S` map, in order. -/
def regionFrames (m : PhysMem) (r : Frame) (S k : Nat) : List Frame :=
  (List.range k).filterMap fun j => frameAt m r (S + j)

/-- The tree `m` as freeing left it: from `m₀`, with the first `k` pages from `S` no longer
present and their frames at the end of the queue. -/
structure FreeState (R : Frame → Prop) (B : Nat) (m₀ : PhysMem) (r : Frame) (S : Nat)
    (m : PhysMem) (k : Nat) : Prop where
  nodes : ∀ r' p, Tracked R B r' p → RadixTable.node PageEntry.child m.tables r' p =
    RadixTable.node PageEntry.child m₀.tables r' p
  kept : ∀ r' ℓ x, R r' → Below B ℓ x → ¬(r' = r ∧ ℓ = 3 ∧ S ≤ x ∧ x < S + k) →
    slot m r' ℓ x = slot m₀ r' ℓ x
  cleared : ∀ j < k, Below B 3 (S + j) → slot m r 3 (S + j) = none
  free : m.free = m₀.free ++ regionFrames m₀ r S k

section Free

variable {R : Frame → Prop} {B : Nat} {m₀ m : PhysMem} {r : Frame} {S n k : Nat}

variable {e : PageEntry} {x ℓ : Nat} {t : Frame}

theorem regionFrames_succ (he : slot m r 3 (S + k) = some e) :
    regionFrames m r S (k + 1) = regionFrames m r S k ++ [e.base] := by
  simp [regionFrames, List.range_succ, frameAt, he]

section

variable (h : FreeState R B m₀ r S m k)

include h

theorem FreeState.table_eq (hB : B ≤ 512) (hr : R r) (hx : Below B ℓ x) :
    tableAt m r ℓ (x / 512) = tableAt m₀ r ℓ (x / 512) :=
  h.nodes r _ (tracked_path hB hr hx)

theorem FreeState.frames (hr : R r) {r' : Frame} {P : Nat} (hr' : R r') (hP : P < B * 512 ^ 3) :
    frameAt m r' P = if r' = r ∧ S ≤ P ∧ P < S + k then none else frameAt m₀ r' P := by
  by_cases hat : r' = r ∧ S ≤ P ∧ P < S + k
  · obtain ⟨rfl, hlow, hhigh⟩ := hat
    have := h.cleared (P - S) (by omega) (by rw [Nat.add_sub_cancel' hlow]; exact (below_of_lt hP).1)
    rw [Nat.add_sub_cancel' hlow] at this
    rw [if_pos ⟨rfl, hlow, hhigh⟩, frameAt, this]
    rfl
  · rw [if_neg hat, frameAt, frameAt, h.kept r' 3 P hr' (below_of_lt hP).1 fun hc =>
      hat ⟨hc.1, hc.2.2⟩]

theorem FreeState.isTable (g : Frame) : IsTable R B m g ↔ IsTable R B m₀ g := by
  constructor
  · rintro ⟨r', p, hp, hg⟩
    exact ⟨r', p, hp, (h.nodes r' p hp).symm.trans hg⟩
  · rintro ⟨r', p, hp, hg⟩
    exact ⟨r', p, hp, (h.nodes r' p hp).trans hg⟩

/-- The tree stays well formed when no frame is returned that is free or holds a table, and none
twice. -/
theorem FreeState.wf (hwf : m₀.Wf R B) (hnodup : (m₀.free ++ regionFrames m₀ r S k).Nodup)
    (htables : ∀ f ∈ regionFrames m₀ r S k, ¬IsTable R B m₀ f) : m.Wf R B := by
  refine ⟨hwf.separated.congr h.nodes, ?_, by rw [h.free]; exact hnodup⟩
  intro f hf r' p hp hnode
  rw [h.free, List.mem_append] at hf
  rw [h.nodes r' p hp] at hnode
  rcases hf with hf | hf
  · exact hwf.fresh f hf r' p hp hnode
  · exact htables f hf ⟨r', p, hp, hnode⟩

end

theorem FreeState.refl (m₀ : PhysMem) : FreeState R B m₀ r S m₀ 0 where
  nodes := fun _ _ _ => rfl
  kept := fun _ _ _ _ _ _ => rfl
  cleared := fun j hj => absurd hj (Nat.not_lt_zero j)
  free := by simp [regionFrames]

theorem FreeState.freePage (hB : B ≤ 512)
    (hsep : RadixTable.Separated PageEntry.child m₀.tables (Tracked R B))
    (h : FreeState R B m₀ r S m k) (hr : R r) (hP : Below B 3 (S + k))
    (ht : tableAt m r 3 ((S + k) / 512) = some t) (he : slot m₀ r 3 (S + k) = some e) :
    Holds (· = .panic) (freeVisitor.page m t (idx (S + k)) 0)
      fun m' => FreeState R B m₀ r S m' (k + 1) := by
  have hsep' := hsep.congr h.nodes
  have hslot : slot m r 3 (S + k) = some e := by
    rw [h.kept r 3 (S + k) hr hP fun hc => by omega, he]
  rw [slot_of_tableAt ht] at hslot
  have hp : (m.tables t (idx (S + k))).present = true := by
    by_contra hp
    rw [if_neg hp] at hslot
    cases hslot
  rw [if_pos hp] at hslot
  have hentry := Option.some.inj hslot
  have hnodes := set_nodes (e := { e with present := false }) hB hsep' hr hP ht (.inr rfl)
  have hslots := set_slots (e := { e with present := false }) hB hsep' hr hP ht (.inr rfl)
  show Holds _ (presentBase (m.tables t (idx (S + k))) >>= _) _
  rw [presentBase, if_pos hp, ok_bind, pmmFree, hentry]
  split
  · refine ⟨?_, ?_, ?_, ?_⟩
    · intro r' p hp'
      exact (hnodes r' p hp').trans (h.nodes r' p hp')
    · intro r' ℓ x hr' hx hnot
      have := hslots r' ℓ x hr' hx
      rw [if_neg fun hc => hnot ⟨hc.1, hc.2.1, by omega⟩] at this
      exact this.trans (h.kept r' ℓ x hr' hx fun hc => hnot ⟨hc.1, hc.2.1, by omega⟩)
    · intro j hj hx
      have := hslots r 3 (S + j) hr hx
      by_cases hjk : j = k
      · rw [if_pos ⟨rfl, rfl, by omega⟩] at this
        exact this
      · rw [if_neg fun hc => by omega] at this
        exact this.trans (h.cleared j (by omega) hx)
    · show m.free ++ [e.base] = _
      rw [h.free, regionFrames_succ he, List.append_assoc]
  · exact rfl

theorem tableAt_of_present (ht : tableAt m r ℓ (x / 512) = some t)
    (hp : (m.tables t (idx x)).present = true) :
    tableAt m r (ℓ + 1) x = some (m.tables t (idx x)).base := by
  rw [tableAt_succ, slot_of_tableAt ht, if_pos hp, Option.bind_some, PageEntry.child, if_pos hp]

theorem present_of_slot (ht : tableAt m r ℓ (x / 512) = some t) (he : slot m r ℓ x = some e) :
    (m.tables t (idx x)).present = true := by
  rw [slot_of_tableAt ht] at he
  by_contra hp
  rw [if_neg hp] at he
  cases he

/-- The slot that the assertion on the tables of directory `d` looks at. -/
def assertedTable (d : Nat) : Nat := 512 * d + d % 512

/-- What has been found for the first `k` pages. -/
structure PagesChecked (m₀ : PhysMem) (r : Frame) (S k : Nat) : Prop where
  asserted : ∀ j < k, (slot m₀ r 2 (assertedTable ((S + j) / 512 / 512))).isSome
  room : ∀ j < k, m₀.free.length + j < pmmCapacity

theorem PagesChecked.zero : PagesChecked m₀ r S 0 :=
  ⟨fun j hj => absurd hj (Nat.not_lt_zero j), fun j hj => absurd hj (Nat.not_lt_zero j)⟩

theorem PagesChecked.succ (h : PagesChecked m₀ r S k)
    (hasserted : (slot m₀ r 2 (assertedTable ((S + k) / 512 / 512))).isSome)
    (hroom : m₀.free.length + k < pmmCapacity) : PagesChecked m₀ r S (k + 1) where
  asserted j hj := by
    rcases Nat.lt_succ_iff_lt_or_eq.mp hj with hlt | rfl
    · exact h.asserted j hlt
    · exact hasserted
  room j hj := by
    rcases Nat.lt_succ_iff_lt_or_eq.mp hj with hlt | rfl
    · exact h.room j hlt
    · exact hroom

theorem regionFrames_length (hmapped : ∀ j < k, ∃ e, slot m r 3 (S + j) = some e) :
    (regionFrames m r S k).length = k := by
  induction k with
  | zero => rfl
  | succ k ih =>
    obtain ⟨e, he⟩ := hmapped k (Nat.lt_succ_self k)
    rw [regionFrames_succ he, List.length_append, ih fun j hj => hmapped j (Nat.lt_succ_of_lt hj)]
    rfl

theorem slot_assertedTable {f : Frame} {d : Nat} (hf : tableAt m r 2 d = some f) :
    slot m r 2 (assertedTable d) =
      if (m.tables f (idx d)).present then some (m.tables f (idx d)) else none := by
  have hdiv : assertedTable d / 512 = d := by
    unfold assertedTable
    omega
  have hidx : idx (assertedTable d) = idx d := by
    apply Fin.ext
    show (512 * d + d % 512) % 512 = d % 512
    omega
  rw [slot_of_tableAt (by rw [hdiv]; exact hf), hidx]

variable {A : Fault → Prop}

theorem Holds.bind_presentBase {α : Type} {e : PageEntry} {f : Frame → Except Fault α}
    {Q : α → Prop} (hA : e.present = true ∨ A .panic)
    (hf : e.present = true → Holds A (f e.base) Q) : Holds A (presentBase e >>= f) Q := by
  rw [presentBase]
  by_cases hp : e.present = true
  · rw [if_pos hp]
    exact hf hp
  · rw [if_neg hp]
    exact hA.resolve_left hp

/-- One page: its entry is cleared and its frame returned, if the queue has a place. -/
theorem FreeState.freePage_holds (hB : B ≤ 512)
    (hsep : RadixTable.Separated PageEntry.child m₀.tables (Tracked R B))
    (h : FreeState R B m₀ r S m k) (hr : R r) (hP : Below B 3 (S + k))
    (hmapped : ∀ j < k + 1, ∃ e, slot m₀ r 3 (S + j) = some e) (ht : tableAt m r 3 ((S + k) / 512) = some t)
    (hroom : m₀.free.length + k < pmmCapacity ∨ A .panic) (a : Nat) :
    Holds A (freeVisitor.page m t (idx (S + k)) a)
      fun m' => FreeState R B m₀ r S m' (k + 1) ∧ m₀.free.length + k < pmmCapacity := by
  obtain ⟨e, he⟩ := hmapped k (Nat.lt_succ_self k)
  have hslot : slot m r 3 (S + k) = some e := by
    rw [h.kept r 3 (S + k) hr hP fun hc => by omega, he]
  have hlength : m.free.length = m₀.free.length + k := by
    rw [h.free, List.length_append,
      regionFrames_length fun j hj => hmapped j (Nat.lt_succ_of_lt hj)]
  have hstep := h.freePage hB hsep hr hP ht he
  have hpresent := present_of_slot ht hslot
  have hpage : freeVisitor.page m t (idx (S + k)) a =
      pmmFree (m.set t (idx (S + k)) { m.tables t (idx (S + k)) with present := false })
        (m.tables t (idx (S + k))).base := by
    show presentBase (m.tables t (idx (S + k))) >>= _ = _
    rw [presentBase, if_pos hpresent]
    rfl
  have hfree : (m.set t (idx (S + k)) { m.tables t (idx (S + k)) with present := false }).free
      = m.free := rfl
  rw [show freeVisitor.page m t (idx (S + k)) 0 = freeVisitor.page m t (idx (S + k)) a from rfl,
    hpage, pmmFree, hfree, hlength] at hstep
  rw [hpage, pmmFree, hfree, hlength]
  by_cases hlt : m₀.free.length + k < pmmCapacity
  · rw [if_pos hlt] at hstep ⊢
    exact ⟨hstep, hlt⟩
  · rw [if_neg hlt]
    exact hroom.resolve_left hlt

/-- **The free body, with what it has found (proved).**  It can only stop in a panic, and only
where an assertion or the queue makes it. -/
theorem freeVisitor_checked (hB : B ≤ 512)
    (hsep : RadixTable.Separated PageEntry.child m₀.tables (Tracked R B)) (hr : R r)
    (hS : S + n ≤ B * 512 ^ 3) (hmapped : ∀ j < n, ∃ e, slot m₀ r 3 (S + j) = some e) {pdpt : Frame}
    (hpdpt : tableAt m₀ r 1 (S / 512 / 512 / 512) = some pdpt) (phys : Nat) (hasserted : ∀ j < n,
      (slot m₀ r 2 (assertedTable ((S + j) / 512 / 512))).isSome ∨ A .panic)
    (hroom : ∀ j < n, m₀.free.length + j < pmmCapacity ∨ A .panic) :
    RegionRule A freeVisitor pdpt S n phys
      (fun m k => FreeState R B m₀ r S m k ∧ PagesChecked m₀ r S k)
      (fun m k d f => (FreeState R B m₀ r S m k ∧ PagesChecked m₀ r S k) ∧
        tableAt m₀ r 2 d = some f)
      (fun m k t f g => (FreeState R B m₀ r S m k ∧ PagesChecked m₀ r S k) ∧
        tableAt m₀ r 2 (t / 512) = some f ∧ tableAt m₀ r 3 t = some g ∧
        (slot m₀ r 2 (assertedTable (t / 512))).isSome) := by
  have hbelow := fun j (hj : j < n) => below_of_lt (B := B) (P := S + j) (by omega)
  constructor
  case directory =>
    intro m k hk hpml4 ⟨hm, hchecked⟩
    obtain ⟨-, ht, hd, -⟩ := hbelow k hk
    have hpdpt' : tableAt m r 1 ((S + k) / 512 / 512 / 512) = some pdpt := by
      rw [hm.table_eq hB hr hd, hpml4, hpdpt]
    -- the page is mapped, so the entries above it are present
    obtain ⟨e, he⟩ := hmapped k hk
    obtain ⟨e', he'⟩ := slot_above he
    obtain ⟨e'', he''⟩ := slot_above he'
    rw [← hm.kept r 1 _ hr hd fun hc => by omega] at he''
    have hpresent := present_of_slot hpdpt' he''
    refine Holds.bind_presentBase (Or.inl hpresent) fun hp => ⟨⟨hm, hchecked⟩, ?_⟩
    rw [← hm.table_eq hB hr ht]
    exact tableAt_of_present hpdpt' hp
  case table =>
    intro m k f hk ⟨⟨hm, hchecked⟩, hf⟩
    obtain ⟨hP, ht, hd, -⟩ := hbelow k hk
    have hf' : tableAt m r 2 ((S + k) / 512 / 512) = some f := by
      rw [hm.table_eq hB hr ht, hf]
    obtain ⟨e, he⟩ := hmapped k hk
    obtain ⟨e', he'⟩ := slot_above he
    rw [← hm.kept r 2 _ hr ht fun hc => by omega] at he'
    have hg := tableAt_of_present hf' (present_of_slot hf' he')
    rw [hm.table_eq hB hr hP] at hg
    have hslot := slot_assertedTable hf'
    have hbelow' : Below B 2 (assertedTable ((S + k) / 512 / 512)) := by
      refine ⟨by omega, ?_⟩
      unfold assertedTable
      omega
    rw [hm.kept r 2 _ hr hbelow' fun hc => by omega] at hslot
    refine Holds.bind_presentBase ?_ fun hp => ⟨⟨hm, hchecked⟩, hf, hg, ?_⟩
    · refine (hasserted k hk).imp_left fun hsome => ?_
      rw [hslot] at hsome
      by_contra hp
      rw [if_neg hp] at hsome
      cases hsome
    · rw [hslot, if_pos hp]
      rfl
  case page =>
    intro m k f g a hk _ ⟨⟨hm, hchecked⟩, hf, hg, hsome⟩
    obtain ⟨hP, -, -, -⟩ := hbelow k hk
    have hg' : tableAt m r 3 ((S + k) / 512) = some g := by
      rw [hm.table_eq hB hr hP, hg]
    refine (hm.freePage_holds hB hsep hr hP (fun j hj => hmapped j (by omega)) hg' (hroom k hk)
      a).mono fun m' hm' => ⟨⟨hm'.1, hchecked.succ hsome hm'.2⟩, hf, hg, hsome⟩
  case leaveTable =>
    intro m k f g h
    exact ⟨h.1, h.2.1⟩
  case leaveDirectory =>
    intro m k f h
    exact h.1

/-- **The tree and the queue after `_free_region_4k_pages`**, when it returns and the pages it
reaches were mapped. -/
theorem freeRegion4kPages_ok (hB : B ≤ 512)
    (hsep : RadixTable.Separated PageEntry.child m₀.tables (Tracked R B)) (hr : R r)
    {base size : Nat} (hsize : pagesIn size = n) (hS : pageOf base + n ≤ B * 512 ^ 3)
    (hmapped : ∀ j < regionReach (pageOf base) n, ∃ e, slot m₀ r 3 (pageOf base + j) = some e)
    (h : freeRegion4kPages m₀ r base size = .ok m) :
    FreeState R B m₀ r (pageOf base) m (regionReach (pageOf base) n) := by
  have hreach := regionReach_le (pageOf base) n
  obtain ⟨pdpt, hpdpt, h⟩ := bind_eq_ok.mp h
  obtain ⟨c, hc, h⟩ := bind_eq_ok.mp h
  cases h
  have hpdpt' : tableAt m₀ r 1 (pageOf base / 512 / 512 / 512) = some pdpt := by
    rw [pdptGet, vmaPml4eIdx_eq, tableIndex_mod, ok_bind, presentBase] at hpdpt
    split at hpdpt
    · rename_i hp
      rw [tableAt_of_present (tableAt_zero m₀ r _) hp]
      exact congrArg some (Except.ok.inj hpdpt)
    · cases hpdpt
  have hfit := regionWalk_fits (by omega) hsize hc
  have hrule := freeVisitor_checked (A := (· = .panic)) hB hsep hr (by omega) hmapped hpdpt' 0
    (fun _ _ => Or.inr rfl) fun _ _ => Or.inr rfl
  exact ((regionWalk_holds (by omega) hfit hrule hsize (fun _ => rfl)
    ⟨FreeState.refl m₀, PagesChecked.zero⟩).of_ok hc).1

end Free

end Axle.Kernel
