import Axle.Kernel.PageTree
import Mathlib.Tactic.IntervalCases

/-!
# What mapping a region does to every page

A page translates through four entries; its effective rights are the conjunction of `writable`
and of `user_mode` over them.  The upper three entries are shared with other pages, and
`_map_region_4k_pages` rewrites their `user_mode` on the way to the pages of its region, keeps
the `writable` of those it finds and sizes its loops by the region's length alone.

* `translate` — the frame and the effective rights of a page;
* `MapsLocally` — the region's pages get the requested frames and rights and no other page
  changes;
* `MapsLocallyWhen` — the trees and regions for which that is so, on the tree before the call;
* `mapRegion4kPages_mapsLocally_iff` — **PROVED**: the call maps locally exactly then.
-/

namespace Axle.Kernel

/-- Where a page translates to, with its effective rights. -/
structure Translation where
  frame : Frame
  writable : Bool
  user : Bool
deriving DecidableEq, Repr

/-- The number of the level-`ℓ` block that page `P` lies in. -/
def block (P ℓ : Nat) : Nat := P / 512 ^ (3 - ℓ)

/-- The entry of level `ℓ` that page `P` translates through. -/
def entryOf (m : PhysMem) (r : Frame) (P ℓ : Nat) : Option PageEntry := slot m r ℓ (block P ℓ)

/-- The walk through PML4, PDPT, page directory and page table. -/
def translate (m : PhysMem) (r : Frame) (P : Nat) : Option Translation := do
  let pml4e ← entryOf m r P 0
  let pdpe ← entryOf m r P 1
  let pde ← entryOf m r P 2
  let pte ← entryOf m r P 3
  some
    { frame := pte.base
      writable := pml4e.writable && pdpe.writable && pde.writable && pte.writable
      user := pml4e.userMode && pdpe.userMode && pde.userMode && pte.userMode }

/-- **Mapping is local and has the requested rights**, for the `n` pages from `vmemStart`. -/
def MapsLocally (m : PhysMem) (pml4 : Frame) (vmemStart n physStart : Nat)
    (access : VasRangeAccess) (privilege : VasRangePrivilege) : Prop :=
  ∃ m', mapRegion4kPages m pml4 vmemStart (0x1000 * n) physStart access privilege = .ok m' ∧
    (∀ k < n, translate m' pml4 (pageOf vmemStart + k) = some
      { frame := frameOf (physStart + 0x1000 * k)
        writable := access == .readWrite
        user := privilege == .user }) ∧
    ∀ P < 2 ^ 36, ¬(pageOf vmemStart ≤ P ∧ P < pageOf vmemStart + n) →
      translate m' pml4 P = translate m pml4 P

/-- The call rewrites the `user_mode` of the entry of level `ℓ` that page `P` goes through: the
PML4 entry of the region's start, and the directories and tables of the pages it reaches. -/
def Rewrites (S n P ℓ : Nat) : Prop := Visited S (regionReach S n) ℓ (block P ℓ)

/-- The page's effective user right survives the call: for a kernel mapping when the page has
none or lies under another PML4 entry, for a user mapping when it has it or when an entry that
the call does not rewrite denies it. -/
def KeepsUser (m : PhysMem) (r : Frame) (S n : Nat) (privilege : VasRangePrivilege) (P : Nat)
    (user : Bool) : Prop :=
  match privilege with
  | .kernel => user = true → block P 0 ≠ block S 0
  | .user => user = false →
      ∃ ℓ ≤ 3, ∃ e, entryOf m r P ℓ = some e ∧ e.userMode = false ∧ ¬Rewrites S n P ℓ

/-- A page that the call does not reach ends up with the requested user right. -/
def GetsUser (m : PhysMem) (r : Frame) (S n : Nat) (privilege : VasRangePrivilege) (P : Nat)
    (user : Bool) : Prop :=
  match privilege with
  | .kernel => user = false ∨ block P 0 = block S 0
  | .user => ∀ ℓ ≤ 3, ∀ e, entryOf m r P ℓ = some e → ¬Rewrites S n P ℓ → e.userMode = true

/-- When a call maps locally, in terms of the tree before it. -/
structure MapsLocallyWhen (m : PhysMem) (r : Frame) (S n phys : Nat) (access : VasRangeAccess)
    (privilege : VasRangePrivilege) : Prop where
  /-- The loops stay inside their tables. -/
  fits : RegionFits S n
  /-- A writable mapping meets writable upper-level entries only. -/
  writable : access = .readWrite → ∀ k < regionReach S n, ∀ ℓ ≤ 2, ∀ e,
    entryOf m r (S + k) ℓ = some e → e.writable = true
  /-- No page outside the region depends on a `user_mode` that the call flips. -/
  outside : ∀ P < 2 ^ 36, ¬(S ≤ P ∧ P < S + n) → ∀ tr, translate m r P = some tr →
    KeepsUser m r S n privilege P tr.user
  /-- The pages past the last table the loops count were mapped as requested before. -/
  missed : ∀ k < n, regionReach S n ≤ k → ∃ tr, translate m r (S + k) = some tr ∧
    tr.frame = frameOf (phys + 0x1000 * k) ∧ tr.writable = (access == .readWrite) ∧
    GetsUser m r S n privilege (S + k) tr.user

/-! ### Reading a page through its four entries -/

theorem block_zero (P : Nat) : block P 0 = P / 512 / 512 / 512 := by
  simp only [block]
  omega

theorem block_one (P : Nat) : block P 1 = P / 512 / 512 := by
  simp only [block]
  omega

theorem block_two (P : Nat) : block P 2 = P / 512 := rfl

theorem block_three (P : Nat) : block P 3 = P := Nat.div_one P

theorem below_block {B P ℓ : Nat} (hP : P < B * 512 ^ 3) (hℓ : ℓ ≤ 3) : Below B ℓ (block P ℓ) := by
  obtain ⟨h₃, h₂, h₁, h₀⟩ := below_of_lt hP
  interval_cases ℓ
  · rwa [block_zero]
  · rwa [block_one]
  · rwa [block_two]
  · rwa [block_three]

theorem forall_level {φ : Nat → Prop} : (∀ ℓ ≤ 3, φ ℓ) ↔ φ 0 ∧ φ 1 ∧ φ 2 ∧ φ 3 := by
  constructor
  · intro h
    exact ⟨h 0 (by omega), h 1 (by omega), h 2 (by omega), h 3 (by omega)⟩
  · rintro ⟨h₀, h₁, h₂, h₃⟩ ℓ hℓ
    interval_cases ℓ <;> assumption

variable {P S n ℓ : Nat} {m : PhysMem} {r : Frame}

theorem translate_of_entries {e : Nat → PageEntry} (h : ∀ ℓ ≤ 3, entryOf m r P ℓ = some (e ℓ)) :
    translate m r P = some
      { frame := (e 3).base
        writable := (e 0).writable && (e 1).writable && (e 2).writable && (e 3).writable
        user := (e 0).userMode && (e 1).userMode && (e 2).userMode && (e 3).userMode } := by
  simp only [translate, h 0 (by omega), h 1 (by omega), h 2 (by omega), h 3 (by omega)]
  rfl

/-- A page with a page-table entry has the other three too. -/
theorem entries_of_leaf {pte : PageEntry} (h : slot m r 3 P = some pte) :
    ∃ e : Nat → PageEntry, e 3 = pte ∧ ∀ ℓ ≤ 3, entryOf m r P ℓ = some (e ℓ) := by
  obtain ⟨pde, hpde⟩ := slot_above h
  obtain ⟨pdpe, hpdpe⟩ := slot_above hpde
  obtain ⟨pml4e, hpml4e⟩ := slot_above hpdpe
  refine ⟨fun | 0 => pml4e | 1 => pdpe | 2 => pde | _ => pte, rfl, forall_level.mpr ?_⟩
  unfold entryOf
  rw [block_zero, block_one, block_two, block_three]
  exact ⟨hpml4e, hpdpe, hpde, h⟩

theorem translate_eq_none_iff : translate m r P = none ↔ slot m r 3 P = none := by
  constructor
  · intro h
    cases hs : slot m r 3 P with
    | none => rfl
    | some pte =>
      obtain ⟨e, -, he⟩ := entries_of_leaf hs
      rw [translate_of_entries he] at h
      cases h
  · intro h
    have h3 : entryOf m r P 3 = none := by
      rw [entryOf, block_three, h]
    unfold translate
    rw [h3]
    cases entryOf m r P 0 <;> cases entryOf m r P 1 <;> cases entryOf m r P 2 <;> rfl

theorem translate_eq_some {tr : Translation} (h : translate m r P = some tr) :
    ∃ e : Nat → PageEntry, (∀ ℓ ≤ 3, entryOf m r P ℓ = some (e ℓ)) ∧ tr.frame = (e 3).base ∧
      (tr.writable = true ↔ ∀ ℓ ≤ 3, (e ℓ).writable = true) ∧
      (tr.user = true ↔ ∀ ℓ ≤ 3, (e ℓ).userMode = true) := by
  cases hs : slot m r 3 P with
  | none =>
    rw [translate_eq_none_iff.mpr hs] at h
    cases h
  | some pte =>
    obtain ⟨e, -, he⟩ := entries_of_leaf hs
    rw [translate_of_entries he] at h
    cases h
    refine ⟨e, he, rfl, ?_, ?_⟩
    · rw [forall_level]
      simp [and_assoc]
    · rw [forall_level]
      simp [and_assoc]

/-! ### The pages after the call -/

/-- All reached pages lie under the PML4 entry of the first. -/
theorem reach_top {S n j : Nat} (hfit : RegionFits S n) (hj : j < regionReach S n) :
    (S + j) / 512 / 512 / 512 = S / 512 / 512 / 512 := by
  unfold regionReach at hj
  split at hj
  · have := hfit.1 (by assumption)
    omega
  · have := hfit.2 (by omega)
    omega

/-- A rewritten entry lies under the PML4 entry of the region's start. -/
theorem Rewrites.top (hfit : RegionFits S n) (h : Rewrites S n P ℓ) : block P 0 = block S 0 := by
  rw [block_zero, block_zero]
  rcases h with ⟨rfl, h⟩ | ⟨rfl, j, hj, h⟩ | ⟨rfl, j, hj, h⟩
  · rwa [block_zero] at h
  · rw [block_one] at h
    rw [← reach_top hfit hj, h]
  · rw [block_two] at h
    rw [← reach_top hfit hj, h]

theorem rewrites_zero (h : block P 0 = block S 0) : Rewrites S n P 0 := by
  rw [block_zero S] at h
  exact .inl ⟨rfl, h⟩

theorem not_rewrites_three (S n P : Nat) : ¬Rewrites S n P 3 := by
  rintro (⟨h, -⟩ | ⟨h, -⟩ | ⟨h, -⟩) <;> omega

section After

variable {m m' : PhysMem} {r : Frame} {S n phys : Nat} {access : VasRangeAccess}
  {privilege : VasRangePrivilege}

/-- The tree of one PML4 after a call that reached what it could. -/
abbrev Mapped (m : PhysMem) (r : Frame) (S n phys : Nat) (access : VasRangeAccess)
    (privilege : VasRangePrivilege) (m' : PhysMem) : Prop :=
  MapState (· = r) 512 m r S phys access privilege (Visited S (regionReach S n)) m'
    (regionReach S n)

/-- An upper-level entry that was there keeps its `writable`; its `user_mode` is the call's when
the call rewrites it. -/
theorem Mapped.upper_entry (h : Mapped m r S n phys access privilege m') {P ℓ : Nat}
    {e : PageEntry} (hP : P < 2 ^ 36) (hℓ : ℓ ≤ 2) (he : entryOf m r P ℓ = some e) :
    ∃ e', entryOf m' r P ℓ = some e' ∧ e'.writable = e.writable ∧
      (e'.userMode = true ↔ (Rewrites S n P ℓ → privilege = .user) ∧
        (¬Rewrites S n P ℓ → e.userMode = true)) := by
  have hx : Below 512 ℓ (block P ℓ) := below_block hP (by omega)
  have hold : rightsAt m r ℓ (block P ℓ) = some e.rights := by
    exact congrArg (Option.map PageEntry.rights) he
  by_cases hV : Rewrites S n P ℓ
  · have hnew := h.touched ℓ (block P ℓ) hx hℓ hV
    rw [hold] at hnew
    obtain ⟨e', he', hr⟩ := Option.map_eq_some_iff.mp hnew
    have hw : e'.writable = e.writable := congrArg Prod.fst hr
    have hu : e'.userMode = (privilege == .user) := congrArg Prod.snd hr
    refine ⟨e', he', hw, ?_⟩
    rw [hu, beq_iff_eq]
    exact ⟨fun hp => ⟨fun _ => hp, fun hn => absurd hV hn⟩, fun hp => hp.1 hV⟩
  · have hnew := h.upper r ℓ (block P ℓ) rfl hx hℓ fun hc => hV hc.2
    rw [hold] at hnew
    obtain ⟨e', he', hr⟩ := Option.map_eq_some_iff.mp hnew
    have hw : e'.writable = e.writable := congrArg Prod.fst hr
    have hu : e'.userMode = e.userMode := congrArg Prod.snd hr
    refine ⟨e', he', hw, ?_⟩
    rw [hu]
    exact ⟨fun he => ⟨fun hc => absurd hc hV, fun _ => he⟩, fun hc => hc.2 hV⟩

variable {P : Nat} {tr : Translation}

/-- **A page that is not reached** keeps its frame and its `writable`, and its user right is
decided by the entries that are not rewritten and, where one is, by the call's privilege. -/
theorem Mapped.unreached (h : Mapped m r S n phys access privilege m') (hP : P < 2 ^ 36)
    (hout : ¬(S ≤ P ∧ P < S + regionReach S n)) (htr : translate m r P = some tr) :
    ∃ u, translate m' r P = some { tr with user := u } ∧
      (u = true ↔ ∀ ℓ ≤ 3, ∀ e, entryOf m r P ℓ = some e →
        (Rewrites S n P ℓ → privilege = .user) ∧
        (¬Rewrites S n P ℓ → e.userMode = true)) := by
  obtain ⟨e, he, hframe, hw, -⟩ := translate_eq_some htr
  have hleaf : entryOf m' r P 3 = some (e 3) := by
    have := h.leaf r P rfl (below_of_lt hP).1 fun hc => hout hc.2
    rw [entryOf, block_three, this, ← he 3 (by omega), entryOf, block_three]
  obtain ⟨e₀, he₀, hw₀, hu₀⟩ := h.upper_entry hP (by omega) (he 0 (by omega))
  obtain ⟨e₁, he₁, hw₁, hu₁⟩ := h.upper_entry hP (by omega) (he 1 (by omega))
  obtain ⟨e₂, he₂, hw₂, hu₂⟩ := h.upper_entry hP (by omega) (he 2 (by omega))
  have hu₃ : (e 3).userMode = true ↔ (Rewrites S n P 3 → privilege = .user) ∧
      (¬Rewrites S n P 3 → (e 3).userMode = true) :=
    ⟨fun hc => ⟨fun hr => absurd hr (not_rewrites_three S n P), fun _ => hc⟩,
      fun hc => hc.2 (not_rewrites_three S n P)⟩
  have hnew := translate_of_entries (m := m') (r := r) (P := P)
    (e := fun | 0 => e₀ | 1 => e₁ | 2 => e₂ | _ => e 3) (forall_level.mpr ⟨he₀, he₁, he₂, hleaf⟩)
  refine ⟨e₀.userMode && e₁.userMode && e₂.userMode && (e 3).userMode, hnew.trans ?_, ?_⟩
  · have hwr : (e₀.writable && e₁.writable && e₂.writable && (e 3).writable) = tr.writable := by
      rw [hw₀, hw₁, hw₂, Bool.eq_iff_iff, hw, forall_level]
      simp [and_assoc]
    simp only [hwr, ← hframe]
  · have hall : (∀ ℓ ≤ 3, ∀ e', entryOf m r P ℓ = some e' →
        (Rewrites S n P ℓ → privilege = .user) ∧ (¬Rewrites S n P ℓ → e'.userMode = true)) ↔
        ∀ ℓ ≤ 3, (Rewrites S n P ℓ → privilege = .user) ∧
          (¬Rewrites S n P ℓ → (e ℓ).userMode = true) := by
      refine forall₂_congr fun ℓ hℓ => ?_
      rw [he ℓ hℓ]
      simp only [Option.some.injEq, forall_eq']
    rw [hall, forall_level, ← hu₀, ← hu₁, ← hu₂, ← hu₃]
    simp only [Bool.and_eq_true, and_assoc]

/-- A page without translation that is not reached stays without one. -/
theorem Mapped.unreached_none (h : Mapped m r S n phys access privilege m') (hP : P < 2 ^ 36)
    (hout : ¬(S ≤ P ∧ P < S + regionReach S n)) (htr : translate m r P = none) :
    translate m' r P = none := by
  rw [translate_eq_none_iff] at htr ⊢
  rw [h.leaf r P rfl (below_of_lt hP).1 fun hc => hout hc.2, htr]

theorem bool_and_not_iff {a b : Bool} {p : Prop} (h : b = true ↔ a = true ∧ ¬p) :
    (b = a ↔ (a = true → ¬p)) ∧ (b = false ↔ (a = false ∨ p)) := by
  cases a <;> cases b <;> simp at h ⊢ <;> exact h

/-- When an unreached page keeps its user right and when it has the requested one. -/
theorem userAfter_iff (hfit : RegionFits S n) {u : Bool} (htr : translate m r P = some tr)
    (hu : u = true ↔ ∀ ℓ ≤ 3, ∀ e, entryOf m r P ℓ = some e →
      (Rewrites S n P ℓ → privilege = .user) ∧ (¬Rewrites S n P ℓ → e.userMode = true)) :
    (u = tr.user ↔ KeepsUser m r S n privilege P tr.user) ∧
      (u = (privilege == .user) ↔ GetsUser m r S n privilege P tr.user) := by
  obtain ⟨e, he, -, -, htru⟩ := translate_eq_some htr
  cases privilege with
  | kernel =>
    -- the right is lost exactly under the PML4 entry of the region's start
    have hu' : u = true ↔ tr.user = true ∧ block P 0 ≠ block S 0 := by
      rw [hu, htru]
      constructor
      · intro h
        have hnot : block P 0 ≠ block S 0 := fun htop =>
          absurd ((h 0 (by omega) _ (he 0 (by omega))).1 (rewrites_zero htop)) (by decide)
        exact ⟨fun ℓ hℓ => (h ℓ hℓ _ (he ℓ hℓ)).2 fun hr => hnot (hr.top hfit), hnot⟩
      · rintro ⟨h, hnot⟩ ℓ hℓ e' he'
        rw [he ℓ hℓ] at he'
        cases he'
        exact ⟨fun hr => absurd (hr.top hfit) hnot, fun _ => h ℓ hℓ⟩
    show (u = tr.user ↔ (tr.user = true → block P 0 ≠ block S 0)) ∧
      (u = false ↔ (tr.user = false ∨ block P 0 = block S 0))
    exact bool_and_not_iff hu'
  | user =>
    have hu' : u = true ↔ ∀ ℓ ≤ 3, ∀ e, entryOf m r P ℓ = some e → ¬Rewrites S n P ℓ →
        e.userMode = true := by
      rw [hu]
      exact forall₄_congr fun ℓ hℓ e' he' => by simp
    refine ⟨?_, hu'⟩
    show u = tr.user ↔ (tr.user = false →
      ∃ ℓ ≤ 3, ∃ e, entryOf m r P ℓ = some e ∧ e.userMode = false ∧ ¬Rewrites S n P ℓ)
    constructor
    · intro h hfalse
      rw [hfalse] at h
      by_contra hno
      have : u = true := by
        rw [hu']
        intro ℓ hℓ e' he' hnr
        by_contra hmode
        exact hno ⟨ℓ, hℓ, e', he', by simpa using hmode, hnr⟩
      rw [this] at h
      cases h
    · intro h
      cases hut : tr.user with
      | true =>
        rw [hu']
        intro ℓ hℓ e' he' _
        rw [he ℓ hℓ] at he'
        cases he'
        exact htru.mp hut ℓ hℓ
      | false =>
        obtain ⟨ℓ, hℓ, e', he', hmode, hnr⟩ := h hut
        cases huv : u with
        | false => rfl
        | true =>
          have := hu'.mp huv ℓ hℓ e' he' hnr
          rw [hmode] at this
          cases this

/-- The entries of the four levels. -/
def levelEntries (e₀ e₁ e₂ e₃ : PageEntry) : Nat → PageEntry
  | 0 => e₀
  | 1 => e₁
  | 2 => e₂
  | _ => e₃

/-- **A reached page** has the requested frame and user right, and is writable when this was
asked for and no upper-level entry it shares was read-only. -/
theorem Mapped.reached (h : Mapped m r S n phys access privilege m') (hfit : RegionFits S n)
    {k : Nat} (hk : k < regionReach S n) (hP : S + k < 2 ^ 36) :
    ∃ w, translate m' r (S + k) = some
        { frame := frameOf (phys + 0x1000 * k), writable := w, user := privilege == .user } ∧
      (w = true ↔ access = .readWrite ∧
        ∀ ℓ ≤ 2, ∀ e, entryOf m r (S + k) ℓ = some e → e.writable = true) := by
  have hV : ∀ ℓ ≤ 2, Rewrites S n (S + k) ℓ := by
    intro ℓ hℓ
    interval_cases ℓ
    · exact rewrites_zero (by rw [block_zero, block_zero, reach_top hfit hk])
    · exact .inr (.inl ⟨rfl, k, hk, block_one _⟩)
    · exact .inr (.inr ⟨rfl, k, hk, block_two _⟩)
  have hupper : ∀ ℓ ≤ 2, ∃ e', entryOf m' r (S + k) ℓ = some e' ∧
      e'.userMode = (privilege == .user) ∧
      (e'.writable = ((entryOf m r (S + k) ℓ).map PageEntry.writable).getD
        (createdWritable access ℓ)) := by
    intro ℓ hℓ
    have hnew := h.touched ℓ (block (S + k) ℓ) (below_block hP (by omega)) hℓ (hV ℓ hℓ)
    obtain ⟨e', he', hr⟩ := Option.map_eq_some_iff.mp hnew
    refine ⟨e', he', congrArg Prod.snd hr, (congrArg Prod.fst hr).trans ?_⟩
    rw [rightsAt, Option.map_map]
    rfl
  have hleaf := h.mapped k hk (below_of_lt hP).1
  obtain ⟨e₀, he₀, hu₀, hw₀⟩ := hupper 0 (by omega)
  obtain ⟨e₁, he₁, hu₁, hw₁⟩ := hupper 1 (by omega)
  obtain ⟨e₂, he₂, hu₂, hw₂⟩ := hupper 2 (by omega)
  have hnew := translate_of_entries (m := m') (r := r) (P := S + k)
    (e := levelEntries e₀ e₁ e₂ (requestedEntry (phys + 0x1000 * k) access privilege))
    (forall_level.mpr ⟨he₀, he₁, he₂, by rwa [entryOf, block_three]⟩)
  refine ⟨e₀.writable && e₁.writable && e₂.writable && access == .readWrite, hnew.trans ?_, ?_⟩
  · simp only [levelEntries, hu₀, hu₁, hu₂, requestedEntry, Bool.and_self]
  · have hgetD : ∀ (o : Option PageEntry) (c : Bool),
        (o.map PageEntry.writable).getD c = true ↔
          (o = none → c = true) ∧ ∀ e, o = some e → e.writable = true := by
      intro o c
      cases o <;> simp
    simp only [Bool.and_eq_true, hw₀, hw₁, hw₂, hgetD, createdWritable, beq_iff_eq, and_assoc]
    constructor
    · rintro ⟨-, h₀, -, h₁, -, h₂, ha⟩
      refine ⟨ha, fun ℓ hℓ => ?_⟩
      interval_cases ℓ <;> assumption
    · rintro ⟨ha, hall⟩
      exact ⟨fun _ => rfl, hall 0 (by omega), fun _ => by simp [ha], hall 1 (by omega), fun _ => rfl,
        hall 2 (by omega), ha⟩

end After

/-! ### The law and its exact condition -/

/-- **When mapping a region is local and has the requested rights.**  For every well-formed tree,
every region of the 48-bit address space and every access and privilege, unless the frame queue
runs dry during the call: each page of the region translates to its requested frame with the
requested effective rights, and every other page translates as before, if and only if the tree
and the region satisfy `MapsLocallyWhen`. -/
theorem mapRegion4kPages_mapsLocally_iff (m : PhysMem) (pml4 : Frame) (vmemStart n physStart : Nat)
    (access : VasRangeAccess) (privilege : VasRangePrivilege) (hwf : m.Wf (· = pml4) 512)
    (hregion : pageOf vmemStart + n ≤ 2 ^ 36)
    (hframes : mapRegion4kPages m pml4 vmemStart (0x1000 * n) physStart access privilege ≠
      .error .outOfFrames) :
    MapsLocally m pml4 vmemStart n physStart access privilege ↔
      MapsLocallyWhen m pml4 (pageOf vmemStart) n physStart access privilege := by
  have hS : pageOf vmemStart < 2 ^ 36 := Nat.mod_lt _ (by decide)
  have hmapped : RegionFits (pageOf vmemStart) n → Holds (· = .outOfFrames)
      (mapRegion4kPages m pml4 vmemStart (0x1000 * n) physStart access privilege)
      (Mapped m pml4 (pageOf vmemStart) n physStart access privilege) := fun hfit =>
    mapRegion4kPages_holds (le_refl 512) hwf rfl hregion hS hfit rfl
  have hreach := regionReach_le (pageOf vmemStart) n
  constructor
  · rintro ⟨m', hok, hin, hout⟩
    have hfit : RegionFits (pageOf vmemStart) n := by
      obtain ⟨a, -, hrest⟩ := bind_eq_ok.mp hok
      obtain ⟨c, hc, -⟩ := bind_eq_ok.mp hrest
      exact regionWalk_fits (by omega) (pagesIn_mul n) hc
    have hm := (hmapped hfit).of_ok hok
    refine ⟨hfit, ?_, ?_, ?_⟩
    · rintro rfl k hk
      obtain ⟨w, htr, hw⟩ := hm.reached hfit hk (by omega)
      rw [hin k (by omega)] at htr
      cases htr
      exact (hw.mp rfl).2
    · intro P hP hnot tr htr
      obtain ⟨u, hu, hiff⟩ := hm.unreached hP (fun hc => hnot (by omega)) htr
      rw [hout P hP hnot, htr] at hu
      apply (userAfter_iff hfit htr hiff).1.mp
      exact (congrArg Translation.user (Option.some.inj hu)).symm
    · intro k hk hmiss
      cases htr : translate m pml4 (pageOf vmemStart + k) with
      | none =>
        have hnone := hm.unreached_none (by omega) (fun hc => by omega) htr
        rw [hin k hk] at hnone
        cases hnone
      | some tr =>
        obtain ⟨u, hu, hiff⟩ := hm.unreached (by omega) (fun hc => by omega) htr
        rw [hin k hk] at hu
        have hu := Option.some.inj hu
        refine ⟨tr, rfl, (congrArg Translation.frame hu).symm,
          (congrArg Translation.writable hu).symm, ?_⟩
        apply (userAfter_iff hfit htr hiff).2.mp
        exact (congrArg Translation.user hu).symm
  · intro hwhen
    have hm := hmapped hwhen.fits
    cases hres : mapRegion4kPages m pml4 vmemStart (0x1000 * n) physStart access privilege with
    | error e =>
      rw [hres] at hm hframes
      exact absurd (congrArg Except.error hm) hframes
    | ok m' =>
      rw [hres] at hm
      refine ⟨m', hres, ?_, ?_⟩
      · intro k hk
        by_cases hkr : k < regionReach (pageOf vmemStart) n
        · obtain ⟨w, htr, hw⟩ := hm.reached hwhen.fits hkr (by omega)
          have hwa : w = (access == .readWrite) := by
            rw [Bool.eq_iff_iff, hw, beq_iff_eq]
            exact ⟨fun h => h.1, fun h => ⟨h, hwhen.writable h k hkr⟩⟩
          rw [htr, hwa]
        · obtain ⟨tr, htr, hframe, hw, hgets⟩ := hwhen.missed k hk (by omega)
          obtain ⟨u, hu, hiff⟩ := hm.unreached (by omega) (fun hc => by omega) htr
          rw [hu, (userAfter_iff hwhen.fits htr hiff).2.mpr hgets, hframe, hw]
      · intro P hP hnot
        have hnot' : ¬(pageOf vmemStart ≤ P ∧
            P < pageOf vmemStart + regionReach (pageOf vmemStart) n) := fun hc => hnot (by omega)
        cases htr : translate m pml4 P with
        | none => exact hm.unreached_none hP hnot' htr
        | some tr =>
          obtain ⟨u, hu, hiff⟩ := hm.unreached hP hnot' htr
          rw [hu, (userAfter_iff hwhen.fits htr hiff).1.mpr (hwhen.outside P hP hnot tr htr)]

/-- An empty PML4 in frame 0 and a few free frames. -/
def emptyTree : PhysMem where
  tables := fun _ _ => .zero
  free := [⟨1, by decide⟩, ⟨2, by decide⟩, ⟨3, by decide⟩, ⟨4, by decide⟩]

/-- The PML4 of `emptyTree`. -/
def emptyTreeRoot : Frame := PageEntry.zero.base

theorem emptyTree_wf : emptyTree.Wf (· = emptyTreeRoot) 512 :=
  wf_of_empty (fun _ _ _ _ => rfl) (by simp [emptyTree, emptyTreeRoot, PageEntry.zero]) (by decide)

theorem emptyTree_slot (ℓ x : Nat) : slot emptyTree emptyTreeRoot ℓ x = none := by
  unfold slot Lib.RadixTable.entry
  cases Lib.RadixTable.node PageEntry.child emptyTree.tables emptyTreeRoot (path ℓ (x / 512)) <;>
    rfl

/-- A page mapped into an empty tree: the hypotheses and the condition hold there. -/
theorem mapRegion4kPages_mapsLocally_emptyTree :
    MapsLocally emptyTree emptyTreeRoot 0x1000 1 0x5000 .readWrite .user := by
  refine (mapRegion4kPages_mapsLocally_iff emptyTree emptyTreeRoot 0x1000 1 0x5000 .readWrite .user
    emptyTree_wf (by decide) (by intro h; cases h)).mpr ⟨by decide, ?_, ?_, ?_⟩
  · intro _ k _ ℓ _ e he
    rw [entryOf, emptyTree_slot] at he
    cases he
  · intro P _ _ tr htr
    cases htr
  · have : regionReach (pageOf 0x1000) 1 = 1 := by decide
    omega

/-- `emptyTree` with a user page at `0x1000`. -/
def treeWithUserPage : PhysMem :=
  (mapRegion4kPages emptyTree emptyTreeRoot 0x1000 0x1000 0x5000 .readWrite .user).toOption.getD
    emptyTree

theorem treeWithUserPage_eq :
    mapRegion4kPages emptyTree emptyTreeRoot 0x1000 0x1000 0x5000 .readWrite .user =
      .ok treeWithUserPage := rfl

theorem treeWithUserPage_wf : treeWithUserPage.Wf (· = emptyTreeRoot) 512 := by
  have hholds : Holds _ (mapRegion4kPages emptyTree emptyTreeRoot 0x1000 (0x1000 * 1) 0x5000
      .readWrite .user) _ :=
    mapRegion4kPages_holds (S := 1) (le_refl 512) emptyTree_wf rfl (by decide) (by decide)
      (by decide) (by decide)
  exact (hholds.of_ok treeWithUserPage_eq).wf

/-- A user page, then a kernel page beside it: both calls return, and the second takes the user
right of the first page away. -/
theorem mapRegion4kPages_not_mapsLocally :
    treeWithUserPage.Wf (· = emptyTreeRoot) 512 ∧
      (∃ m, mapRegion4kPages treeWithUserPage emptyTreeRoot 0x2000 0x1000 0x6000 .readWrite .kernel =
        .ok m) ∧
      ¬MapsLocally treeWithUserPage emptyTreeRoot 0x2000 1 0x6000 .readWrite .kernel := by
  refine ⟨treeWithUserPage_wf, ⟨_, rfl⟩, ?_⟩
  rintro ⟨m', hok, -, hout⟩
  have hpage := hout 1 (by decide) (by decide)
  have hm' : m' = (mapRegion4kPages treeWithUserPage emptyTreeRoot 0x2000 0x1000 0x6000 .readWrite
      .kernel).toOption.getD emptyTree := by
    rw [show (0x1000 : Nat) = 0x1000 * 1 from rfl, hok]
    rfl
  rw [hm'] at hpage
  revert hpage
  decide +kernel

end Axle.Kernel
