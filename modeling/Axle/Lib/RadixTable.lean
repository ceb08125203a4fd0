import Mathlib.Data.List.Basic
import Mathlib.Data.List.Induction
import Mathlib.Data.List.Nodup
import Mathlib.Logic.Function.Basic

/-!
# Radix tables in a store

A store maps addresses to tables, a table maps indices to entries, and `child` says which table
an entry leads to, if any.  Following a path of indices from a root gives the table `node` at the
end of that path; `entry` is the entry a table at a path holds, when it leads somewhere.

Two tables reached by different paths may be the same address in the store, and then a write
through one is seen through the other.  `Separated` excludes that for a set `L` of tracked
positions, and the write lemmas hold under it:

* `node_write_of_child_eq` — a write that keeps the entry's child moves no table;
* `entry_write` — **PROVED**: a write at a tracked position changes that entry and no other,
  when the position below it is untracked or keeps its child;
* `entry_create` — **PROVED**: hanging a fresh empty table below an entry that leads nowhere
  changes that entry and no other;
* `Separated.create` — the tracked positions stay separated.

Nothing here is about a particular table format.
-/

namespace Axle.Lib.RadixTable

variable {F ι E : Type*}

/-- The table at the end of a path from `root`. -/
def node (child : E → Option F) (store : F → ι → E) (root : F) (path : List ι) : Option F :=
  path.foldlM (fun f i => child (store f i)) root

/-- The entry at index `i` of the table at the end of a path, when it leads somewhere. -/
def entry (child : E → Option F) (store : F → ι → E) (root : F) (path : List ι) (i : ι) :
    Option E :=
  (node child store root path).bind fun f =>
    if (child (store f i)).isSome then some (store f i) else none

/-- Replace one entry of one table. -/
def write [DecidableEq F] [DecidableEq ι] (store : F → ι → E) (f : F) (i : ι) (e : E) :
    F → ι → E :=
  Function.update store f (Function.update (store f) i e)

/-- Replace every entry of one table by the same one. -/
def fill [DecidableEq F] (store : F → ι → E) (f : F) (e : E) : F → ι → E :=
  Function.update store f fun _ => e

/-- No two of the tracked positions lead to one table. -/
def Separated (child : E → Option F) (store : F → ι → E) (L : F → List ι → Prop) : Prop :=
  ∀ r p r' p' f, L r p → L r' p' → node child store r p = some f →
    node child store r' p' = some f → r = r' ∧ p = p'

/-- A tracked position lies below tracked positions only. -/
def Rooted (L : F → List ι → Prop) : Prop :=
  ∀ r p i, L r (p ++ [i]) → L r p

section Basic

variable {child : E → Option F} {store store' : F → ι → E} {r : F} {p : List ι} {i : ι} {f : F}

@[simp] theorem node_nil : node child store r [] = some r := rfl

theorem node_snoc :
    node child store r (p ++ [i]) =
      (node child store r p).bind fun f => child (store f i) := by
  simp [node, List.foldlM_append]

theorem node_snoc_of_some (h : node child store r p = some f) :
    node child store r (p ++ [i]) = child (store f i) := by
  rw [node_snoc, h, Option.bind_some]

theorem entry_of_node (h : node child store r p = some f) :
    entry child store r p i = if (child (store f i)).isSome then some (store f i) else none := by
  rw [entry, h, Option.bind_some]

/-- The entries determine the tables. -/
theorem node_snoc_eq_entry :
    node child store r (p ++ [i]) = (entry child store r p i).bind child := by
  rw [node_snoc, entry]
  cases node child store r p with
  | none => rfl
  | some f =>
    show child (store f i) = Option.bind (if _ then _ else _) child
    cases hc : child (store f i) with
    | none => rfl
    | some g => exact hc.symm

variable {L : F → List ι → Prop} {g : F} {z : E}

/-- Stores with the same tracked tables are separated together. -/
theorem Separated.congr (hsep : Separated child store L)
    (h : ∀ r p, L r p → node child store' r p = node child store r p) :
    Separated child store' L := by
  intro r p r' p' f hp hp' hn hn'
  rw [h r p hp] at hn
  rw [h r' p' hp'] at hn'
  exact hsep r p r' p' f hp hp' hn hn'

theorem fill_other [DecidableEq F] {e : E} (h : g ≠ f) : fill store f e g i = store g i := by
  simp [fill, h]

/-- Filling a table that no tracked position leads to moves no table. -/
theorem node_fill [DecidableEq F] (hL : Rooted L)
    (hfresh : ∀ r p, L r p → node child store r p ≠ some g) :
    ∀ r p, L r p → node child (fill store g z) r p = node child store r p := by
  intro r p
  induction p using List.reverseRecOn with
  | nil => exact fun _ => rfl
  | append_singleton p j ih =>
    intro hp
    have hp' := hL r p j hp
    rw [node_snoc, node_snoc, ih hp']
    cases hh : node child store r p with
    | none => rfl
    | some h =>
      have hne : h ≠ g := fun heq => hfresh r p hp' (heq ▸ hh)
      simp only [Option.bind_some, fill_other hne]

theorem entry_fill [DecidableEq F] (hL : Rooted L)
    (hfresh : ∀ r p, L r p → node child store r p ≠ some g) (hp : L r p) :
    entry child (fill store g z) r p i = entry child store r p i := by
  rw [entry, entry, node_fill hL hfresh r p hp]
  cases hh : node child store r p with
  | none => rfl
  | some h =>
    have hne : h ≠ g := fun heq => hfresh r p hp (heq ▸ hh)
    simp only [Option.bind_some, fill_other hne]

end Basic

section Write

variable [DecidableEq F] [DecidableEq ι] {child : E → Option F} {store : F → ι → E}
  {L : F → List ι → Prop} {r r' f g : F} {p q : List ι} {i j : ι} {e z : E}

@[simp] theorem write_same : write store f i e f i = e := by
  simp [write]

theorem write_other (h : ¬(g = f ∧ j = i)) : write store f i e g j = store g j := by
  by_cases hg : g = f
  · subst hg
    have hj : j ≠ i := fun hj => h ⟨rfl, hj⟩
    simp [write, hj]
  · simp [write, hg]

/-- A write that keeps the entry's child moves no table. -/
theorem node_write_of_child_eq (hc : child e = child (store f i)) :
    node child (write store f i e) r p = node child store r p := by
  have hall : ∀ g j, child (write store f i e g j) = child (store g j) := by
    intro g j
    by_cases h : g = f ∧ j = i
    · obtain ⟨rfl, rfl⟩ := h
      rw [write_same, hc]
    · rw [write_other h]
  simp only [node, hall]

section

variable (hL : Rooted L)

include hL

/-- A write at a tracked position moves no tracked table, when nothing below is tracked. -/
theorem node_write_of_not_below (hsep : Separated child store L) (hq : L r q)
    (hf : node child store r q = some f) (hbelow : ¬L r (q ++ [i])) :
    ∀ r' p, L r' p → node child (write store f i e) r' p = node child store r' p := by
  intro r' p
  induction p using List.reverseRecOn with
  | nil => exact fun _ => rfl
  | append_singleton p j ih =>
    intro hp
    rw [node_snoc, node_snoc, ih (hL r' p j hp)]
    cases hg : node child store r' p with
    | none => rfl
    | some g =>
      show child (write store f i e g j) = child (store g j)
      rw [write_other]
      rintro ⟨rfl, rfl⟩
      obtain ⟨rfl, rfl⟩ := hsep r' p r q g (hL r' p j hp) hq hg hf
      exact hbelow hp

/-- **A write changes one entry.**  It is made at a tracked position, and either keeps the
entry's child or has nothing tracked below. -/
theorem entry_write (hsep : Separated child store L) (hq : L r q)
    (hf : node child store r q = some f) (hok : child e = child (store f i) ∨ ¬L r (q ++ [i]))
    (hp : L r' p) :
    entry child (write store f i e) r' p j =
      if r' = r ∧ p = q ∧ j = i then (if (child e).isSome then some e else none)
      else entry child store r' p j := by
  have hnode : node child (write store f i e) r' p = node child store r' p := by
    cases hok with
    | inl hc => exact node_write_of_child_eq hc
    | inr hb => exact node_write_of_not_below hL hsep hq hf hb r' p hp
  by_cases h : r' = r ∧ p = q ∧ j = i
  · obtain ⟨rfl, rfl, rfl⟩ := h
    rw [if_pos ⟨rfl, rfl, rfl⟩, entry, hnode, hf, Option.bind_some, write_same]
  · rw [if_neg h, entry, entry, hnode]
    cases hg : node child store r' p with
    | none => rfl
    | some g =>
      have hne : ¬(g = f ∧ j = i) := by
        rintro ⟨rfl, rfl⟩
        obtain ⟨rfl, rfl⟩ := hsep r' p r q g hp hq hg hf
        exact h ⟨rfl, rfl, rfl⟩
      simp only [Option.bind_some, write_other hne]

/-- Where the tracked tables are after a fresh empty table is hung below an entry. -/
theorem node_create (hsep : Separated child store L) (hq : L r q)
    (hf : node child store r q = some f) (hnone : child (store f i) = none)
    (hfresh : ∀ r p, L r p → node child store r p ≠ some g) (hz : child z = none)
    (he : child e = some g) :
    ∀ r' p, L r' p → node child (write (fill store g z) f i e) r' p =
      if r' = r ∧ p = q ++ [i] then some g else node child store r' p := by
  have hfg : f ≠ g := fun h => hfresh r q hq (h ▸ hf)
  intro r' p
  induction p using List.reverseRecOn with
  | nil =>
    intro _
    rw [if_neg fun h => by simp at h]
    rfl
  | append_singleton p j ih =>
    intro hp
    have hp' := hL r' p j hp
    rw [node_snoc, ih hp']
    by_cases hnew : r' = r ∧ p = q ++ [i]
    · -- below the new table there is nothing, before and after
      obtain ⟨rfl, rfl⟩ := hnew
      rw [if_pos ⟨rfl, rfl⟩, Option.bind_some, write_other fun h => hfg h.1.symm,
        if_neg fun h => by simp at h, node_snoc, node_snoc_of_some hf, hnone]
      simpa [fill] using hz
    · rw [if_neg hnew, node_snoc]
      cases hh : node child store r' p with
      | none =>
        rw [Option.bind_none, Option.bind_none, if_neg]
        rintro ⟨rfl, hpq⟩
        obtain ⟨rfl, -⟩ := List.append_inj' hpq rfl
        rw [hf] at hh
        cases hh
      | some h =>
        have hhg : h ≠ g := fun heq => hfresh r' p hp' (heq ▸ hh)
        rw [Option.bind_some, Option.bind_some]
        by_cases hat : h = f ∧ j = i
        · obtain ⟨rfl, rfl⟩ := hat
          obtain ⟨rfl, rfl⟩ := hsep r' p r q h hp' hq hh hf
          rw [if_pos ⟨rfl, rfl⟩, write_same, he]
        · rw [write_other hat, fill_other hhg, if_neg]
          rintro ⟨rfl, hpq⟩
          obtain ⟨rfl, hji⟩ := List.append_inj' hpq rfl
          rw [hf] at hh
          exact hat ⟨(Option.some.inj hh).symm, List.singleton_inj.mp hji⟩

/-- **Creating a table changes one entry.** -/
theorem entry_create (hsep : Separated child store L) (hq : L r q)
    (hf : node child store r q = some f) (hnone : child (store f i) = none)
    (hfresh : ∀ r p, L r p → node child store r p ≠ some g) (hz : child z = none)
    (he : child e = some g) (hp : L r' p) :
    entry child (write (fill store g z) f i e) r' p j =
      if r' = r ∧ p = q ∧ j = i then some e else entry child store r' p j := by
  have hfg : f ≠ g := fun h => hfresh r q hq (h ▸ hf)
  have hnode := node_create hL hsep hq hf hnone hfresh hz he r' p hp
  by_cases hnew : r' = r ∧ p = q ++ [i]
  · obtain ⟨rfl, rfl⟩ := hnew
    have hold : node child store r' (q ++ [i]) = none := by
      rw [node_snoc_of_some hf, hnone]
    rw [if_pos ⟨rfl, rfl⟩] at hnode
    rw [if_neg fun h => by simp at h, entry_of_node hnode, entry, hold, Option.bind_none,
      write_other fun h => hfg h.1.symm, fill, Function.update_self, hz]
    rfl
  · rw [if_neg hnew] at hnode
    by_cases h : r' = r ∧ p = q ∧ j = i
    · obtain ⟨rfl, rfl, rfl⟩ := h
      rw [if_pos ⟨rfl, rfl, rfl⟩, entry, hnode, hf, Option.bind_some, write_same, he]
      rfl
    · rw [if_neg h, entry, entry, hnode]
      cases hh : node child store r' p with
      | none => rfl
      | some k =>
        have hkg : k ≠ g := fun heq => hfresh r' p hp (heq ▸ hh)
        have hne : ¬(k = f ∧ j = i) := by
          rintro ⟨rfl, rfl⟩
          obtain ⟨rfl, rfl⟩ := hsep r' p r q k hp hq hh hf
          exact h ⟨rfl, rfl, rfl⟩
        simp only [Option.bind_some, write_other hne, fill_other hkg]

theorem Separated.create (hsep : Separated child store L) (hq : L r q)
    (hf : node child store r q = some f) (hnone : child (store f i) = none)
    (hfresh : ∀ r p, L r p → node child store r p ≠ some g) (hz : child z = none)
    (he : child e = some g) : Separated child (write (fill store g z) f i e) L := by
  have hnode := node_create hL hsep hq hf hnone hfresh hz he
  intro r₁ p₁ r₂ p₂ h h₁ h₂ hn₁ hn₂
  rw [hnode r₁ p₁ h₁] at hn₁
  rw [hnode r₂ p₂ h₂] at hn₂
  split at hn₁
  · split at hn₂
    · rename_i ha hb
      exact ⟨ha.1.trans hb.1.symm, ha.2.trans hb.2.symm⟩
    · exact absurd (hn₂.trans hn₁.symm) (hfresh r₂ p₂ h₂)
  · split at hn₂
    · exact absurd (hn₁.trans hn₂.symm) (hfresh r₁ p₁ h₁)
    · exact hsep r₁ p₁ r₂ p₂ h h₁ h₂ hn₁ hn₂

end

end Write

/-! ### Everything below a table -/

section Descendants

variable (child : E → Option F) (store : F → ι → E)

/-- For each index in turn, what `below` lists for the table it leads to, and that table. -/
def childrenThen (is : List ι) (below : F → List F) (f : F) : List F :=
  is.flatMap fun i =>
    match child (store f i) with
    | none => []
    | some g => below g ++ [g]

/-- The tables up to `n` levels below `f`, each after the ones below it. -/
def descendants (all : List ι) : Nat → F → List F
  | 0, _ => []
  | n + 1, f => childrenThen child store all (descendants all n) f

variable {child store} {is all : List ι} {n : Nat} {f h : F}

theorem node_cons {i : ι} {q : List ι} :
    node child store f (i :: q) = (child (store f i)).bind fun g => node child store g q := rfl

theorem mem_childrenThen {below : F → List F} (hmem : h ∈ childrenThen child store is below f) :
    ∃ i ∈ is, ∃ g, child (store f i) = some g ∧ (h ∈ below g ∨ h = g) := by
  obtain ⟨i, hi, hh⟩ := List.mem_flatMap.mp hmem
  cases hg : child (store f i) with
  | none =>
    rw [hg] at hh
    cases hh
  | some g =>
    rw [hg] at hh
    refine ⟨i, hi, g, hg, ?_⟩
    simpa using hh

/-- What is listed is found at the end of a path that starts with one of the indices. -/
theorem mem_childrenThen_descendants :
    ∀ {n : Nat} {is : List ι} {f : F},
      h ∈ childrenThen child store is (descendants child store all n) f →
      ∃ i ∈ is, ∃ q, q.length ≤ n ∧ node child store f (i :: q) = some h := by
  intro n
  induction n with
  | zero =>
    intro is f hmem
    obtain ⟨i, hi, g, hg, hh | rfl⟩ := mem_childrenThen hmem
    · cases hh
    · exact ⟨i, hi, [], Nat.le_refl _, by rw [node_cons, hg]; rfl⟩
  | succ n ih =>
    intro is f hmem
    obtain ⟨i, hi, g, hg, hh | rfl⟩ := mem_childrenThen hmem
    · obtain ⟨j, -, q, hq, hnode⟩ := ih hh
      exact ⟨i, hi, j :: q, Nat.succ_le_succ hq, by rw [node_cons, hg, Option.bind_some, hnode]⟩
    · exact ⟨i, hi, [], Nat.zero_le _, by rw [node_cons, hg]; rfl⟩

/-- **Nothing is listed twice** when different paths lead to different tables. -/
theorem nodup_childrenThen_descendants (hall : all.Nodup) :
    ∀ {n : Nat} {is : List ι} {f : F}, is.Nodup →
      (∀ i ∈ is, ∀ i' ∈ is, ∀ q q' h, q.length ≤ n → q'.length ≤ n →
        node child store f (i :: q) = some h → node child store f (i' :: q') = some h →
        i = i' ∧ q = q') →
      (childrenThen child store is (descendants child store all n) f).Nodup := by
  -- it is enough that the list for one child has no repetition
  have hcombine : ∀ {n : Nat} {is : List ι} {f : F}, is.Nodup →
      (∀ i ∈ is, ∀ i' ∈ is, ∀ q q' h, q.length ≤ n → q'.length ≤ n →
        node child store f (i :: q) = some h → node child store f (i' :: q') = some h →
        i = i' ∧ q = q') →
      (∀ i ∈ is, ∀ g, child (store f i) = some g →
        (descendants child store all n g).Nodup) →
      (childrenThen child store is (descendants child store all n) f).Nodup := by
    intro n is f his hinj hone
    have hpiece : ∀ i h, h ∈ childrenThen child store [i] (descendants child store all n) f →
        ∃ q, q.length ≤ n ∧ node child store f (i :: q) = some h := by
      intro i h hmem
      obtain ⟨i', hi', q, hq, hnode⟩ := mem_childrenThen_descendants hmem
      exact ⟨q, hq, List.mem_singleton.mp hi' ▸ hnode⟩
    rw [childrenThen, List.nodup_flatMap]
    refine ⟨fun i hi => ?_, his.imp_of_mem ?_⟩
    · cases hg : child (store f i) with
      | none => exact List.nodup_nil
      | some g =>
        refine List.nodup_append'.mpr ⟨hone i hi g hg, List.nodup_singleton g, ?_⟩
        rw [List.disjoint_singleton]
        intro hmem
        cases n with
        | zero => cases hmem
        | succ n =>
          obtain ⟨j, -, q, hq, hnode⟩ := mem_childrenThen_descendants hmem
          have hpath : node child store f (i :: j :: q) = some g := by
            rw [node_cons, hg, Option.bind_some, hnode]
          have htop : node child store f [i] = some g := by
            rw [node_cons, hg]
            rfl
          exact absurd (hinj i hi i hi (j :: q) [] g (Nat.succ_le_succ hq) (Nat.zero_le _) hpath
            htop).2 (List.cons_ne_nil j q)
    · intro i i' hi hi' hne h hmem hmem'
      obtain ⟨q, hq, hnode⟩ := hpiece i h (by simpa [childrenThen] using hmem)
      obtain ⟨q', hq', hnode'⟩ := hpiece i' h (by simpa [childrenThen] using hmem')
      exact hne (hinj i hi i' hi' q q' h hq hq' hnode hnode').1
  intro n
  induction n with
  | zero => exact fun his hinj => hcombine his hinj fun _ _ _ _ => List.nodup_nil
  | succ n ih =>
    intro is f his hinj
    refine hcombine his hinj fun i hi g hg => ih hall ?_
    intro j _ j' _ q q' h hq hq' hnode hnode'
    have hext : ∀ p, node child store f (i :: p) = node child store g p := fun p => by
      rw [node_cons, hg, Option.bind_some]
    have := (hinj i hi i hi (j :: q) (j' :: q') h (Nat.succ_le_succ hq) (Nat.succ_le_succ hq')
      ((hext _).trans hnode) ((hext _).trans hnode')).2
    exact List.cons_eq_cons.mp this

end Descendants

end Axle.Lib.RadixTable
