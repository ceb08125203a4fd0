import Axle.Lib.RadixTable
import Mathlib.Data.List.Perm.Basic

/-!
# Copies of table trees

A table and everything below it is copied into fresh tables: each entry that leads somewhere is
matched by an entry that leads to a copy of what it leads to, down to tables that are copied
whole.  `TableCopy n f f' A` says that `f'` is a copy of `f` to the depth `n`, and that `A` are
the tables below `f'` in the order in which a depth-first copy takes them.

* `TableCopy.congr` — a copy depends on its own tables only;
* `IndexCopy.length_eq` — a copy takes as many tables as there are below the source;
* `IndexCopy.perm` — **PROVED**: what `descendants` lists below the copy is what the copy took;
* `TableCopy.node`, `IndexCopy.entry` — **PROVED**: along every path the copy and its source have
  corresponding tables and entries.

Source and copy are read from two stores, before and after the copying.
-/

namespace Axle.Lib.RadixTable

variable {F ι E : Type*}

/-! ### The relation -/

section Copies

variable (child : E → Option F) (same : E → E → Prop) (store store' : F → ι → E) (all : List ι)

/-- `e'` is a copy of `e` that took the tables `A`: it leads nowhere if `e` does, and otherwise to
a copy of what `e` leads to. -/
def EntryCopy (below : F → F → List F → Prop) (e e' : E) (A : List F) : Prop :=
  match child e with
  | none => child e' = none ∧ A = []
  | some f => same e e' ∧ ∃ f' B, child e' = some f' ∧ A = f' :: B ∧ below f f' B

/-- The entries at some indices are copied one after the other. -/
inductive IndexCopy (below : F → F → List F → Prop) (f f' : F) : List ι → List F → Prop where
  | nil : IndexCopy below f f' [] []
  | cons {i : ι} {is : List ι} {B C : List F}
      (entry : EntryCopy child same below (store f i) (store' f' i) B)
      (rest : IndexCopy below f f' is C) : IndexCopy below f f' (i :: is) (B ++ C)

/-- The table `f'` is a copy of `f` that took the tables `A` below it. -/
def TableCopy : Nat → F → F → List F → Prop
  | 0, f, f', A => store' f' = store f ∧ A = []
  | n + 1, f, f', A => IndexCopy child same store store' (TableCopy n) f f' all A

end Copies

variable {child : E → Option F} {same : E → E → Prop} {store store' store'' : F → ι → E}
  {all is : List ι} {below below' : F → F → List F → Prop} {n : Nat} {e e' : E} {f f' g : F}
  {i : ι} {A B C : List F}

theorem EntryCopy.of_none (h : EntryCopy child same below e e' A) (he : child e = none) :
    child e' = none ∧ A = [] := by
  rw [EntryCopy, he] at h
  exact h

theorem EntryCopy.of_some (h : EntryCopy child same below e e' A) (he : child e = some f) :
    same e e' ∧ ∃ f' B, child e' = some f' ∧ A = f' :: B ∧ below f f' B := by
  rw [EntryCopy, he] at h
  exact h

theorem entryCopy_none (he : child e = none) (he' : child e' = none) :
    EntryCopy child same below e e' [] := by
  rw [EntryCopy, he]
  exact ⟨he', rfl⟩

theorem entryCopy_some (he : child e = some f) (he' : child e' = some f') (hsame : same e e')
    (hbelow : below f f' B) : EntryCopy child same below e e' (f' :: B) := by
  rw [EntryCopy, he]
  exact ⟨hsame, f', B, he', rfl, hbelow⟩

theorem EntryCopy.imp (h : EntryCopy child same below e e' A)
    (hbelow : ∀ f f' B, (∀ g ∈ f' :: B, g ∈ A) → below f f' B → below' f f' B) :
    EntryCopy child same below' e e' A := by
  cases he : child e with
  | none =>
    obtain ⟨he', rfl⟩ := h.of_none he
    exact entryCopy_none he he'
  | some f =>
    obtain ⟨hsame, f', B, he', rfl, hcopy⟩ := h.of_some he
    exact entryCopy_some he he' hsame (hbelow f f' B (fun g hg => hg) hcopy)

theorem indexCopy_singleton :
    IndexCopy child same store store' below f f' [i] A ↔
      EntryCopy child same below (store f i) (store' f' i) A := by
  constructor
  · intro h
    cases h with
    | cons hentry hrest =>
      cases hrest
      rwa [List.append_nil]
  · intro h
    rw [← List.append_nil A]
    exact .cons h .nil

/-! ### A copy depends on its own tables only -/

theorem IndexCopy.congr (h : IndexCopy child same store store' below f f' is A)
    (hrow : ∀ j ∈ is, store'' f' j = store' f' j)
    (hbelow : ∀ f f' B, (∀ g ∈ f' :: B, g ∈ A) → below f f' B → below' f f' B) :
    IndexCopy child same store store'' below' f f' is A := by
  induction h with
  | nil => exact .nil
  | @cons i is B C hentry _ ih =>
    refine .cons ?_ (ih (fun j hj => hrow j (List.mem_cons_of_mem i hj)) ?_)
    · rw [hrow i List.mem_cons_self]
      exact hentry.imp fun f f' D hD =>
        hbelow f f' D fun g hg => List.mem_append_left C (hD g hg)
    · exact fun f f' D hD => hbelow f f' D fun g hg => List.mem_append_right B (hD g hg)

/-- Later writes elsewhere do not touch a copy. -/
theorem TableCopy.congr (h : TableCopy child same store store' all n f f' A)
    (hstore : ∀ g ∈ f' :: A, store'' g = store' g) :
    TableCopy child same store store'' all n f f' A := by
  induction n generalizing f f' A with
  | zero => exact ⟨(hstore f' List.mem_cons_self).trans h.1, h.2⟩
  | succ n ih =>
    refine IndexCopy.congr h (fun j _ => congrFun (hstore f' List.mem_cons_self) j) ?_
    exact fun g g' B hB hcopy => ih hcopy fun x hx => hstore x (List.mem_cons_of_mem f' (hB x hx))

/-! ### The tables of a copy -/

theorem childrenThen_cons (below : F → List F) :
    childrenThen child store (i :: is) below f =
      childrenThen child store [i] below f ++ childrenThen child store is below f := by
  rw [childrenThen, List.flatMap_cons, childrenThen, List.flatMap_singleton, childrenThen]

theorem childrenThen_of_none {below : F → List F} (h : child (store f i) = none) :
    childrenThen child store [i] below f = [] := by
  rw [childrenThen, List.flatMap_singleton, h]

theorem childrenThen_of_some {below : F → List F} (h : child (store f i) = some g) :
    childrenThen child store [i] below f = below g ++ [g] := by
  rw [childrenThen, List.flatMap_singleton, h]

theorem IndexCopy.length_of {list : F → List F}
    (h : IndexCopy child same store store' below f f' is A)
    (hbelow : ∀ g g' B, below g g' B → (list g).length = B.length) :
    (childrenThen child store is list f).length = A.length := by
  induction h with
  | nil => rfl
  | @cons i _ _ _ hentry _ ih =>
    rw [childrenThen_cons, List.length_append, List.length_append, ih]
    cases hi : child (store f i) with
    | none =>
      obtain ⟨-, rfl⟩ := hentry.of_none hi
      rw [childrenThen_of_none hi]
    | some g =>
      obtain ⟨-, g', D, -, rfl, hcopy⟩ := hentry.of_some hi
      rw [childrenThen_of_some hi, List.length_append, hbelow g g' D hcopy]
      rfl

theorem TableCopy.length_eq (h : TableCopy child same store store' all n f f' A) :
    (descendants child store all n f).length = A.length := by
  induction n generalizing f f' A with
  | zero =>
    cases h.2
    rfl
  | succ n ih => exact IndexCopy.length_of h fun g g' B hcopy => ih hcopy

/-- As many tables are taken as there are below the source. -/
theorem IndexCopy.length_eq
    (h : IndexCopy child same store store' (TableCopy child same store store' all n) f f' is A) :
    (childrenThen child store is (descendants child store all n) f).length = A.length :=
  h.length_of fun _ _ _ hcopy => hcopy.length_eq

theorem IndexCopy.perm_of {list : F → List F}
    (h : IndexCopy child same store store' below f f' is A)
    (hbelow : ∀ g g' B, below g g' B → (list g').Perm B) :
    (childrenThen child store' is list f').Perm A := by
  induction h with
  | nil => exact List.Perm.refl []
  | @cons i _ _ _ hentry _ ih =>
    rw [childrenThen_cons]
    refine List.Perm.append ?_ ih
    cases hi : child (store f i) with
    | none =>
      obtain ⟨hi', rfl⟩ := hentry.of_none hi
      rw [childrenThen_of_none hi']
    | some g =>
      obtain ⟨-, g', D, hi', rfl, hcopy⟩ := hentry.of_some hi
      rw [childrenThen_of_some hi']
      exact (List.perm_append_singleton g' _).trans ((hbelow g g' D hcopy).cons g')

theorem TableCopy.perm (h : TableCopy child same store store' all n f f' A) :
    (descendants child store' all n f').Perm A := by
  induction n generalizing f f' A with
  | zero =>
    cases h.2
    exact List.Perm.refl []
  | succ n ih => exact IndexCopy.perm_of h fun g g' B hcopy => ih hcopy

/-- **The tables below a copy are the ones it took.** -/
theorem IndexCopy.perm
    (h : IndexCopy child same store store' (TableCopy child same store store' all n) f f' is A) :
    (childrenThen child store' is (descendants child store' all n) f').Perm A :=
  h.perm_of fun _ _ _ hcopy => hcopy.perm

/-! ### Paths -/

theorem IndexCopy.entryCopy (h : IndexCopy child same store store' below f f' is A)
    (hi : i ∈ is) : ∃ B, EntryCopy child same below (store f i) (store' f' i) B := by
  induction h with
  | nil => cases hi
  | cons hentry _ ih =>
    rcases List.mem_cons.mp hi with rfl | hi
    · exact ⟨_, hentry⟩
    · exact ih hi

/-- A step down and then a path below. -/
theorem EntryCopy.node_cons {P : F → F → Prop} {q : List ι}
    (h : EntryCopy child same below (store f i) (store' f' i) A)
    (hnode : ∀ g g' B, below g g' B →
      Option.Rel P (node child store g q) (node child store' g' q)) :
    Option.Rel P (node child store f (i :: q)) (node child store' f' (i :: q)) := by
  rw [RadixTable.node_cons, RadixTable.node_cons]
  cases hi : child (store f i) with
  | none =>
    rw [(h.of_none hi).1]
    exact .none
  | some g =>
    obtain ⟨-, g', B, hi', -, hcopy⟩ := h.of_some hi
    rw [hi']
    exact hnode g g' B hcopy

/-- **Every path leads to a table and to a copy of it**, or nowhere in both. -/
theorem TableCopy.node (hall : ∀ i, i ∈ all) {q : List ι} :
    ∀ {n : Nat} {f f' : F} {A : List F}, TableCopy child same store store' all n f f' A →
      q.length ≤ n →
      Option.Rel (fun g g' => ∃ B, TableCopy child same store store' all (n - q.length) g g' B)
        (node child store f q) (node child store' f' q) := by
  induction q with
  | nil => exact fun {n f f' A} h _ => .some ⟨A, h⟩
  | cons i q ih =>
    intro n f f' A h hq
    cases n with
    | zero => cases hq
    | succ n =>
      obtain ⟨B, hentry⟩ := IndexCopy.entryCopy h (hall i)
      rw [List.length_cons, Nat.succ_sub_succ]
      exact hentry.node_cons fun g g' C hcopy => ih hcopy (Nat.le_of_succ_le_succ hq)

theorem IndexCopy.node_cons (hall : ∀ i, i ∈ all) {q : List ι}
    (h : IndexCopy child same store store' (TableCopy child same store store' all n) f f' is A)
    (hi : i ∈ is) (hq : q.length ≤ n) :
    Option.Rel (fun g g' => ∃ B, TableCopy child same store store' all (n - q.length) g g' B)
      (node child store f (i :: q)) (node child store' f' (i :: q)) := by
  obtain ⟨B, hentry⟩ := h.entryCopy hi
  exact hentry.node_cons fun g g' C hcopy => hcopy.node hall hq

theorem EntryCopy.entry (h : EntryCopy child same below (store f i) (store' f' i) A)
    {q q' : List ι} {r r' : F} (hf : RadixTable.node child store r q = some f)
    (hf' : RadixTable.node child store' r' q' = some f') :
    Option.Rel same (RadixTable.entry child store r q i)
      (RadixTable.entry child store' r' q' i) := by
  rw [entry_of_node hf, entry_of_node hf']
  cases hi : child (store f i) with
  | none =>
    rw [(h.of_none hi).1]
    exact .none
  | some g =>
    obtain ⟨hsame, g', B, hi', -, -⟩ := h.of_some hi
    rw [hi']
    exact .some hsame

/-- **Every entry that leads somewhere has a copy at the same position**, and no other position
of the copy has one. -/
theorem IndexCopy.entry (hall : ∀ i, i ∈ all) {p : List ι} {j : ι}
    (h : IndexCopy child same store store' (TableCopy child same store store' all n) f f' is A)
    (hp : ∀ i ∈ (p ++ [j]).head?, i ∈ is) (hlen : p.length ≤ n) :
    Option.Rel same (RadixTable.entry child store f p j)
      (RadixTable.entry child store' f' p j) := by
  cases p with
  | nil =>
    obtain ⟨B, hentry⟩ := h.entryCopy (hp j rfl)
    exact hentry.entry node_nil node_nil
  | cons i q =>
    have hrel := h.node_cons hall (hp i rfl) (Nat.le_of_succ_le hlen)
    cases hg : RadixTable.node child store f (i :: q) with
    | none =>
      rw [hg] at hrel
      rw [RadixTable.entry, hg, RadixTable.entry]
      cases hg' : RadixTable.node child store' f' (i :: q) with
      | none => exact .none
      | some g' =>
        rw [hg'] at hrel
        cases hrel
    | some g =>
      rw [hg] at hrel
      cases hg' : RadixTable.node child store' f' (i :: q) with
      | none =>
        rw [hg'] at hrel
        cases hrel
      | some g' =>
        rw [hg'] at hrel
        obtain ⟨B, hcopy⟩ : ∃ B, TableCopy child same store store' all (n - q.length) g g' B := by
          cases hrel with
          | some hcopy => exact hcopy
        obtain ⟨k, hk⟩ : ∃ k, n - q.length = k + 1 :=
          ⟨n - q.length - 1, by simp at hlen; omega⟩
        rw [hk] at hcopy
        obtain ⟨C, hentry⟩ := IndexCopy.entryCopy hcopy (hall j)
        exact hentry.entry hg hg'

end Axle.Lib.RadixTable
