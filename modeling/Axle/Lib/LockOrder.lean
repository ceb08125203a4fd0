import Mathlib.Data.List.Basic
import Mathlib.Tactic

/-!
# Programs that take locks

A lock is a flag that is not re-entrant: acquiring one that is set spins forever.  A program run
alone starts with the flags that are set and a state; it finishes with a value, hangs on a lock,
or stops the machine (a failed assertion, a panic).

* `LockM` — such programs, with `acquire`, `release` and `withLock`;
* `Finishes` — the program neither hangs nor leaves a flag other than it found it;
* `Ordered rank r` — the program does so from any state in which only locks of rank at most `r`
  are set;
* `Ordered.withLock` — **the rule of a lock order**: below a lock only locks of a higher rank are
  taken.

Nothing here is about a particular program.
-/

namespace Axle.Lib.LockOrder

variable {L σ α β : Type}

inductive Outcome (L σ α : Type) where
  | done (value : α) (state : σ) (held : List L)
  /-- The program acquires a lock that is set. -/
  | hang (lock : L)
  | halt

/-- A program over a state, with the locks that are set. -/
def LockM (L σ α : Type) : Type := σ → List L → Outcome L σ α

instance : Monad (LockM L σ) where
  pure a := fun s held => .done a s held
  bind m f := fun s held =>
    match m s held with
    | .done a s held => f a s held
    | .hang l => .hang l
    | .halt => .halt

def acquire [DecidableEq L] (l : L) : LockM L σ Unit := fun s held =>
  if l ∈ held then .hang l else .done () s (l :: held)

def release [DecidableEq L] (l : L) : LockM L σ Unit := fun s held => .done () s (held.erase l)

def halt : LockM L σ α := fun _ _ => .halt

def gets (f : σ → α) : LockM L σ α := fun s held => .done (f s) s held

def modify (f : σ → σ) : LockM L σ Unit := fun s held => .done () (f s) held

/-- Change the state, or stop. -/
def modifyOption (f : σ → Option σ) : LockM L σ Unit := fun s held =>
  match f s with
  | some s => .done () s held
  | none => .halt

def ofOption (o : Option α) : LockM L σ α := fun s held =>
  match o with
  | some a => .done a s held
  | none => .halt

/-- An assertion. -/
def ensure (c : Prop) [Decidable c] : LockM L σ Unit := if c then pure () else halt

def whenever (c : Bool) (m : LockM L σ Unit) : LockM L σ Unit := if c then m else pure ()

def withLock [DecidableEq L] (l : L) (m : LockM L σ α) : LockM L σ α := do
  acquire l
  let a ← m
  release l
  return a

/-- The program does not hang, and if it returns, the flags are as they were. -/
def Finishes (m : LockM L σ α) (s : σ) (held : List L) : Prop :=
  match m s held with
  | .done _ _ held' => held' = held
  | .hang _ => False
  | .halt => True

/-- From any state in which the locks that are set have rank `r` at most, the program finishes. -/
def Ordered (rank : L → ℕ) (r : ℕ) (m : LockM L σ α) : Prop :=
  ∀ s held, (∀ l ∈ held, rank l ≤ r) → Finishes m s held

theorem bind_apply (m : LockM L σ α) (f : α → LockM L σ β) (s : σ) (held : List L) :
    (m >>= f) s held = match m s held with
      | .done a s held => f a s held
      | .hang l => .hang l
      | .halt => .halt := rfl

variable {rank : L → ℕ} {r : ℕ}

theorem Ordered.pure (a : α) : Ordered rank r (Pure.pure a : LockM L σ α) := fun _ _ _ => rfl

theorem Ordered.halt : Ordered rank r (LockOrder.halt : LockM L σ α) := fun _ _ _ => trivial

theorem Ordered.gets (f : σ → α) : Ordered rank r (LockOrder.gets f : LockM L σ α) :=
  fun _ _ _ => rfl

theorem Ordered.modify (f : σ → σ) : Ordered rank r (LockOrder.modify f : LockM L σ Unit) :=
  fun _ _ _ => rfl

theorem Ordered.modifyOption (f : σ → Option σ) :
    Ordered rank r (LockOrder.modifyOption f : LockM L σ Unit) := by
  intro s held _
  unfold Finishes LockOrder.modifyOption
  cases f s with
  | none => trivial
  | some t => rfl

theorem Ordered.ofOption (o : Option α) :
    Ordered rank r (LockOrder.ofOption o : LockM L σ α) := by
  intro s held _
  cases o with
  | none => trivial
  | some a => rfl

variable {f : α → LockM L σ β} {m : LockM L σ α} {a : α} {s s' : σ} {held : List L} {l : L}

theorem Ordered.bind (hm : Ordered rank r m) (hf : ∀ a, Ordered rank r (f a)) :
    Ordered rank r (m >>= f) := by
  intro s held hheld
  have h := hm s held hheld
  unfold Finishes at h ⊢
  rw [bind_apply]
  cases hrun : m s held with
  | done a s' held' =>
    rw [hrun] at h
    subst h
    exact hf a s' held' hheld
  | hang l =>
    rw [hrun] at h
    exact h
  | halt => trivial

theorem Ordered.ite {c : Prop} [Decidable c] {m m' : LockM L σ α} (hm : Ordered rank r m)
    (hm' : Ordered rank r m') : Ordered rank r (if c then m else m') := by
  split
  · exact hm
  · exact hm'

theorem Ordered.ensure (c : Prop) [Decidable c] :
    Ordered rank r (LockOrder.ensure c : LockM L σ Unit) :=
  Ordered.ite (Ordered.pure ()) Ordered.halt

theorem Ordered.whenever (c : Bool) {m : LockM L σ Unit} (hm : Ordered rank r m) :
    Ordered rank r (LockOrder.whenever c m) :=
  Ordered.ite hm (Ordered.pure ())

/-- A program that hangs or stops does so whatever follows. -/
theorem bind_of_done {held held' : List L} (h : m s held = .done a s' held') :
    (m >>= f) s held = f a s' held' := by
  rw [bind_apply, h]

theorem bind_of_hang (h : m s held = .hang l) : (m >>= f) s held = .hang l := by
  rw [bind_apply, h]

variable [DecidableEq L]

/-- **The lock order.**  The body, which runs with the lock set, takes locks of a higher rank
only. -/
theorem Ordered.withLock (hl : r < rank l) (hm : Ordered rank (rank l) m) :
    Ordered rank r (LockOrder.withLock l m) := by
  intro s held hheld
  have hfree : l ∉ held := fun hmem => absurd (hheld l hmem) (Nat.not_le.mpr hl)
  have hbody := hm s (l :: held) (by
    intro k hk
    rcases List.mem_cons.mp hk with rfl | hk
    · exact le_refl _
    · exact (hheld k hk).trans hl.le)
  unfold Finishes at hbody ⊢
  have hacquire : (acquire l : LockM L σ Unit) s held = .done () s (l :: held) := if_neg hfree
  rw [LockOrder.withLock, bind_of_done hacquire, bind_apply]
  cases hrun : m s (l :: held) with
  | done a s' held' =>
    rw [hrun] at hbody
    subst hbody
    show (l :: held).erase l = held
    rw [List.erase_cons_head]
  | hang k =>
    rw [hrun] at hbody
    exact hbody
  | halt => trivial

/-- With the lock free and a body that finishes, a locked body returns what the body returns. -/
theorem withLock_of_done (hfree : l ∉ held) (h : m s (l :: held) = .done a s' (l :: held)) :
    withLock l m s held = .done a s' held := by
  have hacquire : (acquire l : LockM L σ Unit) s held = .done () s (l :: held) := if_neg hfree
  rw [withLock, bind_of_done hacquire, bind_of_done h]
  show Outcome.done a s' ((l :: held).erase l) = _
  rw [List.erase_cons_head]

/-- A body that hangs under the lock hangs. -/
theorem withLock_of_hang {l k : L} (hfree : l ∉ held) (h : m s (l :: held) = .hang k) :
    withLock l m s held = .hang k := by
  have hacquire : (acquire l : LockM L σ Unit) s held = .done () s (l :: held) := if_neg hfree
  rw [withLock, bind_of_done hacquire, bind_of_hang h]

/-- Acquiring a lock that is set hangs. -/
theorem withLock_of_mem (h : l ∈ held) : withLock l m s held = .hang l := by
  rw [withLock, bind_of_hang (if_pos h)]

end Axle.Lib.LockOrder
