import Mathlib.Data.List.Basic
import Mathlib.Tactic

/-!
# Operator precedence

Chains of operands with binary operators between them, and the trees over them.  An operator has a
level, and operators of one level all associate to the same side.  A tree is *bound* if every
operator in an operand of another binds tighter than that one, or as tight on the side that the
level associates to.

* `Bound.unique` — **PROVED**: a chain has one bound tree at most;
* `Climbs` — precedence climbing: a right operand is read with the level of its operator (one less
  where the level associates to the right), and the loop goes on while the next operator is above
  the level it was called with;
* `Climbs.bound` — **PROVED**: climbing makes bound trees;
* `exists_climbs`, `climbs_all` — **PROVED**: it never fails, and called with level zero it takes
  the whole chain.

Nothing here is about a particular language.
-/

namespace Axle.Lib.PrecedenceTree

/-! ### Chains and trees -/

/-- Levels are positive, and associativity is a matter of the level. -/
structure Grammar (ω : Type*) where
  level : ω → ℕ
  rightward : ω → Bool
  positive : ∀ a, 0 < level a
  agree : ∀ a b, level a = level b → rightward a = rightward b

inductive Tree (ω α : Type*) where
  | leaf (a : α)
  | node (l : Tree ω α) (op : ω) (r : Tree ω α)

variable {ω α : Type*}

namespace Tree

/-- The first operand of the chain under a tree. -/
def first : Tree ω α → α
  | leaf a => a
  | node l _ _ => l.first

/-- The rest of the chain: each operator with the operand after it. -/
def rest : Tree ω α → List (ω × α)
  | leaf _ => []
  | node l op r => l.rest ++ (op, r.first) :: r.rest

end Tree

namespace Grammar

variable (g : Grammar ω)

/-- `a` may stand in the left operand of `b`. -/
def BindsLeft (a b : ω) : Prop :=
  g.level b < g.level a ∨ g.level a = g.level b ∧ g.rightward b = false

/-- `a` may stand in the right operand of `b`. -/
def BindsRight (a b : ω) : Prop :=
  g.level b < g.level a ∨ g.level a = g.level b ∧ g.rightward b = true

def Bound : Tree ω α → Prop
  | .leaf _ => True
  | .node l op r => Bound l ∧ Bound r ∧
    (∀ x ∈ l.rest, g.BindsLeft x.1 op) ∧ ∀ x ∈ r.rest, g.BindsRight x.1 op

/-- The level that the right operand is read with. -/
def rhsLevel (op : ω) : ℕ := if g.rightward op then g.level op - 1 else g.level op

variable {g}

theorem not_bindsRight_of_bindsLeft {a b : ω} (h : g.BindsLeft a b) : ¬g.BindsRight b a := by
  have hagree := g.agree a b
  rintro (hlt | ⟨heq, hright⟩)
  · rcases h with hlt' | ⟨heq', -⟩ <;> omega
  · rcases h with hlt' | ⟨heq', hleft⟩
    · omega
    · rw [hagree heq', hleft] at hright
      cases hright

/-- Two places in a list are one, unless each lies behind or before the other. -/
theorem split_eq_split {β : Type*} {l l' r r' : List β} {x x' : β}
    (h : l ++ x :: r = l' ++ x' :: r') (hbehind : ¬(x' ∈ r ∧ x ∈ l'))
    (hbefore : ¬(x ∈ r' ∧ x' ∈ l)) : l = l' ∧ x = x' ∧ r = r' := by
  rcases List.append_eq_append_iff.mp h with ⟨more, hmore, hcons⟩ | ⟨more, hmore, hcons⟩
  · cases more with
    | nil =>
      injection hcons with hx hr
      exact ⟨by rw [hmore, List.append_nil], hx, hr⟩
    | cons y more =>
      injection hcons with hx hr
      refine absurd ⟨?_, ?_⟩ hbehind
      · exact hr ▸ List.mem_append_right _ List.mem_cons_self
      · exact hmore ▸ List.mem_append_right _ (hx ▸ List.mem_cons_self)
  · cases more with
    | nil =>
      injection hcons with hx hr
      exact ⟨by rw [hmore, List.append_nil], hx.symm, hr.symm⟩
    | cons y more =>
      injection hcons with hx hr
      refine absurd ⟨?_, ?_⟩ hbefore
      · exact hr ▸ List.mem_append_right _ List.mem_cons_self
      · exact hmore ▸ List.mem_append_right _ (hx ▸ List.mem_cons_self)

/-- **A chain has one bound tree at most (proved).**  Of two different places for the root, each
operator would be in an operand of the other. -/
theorem Bound.unique : ∀ {t t' : Tree ω α}, g.Bound t → g.Bound t' → t.first = t'.first →
    t.rest = t'.rest → t = t' := by
  intro t
  induction t with
  | leaf a =>
    intro t' _ _ hfirst hrest
    cases t' with
    | leaf a' => exact congrArg Tree.leaf hfirst
    | node l' op' r' => exact absurd hrest.symm (by simp [Tree.rest])
  | node l op r ihl ihr =>
    intro t' h h' hfirst hrest
    cases t' with
    | leaf a' => exact absurd hrest (by simp [Tree.rest])
    | node l' op' r' =>
      obtain ⟨hl, hr, hleft, hright⟩ := h
      obtain ⟨hl', hr', hleft', hright'⟩ := h'
      obtain ⟨hbefore, hroot, hafter⟩ := split_eq_split hrest
        (fun hin => not_bindsRight_of_bindsLeft (hleft' _ hin.2) (hright _ hin.1))
        (fun hin => not_bindsRight_of_bindsLeft (hleft _ hin.2) (hright' _ hin.1))
      injection hroot with hop hoperand
      rw [ihl hl hl' hfirst hbefore, hop, ihr hr hr' hoperand hafter]

/-! ### Climbing -/

/-- The loop of precedence climbing, called with a level and a tree for what has been read: it makes
a tree of a part of the chain, and what is left of the chain. -/
inductive Climbs (g : Grammar ω) :
    ℕ → Tree ω α → List (ω × α) → Tree ω α → List (ω × α) → Prop
  | stop {p : ℕ} {l : Tree ω α} {ops : List (ω × α)} :
      (∀ x ∈ ops.head?, g.level x.1 ≤ p) → Climbs g p l ops l ops
  | step {p : ℕ} {l r t : Tree ω α} {op : ω} {b : α} {ops more left : List (ω × α)} :
      p < g.level op → Climbs g (g.rhsLevel op) (.leaf b) ops r more →
      Climbs g p (.node l op r) more t left → Climbs g p l ((op, b) :: ops) t left

section Climbs

variable {p : ℕ} {l t : Tree ω α} {ops left : List (ω × α)}

theorem Climbs.suffix (h : Climbs g p l ops t left) : left <:+ ops := by
  induction h with
  | stop _ => exact List.suffix_refl _
  | step _ _ _ ihr iht => exact (iht.trans ihr).trans (List.suffix_cons _ _)

/-- **Climbing never fails (proved).** -/
theorem exists_climbs (p : ℕ) (l : Tree ω α) (ops : List (ω × α)) :
    ∃ t left, Climbs g p l ops t left := by
  induction hn : ops.length using Nat.strong_induction_on generalizing p l ops with
  | _ n ih =>
    subst hn
    cases ops with
    | nil => exact ⟨l, [], .stop (by simp)⟩
    | cons x ops =>
      by_cases hx : p < g.level x.1
      · have hlt : ops.length < (x :: ops).length := Nat.lt_succ_self _
        obtain ⟨r, more, hr⟩ := ih ops.length hlt (g.rhsLevel x.1) (.leaf x.2) ops rfl
        obtain ⟨t, left, ht⟩ := ih more.length (lt_of_le_of_lt hr.suffix.length_le hlt) p
          (.node l x.1 r) more rfl
        exact ⟨t, left, .step hx hr ht⟩
      · exact ⟨l, x :: ops, .stop (by simpa using not_lt.mp hx)⟩

theorem level_le_of_rhsLevel {a b : ω} (h : g.level b ≤ g.rhsLevel a) : g.BindsLeft a b := by
  have ha := g.positive a
  unfold rhsLevel at h
  cases hright : g.rightward a with
  | true =>
    rw [if_pos hright] at h
    exact .inl (by omega)
  | false =>
    rw [if_neg (by rw [hright]; decide)] at h
    rcases lt_or_eq_of_le h with hlt | heq
    · exact .inl hlt
    · exact .inr ⟨heq.symm, by rw [g.agree b a heq, hright]⟩

theorem bindsRight_of_rhsLevel {a b : ω} (h : g.rhsLevel a < g.level b) : g.BindsRight b a := by
  unfold rhsLevel at h
  cases hright : g.rightward a with
  | true =>
    rw [if_pos hright] at h
    rcases lt_or_eq_of_le (show g.level a ≤ g.level b by omega) with hlt | heq
    · exact .inl hlt
    · exact .inr ⟨heq.symm, hright⟩
  | false =>
    rw [if_neg (by rw [hright]; decide)] at h
    exact .inl h

theorem BindsLeft.trans {a b c : ω} (h : g.BindsLeft a b) (h' : g.BindsLeft b c) :
    g.BindsLeft a c := by
  rcases h with hlt | ⟨heq, hleft⟩
  · rcases h' with hlt' | ⟨heq', -⟩
    · exact .inl (hlt'.trans hlt)
    · exact .inl (heq' ▸ hlt)
  · rcases h' with hlt' | ⟨heq', hleft'⟩
    · exact .inl (heq ▸ hlt')
    · exact .inr ⟨heq.trans heq', hleft'⟩

/-- **Climbing makes bound trees (proved).**  What was read may be the left operand of the next
operator, all its operators are above the level of the call, and the loop ends where the next one is
not. -/
theorem Climbs.bound (h : Climbs g p l ops t left) :
    g.Bound l → (∀ x ∈ l.rest, p < g.level x.1) →
    (∀ x ∈ ops.head?, ∀ y ∈ l.rest, p < g.level x.1 → g.BindsLeft y.1 x.1) →
    g.Bound t ∧ t.first = l.first ∧ (∃ taken, ops = taken ++ left ∧ t.rest = l.rest ++ taken) ∧
      (∀ x ∈ t.rest, p < g.level x.1) ∧ ∀ x ∈ left.head?, g.level x.1 ≤ p := by
  induction h with
  | stop hstop =>
    intro hl habove _
    exact ⟨hl, rfl, ⟨[], rfl, (List.append_nil _).symm⟩, habove, hstop⟩
  | @step p l r t op b ops more left hop _ _ ihr iht =>
    intro hl habove hnext
    obtain ⟨hr, hrfirst, ⟨taken, htaken, hrrest⟩, hrabove, hrstop⟩ :=
      ihr trivial (by simp [Tree.rest]) (by simp [Tree.rest])
    have hrest : (Tree.node l op r).rest = l.rest ++ (op, b) :: taken := by
      rw [Tree.rest, hrrest, hrfirst]
      rfl
    have hleft : ∀ x ∈ l.rest, g.BindsLeft x.1 op := fun x hx => hnext _ rfl x hx hop
    have hbound : g.Bound (.node l op r) :=
      ⟨hl, hr, hleft, fun x hx => bindsRight_of_rhsLevel (hrabove x hx)⟩
    have hlow : p ≤ g.rhsLevel op := by
      unfold rhsLevel
      split <;> omega
    have habove' : ∀ x ∈ (Tree.node l op r).rest, p < g.level x.1 := by
      intro x hx
      rcases List.mem_append.mp hx with hx | hx
      · exact habove x hx
      · rcases List.mem_cons.mp hx with rfl | hx
        · exact hop
        · exact lt_of_le_of_lt hlow (hrabove x hx)
    have hnext' : ∀ x ∈ more.head?, ∀ y ∈ (Tree.node l op r).rest,
        p < g.level x.1 → g.BindsLeft y.1 x.1 := by
      intro x hx y hy _
      have hroot := level_le_of_rhsLevel (hrstop x hx)
      rcases List.mem_append.mp hy with hy | hy
      · exact (hleft y hy).trans hroot
      · rcases List.mem_cons.mp hy with rfl | hy
        · exact hroot
        · exact .inl (lt_of_le_of_lt (hrstop x hx) (hrabove y hy))
    obtain ⟨ht, hfirst, ⟨taken', htaken', htrest⟩, habove, hstop⟩ := iht hbound habove' hnext'
    refine ⟨ht, hfirst, ⟨(op, b) :: (taken ++ taken'), ?_, ?_⟩, habove, hstop⟩
    · rw [htaken, htaken', List.cons_append, List.append_assoc]
    · rw [htrest, hrest, List.append_assoc, List.cons_append]

/-- **Called with level zero, it takes the whole chain (proved).** -/
theorem climbs_all {a : α} (h : Climbs g 0 (.leaf a) ops t left) :
    left = [] ∧ g.Bound t ∧ t.first = a ∧ t.rest = ops := by
  obtain ⟨ht, hfirst, ⟨taken, htaken, hrest⟩, -, hstop⟩ :=
    h.bound trivial (by simp [Tree.rest]) (by simp [Tree.rest])
  have hleft : left = [] := by
    cases left with
    | nil => rfl
    | cons x left => exact absurd (hstop x rfl) (Nat.not_le.mpr (g.positive x.1))
  rw [hleft, List.append_nil] at htaken
  exact ⟨hleft, ht, hfirst, by rw [hrest, htaken]; rfl⟩

end Climbs

end Grammar

end Axle.Lib.PrecedenceTree
