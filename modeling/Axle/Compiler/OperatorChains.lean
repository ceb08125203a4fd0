import Axle.Compiler.Parser
import Axle.Lib.PrecedenceTree

/-!
# Operator chains

What `parse_expression` makes of operands with binary operators between them.  The loop of
`parse_expression_with_precedence` is precedence climbing: a right operand is parsed with the
precedence of its operator, or with the previous one for `^` and `=`, which associate to the right.
The left side of an assignment has to be a name, and anything else is a panic.

* `parseInfix_climbs` — **PROVED**: the loop computes the tree of precedence climbing;
* `parseExpression_chain` — **PROVED**: the parser returns the one tree of the chain that is bound,
  takes the chain and nothing else, and panics exactly if something else than a name is assigned to.
-/

namespace Axle.Compiler

open Axle.Lib.PrecedenceTree Axle.Lib.PrecedenceTree.Grammar

/-! ### The operators -/

theorem precedence_rank_pos (op : InfixOperator) : 0 < op.precedence.rank := by
  cases op <;> decide

/-- `^` and `=` associate to the right. -/
def InfixOperator.rightward (op : InfixOperator) : Bool := op = .carat || op = .equals

def infixGrammar : Grammar InfixOperator where
  level := fun op => op.precedence.rank
  rightward := InfixOperator.rightward
  positive := precedence_rank_pos
  agree := by
    intro a b
    cases a <;> cases b <;> decide

/-- The operators that stand between two operands: not a call, and not the ternary. -/
def InfixOperator.IsBinary (op : InfixOperator) : Prop := op ≠ .parenLeft ∧ op ≠ .question

instance (op : InfixOperator) : Decidable op.IsBinary :=
  inferInstanceAs (Decidable (op ≠ .parenLeft ∧ op ≠ .question))

abbrev OperatorTree := Tree InfixOperator Token

/-- The expression for an operator between two others. -/
def Expr.combine (lhs : Expr) (op : InfixOperator) (rhs : Expr) : Option Expr :=
  if op = .equals then lhs.label.map fun label => .assignmentExpr label rhs
  else some (.operatorExpr lhs op rhs)

/-- The expression of a tree, where all that is assigned to are names. -/
def treeExpr : OperatorTree → Option Expr
  | .leaf token => Expr.ofToken token
  | .node l op r => (treeExpr l).bind fun lhs => (treeExpr r).bind fun rhs => lhs.combine op rhs

/-- Every left side of an assignment is a name. -/
def AssignsToNames : OperatorTree → Prop
  | .leaf _ => True
  | .node l op r => AssignsToNames l ∧ AssignsToNames r ∧
    (op = .equals → ∃ name, l = .leaf (.identifier name))

section Chains

variable (checks : Bool) (floats : FloatText)

/-- The text goes on with binary operators and operands in turn, up to `rest`. -/
inductive Chain : List Char → List (InfixOperator × Token) → List Char → Prop
  | stop {rest : List Char} : Chain rest [] rest
  | step {text text' text'' rest : List Char} {op : InfixOperator} {operand : Token}
      {ops : List (InfixOperator × Token)} :
      op.IsBinary → nextToken checks floats text = some (some op.token, text') →
      (Expr.ofToken operand).isSome = true →
      nextToken checks floats text' = some (some operand, text'') →
      Chain text'' ops rest → Chain text ((op, operand) :: ops) rest

/-- What comes next is no infix operator, or nothing. -/
def Ends (rest : List Char) : Prop :=
  ∃ peek after, nextToken checks floats rest = some (peek, after) ∧ precedenceOfToken peek = .lowest

variable {checks floats}

theorem Chain.drop {taken left : List (InfixOperator × Token)} :
    ∀ {text rest : List Char}, Chain checks floats text (taken ++ left) rest →
      ∃ text', Chain checks floats text' left rest := by
  induction taken with
  | nil => exact fun h => ⟨_, h⟩
  | cons x taken ih =>
    intro text rest h
    cases h with
    | step _ _ _ _ h => exact ih h

/-! ### The loop -/

theorem InfixOperator.ofToken_token (op : InfixOperator) :
    InfixOperator.ofToken op.token = some op := by
  cases op <;> rfl

theorem precedenceOfToken_token (op : InfixOperator) :
    precedenceOfToken (some op.token) = op.precedence := by
  rw [precedenceOfToken, Option.bind_some, InfixOperator.ofToken_token]

/-- The precedence that a right operand is parsed with. -/
def InfixOperator.rhsPrecedence (op : InfixOperator) : Precedence :=
  if op.rightward then op.precedence.previous else op.precedence

theorem rank_rhsPrecedence (op : InfixOperator) :
    op.rhsPrecedence.rank = infixGrammar.rhsLevel op := by
  cases op <;> rfl

variable {p : Precedence} {l t : OperatorTree} {left ops : List (InfixOperator × Token)}
  {rest text : List Char}

theorem parseInfix_ends {text after : List Char} {peek : Option Token} (fuel : ℕ) (lhs : Expr)
    (hnext : nextToken checks floats text = some (peek, after)) (h : ¬p < precedenceOfToken peek) :
    parseInfix checks floats (fuel + 1) p lhs text = some (lhs, text) := by
  rw [parseInfix, peekToken, hnext]
  simp only [Option.map_some, Option.bind_eq_bind, Option.bind_some, if_neg h]

/-- One round: the right operand, and the loop again. -/
theorem parseInfix_binary {text text' text'' : List Char} {op : InfixOperator} {operand : Token}
    (fuel : ℕ) (lhs : Expr) (hbinary : op.IsBinary)
    (hop : nextToken checks floats text = some (some op.token, text'))
    (hoperand : (Expr.ofToken operand).isSome = true)
    (hnext : nextToken checks floats text' = some (some operand, text'')) (hp : p < op.precedence) :
    parseInfix checks floats (fuel + 1) p lhs text =
      (parseExpressionWithPrecedence checks floats fuel op.rhsPrecedence text').bind fun right =>
        (lhs.combine op right.1).bind fun expr => parseInfix checks floats fuel p expr right.2 := by
  have hne : operand ≠ .equals := by
    rintro rfl
    cases hoperand
  have hlevel : p < precedenceOfToken (some op.token) := by rwa [precedenceOfToken_token]
  rw [parseInfix, peekToken, hop]
  simp only [Option.map_some, Option.bind_eq_bind, Option.bind_some, if_pos hlevel]
  cases op with
  | parenLeft => exact absurd rfl hbinary.1
  | question => exact absurd rfl hbinary.2
  | equals =>
    simp only [InfixOperator.token] at hop ⊢
    simp only [reduceCtorEq, if_false, if_true, matchToken, hop, peekToken, hnext, Option.map_some,
      Option.bind_eq_bind, Option.bind_some, Option.some.injEq, hne]
    have hcombine : ∀ rhs, lhs.combine .equals rhs =
        lhs.label.map fun label => .assignmentExpr label rhs := fun _ => rfl
    simp only [hcombine]
    show _ = (parseExpressionWithPrecedence checks floats fuel Precedence.lowest text').bind _
    cases lhs.label with
    | some label => rfl
    | none =>
      cases parseExpressionWithPrecedence checks floats fuel Precedence.lowest text' with
      | none => rfl
      | some right => rfl
  | plus | minus | asterisk | carat | forwardSlash | doubleEquals =>
    rfl

/-- What is assigned to an expression that is none makes none. -/
theorem treeExpr_eq_none_of_climbs {p : ℕ} (h : Climbs infixGrammar p l ops t left) :
    treeExpr l = none → treeExpr t = none := by
  induction h with
  | stop _ => exact id
  | step _ _ _ _ iht =>
    intro hl
    refine iht ?_
    rw [treeExpr, hl]
    rfl

/-- **The loop climbs (proved).**  Given rounds enough for the operators, it leaves the text where
precedence climbing stops, with the expression of its tree; or it panics, as the tree assigns to
something else than a name. -/
theorem parseInfix_climbs {level : ℕ} (h : Climbs infixGrammar level l ops t left) :
    ∀ {p : Precedence} {text rest : List Char} {lhs : Expr} {fuel : ℕ}, p.rank = level →
      Chain checks floats text ops rest → Ends checks floats rest → treeExpr l = some lhs →
      2 * ops.length + 1 ≤ fuel →
      ∃ text', Chain checks floats text' left rest ∧
        parseInfix checks floats fuel p lhs text =
          (treeExpr t).map fun expr => (expr, text') := by
  induction h with
  | @stop level l ops hstop =>
    intro p text rest lhs fuel hlevel hchain hends hl hfuel
    obtain ⟨fuel, rfl⟩ : ∃ k, fuel = k + 1 := ⟨fuel - 1, by omega⟩
    refine ⟨text, hchain, ?_⟩
    rw [hl]
    cases hchain with
    | stop =>
      obtain ⟨peek, after, hnext, hlowest⟩ := hends
      refine parseInfix_ends fuel lhs hnext ?_
      rw [hlowest]
      exact Nat.not_lt_zero _
    | step _ hop _ _ _ =>
      refine parseInfix_ends fuel lhs hop ?_
      rw [precedenceOfToken_token]
      exact Nat.not_lt.mpr (hlevel ▸ hstop _ rfl)
  | @step level l r t op operand ops more left hop hr ht ihr iht =>
    intro p text rest lhs fuel hlevel hchain hends hl hfuel
    rw [List.length_cons] at hfuel
    obtain ⟨fuel, rfl⟩ : ∃ k, fuel = k + 2 := ⟨fuel - 2, by omega⟩
    cases hchain with
    | @step _ text' text'' _ _ _ _ hbinary hoptoken hoperand hnext hchain =>
      obtain ⟨first, hfirst⟩ := Option.isSome_iff_exists.mp hoperand
      obtain ⟨text₁, hchain₁, hright⟩ := ihr (rank_rhsPrecedence op) hchain hends hfirst
        (show 2 * ops.length + 1 ≤ fuel by omega)
      have hexpr : parseExpressionWithPrecedence checks floats (fuel + 1) op.rhsPrecedence text' =
          (treeExpr r).map fun expr => (expr, text₁) := by
        rw [← hright, parseExpressionWithPrecedence, hnext]
        simp only [Option.bind_eq_bind, Option.bind_some, hfirst]
      have hround := parseInfix_binary (fuel + 1) lhs hbinary hoptoken hoperand hnext
        (show p.rank < op.precedence.rank from hlevel ▸ hop)
      rw [hexpr] at hround
      have hnode : treeExpr (.node l op r) = (treeExpr r).bind fun rhs => lhs.combine op rhs := by
        rw [treeExpr, hl, Option.bind_some]
      cases hexists : treeExpr (.node l op r) with
      | none =>
        obtain ⟨taken, htaken⟩ := ht.suffix
        obtain ⟨text₂, hchain₂⟩ := Chain.drop (htaken ▸ hchain₁)
        refine ⟨text₂, hchain₂, ?_⟩
        rw [hround, treeExpr_eq_none_of_climbs ht hexists]
        rw [hexists] at hnode
        cases hrexpr : treeExpr r with
        | none => rfl
        | some rhs =>
          rw [hrexpr, Option.bind_some] at hnode
          rw [Option.map_some, Option.bind_some, ← hnode]
          rfl
      | some expr =>
        rw [hexists] at hnode
        obtain ⟨rhs, hrexpr, hcombine⟩ := Option.bind_eq_some_iff.mp hnode.symm
        have hshorter := hr.suffix.length_le
        obtain ⟨text₂, hchain₂, hleft⟩ := iht hlevel hchain₁ hends hexists
          (show 2 * more.length + 1 ≤ fuel + 1 by omega)
        refine ⟨text₂, hchain₂, ?_⟩
        rw [hround, hrexpr, Option.map_some, Option.bind_some, hcombine, Option.bind_some]
        exact hleft

/-! ### Whole expressions -/

/-- A name is read as a name, and as nothing else. -/
theorem label_eq_some_iff {e : Expr} (h : treeExpr t = some e) :
    e.label.isSome = true ↔ ∃ name, t = .leaf (.identifier name) := by
  cases t with
  | leaf token =>
    cases token <;> cases h <;> simp [Expr.label]
  | node l op r =>
    obtain ⟨lhs, -, h⟩ := Option.bind_eq_some_iff.mp h
    obtain ⟨rhs, -, h⟩ := Option.bind_eq_some_iff.mp h
    refine iff_of_false ?_ (by rintro ⟨name, ⟨⟩⟩)
    rw [Expr.combine] at h
    split at h
    · obtain ⟨label, -, rfl⟩ := Option.map_eq_some_iff.mp h
      exact Bool.false_ne_true
    · cases h
      exact Bool.false_ne_true

theorem treeExpr_isSome_iff (t : OperatorTree) : (Expr.ofToken t.first).isSome = true →
    (∀ x ∈ t.rest, (Expr.ofToken x.2).isSome = true) →
    ((treeExpr t).isSome = true ↔ AssignsToNames t) := by
  induction t with
  | leaf token => exact fun h _ => iff_of_true h trivial
  | node l op r ihl ihr =>
    intro hfirst hrest
    have hl := ihl hfirst fun x hx => hrest x (List.mem_append_left _ hx)
    have hr := ihr (hrest (op, r.first) (List.mem_append_right _ List.mem_cons_self))
      fun x hx => hrest x (List.mem_append_right _ (List.mem_cons_of_mem _ hx))
    rw [treeExpr, AssignsToNames, ← hl, ← hr]
    cases hlexpr : treeExpr l with
    | none => simp
    | some lhs =>
      cases hrexpr : treeExpr r with
      | none => simp
      | some rhs =>
        simp only [Option.bind_some, Option.isSome_some, true_and]
        rw [← label_eq_some_iff hlexpr, Expr.combine]
        split
        · rename_i hop
          rw [Option.isSome_map]
          exact ⟨fun h _ => h, fun h => h hop⟩
        · rename_i hop
          exact iff_of_true rfl fun h => absurd h hop

theorem nextToken_shorter (text : List Char) : ∀ {token : Token} {rest : List Char},
    nextToken checks floats text = some (some token, rest) → rest.length < text.length := by
  induction text with
  | nil =>
    intro token rest h
    cases h
  | cons c text ih =>
    intro token rest h
    have hdrop : ∀ p : Char → Bool, p c = true →
        ((c :: text).dropWhile p).length < (c :: text).length := by
      intro p hc
      rw [List.dropWhile_cons, if_pos hc]
      exact Nat.lt_succ_of_le (List.dropWhile_suffix _).length_le
    rw [nextToken] at h
    split at h
    · exact (ih h).trans (Nat.lt_succ_self _)
    · rename_i hspace
      split at h
      · rename_i hdigit
        obtain ⟨value, -, h⟩ := Option.bind_eq_some_iff.mp h
        have hshorter := hdrop Char.isDigit hdigit
        split at h
        · rename_i after heq
          obtain ⟨valueAfter, -, h⟩ := Option.bind_eq_some_iff.mp h
          cases h
          rw [heq, List.length_cons] at hshorter
          have := (List.dropWhile_suffix (l := after) Char.isDigit).length_le
          omega
        · cases h
          exact hshorter
      · split at h
        · split at h
          · cases h
          · rename_i rest' heq
            cases h
            exact (ih heq).trans (Nat.lt_succ_self _)
          · cases h
            exact Nat.lt_succ_self _
        · cases h
          exact Nat.lt_succ_self _
        · rename_i hsingle
          cases h
          refine hdrop _ ?_
          rw [isDelimiter, hsingle, Bool.eq_false_iff.mpr hspace]
          rfl

theorem Chain.operands (h : Chain checks floats text ops rest) :
    ∀ x ∈ ops, (Expr.ofToken x.2).isSome = true := by
  induction h with
  | stop => simp
  | step _ _ hoperand _ _ ih =>
    intro x hx
    rcases List.mem_cons.mp hx with rfl | hx
    · exact hoperand
    · exact ih x hx

theorem Chain.length_le (h : Chain checks floats text ops rest) : ops.length ≤ text.length := by
  induction h with
  | stop => exact Nat.zero_le _
  | step _ hop _ hnext _ ih =>
    have := nextToken_shorter _ hop
    have := nextToken_shorter _ hnext
    rw [List.length_cons]
    omega

/-- **Chains are parsed as the precedences say (proved).**  A chain of operands with binary
operators between them has exactly one tree in which the operators of higher precedence bind tighter
and those of the same precedence associate to the left, except for `^` and `=`.  `parse_expression`
returns its expression and leaves what follows the chain; it panics exactly if the tree assigns to
something that is not a name. -/
theorem parseExpression_chain {text text' rest : List Char} {first : Token}
    {ops : List (InfixOperator × Token)} (hoperand : (Expr.ofToken first).isSome = true)
    (hfirst : nextToken checks floats text = some (some first, text'))
    (hchain : Chain checks floats text' ops rest) (hends : Ends checks floats rest) :
    ∃ tree : OperatorTree, (tree.first = first ∧ tree.rest = ops ∧ infixGrammar.Bound tree) ∧
      (∀ tree' : OperatorTree, tree'.first = first → tree'.rest = ops →
        infixGrammar.Bound tree' → tree' = tree) ∧
      parseExpression checks floats text = (treeExpr tree).map (fun expr => (expr, rest)) ∧
      ((treeExpr tree).isSome = true ↔ AssignsToNames tree) := by
  obtain ⟨tree, left, hclimbs⟩ := exists_climbs (g := infixGrammar) 0 (.leaf first) ops
  obtain ⟨rfl, hbound, htree, hrest⟩ := climbs_all hclimbs
  refine ⟨tree, ⟨htree, hrest, hbound⟩, ?_, ?_, ?_⟩
  · intro tree' hfirst' hrest' hbound'
    exact hbound'.unique hbound (hfirst'.trans htree.symm) (hrest'.trans hrest.symm)
  · obtain ⟨expr, hexpr⟩ := Option.isSome_iff_exists.mp hoperand
    have hfuel : 2 * ops.length + 1 ≤ 2 * text.length + 1 := by
      have := hchain.length_le
      have := nextToken_shorter text hfirst
      omega
    obtain ⟨after, hafter, hparse⟩ := parseInfix_climbs hclimbs (p := .lowest) rfl hchain hends
      hexpr hfuel
    cases hafter
    rw [parseExpression, parseExpressionWithPrecedence, hfirst]
    simp only [Option.bind_eq_bind, Option.bind_some, hexpr]
    exact hparse
  · refine treeExpr_isSome_iff tree (htree ▸ hoperand) ?_
    rw [hrest]
    exact hchain.operands

end Chains

/-- In `a=b^c*d;`, four operands and three operators up to the semicolon. -/
theorem parseExpression_chain_assignment :
    ∃ tree : OperatorTree, (tree.first = .identifier "a" ∧
        tree.rest = [(.equals, .identifier "b"), (.carat, .identifier "c"),
          (.asterisk, .identifier "d")] ∧ infixGrammar.Bound tree) ∧
      (∀ tree' : OperatorTree, tree'.first = .identifier "a" →
        tree'.rest = [(.equals, .identifier "b"), (.carat, .identifier "c"),
          (.asterisk, .identifier "d")] → infixGrammar.Bound tree' → tree' = tree) ∧
      parseExpression true ⟨fun before _ => before, fun _ => ['0']⟩
        ['a', '=', 'b', '^', 'c', '*', 'd', ';'] =
          (treeExpr tree).map (fun expr => (expr, [';'])) ∧
      ((treeExpr tree).isSome = true ↔ AssignsToNames tree) := by
  have hlast : Chain true ⟨fun before _ => before, fun _ => ['0']⟩ ['*', 'd', ';']
      [(.asterisk, .identifier "d")] [';'] :=
    .step (by decide) (show _ = some (_, ['d', ';']) by decide +kernel) rfl
      (by decide +kernel) .stop
  have hmiddle : Chain true ⟨fun before _ => before, fun _ => ['0']⟩ ['^', 'c', '*', 'd', ';']
      [(.carat, .identifier "c"), (.asterisk, .identifier "d")] [';'] :=
    .step (by decide) (show _ = some (_, ['c', '*', 'd', ';']) by decide +kernel) rfl
      (by decide +kernel) hlast
  exact parseExpression_chain rfl
    (show _ = some (_, ['=', 'b', '^', 'c', '*', 'd', ';']) by decide +kernel)
    (.step (by decide) (show _ = some (_, ['b', '^', 'c', '*', 'd', ';']) by decide +kernel) rfl
      (by decide +kernel) hmiddle)
    ⟨some .semicolon, [], by decide +kernel, rfl⟩

/-- Of `a ^ b ^ c` the second operator is the operand of the first, and `1 = 2` is a panic. -/
theorem parseExpression_rightward :
    parseExpression true ⟨fun before _ => before, fun _ => ['0']⟩ "a ^ b ^ c".toList =
      some (.operatorExpr (.nameExpr (.identifier "a")) .carat
        (.operatorExpr (.nameExpr (.identifier "b")) .carat (.nameExpr (.identifier "c"))), []) ∧
    (parseExpression true ⟨fun before _ => before, fun _ => ['0']⟩ "1 = 2".toList).isNone = true :=
  ⟨rfl, rfl⟩

end Axle.Compiler
