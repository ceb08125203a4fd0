import Axle.Compiler.Statements
import Axle.Linker.AssemblyText
import Mathlib.Data.List.TakeWhile
import Mathlib.Tactic

/-!
# The text of what the compiler emits

Every instruction of the code generator on a line of its own, through `Instr::render` and back
through `parse_statement`.  `render` leaves subtractions and multiplications as `todo!`, the parser
reads over a `.global` declaration, and a label is only read whole if all its characters belong to
an identifier of the assembly lexer: an identifier of C may have a dot in it.

* `Emitted` — the instructions that the code generator can emit;
* `readsBack_iff` — **PROVED**: which instructions of a function do.
-/

namespace Axle.Linker

open Axle.Compiler

/-! ### What the code generator emits -/

inductive Emitted : Instr → Prop
  | global (name : String) : Emitted (.directiveDeclareGlobalSymbol name)
  | functionLabel (name : String) : Emitted (.directiveDeclareLabel ("_" ++ name))
  | label (labelId : ℕ) {context : String} :
      context = "if_test_failed" ∨ context = "if_statement_finished" →
      Emitted (.directiveDeclareLabel (generateLabelWithContext labelId context))
  | jump (labelId : ℕ) : Emitted (.jumpToLabel (finishedLabel labelId))
  | jumpIfNotEqual (labelId : ℕ) : Emitted (.jumpToLabelIfNotEqual (testFailedLabel labelId))
  | push {reg : RegView} : reg = .rax ∨ reg = .rbp → Emitted (.pushFromReg reg)
  | pop {reg : RegView} : reg = .rax ∨ reg = .rbx ∨ reg = .rbp → Emitted (.popIntoReg reg)
  | move : Emitted (.moveRegToReg .rsp .rbp)
  | moveImm (imm : BitVec 64) : Emitted (.moveImmToReg imm .rax)
  | add : Emitted (.addRegToReg .rax .rbx)
  | sub : Emitted (.subRegFromReg .rax .rbx)
  | mul : Emitted (.mulRegByReg .rax .rbx)
  | compare : Emitted (.compareRegWithReg .rax .rbx)
  | ret : Emitted .return
  | input : Emitted .simulatorShimGetInput

variable {instrs : List Instr} {name : String}

theorem applyOperator_emitted {op : InfixOperator} (h : applyOperator op = some instrs) :
    ∀ instr ∈ instrs, Emitted instr := by
  cases op with
  | plus =>
    cases h
    simp only [List.forall_mem_cons]
    exact ⟨.pop (by simp), .pop (by simp), .add, by simp⟩
  | minus =>
    cases h
    simp only [List.forall_mem_cons]
    exact ⟨.pop (by simp), .pop (by simp), .sub, by simp⟩
  | asterisk =>
    cases h
    simp only [List.forall_mem_cons]
    exact ⟨.pop (by simp), .pop (by simp), .mul, by simp⟩
  | doubleEquals =>
    cases h
    simp only [List.forall_mem_cons]
    exact ⟨.pop (by simp), .pop (by simp), .compare, by simp⟩
  | _ => cases h

theorem codegenExpression_emitted (e : Expr) : ∀ {instrs : List Instr},
    codegenExpression e = some instrs → ∀ instr ∈ instrs, Emitted instr := by
  induction e using codegenExpression.induct with
  | case1 lhs op rhs ihl ihr =>
    intro instrs h
    obtain ⟨li, hli, h⟩ := Option.bind_eq_some_iff.mp h
    obtain ⟨ri, hri, h⟩ := Option.bind_eq_some_iff.mp h
    obtain ⟨oi, hoi, h⟩ := Option.bind_eq_some_iff.mp h
    obtain rfl := Option.some.inj h
    simp only [List.forall_mem_append, List.forall_mem_singleton]
    exact ⟨⟨⟨⟨ihl hli, .push (by simp)⟩, ihr hri⟩, .push (by simp)⟩, applyOperator_emitted hoi⟩
  | case2 val =>
    intro instrs h
    obtain rfl := Option.some.inj h
    exact List.forall_mem_singleton.mpr (.moveImm val)
  | case3 args =>
    intro instrs h
    obtain rfl := Option.some.inj h
    exact List.forall_mem_singleton.mpr .input
  | case4 e hop hint hcall =>
    intro instrs h
    rw [codegenExpression] at h
    · cases h
    all_goals assumption

mutual

theorem codegenStatement_emitted (n : ℕ) : ∀ (statement : Statement) {out : List Instr × ℕ},
    codegenStatement n statement = some out → ∀ instr ∈ out.1, Emitted instr
  | .returnStatement returnExpr, out, h => by
    rw [codegenStatement] at h
    obtain ⟨instrs, hinstrs, h⟩ := Option.bind_eq_some_iff.mp h
    obtain rfl := Option.some.inj h
    simp only [List.forall_mem_append, List.forall_mem_cons]
    exact ⟨codegenExpression_emitted _ hinstrs, .pop (by simp), .ret, by simp⟩
  | .ifStatement test consequent, out, h => by
    rw [codegenStatement] at h
    obtain ⟨instrs, hinstrs, h⟩ := Option.bind_eq_some_iff.mp h
    obtain ⟨last, -, h⟩ := Option.bind_eq_some_iff.mp h
    split at h
    · obtain ⟨block, hblock, h⟩ := Option.bind_eq_some_iff.mp h
      obtain rfl := Option.some.inj h
      simp only [List.forall_mem_append, List.forall_mem_cons]
      exact ⟨⟨⟨codegenExpression_emitted _ hinstrs, .jumpIfNotEqual n, by simp⟩,
        codegenBlock_emitted (n + 2) consequent hblock⟩, .jump n, .label n (by simp),
        .label (n + 1) (by simp), by simp⟩
    · cases h
  | .blockStatement _, out, h => by
    rw [codegenStatement] at h
    cases h

theorem codegenBlock_emitted (n : ℕ) : ∀ (statements : List Statement) {out : List Instr × ℕ},
    codegenBlock n statements = some out → ∀ instr ∈ out.1, Emitted instr
  | [], out, h => by
    rw [codegenBlock] at h
    obtain rfl := Option.some.inj h
    simp
  | statement :: statements, out, h => by
    rw [codegenBlock] at h
    obtain ⟨first, hfirst, h⟩ := Option.bind_eq_some_iff.mp h
    obtain ⟨rest, hrest, h⟩ := Option.bind_eq_some_iff.mp h
    obtain rfl := Option.some.inj h
    simp only [List.forall_mem_append]
    exact ⟨codegenStatement_emitted n statement hfirst,
      codegenBlock_emitted first.2 statements hrest⟩

end

theorem codegenFunction_emitted {f : Function} (h : codegenFunction f = some instrs) :
    ∀ instr ∈ instrs, Emitted instr := by
  obtain ⟨body, hbody, h⟩ := Option.bind_eq_some_iff.mp h
  obtain rfl := Option.some.inj h
  simp only [functionEntry, List.forall_mem_append, List.forall_mem_cons]
  exact ⟨⟨.global _, .functionLabel f.name, .push (by simp), .move, by simp⟩,
    codegenBlock_emitted 0 f.body hbody⟩

/-! ### What is read back -/

/-- The text of the instruction, with a newline behind it, is read as the instruction; and at most
the newline is left. -/
def ReadsBack (checks : Bool) (instr : Instr) : Prop :=
  ∃ text rounds lexer', instr.render = some text ∧
    parseStatement checks rounds (AssemblyLexer.new (text ++ ['\n'])) =
      some (some instr, lexer') ∧
    (lexer'.rest = [] ∨ lexer'.rest = ['\n'])

/-- An instruction that `render` writes and the parser does not read over; a label all of whose
characters belong to an identifier. -/
def Transcribed : Instr → Prop
  | .subRegFromReg _ _ | .mulRegByReg _ _ | .directiveDeclareGlobalSymbol _ => False
  | .directiveDeclareLabel name => ∀ c ∈ name.toList, isPart c = true
  | _ => True

/-- The reader succeeds with such values only. -/
def Yields {α : Type} (read : LexM α) (P : α → Prop) : Prop :=
  ∀ lexer a lexer', read lexer = some (a, lexer') → P a

section Yields

variable {α β : Type} {P : α → Prop}

theorem Yields.pure {a : α} (h : P a) : Yields (Pure.pure a) P := by
  intro lexer b lexer' hread
  cases hread
  exact h

theorem Yields.failure : Yields (failure : LexM α) P := by
  intro lexer a lexer' hread
  cases hread

theorem Yields.bind {read : LexM β} {next : β → LexM α} (h : ∀ b, Yields (next b) P) :
    Yields (read >>= next) P := by
  intro lexer a lexer' hread
  obtain ⟨⟨b, lexer''⟩, -, hnext⟩ := Option.bind_eq_some_iff.mp hread
  exact h b lexer'' a lexer' hnext

theorem Yields.ite {c : Prop} [Decidable c] {read read' : LexM α} (h : Yields read P)
    (h' : Yields read' P) : Yields (if c then read else read') P := by
  split
  · exact h
  · exact h'

end Yields

/-- No symbol is ever declared: the parser reads over that. -/
def NotGlobal : Instr → Prop
  | .directiveDeclareGlobalSymbol _ => False
  | _ => True

theorem parseDirective_notGlobal (name : String) : Yields (parseDirective name) NotGlobal := by
  refine .ite (.bind fun _ => .bind fun _ => .pure trivial) (.ite ?_ (.ite ?_ (.ite ?_ .failure)))
  · exact .bind fun _ => .bind fun _ => .bind fun _ => .pure trivial
  · exact .bind fun _ => .bind fun _ => .bind fun _ => .bind fun _ => .bind fun _ => .pure trivial
  · exact .bind fun _ => .bind fun _ => .bind fun _ => .pure trivial

theorem parseMov_notGlobal : Yields parseMov NotGlobal := by
  refine .bind fun _ => .bind fun _ => .bind fun _ => .bind fun _ => .bind fun _ => ?_
  exact .ite (.ite (.bind fun _ => .pure trivial) .failure)
    (.ite (.bind fun _ => .pure trivial) .failure)

theorem parseCmp_notGlobal : Yields parseCmp NotGlobal := by
  refine .bind fun _ => .ite ?_ (.ite ?_ .failure)
  · exact .bind fun _ => .bind fun _ => .bind fun _ => .bind fun _ => .bind fun _ => .pure trivial
  · exact .bind fun _ => .bind fun _ => .bind fun _ => .bind fun _ => .pure trivial

theorem parseMnemonic_notGlobal (name : String) : Yields (parseMnemonic name) NotGlobal := by
  refine .ite parseMov_notGlobal (.ite ?_ (.ite ?_ (.ite ?_ (.ite ?_ (.ite ?_ (.ite ?_
    (.ite parseCmp_notGlobal (.ite ?_ (.ite ?_ (.ite ?_ .failure))))))))))
  · exact .bind fun _ => .bind fun _ => .bind fun _ => .pure trivial
  · exact .bind fun _ => .pure trivial
  · exact .bind fun _ => .bind fun _ => .pure trivial
  · exact .bind fun _ => .bind fun _ => .pure trivial
  · exact .bind fun _ => .bind fun _ => .bind fun _ => .bind fun _ => .bind fun _ => .pure trivial
  · exact .pure trivial
  · exact .bind fun _ => .pure trivial
  · exact .bind fun _ => .pure trivial
  · exact .pure trivial

theorem parseStatement_notGlobal (checks : Bool) (rounds : ℕ) :
    Yields (parseStatement checks rounds)
      fun read => ∀ instr, read = some instr → NotGlobal instr := by
  have hsome : ∀ {read : LexM Instr}, Yields read NotGlobal →
      Yields (read >>= fun instr => Pure.pure (some instr))
        fun read => ∀ instr, read = some instr → NotGlobal instr := by
    intro read h lexer a lexer' hread
    obtain ⟨⟨instr, lexer''⟩, hinstr, hpure⟩ := Option.bind_eq_some_iff.mp hread
    cases hpure
    intro instr' heq
    cases heq
    exact h _ _ _ hinstr
  induction rounds with
  | zero => exact .failure
  | succ rounds ih =>
    refine .bind fun token => ?_
    cases token with
    | none =>
      refine .pure fun instr hread => ?_
      cases hread
    | some token =>
      cases token with
      | dot =>
        refine .bind fun directiveName => .ite (.bind fun _ => ih) ?_
        exact hsome (parseDirective_notGlobal directiveName)
      | identifier name =>
        refine .bind fun peeked => .ite (.bind fun _ => .pure ?_) ?_
        · intro instr heq
          cases heq
          trivial
        · exact hsome (parseMnemonic_notGlobal name)
      | _ => exact .failure

theorem parseMnemonic_underscore (h : name.toList.head? = some '_') :
    parseMnemonic name = failure := by
  have hne : ∀ mnemonic : String, mnemonic.toList.head? ≠ some '_' → name ≠ mnemonic := by
    rintro mnemonic hmnemonic rfl
    exact hmnemonic h
  rw [parseMnemonic, if_neg (hne _ (by decide)), if_neg (hne _ (by decide)),
    if_neg (hne _ (by decide)), if_neg (hne _ (by decide)), if_neg (hne _ (by decide)),
    if_neg (hne _ (by decide)), if_neg (hne _ (by decide)), if_neg (hne _ (by decide)),
    if_neg (hne _ (by decide)), if_neg (hne _ (by decide)), if_neg (hne _ (by decide))]

/-- A label that is not one identifier is not read as this label: what stands in front of the first
other character is read as a label of its own, or as a mnemonic that there is not. -/
theorem label_not_read {checks : Bool} (hother : ¬∀ c ∈ name.toList, isPart c = true)
    (hfirst : name.toList.head? = some '_') : ¬ReadsBack checks (.directiveDeclareLabel name) := by
  rintro ⟨text, rounds, lexer', hrender, hparse, -⟩
  obtain rfl : name.toList ++ [':'] = text := Option.some.inj hrender
  obtain ⟨c, rest, hdrop⟩ : ∃ c rest, name.toList.dropWhile isPart = c :: rest := by
    cases hdrop : name.toList.dropWhile isPart with
    | nil => exact absurd (List.dropWhile_eq_nil_iff.mp hdrop) hother
    | cons c rest => exact ⟨c, rest, rfl⟩
  have hc : isPart c = false := by
    have hhead := List.head?_dropWhile_not isPart name.toList
    rw [hdrop] at hhead
    simpa using hhead
  have hsplit : name.toList = name.toList.takeWhile isPart ++ c :: rest := by
    rw [← hdrop, List.takeWhile_append_dropWhile]
  have hhead : (name.toList.takeWhile isPart).head? = some '_' := by
    cases hlist : name.toList with
    | nil =>
      rw [hlist] at hfirst
      cases hfirst
    | cons d more =>
      rw [hlist] at hfirst
      obtain rfl : d = '_' := Option.some.inj hfirst
      rfl
  generalize hword : String.ofList (name.toList.takeWhile isPart) = word at *
  have hwordList : name.toList.takeWhile isPart = word.toList := by
    rw [← hword, String.toList_ofList]
  rw [hwordList] at hsplit hhead
  have hparts : ∀ d ∈ word.toList, isPart d = true := by
    intro d hd
    exact List.mem_takeWhile_imp (hwordList ▸ hd)
  have htoken : lexToken (AssemblyLexer.new (name.toList ++ [':'] ++ ['\n'])).rest =
      (some (.identifier word), c :: (rest ++ [':', '\n'])) := by
    show lexToken (name.toList ++ [':'] ++ ['\n']) = _
    rw [hsplit, List.append_assoc, List.append_assoc]
    exact lexToken_identifier (by rintro hnil; rw [hnil] at hhead; cases hhead) hparts hc _
  obtain ⟨lexer₁, hnext, -⟩ := nextToken_lexed _ htoken
  cases rounds with
  | zero => cases hparse
  | succ rounds =>
    rw [parseStatement, bind_lexer hnext] at hparse
    obtain ⟨⟨peeked, lexer₂⟩, -, hparse⟩ := Option.bind_eq_some_iff.mp hparse
    dsimp only at hparse
    split at hparse
    · obtain ⟨⟨⟨⟩, lexer₃⟩, -, hpure⟩ := Option.bind_eq_some_iff.mp hparse
      have hsame : word = name := by
        have hinstr := congrArg Prod.fst (Option.some.inj hpure)
        simpa using hinstr
      rw [hsame] at hsplit
      exact absurd (congrArg List.length hsplit) (by simp)
    · rw [parseMnemonic_underscore hhead] at hparse
      cases hparse

/-! ### Labels -/

theorem isName_of_ascii (hne : name.toList ≠ [])
    (h : ∀ c ∈ name.toList, isPart c = true ∧ c.utf8Size = 1) : IsName name where
  nonempty := hne
  parts := fun c hc => (h c hc).1
  ascii := by
    have hsize := utf8ByteSize_ofList name.toList
    rw [String.ofList_toList] at hsize
    rw [hsize]
    have hall : name.toList.map Char.utf8Size = List.replicate name.toList.length 1 := by
      rw [List.eq_replicate_iff, List.length_map]
      refine ⟨rfl, fun n hn => ?_⟩
      obtain ⟨c, hc, rfl⟩ := List.mem_map.mp hn
      exact (h c hc).2
    rw [hall, List.sum_replicate, smul_eq_mul, mul_one]

theorem ascii_of_all {chars : List Char}
    (h : (chars.all fun c => isPart c && c.utf8Size == 1) = true) :
    ∀ c ∈ chars, isPart c = true ∧ c.utf8Size = 1 := by
  intro c hc
  have hboth := List.all_eq_true.mp h c hc
  rwa [Bool.and_eq_true, beq_iff_eq] at hboth

theorem isName_generateLabel (labelId : ℕ) {context : String}
    (h : context = "if_test_failed" ∨ context = "if_statement_finished") :
    IsName (generateLabelWithContext labelId context) := by
  have hdigit : ∀ d < 10, isPart (Char.ofNat (48 + d)) = true ∧
      (Char.ofNat (48 + d)).utf8Size = 1 := by decide
  have hplain : ∀ c ∈ ("_L".toList ++ ("_".toList ++ context.toList)),
      isPart c = true ∧ c.utf8Size = 1 := by
    rcases h with rfl | rfl <;> exact ascii_of_all (by decide)
  have hlist : (generateLabelWithContext labelId context).toList =
      "_L".toList ++ (Nat.toDigits 10 labelId ++ ("_".toList ++ context.toList)) := by
    have hdigits : (toString labelId).toList = Nat.toDigits 10 labelId := String.toList_ofList
    rw [generateLabelWithContext, String.toList_append, String.toList_append, String.toList_append,
      List.append_assoc, List.append_assoc, hdigits]
  refine isName_of_ascii (by rw [hlist]; simp) fun c hc => ?_
  rw [hlist] at hc
  rcases List.mem_append.mp hc with hc | hc
  · exact hplain c (List.mem_append_left _ hc)
  · rcases List.mem_append.mp hc with hc | hc
    · have hrange := Nat.isDigit_of_mem_toDigits (by decide) (by decide) hc
      rw [Char.isDigit, Bool.and_eq_true, decide_eq_true_eq, decide_eq_true_eq] at hrange
      have hlow : 48 ≤ c.toNat := hrange.1
      have hhigh : c.toNat ≤ 57 := hrange.2
      have hshape := hdigit (c.toNat - 48) (by omega)
      rwa [show 48 + (c.toNat - 48) = c.toNat by omega, Char.ofNat_toNat] at hshape
    · exact hplain c (List.mem_append_right _ hc)

/-! ### The instructions of a function -/

section ReadsBack

variable {checks : Bool}

variable {instr : Instr} {text : List Char} {name : String}

theorem readsBack_of_lexed {text rest : List Char} (hrender : instr.render = some text)
    (h : Lexed (parseStatement checks 1) (AssemblyLexer.new (text ++ ['\n'])) (some instr) rest)
    (hrest : rest = [] ∨ rest = ['\n']) : ReadsBack checks instr := by
  obtain ⟨lexer', hparse, rfl⟩ := h
  exact ⟨text, 1, lexer', hrender, hparse, hrest⟩

theorem Line.readsBack (h : Line instr text) (hret : instr ≠ .return) : ReadsBack checks instr :=
  readsBack_of_lexed h.render (h.lexed hret rfl) (.inr rfl)

theorem label_readsBack (hne : name.toList ≠ []) (hparts : ∀ c ∈ name.toList, isPart c = true) :
    ReadsBack checks (.directiveDeclareLabel name) := by
  refine readsBack_of_lexed rfl (label_line hne hparts ?_) (.inr rfl)
  show lexToken (name.toList ++ [':'] ++ ['\n']) = _
  rw [List.append_assoc]
  rfl

theorem not_readsBack_of_render (h : instr.render = none) : ¬ReadsBack checks instr := by
  rintro ⟨text, rounds, lexer', hrender, -⟩
  rw [h] at hrender
  cases hrender

theorem global_not_readsBack (name : String) :
    ¬ReadsBack checks (.directiveDeclareGlobalSymbol name) := by
  rintro ⟨text, rounds, lexer', -, hparse, -⟩
  exact parseStatement_notGlobal checks rounds _ _ _ hparse _ rfl

theorem Emitted.label_start (h : Emitted (.directiveDeclareLabel name)) :
    name.toList.head? = some '_' := by
  cases h with
  | functionLabel name =>
    rw [String.toList_append]
    rfl
  | label labelId hcontext =>
    rw [generateLabelWithContext, String.toList_append, String.toList_append, String.toList_append,
      List.append_assoc, List.append_assoc]
    rfl

theorem Emitted.readsBack_iff_transcribed (h : Emitted instr) :
    ReadsBack checks instr ↔ Transcribed instr := by
  have hrax : Named ⟨.rax, .rx⟩ _ := named_rx (by decide) (by decide)
  have hrbx : Named ⟨.rbx, .rx⟩ _ := named_rx (by decide) (by decide)
  have hrsp : Named ⟨.rsp, .rx⟩ _ := named_rx (by decide) (by decide)
  have hrbp : Named ⟨.rbp, .rx⟩ _ := named_rx (by decide) (by decide)
  have hlabel : ∀ {name : String}, Emitted (.directiveDeclareLabel name) →
      (ReadsBack checks (.directiveDeclareLabel name) ↔ ∀ c ∈ name.toList, isPart c = true) := by
    intro name hemitted
    have hstart := hemitted.label_start
    refine ⟨fun hreads => ?_, label_readsBack ?_⟩
    · by_contra hother
      exact label_not_read hother hstart hreads
    · intro hnil
      rw [hnil] at hstart
      cases hstart
  have hlines : ∀ {text : List Char}, Line instr text → instr ≠ .return →
      Transcribed instr → (ReadsBack checks instr ↔ Transcribed instr) :=
    fun hline hret htranscribed => iff_of_true (hline.readsBack hret) htranscribed
  cases h with
  | global name => exact iff_of_false (global_not_readsBack name) id
  | functionLabel name => exact hlabel (.functionLabel name)
  | label labelId hcontext => exact hlabel (.label labelId hcontext)
  | jump labelId =>
    exact hlines (.jump (isName_generateLabel _ (.inr rfl))) (by simp) trivial
  | jumpIfNotEqual labelId =>
    exact hlines (.jumpIfNotEqual (isName_generateLabel _ (.inl rfl))) (by simp) trivial
  | push hreg =>
    rcases hreg with rfl | rfl
    · exact hlines (.push hrax) (by simp) trivial
    · exact hlines (.push hrbp) (by simp) trivial
  | pop hreg =>
    rcases hreg with rfl | rfl | rfl
    · exact hlines (.pop hrax) (by simp) trivial
    · exact hlines (.pop hrbx) (by simp) trivial
    · exact hlines (.pop hrbp) (by simp) trivial
  | move => exact hlines (.move hrsp hrbp) (by simp) trivial
  | moveImm imm => exact hlines (.moveImm imm hrax) (by simp) trivial
  | add => exact hlines (.add hrax hrbx) (by simp) trivial
  | compare => exact hlines (.compare hrax hrbx) (by simp) trivial
  | sub => exact iff_of_false (not_readsBack_of_render rfl) id
  | mul => exact iff_of_false (not_readsBack_of_render rfl) id
  | ret =>
    refine iff_of_true (readsBack_of_lexed rfl ?_ (.inl rfl)) trivial
    exact bare_line (isName_mnemonic "ret" (by simp)) parseMnemonic_ret rfl
  | input =>
    refine iff_of_true (readsBack_of_lexed rfl ?_ (.inl rfl)) trivial
    have hname : IsName "sim_shim_get_input" := isName_of_ascii (by decide) (ascii_of_all (by decide))
    refine bare_line hname ?_ rfl
    simp [parseMnemonic]

end ReadsBack

/-- **Which emitted instructions are read back (proved).**  Of the instructions that the code
generator makes of a function, the text is read as the same instruction, with its operands in their
places and to the end of the text, exactly for those that are neither a subtraction nor a
multiplication nor a `.global` declaration, nor a label with a character that is part of no
identifier. -/
theorem readsBack_iff (checks : Bool) {f : Function} {instrs : List Instr}
    (h : codegenFunction f = some instrs) :
    ∀ instr ∈ instrs, ReadsBack checks instr ↔ Transcribed instr := fun instr hinstr =>
  (codegenFunction_emitted h instr hinstr).readsBack_iff_transcribed

/-- `return 5;` -/
theorem readsBack_iff_returnFive :
    ReadsBack true (.moveImmToReg 5 .rax) ↔ Transcribed (.moveImmToReg 5 .rax) :=
  @readsBack_iff true ⟨"main", [.returnStatement (.intExpr 5)]⟩
    (functionEntry "_main" ++ [.moveImmToReg 5 .rax, .popIntoReg .rbp, .return]) rfl _ (by decide)

/-- The declaration in front of `_main` and the instruction for `2 - 1` are not read back. -/
theorem readsBack_differences :
    (∃ instrs, codegenFunction ⟨"main", [.returnStatement
        (.operatorExpr (.intExpr 2) .minus (.intExpr 1))]⟩ = some instrs ∧
      .directiveDeclareGlobalSymbol "_main" ∈ instrs ∧ .subRegFromReg .rax .rbx ∈ instrs) ∧
    ¬ReadsBack true (.directiveDeclareGlobalSymbol "_main") ∧
    ¬ReadsBack true (.subRegFromReg .rax .rbx) :=
  ⟨⟨_, rfl, by decide, by decide⟩, global_not_readsBack "_main", not_readsBack_of_render rfl⟩

end Axle.Linker
