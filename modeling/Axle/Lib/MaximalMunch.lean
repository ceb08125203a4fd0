import Mathlib.Data.Nat.Find
import Mathlib.Data.List.Basic

/-!
# Maximal munch

A text cut into lexemes: blanks are passed over, and what is taken next is the longest lexeme that
the rest of the text starts with.

* `LongestLexeme`, `Munched` — the longest lexeme at the start, and the whole cut;
* `Munched.unique` — **PROVED**: there is at most one way to cut a text;
* `exists_munched` — **PROVED**: there is one, where every character that is no blank is a lexeme.
-/

namespace Axle

variable {α : Type} (blank : α → Prop) (isLexeme : List α → Prop)

/-- No lexeme at the start of `lexeme ++ rest` is longer than `lexeme`, which is one. -/
structure LongestLexeme (lexeme rest : List α) : Prop where
  taken : isLexeme lexeme
  longest : ∀ other, other <+: lexeme ++ rest → isLexeme other → other.length ≤ lexeme.length

inductive Munched : List α → List (List α) → Prop where
  | done {gap : List α} : (∀ c ∈ gap, blank c) → Munched gap []
  | next {gap lexeme rest : List α} {lexemes : List (List α)} : (∀ c ∈ gap, blank c) →
      LongestLexeme isLexeme lexeme rest → Munched rest lexemes →
      Munched (gap ++ (lexeme ++ rest)) (lexeme :: lexemes)

/-- Lexemes are not empty and do not start with a blank. -/
def StartsPlain : Prop := ∀ lexeme, isLexeme lexeme → ∃ c rest, lexeme = c :: rest ∧ ¬blank c

variable {blank isLexeme}

theorem LongestLexeme.unique {lexeme rest lexeme' rest' : List α}
    (h : LongestLexeme isLexeme lexeme rest) (h' : LongestLexeme isLexeme lexeme' rest')
    (heq : lexeme ++ rest = lexeme' ++ rest') : lexeme = lexeme' ∧ rest = rest' := by
  refine List.append_inj heq (Nat.le_antisymm ?_ ?_)
  · apply h'.longest lexeme _ h.taken
    rw [← heq]
    exact List.prefix_append _ _
  · apply h.longest lexeme' _ h'.taken
    rw [heq]
    exact List.prefix_append _ _

/-- The longest lexeme is not continued. -/
theorem LongestLexeme.not_continued {lexeme rest : List α} {c : α}
    (h : LongestLexeme isLexeme lexeme rest) (hc : rest.head? = some c) :
    ¬isLexeme (lexeme ++ [c]) := by
  intro hlonger
  obtain ⟨more, rfl⟩ := List.head?_eq_some_iff.mp hc
  have hle := h.longest (lexeme ++ [c]) ⟨more, by simp⟩ hlonger
  rw [List.length_append, List.length_singleton] at hle
  omega

/-- Blanks in front of a text that does not start with one are told apart from it. -/
theorem gap_unique {gap gap' text text' : List α} (hgap : ∀ c ∈ gap, blank c)
    (hgap' : ∀ c ∈ gap', blank c) (htext : ∃ c rest, text = c :: rest ∧ ¬blank c)
    (htext' : ∃ c rest, text' = c :: rest ∧ ¬blank c) (heq : gap ++ text = gap' ++ text') :
    text = text' := by
  obtain ⟨c, rest, rfl, hc⟩ := htext
  obtain ⟨c', rest', rfl, hc'⟩ := htext'
  induction gap generalizing gap' with
  | nil =>
    cases gap' with
    | nil => exact heq
    | cons b gap' =>
      obtain ⟨rfl, -⟩ := List.cons.inj heq
      exact absurd (hgap' _ List.mem_cons_self) hc
  | cons b gap ih =>
    cases gap' with
    | nil =>
      obtain ⟨rfl, -⟩ := List.cons.inj heq
      exact absurd (hgap _ List.mem_cons_self) hc'
    | cons b' gap' =>
      have htail := (List.cons.inj heq).2
      exact ih (fun d hd => hgap d (List.mem_cons_of_mem _ hd))
        (fun d hd => hgap' d (List.mem_cons_of_mem _ hd)) htail

theorem StartsPlain.append (hplain : StartsPlain blank isLexeme) {lexeme : List α}
    (h : isLexeme lexeme) (rest : List α) : ∃ c more, lexeme ++ rest = c :: more ∧ ¬blank c := by
  obtain ⟨c, more, rfl, hc⟩ := hplain lexeme h
  exact ⟨c, more ++ rest, rfl, hc⟩

/-- **One way (proved)** to cut a text. -/
theorem Munched.unique (hplain : StartsPlain blank isLexeme) {text : List α}
    {lexemes lexemes' : List (List α)} (h : Munched blank isLexeme text lexemes)
    (h' : Munched blank isLexeme text lexemes') : lexemes = lexemes' := by
  induction h generalizing lexemes' with
  | @done gap hgap =>
    cases h' with
    | done _ => rfl
    | next hgap' hlongest' hrest' =>
      obtain ⟨c, more, heq, hc⟩ := hplain.append hlongest'.taken _
      refine absurd (hgap c ?_) hc
      rw [heq]
      exact List.mem_append_right _ List.mem_cons_self
  | @next gap lexeme rest lexemes hgap hlongest hrest ih =>
    have hstart := hplain.append hlongest.taken rest
    generalize htext : gap ++ (lexeme ++ rest) = text at h'
    cases h' with
    | done hgap' =>
      obtain ⟨c, more, heq, hc⟩ := hstart
      refine absurd (hgap' c ?_) hc
      rw [← htext, heq]
      exact List.mem_append_right _ List.mem_cons_self
    | next hgap' hlongest' hrest' =>
      have hsame := gap_unique hgap hgap' hstart (hplain.append hlongest'.taken _) htext
      obtain ⟨rfl, rfl⟩ := hlongest.unique hlongest' hsame
      rw [ih hrest']

theorem exists_longestLexeme {text start : List α} (hstart : isLexeme start)
    (hstarts : start <+: text) :
    ∃ lexeme rest, text = lexeme ++ rest ∧ LongestLexeme isLexeme lexeme rest := by
  classical
  let taken := Nat.findGreatest (fun n => isLexeme (text.take n)) text.length
  have htaken : isLexeme (text.take taken) := by
    refine Nat.findGreatest_spec (P := fun n => isLexeme (text.take n)) hstarts.length_le ?_
    rwa [← List.prefix_iff_eq_take.mp hstarts]
  refine ⟨text.take taken, text.drop taken, (List.take_append_drop _ _).symm, htaken, ?_⟩
  intro other hother hlexeme
  rw [List.take_append_drop] at hother
  have hle : other.length ≤ taken := by
    refine Nat.le_findGreatest hother.length_le ?_
    rwa [← List.prefix_iff_eq_take.mp hother]
  rw [List.length_take]
  exact le_min hle hother.length_le

/-- **A way (proved)** to cut any text. -/
theorem exists_munched (hplain : StartsPlain blank isLexeme)
    (hcovers : ∀ c, ¬blank c → isLexeme [c]) (text : List α) :
    ∃ lexemes, Munched blank isLexeme text lexemes := by
  induction hlength : text.length using Nat.strongRecOn generalizing text with
  | ind n ih =>
    cases text with
    | nil => exact ⟨[], .done (by simp)⟩
    | cons c text =>
      by_cases hc : blank c
      · obtain ⟨lexemes, h⟩ := ih _ (by rw [← hlength]; exact Nat.lt_succ_self _) text rfl
        refine ⟨lexemes, ?_⟩
        cases h with
        | done hgap => exact .done (List.forall_mem_cons.mpr ⟨hc, hgap⟩)
        | next hgap hlongest hrest =>
          exact .next (List.forall_mem_cons.mpr ⟨hc, hgap⟩) hlongest hrest
      · obtain ⟨lexeme, rest, heq, hlongest⟩ := exists_longestLexeme (hcovers c hc)
          (show [c] <+: c :: text from ⟨text, rfl⟩)
        obtain ⟨d, more, hlexeme, -⟩ := hplain lexeme hlongest.taken
        have hshorter : rest.length < n := by
          rw [← hlength, heq, hlexeme, List.length_append, List.length_cons]
          omega
        obtain ⟨lexemes, h⟩ := ih _ hshorter rest rfl
        rw [heq]
        exact ⟨lexeme :: lexemes, @Munched.next _ _ _ [] _ _ _ (by simp) hlongest h⟩

end Axle
