import Mathlib.Data.BitVec
import Mathlib.Data.List.Basic

/-!
# AMC messages and the choice of the next one

A message carries the names of its sender and of its destination and a body.  A service takes
messages out of its inbox with `amc_select_message_to_deliver`: the first one, from the head of
the inbox, whose source is among the wanted ones and, if an event is wanted, whose body starts
with that 32-bit word.  Reading the first word of a body shorter than four bytes panics.

* `amcSelectMessageToDeliver` — the code, `none` for the panic;
* `select_some`, `select_none` — what it returns when no event is asked for.
-/

namespace Axle.Kernel.Amc

/-- A service name.  `amc_register_service` refuses names of 64 characters and more, so that
comparing the first 64 characters of a name with a registered one is comparing the two. -/
abbrev ServiceName := List Char

def amcMaxServiceNameLen : ℕ := 64

def amcMaxMessageSize : ℕ := 1024 * 1024 * 16

def axleCoreServiceName : ServiceName :=
  ['c', 'o', 'm', '.', 'a', 'x', 'l', 'e', '.', 'c', 'o', 'r', 'e']

/-- The address of an `amc_service_t`. -/
abbrev ServicePtr := ℕ

structure Message where
  source : ServiceName
  dest : ServiceName
  body : List (BitVec 8)
  /-- Which send, or which registration, it belongs to: bookkeeping, not in the code. -/
  mark : ℕ
  deriving DecidableEq, Repr

/-- The first aligned 32-bit word of the body, little endian. -/
def Message.firstWord (m : Message) : Option (BitVec 32) :=
  match m.body with
  | a :: b :: c :: d :: _ => some (d ++ c ++ b ++ a)
  | _ => none

/-- An empty list of wanted sources admits every source. -/
def admitsSource (sources : List ServiceName) (m : Message) : Bool :=
  sources.isEmpty || sources.contains m.source

/-- The index of the first message that satisfies the criteria. -/
def firstMessageMatchingCriteria (sources : List ServiceName) (event : Option (BitVec 32)) :
    List Message → Option (Option ℕ)
  | [] => some none
  | m :: ms =>
    let rest := (firstMessageMatchingCriteria sources event ms).map (Option.map (· + 1))
    if !admitsSource sources m then rest
    else match event with
      | none => some (some 0)
      | some wanted => do
        let word ← m.firstWord
        if word ≠ wanted then rest else some (some 0)

/-- Take the message out of the inbox; the inbox stays as it is when there is none. -/
def amcSelectMessageToDeliver (sources : List ServiceName) (event : Option (BitVec 32))
    (inbox : List Message) : Option (Option Message × List Message) := do
  match ← firstMessageMatchingCriteria sources event inbox with
  | some i => return (inbox[i]?, inbox.eraseIdx i)
  | none => return (none, inbox)

theorem firstMessage_eq_findIdx (sources : List ServiceName) (inbox : List Message) :
    firstMessageMatchingCriteria sources none inbox
      = some (inbox.findIdx? (admitsSource sources)) := by
  induction inbox with
  | nil => rfl
  | cons m ms ih =>
    rw [firstMessageMatchingCriteria, ih, List.findIdx?_cons]
    by_cases h : admitsSource sources m <;> simp [h]

/-- Without a wanted event the choice is the first message of an admitted source. -/
theorem amcSelect_eq (sources : List ServiceName) (inbox : List Message) :
    amcSelectMessageToDeliver sources none inbox =
      some (match inbox.findIdx? (admitsSource sources) with
        | some i => (inbox[i]?, inbox.eraseIdx i)
        | none => (none, inbox)) := by
  rw [amcSelectMessageToDeliver, firstMessage_eq_findIdx]
  cases inbox.findIdx? (admitsSource sources) <;> rfl

/-- When nothing is found, no message of an admitted source is there. -/
theorem select_none {sources : List ServiceName} {inbox inbox' : List Message}
    (h : amcSelectMessageToDeliver sources none inbox = some (none, inbox')) :
    inbox' = inbox ∧ ∀ m ∈ inbox, admitsSource sources m = false := by
  rw [amcSelect_eq] at h
  cases hi : inbox.findIdx? (admitsSource sources) with
  | none =>
    rw [hi] at h
    exact ⟨by simpa using h.symm, List.findIdx?_eq_none_iff.mp hi⟩
  | some i =>
    obtain ⟨hlt, -, -⟩ := List.findIdx?_eq_some_iff_getElem.mp hi
    rw [hi] at h
    simp [List.getElem?_eq_getElem hlt] at h

/-- What is found is admitted, and everything before it is not. -/
theorem select_some {sources : List ServiceName} {inbox inbox' : List Message} {m : Message}
    (h : amcSelectMessageToDeliver sources none inbox = some (some m, inbox')) :
    ∃ before after, inbox = before ++ m :: after ∧ inbox' = before ++ after ∧
      admitsSource sources m = true ∧ ∀ m' ∈ before, admitsSource sources m' = false := by
  rw [amcSelect_eq] at h
  cases hi : inbox.findIdx? (admitsSource sources) with
  | none =>
    rw [hi] at h
    cases h
  | some i =>
    obtain ⟨hlt, hp, hbefore⟩ := List.findIdx?_eq_some_iff_getElem.mp hi
    rw [hi] at h
    simp only [List.getElem?_eq_getElem hlt, Option.some.injEq, Prod.mk.injEq] at h
    obtain ⟨rfl, rfl⟩ := h
    refine ⟨inbox.take i, inbox.drop (i + 1), ?_, ?_, hp, ?_⟩
    · rw [List.getElem_cons_drop, List.take_append_drop]
    · exact List.eraseIdx_eq_take_drop_succ inbox i
    · intro m' hm'
      obtain ⟨j, hj, rfl⟩ := List.mem_take_iff_getElem.mp hm'
      simpa using hbefore j (by omega)

end Axle.Kernel.Amc
