import Axle.Lib.Pieces
import Axle.Linker.FileLayout

/-!
# Jumps and their labels

A jump is rendered with the distance from the atom behind it to the atom that its label is
attached to.  Labels are attached to the next atom of the source, whatever stands in between; what
is left without an atom at the end of the source is dropped.  `jne` has room for one byte of
distance, and the encoder cuts the distance to that.

* `JumpLaw` — every declared label resolves, and every jump of the file leads to where the atom
  behind the label's declaration stands;
* `JumpsOk` — a condition on the statements: an atom follows every declaration, a `jne` is near
  enough to its label, and what is jumped to is declared in one place;
* `jumps_land_iff` — **PROVED**: for every source that is linked, the law holds exactly then.
-/

namespace Axle.Linker

open Axle.Compiler Axle.Lib.Pieces

/-! ### What is expected -/

/-- The statement has bytes in the output. -/
def makesAtom : Instr → Bool
  | .directiveSetCurrentSection _ | .directiveDeclareLabel _ | .directiveEqu _ _ => false
  | _ => true

/-- The atoms that the statements before the statement number `i` make. -/
def atomsBefore (instructions : List Instr) (i : Nat) : Nat :=
  (instructions.take i).countP makesAtom

/-- `name` is declared where the next atom is number `k`. -/
def Declares (instructions : List Instr) (name : String) (k : Nat) : Prop :=
  ∃ i, instructions[i]? = some (.directiveDeclareLabel name) ∧ atomsBefore instructions i = k

/-- The label that an atom jumps to. -/
def DataUnit.target : DataUnit → Option String
  | .jump target | .jumpToLabelIfEqual target | .jumpToLabelIfNotEqual target => some target
  | _ => none

/-- The label that a statement jumps to. -/
def jumpLabel : Instr → Option String
  | .jumpToLabel target | .jumpToLabelIfEqual target | .jumpToLabelIfNotEqual target => some target
  | _ => none

/-- Where the jump at the position `pc` of the file leads: the displacement is added to the position
just past the jump. -/
def jumpTarget (file : List (BitVec 8)) (pc : Nat) : Option Int :=
  match file.drop pc with
  | 0xe9#8 :: b0 :: b1 :: b2 :: b3 :: _ => some (pc + 5 + (fromNeBytes b0 b1 b2 b3).toInt)
  | 0x0f#8 :: 0x84#8 :: b0 :: b1 :: b2 :: b3 :: _ => some (pc + 6 + (fromNeBytes b0 b1 b2 b3).toInt)
  | 0x75#8 :: b :: _ => some (pc + 2 + b.toInt)
  | _ => none

structure JumpLaw (instructions : List Instr) (c : MainContents) (elf : RenderedElf) : Prop where
  resolve : ∀ name k, Declares instructions name k →
    (c.offsetOfLabelName name).isSome ∧ ∃ atom, c.atoms[k]? = some atom ∧ ⟨name, atom⟩ ∈ c.labels
  land : ∀ k atom target l, c.atoms[k]? = some atom → atom.unit.target = some target →
    Declares instructions target l →
    jumpTarget elf.bytes (elf.startOfAtom k) = some (elf.startOfAtom l : Int)

/-- The bytes that a statement takes in the output. -/
def atomSize (instr : Instr) : Nat := ((dataUnitOf .text instr).bind DataUnit.len).getD 0

def codeSize (instructions : List Instr) : Nat := (instructions.map atomSize).sum

structure JumpsOk (instructions : List Instr) : Prop where
  followed : ∀ name k, Declares instructions name k → k < instructions.countP makesAtom
  near : ∀ i j target, instructions[i]? = some (.jumpToLabelIfNotEqual target) →
    instructions[j]? = some (.directiveDeclareLabel target) →
    (codeSize (instructions.take (i + 1)) : Int) - 128 ≤ codeSize (instructions.take j) ∧
      (codeSize (instructions.take j) : Int) < codeSize (instructions.take (i + 1)) + 128
  once : ∀ target k l, (∃ instr ∈ instructions, jumpLabel instr = some target) →
    Declares instructions target k → Declares instructions target l → k = l

/-! ### What the parser leaves -/

variable {instr : Instr} {instructions done : List Instr} {s t : ParseState} {n : Nat}

theorem declares_append {name : String} {k : Nat} :
    Declares (instructions ++ [instr]) name k ↔ Declares instructions name k ∨
      (instr = .directiveDeclareLabel name ∧ instructions.countP makesAtom = k) := by
  constructor
  · rintro ⟨i, hi, hk⟩
    rcases Nat.lt_trichotomy i instructions.length with hlt | heq | hgt
    · refine .inl ⟨i, by rwa [List.getElem?_append_left hlt] at hi, ?_⟩
      rwa [atomsBefore, List.take_append_of_le_length hlt.le] at hk
    · subst heq
      refine .inr ⟨by simpa using hi, ?_⟩
      rwa [atomsBefore, List.take_left] at hk
    · rw [List.getElem?_eq_none (by rw [List.length_append]; exact hgt)] at hi
      cases hi
  · rintro (⟨i, hi, hk⟩ | ⟨rfl, hk⟩)
    · have hlt := (List.getElem?_eq_some_iff.mp hi).1
      refine ⟨i, by rwa [List.getElem?_append_left hlt], ?_⟩
      rwa [atomsBefore, List.take_append_of_le_length hlt.le]
    · exact ⟨instructions.length, by simp, by rwa [atomsBefore, List.take_left]⟩

theorem ParseState.step_cases (h : s.step instr = some t) :
    (∃ name currentSection, instr = .directiveSetCurrentSection name ∧
      t = { s with currentSection }) ∨
    (∃ name, instr = .directiveDeclareLabel name ∧
      t = { s with labelsAwaitingAtom := s.labelsAwaitingAtom ++ [name] }) ∨
    (∃ name expression, instr = .directiveEqu name expression ∧
      t = { s with equExpressions := s.equExpressions ++ [⟨name, expression, s.previousAtom⟩] }) ∨
    (makesAtom instr = true ∧ ∃ unit, dataUnitOf s.currentSection instr = some unit ∧
      t = s.appendDataUnit unit) := by
  have hatom : makesAtom instr = true → (dataUnitOf s.currentSection instr).map s.appendDataUnit =
      some t → makesAtom instr = true ∧ ∃ unit, dataUnitOf s.currentSection instr = some unit ∧
        t = s.appendDataUnit unit := by
    intro hmakes h
    obtain ⟨unit, hunit, rfl⟩ := Option.map_eq_some_iff.mp h
    exact ⟨hmakes, unit, hunit, rfl⟩
  cases instr
  case directiveSetCurrentSection name =>
    obtain ⟨currentSection, -, rfl⟩ := Option.map_eq_some_iff.mp h
    exact .inl ⟨name, currentSection, rfl, rfl⟩
  case directiveDeclareLabel name =>
    exact .inr (.inl ⟨name, rfl, (Option.some.inj h).symm⟩)
  case directiveEqu name expression =>
    exact .inr (.inr (.inl ⟨name, expression, rfl, (Option.some.inj h).symm⟩))
  all_goals exact .inr (.inr (.inr (hatom rfl h)))

/-- After the statements `done`, the first atom having got the id `n`. -/
structure ParseInv (n : Nat) (done : List Instr) (s : ParseState) : Prop where
  next : s.nextAtomId = n + s.dataUnits.length
  ids : ∀ k atom, s.dataUnits[k]? = some atom → atom.id = n + k
  units : List.Forall₂ (fun instr atom => ∃ currentSection,
    dataUnitOf currentSection instr = some atom.unit) (done.filter makesAtom) s.dataUnits
  labels : ∀ name k, Declares done name k ↔
    (∃ atom, s.dataUnits[k]? = some atom ∧ ⟨name, atom⟩ ∈ s.labels) ∨
      (name ∈ s.labelsAwaitingAtom ∧ k = s.dataUnits.length)
  attached : ∀ label ∈ s.labels, ∃ k : Nat, s.dataUnits[k]? = some label.dataUnit

theorem ParseInv.countP (h : ParseInv n done s) : done.countP makesAtom = s.dataUnits.length := by
  rw [List.countP_eq_length_filter]
  exact h.units.length_eq

theorem ParseInv.init (n : Nat) : ParseInv n [] (ParseState.init n) := by
  refine ⟨rfl, ?_, .nil, ?_, ?_⟩
  · exact fun k atom h => absurd h (by simp [ParseState.init])
  · exact fun name k => by simp [Declares, ParseState.init]
  · exact fun label h => absurd h List.not_mem_nil

/-- A statement that makes no atom and declares nothing. -/
theorem ParseInv.other (h : ParseInv n done s) (hmakes : makesAtom instr = false)
    (hdeclares : ∀ name, instr ≠ .directiveDeclareLabel name) (hnext : t.nextAtomId = s.nextAtomId)
    (hunits : t.dataUnits = s.dataUnits) (hlabels : t.labels = s.labels)
    (hawaiting : t.labelsAwaitingAtom = s.labelsAwaitingAtom) : ParseInv n (done ++ [instr]) t := by
  refine ⟨?_, ?_, ?_, ?_, ?_⟩
  · rw [hnext, hunits, h.next]
  · rw [hunits]
    exact h.ids
  · rw [hunits, List.filter_append, List.filter_singleton, hmakes]
    simpa using h.units
  · intro name k
    rw [declares_append, h.labels name k, hunits, hlabels, hawaiting]
    simp [hdeclares name]
  · rw [hunits, hlabels]
    exact h.attached

theorem ParseInv.declare (h : ParseInv n done s) (name : String) :
    ParseInv n (done ++ [.directiveDeclareLabel name])
      { s with labelsAwaitingAtom := s.labelsAwaitingAtom ++ [name] } := by
  refine ⟨h.next, h.ids, ?_, ?_, h.attached⟩
  · simpa [makesAtom] using h.units
  · intro name' k
    rw [declares_append, h.labels name' k, h.countP, List.mem_append, List.mem_singleton,
      Instr.directiveDeclareLabel.injEq]
    constructor
    · rintro ((hlabel | ⟨hname, hk⟩) | ⟨hname, hk⟩)
      · exact .inl hlabel
      · exact .inr ⟨.inl hname, hk⟩
      · exact .inr ⟨.inr hname.symm, hk.symm⟩
    · rintro (hlabel | ⟨hname | hname, hk⟩)
      · exact .inl (.inl hlabel)
      · exact .inl (.inr ⟨hname, hk⟩)
      · exact .inr ⟨hname.symm, hk.symm⟩

theorem ParseInv.append {unit : DataUnit} (h : ParseInv n done s) (hmakes : makesAtom instr = true)
    (hunit : dataUnitOf s.currentSection instr = some unit) :
    ParseInv n (done ++ [instr]) (s.appendDataUnit unit) := by
  have hlast : (s.dataUnits ++ [⟨s.nextAtomId, unit⟩])[s.dataUnits.length]? =
      some ⟨s.nextAtomId, unit⟩ := by simp
  have hold : ∀ {k : Nat} {atom : Atom}, s.dataUnits[k]? = some atom →
      (s.dataUnits ++ [⟨s.nextAtomId, unit⟩])[k]? = some atom := by
    intro k atom hk
    rwa [List.getElem?_append_left (List.getElem?_eq_some_iff.mp hk).1]
  have hget : ∀ {k : Nat} {atom : Atom}, (s.dataUnits ++ [⟨s.nextAtomId, unit⟩])[k]? = some atom →
      s.dataUnits[k]? = some atom ∨ (k = s.dataUnits.length ∧ atom = ⟨s.nextAtomId, unit⟩) := by
    intro k atom hk
    rcases Nat.lt_or_ge k s.dataUnits.length with hlt | hge
    · exact .inl (by rwa [List.getElem?_append_left hlt] at hk)
    · rw [List.getElem?_append_right hge, List.getElem?_singleton] at hk
      split at hk
      · exact .inr ⟨by omega, (Option.some.inj hk).symm⟩
      · cases hk
  refine ⟨?_, ?_, ?_, ?_, ?_⟩
  · show s.nextAtomId + 1 = n + (s.dataUnits ++ [_]).length
    rw [List.length_append, h.next]
    rfl
  · intro k atom hk
    rcases hget hk with hk | ⟨rfl, rfl⟩
    · exact h.ids k atom hk
    · exact h.next
  · rw [List.filter_append, List.filter_singleton, hmakes]
    exact List.rel_append h.units (.cons ⟨_, hunit⟩ .nil)
  · intro name k
    have hnot : instr ≠ .directiveDeclareLabel name := by
      rintro rfl
      cases hmakes
    rw [declares_append, h.labels name k]
    show _ ↔ (∃ atom, (s.dataUnits ++ [⟨s.nextAtomId, unit⟩])[k]? = some atom ∧ ⟨name, atom⟩ ∈
      s.labels ++ s.labelsAwaitingAtom.map fun name => ⟨name, ⟨s.nextAtomId, unit⟩⟩) ∨
        (name ∈ [] ∧ _)
    constructor
    · rintro ((⟨atom, hatom, hlabel⟩ | ⟨hname, rfl⟩) | ⟨heq, -⟩)
      · exact .inl ⟨atom, hold hatom, List.mem_append_left _ hlabel⟩
      · refine .inl ⟨_, hlast, List.mem_append_right _ ?_⟩
        exact List.mem_map_of_mem hname
      · exact absurd heq hnot
    · rintro (⟨atom, hatom, hlabel⟩ | ⟨hname, -⟩)
      · rcases List.mem_append.mp hlabel with hlabel | hlabel
        · -- an old label is attached to an old atom
          obtain ⟨k', hk'⟩ := h.attached _ hlabel
          have hid : n + k' = n + k := by
            rw [← h.ids k' _ hk']
            rcases hget hatom with hk | ⟨rfl, rfl⟩
            · exact h.ids k _ hk
            · exact h.next
          obtain rfl : k' = k := by omega
          exact .inl (.inl ⟨atom, hk', hlabel⟩)
        · obtain ⟨name', hname', heq⟩ := List.mem_map.mp hlabel
          obtain ⟨rfl, rfl⟩ : name' = name ∧ _ = atom := by simpa using heq
          rcases hget hatom with hk | ⟨rfl, -⟩
          · have hlt := (List.getElem?_eq_some_iff.mp hk).1
            have hid := h.ids k _ hk
            have hnext := h.next
            dsimp only at hid
            omega
          · exact .inl (.inr ⟨hname', rfl⟩)
      · cases hname
  · intro label hlabel
    rcases List.mem_append.mp hlabel with hlabel | hlabel
    · obtain ⟨k, hk⟩ := h.attached label hlabel
      exact ⟨k, hold hk⟩
    · obtain ⟨name, -, rfl⟩ := List.mem_map.mp hlabel
      exact ⟨_, hlast⟩

theorem ParseInv.step {n : Nat} {done : List Instr} {s t : ParseState} {instr : Instr}
    (h : ParseInv n done s) (hstep : s.step instr = some t) : ParseInv n (done ++ [instr]) t := by
  rcases ParseState.step_cases hstep with ⟨name, currentSection, rfl, rfl⟩ | ⟨name, rfl, rfl⟩ |
    ⟨name, expression, rfl, rfl⟩ | ⟨hmakes, unit, hunit, rfl⟩
  · exact h.other rfl (fun _ => by simp) rfl rfl rfl rfl
  · exact h.declare name
  · exact h.other rfl (fun _ => by simp) rfl rfl rfl rfl
  · exact h.append hmakes hunit

theorem ParseInv.run {n : Nat} : ∀ {rest done : List Instr} {s t : ParseState},
    ParseInv n done s → rest.foldlM ParseState.step s = some t → ParseInv n (done ++ rest) t := by
  intro rest
  induction rest with
  | nil =>
    intro done s t h hrun
    obtain rfl : s = t := Option.some.inj hrun
    rwa [List.append_nil]
  | cons instr rest ih =>
    intro done s t h hrun
    obtain ⟨u, hstep, hrest⟩ := Option.bind_eq_some_iff.mp hrun
    have := ih (h.step hstep) hrest
    rwa [List.append_assoc] at this

/-- What `parse` returns. -/
structure Parsed (n : Nat) (instructions : List Instr) (c : MainContents) : Prop where
  ids : ∀ k atom, c.atoms[k]? = some atom → atom.id = n + k
  units : List.Forall₂ (fun instr atom => ∃ currentSection,
    dataUnitOf currentSection instr = some atom.unit) (instructions.filter makesAtom) c.atoms
  labels : ∀ name k, (∃ atom, c.atoms[k]? = some atom ∧ ⟨name, atom⟩ ∈ c.labels) ↔
    Declares instructions name k ∧ k < c.atoms.length
  attached : ∀ label ∈ c.labels, ∃ k : Nat, c.atoms[k]? = some label.dataUnit

theorem parse_spec {c : MainContents} (h : parse n instructions = some c) :
    Parsed n instructions c := by
  obtain ⟨s, hrun, rfl⟩ := Option.map_eq_some_iff.mp h
  have hinv := (ParseInv.init n).run hrun
  rw [List.nil_append] at hinv
  refine ⟨hinv.ids, hinv.units, fun name k => ?_, hinv.attached⟩
  show (∃ atom, s.dataUnits[k]? = some atom ∧ ⟨name, atom⟩ ∈ s.labels) ↔ _ ∧ k < s.dataUnits.length
  rw [hinv.labels name k]
  constructor
  · rintro ⟨atom, hatom, hlabel⟩
    exact ⟨.inl ⟨atom, hatom, hlabel⟩, (List.getElem?_eq_some_iff.mp hatom).1⟩
  · rintro ⟨hlabel | ⟨-, rfl⟩, hlt⟩
    · exact hlabel
    · omega

/-! ### What is rendered -/

section Rendered

variable {n k : Nat} {instructions : List Instr} {c : MainContents} {atom : Atom}
  {pieces : List (List (BitVec 8))} {piece : List (BitVec 8)}

/-- Every atom is rendered to as many bytes as it claims to have. -/
theorem render_forall₂ (h : c.render = some pieces) : List.Forall₂ (fun atom piece =>
    atom.render c = some piece ∧ atom.unit.len = some piece.length) c.atoms pieces := by
  refine (forall₂_of_mapM h).imp fun atom piece hpiece => ?_
  obtain ⟨rendered, hrendered, hpiece⟩ := Option.bind_eq_some_iff.mp hpiece
  obtain ⟨len, hlen, hpiece⟩ := Option.bind_eq_some_iff.mp hpiece
  obtain ⟨heq, hpiece⟩ := Option.ite_none_right_eq_some.mp hpiece
  obtain rfl : rendered = piece := Option.some.inj hpiece
  exact ⟨hrendered, by rw [hlen, heq]⟩

/-- Pieces with the lengths that the atoms claim to have. -/
def Sized (c : MainContents) (pieces : List (List (BitVec 8))) : Prop :=
  List.Forall₂ (fun atom piece => atom.unit.len = some piece.length) c.atoms pieces

theorem sized_of_render (h : c.render = some pieces) : Sized c pieces :=
  (render_forall₂ h).imp fun _ _ h => h.2

/-- The walk over the atoms ends at the first that is looked for, where its bytes begin. -/
theorem offsetOf_eq {found : Atom → Bool} : ∀ {atoms : List Atom} {pieces : List (List (BitVec 8))}
    {k : Nat} {atom : Atom}, List.Forall₂ (fun atom piece => atom.unit.len = some piece.length)
      atoms pieces → atoms[k]? = some atom → found atom = true →
      (∀ j a, j < k → atoms[j]? = some a → found a = false) →
      MainContents.offsetOf found atoms = some (start pieces k) := by
  intro atoms
  induction atoms with
  | nil => exact fun _ h => absurd h (by simp)
  | cons first atoms ih =>
    intro pieces k atom hlens hk hfound hbefore
    cases hlens with
    | cons hlen hlens =>
      cases k with
      | zero =>
        obtain rfl : first = atom := by simpa using hk
        rw [MainContents.offsetOf, if_pos hfound, start_zero]
      | succ k =>
        have hfirst : found first = false := hbefore 0 first k.succ_pos rfl
        have hrest := ih hlens (by simpa using hk) hfound fun j a hj ha =>
          hbefore (j + 1) a (Nat.succ_lt_succ hj) (by simpa using ha)
        rw [MainContents.offsetOf, hfirst, hlen, hrest, start_cons_succ]
        rfl

theorem Parsed.offsetOfAtomId (hp : Parsed n instructions c) (hs : Sized c pieces)
    (hk : c.atoms[k]? = some atom) : c.offsetOfAtomId atom.id = some (start pieces k) := by
  refine offsetOf_eq hs hk (decide_eq_true rfl) ?_
  intro j a hj ha
  rw [decide_eq_false_iff_not, hp.ids j a ha, hp.ids k atom hk]
  omega

variable {name : String}

section

variable (hp : Parsed n instructions c)

include hp

theorem Parsed.offsetOfLabelName (hs : Sized c pieces) {offset : Nat}
    (h : c.offsetOfLabelName name = some offset) :
    ∃ l, Declares instructions name l ∧ l < c.atoms.length ∧ offset = start pieces l := by
  obtain ⟨label, hfind, hoffset⟩ := Option.bind_eq_some_iff.mp h
  have hmem := List.mem_of_find?_eq_some hfind
  have hname := List.find?_some hfind
  obtain ⟨l, hl⟩ := hp.attached label hmem
  obtain rfl := of_decide_eq_true hname
  obtain ⟨hdeclares, hlt⟩ := (hp.labels label.name l).mp ⟨label.dataUnit, hl, hmem⟩
  refine ⟨l, hdeclares, hlt, ?_⟩
  exact Option.some.inj (hoffset.symm.trans (hp.offsetOfAtomId hs hl))

theorem Parsed.offsetOfLabelName_isSome (hs : Sized c pieces) (h : ⟨name, atom⟩ ∈ c.labels) :
    (c.offsetOfLabelName name).isSome := by
  cases hfind : c.labels.find? fun label => label.name = name with
  | none =>
    have hnot := List.find?_eq_none.mp hfind _ h
    exact absurd (decide_eq_true rfl) hnot
  | some label =>
    obtain ⟨l, hl⟩ := hp.attached label (List.mem_of_find?_eq_some hfind)
    have hoffset : c.offsetOfLabel label = some (start pieces l) := hp.offsetOfAtomId hs hl
    rw [MainContents.offsetOfLabelName, hfind]
    show (c.offsetOfLabel label).isSome = true
    rw [hoffset]
    rfl

theorem Parsed.distanceToTarget (hs : Sized c pieces) (hk : c.atoms[k]? = some atom)
    (hlen : atom.unit.len = some piece.length) {target : String} {distance : Int}
    (h : c.distanceToTarget atom target = some distance) :
    (-2 ^ 31 ≤ distance ∧ distance < 2 ^ 31) ∧ ∃ l, Declares instructions target l ∧
      l < c.atoms.length ∧ distance = start pieces l - start pieces k - piece.length := by
  obtain ⟨offset, hoffset, h⟩ := Option.bind_eq_some_iff.mp h
  obtain ⟨offsetOfAtom, hatom, h⟩ := Option.bind_eq_some_iff.mp h
  obtain ⟨len, hlen', h⟩ := Option.bind_eq_some_iff.mp h
  obtain ⟨hrange, h⟩ := Option.ite_none_right_eq_some.mp h
  obtain rfl := Option.some.inj h
  obtain ⟨l, hdeclares, hlt, rfl⟩ := hp.offsetOfLabelName hs hoffset
  rw [hp.offsetOfAtomId hs hk] at hatom
  rw [hlen] at hlen'
  cases hatom
  cases hlen'
  exact ⟨hrange, l, hdeclares, hlt, rfl⟩

end

/-! ### Displacements -/

theorem setWidth_ofInt_32 (d : Int) : (BitVec.ofInt 64 d).setWidth 32 = BitVec.ofInt 32 d := by
  apply BitVec.eq_of_toNat_eq
  rw [BitVec.toNat_setWidth, BitVec.toNat_ofInt, BitVec.toNat_ofInt]
  omega

theorem setWidth_ofInt_8 (d : Int) : (BitVec.ofInt 64 d).setWidth 8 = BitVec.ofInt 8 d := by
  apply BitVec.eq_of_toNat_eq
  rw [BitVec.toNat_setWidth, BitVec.toNat_ofInt, BitVec.toNat_ofInt]
  omega

/-- What is left of a distance in the field it is written to. -/
def encodedDistance : DataUnit → Int → Int
  | .jumpToLabelIfNotEqual _, d => d.bmod (2 ^ 8)
  | _, d => d

variable {file rest : List (BitVec 8)} {pc : Nat} {d : Int}

theorem jumpTarget_render (hrange : -2 ^ 31 ≤ d ∧ d < 2 ^ 31) {target : String}
    (htarget : atom.unit.target = some target) (hd : c.distanceToTarget atom target = some d)
    (hrender : atom.render c = some piece) (hfile : file.drop pc = piece ++ rest) :
    jumpTarget file pc = some (pc + piece.length + encodedDistance atom.unit d) := by
  have hsigned : (BitVec.ofInt 32 d).toInt = d :=
    BitVec.toInt_ofInt_eq_self (by decide) hrange.1 hrange.2
  obtain ⟨b0, b1, b2, b3, hbytes, hvalue⟩ := fromNeBytes_toNeBytes (BitVec.ofInt 32 d)
  rw [Atom.render] at hrender
  cases hunit : atom.unit with
  | jump t =>
    obtain rfl : t = target := by simpa [DataUnit.target, hunit] using htarget
    rw [hunit] at hrender
    dsimp only at hrender
    rw [hd] at hrender
    obtain rfl : 0xe9 :: toNeBytes (BitVec.ofInt 32 d) = piece := Option.some.inj hrender
    rw [hbytes] at hfile ⊢
    rw [jumpTarget, hfile]
    show some ((pc : Int) + 5 + (fromNeBytes b0 b1 b2 b3).toInt) = some ((pc : Int) + 5 + d)
    rw [hvalue, hsigned]
  | jumpToLabelIfEqual t =>
    obtain rfl : t = target := by simpa [DataUnit.target, hunit] using htarget
    rw [hunit] at hrender
    dsimp only at hrender
    rw [hd] at hrender
    obtain rfl : 0x0f :: 0x84 :: toNeBytes ((BitVec.ofInt 64 d).setWidth 32) = piece :=
      Option.some.inj hrender
    rw [setWidth_ofInt_32, hbytes] at hfile ⊢
    rw [jumpTarget, hfile]
    show some ((pc : Int) + 6 + (fromNeBytes b0 b1 b2 b3).toInt) = some ((pc : Int) + 6 + d)
    rw [hvalue, hsigned]
  | jumpToLabelIfNotEqual t =>
    obtain rfl : t = target := by simpa [DataUnit.target, hunit] using htarget
    rw [hunit] at hrender
    dsimp only at hrender
    rw [hd] at hrender
    obtain ⟨-, hrender⟩ := Option.ite_none_right_eq_some.mp hrender
    obtain rfl : [0x75, (BitVec.ofInt 64 d).setWidth 8] = piece := Option.some.inj hrender
    rw [jumpTarget, hfile]
    show some ((pc : Int) + 2 + ((BitVec.ofInt 64 d).setWidth 8).toInt) = some ((pc : Int) + 2 + _)
    rw [setWidth_ofInt_8, BitVec.toInt_ofInt]
    rfl
  | _ => simp [DataUnit.target, hunit] at htarget

theorem exists_distance {target : String} (htarget : atom.unit.target = some target)
    (hrender : atom.render c = some piece) : ∃ d, c.distanceToTarget atom target = some d := by
  rw [Atom.render] at hrender
  cases hunit : atom.unit with
  | jump t =>
    obtain rfl : t = target := by simpa [DataUnit.target, hunit] using htarget
    rw [hunit] at hrender
    obtain ⟨d, hd, -⟩ := Option.bind_eq_some_iff.mp hrender
    exact ⟨d, hd⟩
  | jumpToLabelIfEqual t =>
    obtain rfl : t = target := by simpa [DataUnit.target, hunit] using htarget
    rw [hunit] at hrender
    obtain ⟨d, hd, -⟩ := Option.bind_eq_some_iff.mp hrender
    exact ⟨d, hd⟩
  | jumpToLabelIfNotEqual t =>
    obtain rfl : t = target := by simpa [DataUnit.target, hunit] using htarget
    rw [hunit] at hrender
    obtain ⟨d, hd, -⟩ := Option.bind_eq_some_iff.mp hrender
    exact ⟨d, hd⟩
  | _ => simp [DataUnit.target, hunit] at htarget

end Rendered

/-! ### Statements and atoms -/

section Statements

variable {n i k : Nat} {instructions : List Instr} {instr : Instr} {c : MainContents}
  {unit : DataUnit} {currentSection : BinarySection} {pieces : List (List (BitVec 8))}
  {target : String}

theorem dataUnitOf_cases (h : dataUnitOf currentSection instr = some unit) :
    (∃ text bytes, instr = .directiveEmbedAscii text ∧ bytesWithNul text = some bytes ∧
      unit = .constantData currentSection bytes) ∨
    (∃ immediate, instr = .directiveEmbedU32 immediate ∧
      unit = .constantData currentSection (toNeBytes immediate)) ∨
    (∃ vector, instr = .interrupt vector ∧ unit = .interrupt vector) ∨
    (∃ target, instr = .jumpToLabel target ∧ unit = .jump target) ∨
    (∃ target, instr = .jumpToLabelIfEqual target ∧ unit = .jumpToLabelIfEqual target) ∨
    (∃ target, instr = .jumpToLabelIfNotEqual target ∧ unit = .jumpToLabelIfNotEqual target) ∨
    (jumpLabel instr = none ∧ dataUnitOf .text instr = some unit ∧ unit = .instrDataUnit instr) := by
  cases instr
  case directiveEmbedAscii text =>
    obtain ⟨bytes, hbytes, rfl⟩ := Option.map_eq_some_iff.mp h
    exact .inl ⟨text, bytes, rfl, hbytes, rfl⟩
  case directiveEmbedU32 immediate => exact .inr (.inl ⟨immediate, rfl, (Option.some.inj h).symm⟩)
  case interrupt vector => exact .inr (.inr (.inl ⟨vector, rfl, (Option.some.inj h).symm⟩))
  case jumpToLabel target =>
    exact .inr (.inr (.inr (.inl ⟨target, rfl, (Option.some.inj h).symm⟩)))
  case jumpToLabelIfEqual target =>
    exact .inr (.inr (.inr (.inr (.inl ⟨target, rfl, (Option.some.inj h).symm⟩))))
  case jumpToLabelIfNotEqual target =>
    exact .inr (.inr (.inr (.inr (.inr (.inl ⟨target, rfl, (Option.some.inj h).symm⟩)))))
  all_goals
    first
      | exact .inr (.inr (.inr (.inr (.inr (.inr ⟨rfl, h, (Option.some.inj h).symm⟩)))))
      | cases h

theorem dataUnitOf_target (h : dataUnitOf currentSection instr = some unit) :
    unit.target = jumpLabel instr := by
  rcases dataUnitOf_cases h with ⟨_, _, rfl, -, rfl⟩ | ⟨_, rfl, rfl⟩ | ⟨_, rfl, rfl⟩ |
    ⟨_, rfl, rfl⟩ | ⟨_, rfl, rfl⟩ | ⟨_, rfl, rfl⟩ | ⟨hnone, -, rfl⟩
  · rfl
  · rfl
  · rfl
  · rfl
  · rfl
  · rfl
  · exact hnone.symm

theorem dataUnitOf_jne (h : dataUnitOf currentSection instr = some (.jumpToLabelIfNotEqual target)) :
    instr = .jumpToLabelIfNotEqual target := by
  rcases dataUnitOf_cases h with ⟨_, _, -, -, heq⟩ | ⟨_, -, heq⟩ | ⟨_, -, heq⟩ | ⟨_, -, heq⟩ |
    ⟨_, -, heq⟩ | ⟨target', rfl, heq⟩ | ⟨-, -, heq⟩
  case inr.inr.inr.inr.inr.inl =>
    cases heq
    rfl
  all_goals cases heq

variable {len : Nat}

/-- An atom has the size of its statement, whatever section it is in. -/
theorem atomSize_eq (h : dataUnitOf currentSection instr = some unit) (hlen : unit.len = some len) :
    atomSize instr = len := by
  have hsame : (dataUnitOf .text instr).bind DataUnit.len = some len := by
    rcases dataUnitOf_cases h with ⟨_, bytes, rfl, hbytes, rfl⟩ | ⟨_, rfl, rfl⟩ | ⟨_, rfl, rfl⟩ |
      ⟨_, rfl, rfl⟩ | ⟨_, rfl, rfl⟩ | ⟨_, rfl, rfl⟩ | ⟨-, htext, -⟩
    · show ((bytesWithNul _).map _).bind DataUnit.len = some len
      rw [hbytes]
      exact hlen
    · exact hlen
    · exact hlen
    · exact hlen
    · exact hlen
    · exact hlen
    · rw [htext]
      exact hlen
  rw [atomSize, hsame]
  rfl

theorem assembledLen_pos (h : instr.assembledLen = some len) : 0 < len := by
  cases instr
  case moveImmToReg imm dest =>
    obtain ⟨reg, accessType⟩ := dest
    cases accessType <;> cases h <;> decide
  all_goals
    cases h
    try decide

theorem len_pos (h : dataUnitOf currentSection instr = some unit) (hlen : unit.len = some len) :
    0 < len := by
  rcases dataUnitOf_cases h with ⟨text, bytes, -, hbytes, rfl⟩ | ⟨_, -, rfl⟩ | ⟨_, -, rfl⟩ |
    ⟨_, -, rfl⟩ | ⟨_, -, rfl⟩ | ⟨_, -, rfl⟩ | ⟨-, -, rfl⟩
  · obtain ⟨-, hbytes⟩ := Option.ite_none_left_eq_some.mp hbytes
    obtain rfl := Option.some.inj hbytes
    obtain rfl := Option.some.inj hlen
    rw [List.length_append]
    exact Nat.succ_pos _
  · exact Option.some.inj hlen ▸ Nat.succ_pos 3
  · exact Option.some.inj hlen ▸ Nat.succ_pos 1
  · exact Option.some.inj hlen ▸ Nat.succ_pos 4
  · exact Option.some.inj hlen ▸ Nat.succ_pos 5
  · exact Option.some.inj hlen ▸ Nat.succ_pos 1
  · exact assembledLen_pos hlen

theorem makesAtom_of_jumpLabel (h : jumpLabel instr = some target) : makesAtom instr = true := by
  cases instr <;> first | rfl | cases h

theorem Parsed.atom_of_statement (hp : Parsed n instructions c) (hi : instructions[i]? = some instr)
    (hmakes : makesAtom instr = true) :
    ∃ atom currentSection, c.atoms[atomsBefore instructions i]? = some atom ∧
      dataUnitOf currentSection instr = some atom.unit := by
  have hkept : (instructions.filter makesAtom)[atomsBefore instructions i]? = some instr :=
    getElem?_filter hi hmakes
  obtain ⟨hlt, hget⟩ := List.getElem?_eq_some_iff.mp hkept
  have hatom : atomsBefore instructions i < c.atoms.length := hp.units.length_eq ▸ hlt
  obtain ⟨currentSection, hunit⟩ := (List.forall₂_iff_get.mp hp.units).2 _ hlt hatom
  refine ⟨_, currentSection, List.getElem?_eq_getElem hatom, ?_⟩
  rw [← hget]
  exact hunit

theorem Parsed.statement_of_atom (hp : Parsed n instructions c) {atom : Atom}
    (hk : c.atoms[k]? = some atom) :
    ∃ i instr currentSection, instructions[i]? = some instr ∧ atomsBefore instructions i = k ∧
      dataUnitOf currentSection instr = some atom.unit := by
  obtain ⟨hlt, hget⟩ := List.getElem?_eq_some_iff.mp hk
  have hlt' : k < (instructions.filter makesAtom).length := hp.units.length_eq ▸ hlt
  obtain ⟨currentSection, hunit⟩ := (List.forall₂_iff_get.mp hp.units).2 k hlt' hlt
  obtain ⟨i, hi, hcount⟩ := exists_of_getElem?_filter (List.getElem?_eq_getElem hlt')
  exact ⟨i, _, currentSection, hi, hcount, by rw [← hget]; exact hunit⟩

/-- The bytes of the atoms that a list of statements makes. -/
theorem start_countP : ∀ {instructions : List Instr} {pieces : List (List (BitVec 8))},
    List.Forall₂ (fun instr piece => atomSize instr = piece.length)
      (instructions.filter makesAtom) pieces →
    ∀ i, start pieces ((instructions.take i).countP makesAtom) = codeSize (instructions.take i) := by
  intro instructions
  induction instructions with
  | nil =>
    simp [codeSize]
  | cons instr instructions ih =>
    intro pieces h i
    cases i with
    | zero => simp [codeSize]
    | succ i =>
      rw [List.filter_cons] at h
      rw [List.take_succ_cons, List.countP_cons]
      have hsum : codeSize (instr :: instructions.take i) =
          atomSize instr + codeSize (instructions.take i) := by
        rfl
      rw [hsum]
      split at h
      · rename_i hmakes
        cases h with
        | cons hsize h =>
          rw [if_pos hmakes, start_cons_succ, ih h, hsize]
      · rename_i hmakes
        -- the other statements have no bytes
        have hzero : atomSize instr = 0 := by
          cases instr <;> first | rfl | exact absurd rfl hmakes
        rw [if_neg hmakes, Nat.add_zero, ih h, hzero, Nat.zero_add]

section

variable (hp : Parsed n instructions c)

include hp

theorem Parsed.sizes (hs : Sized c pieces) :
    List.Forall₂ (fun instr piece => atomSize instr = piece.length)
      (instructions.filter makesAtom) pieces := by
  refine List.forall₂_iff_get.mpr ⟨hp.units.length_eq.trans hs.length_eq, fun k hk hk' => ?_⟩
  have hatom : k < c.atoms.length := hp.units.length_eq ▸ hk
  obtain ⟨currentSection, hunit⟩ := (List.forall₂_iff_get.mp hp.units).2 k hk hatom
  exact atomSize_eq hunit ((List.forall₂_iff_get.mp hs).2 k hatom hk')

theorem Parsed.start_atomsBefore (hs : Sized c pieces) (i : Nat) :
    start pieces (atomsBefore instructions i) = codeSize (instructions.take i) :=
  start_countP (hp.sizes hs) i

theorem Parsed.nonempty (hs : Sized c pieces) : ∀ piece ∈ pieces, piece ≠ [] := by
  intro piece hmem
  obtain ⟨k, hk, rfl⟩ := List.mem_iff_getElem.mp hmem
  have hatom : k < c.atoms.length := hs.length_eq ▸ hk
  have hlen := (List.forall₂_iff_get.mp hs).2 k hatom hk
  obtain ⟨i, instr, currentSection, -, -, hunit⟩ :=
    hp.statement_of_atom (List.getElem?_eq_getElem hatom)
  exact List.length_pos_iff.mp (len_pos hunit hlen)

end

end Statements

/-! ### The law -/

section Law

variable {checks : Bool} {virtualBase : BitVec 64} {n : Nat} {source : List Char}
  {instructions : List Instr} {c : MainContents} {elf : RenderedElf}

theorem renderElf_atoms (h : renderElf checks virtualBase c = some elf) :
    c.render = some elf.atoms := by
  obtain ⟨layout, hlayout, h⟩ := Option.bind_eq_some_iff.mp h
  obtain ⟨headerNames, -, hlayout⟩ := Option.bind_eq_some_iff.mp hlayout
  obtain ⟨strings, -, hlayout⟩ := Option.bind_eq_some_iff.mp hlayout
  obtain ⟨headers, -, h⟩ := Option.bind_eq_some_iff.mp h
  obtain ⟨atoms, hatoms, h⟩ := Option.bind_eq_some_iff.mp h
  obtain ⟨-, h⟩ := Option.ite_none_right_eq_some.mp h
  obtain rfl := Option.some.inj h
  obtain rfl := Option.some.inj hlayout
  exact hatoms

/-- Where a jump of the file leads: to the atom behind a declaration of its label, up to what is
lost of the distance. -/
theorem jump_lands (hp : Parsed n instructions c) (hr : c.render = some elf.atoms) {k : Nat}
    {atom : Atom} {target : String} (hk : c.atoms[k]? = some atom)
    (htarget : atom.unit.target = some target) :
    ∃ len l, atom.unit.len = some len ∧ Declares instructions target l ∧
      jumpTarget elf.bytes (elf.startOfAtom k) = some (elf.startOfAtom k + len +
        encodedDistance atom.unit (start elf.atoms l - start elf.atoms k - len)) := by
  have hlens := render_forall₂ hr
  obtain ⟨hlt, hget⟩ := List.getElem?_eq_some_iff.mp hk
  have hlt' : k < elf.atoms.length := hlens.length_eq ▸ hlt
  obtain ⟨hrender, hlen⟩ := (List.forall₂_iff_get.mp hlens).2 k hlt hlt'
  rw [List.get_eq_getElem, hget] at hrender hlen
  obtain ⟨d, hd⟩ := exists_distance htarget hrender
  obtain ⟨hrange, l, hdeclares, -, rfl⟩ := hp.distanceToTarget (sized_of_render hr) hk hlen hd
  refine ⟨_, l, hlen, hdeclares, ?_⟩
  exact jumpTarget_render hrange htarget hd hrender
    (drop_start (List.getElem?_eq_getElem hlt') elf.headers.flatten)

theorem encodedDistance_range (d : Int) (target : String) :
    -128 ≤ encodedDistance (.jumpToLabelIfNotEqual target) d ∧
      encodedDistance (.jumpToLabelIfNotEqual target) d < 128 := by
  have hlow := Int.le_bmod (x := d) (m := 2 ^ 8) (by decide)
  have hhigh := Int.bmod_lt (x := d) (m := 2 ^ 8) (by decide)
  rw [encodedDistance]
  omega

/-- **Jumps land on their labels.**  In the file made of a source, every declared label resolves
and every jump leads to the atom behind the declaration of its label, exactly when an atom follows
every declaration, every `jne` is within a signed byte of its label and every label that is jumped
to is declared in one place. -/
theorem jumps_land_iff (checks : Bool) (virtualBase : BitVec 64) (nextAtomId : Nat)
    (source : List Char) (instructions : List Instr) (c : MainContents) (elf : RenderedElf)
    (h : Linked checks virtualBase nextAtomId source instructions c elf) :
    JumpLaw instructions c elf ↔ JumpsOk instructions := by
  have hp := parse_spec h.parses
  have hr := renderElf_atoms h.renders
  have hs := sized_of_render hr
  have hne := hp.nonempty hs
  have hcount : instructions.countP makesAtom = c.atoms.length := by
    rw [List.countP_eq_length_filter]
    exact hp.units.length_eq
  have hpieces : c.atoms.length = elf.atoms.length := (render_forall₂ hr).length_eq
  have hstart : ∀ k, (elf.startOfAtom k : Int) =
      elf.headers.flatten.length + start elf.atoms k := fun k => by
    rfl
  constructor
  · intro hlaw
    have hfollowed : ∀ name k, Declares instructions name k → k < c.atoms.length := by
      intro name k hdeclares
      obtain ⟨-, atom, hatom, -⟩ := hlaw.resolve name k hdeclares
      exact (List.getElem?_eq_some_iff.mp hatom).1
    refine ⟨fun name k hdeclares => hcount ▸ hfollowed name k hdeclares, ?_, ?_⟩
    · -- the displacement of a `jne` is a signed byte
      intro i j target hi hj
      obtain ⟨atom, currentSection, hatom, hunit⟩ := hp.atom_of_statement hi rfl
      obtain hunit : DataUnit.jumpToLabelIfNotEqual target = atom.unit := Option.some.inj hunit
      have htarget : atom.unit.target = some target := by
        rw [← hunit]
        rfl
      obtain ⟨len, l, hlen, -, hlands⟩ := jump_lands hp hr hatom htarget
      rw [hlaw.land _ atom target _ hatom htarget ⟨j, hj, rfl⟩] at hlands
      obtain rfl : 2 = len := by
        rw [← hunit] at hlen
        exact Option.some.inj hlen
      rw [← hunit, Option.some.injEq, hstart, hstart, hp.start_atomsBefore hs,
        hp.start_atomsBefore hs] at hlands
      obtain ⟨hlow, hhigh⟩ := encodedDistance_range
        (start elf.atoms l - codeSize (instructions.take i) - (2 : Nat)) target
      have hsize : codeSize (instructions.take (i + 1)) = codeSize (instructions.take i) + 2 := by
        rw [List.take_add_one, hi, codeSize, List.map_append, List.sum_append]
        rfl
      omega
    · intro target k l hjump hk hl
      obtain ⟨instr, hmem, hlabel⟩ := hjump
      obtain ⟨i, hi, rfl⟩ := List.mem_iff_getElem.mp hmem
      obtain ⟨atom, currentSection, hatom, hunit⟩ :=
        hp.atom_of_statement (List.getElem?_eq_getElem hi) (makesAtom_of_jumpLabel hlabel)
      have htarget : atom.unit.target = some target := (dataUnitOf_target hunit).trans hlabel
      have hlands := hlaw.land _ atom target k hatom htarget hk
      rw [hlaw.land _ atom target l hatom htarget hl, Option.some.injEq, hstart, hstart] at hlands
      have hsame : start elf.atoms k = start elf.atoms l := by omega
      exact start_eq_start hne (hpieces ▸ (hfollowed target k hk).le)
        (hpieces ▸ (hfollowed target l hl).le) hsame
  · intro hok
    refine ⟨?_, ?_⟩
    · intro name k hdeclares
      obtain ⟨atom, hatom, hlabel⟩ :=
        (hp.labels name k).mpr ⟨hdeclares, hcount ▸ hok.followed name k hdeclares⟩
      exact ⟨hp.offsetOfLabelName_isSome hs hlabel, atom, hatom, hlabel⟩
    · intro k atom target l hatom htarget hdeclares
      obtain ⟨len, l', hlen, hdeclares', hlands⟩ := jump_lands hp hr hatom htarget
      obtain ⟨i, instr, currentSection, hi, rfl, hunit⟩ := hp.statement_of_atom hatom
      have hlabel : jumpLabel instr = some target := (dataUnitOf_target hunit).symm.trans htarget
      obtain rfl : l' = l :=
        hok.once target l' l ⟨instr, List.mem_of_getElem? hi, hlabel⟩ hdeclares' hdeclares
      have hexact : encodedDistance atom.unit
          (start elf.atoms l' - start elf.atoms (atomsBefore instructions i) - len) =
            start elf.atoms l' - start elf.atoms (atomsBefore instructions i) - len := by
        cases hkind : atom.unit with
        | jumpToLabelIfNotEqual t =>
          rw [hkind] at htarget hlen hunit
          cases htarget
          obtain rfl := dataUnitOf_jne hunit
          obtain ⟨j, hj, rfl⟩ := hdeclares
          have hnear := hok.near i j target hi hj
          obtain rfl : 2 = len := Option.some.inj hlen
          have hsize : codeSize (instructions.take (i + 1)) =
              codeSize (instructions.take i) + 2 := by
            rw [List.take_add_one, hi, codeSize, List.map_append, List.sum_append]
            rfl
          rw [hp.start_atomsBefore hs, hp.start_atomsBefore hs, encodedDistance]
          exact Int.bmod_eq_of_le (by omega) (by omega)
        | _ => rfl
      rw [hlands, hexact, hstart, hstart]
      congr 1
      omega

end Law

/-- A loop with a jump out of it. -/
def loopSource : List Char := "start:\nje end\njne start\njmp start\nend:\nret\n".toList

def loopStatements : List Instr :=
  [.directiveDeclareLabel "start", .jumpToLabelIfEqual "end", .jumpToLabelIfNotEqual "start",
    .jumpToLabel "start", .directiveDeclareLabel "end", .return]

theorem jumps_land_loop :
    ∃ c elf, Linked true 0x400000 0 loopSource loopStatements c elf ∧
      (JumpLaw loopStatements c elf ↔ JumpsOk loopStatements) := by
  obtain ⟨c, hc⟩ := Option.isSome_iff_exists.mp
    (show (parse 0 loopStatements).isSome = true by decide +kernel)
  obtain ⟨elf, helf⟩ := Option.isSome_iff_exists.mp
    (show ((parse 0 loopStatements).bind (renderElf true 0x400000)).isSome = true by decide +kernel)
  rw [hc] at helf
  have hlinked : Linked true 0x400000 0 loopSource loopStatements c elf :=
    ⟨⟨20, by decide +kernel⟩, hc, helf⟩
  exact ⟨c, elf, hlinked, jumps_land_iff _ _ _ _ _ _ _ hlinked⟩

/-- **Dropped.**  The label at the end of the source is declared, and the file is made without it. -/
theorem label_at_the_end :
    ∃ c elf, Linked true 0x400000 0 "ret\nend:\n".toList [.return, .directiveDeclareLabel "end"] c
        elf ∧ ¬JumpLaw [.return, .directiveDeclareLabel "end"] c elf := by
  obtain ⟨elf, helf⟩ := Option.isSome_iff_exists.mp
    (show (renderElf true 0x400000 ⟨[], [], [⟨0, .instrDataUnit .return⟩]⟩).isSome = true by
      decide +kernel)
  refine ⟨_, elf, ⟨⟨10, by decide +kernel⟩, rfl, helf⟩, fun hlaw => ?_⟩
  obtain ⟨-, atom, hatom, -⟩ := hlaw.resolve "end" 1 ⟨1, rfl, rfl⟩
  cases hatom

end Axle.Linker
