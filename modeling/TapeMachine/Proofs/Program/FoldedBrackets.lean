import Mathlib.Tactic
import Mathlib.Data.Set.Function
import TapeMachine.Proofs.Program.Expansion

/-!
# Folding and the pairs of brackets

Folding moves the brackets of a program: each of them stands further to the front by what was merged
before it. The table of the folded program is computed from the folded list alone, and it is the
table of the program as written, with all positions moved in this way.

## Main definitions

* `TapeMachine.foldedPosition` — the position in a folded list of the instruction that stands for a
  symbol of the text.
* `TapeMachine.bracketsOf`, `TapeMachine.Program.brackets` — the positions of the brackets.
* `TapeMachine.Program.FoldsTo` — a program is another one with its positions moved.

## Main results

* `TapeMachine.foldedPosition_spec`, `TapeMachine.foldedPosition_sourcePosition_add` — the two
  position maps are inverse to each other, up to the length of a run.
* `TapeMachine.JumpTable.partner?_foldedPosition` — the partner of a moved bracket is the partner of
  the bracket, moved.
* `TapeMachine.Program.fold_commutes_with_matching` — the programs of a text, folded and as written.
-/

set_option autoImplicit false

namespace TapeMachine

/-! ## Positions -/

/-- The position in a list of the instruction that stands for position `p` of the text. All
positions past the end of the text are sent past the end of the list. -/
def foldedPosition : List Instruction → Nat → Nat
  | [], _ => 0
  | i :: is, p => if p < i.count then 0 else foldedPosition is (p - i.count) + 1

section Positions

variable {is : List Instruction} {i b : Instruction} {p q k : Nat}

/-- What stands further on in the text does not stand further in front in the list. -/
theorem monotone_foldedPosition (is : List Instruction) : Monotone (foldedPosition is) := by
  induction is with
  | nil => exact fun _ _ _ => le_rfl
  | cons i is ih =>
    intro p p' hle
    simp only [foldedPosition]
    split
    · exact Nat.zero_le _
    · rw [if_neg (by omega)]
      exact Nat.succ_le_succ (ih (Nat.sub_le_sub_right hle _))

lemma sourcePosition_cons_succ (i : Instruction) (is : List Instruction) (q : Nat) :
    sourcePosition (i :: is) (q + 1) = i.count + sourcePosition is q := by
  simp [sourcePosition]

/-- A position of the text lies in the run of the instruction that stands for it. -/
theorem foldedPosition_spec (h : p < (expand is).length) :
    ∃ i k, is[foldedPosition is p]? = some i ∧ k < i.count ∧
      p = sourcePosition is (foldedPosition is p) + k := by
  induction is generalizing p with
  | nil => cases h
  | cons i is ih =>
    rw [expand_cons, List.length_append, Instruction.length_expand] at h
    by_cases hp : p < i.count
    · refine ⟨i, p, ?_, hp, ?_⟩
      · rw [foldedPosition, if_pos hp, List.getElem?_cons_zero]
      · rw [foldedPosition, if_pos hp, sourcePosition_zero, Nat.zero_add]
    · obtain ⟨j, k, hj, hk, heq⟩ := ih (p := p - i.count) (by omega)
      refine ⟨j, k, ?_, hk, ?_⟩
      · rw [foldedPosition, if_neg hp, List.getElem?_cons_succ, hj]
      · rw [foldedPosition, if_neg hp, sourcePosition_cons_succ]
        omega

/-- The positions of the run of an instruction are sent back to this instruction. -/
theorem foldedPosition_sourcePosition_add (h : is[q]? = some i) (hk : k < i.count) :
    foldedPosition is (sourcePosition is q + k) = q := by
  induction is generalizing q with
  | nil => cases h
  | cons j is ih =>
    cases q with
    | zero =>
      obtain rfl : j = i := Option.some.inj h
      rw [sourcePosition_zero, Nat.zero_add, foldedPosition, if_pos hk]
    | succ q =>
      rw [List.getElem?_cons_succ] at h
      rw [sourcePosition_cons_succ, Nat.add_assoc, foldedPosition,
        if_neg (Nat.not_lt.mpr (Nat.le_add_right _ _)), Nat.add_sub_cancel_left, ih h]

/-! ## Brackets -/

/-- The instructions that are brackets. -/
def Instruction.IsBracket (i : Instruction) : Prop := i = .loopOpen ∨ i = .loopClose

/-- The positions of the brackets of a list of instructions. -/
def bracketsOf (is : List Instruction) : Set Nat :=
  {p | ∃ b : Instruction, b.IsBracket ∧ is[p]? = some b}

/-- An instruction that stands for brackets is a bracket, and stands for itself. -/
lemma Instruction.eq_of_ofSymbol_symbol (hb : b.IsBracket) (h : ofSymbol i.symbol = b) :
    i = b ∧ i.count = 1 := by
  rcases hb with rfl | rfl <;> cases i <;> cases h <;> exact ⟨rfl, rfl⟩

/-- A bracket of the text is a bracket of the list, of the same kind, and the text in front of it is
what stands in front of it in the list. -/
lemma getElem?_foldedPosition (hb : b.IsBracket) (h : (expand is)[p]? = some b) :
    is[foldedPosition is p]? = some b ∧ sourcePosition is (foldedPosition is p) = p := by
  obtain ⟨i, k, hi, hk, heq⟩ := foldedPosition_spec (List.getElem?_eq_some_iff.mp h).1
  have hsymbol : some (Instruction.ofSymbol i.symbol) = some b := by
    rw [← getElem?_sourcePosition_add hi hk, ← heq, h]
  obtain ⟨rfl, hcount⟩ := Instruction.eq_of_ofSymbol_symbol hb (Option.some.inj hsymbol)
  exact ⟨hi, by omega⟩

/-- A bracket of the list is a bracket of the text, of the same kind, and is sent back. -/
lemma getElem?_sourcePosition (hb : b.IsBracket) (h : is[q]? = some b) :
    (expand is)[sourcePosition is q]? = some b ∧ foldedPosition is (sourcePosition is q) = q := by
  have hcount : 0 < b.count := by
    rcases hb with rfl | rfl <;> exact Nat.one_pos
  have hsymbol : Instruction.ofSymbol b.symbol = b := by
    rcases hb with rfl | rfl <;> rfl
  exact ⟨hsymbol ▸ getElem?_sourcePosition_add h hcount,
    foldedPosition_sourcePosition_add h hcount⟩

/-- **The brackets of a text and of the folded list correspond to each other.** -/
theorem bijOn_foldedPosition (is : List Instruction) :
    Set.BijOn (foldedPosition is) (bracketsOf (expand is)) (bracketsOf is) := by
  have hinverse : Set.InvOn (sourcePosition is) (foldedPosition is) (bracketsOf (expand is))
      (bracketsOf is) := by
    constructor
    · rintro p ⟨b, hb, h⟩
      exact (getElem?_foldedPosition hb h).2
    · rintro q ⟨b, hb, h⟩
      exact (getElem?_sourcePosition hb h).2
  refine hinverse.bijOn ?_ ?_
  · rintro p ⟨b, hb, h⟩
    exact ⟨b, hb, (getElem?_foldedPosition hb h).1⟩
  · rintro q ⟨b, hb, h⟩
    exact ⟨b, hb, (getElem?_sourcePosition hb h).1⟩

end Positions

/-! ## Pairs -/

namespace JumpTable

variable {is : List Instruction} {plain folded : JumpTable} {p : Nat}

/-- **The pairs of a text are the pairs of the folded list**: the partner of a bracket of the folded
list is the partner in the text, moved.

**Proof sketch.** A pair of the folded list is a pair of the text when the runs are written out
again, and both tables hold the pairs of their lists. -/
theorem partner?_foldedPosition (hplain : resolve (expand is) = .ok plain)
    (hfolded : resolve is = .ok folded) (hp : p ∈ bracketsOf (expand is)) :
    ∃ q ∈ bracketsOf (expand is), plain.partner? p = some q ∧
      folded.partner? (foldedPosition is p) = some (foldedPosition is q) := by
  obtain ⟨b, rfl | rfl, hb⟩ := hp
  · obtain ⟨hopen, hsource⟩ := getElem?_foldedPosition (Or.inl rfl) hb
    obtain ⟨j, he⟩ := exists_closing hfolded hopen
    obtain ⟨hclose, hj⟩ := getElem?_sourcePosition (Or.inr rfl) he.closing
    refine ⟨sourcePosition is j, ⟨_, Or.inr rfl, hclose⟩, ?_, ?_⟩
    · rw [← (partner?_of_encloses hplain he.expand).1, hsource]
    · rw [(partner?_of_encloses hfolded he).1, hj]
  · obtain ⟨hclose, hsource⟩ := getElem?_foldedPosition (Or.inr rfl) hb
    obtain ⟨i, he⟩ := exists_opening hfolded hclose
    obtain ⟨hopen, hi⟩ := getElem?_sourcePosition (Or.inl rfl) he.opening
    refine ⟨sourcePosition is i, ⟨_, Or.inl rfl, hopen⟩, ?_, ?_⟩
    · rw [← (partner?_of_encloses hplain he.expand).2, hsource]
    · rw [(partner?_of_encloses hfolded he).2, hi]

end JumpTable

/-! ## The programs of a text -/

namespace Program

/-- The positions of the brackets of a program. -/
def brackets (p : Program) : Set Nat := bracketsOf p.instructions.toList

/-- The program `folded` is the program `plain` with each position `p` moved to `f p`. -/
structure FoldsTo (plain folded : Program) (f : Nat → Nat) : Prop where
  /-- The order of the positions is kept. -/
  monotone : Monotone f
  /-- The positions of `plain` are moved to those of `folded`. -/
  mapsTo : ∀ p < plain.size, f p < folded.size
  /-- Each bracket of `folded` is one bracket of `plain`. -/
  bijOn : Set.BijOn f plain.brackets folded.brackets
  /-- The order of the brackets is kept. -/
  strictMonoOn : StrictMonoOn f plain.brackets
  /-- The kind of a bracket is kept. -/
  kind : ∀ p ∈ plain.brackets, folded.instructions[f p]? = plain.instructions[p]?
  /-- The partner of a moved bracket is the partner of the bracket, moved. -/
  partner : ∀ p ∈ plain.brackets, ∃ q ∈ plain.brackets, plain.jumps.partner? p = some q ∧
    folded.jumps.partner? (f p) = some (f q)
  /-- What is no bracket has no partner. -/
  partner_none : ∀ p ∉ folded.brackets, folded.jumps.partner? p = none
  /-- There are as many pairs. -/
  pairs : folded.jumps.pairs = plain.jumps.pairs
  /-- The comments are the same. -/
  discarded : folded.discarded = plain.discarded
  /-- One of them reads input if the other one does. -/
  readsInput : folded.readsInput = plain.readsInput

/-- **Folding commutes with the matching of brackets.** A text whose brackets balance has a program
as written and a folded one, and folding moves each symbol to the instruction that stands for it. -/
theorem fold_commutes_with_matching {source : List UInt8}
    (h : Balanced (plainInstructions source)) :
    ∃ plain folded, load source false = .ok plain ∧ load source true = .ok folded ∧
      FoldsTo plain folded (foldedPosition folded.instructions.toList) := by
  obtain ⟨plain, hplain⟩ := (exists_load_iff source false).mpr h
  obtain ⟨folded, hfolded⟩ := (exists_load_iff source true).mpr h
  have hexpand : expand folded.instructions.toList = plain.instructions.toList := by
    rw [expand_instructions hfolded, (load_spec hplain).2]
    rfl
  have hresolved : JumpTable.resolve (expand folded.instructions.toList) = .ok plain.jumps :=
    hexpand ▸ plain.resolved
  have hbijOn := bijOn_foldedPosition folded.instructions.toList
  have hmatching := JumpTable.isMatching_partner? folded.resolved
  refine ⟨plain, folded, hplain, hfolded, ?_⟩
  exact
    { monotone := monotone_foldedPosition _
      mapsTo := fun p hp => by
        rw [size, ← Array.length_toList, ← hexpand] at hp
        obtain ⟨i, -, hi, -⟩ := foldedPosition_spec hp
        exact (List.getElem?_eq_some_iff.mp hi).1
      bijOn := by
        rw [brackets, ← hexpand]
        exact hbijOn
      strictMonoOn := by
        rw [brackets, ← hexpand]
        exact ((monotone_foldedPosition _).monotoneOn _).strictMonoOn_of_injOn hbijOn.injOn
      kind := fun p hp => by
        rw [← Array.getElem?_toList, ← Array.getElem?_toList, ← hexpand]
        rw [brackets, ← hexpand] at hp
        obtain ⟨b, hb, hp⟩ := hp
        rw [(getElem?_foldedPosition hb hp).1, hp]
      partner := fun p hp => by
        rw [brackets, ← hexpand] at hp ⊢
        exact JumpTable.partner?_foldedPosition hresolved folded.resolved hp
      partner_none := fun p hp =>
        hmatching.plain p (fun ho => hp ⟨_, Or.inl rfl, ho⟩) (fun hc => hp ⟨_, Or.inr rfl, hc⟩)
      pairs := by
        rw [JumpTable.pairs_eq_count folded.resolved, JumpTable.pairs_eq_count hresolved,
          count_expand (Or.inl rfl)]
      discarded := by rw [discarded_of_load hfolded, discarded_of_load hplain]
      readsInput := Bool.eq_iff_iff.mpr
        ((readsInput_eq_true_iff hfolded).trans (readsInput_eq_true_iff hplain).symm) }

/-- The bracket at position 3 of `+++[-]` stands at position 1 of the folded program. -/
theorem fold_commutes_with_matching_of_countdown :
    Balanced (plainInstructions [43, 43, 43, 91, 45, 93]) ∧
      ∃ plain folded, load [43, 43, 43, 91, 45, 93] false = .ok plain ∧
        load [43, 43, 43, 91, 45, 93] true = .ok folded ∧
        FoldsTo plain folded (foldedPosition [.incr 3, .loopOpen, .decr 1, .loopClose]) := by
  have hbalanced : Balanced (plainInstructions [43, 43, 43, 91, 45, 93]) := by decide
  obtain ⟨plain, folded, hplain, hfolded, hfolds⟩ := fold_commutes_with_matching hbalanced
  have hlist : folded.instructions.toList = [.incr 3, .loopOpen, .decr 1, .loopClose] := by
    rw [(load_spec hfolded).2]
    decide
  exact ⟨hbalanced, plain, folded, hplain, hfolded, hlist ▸ hfolds⟩

end Program

end TapeMachine
