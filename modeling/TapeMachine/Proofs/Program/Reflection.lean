import Mathlib.Tactic
import TapeMachine.Proofs.Program.Expansion

/-!
# Reflected programs

A program text is reflected by exchanging the two symbols that move the data pointer. Neither the
folding of runs nor the matching of brackets takes notice of moves, so that a reflected text loads
as the text does, and gives the same instructions but for the moves.

## Main definitions

* `TapeMachine.reflectByte` — a byte of a program text with the two moves exchanged.
* `TapeMachine.Instruction.reflect`, `TapeMachine.Program.reflect` — the same for instructions and
  programs.

## Main results

* `TapeMachine.foldRuns_map_reflect` — folding commutes with reflection.
* `TapeMachine.JumpTable.resolve_map_reflect` — reflection keeps the jump table.
* `TapeMachine.Program.load_map_reflectByte` — loading commutes with reflection.
-/

set_option autoImplicit false

namespace TapeMachine

/-! ## Symbols -/

/-- A symbol with the two moves exchanged. -/
def Symbol.reflect : Symbol → Symbol
  | right => left
  | left => right
  | s => s

/-- A byte of a program text with the two moves exchanged. -/
def reflectByte (b : UInt8) : UInt8 :=
  if b = Symbol.left.byte then Symbol.right.byte
  else if b = Symbol.right.byte then Symbol.left.byte
  else b

lemma reflectByte_byte (s : Symbol) : reflectByte s.byte = s.reflect.byte := by
  cases s <;> rfl

/-- A reflected byte stands for the reflected symbol, and a reflected comment is a comment. -/
lemma ofByte?_reflectByte (b : UInt8) :
    Symbol.ofByte? (reflectByte b) = (Symbol.ofByte? b).map Symbol.reflect := by
  cases hb : Symbol.ofByte? b with
  | some s =>
    obtain rfl := Symbol.ofByte?_eq_some_iff.mp hb
    rw [reflectByte_byte, Symbol.ofByte?_byte]
    rfl
  | none =>
    have hne : ∀ s : Symbol, b ≠ s.byte := by
      rintro s rfl
      rw [Symbol.ofByte?_byte] at hb
      cases hb
    rw [reflectByte, if_neg (hne _), if_neg (hne _), hb]
    rfl

lemma symbols_map_reflectByte (source : List UInt8) :
    symbols (source.map reflectByte) = (symbols source).map Symbol.reflect := by
  rw [symbols, List.filterMap_map, symbols, List.map_filterMap]
  exact List.filterMap_congr fun b _ => ofByte?_reflectByte b

lemma commentCount_map_reflectByte (source : List UInt8) :
    commentCount (source.map reflectByte) = commentCount source := by
  rw [commentCount, List.countP_map]
  refine List.countP_congr fun b _ => ?_
  rw [Function.comp_apply, ofByte?_reflectByte, Option.isNone_map]

/-! ## Instructions -/

/-- An instruction with the two moves exchanged. -/
def Instruction.reflect : Instruction → Instruction
  | right => left
  | left => right
  | i => i

lemma Instruction.reflect_ofSymbol (s : Symbol) : (ofSymbol s).reflect = ofSymbol s.reflect := by
  cases s <;> rfl

/-- Moves do not merge with anything, so that instructions merge as they do when reflected. -/
lemma Instruction.merge?_reflect (a b : Instruction) :
    a.reflect.merge? b.reflect = (a.merge? b).map reflect := by
  cases a <;> cases b <;>
    first
    | rfl
    | simp only [reflect, merge?]
      split <;> rfl

lemma foldOnto_map_reflect (done : List Instruction) (next : Instruction) :
    foldOnto (done.map Instruction.reflect) next.reflect =
      (foldOnto done next).map Instruction.reflect := by
  cases done with
  | nil => rfl
  | cons last done =>
    simp only [List.map_cons, foldOnto, Instruction.merge?_reflect]
    cases last.merge? next <;> rfl

/-- **Folding commutes with reflection.** -/
theorem foldRuns_map_reflect (is : List Instruction) :
    foldRuns (is.map Instruction.reflect) = (foldRuns is).map Instruction.reflect := by
  have hfold : ∀ done : List Instruction,
      (is.map Instruction.reflect).foldl foldOnto (done.map Instruction.reflect) =
        (is.foldl foldOnto done).map Instruction.reflect := by
    induction is with
    | nil => exact fun _ => rfl
    | cons i is ih =>
      intro done
      rw [List.map_cons, List.foldl_cons, foldOnto_map_reflect, ih, List.foldl_cons]
  rw [foldRuns, foldRuns, List.map_reverse]
  exact congrArg List.reverse (hfold [])

/-! ## Programs -/

namespace JumpTable

/-- The scan for pairs passes by the moves. -/
lemma resolveFrom_map_reflect (is : List Instruction) (n : Nat) (pending : List Nat)
    (targets : Array Nat) :
    resolveFrom n pending targets (is.map Instruction.reflect) =
      resolveFrom n pending targets is := by
  induction is generalizing n pending targets with
  | nil => rfl
  | cons i is ih =>
    cases i with
    | loopClose =>
      cases pending with
      | nil => rfl
      | cons opening pending => exact ih _ _ _
    | _ => exact ih _ _ _

/-- **Reflection keeps the jump table**, and the error if there is none. -/
theorem resolve_map_reflect (is : List Instruction) :
    resolve (is.map Instruction.reflect) = resolve is := by
  rw [resolve, resolveFrom_map_reflect, List.length_map, resolve]

end JumpTable

namespace Program

/-- A program with the two moves exchanged. -/
def reflect (p : Program) : Program where
  instructions := p.instructions.map Instruction.reflect
  jumps := p.jumps
  discarded := p.discarded
  resolved := by
    rw [Array.toList_map, JumpTable.resolve_map_reflect]
    exact p.resolved

lemma ofInstructions?_map_reflect (is : List Instruction) (discarded : Nat) :
    ofInstructions? (is.map Instruction.reflect) discarded =
      (ofInstructions? is discarded).map reflect := by
  cases h : ofInstructions? is discarded with
  | error e =>
    rw [ofInstructions?_eq_error_iff] at h
    refine ofInstructions?_eq_error_iff.mpr ?_
    rw [JumpTable.resolve_map_reflect, h]
  | ok p =>
    obtain ⟨hjumps, hlist, hdiscarded⟩ := ofInstructions?_eq_ok_iff.mp h
    refine ofInstructions?_eq_ok_iff.mpr ⟨?_, ?_, hdiscarded⟩
    · rw [JumpTable.resolve_map_reflect, hjumps]
      rfl
    · rw [reflect, Array.toList_map, hlist]

/-- **Loading commutes with reflection**: a reflected text has the same error, or it loads and gives
the reflected program. -/
theorem load_map_reflectByte (source : List UInt8) (fold : Bool) :
    load (source.map reflectByte) fold = (load source fold).map reflect := by
  have hplain : plainInstructions (source.map reflectByte) =
      (plainInstructions source).map Instruction.reflect := by
    rw [plainInstructions, symbols_map_reflectByte, plainInstructions, List.map_map, List.map_map]
    exact List.map_congr_left fun s _ => (Instruction.reflect_ofSymbol s).symm
  rw [load_eq, load_eq, hplain, commentCount_map_reflectByte, ofInstructions?_map_reflect,
    foldRuns_map_reflect, ofInstructions?_map_reflect]
  cases ofInstructions? (plainInstructions source) (commentCount source) with
  | error e => rfl
  | ok plain => cases fold <;> rfl

/-- The text `>+[<]` is reflected to `<+[>]`. -/
example : [62, 43, 91, 60, 93].map reflectByte = [60, 43, 91, 62, 93] := by decide

end Program

end TapeMachine
