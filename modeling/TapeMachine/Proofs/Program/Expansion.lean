import Mathlib.Tactic
import TapeMachine.Program.Basic
import TapeMachine.Proofs.Program.Matching

/-!
# Folded programs and the text they stand for

A folded instruction stands for a run of single instructions. Writing all of them out gives back
the list as it was before the folding. Brackets are not folded, so that their pairs are the same
before and after, up to the number of instructions in front of them.

## Main definitions

* `TapeMachine.expand` — a list of instructions with the runs written out.
* `TapeMachine.sourcePosition` — the position in the text of the instruction at a position of a
  folded list.

## Main results

* `TapeMachine.expand_foldRuns` — folding a list and writing it out again changes nothing.
* `TapeMachine.balanced_expand_iff` — brackets balance before folding exactly when they balance
  after it.
* `TapeMachine.Encloses.expand` — pairs of brackets stay pairs.
* `TapeMachine.Program.exists_load_iff` — a text loads exactly when its brackets balance.
-/

set_option autoImplicit false

namespace TapeMachine

/-- The single instructions that an instruction stands for. -/
def Instruction.expand (i : Instruction) : List Instruction :=
  List.replicate i.count (.ofSymbol i.symbol)

/-- A list of instructions with the runs written out. -/
def expand (is : List Instruction) : List Instruction := is.flatMap Instruction.expand

/-- The number of single instructions in front of position `q` of a list: the position in the text
of the instruction that stands there. -/
def sourcePosition (is : List Instruction) (q : Nat) : Nat :=
  ((is.take q).map Instruction.count).sum

/-- The instructions of a program text, one for each symbol. -/
def plainInstructions (source : List UInt8) : List Instruction :=
  (symbols source).map Instruction.ofSymbol

section Expand

variable {is : List Instruction} {i : Instruction} {q : Nat}

@[simp]
lemma Instruction.length_expand (i : Instruction) : i.expand.length = i.count :=
  List.length_replicate

@[simp]
lemma Instruction.expand_ofSymbol (s : Symbol) : (ofSymbol s).expand = [ofSymbol s] := by
  simp [expand]

@[simp]
lemma expand_append (as bs : List Instruction) : expand (as ++ bs) = expand as ++ expand bs :=
  List.flatMap_append

@[simp]
lemma expand_cons (a : Instruction) (as : List Instruction) :
    expand (a :: as) = a.expand ++ expand as := rfl

/-- The instructions of a text stand for themselves. -/
@[simp]
lemma expand_plainInstructions (source : List UInt8) :
    expand (plainInstructions source) = plainInstructions source := by
  unfold plainInstructions
  induction symbols source with
  | nil => rfl
  | cons s rest ih => rw [List.map_cons, expand_cons, ih, Instruction.expand_ofSymbol]; rfl

/-! ## Folding -/

/-- Two instructions that are merged stand for what they stood for before. -/
lemma Instruction.expand_merge? {a b c : Instruction} (h : a.merge? b = some c) :
    c.expand = a.expand ++ b.expand := by
  have hadd : ∀ m n : UInt8, m.toNat + n.toNat < 256 → (m + n).toNat = m.toNat + n.toNat := by
    intro m n hlt
    rw [UInt8.toNat_add, Nat.mod_eq_of_lt hlt]
  unfold merge? at h
  split at h
  · split at h
    · rename_i hlt
      cases h
      simp only [expand, count, symbol, hadd _ _ hlt, List.replicate_add]
    · cases h
  · split at h
    · rename_i hlt
      cases h
      simp only [expand, count, symbol, hadd _ _ hlt, List.replicate_add]
    · cases h
  · cases h

/-- A folded list with one more instruction stands for what it stood for and that instruction. -/
lemma expand_foldOnto (done : List Instruction) (next : Instruction) :
    expand (foldOnto done next).reverse = expand done.reverse ++ next.expand := by
  cases done with
  | nil => simp [foldOnto, expand]
  | cons last done =>
    simp only [foldOnto]
    split
    · rename_i merged h
      simp [Instruction.expand_merge? h, expand]
    · simp [expand]

/-- **Folding a list and writing it out again changes nothing.** -/
theorem expand_foldRuns (is : List Instruction) : expand (foldRuns is) = expand is := by
  have hfold : ∀ done, expand (is.foldl foldOnto done).reverse = expand done.reverse ++ expand is := by
    induction is with
    | nil => simp [expand]
    | cons a as ih =>
      intro done
      rw [List.foldl_cons, ih, expand_foldOnto, expand_cons, List.append_assoc]
  simpa [foldRuns, expand] using hfold []

/-- Reads are not folded. -/
lemma input_mem_expand_iff (is : List Instruction) : .input ∈ expand is ↔ .input ∈ is := by
  have hone : ∀ i : Instruction, .input ∈ i.expand ↔ i = .input := by
    intro i
    cases i <;> simp [Instruction.expand, Instruction.count, Instruction.symbol,
      Instruction.ofSymbol]
  simp [expand, hone]

/-- Instructions that are merged do not become empty. -/
lemma Instruction.count_merge?_pos {a b c : Instruction} (h : a.merge? b = some c)
    (ha : 0 < a.count) : 0 < c.count := by
  have hlen := congrArg List.length (expand_merge? h)
  simp only [List.length_append, length_expand] at hlen
  omega

/-- Every instruction of a folded list stands for at least one of the text. -/
lemma count_pos_of_mem_foldRuns (h : ∀ a ∈ is, 0 < a.count) :
    ∀ a ∈ foldRuns is, 0 < a.count := by
  have hfold : ∀ done, (∀ a ∈ done, 0 < a.count) → ∀ a ∈ is.foldl foldOnto done, 0 < a.count := by
    induction is with
    | nil => exact fun done hd => hd
    | cons next rest ih =>
      intro done hd
      refine ih (fun a ha => h a (List.mem_cons_of_mem _ ha)) _ ?_
      have hnext := h next List.mem_cons_self
      cases done with
      | nil =>
        intro a ha
        obtain rfl : a = next := by simpa [foldOnto] using ha
        exact hnext
      | cons last done =>
        simp only [foldOnto]
        split
        · rename_i merged hm
          intro a ha
          rcases List.mem_cons.mp ha with rfl | ha
          · exact Instruction.count_merge?_pos hm (hd last List.mem_cons_self)
          · exact hd a (List.mem_cons_of_mem _ ha)
        · intro a ha
          rcases List.mem_cons.mp ha with rfl | ha
          · exact hnext
          · exact hd a ha
  intro a ha
  exact hfold [] (by simp) a (List.mem_reverse.mp ha)

/-! ## Positions -/

@[simp]
lemma sourcePosition_zero (is : List Instruction) : sourcePosition is 0 = 0 := rfl

/-- The position in the text is the length of what the instructions in front stand for. -/
lemma length_expand_take (is : List Instruction) (q : Nat) :
    (expand (is.take q)).length = sourcePosition is q := by
  simp [expand, sourcePosition, List.length_flatMap]

/-- Behind an instruction the position in the text has moved by what it stands for. -/
lemma sourcePosition_succ (h : is[q]? = some i) :
    sourcePosition is (q + 1) = sourcePosition is q + i.count := by
  simp [sourcePosition, List.take_add_one, h]

/-- What a list stands for is cut where the list is cut. -/
lemma drop_sourcePosition (is : List Instruction) (q : Nat) :
    (expand is).drop (sourcePosition is q) = expand (is.drop q) := by
  conv_lhs => rw [← List.take_append_drop q is, expand_append, List.take_append_drop]
  rw [← length_expand_take, List.drop_left]

lemma take_sourcePosition (is : List Instruction) (q : Nat) :
    (expand is).take (sourcePosition is q) = expand (is.take q) := by
  conv_lhs => rw [← List.take_append_drop q is, expand_append, List.take_append_drop]
  rw [← length_expand_take, List.take_left]

lemma sourcePosition_add (is : List Instruction) (a b : Nat) :
    sourcePosition is (a + b) = sourcePosition is a + sourcePosition (is.drop a) b := by
  simp [sourcePosition, List.take_add]

/-- At the position in the text of an instruction stands the run that it stands for. -/
lemma getElem?_sourcePosition_add (h : is[q]? = some i) {k : Nat} (hk : k < i.count) :
    (expand is)[sourcePosition is q + k]? = some (.ofSymbol i.symbol) := by
  obtain ⟨hq, rfl⟩ := List.getElem?_eq_some_iff.mp h
  rw [← List.getElem?_drop, drop_sourcePosition, List.drop_eq_getElem_cons hq, expand_cons,
    List.getElem?_append_left (by simpa using hk)]
  simp [Instruction.expand, hk]

/-- Past the end of a list the text has ended too. -/
lemma getElem?_sourcePosition_of_none (h : is[q]? = none) :
    (expand is)[sourcePosition is q]? = none := by
  rw [← Nat.add_zero (sourcePosition is q), ← List.getElem?_drop, drop_sourcePosition,
    List.drop_eq_nil_of_le (List.getElem?_eq_none_iff.mp h)]
  rfl

/-! ## Brackets -/

/-- A bracket stands for itself alone, and no other instruction for a bracket. -/
lemma Instruction.count_expand {b : Instruction} (hb : b = .loopOpen ∨ b = .loopClose)
    (i : Instruction) : i.expand.count b = [i].count b := by
  rcases hb with rfl | rfl <;> cases i <;>
    simp [expand, symbol, ofSymbol, Instruction.count, List.count_replicate]

/-- A list has as many brackets as the text that it stands for. -/
lemma count_expand {b : Instruction} (hb : b = .loopOpen ∨ b = .loopClose)
    (is : List Instruction) : (expand is).count b = is.count b := by
  induction is with
  | nil => rfl
  | cons a as ih =>
    rw [expand_cons, List.count_append, ih, Instruction.count_expand hb, ← List.count_append,
      List.singleton_append]

/-- Every beginning of the text has the brackets of some beginning of the folded list. -/
lemma exists_take_expand (is : List Instruction) (k : Nat) :
    ∃ q ≤ is.length, ∀ b : Instruction, b = .loopOpen ∨ b = .loopClose →
      ((expand is).take k).count b = (is.take q).count b := by
  induction is generalizing k with
  | nil => exact ⟨0, le_rfl, by simp [expand]⟩
  | cons a as ih =>
    rw [expand_cons]
    rcases Nat.lt_or_ge k a.count with hk | hk
    · -- the cut lies within what `a` stands for, so that `a` is no bracket unless `k = 0`
      refine ⟨0, Nat.zero_le _, fun b hb => ?_⟩
      rw [List.take_append_of_le_length (by simp; omega), List.take_zero, List.count_nil,
        List.count_eq_zero]
      intro hmem
      obtain ⟨hkpos, hba⟩ : k ≠ 0 ∧ b = .ofSymbol a.symbol := by
        have := List.mem_of_mem_take hmem
        rw [Instruction.expand, List.mem_replicate] at this
        refine ⟨?_, this.2⟩
        rintro rfl
        simp at hmem
      have hone : a.count ≤ 1 := by
        cases a with
        | incr n | decr n => rcases hb with rfl | rfl <;> cases hba
        | _ => exact le_rfl
      omega
    · obtain ⟨q, hq, hcount⟩ := ih (k - a.count)
      refine ⟨q + 1, by simpa using hq, fun b hb => ?_⟩
      rw [List.take_append, Instruction.length_expand,
        List.take_of_length_le (by simpa using hk), List.count_append, hcount b hb,
        Instruction.count_expand hb, ← List.count_append, List.take_succ_cons,
        List.singleton_append]

/-- **Folding does not touch the balance of brackets.** -/
theorem balanced_expand_iff (is : List Instruction) : Balanced (expand is) ↔ Balanced is := by
  have hopen := count_expand (Or.inl rfl) is
  have hclose := count_expand (Or.inr rfl) is
  unfold Balanced
  rw [hopen, hclose]
  refine and_congr_left fun _ => ⟨fun h q _ => ?_, fun h k _ => ?_⟩
  · have hlen : sourcePosition is q ≤ (expand is).length := by
      rw [← length_expand_take, ← take_sourcePosition]
      exact List.length_take_le' ..
    have hk := h _ hlen
    rwa [take_sourcePosition, count_expand (Or.inl rfl), count_expand (Or.inr rfl)] at hk
  · obtain ⟨q, hq, hcount⟩ := exists_take_expand is k
    rw [hcount _ (Or.inl rfl), hcount _ (Or.inr rfl)]
    exact h q hq

/-- **Pairs of brackets stay pairs** when the runs are written out. -/
lemma Encloses.expand {i j : Nat} (h : Encloses is i j) :
    Encloses (expand is) (sourcePosition is i) (sourcePosition is j) := by
  have hi : sourcePosition is (i + 1) = sourcePosition is i + 1 := sourcePosition_succ h.opening
  have hj : sourcePosition is j =
      sourcePosition is (i + 1) + sourcePosition (is.drop (i + 1)) (j - (i + 1)) := by
    rw [← sourcePosition_add, Nat.add_sub_cancel' h.lt]
  refine ⟨getElem?_sourcePosition_add h.opening (k := 0) Nat.one_pos,
    getElem?_sourcePosition_add h.closing (k := 0) Nat.one_pos, by omega, ?_⟩
  rw [← hi, hj, Nat.add_sub_cancel_left, drop_sourcePosition, take_sourcePosition,
    balanced_expand_iff]
  exact h.between

end Expand

/-! ## Loading -/

namespace Program

variable {source : List UInt8} {fold : Bool} {p : Program}

/-- A list of instructions has no program exactly when it has no jump table, and for that reason. -/
lemma ofInstructions?_eq_error_iff {is : List Instruction} {discarded : Nat} {e : BracketError} :
    ofInstructions? is discarded = .error e ↔ JumpTable.resolve is = .error e := by
  unfold ofInstructions?
  split
  · rename_i jumps h
    simp [h]
  · rename_i e' h
    simp [h]

/-- Loading in terms of the instructions of the text. -/
lemma load_eq (source : List UInt8) (fold : Bool) :
    load source fold =
      (ofInstructions? (plainInstructions source) (commentCount source)).bind fun plain =>
        if fold then ofInstructions? (foldRuns (plainInstructions source)) (commentCount source)
        else .ok plain :=
  rfl

/-- A text that loads, folded or not, has brackets that balance, and the program stands for it. -/
lemma load_spec (h : load source fold = .ok p) :
    Balanced (plainInstructions source) ∧
      p.instructions.toList =
        if fold then foldRuns (plainInstructions source) else plainInstructions source := by
  rw [load_eq] at h
  cases hplain : ofInstructions? (plainInstructions source) (commentCount source) with
  | error e =>
    rw [hplain] at h
    cases h
  | ok plain =>
    rw [hplain] at h
    obtain ⟨hjumps, hlist, -⟩ := ofInstructions?_eq_ok_iff.mp hplain
    refine ⟨JumpTable.exists_resolve_iff.mp ⟨_, hjumps⟩, ?_⟩
    cases fold with
    | true => exact (ofInstructions?_eq_ok_iff.mp h).2.1
    | false =>
      cases h
      exact hlist

/-- A program that is loaded has skipped the comments of its text. -/
lemma discarded_of_load (h : load source fold = .ok p) : p.discarded = commentCount source := by
  rw [load_eq] at h
  cases hplain : ofInstructions? (plainInstructions source) (commentCount source) with
  | error e =>
    rw [hplain] at h
    cases h
  | ok plain =>
    rw [hplain] at h
    cases fold with
    | true => exact (ofInstructions?_eq_ok_iff.mp h).2.2
    | false =>
      cases h
      exact (ofInstructions?_eq_ok_iff.mp hplain).2.2

/-- A list of instructions whose brackets balance has a program. -/
lemma exists_ofInstructions? {is : List Instruction} (h : Balanced is) (discarded : Nat) :
    ∃ p, ofInstructions? is discarded = .ok p := by
  obtain ⟨jumps, hjumps⟩ := JumpTable.exists_resolve_iff.mpr h
  exact ⟨⟨is.toArray, jumps, discarded, hjumps⟩, ofInstructions?_eq_ok_iff.mpr ⟨hjumps, rfl, rfl⟩⟩

/-- **A text loads exactly when its brackets balance**, folded or not. -/
theorem exists_load_iff (source : List UInt8) (fold : Bool) :
    (∃ p, load source fold = .ok p) ↔ Balanced (plainInstructions source) := by
  constructor
  · rintro ⟨p, h⟩
    exact (load_spec h).1
  · intro hb
    obtain ⟨plain, hplain⟩ := exists_ofInstructions? hb (commentCount source)
    rw [load_eq, hplain]
    cases fold with
    | true =>
      refine exists_ofInstructions? ?_ (commentCount source)
      rwa [← balanced_expand_iff, expand_foldRuns, expand_plainInstructions]
    | false => exact ⟨plain, rfl⟩

/-- The text of a program that has been loaded, folded or not. -/
lemma expand_instructions (h : load source fold = .ok p) :
    expand p.instructions.toList = plainInstructions source := by
  rw [(load_spec h).2]
  split
  · rw [expand_foldRuns, expand_plainInstructions]
  · exact expand_plainInstructions source

/-- A program that has been loaded reads input exactly when its text holds the symbol for that. -/
lemma readsInput_eq_true_iff (h : load source fold = .ok p) :
    p.readsInput = true ↔ Symbol.input.byte ∈ source := by
  calc p.readsInput = true
    _ ↔ .input ∈ p.instructions.toList := by simp [readsInput]
    _ ↔ .input ∈ plainInstructions source := by
      rw [← expand_instructions h, input_mem_expand_iff]
    _ ↔ Symbol.input ∈ symbols source := by
      have hinput : ∀ s, Instruction.ofSymbol s = .input ↔ s = .input := by
        intro s
        cases s <;> simp [Instruction.ofSymbol]
      simp [plainInstructions, hinput]
    _ ↔ Symbol.input.byte ∈ source := by simp [symbols, Symbol.ofByte?_eq_some_iff]

/-- Every instruction of a program that has been loaded stands for at least one symbol. -/
lemma count_pos (h : load source fold = .ok p) : ∀ i ∈ p.instructions.toList, 0 < i.count := by
  have hplain : ∀ i ∈ plainInstructions source, 0 < i.count := by
    intro i hi
    obtain ⟨s, -, rfl⟩ := List.mem_map.mp hi
    simp
  rw [(load_spec h).2]
  split
  · exact count_pos_of_mem_foldRuns hplain
  · exact hplain

end Program

end TapeMachine
