import Mathlib.Tactic
import TapeMachine.Proofs.Program.Expansion

/-!
# Errors name the bracket at fault

A program text that does not load has a bracket without a partner. The error names the first `]`
that closes nothing, if there is one, and else the earliest `[` that is never closed. Which bracket
this is can be told from the depths alone, so that it does not depend on comments or on folding.

## Main definitions

* `TapeMachine.FirstUnopened` — the first `]` that closes nothing.
* `TapeMachine.EarliestUnclosed` — the earliest `[` that is never closed, in a list in which every
  `]` closes a bracket.
* `TapeMachine.BracketError.Names` — an error names the bracket at fault.

## Main results

* `TapeMachine.BracketError.Names.unique` — one error at most names the bracket at fault.
* `TapeMachine.JumpTable.resolve_eq_error_iff` — the scan for pairs fails with the error that names
  the bracket at fault.
* `TapeMachine.Program.load_eq_error_iff` — so does loading, folded or not.
* `TapeMachine.Program.bracket_error_names_bracket` — when loading fails, and with which error.
-/

set_option autoImplicit false

namespace TapeMachine

variable {is : List Instruction} {p q : Nat} {e e' : BracketError}

/-! ## Brackets without a partner -/

/-- Position `p` holds the first `]` that closes nothing: behind it, for the first time, more
brackets have been closed than opened. -/
@[mk_iff]
structure FirstUnopened (is : List Instruction) (p : Nat) : Prop where
  /-- The position lies in the list. -/
  lt_length : p < is.length
  /-- Behind it more brackets have been closed than opened. -/
  negative : depth is (p + 1) < 0
  /-- So far this has not been so. -/
  nonneg : ∀ k ≤ p, 0 ≤ depth is k

/-- Position `p` holds the earliest `[` that is never closed, and every `]` closes a bracket. -/
@[mk_iff]
structure EarliestUnclosed (is : List Instruction) (p : Nat) : Prop where
  /-- Nowhere have more brackets been closed than opened. -/
  nonneg : ∀ k ≤ is.length, 0 ≤ depth is k
  /-- The position holds a `[`. -/
  opening : is[p]? = some .loopOpen
  /-- The brackets in front of it balance. -/
  front : Balanced (is.take p)
  /-- The depth does not return to zero. -/
  remains : ∀ k, p < k → k ≤ is.length → depth is k ≠ 0

/-- An error names the bracket of a list that is at fault. -/
def BracketError.Names (is : List Instruction) : BracketError → Prop
  | .unmatchedClose p => FirstUnopened is p
  | .unmatchedOpen p => EarliestUnclosed is p

/-- There is one position at most that holds the first `]` which closes nothing. -/
lemma FirstUnopened.unique (h : FirstUnopened is p) (h' : FirstUnopened is q) : p = q := by
  rcases Nat.lt_trichotomy p q with hlt | heq | hlt
  · have := h'.nonneg (p + 1) hlt
    have := h.negative
    omega
  · exact heq
  · have := h.nonneg (q + 1) hlt
    have := h'.negative
    omega

/-- If more brackets have been closed than opened somewhere then this is so for the first time behind
some `]`. -/
lemma exists_firstUnopened_iff :
    (∃ p, FirstUnopened is p) ↔ ∃ k ≤ is.length, depth is k < 0 := by
  constructor
  · rintro ⟨p, hp⟩
    exact ⟨p + 1, hp.lt_length, hp.negative⟩
  · intro h
    classical
    obtain ⟨hle, hnegative⟩ := Nat.find_spec h
    cases hfind : Nat.find h with
    | zero =>
      rw [hfind, depth_zero] at hnegative
      cases hnegative
    | succ p =>
      rw [hfind] at hle hnegative
      refine ⟨p, hle, hnegative, fun k hk => ?_⟩
      have hleast := Nat.find_min h (show k < Nat.find h by omega)
      by_contra hlt
      exact hleast ⟨by omega, by omega⟩

namespace EarliestUnclosed

/-- The position of the earliest `[` that is never closed lies in the list. -/
lemma lt_length (h : EarliestUnclosed is p) : p < is.length :=
  (List.getElem?_eq_some_iff.mp h.opening).1

/-- In front of the earliest `[` that is never closed the depth is zero. -/
lemma depth_eq_zero (h : EarliestUnclosed is p) : depth is p = 0 := by
  have hlen : (is.take p).length ≤ p := List.length_take_le p is
  have hzero := h.front.depth_eq_zero hlen
  rwa [depth_take, min_self] at hzero

/-- There is one position at most that holds the earliest `[` which is never closed. -/
lemma unique (h : EarliestUnclosed is p) (h' : EarliestUnclosed is q) : p = q := by
  rcases Nat.lt_trichotomy p q with hlt | heq | hlt
  · exact absurd h'.depth_eq_zero (h.remains q hlt h'.lt_length.le)
  · exact heq
  · exact absurd h.depth_eq_zero (h'.remains p hlt h.lt_length.le)

/-- No `]` closes it. -/
lemma not_encloses (h : EarliestUnclosed is p) (j : Nat) : ¬ Encloses is p j := by
  intro he
  have hlt : j < is.length := (List.getElem?_eq_some_iff.mp he.closing).1
  have := he.lt
  apply h.remains (j + 1) (by omega) (by omega)
  rw [he.depth_succ_closing, h.depth_eq_zero]

/-- Every `[` in front of it is closed, and in front of it. -/
lemma exists_encloses (h : EarliestUnclosed is p) {i : Nat} (hi : i < p)
    (ho : is[i]? = some .loopOpen) : ∃ j < p, Encloses is i j := by
  obtain ⟨table, htable⟩ := JumpTable.exists_resolve_iff.mpr h.front
  obtain ⟨j, hj⟩ := JumpTable.exists_closing htable (i := i) (by rwa [List.getElem?_take_of_lt hi])
  have hjp : j < p := by
    have hlt := (List.getElem?_eq_some_iff.mp hj.closing).1
    rw [List.length_take] at hlt
    omega
  obtain ⟨-, hclose, hlt, hback, hinside⟩ := encloses_iff_depth.mp hj
  rw [List.getElem?_take_of_lt hjp] at hclose
  simp only [depth_take] at hback hinside
  rw [min_eq_left (by omega), min_eq_left (by omega)] at hback
  refine ⟨j, hjp, encloses_iff_depth.mpr ⟨ho, hclose, hlt, hback, fun k hik hkj => ?_⟩⟩
  have hk := hinside k hik hkj
  rwa [min_eq_left (by omega), min_eq_left (by omega)] at hk

end EarliestUnclosed

namespace BracketError.Names

/-- Where a bracket is at fault the brackets do not balance. -/
lemma not_balanced (h : e.Names is) : ¬ Balanced is := by
  intro hb
  cases e with
  | unmatchedClose p =>
    have hnegative := FirstUnopened.negative h
    have := hb.depth_nonneg (p + 1)
    omega
  | unmatchedOpen p =>
    have hlt := EarliestUnclosed.lt_length h
    exact EarliestUnclosed.remains h is.length hlt le_rfl (hb.depth_eq_zero le_rfl)

/-- **One error at most names the bracket at fault.** -/
theorem unique (h : e.Names is) (h' : e'.Names is) : e = e' := by
  have hexclusive : ∀ p q, FirstUnopened is p → ¬ EarliestUnclosed is q := by
    intro p q hp hq
    have := hq.nonneg (p + 1) hp.lt_length
    have := hp.negative
    omega
  cases e with
  | unmatchedClose p =>
    cases e' with
    | unmatchedClose q => exact congrArg _ (FirstUnopened.unique h h')
    | unmatchedOpen q => exact absurd h' (hexclusive p q h)
  | unmatchedOpen p =>
    cases e' with
    | unmatchedClose q => exact absurd h (hexclusive q p h')
    | unmatchedOpen q => exact congrArg _ (EarliestUnclosed.unique h h')

end BracketError.Names

/-! ## The scan for pairs -/

/-- A `]` that the scan comes upon with no bracket open is the first that closes nothing. -/
lemma Scanned.firstUnopened {targets : Array Nat} (h : Scanned is p [] targets)
    (hc : is[p]? = some .loopClose) : FirstUnopened is p where
  lt_length := (List.getElem?_eq_some_iff.mp hc).1
  negative := by
    have hdepth := h.length_pending
    rw [depth_succ_of_close hc]
    simp only [List.length_nil, Nat.cast_zero] at hdepth
    omega
  nonneg := h.nonneg

/-- The outermost bracket that is open at the end of the scan is the earliest that is never
closed. -/
lemma Scanned.earliestUnclosed {pending : List Nat} {targets : Array Nat}
    (h : Scanned is is.length pending targets) (hlast : pending.getLast? = some p) :
    EarliestUnclosed is p := by
  have hpos := List.length_pos_of_mem (List.mem_of_getLast? hlast)
  rw [List.getLast?_eq_getElem?] at hlast
  obtain ⟨hlt, ho, hdepth, hinside⟩ := h.pending_open _ _ hlast
  have hzero : depth is p = 0 := by
    have := h.length_pending
    omega
  refine ⟨h.nonneg, ho, balanced_iff_depth.mpr ⟨fun k _ => ?_, ?_⟩, fun k hpk hk => ?_⟩
  · rw [depth_take]
    exact h.nonneg _ (by omega)
  · rw [depth_take, List.length_take, min_eq_left hlt.le, min_self]
    exact hzero
  · have := hinside k hpk hk
    omega

namespace JumpTable

/-- An error of the scan names the bracket at fault. -/
lemma names_of_resolve (h : resolve is = .error e) : e.Names is := by
  have hspec := resolveFrom_spec is (Scanned.initial is) rfl
  unfold resolve at h
  cases hr : resolveFrom 0 [] (Array.range is.length) is with
  | ok targets =>
    rw [hr] at h
    cases h
  | error e' =>
    rw [hr] at h hspec
    cases h
    cases e with
    | unmatchedClose p =>
      obtain ⟨hc, t, hs⟩ := hspec
      exact hs.firstUnopened hc
    | unmatchedOpen p =>
      obtain ⟨pending, t, hlast, hs⟩ := hspec
      exact hs.earliestUnclosed hlast

/-- Brackets that do not balance make the scan fail. -/
lemma exists_resolve_error (h : ¬ Balanced is) : ∃ e, resolve is = .error e := by
  cases hr : resolve is with
  | ok table => exact absurd (exists_resolve_iff.mp ⟨table, hr⟩) h
  | error e => exact ⟨e, rfl⟩

/-- **The scan fails with the error that names the bracket at fault.** -/
theorem resolve_eq_error_iff : resolve is = .error e ↔ e.Names is := by
  refine ⟨names_of_resolve, fun h => ?_⟩
  obtain ⟨e', he'⟩ := exists_resolve_error h.not_balanced
  rw [he', h.unique (names_of_resolve he')]

/-- Once the brackets of a program text have been matched they can be matched in the folded program
too. -/
lemma exists_resolve_foldRuns {source : List UInt8} {table : JumpTable}
    (h : resolve (plainInstructions source) = .ok table) :
    ∃ table', resolve (foldRuns (plainInstructions source)) = .ok table' := by
  apply exists_resolve_iff.mpr
  rw [← balanced_expand_iff, expand_foldRuns, expand_plainInstructions]
  exact exists_resolve_iff.mp ⟨table, h⟩

/-- Of two `[` that are never closed the earlier one is named. -/
example : resolve [.loopOpen, .loopClose, .loopOpen, .loopOpen] = .error (.unmatchedOpen 2) := rfl

end JumpTable

/-! ## Loading -/

namespace Program

variable {source : List UInt8} {fold : Bool}

/-- An error of the scan for pairs is an error of loading, folded or not. -/
lemma load_of_resolve_error (h : JumpTable.resolve (plainInstructions source) = .error e) :
    load source fold = .error e := by
  rw [load_eq, ofInstructions?_eq_error_iff.mpr h]
  rfl

/-- Loading fails exactly if the brackets do not balance. -/
lemma exists_load_error_iff :
    (∃ e, load source fold = .error e) ↔ ¬ Balanced (plainInstructions source) := by
  rw [← exists_load_iff source fold]
  cases load source fold <;> simp

/-- **Loading fails with the error that names the bracket at fault**, folded or not. -/
theorem load_eq_error_iff : load source fold = .error e ↔ e.Names (plainInstructions source) := by
  constructor
  · intro h
    obtain ⟨e', he'⟩ := JumpTable.exists_resolve_error (exists_load_error_iff.mp ⟨e, h⟩)
    rw [load_of_resolve_error he'] at h
    cases h
    exact JumpTable.names_of_resolve he'
  · exact fun h => load_of_resolve_error (JumpTable.resolve_eq_error_iff.mpr h)

/-- **Errors name the bracket at fault.** A text does not load, folded or not, exactly when its
brackets do not balance. If somewhere more brackets have been closed than opened then the error names
the `]` behind which this is so for the first time. Else it names the `[` that is never closed and in
front of which all are: those in front of it balance, and the depth does not return to zero behind
it. The positions count instructions, so that texts with the same symbols have the same error; and
once the brackets have been matched they can be matched in the folded program too. -/
theorem bracket_error_names_bracket (source : List UInt8) (fold : Bool) :
    let is := plainInstructions source
    ((∃ e, load source fold = .error e) ↔ ¬ Balanced is) ∧
    ((∃ p, load source fold = .error (.unmatchedClose p)) ↔ ∃ k ≤ is.length, depth is k < 0) ∧
    (∀ p, load source fold = .error (.unmatchedClose p) ↔
      p < is.length ∧ depth is (p + 1) < 0 ∧ ∀ k ≤ p, 0 ≤ depth is k) ∧
    (∀ p, load source fold = .error (.unmatchedOpen p) ↔
      (∀ k ≤ is.length, 0 ≤ depth is k) ∧ is[p]? = some .loopOpen ∧ Balanced (is.take p) ∧
        ∀ k, p < k → k ≤ is.length → depth is k ≠ 0) ∧
    (∀ p, load source fold = .error (.unmatchedOpen p) →
      (∀ j, ¬ Encloses is p j) ∧
        ∀ i < p, is[i]? = some .loopOpen → ∃ j < p, Encloses is i j) ∧
    (∀ source' fold', symbols source' = symbols source →
      ∀ e, load source' fold' = .error e ↔ load source fold = .error e) ∧
    ∀ table, JumpTable.resolve is = .ok table →
      ∃ table', JumpTable.resolve (foldRuns is) = .ok table' := by
  intro is
  have hclose : ∀ p, load source fold = .error (.unmatchedClose p) ↔ FirstUnopened is p :=
    fun p => load_eq_error_iff
  have hopen : ∀ p, load source fold = .error (.unmatchedOpen p) ↔ EarliestUnclosed is p :=
    fun p => load_eq_error_iff
  refine ⟨exists_load_error_iff, ?_, fun p => (hclose p).trans (firstUnopened_iff is p),
    fun p => (hopen p).trans (earliestUnclosed_iff is p), fun p h => ?_,
    fun source' fold' hsymbols e => ?_, fun table => JumpTable.exists_resolve_foldRuns⟩
  · rw [← exists_firstUnopened_iff]
    exact exists_congr hclose
  · have hearliest := (hopen p).mp h
    exact ⟨hearliest.not_encloses, fun i hi ho => hearliest.exists_encloses hi ho⟩
  · rw [load_eq_error_iff, load_eq_error_iff, plainInstructions, hsymbols, plainInstructions]

end Program

end TapeMachine
