import Mathlib.Tactic
import TapeMachine.Tape

/-!
# Growth and changes of the tape, by address

What the operations of the tape do to its two views: the cell at each address, and the extent.
Growth moves the extent and changes no cell; a change of a stored cell moves nothing.

## Main results

* `TapeMachine.Tape.shortfall_eq_zero_iff` — an address is stored exactly when it lies in the
  extent.
* `TapeMachine.Tape.extent_extend`, `TapeMachine.Tape.read_extend` — growth.
* `TapeMachine.Tape.extent_modify`, `TapeMachine.Tape.read_modify` — changes.
* `TapeMachine.Tape.cells_eq_map` — the list of the stored cells.
* `TapeMachine.Tape.refusal?_eq_some_iff` — the limit refuses an address when the extent would have
  to grow past it.
-/

set_option autoImplicit false

namespace TapeMachine

namespace Tape

variable (t : Tape) (a b : Int)

/-! ## The extent -/

/-- An address is stored exactly when it lies in the extent. -/
lemma shortfall_eq_zero_iff : t.shortfall a = 0 ↔ t.extent.1 ≤ a ∧ a ≤ t.extent.2 := by
  have := t.origin_stored
  cases a with
  | ofNat n =>
    simp only [shortfall, extent, Int.ofNat_eq_natCast]
    omega
  | negSucc n =>
    simp only [shortfall, extent, Int.negSucc_eq]
    omega

/-- The size of a tape with the cells that an address needs is the span of the extent with this
address. -/
lemma size_add_shortfall :
    ((t.size + t.shortfall a : Nat) : Int) = max t.extent.2 a - min t.extent.1 a + 1 := by
  have := t.origin_stored
  cases a with
  | ofNat n =>
    simp only [size, shortfall, extent, Int.ofNat_eq_natCast]
    omega
  | negSucc n =>
    simp only [size, shortfall, extent, Int.negSucc_eq]
    omega

/-- The size of a tape is the span of its extent. -/
lemma size_eq_span : (t.size : Int) = t.extent.2 - t.extent.1 + 1 := by
  simp only [size, extent]
  omega

/-- A tape that grows to an address has the least extent that holds it. -/
@[simp]
lemma extent_extend : (t.extend a).extent = (min t.extent.1 a, max t.extent.2 a) := by
  have := t.origin_stored
  cases a with
  | ofNat n =>
    simp only [extend, extent, Array.size_append, Array.size_replicate, Int.ofNat_eq_natCast,
      Prod.mk.injEq]
    omega
  | negSucc n =>
    simp only [extend, extent, Array.size_append, Array.size_replicate, Int.negSucc_eq,
      Prod.mk.injEq]
    omega

@[simp]
lemma extent_modify (f : UInt8 → UInt8) : (t.modify a f).extent = t.extent := by
  cases a <;> simp [modify, extent]

@[simp]
lemma limit_extend : (t.extend a).limit = t.limit := by
  cases a <;> rfl

@[simp]
lemma limit_modify (f : UInt8 → UInt8) : (t.modify a f).limit = t.limit := by
  cases a <;> rfl

/-! ## The cells -/

/-- A fresh tape reads as zero everywhere. -/
@[simp]
lemma read_blank (limit : Option Nat) : (blank limit).read a = 0 := by
  cases a with
  | ofNat n => cases n <;> simp [blank, read]
  | negSucc n => simp [blank, read]

@[simp]
lemma extent_blank (limit : Option Nat) : (blank limit).extent = (0, 0) := rfl

/-- Growth changes no cell. -/
@[simp]
lemma read_extend : (t.extend a).read b = t.read b := by
  have hgrow : ∀ (cells : Array UInt8) (n k : Nat),
      (cells ++ Array.replicate n 0).getD k 0 = cells.getD k 0 := by
    intro cells n k
    simp only [Array.getD_eq_getD_getElem?, Array.getElem?_append, Array.getElem?_replicate]
    by_cases hk : k < cells.size
    · rw [if_pos hk]
    · rw [if_neg hk, Array.getElem?_eq_none (by omega)]
      split <;> rfl
  cases a <;> cases b <;> simp only [extend, read, hgrow]

/-- Growth to an address that is stored changes nothing. -/
lemma extend_of_shortfall (h : t.shortfall a = 0) : t.extend a = t := by
  obtain ⟨right, left, limit, ho⟩ := t
  cases a with
  | ofNat n =>
    simp only [shortfall] at h
    simp [extend, h]
  | negSucc n =>
    simp only [shortfall] at h
    simp [extend, h]

/-- A tape that has grown to an address stores it. -/
@[simp]
lemma shortfall_extend_self : (t.extend a).shortfall a = 0 := by
  rw [shortfall_eq_zero_iff, extent_extend]
  exact ⟨min_le_right _ _, le_max_right _ _⟩

@[simp]
lemma shortfall_modify (f : UInt8 → UInt8) : (t.modify a f).shortfall b = t.shortfall b := by
  cases a <;> cases b <;> simp [modify, shortfall]

variable {t a b} in
/-- A change of a stored cell changes that cell alone. -/
lemma read_modify (f : UInt8 → UInt8) (h : t.shortfall a = 0) :
    (t.modify a f).read b = if b = a then f (t.read a) else t.read b := by
  have hset : ∀ (cells : Array UInt8) (n k : Nat), n < cells.size →
      (cells.modify n f).getD k 0 = if k = n then f (cells.getD n 0) else cells.getD k 0 := by
    intro cells n k hn
    simp only [Array.getD_eq_getD_getElem?, Array.getElem?_modify]
    by_cases hk : k = n
    · subst hk
      rw [if_pos rfl, if_pos rfl, Array.getElem?_eq_getElem hn]
      rfl
    · rw [if_neg (Ne.symm hk), if_neg hk]
  have ho := t.origin_stored
  cases a with
  | ofNat n =>
    have hn : n < t.right.size := by
      simp only [shortfall] at h
      omega
    cases b with
    | ofNat k => simp only [modify, read, hset _ _ _ hn, Int.ofNat.injEq]
    | negSucc k => simp [modify, read]
  | negSucc n =>
    have hn : n < t.left.size := by
      simp only [shortfall] at h
      omega
    cases b with
    | ofNat k => simp [modify, read]
    | negSucc k => simp only [modify, read, hset _ _ _ hn, Int.negSucc.injEq]

/-- Two changes of a cell are one. -/
lemma modify_modify (f g : UInt8 → UInt8) :
    (t.modify a f).modify a g = t.modify a (g ∘ f) := by
  have hcells : ∀ (cells : Array UInt8) (n : Nat),
      (cells.modify n f).modify n g = cells.modify n (g ∘ f) := by
    intro cells n
    apply Array.ext_getElem?
    intro k
    simp only [Array.getElem?_modify]
    by_cases hk : n = k
    · simp only [if_pos hk, Option.map_map]
    · simp only [if_neg hk]
  cases a <;> simp only [modify, hcells]

/-- The stored cells are the cells of the extent, in the order of their addresses. -/
lemma cells_eq_map : t.cells = (List.range t.size).map fun i : Nat => t.read (t.extent.1 + i) := by
  refine List.ext_getElem (by simp [cells, size, Nat.add_comm]) fun i hi _ => ?_
  rw [List.getElem_map, List.getElem_range]
  simp only [cells, extent, List.length_append, List.length_reverse, Array.length_toList] at hi ⊢
  rcases Nat.lt_or_ge i t.left.size with hlt | hge
  · have haddress : (-(t.left.size : Int)) + i = .negSucc (t.left.size - 1 - i) := by
      rw [Int.negSucc_eq]
      omega
    rw [haddress, read, List.getElem_append_left (by simpa using hlt), List.getElem_reverse,
      Array.getElem_toList, Array.getD_eq_getD_getElem?, Array.getElem?_eq_getElem (by omega)]
    rfl
  · have haddress : (-(t.left.size : Int)) + i = .ofNat (i - t.left.size) := by
      rw [Int.ofNat_eq_natCast]
      omega
    rw [haddress, read, List.getElem_append_right (by simpa using hge),
      Array.getD_eq_getD_getElem?, Array.getElem?_eq_getElem (by omega)]
    simp

/-! ## The limit -/

/-- Without a limit no address is refused. -/
lemma refusal?_of_limit_eq_none (h : t.limit = none) : t.refusal? a = none := by
  simp only [refusal?, h]

/-- An address that is stored is not refused. -/
lemma refusal?_of_shortfall (h : t.shortfall a = 0) : t.refusal? a = none := by
  unfold refusal?
  split
  · rfl
  · simp [h]

/-- **The limit** refuses an address exactly when it is not stored and the span of the extent with
this address exceeds the limit. -/
lemma refusal?_eq_some_iff {e : OutOfCells} :
    t.refusal? a = some e ↔
      ¬ (t.extent.1 ≤ a ∧ a ≤ t.extent.2) ∧
        ∃ limit, t.limit = some limit ∧
          (limit : Int) < max t.extent.2 a - min t.extent.1 a + 1 ∧ e = ⟨a, limit⟩ := by
  rw [← shortfall_eq_zero_iff, ← size_add_shortfall]
  unfold refusal?
  cases t.limit with
  | none => simp
  | some limit =>
    simp only [Option.some.injEq, exists_eq_left', Nat.cast_lt]
    constructor
    · intro h
      split at h
      · rename_i hc
        exact ⟨by omega, hc.2, by simpa using h.symm⟩
      · cases h
    · rintro ⟨hs, hl, rfl⟩
      rw [if_pos ⟨by omega, hl⟩]

end Tape

end TapeMachine
