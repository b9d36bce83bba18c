import Mathlib.Tactic
import TapeMachine.Program.Brackets

/-!
# Depth of nesting

The depth of a position is the number of brackets opened before it less the number closed. It
decides whether brackets balance and which bracket closes which: a `[` is closed at the first
position at which the depth is back at its value in front of the `[`.

## Main definitions

* `TapeMachine.depth` — the depth in front of a position.
* `TapeMachine.Balanced` — the brackets of a list of instructions balance.
* `TapeMachine.Encloses` — a `[` and the `]` that closes it.

## Main results

* `TapeMachine.balanced_iff_depth` — brackets balance exactly when the depth is never negative
  and ends at zero.
* `TapeMachine.encloses_iff_depth` — a `]` closes a `[` exactly when the depth returns there for
  the first time.
* `TapeMachine.Encloses.nested_or_disjoint` — two pairs of brackets do not cross.
-/

set_option autoImplicit false

namespace TapeMachine

/-- The depth in front of position `k`: the brackets opened before it less the brackets
closed. -/
def depth (is : List Instruction) (k : Nat) : Int :=
  (is.take k).count .loopOpen - (is.take k).count .loopClose

/-- The brackets of a list of instructions balance: no beginning of the list closes more of them
than it opens, and the whole list closes as many as it opens. -/
def Balanced (is : List Instruction) : Prop :=
  (∀ k ≤ is.length, (is.take k).count .loopClose ≤ (is.take k).count .loopOpen) ∧
    is.count .loopOpen = is.count .loopClose

instance (is : List Instruction) : Decidable (Balanced is) :=
  inferInstanceAs (Decidable (_ ∧ _))

/-- Position `i` holds a `[`, and position `j` the `]` that closes it: what stands between them
balances. -/
structure Encloses (is : List Instruction) (i j : Nat) : Prop where
  opening : is[i]? = some .loopOpen
  closing : is[j]? = some .loopClose
  lt : i < j
  between : Balanced ((is.drop (i + 1)).take (j - (i + 1)))

section

variable {is : List Instruction} {i j k : Nat}

/-! ## The depth from position to position -/

@[simp]
lemma depth_zero (is : List Instruction) : depth is 0 = 0 := by
  simp [depth]

/-- Behind a `[` the depth is greater by one. -/
lemma depth_succ_of_open (h : is[k]? = some .loopOpen) : depth is (k + 1) = depth is k + 1 := by
  simp only [depth, List.take_add_one, h, Option.toList_some, List.count_append]
  simp
  omega

/-- Behind a `]` the depth is less by one. -/
lemma depth_succ_of_close (h : is[k]? = some .loopClose) :
    depth is (k + 1) = depth is k - 1 := by
  simp only [depth, List.take_add_one, h, Option.toList_some, List.count_append]
  simp
  omega

/-- Behind any other instruction, and past the end, the depth is what it was. -/
lemma depth_succ_of_plain (ho : is[k]? ≠ some .loopOpen) (hc : is[k]? ≠ some .loopClose) :
    depth is (k + 1) = depth is k := by
  simp only [depth, List.take_add_one, List.count_append]
  cases h : is[k]? with
  | none => simp
  | some a =>
    rw [h] at ho hc
    have ha : a ≠ .loopOpen := fun e => ho (congrArg some e)
    have hb : a ≠ .loopClose := fun e => hc (congrArg some e)
    simp [ha, hb]

/-- The depth further on is reached by counting from a position in between. -/
lemma depth_add (is : List Instruction) (a k : Nat) :
    depth is (a + k) = depth is a + depth (is.drop a) k := by
  simp only [depth, List.take_add, List.count_append]
  omega

lemma depth_take (is : List Instruction) (n k : Nat) :
    depth (is.take n) k = depth is (min k n) := by
  simp only [depth, List.take_take]

/-- **Balance and depth**: brackets balance exactly when the depth is never negative and is zero
at the end. -/
lemma balanced_iff_depth :
    Balanced is ↔ (∀ k ≤ is.length, 0 ≤ depth is k) ∧ depth is is.length = 0 := by
  unfold Balanced depth
  rw [List.take_length]
  constructor
  · rintro ⟨h, ht⟩
    exact ⟨fun k hk => by have := h k hk; omega, by omega⟩
  · rintro ⟨h, ht⟩
    exact ⟨fun k hk => by have := h k hk; omega, by omega⟩

/-- The depth of a part of a list, counted from the start of the part. -/
lemma depth_between (is : List Instruction) (i n k : Nat) :
    depth ((is.drop i).take n) k = depth is (i + min k n) - depth is i := by
  rw [depth_take, depth_add]
  omega

lemma depth_append (as bs : List Instruction) (k : Nat) :
    depth (as ++ bs) k = depth as k + depth bs (k - as.length) := by
  simp only [depth, List.take_append, List.count_append]
  omega

/-- Behind the end of a list whose brackets balance the depth is zero. -/
lemma Balanced.depth_eq_zero (h : Balanced is) (hk : is.length ≤ k) : depth is k = 0 := by
  have hend := (balanced_iff_depth.mp h).2
  simp only [depth, List.take_of_length_le hk, List.take_length] at hend ⊢
  exact hend

/-- In a list whose brackets balance the depth is nowhere negative. -/
lemma Balanced.depth_nonneg (h : Balanced is) (k : Nat) : 0 ≤ depth is k := by
  rcases Nat.le_total k is.length with hk | hk
  · exact (balanced_iff_depth.mp h).1 k hk
  · exact (h.depth_eq_zero hk).ge

/-- Brackets that balance, followed by brackets that balance, balance. -/
lemma Balanced.append {as bs : List Instruction} (ha : Balanced as) (hb : Balanced bs) :
    Balanced (as ++ bs) := by
  refine balanced_iff_depth.mpr ⟨fun k _ => ?_, ?_⟩
  · rw [depth_append]
    exact Int.add_nonneg (ha.depth_nonneg k) (hb.depth_nonneg _)
  · rw [depth_append, ha.depth_eq_zero (by simp), hb.depth_eq_zero (by simp), Int.add_zero]

/-- Brackets that balance, within a pair of brackets, balance. -/
lemma Balanced.enclose (h : Balanced is) : Balanced (.loopOpen :: (is ++ [.loopClose])) := by
  have hdepth : ∀ k, depth (.loopOpen :: (is ++ [.loopClose])) (k + 1) =
      1 + depth is k + depth [.loopClose] (k - is.length) := by
    intro k
    have hopen : depth [Instruction.loopOpen] (k + 1) = 1 := by simp [depth]
    rw [show Instruction.loopOpen :: (is ++ [.loopClose]) = [.loopOpen] ++ (is ++ [.loopClose])
      from rfl, depth_append, hopen, depth_append, Int.add_assoc]
    rfl
  have hclose : ∀ k, depth [Instruction.loopClose] (k + 1) = -1 := by simp [depth]
  refine balanced_iff_depth.mpr ⟨fun k _ => ?_, ?_⟩
  · cases k with
    | zero => rw [depth_zero]
    | succ k =>
      rw [hdepth]
      have hinner := h.depth_nonneg k
      rcases Nat.lt_or_ge is.length k with hk | hk
      · obtain ⟨n, rfl⟩ : ∃ n, k = is.length + (n + 1) := ⟨k - is.length - 1, by omega⟩
        rw [Nat.add_sub_cancel_left, hclose]
        omega
      · rw [Nat.sub_eq_zero_of_le hk, depth_zero]
        omega
  · rw [List.length_cons, hdepth, h.depth_eq_zero (by simp), List.length_append,
      List.length_singleton, Nat.add_sub_cancel_left, hclose]
    rfl

/-! ## Pairs of brackets -/

/-- **Pairs by depth**: a `]` closes a `[` exactly when the depth returns there for the first time
to its value in front of the `[`. -/
lemma encloses_iff_depth :
    Encloses is i j ↔
      is[i]? = some .loopOpen ∧ is[j]? = some .loopClose ∧ i < j ∧
        depth is (j + 1) = depth is i ∧ ∀ k, i < k → k ≤ j → depth is i < depth is k := by
  have hsplit : i < j → is[j]? = some .loopClose →
      ((is.drop (i + 1)).take (j - (i + 1))).length = j - (i + 1) := by
    intro hlt hj
    have hlen := (List.getElem?_eq_some_iff.mp hj).1
    rw [List.length_take, List.length_drop]
    omega
  constructor
  · rintro ⟨hi, hj, hlt, hb⟩
    obtain ⟨hpos, hzero⟩ := balanced_iff_depth.mp hb
    rw [hsplit hlt hj] at hpos hzero
    have hin := depth_succ_of_open hi
    rw [depth_between, min_self, show i + 1 + (j - (i + 1)) = j by omega] at hzero
    refine ⟨hi, hj, hlt, ?_, fun k hik hkj => ?_⟩
    · rw [depth_succ_of_close hj]
      omega
    · have hk := hpos (k - (i + 1)) (by omega)
      rw [depth_between, show i + 1 + min (k - (i + 1)) (j - (i + 1)) = k by omega] at hk
      omega
  · rintro ⟨hi, hj, hlt, hret, hgt⟩
    have hin := depth_succ_of_open hi
    have hout := depth_succ_of_close hj
    refine ⟨hi, hj, hlt, balanced_iff_depth.mpr ⟨fun k hk => ?_, ?_⟩⟩
    · rw [hsplit hlt hj] at hk
      have := hgt (i + 1 + k) (by omega) (by omega)
      rw [depth_between, min_eq_left hk]
      omega
    · rw [hsplit hlt hj, depth_between, min_self, show i + 1 + (j - (i + 1)) = j by omega]
      omega

namespace Encloses

/-- A list whose brackets balance, within a pair of brackets, anywhere in a list. -/
lemma of_balanced {front body back : List Instruction} (hb : Balanced body) :
    Encloses (front ++ .loopOpen :: (body ++ .loopClose :: back)) front.length
      (front.length + 1 + body.length) where
  opening := by simp
  closing := by
    rw [List.getElem?_append_right (by omega), Nat.add_assoc, Nat.add_sub_cancel_left, Nat.add_comm,
      List.getElem?_cons_succ, List.getElem?_append_right le_rfl, Nat.sub_self]
    rfl
  lt := by omega
  between := by
    rw [Nat.add_sub_cancel_left, ← List.drop_drop, List.drop_left]
    simpa using hb

/-- Behind a pair of brackets the depth is what it was in front of it. -/
lemma depth_succ_closing (h : Encloses is i j) : depth is (j + 1) = depth is i :=
  (encloses_iff_depth.mp h).2.2.2.1

/-- Within a pair of brackets the depth is greater than in front of it. -/
lemma depth_lt (h : Encloses is i j) (hi : i < k) (hj : k ≤ j) : depth is i < depth is k :=
  (encloses_iff_depth.mp h).2.2.2.2 k hi hj

/-- A `[` is closed by one `]` only. -/
lemma right_unique {j' : Nat} (h : Encloses is i j) (h' : Encloses is i j') : j = j' := by
  rcases Nat.lt_trichotomy j j' with hlt | heq | hlt
  · have := h'.depth_lt (k := j + 1) (by have := h.lt; omega) (by omega)
    rw [h.depth_succ_closing] at this
    omega
  · exact heq
  · have := h.depth_lt (k := j' + 1) (by have := h'.lt; omega) (by omega)
    rw [h'.depth_succ_closing] at this
    omega

/-- A `]` closes one `[` only. -/
lemma left_unique {i' : Nat} (h : Encloses is i j) (h' : Encloses is i' j) : i = i' := by
  have hdepth : depth is i = depth is i' := by
    rw [← h.depth_succ_closing, h'.depth_succ_closing]
  rcases Nat.lt_trichotomy i i' with hlt | heq | hlt
  · have := h.depth_lt hlt (by have := h'.lt; omega)
    omega
  · exact heq
  · have := h'.depth_lt hlt (by have := h.lt; omega)
    omega

/-- A position does not open one pair and close another. -/
lemma opening_ne_closing {i' j' : Nat} (h : Encloses is i j) (h' : Encloses is i' j') :
    i ≠ j' := by
  rintro rfl
  have := h.opening.symm.trans h'.closing
  simp at this

/-- **Pairs do not cross**: of two pairs the one that opens later lies behind the other or inside
it. -/
lemma nested_or_disjoint {i' j' : Nat} (h : Encloses is i j) (h' : Encloses is i' j')
    (hlt : i < i') : j < i' ∨ j' < j := by
  by_cases hin : j < i'
  · exact Or.inl hin
  · refine Or.inr ?_
    have hne : i' ≠ j := h'.opening_ne_closing h
    by_contra hcross
    rcases Nat.eq_or_lt_of_le (Nat.le_of_not_lt hcross) with heq | hgt
    · subst heq
      have := h.left_unique h'
      omega
    · -- the second pair would still be open behind the first, at the depth in front of the first
      have hdeep := h.depth_lt hlt (by omega)
      have hback := h'.depth_lt (k := j + 1) (by omega) (by omega)
      rw [h.depth_succ_closing] at hback
      omega

end Encloses

end

end TapeMachine
