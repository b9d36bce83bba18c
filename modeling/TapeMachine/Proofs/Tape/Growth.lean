import Mathlib.Tactic
import TapeMachine.Proofs.Tape.Access

/-!
# How far a tape grows

A tape stores the stretch between the least and the greatest address that was visited, and nothing
else. Growth over several visits is growth over all of them.

## Main definitions

* `TapeMachine.Tape.GrownBy` — a tape has grown from another just as far as some visits need.

## Main results

* `TapeMachine.Tape.GrownBy.trans` — visits one after another.
* `TapeMachine.Tape.read_of_outside` — what is not stored reads as zero.
* `TapeMachine.Tape.refusal?_of_beyond` — behind an address that is refused all are.
-/

set_option autoImplicit false

namespace TapeMachine

/-- The least element is found part by part: first in a set, and then among what was found and
another set. -/
lemma isLeast_insert_union {α : Type} [Preorder α] {s t : Set α} {a b c : α}
    (h : IsLeast (insert a s) b) (h' : IsLeast (insert b t) c) : IsLeast (insert a (s ∪ t)) c := by
  have hcb : c ≤ b := h'.2 (Set.mem_insert _ _)
  constructor
  · rcases h'.1 with rfl | hc
    · exact Set.insert_subset_insert Set.subset_union_left h.1
    · exact Or.inr (Or.inr hc)
  · rintro x (rfl | hx | hx)
    · exact hcb.trans (h.2 (Set.mem_insert _ _))
    · exact hcb.trans (h.2 (Or.inr hx))
    · exact h'.2 (Or.inr hx)

namespace Tape

variable {t t₁ t₂ : Tape} {a b : Int} {visited visited' : Set Int}

/-! ## Addresses outside the extent -/

/-- What is not stored reads as zero. -/
lemma read_of_outside (h : a < t.extent.1 ∨ t.extent.2 < a) : t.read a = 0 := by
  cases a with
  | ofNat n =>
    have hn : t.right.size ≤ n := by
      simp only [extent, Int.ofNat_eq_natCast] at h
      omega
    simp [read, Array.getD_eq_getD_getElem?, Array.getElem?_eq_none hn]
  | negSucc n =>
    have ho := t.origin_stored
    have hn : t.left.size ≤ n := by
      simp only [extent, Int.negSucc_eq] at h
      omega
    simp [read, Array.getD_eq_getD_getElem?, Array.getElem?_eq_none hn]

/-- The cell `0` is stored. -/
lemma zero_mem_extent : t.extent.1 ≤ 0 ∧ 0 ≤ t.extent.2 := by
  have := t.origin_stored
  simp only [extent]
  omega

/-- An address that is refused lies outside the extent. -/
lemma outside_of_refusal? (h : t.refusal? a ≠ none) : a < t.extent.1 ∨ t.extent.2 < a := by
  obtain ⟨e, he⟩ := Option.ne_none_iff_exists'.mp h
  have hout := ((refusal?_eq_some_iff t a).mp he).1
  omega

/-- **Behind an address that is refused all are**: to store them takes still more cells. -/
lemma refusal?_of_beyond (h : t.refusal? a ≠ none)
    (hb : t.extent.2 < a ∧ a ≤ b ∨ a < t.extent.1 ∧ b ≤ a) : t.refusal? b ≠ none := by
  obtain ⟨e, he⟩ := Option.ne_none_iff_exists'.mp h
  obtain ⟨-, limit, hlimit, hlt, -⟩ := (refusal?_eq_some_iff t a).mp he
  have ho := t.zero_mem_extent
  apply Option.ne_none_iff_exists'.mpr
  refine ⟨⟨b, limit⟩, (refusal?_eq_some_iff t b).mpr ⟨?_, limit, hlimit, ?_, rfl⟩⟩ <;> omega

/-! ## Growth -/

/-- A tape has grown from another just as far as it takes to store the addresses that were visited,
and no further than its limit allows. -/
structure GrownBy (t t' : Tape) (visited : Set Int) : Prop where
  limit : t'.limit = t.limit
  least : IsLeast (insert t.extent.1 visited) t'.extent.1
  greatest : IsGreatest (insert t.extent.2 visited) t'.extent.2
  within : ∀ n, t.limit = some n → t'.size ≤ max t.size n

namespace GrownBy

/-- Without visits a tape does not grow. -/
lemma of_extent (hlimit : t₁.limit = t.limit) (h : t₁.extent = t.extent) : GrownBy t t₁ ∅ := by
  have hsize := t.size_eq_span
  have hsize₁ := t₁.size_eq_span
  rw [h] at hsize₁
  refine ⟨hlimit, ?_, ?_, ?_⟩
  · rw [h, insert_empty_eq]
    exact isLeast_singleton
  · rw [h, insert_empty_eq]
    exact isGreatest_singleton
  · intro n _
    apply le_max_of_le_left
    omega

/-- A visit to an address that is not refused. -/
lemma single (hrefusal : t.refusal? a = none) (hlimit : t₁.limit = t.limit)
    (h : t₁.extent = (t.extend a).extent) : GrownBy t t₁ {a} := by
  rw [extent_extend] at h
  have ho := t.zero_mem_extent
  have hsize := t.size_eq_span
  have hsize₁ := t₁.size_eq_span
  refine ⟨hlimit, ?_, ?_, ?_⟩
  · rw [h]
    exact isLeast_pair
  · rw [h]
    exact isGreatest_pair
  · intro n hn
    rw [h] at hsize₁
    by_cases hin : t.extent.1 ≤ a ∧ a ≤ t.extent.2
    · apply le_max_of_le_left
      omega
    · -- the address was not stored, so that the limit has been asked
      apply le_max_of_le_right
      by_contra hlt
      have hsome := (refusal?_eq_some_iff t a).mpr ⟨hin, n, hn, by omega, rfl⟩
      rw [hrefusal] at hsome
      cases hsome

/-- Growth keeps what is stored. -/
lemma extent_le (h : GrownBy t t₁ visited) :
    t₁.extent.1 ≤ t.extent.1 ∧ t.extent.2 ≤ t₁.extent.2 :=
  ⟨h.least.2 (Set.mem_insert _ _), h.greatest.2 (Set.mem_insert _ _)⟩

/-- A tape does not lose cells. -/
lemma size_le (h : GrownBy t t₁ visited) : t.size ≤ t₁.size := by
  have hsize := t.size_eq_span
  have hsize₁ := t₁.size_eq_span
  have hle := h.extent_le
  omega

/-- **Visits one after another** are visits to all of the addresses. -/
theorem trans (h : GrownBy t t₁ visited) (h' : GrownBy t₁ t₂ visited') :
    GrownBy t t₂ (visited ∪ visited') := by
  refine ⟨h'.limit.trans h.limit, isLeast_insert_union h.least h'.least,
    isLeast_insert_union (α := Intᵒᵈ) h.greatest h'.greatest, ?_⟩
  intro n hn
  have hsize := h.within n hn
  have hsize' := h'.within n (h.limit.trans hn)
  omega

end GrownBy

end Tape

end TapeMachine
