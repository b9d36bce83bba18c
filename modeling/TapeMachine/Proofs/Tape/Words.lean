import Mathlib.Tactic
import TapeMachine.Proofs.Tape.Strip

/-!
# The tape in machine words

Addresses are signed words of 64 bits, and lengths, indices and the limit are unsigned ones. An
address is translated into a half and an index in it, and the limit is compared with the number of
cells that the tape would have: all of it by calculations with words, which wrap around. The halves
are so short, and the steps of the calculations in such an order, that none of them does, not even
at the least and the greatest address.

## Main definitions

* `TapeMachine.Half`, `TapeMachine.Tape.half` — the halves of a tape.
* `TapeMachine.Tape.FitsWords` — the lengths of a tape and its limit fit into words.
* `TapeMachine.Tape.Words.slot`, `TapeMachine.Tape.Words.read`, `TapeMachine.Tape.Words.extent`,
  `TapeMachine.Tape.Words.growth` — the operations of the tape, calculated in words.
* `TapeMachine.Tape.Words.Exact` — every step of these calculations gives the exact integer.

## Main results

* `TapeMachine.Tape.Words.toInt_eq_address` — an address is that of its half and its index.
* `TapeMachine.Tape.Words.exact` — the calculations are exact.
* `TapeMachine.Tape.Words.result_growth` — a tape grows as calculated in words.
* `TapeMachine.Tape.words_are_exact` — the operations calculated in words are those of the tape.
-/

set_option autoImplicit false

namespace TapeMachine

/-! ## Words without overflow -/

section

variable {a b : Int64} {m n : UInt64}

/-- A signed sum that fits into a word is exact. -/
lemma toInt_add_of_fits (hle : -2 ^ 63 ≤ a.toInt + b.toInt) (hlt : a.toInt + b.toInt < 2 ^ 63) :
    (a + b).toInt = a.toInt + b.toInt := by
  rw [Int64.toInt_add]
  apply Int.bmod_eq_of_le <;> omega

/-- A signed difference that fits into a word is exact. -/
lemma toInt_sub_of_fits (hle : -2 ^ 63 ≤ a.toInt - b.toInt) (hlt : a.toInt - b.toInt < 2 ^ 63) :
    (a - b).toInt = a.toInt - b.toInt := by
  rw [Int64.toInt_sub]
  apply Int.bmod_eq_of_le <;> omega

/-- A negation is exact, but for that of the least word. -/
lemma toInt_neg_of_lt (h : -2 ^ 63 < a.toInt) : (-a).toInt = -a.toInt := by
  have hlt := a.toInt_lt
  rw [Int64.toInt_neg]
  apply Int.bmod_eq_of_le <;> omega

/-- A signed word that is not negative stays the same number when it is taken as unsigned. -/
lemma toNat_toUInt64_of_nonneg (h : 0 ≤ a.toInt) : (a.toUInt64.toNat : Int) = a.toInt := by
  have hle : 0 ≤ a := by
    rwa [Int64.le_iff_toInt_le]
  rw [Int64.toNat_toUInt64_of_le hle, Int64.toInt_eq_toNatClampNeg hle]

/-- An unsigned sum that fits into a word is exact. -/
lemma toNat_add_of_fits (h : m.toNat + n.toNat < 2 ^ 64) : (m + n).toNat = m.toNat + n.toNat := by
  rw [UInt64.toNat_add, Nat.mod_eq_of_lt h]

/-- An unsigned word below the middle stays the same number when it is taken as signed. -/
lemma toInt_toInt64_of_lt (h : n.toNat < 2 ^ 63) : n.toInt64.toInt = n.toNat := by
  rw [← UInt64.ofNat_toNat (x := n), UInt64.toInt64_ofNat', Int64.toInt_ofNat_of_lt h,
    UInt64.ofNat_toNat]

end

/-! ## Halves -/

/-- A half of the tape. -/
inductive Half
  /-- The cells at `0, 1, 2, …`. -/
  | right
  /-- The cells at `-1, -2, -3, …`. -/
  | left
deriving DecidableEq, Repr

/-- The address at an index in a half. -/
def Half.address : Half → Nat → Int
  | .right, index => .ofNat index
  | .left, index => .negSucc index

namespace Tape

/-- The cells of a half that are stored. -/
def half (t : Tape) : Half → Array UInt8
  | .right => t.right
  | .left => t.left

/-- Adds zero cells to a half up to a length. -/
def resize (t : Tape) (half : Half) (length : Nat) : Tape :=
  match half with
  | .right =>
    { t with
      right := t.right ++ Array.replicate (length - t.right.size) 0
      origin_stored := by
        have := t.origin_stored
        simp only [Array.size_append]
        omega }
  | .left => { t with left := t.left ++ Array.replicate (length - t.left.size) 0 }

section

variable (t : Tape) (half : Half) (index : Nat)

lemma read_address : t.read (half.address index) = (t.half half).getD index 0 := by
  cases half <;> rfl

lemma shortfall_address :
    t.shortfall (half.address index) = index + 1 - (t.half half).size := by
  cases half <;> rfl

lemma extend_address : t.extend (half.address index) = t.resize half (index + 1) := by
  cases half <;> rfl

lemma size_eq_halves : t.size = (t.half .right).size + (t.half .left).size := rfl

/-- The number of cells of a tape that has grown to an address. -/
lemma size_extend (a : Int) : (t.extend a).size = t.size + t.shortfall a := by
  have hsize := (t.extend a).size_eq_span
  rw [extent_extend, ← size_add_shortfall] at hsize
  exact_mod_cast hsize

end

/-- A tape fits into machine words: no half is longer than an array of bytes can be, and the limit
is a word. -/
structure FitsWords (t : Tape) : Prop where
  /-- A half has less than `2 ^ 63` cells. -/
  size_lt : ∀ half, (t.half half).size < 2 ^ 63
  /-- The limit is less than `2 ^ 64`. -/
  limit_lt : ∀ limit, t.limit = some limit → limit < 2 ^ 64

namespace Words

/-! ## The operations in words -/

/-- The half in which an address lies, and its index there. -/
def slot (a : Int64) : Half × UInt64 :=
  if 0 ≤ a then (.right, a.toUInt64) else (.left, (-(a + 1)).toUInt64)

/-- The length of a half. -/
def length (t : Tape) (half : Half) : UInt64 := .ofNat (t.half half).size

/-- The number of cells. -/
def size (t : Tape) : UInt64 := length t .right + length t .left

/-- How many cells the half of an address lacks. -/
def missing (t : Tape) (a : Int64) : UInt64 := (slot a).2 + 1 - length t (slot a).1

/-- The cell at an address. -/
def read (t : Tape) (a : Int64) : UInt8 := (t.half (slot a).1).getD (slot a).2.toNat 0

/-- The least and the greatest stored address. -/
def extent (t : Tape) : Int64 × Int64 :=
  (-(length t .left).toInt64, (length t .right).toInt64 - 1)

/-- What it takes to store an address. -/
inductive Growth
  /-- Nothing: it is stored. -/
  | stored
  /-- More than the limit allows. Nothing is allocated. -/
  | refused (limit : UInt64)
  /-- A half has to be resized. -/
  | resized (half : Half) (length : UInt64)
deriving DecidableEq, Repr

/-- What it takes to store an address. -/
def growth (t : Tape) (a : Int64) : Growth :=
  if (slot a).2 < length t (slot a).1 then .stored
  else
    match t.limit.map UInt64.ofNat with
    | some limit =>
      if limit < size t + missing t a then .refused limit
      else .resized (slot a).1 ((slot a).2 + 1)
    | none => .resized (slot a).1 ((slot a).2 + 1)

/-- The tape that has grown to an address, or its refusal. -/
def Growth.result (t : Tape) (a : Int64) : Growth → Except OutOfCells Tape
  | .stored => .ok t
  | .refused limit => .error ⟨a.toInt, limit.toNat⟩
  | .resized half length => .ok (t.resize half length.toNat)

/-- Every step of the calculations gives the exact integer: none wraps around. The steps for the
cells that are lacking are only taken if the address is not stored. -/
structure Exact (t : Tape) (a : Int64) : Prop where
  /-- The sum `a + 1`. -/
  succ : a < 0 → (a + 1).toInt = a.toInt + 1
  /-- Its negation. -/
  neg : a < 0 → (-(a + 1)).toInt = -(a + 1).toInt
  /-- The index on the right, as an unsigned word. -/
  index_right : 0 ≤ a → ((slot a).2.toNat : Int) = a.toInt
  /-- The index on the left, as an unsigned word. -/
  index_left : a < 0 → ((slot a).2.toNat : Int) = (-(a + 1)).toInt
  /-- The length of a half. -/
  length : ∀ half, (length t half).toNat = (t.half half).size
  /-- The length that the half needs. -/
  index_succ : ((slot a).2 + 1).toNat = (slot a).2.toNat + 1
  /-- The number of cells that it lacks. -/
  missing : Words.length t (slot a).1 ≤ (slot a).2 →
    ((missing t a).toNat : Int) = ((slot a).2 + 1).toNat - (Words.length t (slot a).1).toNat
  /-- The number of cells of the tape. -/
  size : (size t).toNat = (Words.length t .right).toNat + (Words.length t .left).toNat
  /-- The number of cells that it would have. -/
  total : Words.length t (slot a).1 ≤ (slot a).2 →
    (Words.size t + Words.missing t a).toNat = (Words.size t).toNat + (Words.missing t a).toNat
  /-- The lengths of the halves, as signed words. -/
  signed : ∀ half, (Words.length t half).toInt64.toInt = (Words.length t half).toNat
  /-- The least address. -/
  least : (-(Words.length t .left).toInt64).toInt = -(Words.length t .left).toInt64.toInt
  /-- The greatest address. -/
  greatest :
    ((Words.length t .right).toInt64 - 1).toInt = (Words.length t .right).toInt64.toInt - 1

/-! ## Addresses -/

section

variable {a b : Int64}

lemma slot_of_nonneg (h : 0 ≤ a.toInt) : slot a = (.right, a.toUInt64) := by
  rw [slot, if_pos (by rwa [Int64.le_iff_toInt_le])]

lemma slot_of_neg (h : a.toInt < 0) : slot a = (.left, (-(a + 1)).toUInt64) := by
  rw [slot, if_neg (by rw [Int64.le_iff_toInt_le, Int64.toInt_zero]; omega)]

lemma toInt_succ_of_neg (h : a.toInt < 0) : (a + 1).toInt = a.toInt + 1 := by
  have hle := a.le_toInt
  have hone : (1 : Int64).toInt = 1 := rfl
  rw [toInt_add_of_fits] <;> omega

/-- The negation is taken of the successor, which is never the least word. -/
lemma toInt_neg_succ_of_neg (h : a.toInt < 0) : (-(a + 1)).toInt = -(a.toInt + 1) := by
  have hle := a.le_toInt
  have hsucc := toInt_succ_of_neg h
  rw [toInt_neg_of_lt (by omega), hsucc]

/-- The index of an address that is not negative is the address. -/
lemma toNat_index_of_nonneg (h : 0 ≤ a.toInt) : ((slot a).2.toNat : Int) = a.toInt := by
  rw [slot_of_nonneg h]
  exact toNat_toUInt64_of_nonneg h

/-- The index of a negative address is what it takes to reach the address from `-1`. -/
lemma toNat_index_of_neg (h : a.toInt < 0) : ((slot a).2.toNat : Int) = (-(a + 1)).toInt := by
  have hneg := toInt_neg_succ_of_neg h
  rw [slot_of_neg h]
  exact toNat_toUInt64_of_nonneg (a := -(a + 1)) (by omega)

/-- **An address is that of its half and its index.** -/
theorem toInt_eq_address (a : Int64) : a.toInt = (slot a).1.address (slot a).2.toNat := by
  rcases lt_or_ge a.toInt 0 with hneg | hnonneg
  · have hindex := toNat_index_of_neg hneg
    have hhalf : (slot a).1 = .left := by rw [slot_of_neg hneg]
    rw [toInt_neg_succ_of_neg hneg] at hindex
    rw [hhalf, Half.address, Int.negSucc_eq]
    omega
  · have hindex := toNat_index_of_nonneg hnonneg
    have hhalf : (slot a).1 = .right := by rw [slot_of_nonneg hnonneg]
    rw [hhalf, Half.address, Int.ofNat_eq_natCast]
    omega

/-- Within a half different addresses have different indices. -/
lemma slot_injective : Function.Injective slot := by
  intro a b h
  rw [← Int64.toInt_inj, toInt_eq_address, toInt_eq_address b, h]

/-- An index is less than `2 ^ 63`. -/
lemma index_lt (a : Int64) : (slot a).2.toNat < 2 ^ 63 := by
  have hle := a.le_toInt
  have hlt := a.toInt_lt
  rcases lt_or_ge a.toInt 0 with hneg | hnonneg
  · have hindex := toNat_index_of_neg hneg
    rw [toInt_neg_succ_of_neg hneg] at hindex
    omega
  · have hindex := toNat_index_of_nonneg hnonneg
    omega

/-- The cell at an address is found in words. -/
lemma read_eq (t : Tape) (a : Int64) : read t a = t.read a.toInt := by
  rw [toInt_eq_address a, read_address, read]

/-- The length that a half needs to hold an index. -/
lemma toNat_index_succ (a : Int64) : ((slot a).2 + 1).toNat = (slot a).2.toNat + 1 := by
  have hindex := index_lt a
  have hone : (1 : UInt64).toNat = 1 := rfl
  rw [toNat_add_of_fits] <;> omega

end

/-! ## No step overflows -/

section

variable {t : Tape} (h : t.FitsWords) (a : Int64)
include h

lemma toNat_length (half : Half) : (length t half).toNat = (t.half half).size := by
  have hlt := h.size_lt half
  apply UInt64.toNat_ofNat_of_lt'
  unfold UInt64.size
  omega

lemma toInt_length (half : Half) : (length t half).toInt64.toInt = (length t half).toNat := by
  apply toInt_toInt64_of_lt
  rw [toNat_length h]
  exact h.size_lt half

lemma toNat_size : (size t).toNat = t.size := by
  have hright := h.size_lt .right
  have hleft := h.size_lt .left
  have hsum := t.size_eq_halves
  rw [size, toNat_add_of_fits] <;> simp only [toNat_length h] <;> omega

/-- An address is not stored if its index lies behind the cells of its half. -/
lemma length_le_iff : length t (slot a).1 ≤ (slot a).2 ↔ 0 < t.shortfall a.toInt := by
  rw [UInt64.le_iff_toNat_le, toNat_length h, toInt_eq_address a, shortfall_address]
  omega

/-- What a half lacks is calculated without underflow, since the index lies behind its cells. -/
lemma toNat_missing (hlack : 0 < t.shortfall a.toInt) :
    (missing t a).toNat = t.shortfall a.toInt := by
  have hle : length t (slot a).1 ≤ (slot a).2 + 1 := by
    have hle := (length_le_iff h a).mpr hlack
    rw [UInt64.le_iff_toNat_le] at hle ⊢
    rw [toNat_index_succ]
    omega
  rw [missing, UInt64.toNat_sub_of_le _ _ hle, toNat_index_succ, toNat_length h,
    toInt_eq_address a, shortfall_address]

/-- The number of cells that the tape would have fits into a word: what the half of the address has
and what it lacks make up an index and one, which is `2 ^ 63` at most, and the other half has less
than that. -/
lemma size_add_shortfall_lt : t.size + t.shortfall a.toInt < 2 ^ 64 := by
  have hright := h.size_lt .right
  have hleft := h.size_lt .left
  have hindex := index_lt a
  rw [toInt_eq_address a, shortfall_address, size_eq_halves]
  cases (slot a).1 <;> omega

lemma toNat_total (hlack : 0 < t.shortfall a.toInt) :
    (size t + missing t a).toNat = (size t).toNat + (missing t a).toNat := by
  have hlt := size_add_shortfall_lt h a
  apply toNat_add_of_fits
  rwa [toNat_size h, toNat_missing h a hlack]

/-- **The calculations are exact.** -/
theorem exact : Exact t a := by
  have hneg : a < 0 → a.toInt < 0 := Int64.lt_iff_toInt_lt.mp
  have hnonneg : 0 ≤ a → 0 ≤ a.toInt := Int64.le_iff_toInt_le.mp
  constructor
  case succ => exact fun hlt => toInt_succ_of_neg (hneg hlt)
  case neg =>
    intro hlt
    rw [toInt_neg_succ_of_neg (hneg hlt), toInt_succ_of_neg (hneg hlt)]
  case index_right => exact fun hle => toNat_index_of_nonneg (hnonneg hle)
  case index_left => exact fun hlt => toNat_index_of_neg (hneg hlt)
  case length => exact toNat_length h
  case index_succ => exact toNat_index_succ a
  case missing =>
    intro hle
    have hlack := (length_le_iff h a).mp hle
    rw [toNat_missing h a hlack, toNat_index_succ, toNat_length h, toInt_eq_address a,
      shortfall_address]
    rw [toInt_eq_address a, shortfall_address] at hlack
    omega
  case size => rw [toNat_size h, toNat_length h, toNat_length h, size_eq_halves]
  case total => exact fun hle => toNat_total h a ((length_le_iff h a).mp hle)
  case signed => exact toInt_length h
  case least =>
    apply toInt_neg_of_lt
    rw [toInt_length h]
    omega
  case greatest =>
    have hlt := h.size_lt .right
    have hone : (1 : Int64).toInt = 1 := rfl
    have hsigned := toInt_length h .right
    rw [toNat_length h] at hsigned
    rw [toInt_sub_of_fits] <;> omega

/-! ## The operations are those of the tape -/

lemma toInt_extent : ((extent t).1.toInt, (extent t).2.toInt) = t.extent := by
  have hexact := exact h 0
  have hright := hexact.signed .right
  have hleft := hexact.signed .left
  rw [toNat_length h] at hright hleft
  rw [extent, hexact.least, hexact.greatest, hright, hleft]
  rfl

/-- A limit is the same number as a word. -/
lemma toNat_ofNat_limit {limit : Nat} (hlimit : t.limit = some limit) :
    (UInt64.ofNat limit).toNat = limit := by
  have hlt := h.limit_lt limit hlimit
  apply UInt64.toNat_ofNat_of_lt'
  unfold UInt64.size
  omega

/-- The comparison with the limit, in words and in numbers. -/
lemma limit_lt_iff {limit : Nat} (hlimit : t.limit = some limit)
    (hlack : 0 < t.shortfall a.toInt) :
    UInt64.ofNat limit < size t + missing t a ↔ limit < (t.extend a.toInt).size := by
  rw [UInt64.lt_iff_toNat_lt, toNat_ofNat_limit h hlimit, toNat_total h a hlack, toNat_size h,
    toNat_missing h a hlack, size_extend]

/-- What it takes to store an address, in numbers. -/
lemma growth_eq :
    growth t a =
      if t.shortfall a.toInt = 0 then .stored
      else
        match t.limit with
        | some limit =>
          if limit < (t.extend a.toInt).size then .refused (.ofNat limit)
          else .resized (slot a).1 ((slot a).2 + 1)
        | none => .resized (slot a).1 ((slot a).2 + 1) := by
  have hle := length_le_iff h a
  have hstored : (slot a).2 < length t (slot a).1 ↔ t.shortfall a.toInt = 0 := by
    rw [← UInt64.not_le, hle]
    omega
  unfold growth
  simp only [hstored]
  split
  · rfl
  · rename_i hlack
    cases hlimit : t.limit with
    | none => rfl
    | some limit => simp only [Option.map_some, limit_lt_iff h a hlimit (Nat.pos_of_ne_zero hlack)]

/-- **The limit refuses an address** exactly if it is not stored and the tape would have more cells
than the limit says. -/
theorem growth_eq_refused_iff {limit : UInt64} :
    growth t a = .refused limit ↔
      t.limit = some limit.toNat ∧ 0 < t.shortfall a.toInt ∧
        limit.toNat < (t.extend a.toInt).size := by
  rw [growth_eq h]
  by_cases hstored : t.shortfall a.toInt = 0
  · simp [hstored]
  rw [if_neg hstored]
  cases hlimit : t.limit with
  | none => simp
  | some n =>
    have hword := toNat_ofNat_limit h hlimit
    simp only [Option.some.injEq]
    constructor
    · intro hgrowth
      split at hgrowth
      · rename_i hlt
        cases hgrowth
        rw [hword]
        exact ⟨rfl, Nat.pos_of_ne_zero hstored, hlt⟩
      · cases hgrowth
    · rintro ⟨rfl, -, hlt⟩
      rw [if_pos hlt, UInt64.ofNat_toNat]

/-- **A tape grows as calculated in words.** -/
theorem result_growth : (growth t a).result t a = t.growTo a.toInt := by
  have hresize : t.resize (slot a).1 ((slot a).2 + 1).toNat = t.extend a.toInt := by
    rw [toNat_index_succ, toInt_eq_address a, extend_address]
  rw [growth_eq h, growTo]
  by_cases hstored : t.shortfall a.toInt = 0
  · rw [if_pos hstored, refusal?_of_shortfall t _ hstored, extend_of_shortfall t _ hstored]
    rfl
  rw [if_neg hstored]
  cases hlimit : t.limit with
  | none =>
    rw [refusal?_of_limit_eq_none t _ hlimit]
    exact congrArg Except.ok hresize
  | some limit =>
    have hrefusal : t.refusal? a.toInt =
        if limit < (t.extend a.toInt).size then some ⟨a.toInt, limit⟩ else none := by
      simp only [refusal?, hlimit, size_extend, Nat.pos_of_ne_zero hstored, true_and]
    rw [hrefusal]
    by_cases hlt : limit < (t.extend a.toInt).size
    · simp only [if_pos hlt, Growth.result, toNat_ofNat_limit h hlimit]
    · simp only [if_neg hlt, Growth.result, hresize]

end

end Words

/-- **The tape is calculated exactly in machine words.** Let no half of a tape have more cells than
an array of bytes can have, and let its limit be a word. Then for every address every step of the
translation of this address, of the comparison with the limit, of a read and of the extent gives the
exact integer. Within a half different addresses have different indices. The operations that are
calculated in words are those of the tape. And the limit refuses an address, be it the least or the
greatest one, exactly if it is not stored and the number of cells that the tape would have exceeds
the limit; the tape is left as it is then. -/
theorem words_are_exact (t : Tape) (h : t.FitsWords) :
    (∀ a : Int64, Words.Exact t a) ∧
    (∀ a b : Int64, (Words.slot a).1 = (Words.slot b).1 → (Words.slot a).2 = (Words.slot b).2 →
      a = b) ∧
    (∀ a : Int64, Words.read t a = t.read a.toInt) ∧
    ((Words.extent t).1.toInt, (Words.extent t).2.toInt) = t.extent ∧
    (∀ a : Int64, (Words.growth t a).result t a = t.growTo a.toInt) ∧
    (∀ (a : Int64) (limit : UInt64), Words.growth t a = .refused limit ↔
      t.limit = some limit.toNat ∧ ¬ (t.extent.1 ≤ a.toInt ∧ a.toInt ≤ t.extent.2) ∧
        limit.toNat < (t.extend a.toInt).size) ∧
    (∀ (a : Int64) (limit : UInt64), Words.growth t a = .refused limit →
      t.perform (.grow a.toInt) = (.refused ⟨a.toInt, limit.toNat⟩, t)) := by
  refine ⟨Words.exact h, fun a b hhalf hindex => Words.slot_injective (Prod.ext hhalf hindex),
    Words.read_eq t, Words.toInt_extent h, Words.result_growth h, fun a limit => ?_,
    fun a limit hrefused => ?_⟩
  · rw [Words.growth_eq_refused_iff h, ← shortfall_eq_zero_iff, Nat.pos_iff_ne_zero]
  · have hgrow := Words.result_growth h a
    rw [hrefused] at hgrow
    simp only [perform, ← hgrow]
    rfl

/-- A tape of at most two cells refuses the least address of all. -/
theorem words_are_exact_of_least_address :
    (blank (some 2)).FitsWords ∧ Words.growth (blank (some 2)) Int64.minValue = .refused 2 ∧
      (blank (some 2)).growTo (-2 ^ 63) = .error ⟨-2 ^ 63, 2⟩ := by
  have hfits : (blank (some 2)).FitsWords := by
    refine ⟨fun half => ?_, fun limit hlimit => ?_⟩
    · cases half <;> decide
    · cases hlimit
      decide
  obtain ⟨-, -, -, -, hgrow, hrefused, -⟩ := words_are_exact (blank (some 2)) hfits
  have hword : Words.growth (blank (some 2)) Int64.minValue = .refused 2 := by
    refine (hrefused _ _).mpr ⟨rfl, by decide, ?_⟩
    rw [size_extend]
    decide
  have hresult := hgrow Int64.minValue
  rw [hword] at hresult
  exact ⟨hfits, hword, hresult.symm⟩

end Tape

end TapeMachine
