import Mathlib.Tactic
import Mathlib.Data.Nat.Count
import TapeMachine.Proofs.Program.Depth

/-!
# Bracket matching is exact

The scan for the pairs of a program keeps a stack of open brackets and a table that is filled
pair by pair. What it has found in front of a position is stated once, as the invariant
`TapeMachine.Scanned`; the results on the finished table are read off it.

## Main definitions

* `TapeMachine.Scanned` — what the scan has found in front of a position.
* `TapeMachine.IsMatching` — a partial map that pairs the brackets of a program without
  crossings.

## Main results

* `TapeMachine.JumpTable.resolveFrom_spec` — the scan keeps its invariant to the end, or stops at
  a bracket that has no partner.
* `TapeMachine.JumpTable.target_of_encloses` — the table sends the brackets of a pair to each
  other.
* `TapeMachine.IsMatching.unique` — brackets that balance have one matching.
* `TapeMachine.JumpTable.resolve_iff_balanced_matching` — a table exists exactly for brackets that
  balance, and it is their matching.
-/

set_option autoImplicit false

namespace TapeMachine

/-- What the scan for pairs has found when it stands in front of position `n`, with the brackets
`pending` still open, innermost first. -/
structure Scanned (is : List Instruction) (n : Nat) (pending : List Nat) (targets : Array Nat) :
    Prop where
  size : targets.size = is.length
  le : n ≤ is.length
  nonneg : ∀ k ≤ n, 0 ≤ depth is k
  length_pending : (pending.length : Int) = depth is n
  pending_open : ∀ m p : Nat, pending[m]? = some p →
    p < n ∧ is[p]? = some .loopOpen ∧ depth is p + m + 1 = depth is n ∧
      ∀ k, p < k → k ≤ n → depth is p < depth is k
  opened : ∀ i < n, is[i]? = some .loopOpen → i ∈ pending ∨ ∃ j < n, Encloses is i j
  closed : ∀ j < n, is[j]? = some .loopClose → ∃ i, Encloses is i j
  paired : ∀ i j, Encloses is i j → j < n → targets.getD i i = j ∧ targets.getD j j = i
  unpaired : ∀ p, (∀ j, Encloses is p j → n ≤ j) → (∀ i, Encloses is i p → n ≤ p) →
    targets.getD p p = p

section Scan

variable {is : List Instruction} {n : Nat} {pending : List Nat} {targets : Array Nat}

/-- Reading a table at whose entry `i` the value `v` has been put. -/
lemma getD_setIfInBounds (a : Array Nat) {i : Nat} (v p d : Nat) (hi : i < a.size) :
    (a.setIfInBounds i v).getD p d = if i = p then v else a.getD p d := by
  rw [Array.getD_eq_getD_getElem?, Array.getD_eq_getD_getElem?, Array.getElem?_setIfInBounds,
    if_pos hi]
  by_cases h : i = p
  · rw [if_pos h, if_pos h, Option.getD_some]
  · rw [if_neg h, if_neg h]

/-- The first instruction of what is left stands at the position reached. -/
lemma getElem?_of_drop_eq_cons {a : Instruction} {as : List Instruction}
    (h : is.drop n = a :: as) : is[n]? = some a ∧ is.drop (n + 1) = as := by
  rw [← List.tail_drop, h, ← List.head?_drop, h]
  exact ⟨rfl, rfl⟩

/-- In front of the first instruction nothing has been found. -/
lemma Scanned.initial (is : List Instruction) : Scanned is 0 [] (Array.range is.length) where
  size := Array.size_range
  le := Nat.zero_le _
  nonneg := fun k hk => by
    obtain rfl : k = 0 := by omega
    simp
  length_pending := by simp
  pending_open := by simp
  opened := by simp
  closed := by simp
  paired := by simp
  unpaired := fun p _ _ => by
    rw [Array.getD_eq_getD_getElem?, Array.getElem?_range]
    split <;> simp

/-- The depth stays nonnegative if it is so one position further on. -/
lemma Scanned.nonneg_succ (h : Scanned is n pending targets) (hnext : 0 ≤ depth is (n + 1)) :
    ∀ k ≤ n + 1, 0 ≤ depth is k := by
  intro k hk
  rcases Nat.le_add_one_iff.mp hk with hle | rfl
  · exact h.nonneg k hle
  · exact hnext

/-- A bracket stays open if the depth is greater than in front of it one position further on. -/
lemma lt_depth_succ {p : Nat} (hgt : ∀ k, p < k → k ≤ n → depth is p < depth is k)
    (hnext : depth is p < depth is (n + 1)) :
    ∀ k, p < k → k ≤ n + 1 → depth is p < depth is k := by
  intro k hpk hk
  rcases Nat.le_add_one_iff.mp hk with hle | rfl
  · exact hgt k hpk hle
  · exact hnext

/-- The scan pushes a `[` onto its stack. -/
lemma Scanned.push (h : Scanned is n pending targets) (ho : is[n]? = some .loopOpen) :
    Scanned is (n + 1) (n :: pending) targets := by
  have hlt : n < is.length := (List.getElem?_eq_some_iff.mp ho).1
  have hdepth := depth_succ_of_open ho
  have hne : ∀ i j, Encloses is i j → j ≠ n := by
    rintro i j he rfl
    have := ho.symm.trans he.closing
    simp at this
  have hnonneg := h.nonneg n le_rfl
  refine ⟨h.size, hlt, h.nonneg_succ (by omega), ?_, fun m p hm => ?_, fun i hi hio => ?_,
    fun j hj hjc => ?_, fun i j he hj => ?_, fun p hopen hclose => ?_⟩
  · have := h.length_pending
    rw [List.length_cons, hdepth]
    omega
  · cases m with
    | zero =>
      obtain rfl : n = p := by simpa using hm
      exact ⟨by omega, ho, by rw [hdepth]; simp,
        lt_depth_succ (fun k h1 h2 => by omega) (by omega)⟩
    | succ m =>
      obtain ⟨hp, hpo, hd, hgt⟩ := h.pending_open m p (by simpa using hm)
      have hlast := hgt n hp le_rfl
      exact ⟨by omega, hpo, by rw [hdepth]; push_cast; omega, lt_depth_succ hgt (by omega)⟩
  · rcases Nat.lt_or_ge i n with hin | hin
    · rcases h.opened i hin hio with hmem | ⟨j, hj, he⟩
      · exact Or.inl (List.mem_cons_of_mem _ hmem)
      · exact Or.inr ⟨j, by omega, he⟩
    · obtain rfl : i = n := by omega
      exact Or.inl List.mem_cons_self
  · have : j ≠ n := by
      rintro rfl
      rw [ho] at hjc
      simp at hjc
    exact h.closed j (by omega) hjc
  · have := hne i j he
    exact h.paired i j he (by omega)
  · exact h.unpaired p (fun j he => by have := hopen j he; omega)
      (fun i he => by have := hclose i he; omega)

/-- The scan passes over what is no bracket. -/
lemma Scanned.skip (h : Scanned is n pending targets) (hlt : n < is.length)
    (ho : is[n]? ≠ some .loopOpen) (hc : is[n]? ≠ some .loopClose) :
    Scanned is (n + 1) pending targets := by
  have hdepth := depth_succ_of_plain ho hc
  have hne : ∀ i j, Encloses is i j → j ≠ n := by
    rintro i j he rfl
    exact hc he.closing
  have hnonneg := h.nonneg n le_rfl
  refine ⟨h.size, hlt, h.nonneg_succ (by omega), ?_, fun m p hm => ?_, fun i hi hio => ?_,
    fun j hj hjc => ?_, fun i j he hj => ?_, fun p hopen hclose => ?_⟩
  · rw [hdepth]
    exact h.length_pending
  · obtain ⟨hp, hpo, hd, hgt⟩ := h.pending_open m p hm
    have hlast := hgt n hp le_rfl
    exact ⟨by omega, hpo, by rw [hdepth]; exact hd, lt_depth_succ hgt (by omega)⟩
  · have hin : i ≠ n := by
      rintro rfl
      exact ho hio
    rcases h.opened i (by omega) hio with hmem | ⟨j, hj, he⟩
    · exact Or.inl hmem
    · exact Or.inr ⟨j, by omega, he⟩
  · have hjn : j ≠ n := by
      rintro rfl
      exact hc hjc
    exact h.closed j (by omega) hjc
  · have := hne i j he
    exact h.paired i j he (by omega)
  · exact h.unpaired p (fun j he => by have := hopen j he; omega)
      (fun i he => by have := hclose i he; omega)

/-- The innermost open bracket is the one that a `]` closes. -/
lemma Scanned.encloses {opening : Nat} (h : Scanned is n (opening :: pending) targets)
    (hc : is[n]? = some .loopClose) : Encloses is opening n := by
  obtain ⟨hp, hpo, hd, hgt⟩ := h.pending_open 0 opening rfl
  refine encloses_iff_depth.mpr ⟨hpo, hc, hp, ?_, hgt⟩
  rw [depth_succ_of_close hc]
  push_cast at hd
  omega

/-- The scan takes the innermost open bracket off its stack at a `]`, and notes the pair. -/
lemma Scanned.pop {opening : Nat} (h : Scanned is n (opening :: pending) targets)
    (hc : is[n]? = some .loopClose) :
    Scanned is (n + 1) pending
      ((targets.setIfInBounds opening n).setIfInBounds n opening) := by
  have hlt : n < is.length := (List.getElem?_eq_some_iff.mp hc).1
  have hdepth := depth_succ_of_close hc
  have hlen := h.length_pending
  rw [List.length_cons] at hlen
  have hpair : Encloses is opening n := h.encloses hc
  have hget : ∀ p, ((targets.setIfInBounds opening n).setIfInBounds n opening).getD p p =
      if n = p then opening else if opening = p then n else targets.getD p p := by
    intro p
    rw [getD_setIfInBounds _ _ _ _ (by rw [Array.size_setIfInBounds, h.size]; exact hlt),
      getD_setIfInBounds _ _ _ _ (by rw [h.size]; have := hpair.lt; omega)]
  refine ⟨by simp [h.size], hlt, h.nonneg_succ (by omega), ?_, fun m p hm => ?_, fun i hi hio => ?_,
    fun j hj hjc => ?_, fun i j he hj => ?_, fun p hopen hclose => ?_⟩
  · push_cast at hlen
    omega
  · obtain ⟨hp, hpo, hd, hgt⟩ := h.pending_open (m + 1) p (by simpa using hm)
    push_cast at hd
    exact ⟨by omega, hpo, by omega, lt_depth_succ hgt (by omega)⟩
  · have hin : i ≠ n := by
      rintro rfl
      rw [hc] at hio
      simp at hio
    rcases h.opened i (by omega) hio with hmem | ⟨j, hj, he⟩
    · rcases List.mem_cons.mp hmem with rfl | hmem
      · exact Or.inr ⟨n, by omega, hpair⟩
      · exact Or.inl hmem
    · exact Or.inr ⟨j, by omega, he⟩
  · rcases Nat.lt_or_ge j n with hjn | hjn
    · exact h.closed j hjn hjc
    · obtain rfl : j = n := by omega
      exact ⟨opening, hpair⟩
  · rw [hget, hget]
    rcases Nat.lt_or_ge j n with hjn | hjn
    · -- a pair found before shares no bracket with the new one
      have h1 : i ≠ n := he.opening_ne_closing hpair
      have h2 : opening ≠ j := hpair.opening_ne_closing he
      have h3 : opening ≠ i := by
        rintro rfl
        have := he.right_unique hpair
        omega
      have := h.paired i j he hjn
      simp only [h1.symm, h2, h3, if_false, if_neg (show n ≠ j by omega)]
      exact this
    · obtain rfl : j = n := by omega
      obtain rfl : i = opening := he.left_unique hpair
      have := he.lt
      simp [show j ≠ i by omega]
  · have h1 : n ≠ p := by
      rintro rfl
      have := hclose opening hpair
      omega
    have h2 : opening ≠ p := by
      rintro rfl
      have := hopen n hpair
      omega
    rw [hget, if_neg h1, if_neg h2]
    exact h.unpaired p (fun j he => by have := hopen j he; omega)
      (fun i he => by have := hclose i he; omega)

/-- **The scan keeps its invariant.** It ends with every bracket paired, or stops at a `]` while
nothing is open, or ends with brackets that are still open, of which it reports the earliest.

**Proof sketch.** Induction on the instructions that are left; each is one of the steps `push`,
`pop` and `skip`. -/
theorem JumpTable.resolveFrom_spec (rest : List Instruction) (h : Scanned is n pending targets)
    (hrest : is.drop n = rest) :
    match resolveFrom n pending targets rest with
    | .ok table => Scanned is is.length [] table
    | .error (.unmatchedClose p) => is[p]? = some .loopClose ∧ ∃ t, Scanned is p [] t
    | .error (.unmatchedOpen p) =>
      ∃ pending t, pending.getLast? = some p ∧ Scanned is is.length pending t := by
  induction rest generalizing n pending targets with
  | nil =>
    obtain rfl : n = is.length := by
      have := h.le
      have := List.drop_eq_nil_iff.mp hrest
      omega
    unfold resolveFrom
    cases hlast : pending.getLast? with
    | none =>
      obtain rfl : pending = [] := List.getLast?_eq_none_iff.mp hlast
      exact h
    | some p => exact ⟨pending, targets, hlast, h⟩
  | cons a as ih =>
    obtain ⟨ha, hdrop⟩ := getElem?_of_drop_eq_cons hrest
    have hlt : n < is.length := (List.getElem?_eq_some_iff.mp ha).1
    cases a with
    | loopOpen => exact ih (h.push ha) hdrop
    | loopClose =>
      cases pending with
      | nil => exact ⟨ha, targets, h⟩
      | cons opening pending => exact ih (h.pop ha) hdrop
    | _ => exact ih (h.skip hlt (by simp [ha]) (by simp [ha])) hdrop

end Scan

namespace JumpTable

variable {is : List Instruction} {table : JumpTable}

/-- A table that the scan has built holds all pairs. -/
lemma scanned_of_resolve (h : resolve is = .ok table) :
    Scanned is is.length [] table.targets := by
  have hspec := resolveFrom_spec is (Scanned.initial is) rfl
  unfold resolve at h
  cases hr : resolveFrom 0 [] (Array.range is.length) is with
  | error e =>
    rw [hr] at h
    cases h
  | ok targets =>
    rw [hr] at h hspec
    cases h
    exact hspec

/-- **Brackets that balance are those for which there is a table.** -/
theorem exists_resolve_iff : (∃ table, resolve is = .ok table) ↔ Balanced is := by
  constructor
  · rintro ⟨table, h⟩
    have hs := scanned_of_resolve h
    have := hs.length_pending
    exact balanced_iff_depth.mpr ⟨hs.nonneg, by simpa using this.symm⟩
  · intro hb
    obtain ⟨hpos, hzero⟩ := balanced_iff_depth.mp hb
    have hspec := resolveFrom_spec is (Scanned.initial is) rfl
    unfold resolve
    cases hr : resolveFrom 0 [] (Array.range is.length) is with
    | ok targets => exact ⟨⟨targets⟩, rfl⟩
    | error e =>
      rw [hr] at hspec
      cases e with
      | unmatchedClose p =>
        -- behind a `]` that closes nothing the depth would be negative
        obtain ⟨hc, t, hs⟩ := hspec
        have hlt : p < is.length := (List.getElem?_eq_some_iff.mp hc).1
        have h0 := hs.length_pending
        have h1 := depth_succ_of_close hc
        have h2 := hpos (p + 1) hlt
        simp only [List.length_nil, Nat.cast_zero] at h0
        omega
      | unmatchedOpen p =>
        -- a bracket that is still open at the end leaves the depth positive
        obtain ⟨pending, t, hlast, hs⟩ := hspec
        have h0 := hs.length_pending
        have h1 := List.length_pos_of_mem (List.mem_of_getLast? hlast)
        omega

/-- The table sends the brackets of a pair to each other. -/
lemma target_of_encloses (h : resolve is = .ok table) {i j : Nat} (he : Encloses is i j) :
    table.target i = j ∧ table.target j = i :=
  (scanned_of_resolve h).paired i j he (List.getElem?_eq_some_iff.mp he.closing).1

/-- Every `[` is closed. -/
lemma exists_closing (h : resolve is = .ok table) {i : Nat} (hi : is[i]? = some .loopOpen) :
    ∃ j, Encloses is i j := by
  have hlt : i < is.length := (List.getElem?_eq_some_iff.mp hi).1
  rcases (scanned_of_resolve h).opened i hlt hi with hmem | ⟨j, -, he⟩
  · simp at hmem
  · exact ⟨j, he⟩

/-- Every `]` closes a bracket. -/
lemma exists_opening (h : resolve is = .ok table) {j : Nat} (hj : is[j]? = some .loopClose) :
    ∃ i, Encloses is i j :=
  (scanned_of_resolve h).closed j (List.getElem?_eq_some_iff.mp hj).1 hj

/-- A `[` is sent to a `]`. -/
lemma getElem?_target_of_open (h : resolve is = .ok table) {i : Nat}
    (hi : is[i]? = some .loopOpen) : is[table.target i]? = some .loopClose := by
  obtain ⟨j, he⟩ := exists_closing h hi
  rw [(target_of_encloses h he).1]
  exact he.closing

/-- A `]` is sent to a `[`. -/
lemma getElem?_target_of_close (h : resolve is = .ok table) {j : Nat}
    (hj : is[j]? = some .loopClose) : is[table.target j]? = some .loopOpen := by
  obtain ⟨i, he⟩ := exists_opening h hj
  rw [(target_of_encloses h he).2]
  exact he.opening

/-- A position that holds no bracket is sent to itself, also past the end of the program. -/
lemma target_of_plain (h : resolve is = .ok table) {p : Nat} (ho : is[p]? ≠ some .loopOpen)
    (hc : is[p]? ≠ some .loopClose) : table.target p = p :=
  (scanned_of_resolve h).unpaired p (fun _ he => absurd he.opening ho)
    (fun _ he => absurd he.closing hc)

/-- The partners of the two brackets of a pair. -/
lemma partner?_of_encloses (h : resolve is = .ok table) {i j : Nat} (he : Encloses is i j) :
    table.partner? i = some j ∧ table.partner? j = some i := by
  obtain ⟨hi, hj⟩ := target_of_encloses h he
  have := he.lt
  unfold partner?
  rw [hi, hj, if_neg (by omega), if_neg (by omega)]
  exact ⟨rfl, rfl⟩

end JumpTable

/-! ## Matchings -/

/-- A partial map that pairs the brackets of a list of instructions: each `[` with a `]` behind it,
and no two pairs cross. -/
structure IsMatching (is : List Instruction) (f : Nat → Option Nat) : Prop where
  /-- What is no bracket has no partner. -/
  plain : ∀ p, is[p]? ≠ some .loopOpen → is[p]? ≠ some .loopClose → f p = none
  /-- The partner of a `[` is a `]` behind it. -/
  opening : ∀ i, is[i]? = some .loopOpen →
    ∃ j, f i = some j ∧ i < j ∧ is[j]? = some .loopClose
  /-- Each bracket is the partner of its partner. -/
  symm : ∀ p, is[p]? = some .loopOpen ∨ is[p]? = some .loopClose →
    ∃ q, f p = some q ∧ f q = some p
  /-- Of two pairs the one that opens later lies behind the other or inside it. -/
  nested_or_disjoint : ∀ i j i' j', f i = some j → f i' = some j' → i < j → i' < j' →
    i < i' → j < i' ∨ j' < j

namespace JumpTable

variable {is : List Instruction} {table : JumpTable} {p q : Nat}

/-- What is no bracket has no partner. -/
lemma partner?_of_plain (h : resolve is = .ok table) (ho : is[p]? ≠ some .loopOpen)
    (hc : is[p]? ≠ some .loopClose) : table.partner? p = none := if_pos (target_of_plain h ho hc)

/-- Of two partners the one is a `[` and the other is the `]` that closes it. -/
lemma encloses_of_partner? (h : resolve is = .ok table) (hq : table.partner? p = some q) :
    Encloses is p q ∨ Encloses is q p := by
  by_cases ho : is[p]? = some .loopOpen
  · obtain ⟨j, he⟩ := exists_closing h ho
    rw [(partner?_of_encloses h he).1] at hq
    cases hq
    exact Or.inl he
  · by_cases hc : is[p]? = some .loopClose
    · obtain ⟨i, he⟩ := exists_opening h hc
      rw [(partner?_of_encloses h he).2] at hq
      cases hq
      exact Or.inr he
    · rw [partner?_of_plain h ho hc] at hq
      cases hq

/-- Of two partners the `[` is the one in front. -/
lemma partner?_eq_some_iff (h : resolve is = .ok table) (hlt : p < q) :
    table.partner? p = some q ↔ Encloses is p q := by
  refine ⟨fun hq => ?_, fun he => (partner?_of_encloses h he).1⟩
  rcases encloses_of_partner? h hq with he | he
  · exact he
  · exact absurd he.lt (by omega)

/-- The table is a matching of the brackets. -/
lemma isMatching_partner? (h : resolve is = .ok table) : IsMatching is table.partner? := by
  refine ⟨fun p => partner?_of_plain h, fun i hi => ?_, fun p hp => ?_,
    fun i j i' j' hij hij' hlt hlt' hii' => ?_⟩
  · obtain ⟨j, he⟩ := exists_closing h hi
    exact ⟨j, (partner?_of_encloses h he).1, he.lt, he.closing⟩
  · rcases hp with ho | hc
    · obtain ⟨j, he⟩ := exists_closing h ho
      exact ⟨j, partner?_of_encloses h he⟩
    · obtain ⟨i, he⟩ := exists_opening h hc
      exact ⟨i, (partner?_of_encloses h he).symm⟩
  · have he := (partner?_eq_some_iff h hlt).mp hij
    exact he.nested_or_disjoint ((partner?_eq_some_iff h hlt').mp hij') hii'

end JumpTable

/-- The positions of an instruction in front of `k` are as many as its occurrences there. -/
lemma count_positions (is : List Instruction) (a : Instruction) (k : Nat) :
    Nat.count (fun p => is[p]? = some a) k = (is.take k).count a := by
  induction k with
  | zero => simp
  | succ k ih =>
    rw [Nat.count_succ, ih, List.take_add_one, List.count_append]
    cases h : is[k]? with
    | none => simp
    | some b => by_cases hb : b = a <;> simp [hb]

/-- There are as many positions of an instruction in front of `k` as occurrences. -/
lemma card_positions (is : List Instruction) (a : Instruction) (k : Nat) :
    ((Finset.range k).filter fun p => is[p]? = some a).card = (is.take k).count a := by
  rw [← count_positions, Nat.count_eq_card_filter_range]

namespace IsMatching

variable {is : List Instruction} {f : Nat → Option Nat}

/-- In a matching every `]` is the partner of a `[`.

**Proof sketch.** The matching maps the positions of `[` to those of `]`, and no two to the same,
since each bracket is the partner of its partner. As there are as many of the one kind as of the
other, no `]` is left out. -/
lemma exists_opening (h : IsMatching is f) (hb : Balanced is) {j : Nat}
    (hj : is[j]? = some .loopClose) : ∃ i, is[i]? = some .loopOpen ∧ f i = some j := by
  set positions := fun a : Instruction => (Finset.range is.length).filter (is[·]? = some a)
  have hcard : ∀ a, (positions a).card = is.count a := by
    intro a
    rw [card_positions, List.take_length]
  have hmem : ∀ {a p}, p ∈ positions a ↔ is[p]? = some a := by
    intro a p
    rw [Finset.mem_filter, Finset.mem_range]
    exact and_iff_right_of_imp fun hp => (List.getElem?_eq_some_iff.mp hp).1
  have hmaps : Set.MapsTo (fun i => (f i).getD 0) (positions .loopOpen)
      (positions .loopClose) := by
    intro i hi
    obtain ⟨j, hfi, -, hc⟩ := h.opening i (hmem.mp hi)
    exact hmem.mpr (by simpa [hfi] using hc)
  have hinj : Set.InjOn (fun i => (f i).getD 0) (positions .loopOpen) := by
    intro i hi i' hi' heq
    obtain ⟨j, hfi, hfj⟩ := h.symm i (Or.inl (hmem.mp hi))
    obtain ⟨j', hfi', hfj'⟩ := h.symm i' (Or.inl (hmem.mp hi'))
    simp only [hfi, hfi', Option.getD_some] at heq
    subst heq
    exact Option.some.inj (hfj.symm.trans hfj')
  obtain ⟨i, hi, hij⟩ := Finset.surjOn_of_injOn_of_card_le _ hmaps hinj
    (by rw [hcard, hcard, hb.2]) (hmem.mpr hj)
  obtain ⟨q, hfi, -⟩ := h.symm i (Or.inl (hmem.mp hi))
  simp only [hfi, Option.getD_some] at hij
  exact ⟨i, hmem.mp hi, by rw [hfi, hij]⟩

/-- A matching sends each `[` to the `]` that closes it.

**Proof sketch.** Induction on the length of the pair `(i, j)`: the pairs inside it are already
known to be matched. If the matching sent `i` to another `]`, then `j` would be the partner of
another `[`. That one cannot lie between `i` and `j`, where all partners are known, and in front
of `i` its pair would cross that of `i`. -/
lemma eq_of_encloses (h : IsMatching is f) (hb : Balanced is) {i j : Nat}
    (he : Encloses is i j) : f i = some j := by
  obtain ⟨table, htable⟩ := JumpTable.exists_resolve_iff.mpr hb
  induction hn : j - i using Nat.strong_induction_on generalizing i j with
  | _ n ih =>
    obtain ⟨o, ho, hfo⟩ := h.exists_opening hb he.closing
    obtain ⟨j', hfi, hlt', hc'⟩ := h.opening i he.opening
    obtain ⟨j'', hfo', hlt, -⟩ := h.opening o ho
    obtain rfl : j = j'' := Option.some.inj (hfo.symm.trans hfo')
    have hij := he.lt
    rcases Nat.lt_trichotomy o i with hoi | rfl | hoi
    · -- the pair `(o, j)` opens in front of `i`, so that `j'` lies between `i` and `j`
      have hj' : j' < j := by
        rcases h.nested_or_disjoint o j i j' hfo hfi hlt hlt' hoi with hd | hd <;> omega
      obtain ⟨p, hp⟩ := JumpTable.exists_opening htable hc'
      rcases Nat.lt_trichotomy p i with hpi | rfl | hpi
      · rcases hp.nested_or_disjoint he hpi with hd | hd <;> omega
      · have := hp.right_unique he
        omega
      · have hfp := ih (j' - p) (by have := hp.lt; omega) hp rfl
        obtain ⟨q, hfi', hfq⟩ := h.symm i (Or.inl he.opening)
        obtain ⟨q', hfp', hfq'⟩ := h.symm p (Or.inl hp.opening)
        obtain rfl : j' = q := Option.some.inj (hfi.symm.trans hfi')
        obtain rfl : j' = q' := Option.some.inj (hfp.symm.trans hfp')
        have := Option.some.inj (hfq.symm.trans hfq')
        omega
    · exact hfo
    · obtain ⟨q, hq⟩ := JumpTable.exists_closing htable ho
      have hqj : q < j := by
        rcases he.nested_or_disjoint hq hoi with hd | hd <;> omega
      have hfq := ih (q - o) (by omega) hq rfl
      rw [hfo] at hfq
      cases hfq
      omega

/-- **Brackets that balance have one matching.** -/
theorem unique {g : Nat → Option Nat} (h : IsMatching is f) (hg : IsMatching is g)
    (hb : Balanced is) : f = g := by
  obtain ⟨table, htable⟩ := JumpTable.exists_resolve_iff.mpr hb
  funext p
  by_cases ho : is[p]? = some .loopOpen
  · obtain ⟨j, he⟩ := JumpTable.exists_closing htable ho
    rw [h.eq_of_encloses hb he, hg.eq_of_encloses hb he]
  · by_cases hc : is[p]? = some .loopClose
    · obtain ⟨i, he⟩ := JumpTable.exists_opening htable hc
      have hclose : ∀ {f}, IsMatching is f → f p = some i := by
        intro f hf
        obtain ⟨q, hfi, hfq⟩ := hf.symm i (Or.inl he.opening)
        rw [hf.eq_of_encloses hb he] at hfi
        cases hfi
        exact hfq
      rw [hclose h, hclose hg]
    · rw [h.plain p ho hc, hg.plain p ho hc]

end IsMatching

namespace JumpTable

/-- There are as many pairs as there are brackets that open. -/
lemma pairs_eq_count {is : List Instruction} {table : JumpTable} (h : resolve is = .ok table) :
    table.pairs = is.count .loopOpen := by
  have hforward : ∀ p, p < table.target p ↔ is[p]? = some .loopOpen := by
    intro p
    by_cases ho : is[p]? = some .loopOpen
    · obtain ⟨j, he⟩ := exists_closing h ho
      simp only [(target_of_encloses h he).1, he.lt, ho]
    · refine iff_of_false ?_ ho
      by_cases hc : is[p]? = some .loopClose
      · obtain ⟨i, he⟩ := exists_opening h hc
        have := he.lt
        rw [(target_of_encloses h he).2]
        omega
      · rw [target_of_plain h ho hc]
        exact Nat.lt_irrefl p
  calc table.pairs
      = Nat.count (fun p => is[p]? = some .loopOpen) is.length := by
        unfold pairs Nat.count
        rw [(scanned_of_resolve h).size]
        simp only [hforward]
    _ = is.count .loopOpen := by rw [count_positions, List.take_length]

/-- **Bracket matching is exact.** There is a table exactly for the lists whose brackets balance.
It is a matching of the brackets, and the only one. It sends each `[` to the first position behind
which the depth is back at its value in front of the `[`; there stands a `]`, and what lies between
the two balances. There are as many pairs as there are brackets that open. -/
theorem resolve_iff_balanced_matching (is : List Instruction) :
    ((∃ table, resolve is = .ok table) ↔ Balanced is) ∧
    ∀ table, resolve is = .ok table →
      IsMatching is table.partner? ∧
      (∀ i, is[i]? = some .loopOpen →
        ∃ j, table.partner? i = some j ∧ i < j ∧ is[j]? = some .loopClose ∧
          depth is (j + 1) = depth is i ∧
          (∀ k, i ≤ k → k < j → depth is (k + 1) ≠ depth is i) ∧
          Balanced ((is.drop (i + 1)).take (j - (i + 1)))) ∧
      (∀ p, is.length ≤ p → table.partner? p = none) ∧
      (∀ f, IsMatching is f → f = table.partner?) ∧
      table.pairs = is.count .loopOpen := by
  refine ⟨exists_resolve_iff, fun table h => ?_⟩
  have hm := isMatching_partner? h
  refine ⟨hm, fun i hi => ?_, fun p hp => ?_, fun f hf => ?_, pairs_eq_count h⟩
  · obtain ⟨j, he⟩ := exists_closing h hi
    refine ⟨j, (partner?_of_encloses h he).1, he.lt, he.closing, he.depth_succ_closing,
      fun k h1 h2 => ?_, he.between⟩
    have := he.depth_lt (k := k + 1) (by omega) (by omega)
    omega
  · have hnone : is[p]? = none := List.getElem?_eq_none hp
    exact hm.plain p (by simp [hnone]) (by simp [hnone])
  · exact hf.unique hm (exists_resolve_iff.mp ⟨table, h⟩)

end JumpTable

end TapeMachine
