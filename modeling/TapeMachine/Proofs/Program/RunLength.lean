import Mathlib.Tactic
import Mathlib.Data.List.SplitBy
import TapeMachine.Proofs.Program.Expansion

/-!
# The run-length form of a program

Folding reads a list of instructions from the left and merges each instruction into the last one if
their counts fit into a byte. What comes out does not depend on how it was found: every maximal run
of additions or of subtractions becomes as many full instructions as it holds, and one more for what
is left. No list with the same text is shorter, and none of its neighbours can be merged any more.

## Main definitions

* `TapeMachine.packCounted`, `TapeMachine.pack` — the instructions of one maximal run.
* `TapeMachine.packRuns` — the maximal runs of a text, packed one by one.
* `TapeMachine.Settled` — no two neighbours can be merged.
* `TapeMachine.RunLengthForm` — a list of instructions is the run-length form of a program text.

## Main results

* `TapeMachine.foldl_replicate` — folding one run packs it.
* `TapeMachine.foldRuns_eq_packRuns` — folding packs the maximal runs.
* `TapeMachine.length_foldRuns_expand_le` — folding gives the shortest list.
* `TapeMachine.settled_foldRuns`, `TapeMachine.foldRuns_of_settled` — folding leaves nothing to
  fold.
* `TapeMachine.Program.fold_is_canonical` — the folded program of a text.
-/

set_option autoImplicit false

namespace TapeMachine

variable {f : UInt8 → Instruction} {a b c i : Instruction} {is js done : List Instruction}
  {s : Symbol} {k : Nat}

/-! ## Which instructions merge -/

/-- Instructions that carry a count, and merge as long as the sum of the counts fits into a byte. -/
def Counted (f : UInt8 → Instruction) : Prop :=
  ∀ m n, (f m).merge? (f n) = if m.toNat + n.toNat < 256 then some (f (m + n)) else none

lemma counted_incr : Counted .incr := fun _ _ => rfl

lemma counted_decr : Counted .decr := fun _ _ => rfl

/-- Instructions of different kinds do not merge. -/
lemma Instruction.merge?_of_symbol_ne (h : a.symbol ≠ b.symbol) : a.merge? b = none := by
  cases a <;> cases b <;> first | rfl | exact absurd rfl h

/-- Nothing merges with an instruction that carries no count. -/
lemma Instruction.merge?_ofSymbol (hi : s ≠ .incr) (hd : s ≠ .decr) (a : Instruction) :
    a.merge? (.ofSymbol s) = none := by
  cases s with
  | incr => exact absurd rfl hi
  | decr => exact absurd rfl hd
  | _ => cases a <;> rfl

/-- A count fits into a byte. -/
lemma Instruction.count_le (i : Instruction) : i.count ≤ 255 := by
  cases i with
  | incr n | decr n => exact Nat.le_of_lt_succ n.toNat_lt
  | _ => exact Nat.le_add_left 1 254

/-- What does not merge with an instruction does not merge with it after it has grown either. -/
lemma Instruction.merge?_eq_none_of_merge? (h : a.merge? b = none) (hc : b.merge? c = some i) :
    a.merge? i = none := by
  have hgrow : ∀ {f}, Counted f → ∀ l m n : UInt8, (f l).merge? (f m) = none →
      m.toNat + n.toNat < 256 → (f l).merge? (f (m + n)) = none := by
    intro f hf l m n hnone hlt
    rw [hf] at hnone ⊢
    have hsum : (m + n).toNat = m.toNat + n.toNat := by
      rw [UInt8.toNat_add, Nat.mod_eq_of_lt hlt]
    split at hnone
    · cases hnone
    · rw [if_neg (by omega)]
  cases b with
  | incr m =>
    cases c with
    | incr n =>
      rw [counted_incr] at hc
      split at hc <;> cases hc
      cases a with
      | incr l => exact hgrow counted_incr l m n h ‹_›
      | _ => rfl
    | _ => cases hc
  | decr m =>
    cases c with
    | decr n =>
      rw [counted_decr] at hc
      split at hc <;> cases hc
      cases a with
      | decr l => exact hgrow counted_decr l m n h ‹_›
      | _ => rfl
    | _ => cases hc
  | _ => cases c <;> cases hc

/-- An instruction that does not merge with the last one is put behind it. -/
lemma foldOnto_of_merge?_eq_none (h : ∀ last ∈ done.head?, last.merge? a = none) :
    foldOnto done a = a :: done := by
  cases done with
  | nil => rfl
  | cons last done => simp only [foldOnto, h last rfl]

/-- One symbol more is added to the last instruction as long as its count stays below 256. -/
lemma foldOnto_counted (hf : Counted f) {m : UInt8} (hm : m.toNat < 255)
    (rest : List Instruction) : foldOnto (f m :: rest) (f 1) = f (m + 1) :: rest := by
  have hlt : m.toNat + (1 : UInt8).toNat < 256 := Nat.succ_lt_succ hm
  have hmerge : (f m).merge? (f 1) = some (f (m + 1)) := by
    rw [hf, if_pos hlt]
  simp only [foldOnto, hmerge]

/-! ## Packed runs -/

/-- The instructions of a run of `k` equal symbols that carry counts: as many full ones as it holds,
and one for what is left. -/
def packCounted (f : UInt8 → Instruction) (k : Nat) : List Instruction :=
  List.replicate (k / 255) (f 255) ++ if k % 255 = 0 then [] else [f (UInt8.ofNat (k % 255))]

/-- The instructions of a run of `k` equal symbols. Only `+` and `-` carry counts. -/
def pack : Symbol → Nat → List Instruction
  | .incr, k => packCounted .incr k
  | .decr, k => packCounted .decr k
  | s, k => List.replicate k (.ofSymbol s)

/-- A list of symbols with each of its maximal runs packed. -/
def packRuns (ss : List Symbol) : List Instruction :=
  (ss.splitBy (· == ·)).flatMap fun run => run.head?.elim [] (pack · run.length)

/-- The last instruction of a packed run comes first when the run is read from its end. -/
lemma reverse_packCounted (f : UInt8 → Instruction) (k : Nat) :
    (packCounted f k).reverse =
      (if k % 255 = 0 then [] else [f (UInt8.ofNat (k % 255))]) ++
        List.replicate (k / 255) (f 255) := by
  rw [packCounted, List.reverse_append, List.reverse_replicate]
  split <;> rfl

/-- One symbol more is packed by a full instruction, by adding it to the rest, or by a new
instruction. -/
lemma foldOnto_packCounted (hf : Counted f) (hdone : ∀ last ∈ done.head?, last.merge? (f 1) = none)
    (k : Nat) :
    foldOnto ((packCounted f k).reverse ++ done) (f 1) =
      (packCounted f (k + 1)).reverse ++ done := by
  rw [reverse_packCounted, reverse_packCounted]
  by_cases hrest : k % 255 = 0
  · -- the run consists of full instructions, which do not merge with anything
    have hdiv : (k + 1) / 255 = k / 255 := by omega
    have hmod : (k + 1) % 255 = 1 := by omega
    rw [hdiv, hmod, if_pos hrest, if_neg Nat.one_ne_zero, List.nil_append]
    refine foldOnto_of_merge?_eq_none fun last hlast => ?_
    cases hfull : k / 255 with
    | zero =>
      rw [hfull] at hlast
      exact hdone last hlast
    | succ q =>
      rw [hfull] at hlast
      obtain rfl : f 255 = last := Option.some.inj hlast
      exact hf 255 1
  · have hrestNat : (UInt8.ofNat (k % 255)).toNat = k % 255 := by
      rw [UInt8.toNat_ofNat']
      omega
    have hnext : UInt8.ofNat (k % 255) + 1 = UInt8.ofNat (k % 255 + 1) :=
      (UInt8.ofNat_add (k % 255) 1).symm
    rw [if_neg hrest, List.append_assoc, List.singleton_append,
      foldOnto_counted hf (by rw [hrestNat]; omega), hnext]
    by_cases hfull : k % 255 + 1 = 255
    · have hdiv : (k + 1) / 255 = k / 255 + 1 := by omega
      have hmod : (k + 1) % 255 = 0 := by omega
      rw [hdiv, hmod, hfull]
      rfl
    · have hdiv : (k + 1) / 255 = k / 255 := by omega
      have hmod : (k + 1) % 255 = k % 255 + 1 := by omega
      rw [hdiv, hmod, if_neg (Nat.succ_ne_zero _)]
      rfl

/-- **Folding one run packs it**, if the instruction in front of it does not merge with it.

**Proof sketch.** Induction on the length of the run; each symbol goes behind the ones before it. -/
theorem foldl_replicate (hdone : ∀ last ∈ done.head?, last.merge? (.ofSymbol s) = none) (k : Nat) :
    (List.replicate k (Instruction.ofSymbol s)).foldl foldOnto done =
      (pack s k).reverse ++ done := by
  induction k with
  | zero => cases s <;> rfl
  | succ k ih =>
    rw [List.replicate_succ', List.foldl_append, ih, List.foldl_cons, List.foldl_nil]
    cases s with
    | incr => exact foldOnto_packCounted counted_incr hdone k
    | decr => exact foldOnto_packCounted counted_decr hdone k
    | _ =>
      rw [foldOnto_of_merge?_eq_none fun last _ =>
        Instruction.merge?_ofSymbol (by simp) (by simp) last]
      show _ :: ((List.replicate k _).reverse ++ done) = (List.replicate (k + 1) _).reverse ++ done
      rw [List.reverse_replicate, List.reverse_replicate]
      rfl

/-- The instructions of a run are all of its kind. -/
lemma symbol_of_mem_pack (h : i ∈ pack s k) : i.symbol = s := by
  have hcounted : ∀ {f s}, (∀ n, (f n : Instruction).symbol = s) → i ∈ packCounted f k →
      i.symbol = s := by
    intro f s hf hi
    rcases List.mem_append.mp hi with hi | hi
    · rw [List.eq_of_mem_replicate hi, hf]
    · split at hi
      · cases hi
      · rw [List.mem_singleton.mp hi, hf]
  cases s with
  | incr => exact hcounted (fun _ => rfl) h
  | decr => exact hcounted (fun _ => rfl) h
  | _ =>
    rw [List.eq_of_mem_replicate h]
    rfl

/-- A run that is not empty is packed into some instruction. -/
lemma pack_ne_nil (hk : 0 < k) : pack s k ≠ [] := by
  have hcounted : ∀ f, packCounted f k ≠ [] := by
    intro f
    by_cases hrest : k % 255 = 0
    · have hfull : k / 255 ≠ 0 := by omega
      simp [packCounted, hfull]
    · simp [packCounted, hrest]
  cases s with
  | incr | decr => exact hcounted _
  | _ => simp [pack, hk.ne']

/-! ## Maximal runs -/

/-- A list that is not empty begins with a maximal run of its first symbol. -/
lemma exists_head_run (s : Symbol) (tail : List Symbol) :
    ∃ k rest, s :: tail = List.replicate (k + 1) s ++ rest ∧ ∀ t ∈ rest.head?, t ≠ s := by
  induction tail with
  | nil => exact ⟨0, [], rfl, by simp⟩
  | cons t tail ih =>
    by_cases ht : t = s
    · subst ht
      obtain ⟨k, rest, heq, hrest⟩ := ih
      exact ⟨k + 1, rest, congrArg (t :: ·) heq, hrest⟩
    · refine ⟨0, t :: tail, rfl, fun t' ht' => ?_⟩
      obtain rfl : t = t' := Option.some.inj ht'
      exact ht

/-- The first maximal run of a list is packed, and then the others. -/
lemma packRuns_append {rest : List Symbol} (h : ∀ t ∈ rest.head?, t ≠ s) :
    packRuns (List.replicate (k + 1) s ++ rest) = pack s (k + 1) ++ packRuns rest := by
  have hrun : (List.replicate (k + 1) s).splitBy (· == ·) = [List.replicate (k + 1) s] :=
    List.splitBy_of_isChain (by simp) (List.isChain_replicate_of_rel _ (beq_self_eq_true s))
  have hsplit : ∀ x ∈ (List.replicate (k + 1) s).getLast?, ∀ y ∈ rest.head?, (x == y) = false := by
    intro x hx y hy
    rw [List.eq_of_mem_replicate (List.mem_of_mem_getLast? hx)]
    exact beq_eq_false_iff_ne.mpr (h y hy).symm
  rw [packRuns, List.splitBy_append hsplit, hrun, List.singleton_append, List.flatMap_cons,
    List.length_replicate]
  rfl

/-- **Folding packs the maximal runs.**

**Proof sketch.** Induction on the length of the list, run by run. What a run is packed into is all
of its kind, so that it does not merge with the next run. -/
theorem foldRuns_eq_packRuns (ss : List Symbol) :
    foldRuns (ss.map .ofSymbol) = packRuns ss := by
  have hfold : ∀ done : List Instruction, (∀ s ∈ ss.head?, ∀ last ∈ done.head?, last.symbol ≠ s) →
      (ss.map Instruction.ofSymbol).foldl foldOnto done = (packRuns ss).reverse ++ done := by
    induction hn : ss.length using Nat.strong_induction_on generalizing ss with
    | _ n ih =>
      intro done hdone
      cases ss with
      | nil => rfl
      | cons s tail =>
        obtain ⟨k, rest, heq, hrest⟩ := exists_head_run s tail
        have hlength : rest.length < n := by
          rw [← hn, heq, List.length_append, List.length_replicate]
          omega
        have hfirst : (List.replicate (k + 1) (Instruction.ofSymbol s)).foldl foldOnto done =
            (pack s (k + 1)).reverse ++ done := by
          refine foldl_replicate (fun last hlast => ?_) _
          apply Instruction.merge?_of_symbol_ne
          rw [Instruction.symbol_ofSymbol]
          exact hdone s rfl last hlast
        rw [heq, List.map_append, List.map_replicate, List.foldl_append, hfirst,
          ih _ hlength rest rfl, packRuns_append hrest, List.reverse_append, List.append_assoc]
        intro t ht last hlast
        rw [List.head?_append_of_ne_nil _ (by simpa using pack_ne_nil k.succ_pos)] at hlast
        rw [symbol_of_mem_pack (List.mem_reverse.mp (List.mem_of_mem_head? hlast))]
        exact (hrest t ht).symm
  rw [foldRuns, hfold [] (by simp), List.append_nil, List.reverse_reverse]

/-! ## The shortest list -/

/-- An instruction is put behind a folded list, or merged into its last instruction. -/
lemma foldOnto_cases (done : List Instruction) (a : Instruction) :
    foldOnto done a = a :: done ∨
      ∃ last rest merged, done = last :: rest ∧ last.merge? a = some merged ∧
        foldOnto done a = merged :: rest := by
  cases done with
  | nil => exact Or.inl rfl
  | cons last rest =>
    cases hm : last.merge? a with
    | none => exact Or.inl (by simp only [foldOnto, hm])
    | some merged => exact Or.inr ⟨last, rest, merged, rfl, hm, by simp only [foldOnto, hm]⟩

/-- One instruction more makes a folded list longer by one at most. -/
lemma length_foldOnto_le (done : List Instruction) (a : Instruction) :
    (foldOnto done a).length ≤ done.length + 1 := by
  rcases foldOnto_cases done a with heq | ⟨last, rest, merged, rfl, -, heq⟩
  · exact (congrArg List.length heq).le
  · exact (congrArg List.length heq).le.trans (Nat.le_succ _)

/-- A run that fits into a byte makes a folded list longer by one at most.

**Proof sketch.** Induction on the length of the run. As soon as the list has become longer its last
instruction counts symbols of the run alone, and the rest of the run fits into it. -/
lemma length_foldl_replicate_le (hf : Counted f) (hk : k ≤ 255) (done : List Instruction) :
    ((List.replicate k (f 1)).foldl foldOnto done).length ≤ done.length + 1 := by
  have hfill : ((List.replicate k (f 1)).foldl foldOnto done).length ≤ done.length ∨
      ((List.replicate k (f 1)).foldl foldOnto done).length = done.length + 1 ∧
        ∃ m rest, (List.replicate k (f 1)).foldl foldOnto done = f m :: rest ∧ m.toNat ≤ k := by
    induction k with
    | zero => exact Or.inl le_rfl
    | succ k ih =>
      rw [List.replicate_succ', List.foldl_append, List.foldl_cons, List.foldl_nil]
      rcases ih (by omega) with hle | ⟨hlen, m, rest, heq, hm⟩
      · rcases foldOnto_cases ((List.replicate k (f 1)).foldl foldOnto done) (f 1) with
          hnew | ⟨last, rest, merged, hdone, -, hmerged⟩
        · rw [hnew, List.length_cons]
          rcases Nat.lt_or_eq_of_le hle with hlt | heq
          · exact Or.inl hlt
          · exact Or.inr ⟨congrArg (· + 1) heq, 1, _, rfl, Nat.le_add_left 1 k⟩
        · rw [hdone, List.length_cons] at hle
          rw [hmerged]
          exact Or.inl hle
      · have hsum : (m + 1).toNat = m.toNat + 1 := by
          rw [UInt8.toNat_add]
          exact Nat.mod_eq_of_lt (show m.toNat + 1 < 256 by omega)
        rw [heq, List.length_cons] at hlen
        rw [heq, foldOnto_counted hf (by omega)]
        exact Or.inr ⟨hlen, m + 1, rest, rfl, by omega⟩
  omega

/-- What an instruction stands for makes a folded list longer by one at most. -/
lemma length_foldl_expand_le (i : Instruction) (done : List Instruction) :
    (i.expand.foldl foldOnto done).length ≤ done.length + 1 := by
  cases i with
  | incr n => exact length_foldl_replicate_le counted_incr (Nat.le_of_lt_succ n.toNat_lt) done
  | decr n => exact length_foldl_replicate_le counted_decr (Nat.le_of_lt_succ n.toNat_lt) done
  | _ => exact length_foldOnto_le done _

/-- **Folding gives the shortest list**: no list that stands for the same is shorter. -/
theorem length_foldRuns_expand_le (js : List Instruction) :
    (foldRuns (expand js)).length ≤ js.length := by
  have hfold : ∀ done : List Instruction,
      ((expand js).foldl foldOnto done).length ≤ done.length + js.length := by
    induction js with
    | nil => exact fun done => le_rfl
    | cons j js ih =>
      intro done
      rw [expand_cons, List.foldl_append, List.length_cons]
      have hfirst := length_foldl_expand_le j done
      have hrest := ih (j.expand.foldl foldOnto done)
      omega
  rw [foldRuns, List.length_reverse]
  simpa using hfold []

/-! ## Nothing left to fold -/

/-- No instruction of a list can be merged with the next one. -/
def Settled (is : List Instruction) : Prop := is.IsChain fun a b => a.merge? b = none

/-- **Folding leaves nothing to fold.**

**Proof sketch.** Induction on the instructions. An instruction that grows does not come to merge
with the one in front of it. -/
theorem settled_foldRuns (is : List Instruction) : Settled (foldRuns is) := by
  have hfold : ∀ done : List Instruction, (done.IsChain fun b a => a.merge? b = none) →
      (is.foldl foldOnto done).IsChain fun b a => a.merge? b = none := by
    induction is with
    | nil => exact fun done hd => hd
    | cons next is ih =>
      intro done hd
      refine ih _ ?_
      cases done with
      | nil => exact List.isChain_singleton next
      | cons last done =>
        simp only [foldOnto]
        split
        · rename_i merged hm
          refine List.isChain_cons.mpr ⟨fun a ha => ?_, hd.tail⟩
          exact Instruction.merge?_eq_none_of_merge? ((List.isChain_cons.mp hd).1 a ha) hm
        · rename_i hm
          refine List.isChain_cons.mpr ⟨fun a ha => ?_, hd⟩
          obtain rfl : last = a := Option.some.inj ha
          exact hm
  exact List.isChain_reverse.mpr (hfold [] List.isChain_nil)

/-- A list in which nothing can be merged is folded already. -/
theorem foldRuns_of_settled (h : Settled is) : foldRuns is = is := by
  have hfold : ∀ done : List Instruction,
      (∀ a ∈ is.head?, ∀ last ∈ done.head?, last.merge? a = none) →
      is.foldl foldOnto done = is.reverse ++ done := by
    induction is with
    | nil => exact fun done _ => rfl
    | cons a is ih =>
      intro done hdone
      obtain ⟨hnext, hrest⟩ := List.isChain_cons.mp h
      rw [List.foldl_cons, foldOnto_of_merge?_eq_none (hdone a rfl), ih hrest, List.reverse_cons,
        List.append_assoc, List.singleton_append]
      intro b hb last hlast
      obtain rfl : a = last := Option.some.inj hlast
      exact hnext b hb
  rw [foldRuns, hfold [] (by simp), List.append_nil, List.reverse_reverse]

/-! ## Texts -/

/-- The symbols that a list of instructions stands for. -/
def spelled (is : List Instruction) : List Symbol :=
  is.flatMap fun i => List.replicate i.count i.symbol

/-- What a list stands for is told by its symbols. -/
lemma expand_eq_map_spelled (is : List Instruction) :
    expand is = (spelled is).map .ofSymbol := by
  rw [spelled, List.map_flatMap]
  simp only [List.map_replicate]
  rfl

/-- The text of a list of instructions consists of its symbols. -/
lemma join_text (is : List Instruction) :
    String.join (is.map Instruction.text) = .ofList ((spelled is).map Symbol.char) := by
  apply String.toList_inj.mp
  rw [String.toList_join, String.toList_ofList, List.flatMap_map]
  simp [spelled, Instruction.text, List.map_flatMap]

/-- The same in bytes. -/
lemma flatMap_source (is : List Instruction) :
    is.flatMap Instruction.source = (spelled is).map Symbol.byte := by
  rw [spelled, List.map_flatMap]
  simp only [List.map_replicate]
  rfl

/-- Different symbols have different characters. -/
lemma Symbol.char_injective : Function.Injective Symbol.char := by
  intro s t h
  cases s <;> cases t <;> first | rfl | cases h

/-- Lists with the same text stand for the same instructions. -/
lemma expand_eq_of_text
    (h : String.join (js.map Instruction.text) = String.join (is.map Instruction.text)) :
    expand js = expand is := by
  rw [join_text, join_text, String.ofList_inj,
    (List.map_injective_iff.mpr Symbol.char_injective).eq_iff] at h
  rw [expand_eq_map_spelled, h, ← expand_eq_map_spelled]

/-- The symbols of a text are its bytes without the comments. -/
lemma map_byte_symbols (source : List UInt8) :
    (symbols source).map Symbol.byte = source.filter fun b => (Symbol.ofByte? b).isSome := by
  induction source with
  | nil => rfl
  | cons b rest ih =>
    cases hb : Symbol.ofByte? b with
    | none => simpa [symbols, hb] using ih
    | some s =>
      obtain rfl := Symbol.ofByte?_eq_some_iff.mp hb
      simpa [symbols, hb] using ih

/-- A list of instructions that is the run-length form of a program text. -/
structure RunLengthForm (source : List UInt8) (is : List Instruction) : Prop where
  /-- The maximal runs of the text are packed one by one: a run of `k` additions, or of `k`
  subtractions, is `k / 255` full instructions and one more for the rest if there is any, and all
  other symbols are left as they are. -/
  eq_packRuns : is = packRuns (symbols source)
  /-- Every instruction stands for one symbol at least and for 255 at most. -/
  count_mem : ∀ i ∈ is, 1 ≤ i.count ∧ i.count ≤ 255
  /-- The texts of the instructions are the program text without its comments. -/
  text_eq : String.join (is.map Instruction.text) = .ofList ((symbols source).map Symbol.char)
  /-- The same in bytes. -/
  source_eq : is.flatMap Instruction.source = source.filter fun b => (Symbol.ofByte? b).isSome
  /-- No list of instructions with this text is shorter. -/
  shortest : ∀ js : List Instruction,
    String.join (js.map Instruction.text) = String.join (is.map Instruction.text) →
    is.length ≤ js.length
  /-- To fold the list changes nothing. -/
  foldRuns_eq : foldRuns is = is

namespace Program

variable {source : List UInt8} {p : Program}

/-- The symbols that a program stands for are those of its text. -/
lemma spelled_instructions {fold : Bool} (h : load source fold = .ok p) :
    spelled p.instructions.toList = symbols source := by
  have hexpand := expand_instructions h
  rw [expand_eq_map_spelled, plainInstructions] at hexpand
  have hsymbols := congrArg (List.map Instruction.symbol) hexpand
  simpa [Function.comp_def] using hsymbols

/-- **Folding is canonical**: the folded program of a text is its run-length form. -/
theorem fold_is_canonical (h : load source true = .ok p) :
    RunLengthForm source p.instructions.toList := by
  have hfolded : p.instructions.toList = foldRuns (plainInstructions source) := (load_spec h).2
  have hspelled : spelled p.instructions.toList = symbols source := spelled_instructions h
  exact
    { eq_packRuns := hfolded.trans (foldRuns_eq_packRuns _)
      count_mem := fun i hi => ⟨count_pos h i hi, i.count_le⟩
      text_eq := by rw [join_text, hspelled]
      source_eq := by rw [flatMap_source, hspelled, map_byte_symbols]
      shortest := fun js hjs =>
        calc p.instructions.toList.length = (foldRuns (expand js)).length := by
              rw [expand_eq_of_text hjs, expand_instructions h, ← hfolded]
          _ ≤ js.length := length_foldRuns_expand_le js
      foldRuns_eq := by
        rw [hfolded]
        exact foldRuns_of_settled (settled_foldRuns _) }

/-- A run of 256 additions and a loop are five instructions. -/
theorem fold_is_canonical_of_long_run :
    ∃ p, load (List.replicate 256 43 ++ [91, 45, 93]) true = .ok p ∧
      RunLengthForm (List.replicate 256 43 ++ [91, 45, 93])
        [.incr 255, .incr 1, .loopOpen, .decr 1, .loopClose] := by
  have htext : plainInstructions (List.replicate 256 43 ++ [91, 45, 93]) =
      expand [.incr 255, .incr 1, .loopOpen, .decr 1, .loopClose] := by
    decide +kernel
  have hbalanced : Balanced (plainInstructions (List.replicate 256 43 ++ [91, 45, 93])) := by
    rw [htext, balanced_expand_iff]
    decide
  obtain ⟨p, h⟩ := (exists_load_iff _ true).mpr hbalanced
  have hfolded : p.instructions.toList = [.incr 255, .incr 1, .loopOpen, .decr 1, .loopClose] := by
    rw [(load_spec h).2]
    decide +kernel
  exact ⟨p, h, hfolded ▸ fold_is_canonical h⟩

end Program

end TapeMachine
