import Mathlib.Tactic
import TapeMachine.Program.Layout
import TapeMachine.Proofs.Program.FoldedBrackets
import TapeMachine.Proofs.Program.RoundTrip
import TapeMachine.Proofs.Stream.Lines

/-!
# Indentation is depth of nesting

A layout is made with a counter of the loops that are open, which changes in front of a `]` and
behind a `[`. In a program whose brackets balance the counter tells the number of loops around each
bracket, as they are in the jump table. So the indentation of a bracket does not depend on how the
layout is made, but on the pairs of brackets only.

## Main definitions

* `TapeMachine.openLoops` — the counter behind a list of instructions.
* `TapeMachine.lineDepth` — the depth of the line on which the counter puts a bracket.
* `TapeMachine.indented` — a text in which every bracket stands on a line of a given depth.
* `TapeMachine.JumpTable.around`, `TapeMachine.JumpTable.nesting` — the pairs of a jump table around
  a position, and their number.

## Main results

* `TapeMachine.layout_eq_indented` — the layout of any list puts the brackets where the counter
  says.
* `TapeMachine.JumpTable.nesting_add_count` — the loops around a position, counted by the brackets
  in front of it.
* `TapeMachine.JumpTable.nesting_eq_lineDepth` — the counter tells the number of loops around a
  bracket.
* `TapeMachine.indentation_is_nesting_depth` — the layout of any list, and of one whose brackets
  balance.
-/

set_option autoImplicit false

namespace TapeMachine

/-! ## Lines of a layout -/

/-- The number of loops that are open behind a list of instructions. It stays at zero at a `]` that
closes nothing. -/
def openLoops (is : List Instruction) : Nat :=
  is.foldl (fun n i => if i = .loopOpen then n + 1 else if i = .loopClose then n - 1 else n) 0

/-- The depth of the line that begins with the bracket at position `p`, told by the counter: a `[`
is not yet counted, and a `]` is. -/
def lineDepth (is : List Instruction) (p : Nat) : Nat :=
  if is[p]? = some .loopClose then openLoops (is.take (p + 1)) else openLoops (is.take p)

instance (i : Instruction) : Decidable i.IsBracket := inferInstanceAs (Decidable (_ ∨ _))

/-- A list of instructions as program text in which each bracket begins a new line, whose depth is
given for its position. -/
def indented (depthAt : Nat → Nat) (is : List Instruction) : List UInt8 :=
  is.zipIdx.flatMap fun (i, p) => (if i.IsBracket then newLine (depthAt p) else []) ++ i.source

section Layout

variable {is : List Instruction} {i : Instruction} {p k : Nat}

/-- One instruction more. -/
lemma openLoops_concat (is : List Instruction) (i : Instruction) :
    openLoops (is ++ [i]) =
      if i = .loopOpen then openLoops is + 1
      else if i = .loopClose then openLoops is - 1 else openLoops is := by
  rw [openLoops, List.foldl_append]
  rfl

/-- The depth of a line does not depend on what follows. -/
lemma lineDepth_append (h : p < is.length) (rest : List Instruction) :
    lineDepth (is ++ rest) p = lineDepth is p := by
  rw [lineDepth, List.getElem?_append_left h, List.take_append_of_le_length h,
    List.take_append_of_le_length h.le, lineDepth]

/-- The depth of a line that begins with the last instruction. -/
lemma lineDepth_concat (is : List Instruction) (i : Instruction) :
    lineDepth (is ++ [i]) is.length =
      if i = .loopClose then openLoops is - 1 else openLoops is := by
  rw [lineDepth, List.getElem?_concat_length, List.take_left, List.take_of_length_le (by simp),
    openLoops_concat]
  by_cases hi : i = .loopClose
  · subst hi
    rfl
  · rw [if_neg hi, if_neg (by simpa using hi)]

/-- Texts are indented alike where the depths are equal. -/
lemma indented_congr {depthAt depthAt' : Nat → Nat}
    (h : ∀ p i, is[p]? = some i → i.IsBracket → depthAt p = depthAt' p) :
    indented depthAt is = indented depthAt' is := by
  refine List.flatMap_congr fun ⟨i, p⟩ hmem => ?_
  dsimp only
  split
  · rename_i hi
    rw [h p i (List.mem_zipIdx_iff_getElem?.mp hmem) hi]
  · rfl

/-- One instruction more, with the line that it begins. -/
lemma indented_concat (depthAt : Nat → Nat) (is : List Instruction) (i : Instruction) :
    indented depthAt (is ++ [i]) =
      indented depthAt is ++
        ((if i.IsBracket then newLine (depthAt is.length) else []) ++ i.source) := by
  rw [indented, List.zipIdx_append, List.flatMap_append, Nat.zero_add]
  simp [indented]

/-- The depth of a page is the number of loops that are open. -/
lemma depth_foldl_add (is : List Instruction) :
    (is.foldl Page.add Page.empty).depth = openLoops is := by
  induction is using List.reverseRecOn with
  | nil => rfl
  | append_singleton is i ih =>
    rw [List.foldl_append, openLoops_concat, ← ih]
    cases i <;> rfl

/-- What an instruction adds to a page is a new line if it is a bracket, and its text. -/
lemma Page.piece_eq (page : Page) (i : Instruction) :
    page.piece i =
      (if i.IsBracket then
        newLine (if i = .loopClose then page.depth - 1 else page.depth)
      else []) ++ i.source := by
  cases i <;> simp [piece, Instruction.IsBracket]

/-- **The layout puts every bracket on a line of the depth that the counter tells**, whether or not
the brackets balance.

**Proof sketch.** Induction on the list, from its end. The depths of the lines in front do not
change when an instruction is added. -/
theorem layout_eq_indented (is : List Instruction) : layout is = indented (lineDepth is) is := by
  induction is using List.reverseRecOn with
  | nil => rfl
  | append_singleton is i ih =>
    have hfront : indented (lineDepth (is ++ [i])) is = indented (lineDepth is) is :=
      indented_congr fun p a ha _ => lineDepth_append (List.getElem?_eq_some_iff.mp ha).1 [i]
    rw [layout, List.foldl_append, List.foldl_cons, List.foldl_nil, Page.text_add, ← layout, ih,
      indented_concat, hfront, lineDepth_concat, Page.piece_eq, depth_foldl_add]

/-- The characters of an instruction are encoded as its text. -/
lemma encode_text (i : Instruction) : Text.encode i.text = i.source := by
  have hchar : ∀ s : Symbol, String.utf8EncodeChar s.char = [s.byte] := by
    intro s
    cases s <;> decide
  rw [Instruction.text, Text.encode_ofList, Instruction.source]
  induction i.count with
  | zero => rfl
  | succ n ih => rw [List.replicate_succ, List.flatMap_cons, ih, hchar]; rfl

/-- Without its line feeds and blanks, an indented text is that of its instructions. -/
lemma filter_indented (depthAt : Nat → Nat) (is : List Instruction) :
    (indented depthAt is).filter (fun b => !isGap b) = is.flatMap Instruction.source := by
  have hline : ∀ depth, (newLine depth).filter (fun b => !isGap b) = [] := fun depth =>
    List.filter_eq_nil_iff.mpr fun b hb => by simp [isGap_of_mem_newLine hb]
  have hsource : ∀ i : Instruction, i.source.filter (fun b => !isGap b) = i.source := by
    refine fun i => List.filter_eq_self.mpr fun b hb => ?_
    rw [List.eq_of_mem_replicate hb]
    cases i.symbol <;> rfl
  induction is using List.reverseRecOn with
  | nil => rfl
  | append_singleton is i ih =>
    rw [indented_concat, List.filter_append, ih, List.filter_append, hsource, List.flatMap_append]
    split <;> simp [hline]

end Layout

/-! ## Pairs around a position -/

namespace JumpTable

/-- The pairs of a jump table around a position, given by the positions of their `[`. -/
def around (table : JumpTable) (p : Nat) : Finset Nat :=
  (Finset.range p).filter fun i => p < table.target i

/-- The number of pairs of a jump table around a position. -/
def nesting (table : JumpTable) (p : Nat) : Nat := (table.around p).card

variable {is : List Instruction} {table : JumpTable} {i j p q : Nat}

/-- The pairs around a position are those of which the one bracket stands in front of it and the
other behind it. -/
lemma mem_around_iff (table : JumpTable) (p i : Nat) :
    i ∈ table.around p ↔ ∃ j, table.partner? i = some j ∧ i < p ∧ p < j := by
  rw [around, Finset.mem_filter, Finset.mem_range]
  unfold partner?
  constructor
  · rintro ⟨hi, hp⟩
    exact ⟨table.target i, if_neg (by omega), hi, hp⟩
  · rintro ⟨j, hj, hi, hp⟩
    split at hj
    · cases hj
    · cases hj
      exact ⟨hi, hp⟩

/-- The pairs around a position, by the brackets that close each other. -/
lemma mem_around_iff_encloses (h : resolve is = .ok table) :
    i ∈ table.around p ↔ ∃ j, Encloses is i j ∧ i < p ∧ p < j := by
  rw [mem_around_iff]
  refine exists_congr fun j => and_congr_left fun ⟨hi, hp⟩ => ?_
  exact partner?_eq_some_iff h (by omega)

/-- **The loops around a position** are those that are opened in front of it, less those that are
closed up to it.

**Proof sketch.** Of the brackets that open in front of the position, those around it have their
partner behind it. The others are the partners of the brackets that close up to the position. -/
theorem nesting_add_count (h : resolve is = .ok table) (p : Nat) :
    table.nesting p + (is.take (p + 1)).count .loopClose = (is.take p).count .loopOpen := by
  set opened := (Finset.range p).filter fun i => is[i]? = some .loopOpen with hopened
  have haround : table.around p = opened.filter fun i => p < table.target i := by
    ext i
    rw [mem_around_iff_encloses h, Finset.mem_filter, hopened, Finset.mem_filter, Finset.mem_range]
    constructor
    · rintro ⟨j, he, hi, hp⟩
      exact ⟨⟨hi, he.opening⟩, by rwa [(target_of_encloses h he).1]⟩
    · rintro ⟨⟨hi, ho⟩, hp⟩
      obtain ⟨j, he⟩ := exists_closing h ho
      rw [(target_of_encloses h he).1] at hp
      exact ⟨j, he, hi, hp⟩
  have hclosed : (opened.filter fun i => ¬ p < table.target i).card =
      ((Finset.range (p + 1)).filter fun j => is[j]? = some .loopClose).card := by
    refine Finset.card_nbij' table.target table.target ?_ ?_ ?_ ?_
    · intro i hi
      simp only [hopened, Finset.mem_coe, Finset.mem_filter, Finset.mem_range] at hi ⊢
      exact ⟨by omega, getElem?_target_of_open h hi.1.2⟩
    · intro j hj
      simp only [hopened, Finset.mem_coe, Finset.mem_filter, Finset.mem_range] at hj ⊢
      obtain ⟨i, he⟩ := exists_opening h hj.2
      have hlt := he.lt
      obtain ⟨hi, hback⟩ := target_of_encloses h he
      rw [hback, hi]
      exact ⟨⟨by omega, he.opening⟩, by omega⟩
    · intro i hi
      simp only [hopened, Finset.mem_coe, Finset.mem_filter] at hi
      obtain ⟨j, he⟩ := exists_closing h hi.1.2
      obtain ⟨hj, hback⟩ := target_of_encloses h he
      rw [hj, hback]
    · intro j hj
      simp only [Finset.mem_coe, Finset.mem_filter] at hj
      obtain ⟨i, he⟩ := exists_opening h hj.2
      obtain ⟨hi, hback⟩ := target_of_encloses h he
      rw [hback, hi]
  rw [nesting, haround, ← card_positions, ← hclosed, Finset.card_filter_add_card_filter_not,
    card_positions]

/-- The loops around a position are the depth in front of it, or behind it if a `]` stands there. -/
lemma nesting_eq_depth (h : resolve is = .ok table) (p : Nat) :
    (table.nesting p : Int) =
      if is[p]? = some .loopClose then depth is (p + 1) else depth is p := by
  have hcount := nesting_add_count h p
  have hstep : ∀ a, (is.take (p + 1)).count a =
      (is.take p).count a + if is[p]? = some a then 1 else 0 := by
    intro a
    rw [← count_positions, Nat.count_succ, count_positions]
  split
  · rename_i hc
    have hopen := hstep .loopOpen
    rw [hc, if_neg (by simp)] at hopen
    rw [depth]
    omega
  · rename_i hc
    have hclose := hstep .loopClose
    rw [if_neg hc] at hclose
    rw [depth]
    omega

/-- Where no beginning of a list closes more brackets than it opens the counter tells the depth. -/
lemma openLoops_take (h : ∀ k, 0 ≤ depth is k) (k : Nat) :
    (openLoops (is.take k) : Int) = depth is k := by
  induction k with
  | zero => simp [openLoops]
  | succ k ih =>
    rw [List.take_add_one]
    by_cases ho : is[k]? = some .loopOpen
    · rw [ho, Option.toList_some, openLoops_concat, if_pos rfl, depth_succ_of_open ho]
      omega
    · by_cases hc : is[k]? = some .loopClose
      · have hnext := h (k + 1)
        rw [depth_succ_of_close hc] at hnext ⊢
        rw [hc, Option.toList_some, openLoops_concat, if_neg (by simp), if_pos rfl]
        omega
      · rw [depth_succ_of_plain ho hc, ← ih]
        cases hi : is[k]? with
        | none => simp
        | some i =>
          rw [hi] at ho hc
          rw [Option.toList_some, openLoops_concat, if_neg fun e => ho (congrArg some e),
            if_neg fun e => hc (congrArg some e)]

/-- **The counter tells the number of loops around a bracket.** -/
theorem nesting_eq_lineDepth (h : resolve is = .ok table) (p : Nat) :
    table.nesting p = lineDepth is p := by
  have hnonneg : ∀ k, 0 ≤ depth is k := (exists_resolve_iff.mp ⟨table, h⟩).depth_nonneg
  have hdepth := nesting_eq_depth h p
  rw [lineDepth]
  split at hdepth <;> rename_i hc
  · rw [if_pos hc, ← Int.natCast_inj, openLoops_take hnonneg, hdepth]
  · rw [if_neg hc, ← Int.natCast_inj, openLoops_take hnonneg, hdepth]

/-- There are as many loops around a bracket as around its partner. -/
lemma nesting_partner (h : resolve is = .ok table) (hq : table.partner? p = some q) :
    table.nesting q = table.nesting p := by
  have hpair : ∀ i j, Encloses is i j → table.nesting j = table.nesting i := by
    intro i j he
    have hi := nesting_eq_depth h i
    have hj := nesting_eq_depth h j
    rw [he.opening, if_neg (by simp)] at hi
    rw [he.closing, if_pos rfl, he.depth_succ_closing, ← hi] at hj
    exact Int.natCast_inj.mp hj
  rcases encloses_of_partner? h hq with he | he
  · exact hpair p q he
  · exact (hpair q p he).symm

/-- Directly inside a loop there is one loop more than around it: the pairs around the position are
those around the loop, and the loop itself. -/
lemma nesting_of_inside (h : resolve is = .ok table) (hj : table.partner? i = some j) (hi : i < p)
    (hp : p < j)
    (hdirect : ∀ i' j', table.partner? i' = some j' → i < i' → i' < p → j' ≤ p) :
    table.nesting p = table.nesting i + 1 := by
  have he := (partner?_eq_some_iff h (hi.trans hp)).mp hj
  have hinsert : table.around p = insert i (table.around i) := by
    ext i'
    rw [Finset.mem_insert, mem_around_iff_encloses h, mem_around_iff_encloses h]
    constructor
    · rintro ⟨j', he', hi', hp'⟩
      rcases Nat.lt_trichotomy i' i with hlt | rfl | hlt
      · rcases he'.nested_or_disjoint he hlt with hd | hd
        · omega
        · exact Or.inr ⟨j', he', hlt, by omega⟩
      · exact Or.inl rfl
      · have := hdirect i' j' (partner?_of_encloses h he').1 hlt hi'
        omega
    · rintro (rfl | ⟨j', he', hlt, hi'⟩)
      · exact ⟨j, he, hi, hp⟩
      · rcases he'.nested_or_disjoint he hlt with hd | hd
        · omega
        · exact ⟨j', he', by omega, by omega⟩
  have hnotMem : i ∉ table.around i := by
    rw [mem_around_iff]
    rintro ⟨j', -, hlt, -⟩
    exact Nat.lt_irrefl i hlt
  rw [nesting, hinsert, Finset.card_insert_of_notMem hnotMem, nesting]

end JumpTable

/-! ## The layout of a list -/

/-- **Indentation is depth of nesting.** Without its line feeds and blanks, the layout of a list of
instructions is the text of the instructions, one after another. All that the layout adds is a line
feed in front of each bracket, and two blanks for each loop that the counter tells there.

If the brackets balance these are the pairs of the jump table around the bracket. So a bracket and
its partner are indented alike, and a bracket directly inside a loop by two blanks more than the
brackets of this loop. -/
theorem indentation_is_nesting_depth (is : List Instruction) :
    ((layout is).filter fun b => !isGap b) = (is.flatMap fun i => Text.encode i.text) ∧
    layout is = indented (lineDepth is) is ∧
    (Balanced is → ∃ table, JumpTable.resolve is = .ok table ∧
      layout is = indented table.nesting is ∧
      (∀ p i, i ∈ table.around p ↔ ∃ j, table.partner? i = some j ∧ i < p ∧ p < j) ∧
      (∀ p q, table.partner? p = some q → table.nesting q = table.nesting p) ∧
      ∀ i j p, table.partner? i = some j → i < p → p < j →
        (∀ i' j', table.partner? i' = some j' → i < i' → i' < p → j' ≤ p) →
        table.nesting p = table.nesting i + 1) := by
  refine ⟨?_, layout_eq_indented is, fun hb => ?_⟩
  · rw [layout_eq_indented, filter_indented]
    simp only [encode_text]
  · obtain ⟨table, h⟩ := JumpTable.exists_resolve_iff.mpr hb
    refine ⟨table, h, ?_, fun p i => table.mem_around_iff p i,
      fun p q => JumpTable.nesting_partner h, fun i j p => JumpTable.nesting_of_inside h⟩
    rw [layout_eq_indented]
    exact indented_congr fun p _ _ _ => (JumpTable.nesting_eq_lineDepth h p).symm

/-- In the program `[+[-]]` the inner brackets are indented by two blanks, and the outer ones by
none. -/
theorem indentation_is_nesting_depth_of_nested :
    ∃ table, JumpTable.resolve [.loopOpen, .incr 1, .loopOpen, .decr 1, .loopClose, .loopClose] =
        .ok table ∧
      table.partner? 0 = some 5 ∧ table.partner? 2 = some 4 ∧
      table.nesting 2 = table.nesting 0 + 1 ∧ table.nesting 4 = table.nesting 2 ∧
      indented table.nesting
          [.loopOpen, .incr 1, .loopOpen, .decr 1, .loopClose, .loopClose] =
        [10, 91, 43, 10, 32, 32, 91, 45, 10, 32, 32, 93, 10, 93] := by
  obtain ⟨table, h, hlayout, -, hpartner, hinside⟩ :=
    (indentation_is_nesting_depth
      [.loopOpen, .incr 1, .loopOpen, .decr 1, .loopClose, .loopClose]).2.2 (by decide)
  obtain rfl : (⟨#[5, 1, 4, 3, 2, 0]⟩ : JumpTable) = table := Except.ok.inj h
  refine ⟨_, rfl, rfl, rfl, hinside 0 5 2 rfl (by decide) (by decide) ?_, hpartner 2 4 rfl,
    hlayout.symm⟩
  intro i' j' hj hi hp
  obtain rfl : i' = 1 := by omega
  cases hj

end TapeMachine
