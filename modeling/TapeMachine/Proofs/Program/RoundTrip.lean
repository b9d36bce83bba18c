import Mathlib.Tactic
import TapeMachine.CommandLine.Start
import TapeMachine.Program.Layout
import TapeMachine.Proofs.Program.Expansion

/-!
# Laying a program out and loading it again

The layout of a program is a text of this program. It adds nothing to the symbols but line feeds and
blanks, which are comments, and it does not show how runs were folded. So what is loaded from the
layout is what was loaded from the text, and it is laid out in the same way.

## Main definitions

* `TapeMachine.isGap` — the bytes that a layout adds to the symbols.
* `TapeMachine.Page.piece` — the bytes that an instruction adds to a page.
* `TapeMachine.LaidOut` — a text is the layout of another, and loads as that other text does.

## Main results

* `TapeMachine.layout_expand` — the layout does not show how runs were folded.
* `TapeMachine.plainInstructions_layout` — the symbols of a layout are those that the instructions
  stand for.
* `TapeMachine.Program.exists_load_of_plainInstructions_eq` — texts with the same symbols load alike.
* `TapeMachine.layout_round_trip` — the layout of every text that loads is such a text.
-/

set_option autoImplicit false

namespace TapeMachine

/-! ## What an instruction adds to a page -/

/-- The bytes that a layout adds to the symbols: line feeds and blanks. -/
def isGap (b : UInt8) : Bool := b == 10 || b == 32

/-- Line feeds and blanks are comments. -/
lemma ofByte?_of_isGap {b : UInt8} (h : isGap b = true) : Symbol.ofByte? b = none := by
  simp only [isGap, Bool.or_eq_true, beq_iff_eq] at h
  rcases h with rfl | rfl <;> rfl

/-- A new line holds nothing but line feeds and blanks. -/
lemma isGap_of_mem_newLine {depth : Nat} {b : UInt8} (h : b ∈ newLine depth) : isGap b = true := by
  rcases List.mem_cons.mp h with rfl | h
  · rfl
  · rw [List.eq_of_mem_replicate h]
    rfl

@[simp]
lemma symbols_append (as bs : List UInt8) : symbols (as ++ bs) = symbols as ++ symbols bs :=
  List.filterMap_append

/-- A new line holds no symbol. -/
lemma symbols_newLine (depth : Nat) : symbols (newLine depth) = [] :=
  List.filterMap_eq_nil_iff.mpr fun _ hb => ofByte?_of_isGap (isGap_of_mem_newLine hb)

/-- The symbols of an instruction as program text. -/
lemma symbols_source (i : Instruction) : symbols i.source = List.replicate i.count i.symbol := by
  rw [symbols, Instruction.source, List.filterMap_replicate_of_some (Symbol.ofByte?_byte _)]

namespace Page

variable (page : Page) (i : Instruction)

/-- The bytes that an instruction adds to a page. -/
def piece : Instruction → List UInt8
  | .loopOpen => newLine page.depth ++ Instruction.loopOpen.source
  | .loopClose => newLine (page.depth - 1) ++ Instruction.loopClose.source
  | other => other.source

lemma text_add : (page.add i).text.toList = page.text.toList ++ page.piece i := by
  cases i <;> simp [add, piece, Instruction.source, Instruction.count, Instruction.symbol]

/-- The symbols that an instruction adds to a page are those that it stands for. -/
lemma symbols_piece : symbols (page.piece i) = List.replicate i.count i.symbol := by
  cases i with
  | loopOpen | loopClose =>
    rw [piece, symbols_append, symbols_newLine, List.nil_append, symbols_source]
  | _ => exact symbols_source _

/-- All other bytes that it adds are line feeds and blanks. -/
lemma isGap_of_mem_piece {b : UInt8} (h : b ∈ page.piece i) (hb : Symbol.ofByte? b = none) :
    isGap b = true := by
  have hsource : ∀ i : Instruction, b ∉ i.source := by
    intro i hmem
    rw [List.eq_of_mem_replicate hmem, Symbol.ofByte?_byte] at hb
    cases hb
  cases i with
  | loopOpen | loopClose =>
    rcases List.mem_append.mp h with h | h
    · exact isGap_of_mem_newLine h
    · exact absurd h (hsource _)
  | _ => exact absurd h (hsource _)

/-- An instruction that is no bracket can be added to a page symbol by symbol.

**Proof sketch.** Induction on the length of the run; every symbol goes behind the ones before it. -/
lemma foldl_add_replicate {s : Symbol} (ho : s ≠ .loopOpen) (hc : s ≠ .loopClose) (n : Nat) :
    (List.replicate n (Instruction.ofSymbol s)).foldl add page =
      ⟨page.depth, page.text ++ List.replicate n s.byte⟩ := by
  have hone : ∀ page : Page, page.add (.ofSymbol s) = ⟨page.depth, page.text ++ [s.byte]⟩ := by
    intro page
    cases s with
    | loopOpen => exact absurd rfl ho
    | loopClose => exact absurd rfl hc
    | _ => rfl
  induction n generalizing page with
  | zero => simp
  | succ n ih =>
    rw [List.replicate_succ, List.foldl_cons, ih, hone]
    simp [List.replicate_succ]

/-- To write a run out does not change what is added to a page. -/
lemma foldl_add_expand : i.expand.foldl add page = page.add i := by
  cases i with
  | loopOpen | loopClose => rfl
  | _ => exact page.foldl_add_replicate (by simp [Instruction.symbol]) (by simp [Instruction.symbol]) _

end Page

/-! ## Layouts -/

section

variable (is : List Instruction)

/-- **The layout does not show how runs were folded.** -/
theorem layout_expand : layout (expand is) = layout is := by
  have hfold : ∀ page, (expand is).foldl Page.add page = is.foldl Page.add page := by
    induction is with
    | nil => exact fun _ => rfl
    | cons a as ih =>
      intro page
      rw [expand_cons, List.foldl_append, Page.foldl_add_expand, ih, List.foldl_cons]
  rw [layout, hfold, layout]

/-- The symbols of a layout are those that the instructions stand for. -/
lemma symbols_layout : symbols (layout is) = is.flatMap fun i => List.replicate i.count i.symbol := by
  have hfold : ∀ page : Page, symbols (is.foldl Page.add page).text.toList =
      symbols page.text.toList ++ is.flatMap fun i => List.replicate i.count i.symbol := by
    induction is with
    | nil => exact fun _ => (List.append_nil _).symm
    | cons a as ih =>
      intro page
      rw [List.foldl_cons, ih, Page.text_add, symbols_append, Page.symbols_piece, List.append_assoc,
        List.flatMap_cons]
  exact hfold Page.empty

/-- **The layout is a text of the program**: it stands for the same single instructions. -/
theorem plainInstructions_layout : plainInstructions (layout is) = expand is := by
  rw [plainInstructions, symbols_layout, List.map_flatMap]
  simp only [List.map_replicate]
  rfl

/-- A layout holds no comments but line feeds and blanks. -/
lemma isGap_of_mem_layout {b : UInt8} (h : b ∈ layout is) (hb : Symbol.ofByte? b = none) :
    isGap b = true := by
  have hfold : ∀ (as : List Instruction) (page : Page),
      b ∈ (as.foldl Page.add page).text.toList → b ∈ page.text.toList ∨ isGap b = true := by
    intro as
    induction as with
    | nil => exact fun _ => Or.inl
    | cons a as ih =>
      intro page hmem
      rcases ih (page.add a) hmem with hmem | hgap
      · rw [Page.text_add] at hmem
        exact (List.mem_append.mp hmem).imp_right fun hpiece => page.isGap_of_mem_piece a hpiece hb
      · exact Or.inr hgap
  rcases hfold is Page.empty h with hmem | hgap
  · cases hmem
  · exact hgap

/-- All comments of a layout, with or without a line feed behind it, are its line feeds and
blanks. -/
lemma commentCount_layout {tail : List UInt8} (htail : ∀ b ∈ tail, isGap b = true) :
    commentCount (layout is ++ tail) = (layout is ++ tail).countP isGap := by
  refine List.countP_congr fun b hb => ?_
  rw [Option.isNone_iff_eq_none]
  constructor
  · intro hnone
    rcases List.mem_append.mp hb with hmem | hmem
    · exact isGap_of_mem_layout is hmem hnone
    · exact htail b hmem
  · exact ofByte?_of_isGap

/-- A layout with line feeds and blanks behind it has the symbols of the layout. -/
lemma plainInstructions_layout_append {tail : List UInt8} (htail : ∀ b ∈ tail, isGap b = true) :
    plainInstructions (layout is ++ tail) = expand is := by
  have hnone : symbols tail = [] :=
    List.filterMap_eq_nil_iff.mpr fun b hb => ofByte?_of_isGap (htail b hb)
  rw [← plainInstructions_layout is, plainInstructions, symbols_append, hnone, List.append_nil,
    plainInstructions]

end

/-! ## Loading -/

namespace Program

variable {source source' : List UInt8} {fold : Bool} {p : Program}

/-- **Texts with the same symbols load alike**: the instructions are the same, and so are the
jumps. -/
theorem exists_load_of_plainInstructions_eq (h : load source fold = .ok p)
    (heq : plainInstructions source' = plainInstructions source) :
    ∃ q, load source' fold = .ok q ∧ q.instructions = p.instructions ∧ q.jumps = p.jumps ∧
      q.discarded = commentCount source' := by
  have hb := (exists_load_iff source fold).mp ⟨p, h⟩
  rw [← heq] at hb
  obtain ⟨q, hq⟩ := (exists_load_iff source' fold).mpr hb
  have hlist : q.instructions.toList = p.instructions.toList := by
    rw [(load_spec hq).2, (load_spec h).2, heq]
  have hjumps : Except.ok q.jumps = Except.ok (ε := BracketError) p.jumps := by
    rw [← q.resolved, ← p.resolved, hlist]
  exact ⟨q, hq, Array.toList_inj.mp hlist, Except.ok.inj hjumps, discarded_of_load hq⟩

end Program

/-! ## The round trip -/

/-- The text `text` is the layout of the text `source`, and loads as that text does. -/
structure LaidOut (source text : List UInt8) : Prop where
  /-- It is the layout of what is loaded from that text, folded or not. -/
  same : ∀ fold p, Program.load source fold = .ok p → layout p.instructions.toList = text
  /-- It loads, with or without a line feed behind it, and gives the instructions and the jumps that
  the other text gives. It is laid out again as it is. -/
  reload : ∀ tail, tail = [] ∨ tail = [10] → ∀ fold, ∃ p q, Program.load source fold = .ok p ∧
    Program.load (text ++ tail) fold = .ok q ∧ q.instructions = p.instructions ∧
      q.jumps = p.jumps ∧ layout q.instructions.toList = text ∧
      q.discarded = (text ++ tail).countP isGap
  /-- All comments that it holds are line feeds and blanks. -/
  comments : ∀ b ∈ text, Symbol.ofByte? b = none → b = 10 ∨ b = 32
  /-- The command prints it with a line feed behind it. -/
  printed : ∀ (console : Console) path options stdin stdout,
    console.surroundings.read path = .ok source →
    (console.openFile .format path options stdin stdout).stdout =
      (stdout.writeAll (text ++ [10])).2
  /-- The command prints the same when it is given what it has printed. -/
  idempotent : ∀ (console : Console) path options stdin stdout,
    console.surroundings.read path = .ok (text ++ [10]) →
    (console.openFile .format path options stdin stdout).stdout =
      (stdout.writeAll (text ++ [10])).2

/-- What the command prints when it is asked for the layout of a program. -/
lemma Console.stdout_openFile_format (console : Console) {path : String} {options : Options}
    {source : List UInt8} {p : Program} (hread : console.surroundings.read path = .ok source)
    (hload : Program.load source options.fold = .ok p) (stdin : Reader) (stdout : Writer) :
    (console.openFile .format path options stdin stdout).stdout =
      (stdout.writeAll (layout p.instructions.toList ++ [10])).2 := by
  simp only [openFile, hread, hload, begin, printAndExit]
  rcases stdout.writeAll (layout p.instructions.toList ++ [10]) with ⟨_ | _, w⟩ <;> rfl

/-- **Laying a program out and loading it again** gives the program, folded or not, and with it the
same layout. -/
theorem layout_round_trip {source : List UInt8} {fold : Bool} {p : Program}
    (h : Program.load source fold = .ok p) : LaidOut source (layout p.instructions.toList) := by
  have hexpand := Program.expand_instructions h
  have hsame : ∀ fold' p', Program.load source fold' = .ok p' →
      layout p'.instructions.toList = layout p.instructions.toList := by
    intro fold' p' h'
    rw [← layout_expand, Program.expand_instructions h', ← hexpand, layout_expand]
  have hload : ∀ tail, tail = [] ∨ tail = [10] → ∀ fold', ∃ p' q,
      Program.load source fold' = .ok p' ∧
      Program.load (layout p.instructions.toList ++ tail) fold' = .ok q ∧
      q.instructions = p'.instructions ∧ q.jumps = p'.jumps ∧
      layout q.instructions.toList = layout p.instructions.toList ∧
      q.discarded = (layout p.instructions.toList ++ tail).countP isGap := by
    intro tail htail fold'
    have hgap : ∀ b ∈ tail, isGap b = true := by
      intro b hb
      rcases htail with rfl | rfl
      · cases hb
      · rw [List.mem_singleton.mp hb]
        rfl
    obtain ⟨p', h'⟩ := (Program.exists_load_iff source fold').mpr
      ((Program.exists_load_iff source fold).mp ⟨p, h⟩)
    have hplain := plainInstructions_layout_append p.instructions.toList hgap
    obtain ⟨q, hq, hi, hj, hd⟩ := Program.exists_load_of_plainInstructions_eq h'
      (hplain.trans hexpand)
    rw [commentCount_layout _ hgap] at hd
    exact ⟨p', q, h', hq, hi, hj, by rw [hi]; exact hsame fold' p' h', hd⟩
  refine ⟨hsame, hload, fun b hb hnone => ?_, ?_, ?_⟩
  · simpa [isGap] using isGap_of_mem_layout p.instructions.toList hb hnone
  · intro console path options stdin stdout hread
    obtain ⟨p', -, h', -⟩ := hload [] (Or.inl rfl) options.fold
    rw [console.stdout_openFile_format hread h', hsame _ p' h']
  · intro console path options stdin stdout hread
    obtain ⟨-, q, -, hq, -, -, hlayout, -⟩ := hload [10] (Or.inr rfl) options.fold
    rw [console.stdout_openFile_format hread hq, hlayout]

/-- The text `++[-]` is laid out in three lines. -/
theorem layout_round_trip_of_countdown :
    ∃ p, Program.load [43, 43, 91, 45, 93] true = .ok p ∧
      LaidOut [43, 43, 91, 45, 93] [43, 43, 10, 91, 45, 10, 93] := by
  obtain ⟨p, h⟩ := (Program.exists_load_iff [43, 43, 91, 45, 93] true).mpr (by decide)
  have hlayout : layout p.instructions.toList = [43, 43, 10, 91, 45, 10, 93] := by
    rw [(Program.load_spec h).2]
    decide
  exact ⟨p, h, hlayout ▸ layout_round_trip h⟩

end TapeMachine
