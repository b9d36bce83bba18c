import Mathlib.Tactic
import TapeMachine.Proofs.Program.Indentation
import TapeMachine.Proofs.Program.RunLength

/-!
# Comments do not matter

A byte that is none of the eight symbols is a comment. Comments may stand anywhere in a program
text, within runs and loops too. They are skipped and counted, and that is all: whatever comments
are put in or taken out, the same instructions with the same jumps are loaded, or loading fails with
the same error. What is skipped and what the instructions stand for make up the whole text.

## Main definitions

* `TapeMachine.IsComment` — the bytes that are comments.
* `TapeMachine.CommentEdits` — a text becomes another by edits of its comments.

## Main results

* `TapeMachine.CommentEdits.symbols_eq`, `TapeMachine.CommentEdits.commentCount_eq` — what edits of
  the comments do to the symbols and to the number of comments.
* `TapeMachine.Program.load_of_symbols_eq` — loading depends on the symbols, but for the number of
  comments.
* `TapeMachine.Program.comments_are_transparent` — edits of the comments change that number alone.
-/

set_option autoImplicit false

namespace TapeMachine

/-- A byte is a comment if it is the code of no symbol. -/
def IsComment (b : UInt8) : Prop := ∀ s : Symbol, b ≠ s.byte

/-- A byte is a comment exactly when it stands for no symbol. -/
lemma isComment_iff {b : UInt8} : IsComment b ↔ Symbol.ofByte? b = none := by
  rw [Option.eq_none_iff_forall_ne_some]
  exact forall_congr' fun s => not_congr Symbol.ofByte?_eq_some_iff.symm

instance : DecidablePred IsComment := fun _ => decidable_of_iff _ isComment_iff.symm

/-- A text becomes another by edits: each of them puts comments into the text, or takes comments out
of it, at any place. The edits put in `added` bytes and take out `removed` bytes in all. -/
inductive CommentEdits (source : List UInt8) : List UInt8 → Nat → Nat → Prop
  | refl : CommentEdits source source 0 0
  | insert {front back comments : List UInt8} {added removed : Nat}
    (hcomments : ∀ b ∈ comments, IsComment b)
    (rest : CommentEdits source (front ++ back) added removed) :
    CommentEdits source (front ++ comments ++ back) (added + comments.length) removed
  | remove {front back comments : List UInt8} {added removed : Nat}
    (hcomments : ∀ b ∈ comments, IsComment b)
    (rest : CommentEdits source (front ++ comments ++ back) added removed) :
    CommentEdits source (front ++ back) added (removed + comments.length)

/-! ## Symbols and comments of an edited text -/

section

variable {source source' front back comments : List UInt8} {added removed : Nat}

/-- Comments hold no symbol. -/
lemma symbols_eq_nil (h : ∀ b ∈ comments, IsComment b) : symbols comments = [] :=
  List.filterMap_eq_nil_iff.mpr fun b hb => isComment_iff.mp (h b hb)

lemma commentCount_append (as bs : List UInt8) :
    commentCount (as ++ bs) = commentCount as + commentCount bs :=
  List.countP_append

/-- All bytes of comments are comments. -/
lemma commentCount_eq_length (h : ∀ b ∈ comments, IsComment b) :
    commentCount comments = comments.length :=
  List.countP_eq_length.mpr fun b hb => Option.isNone_iff_eq_none.mpr (isComment_iff.mp (h b hb))

/-- Comments within a text do not change its symbols. -/
lemma symbols_insert (h : ∀ b ∈ comments, IsComment b) :
    symbols (front ++ comments ++ back) = symbols (front ++ back) := by
  simp only [symbols_append, symbols_eq_nil h, List.append_nil]

/-- Comments within a text are counted. -/
lemma commentCount_insert (h : ∀ b ∈ comments, IsComment b) :
    commentCount (front ++ comments ++ back) = commentCount (front ++ back) + comments.length := by
  simp only [commentCount_append, commentCount_eq_length h]
  omega

namespace CommentEdits

/-- **Edits of the comments do not change the symbols** of a text. -/
theorem symbols_eq (h : CommentEdits source source' added removed) :
    symbols source' = symbols source := by
  induction h with
  | refl => rfl
  | insert hcomments _ ih => rw [symbols_insert hcomments, ih]
  | remove hcomments _ ih => rw [← symbols_insert hcomments, ih]

/-- **Edits of the comments change their number** by the number of bytes that are put in or taken
out. -/
theorem commentCount_eq (h : CommentEdits source source' added removed) :
    commentCount source' + removed = commentCount source + added := by
  induction h with
  | refl => rfl
  | insert hcomments _ ih =>
    rw [commentCount_insert hcomments]
    omega
  | remove hcomments _ ih =>
    rw [commentCount_insert hcomments] at ih
    omega

end CommentEdits

end

/-! ## Loading -/

namespace Program

variable {source source' : List UInt8} {fold : Bool} {p : Program}

/-- The number of comments does not matter for the program of a list of instructions. -/
lemma ofInstructions?_discarded (is : List Instruction) (discarded discarded' : Nat) :
    ofInstructions? is discarded' =
      (ofInstructions? is discarded).map fun p => { p with discarded := discarded' } := by
  unfold ofInstructions?
  split <;> rfl

/-- **Loading depends on the symbols of a text**, but for the number of comments: texts with the
same symbols give the same instructions with the same jumps, or the same error. -/
theorem load_of_symbols_eq (h : symbols source' = symbols source) (fold : Bool) :
    load source' fold =
      (load source fold).map fun p => { p with discarded := commentCount source' } := by
  have hplain : plainInstructions source' = plainInstructions source := by
    rw [plainInstructions, h, plainInstructions]
  rw [load_eq, load_eq, hplain,
    ofInstructions?_discarded _ (commentCount source) (commentCount source'),
    ofInstructions?_discarded (foldRuns _) (commentCount source) (commentCount source')]
  cases ofInstructions? (plainInstructions source) (commentCount source) with
  | error e => rfl
  | ok plain =>
    cases fold with
    | true => rfl
    | false => rfl

/-- The texts of the instructions of a program are its text without the comments. -/
lemma flatMap_encode_text (h : load source fold = .ok p) :
    p.instructions.toList.flatMap (fun i => Text.encode i.text) =
      source.filter fun b => ¬ IsComment b := by
  simp only [encode_text]
  rw [flatMap_source, spelled_instructions h, map_byte_symbols]
  refine List.filter_congr fun b _ => ?_
  rw [Bool.eq_iff_iff, Option.isSome_iff_ne_none, decide_eq_true_iff, isComment_iff]

/-- Every byte of a text is a comment that was skipped or belongs to the text of an instruction. -/
lemma discarded_add_length (h : load source fold = .ok p) :
    p.discarded + (p.instructions.toList.map fun i => (Text.encode i.text).length).sum =
      source.length := by
  have htexts : (p.instructions.toList.map fun i => (Text.encode i.text).length).sum =
      (symbols source).length := by
    rw [← List.length_flatMap]
    simp only [encode_text]
    rw [flatMap_source, spelled_instructions h, List.length_map]
  rw [discarded_of_load h, htexts, Nat.add_comm]
  exact length_symbols_add_commentCount source

/-- **Comments are transparent.** Whatever comments are put into a text or taken out of it, at
whatever places, the text loads as before, folded or not: it fails with the same error at the same
position, or it gives the same instructions with the same jumps, and the number of bytes that were
skipped has changed by the number of bytes that were put in or taken out.

What was skipped and the texts of the instructions have together the length of the text, and these
texts are its bytes in order, without the comments. Unless the text is folded its instructions are
its symbols, one by one. -/
theorem comments_are_transparent (source : List UInt8) (fold : Bool) :
    (∀ source' added removed, CommentEdits source source' added removed →
      (∀ e, load source fold = .error e → load source' fold = .error e) ∧
      (∀ p, load source fold = .ok p → ∃ p', load source' fold = .ok p' ∧
        p'.instructions = p.instructions ∧ p'.jumps = p.jumps ∧
          p'.discarded + removed = p.discarded + added)) ∧
    (∀ p, load source fold = .ok p →
      p.discarded + (p.instructions.toList.map fun i => (Text.encode i.text).length).sum =
          source.length ∧
        p.instructions.toList.flatMap (fun i => Text.encode i.text) =
          source.filter (fun b => ¬ IsComment b) ∧
        (fold = false →
          p.instructions.toList = (source.filterMap Symbol.ofByte?).map Instruction.ofSymbol)) := by
  refine ⟨fun source' added removed hedits => ?_, fun p h => ?_⟩
  · have hload := load_of_symbols_eq hedits.symbols_eq fold
    have hcount := hedits.commentCount_eq
    constructor
    · intro e h
      rw [hload, h]
      rfl
    · intro p h
      refine ⟨{ p with discarded := commentCount source' }, ?_, rfl, rfl, ?_⟩
      · rw [hload, h]
        rfl
      · rw [discarded_of_load h]
        exact hcount
  · refine ⟨discarded_add_length h, flatMap_encode_text h, ?_⟩
    rintro rfl
    exact (load_spec h).2

/-- In the text `+ +[-]` the blank within the run is taken out, and a line feed and a byte that is
no character are put into the loop. -/
theorem comments_are_transparent_of_edited_run :
    ∃ p p', load [43, 32, 43, 91, 45, 93] true = .ok p ∧
      load [43, 43, 91, 10, 255, 45, 93] true = .ok p' ∧
      p'.instructions = p.instructions ∧ p'.jumps = p.jumps ∧
      p'.discarded + 1 = p.discarded + 2 ∧
      p.discarded + (p.instructions.toList.map fun i => (Text.encode i.text).length).sum = 6 := by
  have hremoved : CommentEdits [43, 32, 43, 91, 45, 93] [43, 43, 91, 45, 93] 0 1 :=
    @CommentEdits.remove _ [43] [43, 91, 45, 93] [32] 0 0
      (List.forall_mem_singleton.mpr (by decide)) .refl
  have hedits : CommentEdits [43, 32, 43, 91, 45, 93] [43, 43, 91, 10, 255, 45, 93] 2 1 :=
    @CommentEdits.insert _ [43, 43, 91] [45, 93] [10, 255] 0 1
      (List.forall_mem_cons.mpr ⟨by decide, List.forall_mem_singleton.mpr (by decide)⟩) hremoved
  obtain ⟨p, h⟩ := (exists_load_iff [43, 32, 43, 91, 45, 93] true).mpr (by decide)
  have htransparent := comments_are_transparent [43, 32, 43, 91, 45, 93] true
  obtain ⟨p', h', hinstructions, hjumps, hdiscarded⟩ := (htransparent.1 _ 2 1 hedits).2 p h
  exact ⟨p, p', h, h', hinstructions, hjumps, hdiscarded, (htransparent.2 p h).1⟩

end Program

end TapeMachine
