import Mathlib.Tactic
import Mathlib.Data.List.DropRight
import TapeMachine.Text.Blank
import TapeMachine.Proofs.Stream.Lines

/-!
# Texts without the blanks around them

## Main definitions

* `TapeMachine.Text.Bare` — a text that neither begins nor ends with a blank.
* `TapeMachine.Text.Reads` — the word on a line of bytes.

## Main results

* `TapeMachine.Text.exists_eq_strip` — a text is what is left of it, with blanks around it.
* `TapeMachine.Text.strip_surrounded` — blanks that are put around a text do not matter.
* `TapeMachine.Text.reads_iff` — the word on a line is what is left of its text.
-/

set_option autoImplicit false

namespace TapeMachine.Text

/-- A text is bare if it neither begins nor ends with a blank. -/
def Bare (text : String) : Prop :=
  (∀ c ∈ text.toList.head?, isBlank c = false) ∧ ∀ c ∈ text.toList.getLast?, isBlank c = false

lemma toList_strip (text : String) :
    (strip text).toList = (text.toList.dropWhile isBlank).rdropWhile isBlank := by
  rw [strip, String.toList_ofList, List.rdropWhile]

/-- What is left of a text is bare. -/
lemma bare_strip (text : String) : Bare (strip text) := by
  constructor
  · intro c hc
    rw [toList_strip] at hc
    -- the blanks are dropped at the end last, which leaves the first character
    obtain ⟨rest, hrest⟩ := List.rdropWhile_prefix isBlank (text.toList.dropWhile isBlank)
    have hfirst : (text.toList.dropWhile isBlank).head? = some c := by
      rw [← hrest, List.head?_append, Option.mem_def.mp hc, Option.some_or]
    have hnot := List.head?_dropWhile_not isBlank text.toList
    rw [hfirst] at hnot
    simpa using hnot
  · intro c hc
    rw [toList_strip] at hc
    obtain ⟨hne, rfl⟩ := List.mem_getLast?_eq_getLast hc
    simpa using List.rdropWhile_last_not isBlank _ hne

/-- **A text is what is left of it, with blanks around it.** -/
theorem exists_eq_strip (text : String) :
    ∃ front back : List Char, text.toList = front ++ (strip text).toList ++ back ∧
      (∀ c ∈ front, isBlank c = true) ∧ (∀ c ∈ back, isBlank c = true) ∧ Bare (strip text) := by
  refine ⟨text.toList.takeWhile isBlank, (text.toList.dropWhile isBlank).rtakeWhile isBlank, ?_,
    fun c => List.mem_takeWhile_imp, fun c => List.mem_rtakeWhile_imp, bare_strip text⟩
  rw [toList_strip, List.append_assoc, List.rdropWhile_append_rtakeWhile,
    List.takeWhile_append_dropWhile]

/-- **Blanks that are put around a text do not matter.** -/
theorem strip_surrounded {front back : List Char} (hfront : ∀ c ∈ front, isBlank c = true)
    (hback : ∀ c ∈ back, isBlank c = true) (cs : List Char) :
    strip (.ofList (front ++ cs ++ back)) = strip (.ofList cs) := by
  have hend : ∀ cs : List Char, (cs ++ back).rdropWhile isBlank = cs.rdropWhile isBlank := by
    intro cs
    rw [List.rdropWhile, List.reverse_append,
      List.dropWhile_append_of_pos (by simpa using hback), List.rdropWhile]
  apply String.toList_inj.mp
  rw [toList_strip, toList_strip, String.toList_ofList, String.toList_ofList, List.append_assoc,
    List.dropWhile_append_of_pos hfront, List.dropWhile_append]
  split
  · rename_i hblank
    rw [List.isEmpty_iff] at hblank
    rw [hblank, List.dropWhile_eq_nil_iff.mpr hback]
  · exact hend _

/-- Of a bare text everything is left. -/
lemma strip_of_bare {text : String} (h : Bare text) : strip text = text := by
  have hfront : text.toList.dropWhile isBlank = text.toList := by
    rw [List.dropWhile_eq_self_iff]
    intro hpos
    rw [h.1 _ (by rw [List.head?_eq_getElem?, List.getElem?_eq_getElem hpos]; rfl)]
    exact Bool.false_ne_true
  have hback : text.toList.rdropWhile isBlank = text.toList := by
    rw [List.rdropWhile_eq_self_iff]
    intro hne
    rw [h.2 _ (List.getLast?_eq_some_getLast hne)]
    exact Bool.false_ne_true
  apply String.toList_inj.mp
  rw [toList_strip, hfront, hback]

/-! ## Words on lines -/

/-- A line of bytes holds a word: it is the encoded word, with blanks around it. -/
def Reads (line : List UInt8) (word : String) : Prop :=
  Bare word ∧ ∃ front back : List Char, (∀ c ∈ front, isBlank c = true) ∧
    (∀ c ∈ back, isBlank c = true) ∧ line = encode (.ofList (front ++ word.toList ++ back))

variable {line : List UInt8} {word : String}

/-- **The word on a line** is what is left of the text of the line. -/
theorem reads_iff : Reads line word ↔ ∃ text, decode? line = some text ∧ strip text = word := by
  constructor
  · rintro ⟨hbare, front, back, hfront, hback, rfl⟩
    refine ⟨_, decode?_encode _, ?_⟩
    rw [strip_surrounded hfront hback, String.ofList_toList, strip_of_bare hbare]
  · rintro ⟨text, hline, rfl⟩
    obtain ⟨front, back, htext, hfront, hback, hbare⟩ := exists_eq_strip text
    refine ⟨hbare, front, back, hfront, hback, ?_⟩
    rw [← htext, String.ofList_toList, encode_of_decode? hline]

/-- There is at most one word on a line. -/
lemma Reads.unique {word' : String} (h : Reads line word) (h' : Reads line word') :
    word = word' := by
  obtain ⟨text, htext, rfl⟩ := reads_iff.mp h
  obtain ⟨text', htext', rfl⟩ := reads_iff.mp h'
  rw [htext, Option.some.injEq] at htext'
  rw [htext']

/-- There is a word on a line just if the line is encoded text. -/
lemma exists_reads_iff : (∃ word, Reads line word) ↔ ∃ text, line = encode text := by
  constructor
  · rintro ⟨word, -, front, back, -, -, hline⟩
    exact ⟨_, hline⟩
  · rintro ⟨text, rfl⟩
    exact ⟨strip text, reads_iff.mpr ⟨text, decode?_encode text, rfl⟩⟩

end TapeMachine.Text
