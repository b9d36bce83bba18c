import Mathlib.Tactic
import TapeMachine.Stream.Reader
import TapeMachine.Text.Utf8

/-!
# Lines of a text

A reader takes lines of bytes, while a text has lines of characters. Both are the same lines, since
the byte of a line feed occurs in the encoding of no other character.

## Main definitions

* `TapeMachine.Text.linesOf` — the lines of a text, of characters or of bytes.
* `TapeMachine.Reader.Delivers` — a reader delivers bytes and then the end of the input.

## Main results

* `TapeMachine.Text.flatten_linesOf` — the lines of a text make up the text.
* `TapeMachine.Text.linesOf_flatMap_encode` — the lines of an encoded text are the encoded lines.
* `TapeMachine.Text.decode?_encode` — an encoded text can be decoded.
* `TapeMachine.Reader.Delivers.exists_nextLine` — a reader takes the lines one after another.
-/

set_option autoImplicit false

namespace TapeMachine

namespace Text

/-! ## Encoded texts -/

/-- The bytes of a text are those of its characters. -/
lemma encode_ofList (cs : List Char) :
    encode (String.ofList cs) = cs.flatMap String.utf8EncodeChar := by
  simp [encode, List.utf8Encode]

/-- The bytes of two texts in a row are those of the one and those of the other. -/
lemma encode_append (s t : String) : encode (s ++ t) = encode s ++ encode t := by
  simp [encode]

/-- An encoded text can be decoded. -/
lemma decode?_encode (s : String) : decode? (encode s) = some s := by
  have hbytes : (⟨(encode s).toArray⟩ : ByteArray) = s.toByteArray := by
    simp [encode]
  rw [decode?, hbytes, String.fromUTF8?, dif_pos s.isValidUTF8]
  rfl

/-- Bytes that can be decoded are the encoding of their text. -/
lemma encode_of_decode? {bytes : List UInt8} {s : String} (h : decode? bytes = some s) :
    encode s = bytes := by
  rw [decode?, String.fromUTF8?, Option.dite_none_right_eq_some] at h
  obtain ⟨hvalid, h⟩ := h
  rw [← Option.some.inj h]
  rfl

/-- The byte of a line feed occurs in the encoding of no other character. -/
lemma lineFeed_notMem_utf8EncodeChar {c : Char} (hc : c ≠ '\n') :
    10 ∉ String.utf8EncodeChar c := by
  have hval : c.val.toNat ≠ 10 := fun h => hc (Char.ext (UInt32.toNat_inj.mp h))
  have hten : (10 : UInt8).toNat = 10 := rfl
  -- the bytes of a character that is not ASCII are at least 128
  fun_cases String.utf8EncodeChar c <;>
  · simp only [List.mem_cons, List.not_mem_nil, or_false, ← UInt8.toNat_inj, UInt8.toNat_ofNat',
      hten]
    omega

/-! ## Lines -/

section

variable {α : Type} [DecidableEq α]

/-- The lines of a text. Each of them ends with a newline, but the last one need not. -/
def linesOf (newline : α) : List α → List (List α)
  | [] => []
  | c :: rest =>
    if c = newline then
      [c] :: linesOf newline rest
    else
      (c :: (linesOf newline rest).headD []) :: (linesOf newline rest).tail

variable {newline : α}

/-- What stands in front of a text and holds no newline belongs to its first line. -/
lemma linesOf_append {front : List α} (h : newline ∉ front) (hne : front ≠ []) (rest : List α) :
    linesOf newline (front ++ rest) =
      (front ++ (linesOf newline rest).headD []) :: (linesOf newline rest).tail := by
  induction front with
  | nil => exact absurd rfl hne
  | cons c front ih =>
    obtain ⟨hc, hfront⟩ : newline ≠ c ∧ newline ∉ front := by simpa using h
    simp only [List.cons_append, linesOf, if_neg hc.symm]
    rcases eq_or_ne front [] with rfl | hfront'
    · rfl
    · simp only [ih hfront hfront', List.headD_cons, List.tail_cons]

/-- The lines of a text make up the text. -/
lemma flatten_linesOf (newline : α) (text : List α) : (linesOf newline text).flatten = text := by
  induction text with
  | nil => rfl
  | cons c rest ih =>
    unfold linesOf
    split
    · rw [List.flatten_cons, ih, List.singleton_append]
    · rw [List.flatten_cons, List.cons_append, List.cons.injEq]
      refine ⟨rfl, Eq.trans ?_ ih⟩
      cases linesOf newline rest <;> rfl

/-- No line is empty. -/
lemma ne_nil_of_mem_linesOf {text line : List α} (h : line ∈ linesOf newline text) : line ≠ [] := by
  induction text generalizing line with
  | nil => cases h
  | cons c rest ih =>
    unfold linesOf at h
    split at h
    · rcases List.mem_cons.mp h with rfl | h
      · exact List.cons_ne_nil _ _
      · exact ih h
    · rcases List.mem_cons.mp h with rfl | h
      · exact List.cons_ne_nil _ _
      · exact ih (List.mem_of_mem_tail h)

end

/-- **The lines of an encoded text are the encoded lines** of the text. -/
theorem linesOf_flatMap_encode (cs : List Char) :
    linesOf 10 (cs.flatMap String.utf8EncodeChar) =
      (linesOf '\n' cs).map fun line => line.flatMap String.utf8EncodeChar := by
  induction cs with
  | nil => rfl
  | cons c rest ih =>
    rw [List.flatMap_cons]
    by_cases hc : c = '\n'
    · subst hc
      have henc : String.utf8EncodeChar '\n' = [10] := by decide
      rw [henc]
      simp [linesOf, ih, henc]
    · rw [linesOf_append (lineFeed_notMem_utf8EncodeChar hc) String.utf8EncodeChar_ne_nil, ih]
      simp only [linesOf, if_neg hc, List.map_cons, List.flatMap_cons, List.map_tail]
      cases linesOf '\n' rest <;> rfl

end Text

/-! ## Readers that deliver bytes -/

namespace Reader

/-- A reader delivers bytes: its calls give these, apart from calls that are interrupted, and then
the end of the input. -/
structure Delivers (r : Reader) (bytes : List UInt8) : Prop where
  fault : r.fault? = none
  events : r.events.filter (· ≠ .interrupted) = bytes.map .byte

/-- The reader of some bytes delivers them. -/
lemma delivers_ofBytes (bytes : List UInt8) : (ofBytes bytes).Delivers bytes := by
  refine ⟨rfl, List.filter_eq_self.mpr ?_⟩
  intro event hmem
  obtain ⟨b, -, rfl⟩ := List.mem_map.mp hmem
  rfl

variable {r : Reader} {bytes : List UInt8}

/-- **A reader takes the lines one after another**: the first line of the bytes that it delivers,
which is empty at the end of the input, and then it delivers the other lines.

**Proof sketch.** Induction on the events, with the bytes of the line that were read already. -/
theorem Delivers.exists_nextLine (h : r.Delivers bytes) :
    ∃ r' bytes', r.nextLine = (.ok ((Text.linesOf 10 bytes).headD []), r') ∧
      r'.Delivers bytes' ∧ Text.linesOf 10 bytes' = (Text.linesOf 10 bytes).tail := by
  obtain ⟨hfault, hevents⟩ := h
  suffices hgo : ∀ (events : List ReadEvent) (line bytes : List UInt8),
      events.filter (· ≠ .interrupted) = bytes.map .byte →
        ∃ r' bytes', nextLine.go r line events =
            (.ok (line.reverse ++ (Text.linesOf 10 bytes).headD []), r') ∧
          r'.Delivers bytes' ∧ Text.linesOf 10 bytes' = (Text.linesOf 10 bytes).tail by
    simpa [nextLine] using hgo r.events [] bytes hevents
  intro events
  induction events with
  | nil =>
    intro line bytes hevents
    obtain rfl : bytes = [] := by simpa using hevents.symm
    simp only [nextLine.go, hfault]
    exact ⟨{ r with events := [] }, [], by simp [Text.linesOf, hfault], ⟨hfault, rfl⟩, rfl⟩
  | cons event events ih =>
    intro line bytes hevents
    cases event with
    | interrupted =>
      have hrest : events.filter (· ≠ .interrupted) = bytes.map .byte := by simpa using hevents
      exact ih line bytes hrest
    | eof | failed =>
      cases bytes <;> simp at hevents
    | byte b =>
      obtain ⟨bytes, rfl, hrest⟩ : ∃ rest, bytes = b :: rest ∧
          events.filter (· ≠ .interrupted) = rest.map .byte := by
        cases bytes with
        | nil => simp at hevents
        | cons b' rest =>
          obtain ⟨rfl, hrest⟩ : b = b' ∧ _ := by simpa using hevents
          exact ⟨rest, rfl, by simpa using hrest⟩
      by_cases hb : b = 10
      · subst hb
        refine ⟨{ r with events }, bytes, ?_, ⟨hfault, hrest⟩, ?_⟩
        · simp [nextLine.go, Text.linesOf]
        · simp [Text.linesOf]
      · obtain ⟨r', bytes', hgo, hdelivers, hlines⟩ := ih (b :: line) bytes hrest
        refine ⟨r', bytes', ?_, hdelivers, ?_⟩
        · simpa [nextLine.go, hb, Text.linesOf] using hgo
        · simpa [Text.linesOf, hb] using hlines

end Reader

end TapeMachine
