import Mathlib.Tactic
import TapeMachine.Stream.Reader

/-!
# Lines and bytes taken from one stream

Two parties can take from one stream in turns, one of them whole lines and the other single bytes.
What they have taken is then a prefix of the stream, and nothing in it is lost, taken twice or
looked at before its turn.

## Main definitions

* `TapeMachine.IsLine` — a line at the front of a stream.
* `TapeMachine.Taken` — a line or a byte that has been taken.
* `TapeMachine.TakenFrom` — lines and bytes that have been taken from a stream, one after another.

## Main results

* `TapeMachine.TakenFrom.eq_append` — what has been taken is a prefix of the stream.
* `TapeMachine.Reader.nextLine_ofBytes` — a reader takes exactly a line.
-/

set_option autoImplicit false

namespace TapeMachine

/-! ## What can be taken -/

/-- A line at the front of a stream, in front of the rest: it ends with its only line feed, or with
the stream. It is empty at the end of the stream only. -/
def IsLine (line rest : List UInt8) : Prop :=
  (∃ front, 10 ∉ front ∧ line = front ++ [10]) ∨ 10 ∉ line ∧ rest = []

/-- What one read takes from a stream. -/
inductive Taken
  /-- A line, which is empty at the end of the stream. -/
  | line (bytes : List UInt8)
  /-- A byte; there is none at the end of the stream. -/
  | byte (b? : Option UInt8)
deriving DecidableEq, Repr

namespace Taken

/-- The bytes that a read takes as a line. -/
def lineBytes : Taken → List UInt8
  | line bytes => bytes
  | byte _ => []

/-- The byte that a read takes as such. -/
def inputBytes : Taken → List UInt8
  | line _ => []
  | byte b? => b?.toList

/-- The bytes that a read takes. -/
def bytes (t : Taken) : List UInt8 := t.lineBytes ++ t.inputBytes

/-- Reads that take no bytes take none as lines and none as such. -/
lemma flatMap_eq_nil {taken : List Taken} (h : taken.flatMap bytes = []) :
    taken.flatMap lineBytes = [] ∧ taken.flatMap inputBytes = [] := by
  rw [List.flatMap_eq_nil_iff] at h
  constructor <;> refine List.flatMap_eq_nil_iff.mpr fun t ht => ?_
  · exact (List.append_eq_nil_iff.mp (h t ht)).1
  · exact (List.append_eq_nil_iff.mp (h t ht)).2

end Taken

/-- Lines and bytes are taken from a stream, one after another, and leave a rest of it. -/
inductive TakenFrom : List UInt8 → List Taken → List UInt8 → Prop
  /-- Nothing is taken. -/
  | nil (stream : List UInt8) : TakenFrom stream [] stream
  /-- A line is taken first. -/
  | line {line stream rest : List UInt8} {taken : List Taken} (h : IsLine line stream)
    (more : TakenFrom stream taken rest) : TakenFrom (line ++ stream) (.line line :: taken) rest
  /-- A byte is taken first. -/
  | byte {b : UInt8} {stream rest : List UInt8} {taken : List Taken}
    (more : TakenFrom stream taken rest) : TakenFrom (b :: stream) (.byte (some b) :: taken) rest
  /-- A byte is asked for at the end of the stream. -/
  | eof {rest : List UInt8} {taken : List Taken} (more : TakenFrom [] taken rest) :
    TakenFrom [] (.byte none :: taken) rest

namespace TakenFrom

variable {stream rest rest' : List UInt8} {taken more : List Taken}

/-- **What has been taken is a prefix of the stream**, in the order of the reads. -/
theorem eq_append (h : TakenFrom stream taken rest) :
    stream = taken.flatMap Taken.bytes ++ rest := by
  induction h with
  | nil => rfl
  | line _ _ ih | byte _ ih | eof _ ih =>
    simp [Taken.bytes, Taken.lineBytes, Taken.inputBytes, ← ih]

/-- What is taken later is taken from the rest. -/
lemma append (h : TakenFrom stream taken rest) (h' : TakenFrom rest more rest') :
    TakenFrom stream (taken ++ more) rest' := by
  induction h with
  | nil => exact h'
  | line hline _ ih => exact .line hline (ih h')
  | byte _ ih => exact .byte (ih h')
  | eof _ ih => exact .eof (ih h')

/-- What is left after some reads is what later reads take, and what these leave. -/
lemma rest_eq (h : TakenFrom stream taken rest) (h' : TakenFrom stream (taken ++ more) rest') :
    rest = more.flatMap Taken.bytes ++ rest' := by
  have heq := h.eq_append.symm.trans h'.eq_append
  rw [List.flatMap_append, List.append_assoc] at heq
  exact List.append_cancel_left heq

/-- At the end of the stream nothing is left to take. -/
lemma of_nil (h : TakenFrom [] taken rest) :
    rest = [] ∧ taken.flatMap Taken.lineBytes = [] ∧ taken.flatMap Taken.inputBytes = [] := by
  obtain ⟨hnil, hrest⟩ := List.append_eq_nil_iff.mp h.eq_append.symm
  exact ⟨hrest, Taken.flatMap_eq_nil hnil⟩

end TakenFrom

/-! ## Lines -/

namespace IsLine

variable {line rest : List UInt8}

/-- A line is one in front of any other rest too, provided that it ends with the stream only where
there is none. -/
lemma of_rest (h : IsLine line rest) {rest' : List UInt8} (hrest : rest = [] → rest' = []) :
    IsLine line rest' :=
  h.imp_right fun ⟨hnot, hnil⟩ => ⟨hnot, hrest hnil⟩

/-- Every stream has a line at its front. -/
lemma exists_append (stream : List UInt8) :
    ∃ line rest, stream = line ++ rest ∧ IsLine line rest := by
  induction stream with
  | nil => exact ⟨[], [], rfl, Or.inr ⟨List.not_mem_nil, rfl⟩⟩
  | cons b stream ih =>
    by_cases hb : b = 10
    · exact ⟨[b], stream, rfl, Or.inl ⟨[], List.not_mem_nil, by rw [hb]; rfl⟩⟩
    · obtain ⟨line, rest, rfl, ⟨front, hfront, rfl⟩ | ⟨hline, rfl⟩⟩ := ih
      · exact ⟨b :: front ++ [10], rest, rfl,
          Or.inl ⟨b :: front, by simp [hfront, Ne.symm hb], rfl⟩⟩
      · exact ⟨b :: line, [], rfl, Or.inr ⟨by simp [hline, Ne.symm hb], rfl⟩⟩

end IsLine

/-! ## Readers -/

namespace Reader

/-- A reader takes the first byte of those that it gives, if there is one. -/
lemma next_ofBytes (bytes : List UInt8) :
    (ofBytes bytes).next = (bytes.head?.elim .eof .byte, ofBytes bytes.tail) := by
  cases bytes <;> rfl

/-- Bytes that hold no line feed are part of the line that is being read. -/
lemma nextLine_go_append (r : Reader) {front : List UInt8} (h : 10 ∉ front) (line : List UInt8)
    (events : List ReadEvent) :
    nextLine.go r line (front.map .byte ++ events) =
      nextLine.go r (front.reverse ++ line) events := by
  induction front generalizing line with
  | nil => rfl
  | cons b front ih =>
    obtain ⟨hb, hfront⟩ : 10 ≠ b ∧ 10 ∉ front := by simpa using h
    rw [List.map_cons, List.cons_append, nextLine.go, if_neg hb.symm, ih hfront]
    simp

/-- **A reader takes exactly a line** from the bytes that it gives, and then gives the rest. -/
theorem nextLine_ofBytes {line rest : List UInt8} (h : IsLine line rest) :
    (ofBytes (line ++ rest)).nextLine = (.ok line, ofBytes rest) := by
  rcases h with ⟨front, hfront, rfl⟩ | ⟨hline, rfl⟩
  · have hevents : (ofBytes (front ++ [10] ++ rest)).events =
        front.map .byte ++ .byte 10 :: rest.map .byte := by
      simp [ofBytes]
    rw [nextLine, hevents, nextLine_go_append _ hfront]
    simp [nextLine.go, ofBytes]
  · have hevents : (ofBytes (line ++ [])).events = line.map .byte ++ [] := by
      simp [ofBytes]
    rw [nextLine, hevents, nextLine_go_append _ hline]
    simp [nextLine.go, ofBytes]

/-- Readers that give the same give the same bytes. -/
lemma ofBytes_injective {bytes bytes' : List UInt8} (h : ofBytes bytes = ofBytes bytes') :
    bytes = bytes' :=
  List.map_injective_iff.mpr (fun _ _ => ReadEvent.byte.inj) (congrArg events h)

end Reader

/-- There is one line at the front of a stream. -/
lemma IsLine.unique {line line' rest rest' : List UInt8} (h : IsLine line rest)
    (h' : IsLine line' rest') (heq : line ++ rest = line' ++ rest') :
    line = line' ∧ rest = rest' := by
  have hnext := Reader.nextLine_ofBytes h
  rw [heq, Reader.nextLine_ofBytes h'] at hnext
  obtain rfl : line' = line := Except.ok.inj (congrArg Prod.fst hnext)
  exact ⟨rfl, List.append_cancel_left heq⟩

end TapeMachine
