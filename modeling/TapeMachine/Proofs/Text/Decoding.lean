import Mathlib.Tactic
import TapeMachine.Proofs.Stream.Lines

/-!
# Reading encoded texts

Bytes that need not be well-formed are read with a replacement character for each part that is not.
An encoded text is well-formed, so it is read as it was.

## Main results

* `TapeMachine.Text.charsLossy_utf8EncodeChar` — the encoding of a character is read as this
  character, whatever follows it.
* `TapeMachine.Text.decodeLossy_encode` — an encoded text is read as it was.
-/

set_option autoImplicit false

namespace TapeMachine.Text

/-! ## Numbers as bytes -/

lemma ofNat_lt_iff {n : Nat} {b : UInt8} (hn : n < 256) : UInt8.ofNat n < b ↔ n < b.toNat := by
  rw [UInt8.lt_iff_toNat_lt, UInt8.toNat_ofNat', Nat.mod_eq_of_lt hn]

lemma ofNat_eq_iff {n : Nat} {b : UInt8} (hn : n < 256) : UInt8.ofNat n = b ↔ n = b.toNat := by
  rw [← UInt8.toNat_inj, UInt8.toNat_ofNat', Nat.mod_eq_of_lt hn]

/-- What has to follow a first byte, by its number. -/
lemma followers?_ofNat {n : Nat} (hn : n < 256) :
    followers? (UInt8.ofNat n) =
      if n < 0x80 then some []
      else if n < 0xC2 then none
      else if n < 0xE0 then some [continuation]
      else if n = 0xE0 then some [(0xA0, 0xBF), continuation]
      else if n = 0xED then some [(0x80, 0x9F), continuation]
      else if n < 0xF0 then some [continuation, continuation]
      else if n = 0xF0 then some [(0x90, 0xBF), continuation, continuation]
      else if n < 0xF4 then some [continuation, continuation, continuation]
      else if n = 0xF4 then some [(0x80, 0x8F), continuation, continuation]
      else none := by
  simp only [followers?, ofNat_lt_iff hn, ofNat_eq_iff hn]
  rfl

/-- A byte in its range is one that matches. -/
lemma matching_ofNat {low high n : Nat} (hlow : low ≤ n) (hhigh : n ≤ high) (h : high < 256)
    (ranges : List (UInt8 × UInt8)) (rest : List UInt8) :
    matching ((UInt8.ofNat low, UInt8.ofNat high) :: ranges) (UInt8.ofNat n :: rest) =
      matching ranges rest + 1 := by
  rw [matching, if_pos]
  simp only [UInt8.le_iff_toNat_le, UInt8.toNat_ofNat']
  omega

/-- The last six bits of a number, as a byte that continues a character. -/
lemma matching_continuation (n : Nat) (ranges : List (UInt8 × UInt8)) (rest : List UInt8) :
    matching (continuation :: ranges) (UInt8.ofNat (n % 64 + 128) :: rest) =
      matching ranges rest + 1 :=
  @matching_ofNat 0x80 0xBF (n % 64 + 128) (by omega) (by omega) (by omega) ranges rest

/-! ## Characters -/

/-- A first byte and the bytes that complete it are read as one character. -/
lemma charsLossy_append {lead : UInt8} {tail : List UInt8} {ranges : List (UInt8 × UInt8)}
    (hfollowers : followers? lead = some ranges) (hlength : tail.length = ranges.length)
    (hmatching : ∀ rest, matching ranges (tail ++ rest) = ranges.length) (rest : List UInt8) :
    charsLossy (lead :: tail ++ rest) = scalar lead tail :: charsLossy rest := by
  rw [List.cons_append, charsLossy]
  simp only [hfollowers, hmatching, if_true]
  rw [← hlength, List.take_left, List.drop_left]

/-- In the encoding of a character with three bytes the second byte is in its range: the character
is neither so small that two bytes would do, nor a surrogate. -/
lemma exists_followers?_of_three {v : Nat} (hlow : 0x800 ≤ v) (hhigh : v < 0x10000)
    (hvalid : v < 0xD800 ∨ 0xDFFF < v) :
    ∃ low high, low ≤ v / 64 % 64 + 128 ∧ v / 64 % 64 + 128 ≤ high ∧ high < 256 ∧
      followers? (UInt8.ofNat (v / 4096 % 16 + 224)) =
        some [(UInt8.ofNat low, UInt8.ofNat high), continuation] := by
  rw [followers?_ofNat (by omega), if_neg (by omega), if_neg (by omega), if_neg (by omega)]
  by_cases hfirst : v / 4096 % 16 + 224 = 0xE0
  · exact ⟨0xA0, 0xBF, by omega, by omega, by omega, if_pos hfirst⟩
  · rw [if_neg hfirst]
    by_cases hsurrogate : v / 4096 % 16 + 224 = 0xED
    · exact ⟨0x80, 0x9F, by omega, by omega, by omega, if_pos hsurrogate⟩
    · rw [if_neg hsurrogate, if_pos (by omega)]
      exact ⟨0x80, 0xBF, by omega, by omega, by omega, rfl⟩

/-- In the encoding of a character with four bytes the second byte is in its range: the character
is neither so small that three bytes would do, nor too large. -/
lemma exists_followers?_of_four {v : Nat} (hlow : 0x10000 ≤ v) (hhigh : v < 0x110000) :
    ∃ low high, low ≤ v / 4096 % 64 + 128 ∧ v / 4096 % 64 + 128 ≤ high ∧ high < 256 ∧
      followers? (UInt8.ofNat (v / 262144 % 8 + 240)) =
        some [(UInt8.ofNat low, UInt8.ofNat high), continuation, continuation] := by
  rw [followers?_ofNat (by omega), if_neg (by omega), if_neg (by omega), if_neg (by omega),
    if_neg (by omega), if_neg (by omega), if_neg (by omega)]
  by_cases hfirst : v / 262144 % 8 + 240 = 0xF0
  · exact ⟨0x90, 0xBF, by omega, by omega, by omega, if_pos hfirst⟩
  · rw [if_neg hfirst]
    by_cases hlast : v / 262144 % 8 + 240 = 0xF4
    · rw [if_neg (by omega), if_pos hlast]
      exact ⟨0x80, 0x8F, by omega, by omega, by omega, rfl⟩
    · rw [if_pos (by omega)]
      exact ⟨0x80, 0xBF, by omega, by omega, by omega, rfl⟩

/-- **The encoding of a character is read as this character**, whatever follows it. -/
theorem charsLossy_utf8EncodeChar (c : Char) (rest : List UInt8) :
    charsLossy (String.utf8EncodeChar c ++ rest) = c :: charsLossy rest := by
  have hvalid : c.val.toNat < 0xD800 ∨ 0xDFFF < c.val.toNat ∧ c.val.toNat < 0x110000 := c.valid
  have hc : Char.ofNat c.val.toNat = c := Char.ofNat_toNat c
  -- the bytes put together give the number of the character again
  have hread : ∀ {lead : UInt8} {tail : List UInt8} {ranges : List (UInt8 × UInt8)},
      followers? lead = some ranges → tail.length = ranges.length →
      (∀ rest, matching ranges (tail ++ rest) = ranges.length) →
      scalar lead tail = Char.ofNat c.val.toNat →
      charsLossy (lead :: tail ++ rest) = c :: charsLossy rest := by
    intro lead tail ranges hfollowers hlength hmatching hscalar
    rw [charsLossy_append hfollowers hlength hmatching, hscalar, hc]
  unfold String.utf8EncodeChar
  generalize c.val.toNat = v at hvalid hread
  dsimp only
  split_ifs with hone htwo hthree
  · have hf : followers? (UInt8.ofNat v) = some [] := by
      rw [followers?_ofNat (by omega), if_pos (by omega)]
    refine hread hf rfl (fun _ => rfl) (congrArg Char.ofNat ?_)
    simp only [List.length_nil, List.foldl_nil, UInt8.toNat_ofNat']
    omega
  · have hf : followers? (UInt8.ofNat (v / 64 % 32 + 192)) = some [continuation] := by
      rw [followers?_ofNat (by omega), if_neg (by omega), if_neg (by omega), if_pos (by omega)]
    refine hread hf rfl (fun _ => matching_continuation _ _ _) (congrArg Char.ofNat ?_)
    simp only [List.length_singleton, List.foldl_cons, List.foldl_nil, UInt8.toNat_ofNat']
    omega
  · obtain ⟨low, high, hlow, hhigh, hbyte, hf⟩ :=
      exists_followers?_of_three (v := v) (by omega) (by omega) (by omega)
    refine hread hf rfl (fun rest => ?_) (congrArg Char.ofNat ?_)
    · exact (matching_ofNat hlow hhigh hbyte _ _).trans
        (congrArg (· + 1) (matching_continuation _ _ _))
    · simp only [List.length_cons, List.length_nil, List.foldl_cons, List.foldl_nil,
        UInt8.toNat_ofNat']
      omega
  · obtain ⟨low, high, hlow, hhigh, hbyte, hf⟩ :=
      exists_followers?_of_four (v := v) (by omega) (by omega)
    refine hread hf rfl (fun rest => ?_) (congrArg Char.ofNat ?_)
    · exact (matching_ofNat hlow hhigh hbyte _ _).trans (congrArg (· + 1)
        ((matching_continuation _ _ _).trans (congrArg (· + 1) (matching_continuation _ _ _))))
    · simp only [List.length_cons, List.length_nil, List.foldl_cons, List.foldl_nil,
        UInt8.toNat_ofNat']
      omega

/-- **An encoded text is read as it was.** -/
theorem decodeLossy_encode (text : String) : decodeLossy (encode text) = text := by
  have hchars : ∀ cs : List Char, charsLossy (cs.flatMap String.utf8EncodeChar) = cs := by
    intro cs
    induction cs with
    | nil => rw [List.flatMap_nil, charsLossy]
    | cons c rest ih => rw [List.flatMap_cons, charsLossy_utf8EncodeChar, ih]
  have hencode := encode_ofList text.toList
  rw [String.ofList_toList] at hencode
  rw [decodeLossy, hencode, hchars, String.ofList_toList]

end TapeMachine.Text
