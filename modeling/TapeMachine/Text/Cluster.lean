import TapeMachine.Text.ClusterTable
import TapeMachine.Text.Ranges

/-!
# Grapheme clusters

A reader takes some sequences of characters for one: a letter with its accents, a syllable, a
pictograph put together from several. Such a sequence is a grapheme cluster, and taking back the
last character of a line takes back all of it.

The division is the one of extended grapheme clusters in Unicode.

## Main definitions

* `TapeMachine.Text.ClusterClass` — what matters of a character for the division.
* `TapeMachine.Text.joins` — whether a character belongs to the cluster in front of it.
* `TapeMachine.Text.clusters` — the clusters of a text.

## Main results

* `TapeMachine.Text.flatten_clusters` — the clusters of a text make up the text.
-/

set_option autoImplicit false

namespace TapeMachine.Text

/-- What matters of a character for the division into clusters. -/
inductive ClusterClass
  /-- A carriage return. -/
  | carriageReturn
  /-- A line feed. -/
  | lineFeed
  /-- Another control character. -/
  | control
  /-- A sign that extends the character in front of it. -/
  | extending
  /-- The sign that links consonants to a conjunct. It extends the character in front of it. -/
  | linker
  /-- The sign that keeps characters apart. It extends the character in front of it. -/
  | nonJoiner
  /-- The sign that joins characters. It extends the character in front of it. -/
  | joiner
  /-- A sign with a width of its own behind a character. -/
  | spacing
  /-- A sign in front of a character. -/
  | preposed
  /-- One of the letters that name a region in pairs. -/
  | regional
  /-- A leading consonant of a Hangul syllable. -/
  | leading
  /-- A vowel of a Hangul syllable. -/
  | vowel
  /-- A trailing consonant of a Hangul syllable. -/
  | trailing
  /-- A Hangul syllable without a trailing consonant. -/
  | openSyllable
  /-- A Hangul syllable with a trailing consonant. -/
  | closedSyllable
  /-- A consonant that conjuncts are made of. -/
  | consonant
  /-- A pictograph. -/
  | pictograph
  /-- Any other character. -/
  | other
deriving DecidableEq, Repr

namespace ClusterClass

/-- The class of a character. -/
def of (c : Char) : ClusterClass :=
  if c = '\r' then carriageReturn
  else if c = '\n' then lineFeed
  else if within 0x20 0x7E c then other
  else if inRanges controlRanges c then control
  else if c.toNat ∈ [0x094D, 0x09CD, 0x0ACD, 0x0B4D, 0x0C4D, 0x0D4D] then linker
  else if c.toNat = 0x200C then nonJoiner
  else if c.toNat = 0x200D then joiner
  else if within 0x1100 0x115F c || within 0xA960 0xA97C c then leading
  else if within 0x1160 0x11A7 c || within 0xD7B0 0xD7C6 c then vowel
  else if within 0x11A8 0x11FF c || within 0xD7CB 0xD7FB c then trailing
  else if within 0xAC00 0xD7A3 c then
    if (c.toNat - 0xAC00) % 28 = 0 then openSyllable else closedSyllable
  else if within 0x1F1E6 0x1F1FF c then regional
  else if inRanges preposedRanges c then preposed
  else if inRanges consonantRanges c then consonant
  else if inRanges spacingRanges c then spacing
  else if inRanges extendingRanges c then extending
  else if inRanges pictographRanges c then pictograph
  else other

/-- Whether a character always begins a cluster and ends it. -/
def isControl : ClusterClass → Bool
  | carriageReturn => true
  | lineFeed => true
  | control => true
  | _ => false

/-- Whether a character extends the one in front of it, the joiner excepted. -/
def extendsLast : ClusterClass → Bool
  | extending => true
  | linker => true
  | nonJoiner => true
  | _ => false

/-- Whether a character can stand between the consonants of a conjunct. -/
def links : ClusterClass → Bool
  | extending => true
  | linker => true
  | joiner => true
  | _ => false

/-- Whether two neighbours belong to one Hangul syllable. -/
def isSyllable : ClusterClass → ClusterClass → Bool
  | leading, leading => true
  | leading, vowel => true
  | leading, openSyllable => true
  | leading, closedSyllable => true
  | openSyllable, vowel => true
  | openSyllable, trailing => true
  | vowel, vowel => true
  | vowel, trailing => true
  | closedSyllable, trailing => true
  | trailing, trailing => true
  | _, _ => false

end ClusterClass

open ClusterClass

/-- Whether a cluster, its last character first, ends with a consonant and a linker. -/
def awaitsConsonant (cluster : List ClusterClass) : Bool :=
  (cluster.takeWhile links).contains linker && (cluster.dropWhile links).head? = some consonant

/-- Whether a cluster, its last character first, ends with a pictograph and a joiner. -/
def awaitsPictograph : List ClusterClass → Bool
  | joiner :: rest => (rest.dropWhile ClusterClass.extendsLast).head? = some pictograph
  | _ => false

/-- Whether a cluster, its last character first, ends with one half of a pair of regional
letters. -/
def awaitsRegional (cluster : List ClusterClass) : Bool :=
  (cluster.takeWhile (· = regional)).length % 2 = 1

/-- Whether a character belongs to the cluster in front of it. That cluster is given with its last
character first. -/
def joins (cluster : List ClusterClass) (c : ClusterClass) : Bool :=
  match cluster with
  | [] => true
  | last :: _ =>
    if last.isControl || c.isControl then last = carriageReturn && c = lineFeed
    else
      c.extendsLast || c = joiner || c = spacing || last = preposed || isSyllable last c ||
        (awaitsConsonant cluster && c = consonant) ||
        (awaitsPictograph cluster && c = pictograph) ||
        (awaitsRegional cluster && c = regional)

/-- The clusters of a text behind the beginning of a cluster, the last character of which comes
first. -/
def clustersFrom (begun : List (Char × ClusterClass)) : List Char → List (List Char)
  | [] => if begun.isEmpty then [] else [(begun.map Prod.fst).reverse]
  | c :: rest =>
    let kind := ClusterClass.of c
    if joins (begun.map Prod.snd) kind then clustersFrom ((c, kind) :: begun) rest
    else (begun.map Prod.fst).reverse :: clustersFrom [(c, kind)] rest

/-- The clusters of a text. -/
def clusters (text : List Char) : List (List Char) := clustersFrom [] text

theorem flatten_clustersFrom (begun : List (Char × ClusterClass)) (text : List Char) :
    (clustersFrom begun text).flatten = (begun.map Prod.fst).reverse ++ text := by
  induction text generalizing begun with
  | nil => cases begun <;> simp [clustersFrom]
  | cons c rest ih =>
    unfold clustersFrom
    dsimp only
    split
    · simp [ih]
    · simp [ih]

/-- The clusters of a text make up the text. -/
theorem flatten_clusters (text : List Char) : (clusters text).flatten = text := by
  simp [clusters, flatten_clustersFrom]

end TapeMachine.Text
