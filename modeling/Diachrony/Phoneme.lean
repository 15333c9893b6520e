import Diachrony.Text.Basic

/-!
Phonemes: the sounds of a language, with the ways they are written and the
classes they belong to.

A phoneme carries the tags it was given; the classes it is effectively in also
contain what those tags imply.
-/
namespace Diachrony

def vowelClass : Text := "vowel"

/-- The class that the capital C of a sound change stands for. -/
def consonantClass : Text := "consonant"

def impliedClasses : List (Text × List Text) := [
  ("plosive", ["obstruent", "consonant", "-continuant"]),
  ("stop", ["obstruent", "consonant", "-continuant"]),
  ("fricative", ["obstruent", "consonant", "+continuant"]),
  ("affricate", ["obstruent", "consonant"]),
  ("approximant", ["sonorant", "consonant"]),
  ("trill", ["sonorant", "consonant"]),
  ("lateral", ["sonorant", "consonant"]),
  ("nasal", ["sonorant", "consonant"]),
  ("dental", ["coronal"]),
  ("alveolar", ["coronal"]),
  ("vowel", ["vocalic"]),
  ("voiced", ["+voice"]),
  ("voiceless", ["-voice"]),
  ("long", ["+long"])]

/-- The given classes and all that they imply. One step is enough, since no
implied class implies a further one. -/
def withImplied (classes : List Text) : List Text :=
  classes ++ classes.flatMap fun name => (impliedClasses.lookup name).getD []

/-- A unit of a language's sound inventory. It has at least one spelling, the
primary one. -/
structure Phoneme where
  spelling : Text
  otherSpellings : List Text := []
  sound : Option Text := none
  tags : List Text := []
  historical : Bool := false

namespace Phoneme

/-- All spellings, the primary one first. -/
def graphemes (phoneme : Phoneme) : List Text :=
  phoneme.spelling :: phoneme.otherSpellings

/-- What a phoneme is listed under: its sound, or the primary spelling where
no sound is given. -/
def label (phoneme : Phoneme) : Text :=
  match phoneme.sound with
  | some (char :: sound) => char :: sound
  | _ => phoneme.spelling

def classes (phoneme : Phoneme) : List Text := withImplied phoneme.tags

def hasClass (phoneme : Phoneme) (name : Text) : Bool :=
  phoneme.classes.contains name

/-- The number of classes that exactly one of two phonemes is in. -/
def distance (left right : Phoneme) : Nat :=
  let onlyIn (these those : List Text) :=
    (these.eraseDups.filter fun name => !those.contains name).length
  onlyIn left.classes right.classes + onlyIn right.classes left.classes

def tagged (phoneme : Phoneme) (tags : List Text) : Bool :=
  phoneme.tags.all tags.contains && tags.all phoneme.tags.contains

end Phoneme

end Diachrony
