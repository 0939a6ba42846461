import Resolution.Fault

/-!
# Interned names

Texts are interned into sixteen shards chosen by a hash of their first bytes.  A shard lists its
texts and has a map from texts back to positions.  A name records the shard and the position of its
text there, packed into one 32-bit word.
-/

namespace Resolution

/-- Shard and position of an interned text. -/
structure Name where
  shard : Nat
  position : Nat
  deriving DecidableEq, Repr

namespace Name

def shardCount : Nat := 16

/-- Largest position in a shard. -/
def maxPosition : Nat := 0x0FFFFFFF

def empty : Name := ⟨0, 0⟩

/-- Name with the given parts, if they fit their bits. -/
def ofParts? (shard position : Nat) : Option Name :=
  if shard < shardCount ∧ position ≤ maxPosition then some ⟨shard, position⟩ else none

/-- The word that packs both parts: the shard in the upper four bits. -/
def raw (name : Name) : Nat := name.shard * (maxPosition + 1) + name.position

/-- Names are ordered by their packed words. -/
def compare (first second : Name) : Ordering := Ord.compare first.raw second.raw

/-- Text that shows both parts. -/
def text (name : Name) : String := s!"Name({name.shard}:{name.position})"

end Name

/-- Texts that share a shard. -/
structure Shard where
  /-- Position of every text. -/
  places : List (String × Nat) := []
  /-- Texts in order of arrival. -/
  texts : List String := []
  deriving Repr, Inhabited

/-- Add a text at the end. -/
def Shard.push (shard : Shard) (text : String) : Shard :=
  { places := (text, shard.texts.length) :: shard.places, texts := shard.texts ++ [text] }

/-- Texts seen so far, shard by shard. -/
structure Interner where
  shards : List Shard
  deriving Repr, Inhabited

namespace Interner

/-- The interner that knows the empty text only. -/
def new : Interner := ⟨Shard.push {} "" :: List.replicate (Name.shardCount - 1) {}⟩

/-- One step of the hash over the bytes of a text. -/
def hashStep (hash : UInt32) (byte : UInt8) : UInt32 := hash * 31 + byte.toUInt32

/-- Shard of a text, from its first eight bytes. -/
def shardOf (text : String) : Nat :=
  ((text.toByteArray.data.toList.take 8).foldl hashStep 0).toNat % Name.shardCount

def shardAt (interner : Interner) (number : Nat) : Shard := interner.shards.getD number {}

/-- Texts of a shard. -/
def shard (interner : Interner) (number : Nat) : List String := (interner.shardAt number).texts

/-- Position of a text in its shard. -/
def placeOf? (interner : Interner) (text : String) : Option Nat :=
  (interner.shardAt (shardOf text)).places.lookup text

/-- Name of a text, after adding the text where it is new. -/
def intern (interner : Interner) (text : String) : Name × Interner :=
  let number := shardOf text
  match interner.placeOf? text with
  | some position => (⟨number, position⟩, interner)
  | none =>
    let known := interner.shardAt number
    (⟨number, known.texts.length⟩, ⟨interner.shards.set number (known.push text)⟩)

/-- Intern a text, unless it is new and its shard is full. -/
def tryIntern (interner : Interner) (text : String) : Except Fault (Name × Interner) :=
  let number := shardOf text
  if (interner.placeOf? text).isNone ∧ Name.maxPosition < (interner.shard number).length then
    .error (.fullShard number)
  else
    .ok (interner.intern text)

def note (interner : Interner) (text : String) : Interner := (interner.intern text).2

def lookup? (interner : Interner) (name : Name) : Option String :=
  (interner.shard name.shard)[name.position]?

def texts (interner : Interner) : List String := interner.shards.flatMap Shard.texts

/-- Number of texts, the empty one included. -/
def size (interner : Interner) : Nat := interner.texts.length

/-- Whether no text but the empty one was seen. -/
def isEmpty (interner : Interner) : Bool := interner.size ≤ 1

theorem shardOf_lt (text : String) : shardOf text < Name.shardCount :=
  Nat.mod_lt _ (by decide)

end Interner

end Resolution
