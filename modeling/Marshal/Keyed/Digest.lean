/-!
# Digests

A running digest of 64 bits that passes on what it is given.  A word replaces the digest.  Bytes are shifted in from
the last to the first, so eight bytes replace it by the word they spell in little-endian order.
-/

namespace Marshal

structure Digest where
  word : UInt64
deriving Repr, DecidableEq, Inhabited

namespace Digest

def empty : Digest := ⟨0⟩

def rotateByte (w : UInt64) : UInt64 := (w <<< 8) ||| (w >>> 56)

def addByte (d : Digest) (b : UInt8) : Digest := ⟨rotateByte d.word + b.toUInt64⟩

def addBytes (d : Digest) (bytes : List UInt8) : Digest := bytes.reverse.foldl addByte d

def setWord (_ : Digest) (w : UInt64) : Digest := ⟨w⟩

end Digest

end Marshal
