/-!
# Network addresses

Addresses of the two internet protocols and their texts.  An address of version 4 is four decimal octets without
leading zeros.  One of version 6 is eight hexadecimal groups; `::` stands for at least one zero group, and the last
two groups may be written as an address of version 4.  `Address.text` writes the first longest run of two or more zero
groups as `::`.
-/

namespace Marshal

inductive Address where
  | v4 (a b c d : UInt8)
  | v6 (groups : Vector UInt16 8)
deriving Repr, DecidableEq

instance : Inhabited Address := ⟨.v4 0 0 0 0⟩

namespace Address

/-! ### Reading -/

/-- The value of a digit in a radix of at most sixteen. -/
def digit? (radix : Nat) (c : Char) : Option Nat :=
  let n :=
    if c.isDigit then c.toNat - '0'.toNat
    else if 'a' ≤ c ∧ c ≤ 'f' then c.toNat - 'a'.toNat + 10
    else if 'A' ≤ c ∧ c ≤ 'F' then c.toNat - 'A'.toNat + 10
    else radix
  if n < radix then some n else none

/-- Reads a number of at most `width` digits off the front of a text. -/
def readNumber (radix width : Nat) (s : List Char) : Option (Nat × List Char) :=
  let digits := s.takeWhile fun c => (digit? radix c).isSome
  if digits.isEmpty || width < digits.length then none
  else some (digits.foldl (fun n c => radix * n + (digit? radix c).getD 0) 0, s.drop digits.length)

/-- Reads an octet: no leading zero, at most 255. -/
def readOctet (s : List Char) : Option (UInt8 × List Char) :=
  match s with
  | '0' :: c :: s => if c.isDigit then none else some (0, c :: s)
  | s => do
    let (n, s) ← readNumber 10 3 s
    if n < 256 then some (UInt8.ofNat n, s) else none

def readPoint : List Char → Option (List Char)
  | '.' :: s => some s
  | _ => none

def readV4 (s : List Char) : Option ((UInt8 × UInt8 × UInt8 × UInt8) × List Char) := do
  let (a, s) ← readOctet s
  let s ← readPoint s
  let (b, s) ← readOctet s
  let s ← readPoint s
  let (c, s) ← readOctet s
  let s ← readPoint s
  let (d, s) ← readOctet s
  some ((a, b, c, d), s)

def joinOctets (a b : UInt8) : UInt16 := a.toUInt16 * 256 + b.toUInt16

/-- Takes the separator before a group off the front; the first group has none. -/
def readColon (first : Bool) (s : List Char) : Option (List Char) :=
  if first then some s
  else match s with
    | ':' :: s => some s
    | _ => none

/-- Groups read off the front of a text: at most `room` of them, whether the last two were octets, and the rest. -/
def readGroups (first : Bool) : (room : Nat) → List Char → List UInt16 × Bool × List Char
  | 0, s => ([], false, s)
  | room + 1, s =>
    let octets := if room = 0 then none else (readColon first s).bind readV4
    match octets with
    | some ((a, b, c, d), s) => ([joinOctets a b, joinOctets c d], true, s)
    | none =>
      match (readColon first s).bind (readNumber 16 4) with
      | some (n, s) =>
        let (groups, octets, s) := readGroups false room s
        (UInt16.ofNat n :: groups, octets, s)
      | none => ([], false, s)

/-- The groups of `head`, zeros, and the groups of `tail`. -/
def spread (head tail : List UInt16) : Vector UInt16 8 :=
  Vector.ofFn fun i =>
    if i < 8 - tail.length then head.getD i 0 else tail.getD (i - (8 - tail.length)) 0

def readV6 (s : List Char) : Option (Vector UInt16 8 × List Char) :=
  let (head, octets, s) := readGroups true 8 s
  if head.length = 8 then some (spread head [], s)
  else if octets then none
  else match s with
    | ':' :: ':' :: s =>
      let (tail, _, s) := readGroups true (7 - head.length) s
      some (spread head tail, s)
    | _ => none

/-- The address a whole text denotes. -/
def ofText? (s : List Char) : Option Address :=
  match readV4 s with
  | some ((a, b, c, d), rest) => if rest.isEmpty then some (v4 a b c d) else none
  | none =>
    match readV6 s with
    | some (groups, rest) => if rest.isEmpty then some (v6 groups) else none
    | none => none

/-! ### Writing -/

def v4Text (a b c d : UInt8) : String :=
  ".".intercalate [toString a.toNat, toString b.toNat, toString c.toNat, toString d.toNat]

def groupText (g : UInt16) : String := String.ofList (Nat.toDigits 16 g.toNat)

def groupsText (groups : List UInt16) : String := ":".intercalate (groups.map groupText)

/-- The length of the run of zeros at the front. -/
def zeroRun (groups : List UInt16) : Nat := (groups.takeWhile (· = 0)).length

/-- The start and the length of the first longest run of zeros among the groups at or after `start`. -/
def longestZeroRun (start : Nat) : List UInt16 → Nat × Nat
  | [] => (start, 0)
  | g :: groups =>
    let here := zeroRun (g :: groups)
    let later := longestZeroRun (start + 1) groups
    if later.2 ≤ here then (start, here) else later

def v6Text (groups : List UInt16) : String :=
  match groups with
  | [0, 0, 0, 0, 0, 0xffff, g, h] =>
    "::ffff:" ++ v4Text (g / 256).toUInt8 g.toUInt8 (h / 256).toUInt8 h.toUInt8
  | groups =>
    let (start, length) := longestZeroRun 0 groups
    if 1 < length then groupsText (groups.take start) ++ "::" ++ groupsText (groups.drop (start + length))
    else groupsText groups

def text : Address → String
  | v4 a b c d => v4Text a b c d
  | v6 groups => v6Text groups.toList

end Address

end Marshal
