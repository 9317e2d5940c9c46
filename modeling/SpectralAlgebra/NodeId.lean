/-!
# Node identities

A node is known by 128 bits. Labels carry them as 32 lower-case hexadecimal digits, stored records
carry them grouped by hyphens, and reading accepts the common written forms in any letter case.

Fresh identities are the multiples of an odd number modulo `2 ^ 128`: no two of the first `2 ^ 128`
agree, and neighbours look nothing alike.
-/

namespace SpectralAlgebra

structure NodeId where
  bits : BitVec 128
  deriving DecidableEq, Inhabited

namespace NodeId

def stride : BitVec 128 := 0x9e3779b97f4a7c15f39cc0605cedc835

def fresh (n : Nat) : NodeId := ⟨stride * BitVec.ofNat 128 (n + 1)⟩

/-- The `count` lowest hexadecimal digits of a number, the highest first. -/
def hexDigits : Nat → Nat → List Char
  | 0, _ => []
  | count + 1, n => hexDigits count (n / 16) ++ [Nat.digitChar (n % 16)]

def hex (id : NodeId) : String := String.ofList (hexDigits 32 id.bits.toNat)

def hyphenate (digits : List Char) : List Char :=
  digits.take 8 ++ '-' :: (digits.drop 8).take 4 ++ '-' :: (digits.drop 12).take 4
    ++ '-' :: (digits.drop 16).take 4 ++ '-' :: digits.drop 20

def hyphenated (id : NodeId) : String :=
  String.ofList (hyphenate (hexDigits 32 id.bits.toNat))

def hexValue? (c : Char) : Option Nat :=
  if '0' ≤ c ∧ c ≤ '9' then some (c.toNat - '0'.toNat)
  else if 'a' ≤ c ∧ c ≤ 'f' then some (c.toNat - 'a'.toNat + 10)
  else if 'A' ≤ c ∧ c ≤ 'F' then some (c.toNat - 'A'.toNat + 10)
  else none

/-- The number written by hexadecimal digits after others worth `high`. -/
def hexNumber? (high : Nat) : List Char → Option Nat
  | [] => some high
  | c :: cs => (hexValue? c).bind fun d => hexNumber? (16 * high + d) cs

def ofHex? (digits : List Char) : Option NodeId :=
  if digits.length = 32 then (hexNumber? 0 digits).map fun n => ⟨BitVec.ofNat 128 n⟩ else none

def ofHyphenated? (text : List Char) : Option NodeId :=
  let digits := text.filter (· ≠ '-')
  if hyphenate digits = text then ofHex? digits else none

/-- Reads bare digits, hyphenated groups, groups between braces, and groups behind `urn:uuid:` in
any letter case. -/
def ofString? (text : String) : Option NodeId :=
  let cs := text.toList
  if cs.length = 32 then ofHex? cs
  else if cs.length = 36 then ofHyphenated? cs
  else if cs.length = 38 ∧ cs.head? = some '\x7b' ∧ cs.getLast? = some '\x7d' then
    ofHyphenated? ((cs.drop 1).take 36)
  else if cs.length = 45 ∧ (cs.take 9).map Char.toLower = "urn:uuid:".toList then
    ofHyphenated? (cs.drop 9)
  else none

end NodeId

end SpectralAlgebra
