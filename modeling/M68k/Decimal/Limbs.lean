import M68k.Fp.WorkingForm

/-!
# Natural numbers in limbs

A natural number of any size is a list of limbs of 32 bits, the least significant first.  There are
no zeros at the end of the list: numbers are told apart by the number of their limbs before any limb
is looked at, and their bits are counted from the last limb.  A step that may leave a zero there
trims its result.

Products of limbs are in words of 64 bits, and counts of bits in words of 32.  As in working form, a
sum or product that leaves its word, and a step that is not given what it relies on, have no result.
-/

namespace M68k

/-- A number of an unsigned word of 64 bits, as products of limbs are. -/
def uint64? (n : Int) : Option Nat :=
  if 0 ≤ n ∧ n < 0x10000000000000000 then some n.toNat else none

/-- A digit to the base `2 ^ 32`. -/
abbrev Limb := BitVec 32

/-- The digits of a natural number, the least significant first. -/
abbrev Limbs := List Limb

namespace Limbs

/-- The base of the digits. -/
def base : Nat := 0x100000000

/-- Drops the zeros at the end. -/
def trim (limbs : Limbs) : Limbs := (limbs.reverse.dropWhile (· == 0)).reverse

/-- The limbs of a word. -/
def ofWide (word : Wide) : Limbs :=
  if word = 0 then [] else word.setWidth 32 :: ofWide (word >>> 32)
termination_by word.toNat
decreasing_by
  have positive : 0 < word.toNat := by
    rw [Nat.pos_iff_ne_zero]
    exact fun zero => absurd (BitVec.eq_of_toNat_eq zero) ‹_›
  rw [BitVec.toNat_ushiftRight, Nat.shiftRight_eq_div_pow]
  exact Nat.div_lt_self positive (by decide)

/-- The last 128 bits. -/
def lowWide (limbs : Limbs) : Wide :=
  (limbs.take 4).foldr (fun limb word => word <<< 32 ||| limb.setWidth 128) 0

/-! ## Order and bits -/

/-- The order of two lists of digits: that of their lengths, and of lists of one length that of the
first digits that differ, from the most significant on. -/
def compare (a b : Limbs) : Ordering :=
  (Ord.compare a.length b.length).then
    (List.compareLex (compareOn BitVec.toNat) a.reverse b.reverse)

/-- The number of zeros above the leading one of a limb. -/
def leadingZeros (limb : Limb) : Nat := if limb = 0 then 32 else 31 - limb.toNat.log2

/-- The number of bits, from the number of limbs and the last of them.  There is none if a word of
32 bits cannot hold one of the numbers on the way. -/
def bitLength (limbs : Limbs) : Option Nat :=
  match limbs.getLast? with
  | none => some 0
  | some top => do
    let count ← uint32? limbs.length
    let below ← uint32? ((← uint32? (count - 1)) * 32)
    uint32? (below + (← uint32? (32 - leadingZeros top)))

/-- Whether any of the last bits is set. -/
def lowBitsNonzero (limbs : Limbs) (bits : Nat) : Bool :=
  (limbs.take (bits / 32)).any (· != 0) ||
    (bits % 32 != 0 &&
      limbs[bits / 32]?.any fun limb => limb &&& ((1 : Limb) <<< (bits % 32) - 1) != 0)

/-! ## Products -/

/-- A product of limbs with two more summands: the limb that stays, and what is carried. -/
def multiplyAdd (a b old : Limb) (carry : Nat) : Option (Limb × Nat) := do
  let product ← uint64? (a.toNat * b.toNat : Nat)
  let sum ← uint64? ((← uint64? (old.toNat + product : Nat)) + carry)
  return (BitVec.ofNat 32 sum, sum / base)

/-- Multiplies limb by limb.  What is carried out of the last limb becomes one more. -/
def mulSmallFrom (factor : Limb) : Nat → Limbs → Option Limbs
  | carry, [] => some (if carry = 0 then [] else [BitVec.ofNat 32 carry])
  | carry, limb :: rest => do
    let (digit, carry) ← multiplyAdd limb factor 0 carry
    return digit :: (← mulSmallFrom factor carry rest)

/-- The product with a factor of one limb. -/
def mulSmall (limbs : Limbs) (factor : Limb) : Option Limbs :=
  (mulSmallFrom factor 0 limbs).map trim

/-- Multiplies by a power of ten, nine digits at a time. -/
def mulPow10 (limbs : Limbs) (n : Nat) : Option Limbs :=
  if h : 9 ≤ n then do mulPow10 (← limbs.mulSmall 1000000000) (n - 9)
  else do limbs.mulSmall (BitVec.ofNat 32 (← uint32? (Nat.pow 10 n : Nat)))
termination_by n

/-- A power of ten. -/
def pow10 (n : Nat) : Option Limbs := mulPow10 (ofWide 1) n

/-- Adds the product of a limb and a number to the limbs at which it starts.  The limb after those
is overwritten by what is carried.  Without room for that limb there is no result. -/
def addRow (a : Limb) : Nat → Limbs → Limbs → Option Limbs
  | carry, [], _ :: sum => some (BitVec.ofNat 32 carry :: sum)
  | carry, b :: more, old :: sum => do
    let (digit, carry) ← multiplyAdd a b old carry
    return digit :: (← addRow a carry more sum)
  | _, _, [] => none

/-- Adds the products of limbs and a number, each one limb further on. -/
def addRows (b : Limbs) : Limbs → Limbs → Option Limbs
  | [], sum => some sum
  | a :: more, sum => do
    match ← addRow a 0 b sum with
    | [] => none
    | digit :: sum => return digit :: (← addRows b more sum)

/-- The product of two numbers. -/
def mul (a b : Limbs) : Option Limbs :=
  if a = [] ∨ b = [] then some []
  else (addRows b a (List.replicate (a.length + b.length) 0)).map trim

/-! ## Shifts -/

/-- Moves bits up by less than a limb; those that leave a limb enter the next one. -/
def shlFrom (shift : Nat) : Limb → Limbs → Limbs
  | carry, [] => [carry]
  | carry, limb :: rest =>
    (limb <<< shift ||| carry) :: shlFrom shift (limb >>> (32 - shift)) rest

/-- Moves all bits up. -/
def shl (limbs : Limbs) (bits : Nat) : Limbs :=
  if limbs = [] then []
  else
    trim (List.replicate (bits / 32) 0 ++
      if bits % 32 = 0 then limbs else shlFrom (bits % 32) 0 limbs)

/-- Moves bits down by less than a limb; each limb also takes bits of the next one. -/
def shrFrom (shift : Nat) : Limbs → Limbs
  | [] => []
  | limb :: rest =>
    (limb >>> shift ||| rest.head?.elim 0 (· <<< (32 - shift))) :: shrFrom shift rest

/-- Moves all bits down; those below the first are lost. -/
def shr (limbs : Limbs) (bits : Nat) : Limbs :=
  if limbs.length ≤ bits / 32 then []
  else
    let rest := limbs.drop (bits / 32)
    trim (if bits % 32 = 0 then rest else shrFrom (bits % 32) rest)

/-- Moves bits down by one, from the most significant limb on, and tells which bit the limb below
takes. -/
def halve : Limbs → Limbs × Limb
  | [] => ([], 0)
  | limb :: rest => ((limb >>> 1 ||| (halve rest).2) :: (halve rest).1, limb <<< 31)

/-- Moves all bits down by one. -/
def shr1 (limbs : Limbs) : Limbs := trim (halve limbs).1

/-! ## Quotients -/

/-- Takes a number away limb by limb, and what was borrowed from the first of them. -/
def subFrom : Int → Limbs → Limbs → Option Limbs
  | _, [], _ => some []
  | borrow, limb :: rest, other => do
    let digit : Limb := other.head?.getD 0
    let difference ← int64? ((← int64? (limb.toNat - digit.toNat)) - borrow)
    if difference < 0 then
      return BitVec.ofInt 32 (← int64? (difference + base)) :: (← subFrom 1 rest other.tail)
    else return BitVec.ofInt 32 difference :: (← subFrom 0 rest other.tail)

/-- Takes away a number that is not greater. -/
def sub (a b : Limbs) : Option Limbs := do
  guard (a.compare b ≠ .lt)
  (subFrom 0 a b).map trim

/-- The bits of a quotient below a position, from the highest one on, and what is left.  The divisor
is moved down after every bit, the last one too. -/
def divideFrom : Nat → Wide → Limbs → Limbs → Option (Wide × Limbs)
  | 0, quotient, rest, _ => some (quotient, rest)
  | position + 1, quotient, rest, divisor =>
    if rest.compare divisor ≠ .lt then do
      let less ← rest.sub divisor
      divideFrom position (quotient ||| (← Wide.shl? 1 position)) less divisor.shr1
    else divideFrom position quotient rest divisor.shr1

/-- Quotient and remainder of a division whose quotient fits in a word. -/
def divide (a b : Limbs) : Option (Wide × Limbs) :=
  if a.compare b = .lt then some (0, a)
  else do
    let shift ← uint32? ((← a.bitLength) - (← b.bitLength))
    divideFrom (shift + 1) 0 a (b.shl shift)

/-- A division that makes sure of what it relies on: the divisor is not zero, and the lengths of the
numbers show that the quotient fits in a word. -/
def divRem (a b : Limbs) : Option (Wide × Limbs) := do
  guard (b ≠ [])
  if a.compare b = .lt then a.divide b
  else
    guard ((← a.bitLength) < (← b.bitLength) + 128)
    a.divide b

end Limbs

end M68k
