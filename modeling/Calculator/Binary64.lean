/-!
# Floats and their texts

Without its sign bit, the bit pattern of a float that is a number is a natural number, its *rank*:
the floats that are not negative, in order, have the ranks `0`, `1`, `2`, and so on up to the rank
of infinity. Everything exact that is said about floats is said about ranks, in whole numbers, and
so numerals are read and floats are printed without losing a digit on the way.

## Units

Every finite float is a whole multiple of the least positive one, `2 ^ (-1074)`; how many times it
holds that unit is `units`. The formula goes on past the largest finite float: the rank of infinity
holds `2 ^ 2098` units, which is `2 ^ 1024`, the number that would come next if the exponent had one
more value. So the middle between the largest finite float and infinity is where numbers begin to
round to infinity, and no case of its own is needed for that.

## One rounding for all magnitudes

A numeral of any length denotes a fraction of two natural numbers, and its value is the float
nearest to that fraction; of two that are equally near, the one with the even rank. The quotient in
units is scaled by the power of two that leaves at most 53 bits before the point, and rounded to a
whole number there. Below `2 ^ 53` units nothing is scaled, and the whole number is the rank itself:
this covers zero, the subnormal floats and the first binade of normal ones. Each further binary
place moves the rank on by one binade. Rounding up from 53 bits to 54 lands on the first rank of the
next binade, so the carry is right without being looked at.

## The search for the shortest decimal

A float is printed with the fewest digits that read back as the same float. The decimals that read
back are those of an interval around the float, which reaches half way to its neighbours; its ends
read back exactly if the rank is even, since that is where a tie goes. All numbers are counted in
`10 ^ (-1074)` here, of which every finite float is a whole multiple. The multiples of `10 ^ p` form
a grid, and if any point of the grid lies in the interval, one of the two next to the float does. So
the search goes from coarse grids to fine ones and stops at the first with a hit. Of two hits the
nearer is taken, and of two equally near ones the larger. On the finest grid the float is a point
itself, which ends the search.
-/

namespace Calculator

namespace Binary64

/-! ## Ranks and units -/

/-- How many ranks there are from one power of two to the next: the floats between them differ in
the 52 lowest bits alone. -/
def binade : Nat := 1 <<< 52

/-- The sign bit. -/
def signBit : Nat := 1 <<< 63

/-- The rank of infinity. The ranks below it are those of the finite floats, the bit patterns above
it are those of NaN. -/
def infinityRank : Nat := 2047 * binade

/-- How many times the float of a rank holds `2 ^ (-1074)`. Up to the first normal float the ranks
count the units themselves; from there on each binade has steps twice as wide as the one before. -/
def units (rank : Nat) : Nat :=
  if rank < binade then rank else (binade + rank % binade) <<< (rank / binade - 1)

/-- The bit pattern of a float without the sign bit. -/
def rank (x : Float) : Nat := x.toBits.toNat % signBit

/-- Whether the sign bit of a float is set; it is for negative zero. -/
def isNegative (x : Float) : Bool := signBit ≤ x.toBits.toNat

theorem binade_eq : binade = 4503599627370496 := rfl

theorem signBit_eq : signBit = 9223372036854775808 := rfl

theorem infinityRank_eq : infinityRank = 9218868437227405312 := rfl

/-- A bit pattern up to that of infinity is no NaN. -/
private theorem valid_of_le {rank : Nat} (h : rank ≤ infinityRank) :
    Float.Model.Format.binary64.Valid (UInt64.ofNat rank).toBitVec := by
  refine ⟨fun hexponent hmantissa ↦ absurd ?_ hmantissa⟩
  have hexponent := congrArg BitVec.toNat hexponent
  apply BitVec.eq_of_toNat_eq
  rw [infinityRank_eq] at h
  simp [Float.Model.UnpackedFloat.unpackExponent, Float.Model.UnpackedFloat.unpackMantissa,
    Nat.shiftRight_eq_div_pow] at hexponent ⊢
  omega

/-- The float of a rank that is not negative; from the rank of infinity on, infinity. -/
def ofRank (rank : Nat) : Float :=
  .ofModel ⟨.ofNat (min rank infinityRank), valid_of_le (Nat.min_le_right _ _)⟩

@[simp] theorem toBits_ofRank (n : Nat) :
    (ofRank n).toBits = .ofNat (min n infinityRank) := rfl

@[simp] theorem rank_ofRank (n : Nat) : rank (ofRank n) = min n infinityRank := by
  rw [rank, toBits_ofRank, UInt64.toNat_ofNat', infinityRank_eq, signBit_eq]
  omega

@[simp] theorem isNegative_ofRank (n : Nat) : isNegative (ofRank n) = false := by
  rw [isNegative, toBits_ofRank, UInt64.toNat_ofNat', infinityRank_eq, signBit_eq,
    decide_eq_false_iff_not]
  omega

/-! ## The nearest float -/

/-- The whole number nearest to `num / den`, a half going to the even one. -/
def roundHalfEven (num den : Nat) : Nat :=
  let quotient := num / den
  let twice := 2 * (num % den)
  if twice < den then quotient
  else if den < twice then quotient + 1
  else quotient + quotient % 2

/-- The rank of the float nearest to `num / den`, for a positive `den`; from the rank of infinity
on, the fraction is too large for a finite float. -/
def nearestRank (num den : Nat) : Nat :=
  let scaled := num <<< 1074
  let shift := (scaled / den).log2 - 52
  shift * binade + roundHalfEven scaled (den <<< shift)

/-- The float nearest to `num / den`. -/
def nearest (num den : Nat) : Float := ofRank (nearestRank num den)

end Binary64

/-! ## Numerals

A numeral is a run of decimal digits and points. It denotes a number if it has a digit and not more
than one point; the digits after the point count as a fraction, and a point at either end changes
nothing. -/

namespace Numeral

/-- The characters that a numeral is made of. -/
def isNumeralChar (c : Char) : Bool := c.isDigit || c = '.'

/-- The digits before the first point. -/
def whole (literal : List Char) : List Char := literal.takeWhile (· ≠ '.')

/-- What stands after the first point. -/
def fraction (literal : List Char) : List Char := (literal.dropWhile (· ≠ '.')).drop 1

/-- A numeral has at least one digit and at most one point. -/
def WellFormed (literal : List Char) : Prop :=
  literal.any Char.isDigit = true ∧ literal.count '.' ≤ 1

instance (literal : List Char) : Decidable (WellFormed literal) :=
  inferInstanceAs (Decidable (_ ∧ _))

/-- The digits of a numeral without its point, as a number. -/
def numerator (literal : List Char) : Nat :=
  Nat.ofDigitChars 10 (whole literal ++ fraction literal) 0

/-- The power of ten that the fraction of a numeral is counted in. -/
def denominator (literal : List Char) : Nat := Nat.pow 10 (fraction literal).length

/-- The float nearest to the number that a well-formed numeral denotes. -/
def value (literal : List Char) : Float :=
  Binary64.nearest (numerator literal) (denominator literal)

/-- The value of a numeral, if it denotes one. -/
def read? (literal : List Char) : Option Float :=
  if WellFormed literal then some (value literal) else none

end Numeral

/-! ## Decimals

A decimal is a whole number and a power of ten. Its text is positional: a run of digits with at most
one point, a digit on either side of the point, and never an exponent, however large or small the
number is. -/

/-- The number `coefficient * 10 ^ exponent`. -/
structure Decimal where
  /-- The digits, without their place. -/
  coefficient : Nat
  /-- The place of the last digit: that of the units is `0`. -/
  exponent : Int
  deriving DecidableEq, Repr

namespace Decimal

/-- Writes a whole number with the point before its last `places` digits, with as many zeros in
front as it takes to have one digit before the point. -/
def withPoint (coefficient places : Nat) : List Char :=
  let digits := Nat.toDigits 10 coefficient
  let padded := List.replicate (places + 1 - digits.length) '0' ++ digits
  padded.take (padded.length - places) ++ '.' :: padded.drop (padded.length - places)

/-- The positional text of a decimal. -/
def text (d : Decimal) : List Char :=
  match d.exponent with
  | .ofNat zeros => Nat.toDigits 10 d.coefficient ++ List.replicate zeros '0'
  | .negSucc n => withPoint d.coefficient (n + 1)

end Decimal

namespace Binary64

/-! ## The shortest decimal -/

/-- The finite float of a rank, counted in `10 ^ (-1074)`. -/
def decimalUnits (rank : Nat) : Nat := units rank * Nat.pow 5 1074

/-- Whether `n * 10 ^ (-1074)` reads back as the float of a positive rank. The ends of the interval
are half way to the neighbours, so twice `n` is compared with sums of two. -/
def readsBack (rank n : Nat) : Bool :=
  let low := decimalUnits (rank - 1) + decimalUnits rank
  let high := decimalUnits rank + decimalUnits (rank + 1)
  if rank % 2 = 0 then low ≤ 2 * n && 2 * n ≤ high else low < 2 * n && 2 * n < high

/-- The first hit on the grids from `10 ^ p` down, as a multiple of its grid and the grid. -/
def search (rank : Nat) : Nat → Nat × Nat
  | 0 => (decimalUnits rank, 0)
  | p + 1 =>
    let value := decimalUnits rank
    let step := Nat.pow 10 (p + 1)
    let below := value / step
    match readsBack rank (below * step), readsBack rank ((below + 1) * step) with
    | true, false => (below, p + 1)
    | false, true => (below + 1, p + 1)
    | true, true => (if 2 * (value % step) < step then below else below + 1, p + 1)
    | false, false => search rank p

/-- A grid coarser than the number. A number of `k` binary digits is below `2 ^ k`, and `10 ^ 28` is
above `2 ^ 93`. -/
def coarseGrid (n : Nat) : Nat := (n.log2 + 1) * 28 / 93 + 1

/-- The decimal with the fewest digits that reads back as the float of a positive finite rank. -/
def shortest (rank : Nat) : Decimal :=
  let hit := search rank (coarseGrid (decimalUnits rank))
  ⟨hit.1, (hit.2 : Int) - 1074⟩

/-! ## The text of a float

A finite float is written as its shortest decimal, with a minus sign if its sign bit is set. Zero
has a sign too. The infinities are `inf` and `-inf`, and a value that is not a number is `NaN`,
whatever its sign bit. -/

/-- The text of a magnitude. -/
def magnitudeText (rank : Nat) : List Char :=
  if rank = 0 then ['0']
  else if rank < infinityRank then (shortest rank).text
  else ['i', 'n', 'f']

/-- The text of a float. -/
def text (x : Float) : List Char :=
  if infinityRank < rank x then ['N', 'a', 'N']
  else if isNegative x then '-' :: magnitudeText (rank x)
  else magnitudeText (rank x)

end Binary64

end Calculator
