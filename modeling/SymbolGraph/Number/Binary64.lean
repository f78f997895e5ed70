/-!
# `Number.Binary64` — binary floating point as exact numbers

A finite value is `±mantissa · 2 ^ exponent` with a mantissa below `2 ^ 53`.
Reading rounds a decimal to the NEAREST such value, a tie to the even
mantissa; writing gives the FEWEST digits that read back as the value, and
of several such decimals the nearest one.
-/

namespace SymbolGraph.Number

/-- A binary floating-point value of 64 bits. -/
inductive Binary64 where
  | finite (negative : Bool) (mantissa : Nat) (exponent : Int)
  | infinite (negative : Bool)
  | nan
  deriving Repr, DecidableEq

namespace Binary64

/-- `num / den` to the nearest integer, a tie to the even one. -/
def roundDiv (num den : Nat) : Nat :=
  let q := num / den
  let r := num % den
  if 2 * r < den then q
  else if den < 2 * r then q + 1
  else if q % 2 = 0 then q else q + 1

/-- `num / den` with `2 ^ e` taken out, as a fraction. -/
def scaled (num den : Nat) (e : Int) : Nat × Nat :=
  if 0 ≤ e then (num, den * Nat.pow 2 e.toNat) else (num * Nat.pow 2 (-e).toNat, den)

/-- The mantissa and exponent nearest to `num / den`, which is not zero:
`53` bits, or fewer at the least exponent there is. -/
def nearest (num den : Nat) : Nat × Int :=
  let guess : Int := (num.log2 : Int) - (den.log2 : Int) - 53
  let low : Int := max guess (-1074)
  let (n, d) := scaled num den low
  let e : Int := if Nat.pow 2 53 ≤ n / d then low + 1 else low
  let (n, d) := scaled num den e
  let m := roundDiv n d
  if m = Nat.pow 2 53 then (Nat.pow 2 52, e + 1) else (m, e)

/-- The value nearest to `± digits · 10 ^ power`, written with `count` digits.
Powers far outside the range are settled without computing them. -/
def ofDecimal (negative : Bool) (digits : Nat) (count : Nat) (power : Int) : Binary64 :=
  if digits = 0 then .finite negative 0 0
  else if 400 < (count : Int) + power ∧ 310 < power then .infinite negative
  else if (count : Int) + power < -400 then .finite negative 0 0
  else
    let (num, den) :=
      if 0 ≤ power then (digits * Nat.pow 10 power.toNat, 1)
      else (digits, Nat.pow 10 (-power).toNat)
    let (m, e) := nearest num den
    if m = 0 then .finite negative 0 0
    else if 971 < e then .infinite negative
    else .finite negative m e

/-- The value nearest to an integer. -/
def ofInt (n : Int) : Binary64 :=
  if n = 0 then .finite false 0 0
  else
    let (m, e) := nearest n.natAbs 1
    if 971 < e then .infinite (n < 0) else .finite (n < 0) m e

/-- The value as a fraction, its sign left out. -/
def fraction (mantissa : Nat) (exponent : Int) : Nat × Nat :=
  if 0 ≤ exponent then (mantissa * Nat.pow 2 exponent.toNat, 1)
  else (mantissa, Nat.pow 2 (-exponent).toNat)

/-- `num / den` is at least `10 ^ p`. -/
def reaches (num den : Nat) (p : Int) : Bool :=
  if 0 ≤ p then den * Nat.pow 10 p.toNat ≤ num else den ≤ num * Nat.pow 10 (-p).toNat

/-- The decimal exponent of `num / den`, searched downwards from `p`. -/
def decimalExponent (num den : Nat) : (fuel : Nat) → (p : Int) → Int
  | 0, p => p
  | fuel + 1, p => if reaches num den p then p else decimalExponent num den fuel (p - 1)

/-- The two neighbours of `num / den` on the grid of multiples of `10 ^ p`,
the nearer first, and of two equally near ones the even one. -/
def neighbours (num den : Nat) (p : Int) : List Nat :=
  let (n, d) :=
    if 0 ≤ p then (num, den * Nat.pow 10 p.toNat) else (num * Nat.pow 10 (-p).toNat, den)
  let low := n / d
  if roundDiv n d = low then [low, low + 1] else [low + 1, low]

/-- The first grid, from the coarsest, on which a neighbour reads back. -/
def shortestFrom (mantissa : Nat) (exponent : Int) (num den : Nat) :
    (fuel : Nat) → (p : Int) → Nat × Int
  | 0, p => ((neighbours num den p).headD 0, p)
  | fuel + 1, p =>
      let reads := fun digits => ofDecimal false digits 20 p == .finite false mantissa exponent
      match (neighbours num den p).find? reads with
      | some digits => (digits, p)
      | none => shortestFrom mantissa exponent num den fuel (p - 1)

/-- Digits without zeros at their end, which go into the power. -/
def stripZeros : (fuel : Nat) → Nat × Int → Nat × Int
  | 0, x => x
  | fuel + 1, (digits, power) =>
      if digits ≠ 0 ∧ digits % 10 = 0 then stripZeros fuel (digits / 10, power + 1)
      else (digits, power)

/-- The fewest digits, and the power of ten they are multiplied with. -/
def shortest (mantissa : Nat) (exponent : Int) : Nat × Int :=
  let (num, den) := fraction mantissa exponent
  let top := decimalExponent num den 640 309
  stripZeros 20 (shortestFrom mantissa exponent num den 17 top)

/-- Positional up to sixteen places before the point and four zeros after it,
else one digit before the point and a signed exponent of two places or more. -/
def digitsText (digits : Nat) (power : Int) : String :=
  let ds := Nat.toDigits 10 digits
  let scale : Int := ds.length + power
  let zeros := fun (n : Int) => List.replicate n.toNat '0'
  if -4 < scale ∧ scale ≤ 16 then
    String.ofList <|
      if scale ≤ 0 then '0' :: '.' :: zeros (-scale) ++ ds
      else if (ds.length : Int) ≤ scale then ds ++ zeros (scale - ds.length) ++ ['.', '0']
      else ds.take scale.toNat ++ '.' :: ds.drop scale.toNat
  else
    let shown := match ds with
      | [d] => [d]
      | d :: rest => d :: '.' :: rest
      | [] => []
    let e := scale - 1
    let places := Nat.toDigits 10 e.natAbs
    let padded := if places.length < 2 then '0' :: places else places
    String.ofList (shown ++ 'e' :: (if e < 0 then '-' else '+') :: padded)

/-- The value as JSON text; the three values that JSON has no word for are
written with the usual names. -/
def text : Binary64 → String
  | .finite negative mantissa exponent =>
      let body :=
        if mantissa = 0 then "0.0"
        else
          let (digits, power) := shortest mantissa exponent
          digitsText digits power
      if negative then "-" ++ body else body
  | .infinite negative => if negative then "-Infinity" else "Infinity"
  | .nan => "NaN"

/-- The value times `2 ^ k`, out of range if its exponent is. -/
def scale (k : Nat) : Binary64 → Binary64
  | .finite negative mantissa exponent =>
      if mantissa = 0 then .finite negative mantissa exponent
      else if 971 + 53 < exponent + k + (mantissa.log2 + 1) then .infinite negative
      else .finite negative mantissa (exponent + k)
  | x => x

/-- `a` is less than `b`; a NaN is neither less nor greater than anything. -/
def less (a b : Binary64) : Bool :=
  match a, b with
  | .nan, _ | _, .nan => false
  | .infinite true, other => other != .infinite true
  | .infinite false, _ => false
  | _, .infinite negative => !negative
  | .finite sa ma ea, .finite sb mb eb =>
      let (na, da) := fraction ma ea
      let (nb, db) := fraction mb eb
      let signed := fun (negative : Bool) (n : Nat) => if negative then -(n : Int) else n
      signed sa (na * db) < signed sb (nb * da)

/-- The integer `n` is greater than the value. -/
def exceededBy (n : Nat) : Binary64 → Bool
  | .finite true mantissa _ => 0 < mantissa || 0 < n
  | .finite false mantissa exponent =>
      let (m, d) := fraction mantissa exponent
      m < n * d
  | .infinite negative => negative
  | .nan => false

/-- The value as an integer, if it is one. -/
def whole? : Binary64 → Option Int
  | .finite negative mantissa exponent =>
      let (n, d) := fraction mantissa exponent
      if n % d = 0 then some (if negative then -(n / d : Nat) else (n / d : Nat)) else none
  | _ => none

/-- The greatest integer that a value reaches, if the value is finite and not
negative. -/
def floor? : Binary64 → Option Nat
  | .finite false mantissa exponent =>
      let (n, d) := fraction mantissa exponent
      some (n / d)
  | _ => none

end Binary64

end SymbolGraph.Number
