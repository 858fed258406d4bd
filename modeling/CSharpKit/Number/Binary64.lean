import CSharpKit.Number.Decimal

/-! # Binary floating-point numbers

Numbers of the form `m * 2 ^ q` with a significand below `2 ^ 53`, read from
decimals and written back with the fewest digits. All arithmetic is exact. -/

namespace CSharpKit.Number

inductive Binary64 where
  /-- The number `significand * 2 ^ exponent`, with its sign. -/
  | finite (negative : Bool) (significand : Nat) (exponent : Int)
  | infinite (negative : Bool)
  | nan
  deriving DecidableEq, Inhabited

namespace Binary64

/-- A quotient rounded to the nearest natural number, a half to the even one. -/
def roundDiv (num den : Nat) : Nat :=
  let q := num / den
  let twice := 2 * (num % den)
  if twice > den || (twice == den && q % 2 == 1) then q + 1 else q

/-- A power with a signed exponent, as a fraction. -/
def power (base : Nat) : Int → Nat × Nat
  | .ofNat n => (base.pow n, 1)
  | .negSucc n => (1, base.pow (n + 1))

/-- Significands have 53 bits, so they are below this. -/
def significandLimit : Nat := 9007199254740992

/-- The smallest exponent of a number. -/
def minExponent : Int := -1074

/-- The greatest exponent of a number. -/
def maxExponent : Int := 971

/-- The exponent for a positive fraction: with it the significand has 53 bits, or
fewer for very small numbers. -/
def exponentFor (num den : Nat) : Int :=
  let low := max ((num.log2 : Int) - (den.log2 : Int) - 53) minExponent
  let (a, b) := power 2 low
  if num * b / (den * a) < significandLimit then low else low + 1

/-- The number nearest to a fraction. -/
def ofFraction (negative : Bool) (num den : Nat) : Binary64 :=
  if num == 0 then .finite negative 0 0
  else
    let q := exponentFor num den
    let (a, b) := power 2 q
    let m := roundDiv (num * b) (den * a)
    let (m, q) := if m == significandLimit then (significandLimit / 2, q + 1) else (m, q)
    if maxExponent < q then .infinite negative else .finite negative m q

/-- The number nearest to `digits * 10 ^ exponent`. Where the result is certain
to be zero or infinite nothing is computed. -/
def ofDecimal (negative : Bool) (digits : Nat) (exponent : Int) : Binary64 :=
  let length : Int := (Nat.toDigits 10 digits).length
  if digits == 0 || length + exponent < -400 then .finite negative 0 0
  else if 400 < length + exponent then .infinite negative
  else
    let (a, b) := power 10 exponent
    ofFraction negative (digits * a) b

/-- The decimal of unit `10 ^ k` nearest to a number, among those that read back
as it. -/
def onGrid? (m : Nat) (q k : Int) : Option Nat :=
  -- all in quarters of the last binary place
  let low := if m == significandLimit / 2 && minExponent < q then 4 * m - 1 else 4 * m - 2
  let (a, b) := power 2 (q - 2)
  let (c, d) := power 10 k
  let scaled (n : Nat) : Nat := n * a * d
  let unit := b * c
  let fits (n : Nat) : Bool :=
    let x := n * unit
    if m % 2 == 0 then scaled low ≤ x && x ≤ scaled (4 * m + 2)
    else scaled low < x && x < scaled (4 * m + 2)
  let down := scaled (4 * m) / unit
  match fits down, fits (down + 1) with
  | true, true =>
    if 2 * scaled (4 * m) ≤ (2 * down + 1) * unit then some down else some (down + 1)
  | true, false => some down
  | false, true => some (down + 1)
  | false, false => none

/-- Tries finer and finer decimals; `fuel` bounds how many. -/
def searchGrid (m : Nat) (q : Int) : Nat → Int → Nat × Int
  | 0, k => (0, k)
  | fuel + 1, k =>
    match onGrid? m q k with
    | some digits => (digits, k)
    | none => searchGrid m q fuel (k - 1)

/-- The digits and the exponent of the shortest decimal that reads back as a
positive number. -/
def shortest (m : Nat) (q : Int) : Nat × Int :=
  let (a, b) := power 2 q
  let top : Int := ((Nat.toDigits 10 (m * a)).length : Int) - (Nat.toDigits 10 b).length + 1
  searchGrid m q 20 top

/-- Digits without an exponent; a point stands only before places. -/
def positional (digits : Nat) (exponent : Int) : String :=
  let text := Nat.toDigits 10 digits
  match exponent with
  | .ofNat n => String.ofList (text ++ List.replicate n '0')
  | .negSucc n =>
    let places := n + 1
    let padded := List.replicate (places + 1 - text.length) '0' ++ text
    let whole := padded.length - places
    String.ofList (padded.take whole) ++ "." ++ String.ofList (padded.drop whole)

/-- The shortest decimal of a number, never with an exponent. -/
def text : Binary64 → String
  | .nan => "NaN"
  | .infinite negative => if negative then "-inf" else "inf"
  | .finite negative m q =>
    let (digits, k) := if m == 0 then (0, 0) else shortest m q
    (if negative then "-" else "") ++ positional digits k

/-- A number as reports show it: a finite one always has a point. -/
def render (x : Binary64) : String :=
  match x with
  | .finite .. => if x.text.contains '.' then x.text else x.text ++ ".0"
  | _ => x.text

/-- The number that a decimal writes, with an exponent or without. A sign and the
digits on one side of the point may be missing. -/
def ofText? (text : String) : Option Binary64 :=
  let (negative, cs) :=
    match text.toList with
    | '-' :: rest => (true, rest)
    | '+' :: rest => (false, rest)
    | cs => (false, cs)
  let word := (String.ofList cs).toLower
  if word == "inf" || word == "infinity" then some (.infinite negative)
  else if word == "nan" then some .nan
  else
    let whole := cs.takeWhile Char.isDigit
    let (places, rest) :=
      match cs.drop whole.length with
      | '.' :: rest => (rest.takeWhile Char.isDigit, rest.dropWhile Char.isDigit)
      | rest => ([], rest)
    let digits := whole ++ places
    let number (exponent : Int) : Binary64 :=
      ofDecimal negative (decimal digits) (exponent - places.length)
    if digits.isEmpty then none
    else
      match rest with
      | [] => some (number 0)
      | c :: rest =>
        let (below, power) :=
          match rest with
          | '-' :: rest => (true, rest)
          | '+' :: rest => (false, rest)
          | rest => (false, rest)
        if (c == 'e' || c == 'E') && !power.isEmpty && power.all Char.isDigit then
          some (number (if below then -(decimal power : Int) else decimal power))
        else none

/-- A number in units of the smallest one, for comparison; infinities lie beyond
all others. -/
def scaled : Binary64 → Int
  | .nan => 0
  | .infinite negative => signed negative (Nat.pow 2 2100)
  | .finite negative m q => signed negative (m * Nat.pow 2 (q - minExponent).toNat)
where
  signed (negative : Bool) (n : Nat) : Int := if negative then -(n : Int) else n

end Binary64

end CSharpKit.Number
