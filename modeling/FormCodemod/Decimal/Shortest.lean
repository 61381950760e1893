/-!
# Shortest decimal text

A double is written with the fewest digits that read back as the same double; of those,
the nearest to it, and of two that are equally near, the one that ends in an even digit.

Both are found in exact arithmetic. A double is `m * 2 ^ e`; every real between half way to
the double below and half way to the one above reads back as it, the two ends included if
`m` is even (`Binary.interval`). For one digit, two digits and so on, the two neighbours of
the double on the grid of decimals with so many digits are tried (`Binary.onGrid?`).
-/

namespace FormCodemod.Decimal

/-- A positive number `m * 2 ^ e`. -/
structure Binary where
  m : Nat
  e : Int
  /-- The gap below is half the gap above: `m` is the least with its exponent. -/
  isLeast : Bool
  deriving DecidableEq, Repr, Inhabited

/-- A positive number `digits * 10 ^ exponent`. -/
structure Digits where
  digits : Nat
  exponent : Int
  deriving DecidableEq, Repr, Inhabited

/-- A fraction of natural numbers. -/
structure Ratio where
  num : Nat
  den : Nat
  deriving DecidableEq, Repr, Inhabited

/-- `n * b ^ e` as a fraction. -/
def Ratio.scaled (n b : Nat) (e : Int) : Ratio :=
  if 0 ≤ e then ⟨n * Nat.pow b e.toNat, 1⟩ else ⟨n, Nat.pow b (-e).toNat⟩

def Ratio.lt (x y : Ratio) : Bool := x.num * y.den < y.num * x.den

namespace Binary

def ratio (x : Binary) : Ratio := .scaled x.m 2 x.e

/-- The ends of the interval of reals that read back as the number. -/
def interval (x : Binary) : Ratio × Ratio :=
  (if x.isLeast then .scaled (4 * x.m - 1) 2 (x.e - 2) else .scaled (2 * x.m - 1) 2 (x.e - 1),
    .scaled (2 * x.m + 1) 2 (x.e - 1))

def readsBack (x : Binary) (r : Ratio) : Bool :=
  let (lo, hi) := x.interval
  if x.m % 2 == 0 then !r.lt lo && !hi.lt r else lo.lt r && r.lt hi

/-- The nearest decimal on the grid of `10 ^ p` that reads back as the number. -/
def onGrid? (x : Binary) (p : Int) : Option Nat :=
  let v := x.ratio
  -- the number in units of the grid
  let unit := Ratio.scaled 1 10 p
  let num := v.num * unit.den
  let den := v.den * unit.num
  let below := num / den
  let ok (n : Nat) : Bool := 0 < n && x.readsBack (.scaled n 10 p)
  let rest := 2 * (num % den)
  let takeBelow := if rest == den then below % 2 == 0 else rest < den
  match ok below, ok (below + 1) with
  | true, true => some (if takeBelow then below else below + 1)
  | true, false => some below
  | false, true => some (below + 1)
  | false, false => none

/-- The number of decimal digits in front of the point, found from above: the least `k` with
the number below `10 ^ k`, looking at `n` of them. -/
def magnitude (x : Binary) : Nat → Int → Int
  | 0, k => k
  | n + 1, k => if x.ratio.lt (.scaled 1 10 (k - 1)) then magnitude x n (k - 1) else k

/-- The first grid from `p` down, of at most `n`, that has a decimal which reads back. -/
def firstGrid (x : Binary) : Nat → Int → Digits
  | 0, p => ⟨0, p⟩
  | n + 1, p =>
      match x.onGrid? p with
      | some d => ⟨d, p⟩
      | none => firstGrid x n (p - 1)

def shortest (x : Binary) : Digits := firstGrid x 18 (magnitude x 640 310 - 1)

end Binary

/-- Drops the zeros that digits end in, looking at `n` of them. -/
def Digits.trim : Nat → Digits → Digits
  | 0, d => d
  | n + 1, d => if d.digits % 10 == 0 && d.digits != 0 then trim n ⟨d.digits / 10, d.exponent + 1⟩ else d

/-- A positive decimal as text: with a point if the point is within the first sixteen digits
or at most five places in front of them, and else with an exponent. -/
def Digits.text (d : Digits) : String :=
  let d := d.trim 20
  let s := toString d.digits
  let n : Int := s.length
  let point := n + d.exponent
  let cs := s.toList
  let zeros (k : Int) : String := String.ofList (List.replicate k.toNat '0')
  if 0 ≤ d.exponent && point ≤ 16 then s ++ zeros d.exponent ++ ".0"
  else if 0 < point && point ≤ 16 then
    String.ofList (cs.take point.toNat) ++ "." ++ String.ofList (cs.drop point.toNat)
  else if -5 < point && point ≤ 0 then "0." ++ zeros (-point) ++ s
  else
    let lead := String.ofList (cs.take 1)
    let tail := String.ofList (cs.drop 1)
    lead ++ (if tail.isEmpty then "" else "." ++ tail) ++ "e" ++ toString (point - 1)

def fractionSize : Nat := 0x10000000000000

def exponentSize : Nat := 0x800

/-- The number that the bits of a positive, finite double stand for. -/
def Binary.ofBits (bits : Nat) : Binary :=
  let fraction := bits % fractionSize
  let exponent : Nat := bits / fractionSize % exponentSize
  if exponent == 0 then ⟨fraction, -1074, false⟩
  else ⟨fractionSize + fraction, Int.ofNat exponent - 1075, fraction == 0 && exponent != 1⟩

/-- The text of a finite double, given by its bits. -/
def text (bits : UInt64) : String :=
  let n := bits.toNat % (fractionSize * exponentSize)
  let sign := if bits.toNat / (fractionSize * exponentSize) == 1 then "-" else ""
  sign ++ (if n == 0 then "0.0" else (Binary.ofBits n).shortest.text)

end FormCodemod.Decimal
