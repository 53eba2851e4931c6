/-
  Naitron.Strtod

  `strtod` of the C library on the characters that the JSON parser hands to
  it, and the conversion of its result to `long`.
-/

import Naitron.JsonText
import Naitron.Lib.Binary64

namespace Naitron

/-- A decimal number, without its point: `±digits * 10 ^ exponent`. -/
structure Decimal where
  neg : Bool
  digits : Nat
  exponent : Int
deriving DecidableEq, Repr

def Decimal.value (d : Decimal) : ℚ := (if d.neg then -1 else 1) * d.digits * 10 ^ d.exponent

def digitsVal (s : Bytes) : Nat := s.foldl (fun n c => 10 * n + (c.toNat - 48)) 0

/-- An optional sign. -/
def readSign : Bytes → Bool × Bytes
  | [] => (false, [])
  | c :: s => if c = 45 then (true, s) else if c = 43 then (false, s) else (false, c :: s)

/-- The exponent part; one without digits does not count. -/
def readExponent : Bytes → Int
  | [] => 0
  | c :: s =>
      if c = 101 ∨ c = 69 then
        let r := readSign s
        let n : Int := digitsVal (r.2.takeWhile isDigit)
        if r.1 then -n else n
      else 0

/-- The digits behind a decimal point, and what follows. -/
def readFraction : Bytes → Bytes × Bytes
  | [] => ([], [])
  | c :: s => if c = 46 then (s.takeWhile isDigit, s.dropWhile isDigit) else ([], c :: s)

/-- The longest beginning that is a decimal number, if there is one. -/
def readDecimal (s : Bytes) : Option Decimal :=
  let r := readSign s
  let int := r.2.takeWhile isDigit
  let f := readFraction (r.2.dropWhile isDigit)
  if int.isEmpty && f.1.isEmpty then none
  else some ⟨r.1, digitsVal (int ++ f.1), readExponent f.2 - f.1.length⟩

/-- Toward zero, as a conversion to an integer type rounds. -/
def truncate (q : ℚ) : Int := if q < 0 then ⌈q⌉ else ⌊q⌋

/-- `(long)strtod(text)`; `none` where C leaves the conversion undefined. -/
def longOf (text : Bytes) : Option Int :=
  match readDecimal text with
  | none => some 0
  | some d =>
      let t := truncate (Lib.nearest64 d.value)
      if -2 ^ 63 ≤ t ∧ t < 2 ^ 63 then some t else none

/-- `strtod(text)`: an infinity beyond the range of a double. -/
def strtod (text : Bytes) : WithBot (WithTop ℚ) :=
  match readDecimal text with
  | none => some (some 0)
  | some d =>
      let q := Lib.nearest64 d.value
      if 2 ^ 1024 ≤ q then some none else if q ≤ -2 ^ 1024 then none else some (some q)

/-- `d == floor(d)`. -/
def isWhole : WithBot (WithTop ℚ) → Bool
  | some (some q) => q == ⌊q⌋
  | _ => true

/-- `(size_t)d`; `none` where C leaves the conversion undefined. -/
def toSize : WithBot (WithTop ℚ) → Option Nat
  | some (some q) => if -1 < q ∧ q < 2 ^ 64 then some (truncate q).toNat else none
  | _ => none

theorem truncate_intCast (v : Int) : truncate v = v := by
  rw [truncate, Int.ceil_intCast, Int.floor_intCast, ite_self]

/-- An integer up to `2 ^ 53` comes out as it is written. -/
theorem longOf_eq {text : Bytes} {d : Decimal} {v : Int} (hd : readDecimal text = some d)
    (hv : d.value = v) (hsmall : |v| ≤ 2 ^ 53) : longOf text = some v := by
  have hbounds := abs_le.mp hsmall
  rw [longOf, hd]
  dsimp only
  rw [hv, Lib.nearest64_intCast hsmall, truncate_intCast, if_pos (by omega)]

end Naitron
