import AdbncFs.Text.Str

/-!
# Reading numbers

The conversions of the C++ library from a string to a number: blanks in front are skipped,
then a sign and, in base 16, a `0x` may stand before the digits; what follows the digits is
ignored. A string without digits and a number out of range are the two exceptions; the C
function `atoi` knows neither.
-/

namespace Text

/-- The exceptions that the conversions throw. -/
inductive Exception
  | invalid_argument
  | out_of_range
  deriving DecidableEq

def isspace (c : Char) : Bool := c = ' ' ∨ ('\t' ≤ c ∧ c ≤ '\r')

/-- The value of a digit in `base`. -/
def digitValue (base : Nat) (c : Char) : Option Nat :=
  let value :=
    if '0' ≤ c ∧ c ≤ '9' then some (c.toNat - '0'.toNat)
    else if 'a' ≤ c ∧ c ≤ 'z' then some (c.toNat - 'a'.toNat + 10)
    else if 'A' ≤ c ∧ c ≤ 'Z' then some (c.toNat - 'A'.toNat + 10)
    else none
  value.filter (· < base)

/-- The digits at the front of a string, as values. -/
def digits (base : Nat) : Str → List Nat
  | [] => []
  | c :: s =>
    match digitValue base c with
    | none => []
    | some d => d :: digits base s

/-- Skip `0x`, where a digit follows it. -/
def skipHexPrefix : Str → Str
  | '0' :: x :: c :: s =>
    if (x = 'x' ∨ x = 'X') ∧ (digitValue 16 c).isSome then c :: s else '0' :: x :: c :: s
  | s => s

def skipSign : Str → Bool × Str
  | '-' :: s => (true, s)
  | '+' :: s => (false, s)
  | s => (false, s)

/-- Whether there is a minus sign, and the number after it; `none` without digits. -/
def signedDigits (base : Nat) (s : Str) : Option (Bool × Nat) :=
  let (negative, rest) := skipSign (s.dropWhile isspace)
  match digits base (if base = 16 then skipHexPrefix rest else rest) with
  | [] => none
  | ds => some (negative, ds.foldl (fun n d => n * base + d) 0)

/-- `stoul`: an unsigned long of 64 bits, in which a minus sign wraps around. -/
def stoul (s : Str) (base : Nat) : Except Exception Nat :=
  match signedDigits base s with
  | none => throw .invalid_argument
  | some (negative, n) =>
    if n ≥ 2 ^ 64 then throw .out_of_range
    else return if negative then (2 ^ 64 - n) % 2 ^ 64 else n

/-- A signed number of `bits` bits in base 10. -/
def stosigned (bits : Nat) (s : Str) : Except Exception Int :=
  match signedDigits 10 s with
  | none => throw .invalid_argument
  | some (negative, n) =>
    let value : Int := if negative then -n else n
    if value < -2 ^ (bits - 1) ∨ value ≥ 2 ^ (bits - 1) then throw .out_of_range else return value

def stol (s : Str) : Except Exception Int := stosigned 64 s

def stoi (s : Str) : Except Exception Int := stosigned 32 s

/-- `atoi`: `strtol` in base 10, cut down to an `int`; zero without digits. -/
def atoi (s : Str) : Int :=
  match signedDigits 10 s with
  | none => 0
  | some (negative, n) =>
    let value : Int := if negative then -n else n
    (max (-2 ^ 63) (min value (2 ^ 63 - 1))).bmod (2 ^ 32)

example : stoul "81a4".toList 16 = .ok 0x81a4 := by decide

example : stoi "-12 x".toList = .ok (-12) := by decide

end Text
