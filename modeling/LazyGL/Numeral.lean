/-!
Numbers as written: readers of unsigned and signed numerals with an upper
bound, and a writer for bases up to sixteen. A reader goes from left to right
and names what is wrong first: at each character a stranger to the base comes
before a number that has become too large.
-/

namespace LazyGL.Numeral

inductive Fault
  | empty
  | invalidDigit
  | tooLarge
deriving DecidableEq

def Fault.message : Fault → String
  | .empty => "cannot parse integer from empty string"
  | .invalidDigit => "invalid digit found in string"
  | .tooLarge => "number too large to fit in target type"

/-- The value of a digit of either case in a base up to thirty-six. -/
def digit? (base : Nat) (c : Char) : Option Nat :=
  let value? :=
    if '0' ≤ c ∧ c ≤ '9' then some (c.toNat - '0'.toNat)
    else if 'a' ≤ c ∧ c ≤ 'z' then some (c.toNat - 'a'.toNat + 10)
    else if 'A' ≤ c ∧ c ≤ 'Z' then some (c.toNat - 'A'.toNat + 10)
    else none
  value?.filter (· < base)

/-- Goes on with a number whose digits so far have the value `value`, and
keeps it below `bound`. -/
def readDigits (base bound value : Nat) : List Char → Except Fault Nat
  | [] => .ok value
  | c :: rest =>
    match digit? base c with
    | none => .error .invalidDigit
    | some d =>
      if value * base + d < bound then readDigits base bound (value * base + d) rest
      else .error .tooLarge

/-- A number below `bound` with an optional plus sign. -/
def readUnsigned (base bound : Nat) : List Char → Except Fault Nat
  | [] => .error .empty
  | ['+'] => .error .invalidDigit
  | '+' :: rest => readDigits base bound 0 rest
  | chars => readDigits base bound 0 chars

/-- A number from `-bound` to below `bound` with an optional sign. -/
def readSigned (base bound : Nat) : List Char → Except Fault Int
  | ['-'] => .error .invalidDigit
  | '-' :: rest => (readDigits base (bound + 1) 0 rest).map fun n => -(n : Int)
  | chars => (readUnsigned base bound chars).map Int.ofNat

def hex (n : Nat) : List Char :=
  (Nat.toDigits 16 n).map Char.toUpper

def lowerHex (n : Nat) : List Char :=
  Nat.toDigits 16 n

def padZeros (width : Nat) (chars : List Char) : List Char :=
  List.replicate (width - chars.length) '0' ++ chars

end LazyGL.Numeral
