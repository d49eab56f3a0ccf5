import LazyGL.Numeral
import LazyGL.Text.Blank

/-!
Values as written in a registry: decimal with an optional sign or hexadecimal
after `0x`, with blanks around. They are 64 bits wide, and a pattern above the
greatest signed number keeps its bits. Each kind of value has a canonical form.
-/

namespace LazyGL.Literal

def hexadecimal? (digits : List Char) : Option Int64 :=
  (Numeral.readUnsigned 16 UInt64.size digits).toOption.map Int64.ofNat

def decimal? (chars : List Char) : Option Int64 :=
  match Numeral.readSigned 10 0x8000000000000000 chars with
  | .ok n => some (Int64.ofInt n)
  | .error _ => (Numeral.readUnsigned 10 UInt64.size chars).toOption.map Int64.ofNat

def value? (text : String) : Option Int64 :=
  match Blank.trimChars text.toList with
  | '0' :: 'x' :: digits => hexadecimal? digits
  | '0' :: 'X' :: digits => hexadecimal? digits
  | chars => decimal? chars

/-- The width of a plain value with the given number of hexadecimal digits:
four, eight, or all of them. -/
def plainWidth (digits : Nat) : Nat :=
  if digits ≤ 4 then 4 else if digits ≤ 8 then 8 else digits

/-- The canonical form of a plain value: decimal if negative, else hexadecimal.
All 32 bits set is minus one. -/
def canonicalPlain (value : Int64) : String :=
  let n := value.toInt
  if n = -1 ∨ n = 0xFFFFFFFF then "-1"
  else if n < 0 then toString n
  else
    let digits := Numeral.hex n.toNat
    "0x" ++ String.ofList (Numeral.padZeros (plainWidth digits.length) digits)

/-- The bits of a mask: 32 of them for a negative number that fits, else 64. -/
def maskBits (value : Int64) : Nat :=
  let n := value.toInt
  if n < 0 ∧ -0x80000000 ≤ n then (n + 0x100000000).toNat
  else (n % 0x10000000000000000).toNat

/-- The canonical form of a mask: hexadecimal with eight digits or more. -/
def canonicalMask (value : Int64) : String :=
  "0x" ++ String.ofList (Numeral.padZeros 8 (Numeral.hex (maskBits value)))

end LazyGL.Literal
