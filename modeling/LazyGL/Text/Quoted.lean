import LazyGL.Numeral
import LazyGL.Text.Extending
import LazyGL.Text.Invisible
import LazyGL.Text.Utf8

/-!
Text in double quotes, as messages show it: quotes, backslashes and characters
that cannot be seen are escaped. Bytes that are no text are shown in
hexadecimal.
-/

namespace LazyGL.Quoted

def isHidden (c : Char) : Bool :=
  !(' ' ≤ c && c ≤ '~') && (Extending.isExtending c || Invisible.isInvisible c)

def escape (c : Char) : List Char :=
  if c = '"' then ['\\', '"']
  else if c = '\\' then ['\\', '\\']
  else if c = '\n' then ['\\', 'n']
  else if c = '\r' then ['\\', 'r']
  else if c = '\t' then ['\\', 't']
  else if c = '\x00' then ['\\', '0']
  else if isHidden c then ['\\', 'u', '\x7b'] ++ Numeral.lowerHex c.toNat ++ ['\x7d']
  else [c]

def quote (text : String) : String :=
  String.ofList ('"' :: (text.toList.flatMap escape ++ ['"']))

def escapeByte (b : UInt8) : List Char :=
  ['\\', 'x'] ++ Numeral.padZeros 2 (Numeral.hex b.toNat)

def escapePiece : Utf8.Piece → List Char
  | .char c => escape c
  | .broken _ bytes => bytes.flatMap escapeByte
  | .cut _ bytes => bytes.flatMap escapeByte

def quoteBytes (bytes : Bytes) : String :=
  String.ofList ('"' :: ((Utf8.pieces bytes).flatMap escapePiece ++ ['"']))

end LazyGL.Quoted
