/-!
Bytes as text. A byte sequence is cut into pieces, each of them one character,
a run of bytes that begins no character, or a character that the end of the
input cuts short. Strict decoding refuses the first piece that is no character;
lossy decoding puts the replacement character in its place.
-/

namespace LazyGL

/-- A document, a file or a part of one before its characters are known. -/
abbrev Bytes := List UInt8

namespace Utf8

/-- How a byte sequence fails to be text; indices count bytes. -/
inductive Fault
  /-- The `width` bytes from `start` on begin no character. -/
  | invalid (start width : Nat)
  /-- The input ends inside the character that begins at `start`. -/
  | incomplete (start : Nat)
deriving DecidableEq

def Fault.message : Fault → String
  | .invalid start width =>
      "invalid utf-8 sequence of " ++ toString width ++ " bytes from index " ++ toString start
  | .incomplete start => "incomplete utf-8 byte sequence from index " ++ toString start

structure Pending where
  /-- The index of its first byte. -/
  start : Nat
  /-- The bytes read so far, the last one first. -/
  read : Bytes
  /-- How many bytes are still to come, one at least. -/
  owed : Nat
  /-- The bits of the code point that have been read. -/
  code : Nat
  /-- The least value that the next byte may have. -/
  least : UInt8
  /-- The greatest value that the next byte may have. -/
  greatest : UInt8
deriving DecidableEq

inductive Piece
  /-- A character. -/
  | char (c : Char)
  /-- Bytes that begin no character, from the given index on. -/
  | broken (start : Nat) (bytes : Bytes)
  /-- A character that begins at the given index and that the input cuts short. -/
  | cut (start : Nat) (bytes : Bytes)
deriving DecidableEq

inductive Lead
  /-- The byte is a character by itself. -/
  | whole (c : Char)
  /-- More bytes belong to the character. -/
  | pending (p : Pending)
  /-- No character begins with the byte. -/
  | none
deriving DecidableEq

/-- Reads the first byte of a character. The bounds on the second byte leave
out what has a shorter form, the surrogates and all above the last code
point. -/
def lead (index : Nat) (b : UInt8) : Lead :=
  if b < 0x80 then .whole (Char.ofNat b.toNat)
  else if b < 0xC2 then .none
  else if b < 0xE0 then .pending ⟨index, [b], 1, b.toNat % 32, 0x80, 0xBF⟩
  else if b < 0xF0 then
    .pending ⟨index, [b], 2, b.toNat % 16, if b = 0xE0 then 0xA0 else 0x80,
      if b = 0xED then 0x9F else 0xBF⟩
  else if b < 0xF5 then
    .pending ⟨index, [b], 3, b.toNat % 8, if b = 0xF0 then 0x90 else 0x80,
      if b = 0xF4 then 0x8F else 0xBF⟩
  else .none

def Pending.admits (p : Pending) (b : UInt8) : Bool :=
  p.least ≤ b && b ≤ p.greatest

def Pending.extend (p : Pending) (b : UInt8) : Nat :=
  p.code * 64 + b.toNat % 64

def Pending.next (p : Pending) (b : UInt8) : Pending :=
  ⟨p.start, b :: p.read, p.owed - 1, p.extend b, 0x80, 0xBF⟩

/-- Where the cutting of a byte sequence stands: the character that is
pending, if any, and the pieces so far, the last one first. -/
structure Cutter where
  pending : Option Pending
  pieces : List Piece
deriving DecidableEq

def Cutter.begin (index : Nat) (b : UInt8) (pieces : List Piece) : Cutter :=
  match lead index b with
  | .whole c => ⟨none, .char c :: pieces⟩
  | .pending p => ⟨some p, pieces⟩
  | .none => ⟨none, .broken index [b] :: pieces⟩

/-- Reads the byte at `index`. A byte that cannot go on with the pending
character breaks it off and is read anew as a first byte. -/
def Cutter.step (c : Cutter) (index : Nat) (b : UInt8) : Cutter :=
  match c.pending with
  | none => .begin index b c.pieces
  | some p =>
    if p.admits b then
      if p.owed ≤ 1 then ⟨none, .char (Char.ofNat (p.extend b)) :: c.pieces⟩
      else ⟨some (p.next b), c.pieces⟩
    else .begin index b (.broken p.start p.read.reverse :: c.pieces)

def Cutter.finish (c : Cutter) : List Piece :=
  match c.pending with
  | none => c.pieces.reverse
  | some p => (.cut p.start p.read.reverse :: c.pieces).reverse

def Cutter.run (c : Cutter) (index : Nat) : Bytes → List Piece
  | [] => c.finish
  | b :: rest => (c.step index b).run (index + 1) rest

def pieces (bytes : Bytes) : List Piece :=
  Cutter.run ⟨none, []⟩ 0 bytes

def charsOfPieces (read : List Char) : List Piece → Except Fault (List Char)
  | [] => .ok read.reverse
  | .char c :: rest => charsOfPieces (c :: read) rest
  | .broken start bytes :: _ => .error (.invalid start bytes.length)
  | .cut start _ :: _ => .error (.incomplete start)

def decode (bytes : Bytes) : Except Fault (List Char) :=
  charsOfPieces [] (pieces bytes)

def Piece.shown : Piece → Char
  | .char c => c
  | .broken .. => '\uFFFD'
  | .cut .. => '\uFFFD'

/-- The text of a byte sequence, with a replacement character for each piece
that is no character. -/
def lossy (bytes : Bytes) : String :=
  String.ofList ((pieces bytes).map Piece.shown)

def encode (chars : List Char) : Bytes :=
  chars.flatMap String.utf8EncodeChar

def ofString (text : String) : Bytes :=
  encode text.toList

end Utf8

end LazyGL
