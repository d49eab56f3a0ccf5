import LazyGL.Markup.Fault

/-!
Entities: an ampersand, a name and a semicolon stand for one character. The
meaning of a raw text is found in one pass, so that what an entity stands for
is never read again as an entity.
-/

namespace LazyGL.Markup

/-- The character that a number stands for, given in decimal or, after `x`, in
hexadecimal. -/
def numberedCharacter (chars : List Char) : Except EntityFault Char :=
  let (base, digits) :=
    match chars with
    | 'x' :: rest => (16, rest)
    | _ => (10, chars)
  match digits with
  | '+' :: _ => .error .sign
  | '-' :: _ => .error .sign
  | _ =>
    match Numeral.readUnsigned base UInt32.size digits with
    | .error fault => .error (.number fault)
    | .ok 0 => .error .zero
    | .ok code =>
      if (code < 0xD800) ∨ (0xDFFF < code ∧ code < 0x110000) then .ok (Char.ofNat code)
      else .error (.noCharacter code)

/-- The character that an entity stands for; its name goes from `start` to
`stop`. -/
def entity (start stop : Nat) (name : List Char) : Except EntityFault Char :=
  match name with
  | '#' :: number => numberedCharacter number
  | _ =>
    match String.ofList name with
    | "lt" => .ok '<'
    | "gt" => .ok '>'
    | "amp" => .ok '&'
    | "apos" => .ok '\''
    | "quot" => .ok '"'
    | other => .error (.unknown start stop other)

/-- Reads on after the characters `read` (the last one first), inside an entity
if `pending` gives the offset of its ampersand and its name so far. -/
def unescapeFrom (stop offset : Nat) (read : List Char) (pending : Option (Nat × List Char)) :
    List Char → Except EntityFault (List Char)
  | [] =>
    match pending with
    | none => .ok read.reverse
    | some (start, _) => .error (.unterminated start stop)
  | c :: rest =>
    let next := offset + c.utf8Size
    match pending with
    | none =>
      if c = '&' then unescapeFrom stop next read (some (offset, [])) rest
      else unescapeFrom stop next (c :: read) none rest
    | some (start, name) =>
      if c = ';' then
        match entity (start + 1) offset name.reverse with
        | .ok meant => unescapeFrom stop next (meant :: read) none rest
        | .error fault => .error fault
      else if c = '&' then .error (.unterminated start stop)
      else unescapeFrom stop next read (some (start, c :: name)) rest

def unescape (chars : List Char) : Except EntityFault (List Char) :=
  unescapeFrom (Utf8.encode chars).length 0 [] none chars

def meaning (raw : Bytes) : Except ValueFault String :=
  match Utf8.decode raw with
  | .error fault => .error (.encoding fault)
  | .ok chars =>
    match unescape chars with
    | .error fault => .error (.entity fault)
    | .ok meant => .ok (String.ofList meant)

end LazyGL.Markup
