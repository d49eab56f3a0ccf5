import LazyGL.Markup.Entity

/-!
Tags: what stands between the angle brackets begins with a name, up to the
first space, and goes on with attributes. The attributes are read from left to
right up to the first fault; looking one up meets the fault only if no
attribute before it has the key.
-/

namespace LazyGL.Markup

def isSpace (b : UInt8) : Bool :=
  b == ' '.toUInt8 || b == '\t'.toUInt8 || b == '\r'.toUInt8 || b == '\n'.toUInt8

/-- A start tag or a self-closed tag, given by what stands between its
brackets, less a final slash. -/
structure Tag where
  content : Bytes
deriving DecidableEq

def Tag.name (tag : Tag) : Bytes :=
  tag.content.takeWhile fun b => !isSpace b

/-- A name without the part up to its first colon. -/
def localPart (name : Bytes) : Bytes :=
  match name.dropWhile (· != ':'.toUInt8) with
  | [] => name
  | _ :: rest => rest

def Tag.localName (tag : Tag) : String :=
  Utf8.lossy (localPart tag.name)

structure Attribute where
  key : Bytes
  value : Bytes
deriving DecidableEq

/-- The attributes of a tag up to the first fault. -/
structure Attributes where
  found : List Attribute
  fault : Option AttributeFault
deriving DecidableEq

/-- Where the reading of attributes stands; keys and values are kept with their
last byte first. -/
inductive AttributeState
  | between
  | key (key : Bytes)
  | afterKey (key : Bytes)
  | beforeValue (key : Bytes)
  | value (key : Bytes) (quote : UInt8) (value : Bytes)
deriving DecidableEq

/-- Reads on at `position` of the content. The first byte of a key is taken
whatever it is. -/
def Attributes.readFrom (position : Nat) (found : List Attribute) (state : AttributeState) :
    Bytes → Attributes
  | [] =>
    match state with
    | .between => ⟨found.reverse, none⟩
    | .key _ => ⟨found.reverse, some (.noEquals position)⟩
    | .afterKey _ => ⟨found.reverse, some (.noEquals position)⟩
    | .beforeValue _ => ⟨found.reverse, some (.noValue position)⟩
    | .value _ quote _ => ⟨found.reverse, some (.unclosedQuote position (Char.ofNat quote.toNat))⟩
  | b :: rest =>
    match state with
    | .between =>
      if isSpace b then readFrom (position + 1) found .between rest
      else readFrom (position + 1) found (.key [b]) rest
    | .key key =>
      if b == '='.toUInt8 then readFrom (position + 1) found (.beforeValue key) rest
      else if isSpace b then readFrom (position + 1) found (.afterKey key) rest
      else readFrom (position + 1) found (.key (b :: key)) rest
    | .afterKey key =>
      if b == '='.toUInt8 then readFrom (position + 1) found (.beforeValue key) rest
      else if isSpace b then readFrom (position + 1) found (.afterKey key) rest
      else ⟨found.reverse, some (.noEquals position)⟩
    | .beforeValue key =>
      if b == '"'.toUInt8 || b == '\''.toUInt8 then
        readFrom (position + 1) found (.value key b []) rest
      else if isSpace b then readFrom (position + 1) found (.beforeValue key) rest
      else ⟨found.reverse, some (.unquoted position)⟩
    | .value key quote value =>
      if b == quote then
        readFrom (position + 1) (⟨key.reverse, value.reverse⟩ :: found) .between rest
      else readFrom (position + 1) found (.value key quote (b :: value)) rest

def Tag.attributes (tag : Tag) : Attributes :=
  let name := tag.name
  Attributes.readFrom name.length [] .between (tag.content.drop name.length)

inductive LookupFault
  /-- The attributes up to it cannot be read. -/
  | unread (fault : AttributeFault)
  /-- Its value has no meaning. -/
  | value (fault : ValueFault)
deriving DecidableEq

def LookupFault.chain : LookupFault → List String
  | .unread fault => [fault.message]
  | .value fault => fault.chain

def Tag.attribute? (tag : Tag) (key : String) : Except LookupFault (Option String) :=
  let attributes := tag.attributes
  match attributes.found.find? (·.key == Utf8.ofString key) with
  | some found =>
    match meaning found.value with
    | .ok text => .ok (some text)
    | .error fault => .error (.value fault)
  | none =>
    match attributes.fault with
    | some fault => .error (.unread fault)
    | none => .ok none

end LazyGL.Markup
