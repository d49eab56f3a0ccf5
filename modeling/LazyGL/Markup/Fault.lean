import LazyGL.Numeral
import LazyGL.Text.Utf8

/-!
What can be wrong with marked-up text, from an unclosed construct to a value
with an unknown entity, and how each fault is reported. A report is a chain of
messages, the outermost first; a level that wraps another repeats its message.
-/

namespace LazyGL.Markup

inductive Construct
  | tag
  | comment
  | cdata
  | doctype
  | instruction
deriving DecidableEq

inductive Fault
  /-- A construct has no end. -/
  | unclosed (construct : Construct)
  /-- An exclamation mark is followed by nothing known. -/
  | unknownMarkup
  /-- An end tag names another element than the innermost open one. -/
  | mismatched (expected found : Bytes)
  /-- An end tag stands where no element is open. -/
  | unmatched (found : Bytes)
  /-- A document type declaration names no type. -/
  | namelessDoctype
deriving DecidableEq

/-- A name as messages show it, empty if it is no text. -/
def shownName (name : Bytes) : String :=
  match Utf8.decode name with
  | .ok chars => String.ofList chars
  | .error _ => ""

def Construct.unclosedMessage : Construct → String
  | .tag => "tag not closed: `>` not found before end of input"
  | .comment => "comment not closed: `-->` not found before end of input"
  | .cdata => "CDATA not closed: `]]>` not found before end of input"
  | .doctype => "DOCTYPE not closed: `>` not found before end of input"
  | .instruction =>
      "processing instruction or xml declaration not closed: `?>` not found before end of input"

def Fault.message : Fault → String
  | .unclosed construct => construct.unclosedMessage
  | .unknownMarkup => "unknown or missed symbol in markup"
  | .mismatched expected found =>
      "expected `</" ++ shownName expected ++ ">`, but `</" ++ shownName found ++ ">` was found"
  | .unmatched found => "close tag `</" ++ shownName found ++ ">` does not match any open tag"
  | .namelessDoctype => "`<!DOCTYPE>` declaration does not contain a name of a document type"

/-- Whether a fault lies in the delimiters and not in the nesting. -/
def Fault.isSyntactic : Fault → Bool
  | .unclosed _ => true
  | .unknownMarkup => true
  | _ => false

def Fault.chain (fault : Fault) : List String :=
  let kind := if fault.isSyntactic then "syntax error: " else "ill-formed document: "
  [kind ++ fault.message, fault.message]

/-- Why the attributes of a tag cannot be read on; positions count the bytes of
the tag's content. -/
inductive AttributeFault
  /-- A key is not followed by an equals sign. -/
  | noEquals (position : Nat)
  /-- The content ends where a value should begin. -/
  | noValue (position : Nat)
  /-- A value does not begin with a quote. -/
  | unquoted (position : Nat)
  /-- A value has no closing quote. -/
  | unclosedQuote (position : Nat) (quote : Char)
deriving DecidableEq

def AttributeFault.message : AttributeFault → String
  | .noEquals position =>
      "position " ++ toString position ++
        ": attribute key must be directly followed by `=` or space"
  | .noValue position =>
      "position " ++ toString position ++ ": `=` must be followed by an attribute value"
  | .unquoted position =>
      "position " ++ toString position ++ ": attribute value must be enclosed in `\"` or `'`"
  | .unclosedQuote position quote =>
      "position " ++ toString position ++ ": missing closing quote `" ++ String.singleton quote ++
        "` in attribute value"

/-- Why an entity cannot be resolved; offsets count the bytes of the text. -/
inductive EntityFault
  /-- The ampersand at `start` has no semicolon; the text ends at `stop`. -/
  | unterminated (start stop : Nat)
  /-- No entity has the given name, which stands from `start` to `stop`. -/
  | unknown (start stop : Nat) (name : String)
  /-- A character number has a sign. -/
  | sign
  /-- A character number cannot be read. -/
  | number (fault : Numeral.Fault)
  /-- A character number is zero. -/
  | zero
  /-- No character has the given number. -/
  | noCharacter (code : Nat)
deriving DecidableEq

def EntityFault.chain : EntityFault → List String
  | .unterminated start stop =>
      let message := "Error while escaping character at range " ++ toString start ++ ".." ++
        toString stop ++ ": Cannot find ';' after '&'"
      [message, message]
  | .unknown start stop name =>
      let message := "at " ++ toString start ++ ".." ++ toString stop ++
        ": unrecognized entity `" ++ name ++ "`"
      [message, message]
  | .sign => reference "unexpected number sign" []
  | .number fault => reference fault.message [fault.message]
  | .zero => reference "0x0 character is not permitted in XML" []
  | .noCharacter code => reference ("`" ++ toString code ++ "` is not a valid codepoint") []
where
  /-- The report of a faulty character reference. -/
  reference (message : String) (causes : List String) : List String :=
    let outer := "invalid character reference: " ++ message
    outer :: outer :: message :: causes

inductive ValueFault
  /-- It is no text. -/
  | encoding (fault : Utf8.Fault)
  /-- It has a bad entity. -/
  | entity (fault : EntityFault)
deriving DecidableEq

def ValueFault.chain : ValueFault → List String
  | .encoding fault =>
      let outer := "cannot decode input using UTF-8: " ++ fault.message
      [outer, outer, fault.message]
  | .entity fault => fault.chain

end LazyGL.Markup
