import LazyGL.Markup.Event
import LazyGL.Registry.Availability

/-!
Why a document is no registry, and how that is reported. A report begins with
the event at fault and the position of its first byte.
-/

namespace LazyGL.Reading

inductive Fault
  | duplicateGroup (name : String)
  | duplicateEnum (name : String)
  | duplicateCommand (name : String)
  /-- An attribute is missing. -/
  | missing (key : String)
  | unknownBlockType (type : String)
  | nonNumeric (value name : String)
  | namelessCommand
  | namelessParam
  | unknownApi (name : String)
  /-- The number of a feature is no version. -/
  | number (fault : VersionFault)
  /-- An attribute cannot be read. -/
  | lookup (fault : Markup.LookupFault)
  /-- A text cannot be read. -/
  | text (fault : Markup.ValueFault)
  /-- A verbatim text is no text. -/
  | verbatim (fault : Utf8.Fault)
  | outsideCommand
  | outsideParam
  | memberOutsideGroup
  | entryOutsideBlock
  | commandOutsideExtension
  | commandOutsideFeature
  /-- An end tag where no element is open. -/
  | strayStop
deriving DecidableEq

def Fault.chain : Fault → List String
  | .duplicateGroup name => ["duplicate group: " ++ name]
  | .duplicateEnum name => ["duplicate enum: " ++ name]
  | .duplicateCommand name => ["duplicate command: " ++ name]
  | .missing key => [key ++ " is missing"]
  | .unknownBlockType type => ["unknown enum block type: " ++ Quoted.quote type]
  | .nonNumeric value name => ["non-numeric value " ++ Quoted.quote value ++ " for " ++ name]
  | .namelessCommand => ["command name is missing"]
  | .namelessParam => ["param name is missing"]
  | .unknownApi name => [ApiFamily.unknownMessage name]
  | .number fault => ["could not parse feature number", fault.message]
  | .lookup fault => fault.chain
  | .text fault => fault.chain
  | .verbatim fault => [fault.message]
  | .outsideCommand => ["not inside a command"]
  | .outsideParam => ["not inside a param"]
  | .memberOutsideGroup => ["group member outside of group"]
  | .entryOutsideBlock => ["enum outside of enum block"]
  | .commandOutsideExtension => ["command outside of extension"]
  | .commandOutsideFeature => ["command outside of feature"]
  | .strayStop => ["unexpected end tag"]

inductive DocumentFault
  /-- The document is not well formed. -/
  | markup (position : Nat) (fault : Markup.Fault)
  /-- An event has no meaning where it stands. -/
  | event (position : Nat) (event : Markup.Event) (fault : Fault)
  /-- The document ends inside some elements. -/
  | leftOpen (count : Nat)
deriving DecidableEq

/-- The outermost message about an event, if it has one. -/
def place (position : Nat) (event : Markup.Event) (fault : Fault) : Option String :=
  let near := " near byte " ++ toString position
  match event, fault with
  | .start tag, _ => some ("could not parse <" ++ Utf8.lossy tag.name ++ ">" ++ near)
  | .empty tag, _ => some ("could not parse <" ++ Utf8.lossy tag.name ++ "/>" ++ near)
  | .stop content, _ =>
      some ("could not parse </" ++ Utf8.lossy (Markup.endName content) ++ ">" ++ near)
  | .text _, .text _ => some ("malformed text" ++ near)
  | _, _ => none

def DocumentFault.chain : DocumentFault → List String
  | .markup position fault =>
      ("malformed document near byte " ++ toString position) :: fault.chain
  | .event position _ .strayStop => ["unexpected end tag near byte " ++ toString position]
  | .event position piece fault => (place position piece fault).toList ++ fault.chain
  | .leftOpen count =>
      ["unexpected end of document (" ++ toString count ++ " elements left open)"]

/-- The innermost cause of a fault, without its place. -/
def DocumentFault.cause : DocumentFault → Option Fault
  | .event _ _ fault => some fault
  | _ => none

end LazyGL.Reading
