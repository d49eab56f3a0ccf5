import LazyGL.Markup.Event

/-!
Transcripts: the events of a document in order, each with the position of its
first byte, up to the end of the document or to the first place where it is not
well formed. End tags are checked here against the names of the open elements,
so a transcript never has an end tag that closes another element than the
innermost open one.
-/

namespace LazyGL.Markup

/-- What a document says, and where it breaks off, if it does. -/
structure Transcript where
  events : List (Nat × Event)
  fault : Option (Nat × Fault)
deriving DecidableEq

/-- The names of the open elements after an event, the innermost first. -/
def nest (opened : List Bytes) : Event → Except Fault (List Bytes)
  | .start tag => .ok (tag.name :: opened)
  | .stop content =>
    match opened with
    | [] => .error (.unmatched (endName content))
    | name :: outer =>
      if name = endName content then .ok outer
      else .error (.mismatched name (endName content))
  | _ => .ok opened

/-- Reads on at `position`, inside the elements `opened`, after the events
`read` (the last one first). -/
def transcribeFrom (position : Nat) (opened : List Bytes) (read : List (Nat × Event)) :
    Bytes → Transcript
  | [] => ⟨read.reverse, none⟩
  | b :: input =>
    match _h : Event.next b input with
    | .error fault => ⟨read.reverse, some (position, fault)⟩
    | .ok (event, rest) =>
      match nest opened event with
      | .error fault => ⟨read.reverse, some (position, fault)⟩
      | .ok opened =>
        transcribeFrom (position + event.render.length) opened ((position, event) :: read) rest
termination_by input => input.length
decreasing_by exact Event.next_length _h

def dropMark (input : Bytes) : Bytes :=
  match input with
  | 0xEF :: 0xBB :: 0xBF :: rest => rest
  | _ => input

/-- The transcript of a document; positions do not count a byte order mark. -/
def transcribe (input : Bytes) : Transcript :=
  transcribeFrom 0 [] [] (dropMark input)

end LazyGL.Markup
