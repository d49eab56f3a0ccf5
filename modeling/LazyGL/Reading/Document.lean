import LazyGL.Markup.Transcript
import LazyGL.Reading.Draft

/-!
Reading a document: its events change a draft one after the other, while a
stack keeps the scopes of the open elements. The first fault decides, be it in
the meaning of an event or in the markup, and a document must not end inside an
element.
-/

namespace LazyGL.Reading

/-- A draft and the scopes around the next event, the innermost first. The last
scope is the document itself. -/
structure State where
  draft : Draft := { }
  scopes : List Scope := [.document]

namespace State

def top (s : State) : Scope := s.scopes.head?.getD .document

def step (s : State) : Markup.Event → Except Fault State
  | .start tag => do
    let scope := s.top.child tag.localName
    let draft ← s.draft.enter scope tag
    .ok ⟨draft, scope :: s.scopes⟩
  | .empty tag => do
    let scope := s.top.child tag.localName
    let draft ← s.draft.enter scope tag
    let draft ← draft.leave scope
    .ok ⟨draft, s.scopes⟩
  | .stop _ =>
    if s.top = .document then .error .strayStop
    else do
      let draft ← s.draft.leave s.top
      .ok ⟨draft, s.scopes.tail⟩
  | .text raw =>
    match Markup.meaning raw with
    | .error fault => .error (.text fault)
    | .ok text => do
      let draft ← s.draft.say s.top text
      .ok ⟨draft, s.scopes⟩
  | .cdata raw =>
    match Utf8.decode raw with
    | .error fault => .error (.verbatim fault)
    | .ok chars => do
      let draft ← s.draft.say s.top (String.ofList chars)
      .ok ⟨draft, s.scopes⟩
  | .comment _ => .ok s
  | .instruction _ => .ok s
  | .doctype _ => .ok s

def run (s : State) : List (Nat × Markup.Event) → Except DocumentFault State
  | [] => .ok s
  | (position, event) :: rest =>
    match s.step event with
    | .error fault => .error (.event position event fault)
    | .ok next => next.run rest

def finish (s : State) : Except DocumentFault Registry :=
  if s.scopes.length = 1 then .ok s.draft.registry
  else .error (.leftOpen (s.scopes.length - 1))

end State

def readTranscript (transcript : Markup.Transcript) : Except DocumentFault Registry := do
  let s ← State.run { } transcript.events
  match transcript.fault with
  | some (position, fault) => .error (.markup position fault)
  | none => s.finish

end LazyGL.Reading

namespace LazyGL

def Registry.ofDocument (input : Bytes) : Except Reading.DocumentFault Registry :=
  Reading.readTranscript (Markup.transcribe input)

end LazyGL
