import LazyGL.Markup.Tag
import LazyGL.Text.Front

/-!
Events: the pieces that a document consists of, one after the other. An event
keeps every byte of its written form, so `Event.render` gives the form back,
and `Event.next` takes one event off the front of the input. Each kind of
markup has its own rule on which closing bracket ends it.
-/

namespace LazyGL.Markup

inductive Event
  /-- Text up to the next markup. -/
  | text (raw : Bytes)
  /-- Text that is taken as it stands. -/
  | cdata (raw : Bytes)
  | comment (body : Bytes)
  | instruction (body : Bytes)
  /-- A document type declaration, from its keyword on. -/
  | doctype (body : Bytes)
  | start (tag : Tag)
  /-- A self-closed tag. -/
  | empty (tag : Tag)
  /-- An end tag, given by what stands after its slash. -/
  | stop (content : Bytes)
deriving DecidableEq

def Event.render : Event → Bytes
  | .text raw => raw
  | .cdata raw => Utf8.ofString "<![CDATA[" ++ raw ++ Utf8.ofString "]]>"
  | .comment body => Utf8.ofString "<!--" ++ body ++ Utf8.ofString "-->"
  | .instruction body => Utf8.ofString "<?" ++ body ++ Utf8.ofString "?>"
  | .doctype body => Utf8.ofString "<!" ++ body ++ Utf8.ofString ">"
  | .start tag => Utf8.ofString "<" ++ tag.content ++ Utf8.ofString ">"
  | .empty tag => Utf8.ofString "<" ++ tag.content ++ Utf8.ofString "/>"
  | .stop content => Utf8.ofString "</" ++ content ++ Utf8.ofString ">"

/-- The name in an end tag: its content without the spaces at the end, unless
there is nothing but spaces. -/
def endName (content : Bytes) : Bytes :=
  match (content.reverse.dropWhile isSpace).reverse with
  | [] => content
  | name => name

/-- Which closing bracket ends a kind of markup: a state that follows the bytes
and says where a bracket closes. -/
structure Closer (σ : Type) where
  advance : σ → UInt8 → σ
  closes : σ → Bool

/-- Splits the input at the closing bracket, after the bytes `read` (the last
one first). -/
def Closer.cut {σ : Type} (closer : Closer σ) (state : σ) (read : Bytes) :
    Bytes → Option (Bytes × Bytes)
  | [] => none
  | b :: rest =>
    if b == '>'.toUInt8 && closer.closes state then some (read.reverse, rest)
    else closer.cut (closer.advance state b) (b :: read) rest

/-- A tag ends outside quotes; the state is the quote that is open. -/
def tagCloser : Closer (Option UInt8) where
  advance
    | none, b => if b == '"'.toUInt8 || b == '\''.toUInt8 then some b else none
    | some quote, b => if b == quote then none else some quote
  closes := Option.isNone

/-- A comment ends after two dashes that are not those it begins with; the
state counts the bytes and the dashes just read. -/
def commentCloser : Closer (Nat × Nat) where
  advance := fun (size, dashes) b => (size + 1, if b == '-'.toUInt8 then dashes + 1 else 0)
  closes := fun (size, dashes) => 4 ≤ size && 2 ≤ dashes

def cdataCloser : Closer Nat where
  advance brackets b := if b == ']'.toUInt8 then brackets + 1 else 0
  closes brackets := 2 ≤ brackets

def instructionCloser : Closer Bool where
  advance _ b := b == '?'.toUInt8
  closes marked := marked

/-- A document type declaration ends where its brackets are balanced; the state
counts those open. -/
def doctypeCloser : Closer Nat where
  advance depth b :=
    if b == '<'.toUInt8 then depth + 1 else if b == '>'.toUInt8 then depth - 1 else depth
  closes depth := depth == 0

def upperByte (b : UInt8) : UInt8 :=
  if 'a'.toUInt8 ≤ b ∧ b ≤ 'z'.toUInt8 then b - 32 else b

def nextCdata (input : Bytes) : Except Fault (Event × Bytes) :=
  match cdataCloser.cut 0 [] input with
  | none => .error (.unclosed .cdata)
  | some (body, rest) =>
    match afterFront? (Utf8.ofString "[CDATA[") body with
    | none => .error (.unclosed .cdata)
    | some raw => .ok (.cdata (raw.take (raw.length - 2)), rest)

def nextComment (input : Bytes) : Except Fault (Event × Bytes) :=
  match commentCloser.cut (0, 0) [] input with
  | none => .error (.unclosed .comment)
  | some (body, rest) =>
    match afterFront? (Utf8.ofString "--") body with
    | none => .error (.unclosed .comment)
    | some raw => .ok (.comment (raw.take (raw.length - 2)), rest)

def nextDoctype (input : Bytes) : Except Fault (Event × Bytes) :=
  match doctypeCloser.cut 0 [] input with
  | none => .error (.unclosed .doctype)
  | some (body, rest) =>
    if (body.take 7).map upperByte == Utf8.ofString "DOCTYPE" then
      if (body.drop 7).all isSpace then .error .namelessDoctype
      else .ok (.doctype body, rest)
    else .error (.unclosed .doctype)

def nextDeclaration (input : Bytes) : Except Fault (Event × Bytes) :=
  match input with
  | [] => .error .unknownMarkup
  | b :: _ =>
    if b == '['.toUInt8 then nextCdata input
    else if b == '-'.toUInt8 then nextComment input
    else if b == 'D'.toUInt8 || b == 'd'.toUInt8 then nextDoctype input
    else .error .unknownMarkup

/-- Takes an instruction, from after its first question mark on, which must not
be its last one too. -/
def nextInstruction (input : Bytes) : Except Fault (Event × Bytes) :=
  match instructionCloser.cut true [] input with
  | none => .error (.unclosed .instruction)
  | some ([], _) => .error (.unclosed .instruction)
  | some (body, rest) => .ok (.instruction (body.take (body.length - 1)), rest)

def nextStop (input : Bytes) : Except Fault (Event × Bytes) :=
  match tagCloser.cut none [] input with
  | none => .error (.unclosed .tag)
  | some (content, rest) => .ok (.stop content, rest)

def nextTag (input : Bytes) : Except Fault (Event × Bytes) :=
  match tagCloser.cut none [] input with
  | none => .error (.unclosed .tag)
  | some (content, rest) =>
    if content.getLast? == some '/'.toUInt8 then
      .ok (.empty ⟨content.take (content.length - 1)⟩, rest)
    else .ok (.start ⟨content⟩, rest)

def nextMarkup (input : Bytes) : Except Fault (Event × Bytes) :=
  match input with
  | [] => .error (.unclosed .tag)
  | b :: rest =>
    if b == '!'.toUInt8 then nextDeclaration rest
    else if b == '?'.toUInt8 then nextInstruction rest
    else if b == '/'.toUInt8 then nextStop rest
    else nextTag input

def Event.next (first : UInt8) (rest : Bytes) : Except Fault (Event × Bytes) :=
  if first == '<'.toUInt8 then nextMarkup rest
  else
    let isText := fun b : UInt8 => b != '<'.toUInt8
    .ok (.text (first :: rest.takeWhile isText), rest.dropWhile isText)

/-- What follows the closing bracket is shorter than the input. -/
theorem Closer.cut_length {σ : Type} {closer : Closer σ} {state : σ}
    {read input body rest : Bytes}
    (h : closer.cut state read input = some (body, rest)) :
    rest.length < input.length := by
  induction input generalizing state read with
  | nil => simp [Closer.cut] at h
  | cons b input ih =>
      rw [Closer.cut] at h
      split at h
      · simp_all
      · have := ih h
        simp only [List.length_cons]
        omega

theorem nextDeclaration_length {input rest : Bytes} {event : Event}
    (h : nextDeclaration input = .ok (event, rest)) : rest.length < input.length := by
  unfold nextDeclaration at h
  split at h
  · simp at h
  · split at h
    · unfold nextCdata at h
      split at h
      · simp at h
      · next hcut =>
          split at h <;> simp at h
          exact h.2 ▸ Closer.cut_length hcut
    · split at h
      · unfold nextComment at h
        split at h
        · simp at h
        · next hcut =>
            split at h <;> simp at h
            exact h.2 ▸ Closer.cut_length hcut
      · split at h
        · unfold nextDoctype at h
          split at h
          · simp at h
          · next hcut =>
              split at h
              · split at h <;> simp at h
                exact h.2 ▸ Closer.cut_length hcut
              · simp at h
        · simp at h

theorem nextInstruction_length {input rest : Bytes} {event : Event}
    (h : nextInstruction input = .ok (event, rest)) : rest.length < input.length := by
  unfold nextInstruction at h
  split at h
  · simp at h
  · simp at h
  · next hcut =>
      simp at h
      exact h.2 ▸ Closer.cut_length hcut

theorem nextStop_length {input rest : Bytes} {event : Event}
    (h : nextStop input = .ok (event, rest)) : rest.length < input.length := by
  unfold nextStop at h
  split at h
  · simp at h
  · next hcut =>
      simp at h
      exact h.2 ▸ Closer.cut_length hcut

theorem nextTag_length {input rest : Bytes} {event : Event}
    (h : nextTag input = .ok (event, rest)) : rest.length < input.length := by
  unfold nextTag at h
  split at h
  · simp at h
  · next hcut =>
      split at h <;> simp at h <;> exact h.2 ▸ Closer.cut_length hcut

theorem nextMarkup_length {input rest : Bytes} {event : Event}
    (h : nextMarkup input = .ok (event, rest)) : rest.length < input.length := by
  unfold nextMarkup at h
  split at h
  · simp at h
  · next b tail =>
      have htail : tail.length < (b :: tail).length := by simp
      split at h
      · exact Nat.lt_trans (nextDeclaration_length h) htail
      · split at h
        · exact Nat.lt_trans (nextInstruction_length h) htail
        · split at h
          · exact Nat.lt_trans (nextStop_length h) htail
          · exact nextTag_length h

/-- An event takes at least one byte off the input. -/
theorem Event.next_length {first : UInt8} {input rest : Bytes} {event : Event}
    (h : Event.next first input = .ok (event, rest)) :
    rest.length < (first :: input).length := by
  unfold Event.next at h
  split at h
  · have := nextMarkup_length h
    simp only [List.length_cons]
    omega
  · simp only [Except.ok.injEq, Prod.mk.injEq] at h
    have := (List.dropWhile_sublist (fun b : UInt8 => b != '<'.toUInt8) (l := input)).length_le
    rw [h.2] at this
    simp only [List.length_cons]
    omega

end LazyGL.Markup
