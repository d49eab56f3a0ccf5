import LazyGL.Generation

/-!
The command line: the name of the program, one argument, the root directory, and a
variable for the verbosity of the log. A failure is reported with all its causes.
-/

namespace LazyGL.CommandLine

def logVariable : String := "GL_LOADER_GENERATOR_LOG"

inductive SettingFault
  | unknownLevel (name : String)
  | notText (value : Bytes)
deriving DecidableEq

def SettingFault.chain : SettingFault → List String
  | .unknownLevel name =>
      ["invalid " ++ logVariable ++ ": " ++ Quoted.quote name,
        "attempted to convert a string that doesn't match an existing log level"]
  | .notText value =>
      ["invalid " ++ logVariable,
        "environment variable was not valid unicode: " ++ Quoted.quoteBytes value]

def logFilter : Option Bytes → Except SettingFault Log.Filter
  | none => .ok (.upTo .info)
  | some value =>
    match Utf8.decode value with
    | .error _ => .error (.notText value)
    | .ok chars =>
      let name := String.ofList chars
      match Log.Filter.ofName? name with
      | none => .error (.unknownLevel name)
      | some filter => .ok filter

/-- The lines of a text, all behind a margin; the first margin may differ. -/
def indent (first others text : String) : List String :=
  match (text.toList.splitOn '\n').map String.ofList with
  | [] => [first]
  | line :: lines => (first ++ line) :: lines.map (others ++ ·)

/-- The lines about the causes of a failure: a single one stands alone, several
ones are numbered. -/
def causeLines : List String → List String
  | [] => []
  | [cause] => ["", "Caused by:"] ++ indent "    " "    " cause
  | causes =>
    ["", "Caused by:"] ++ causes.zipIdx.flatMap fun (cause, index) =>
      let number := toString index
      let margin := String.ofList (List.replicate (5 - number.length) ' ')
      indent (margin ++ number ++ ": ") "       " cause

def reportLines : List String → List String
  | [] => []
  | outermost :: causes => indent "error: " "" outermost ++ causeLines causes

def defaultName : String := "gl-loader-generator"

def usage (program : String) : List String :=
  ["usage: " ++ program ++ " <root>", "reads <root>/gl.xml and writes <root>/generated/*.rs"]

def readArgument (argument : Bytes) : Except Bytes String :=
  match Utf8.decode argument with
  | .ok chars => .ok (String.ofList chars)
  | .error _ => .error argument

/-- The message about an argument that is no text. It stands alone here, without
the place in the code where the program broke off. -/
def brokenOff (argument : Bytes) : String :=
  "called `Result::unwrap()` on an `Err` value: " ++ Quoted.quoteBytes argument

section

variable {m : Type → Type} [Monad m] [Files m] [Console m]

def complainAll (lines : List String) : m Unit := lines.forM Console.complain

def runAt (root : String) (setting : Option Bytes) : m UInt32 := do
  match logFilter setting with
  | .error fault =>
    complainAll (reportLines fault.chain)
    return 1
  | .ok filter =>
    let generation : ExceptT Failure (Filtered m) Unit := Generation.generate (.ofRoot ⟨root⟩)
    match ← generation.run.run filter with
    | .ok () => return 0
    | .error failure =>
      complainAll (reportLines failure.chain)
      return 1

/-- Runs the program with the given arguments, its name before them, and the given
setting of the log. -/
def run (arguments : List Bytes) (setting : Option Bytes) : m UInt32 := do
  match arguments.mapM readArgument with
  | .error argument =>
    complainAll [brokenOff argument]
    return 101
  | .ok [_, root] => runAt root setting
  | .ok texts =>
    complainAll (usage (texts.head?.getD defaultName))
    return 2

end

end LazyGL.CommandLine
