/-!
A leveled log: entries with a level each, and filters that show the entries
that are at least as severe as a given level.
-/

namespace LazyGL.Log

inductive Level
  | error
  | warn
  | info
  | debug
  | trace
deriving DecidableEq

def Level.name : Level → String
  | .error => "ERROR"
  | .warn => "WARN"
  | .info => "INFO"
  | .debug => "DEBUG"
  | .trace => "TRACE"

/-- How verbose a level is; the most severe one comes first. -/
def Level.rank : Level → Nat
  | .error => 1
  | .warn => 2
  | .info => 3
  | .debug => 4
  | .trace => 5

structure Entry where
  level : Level
  text : String
deriving DecidableEq

inductive Filter
  | off
  | upTo (level : Level)
deriving DecidableEq

def Filter.name : Filter → String
  | .off => "OFF"
  | .upTo level => level.name

def Filter.admits : Filter → Level → Bool
  | .off, _ => false
  | .upTo limit, level => level.rank ≤ limit.rank

def Filter.all : List Filter :=
  [.off, .upTo .error, .upTo .warn, .upTo .info, .upTo .debug, .upTo .trace]

/-- The filter with the given name; the case of ASCII letters does not matter. -/
def Filter.ofName? (name : String) : Option Filter :=
  all.find? fun filter => filter.name.toList == name.toList.map Char.toUpper

/-- An entry as one line: the level, padded to five characters, and the text. The
place in the code, which is printed behind the level, is left out. -/
def Entry.line (entry : Entry) : String :=
  let name := entry.level.name
  name ++ String.ofList (List.replicate (5 - name.length) ' ') ++ " > " ++ entry.text

end LazyGL.Log
