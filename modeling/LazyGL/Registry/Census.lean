import LazyGL.Log
import LazyGL.Registry.Basic

/-!
The size of a registry in five counts, and the least counts that a complete one
has. A registry below any of them has most likely been cut short.
-/

namespace LazyGL

/-- Five counts, of a registry or as a minimum. -/
structure Census where
  groups : Nat
  enums : Nat
  bitfields : Nat
  values : Nat
  commands : Nat
deriving DecidableEq

namespace Census

/-- The minima for the published registry, which is well above them. -/
def standard : Census := ⟨100, 2000, 100, 2500, 2000⟩

def named (census : Census) : List (String × Nat) :=
  [("groups", census.groups), ("enums", census.enums), ("bitfields", census.bitfields),
    ("values", census.values), ("commands", census.commands)]

end Census

def Registry.census (r : Registry) : Census :=
  { groups := r.groups.size
    enums := r.enums.length
    bitfields := r.bitfields.length
    values := r.enums.length + r.bitfields.length
    commands := r.commands.length }

structure Shortfall where
  what : String
  count : Nat
  minimum : Nat
deriving DecidableEq

def Shortfall.text (s : Shortfall) : String :=
  toString s.count ++ " " ++ s.what ++ " (want at least " ++ toString s.minimum ++ ")"

def Registry.shortfalls (r : Registry) (minima : Census) : List Shortfall :=
  (r.census.named.zip minima.named).filterMap fun ((what, count), (_, minimum)) =>
    if count < minimum then some ⟨what, count, minimum⟩ else none

def Shortfall.message (shortfalls : List Shortfall) : String :=
  "registry looks truncated: " ++ ", ".intercalate (shortfalls.map Shortfall.text)

def Registry.censusLog (r : Registry) : List Log.Entry :=
  r.census.named.map fun (what, count) => ⟨.debug, toString count ++ " " ++ what⟩

end LazyGL
