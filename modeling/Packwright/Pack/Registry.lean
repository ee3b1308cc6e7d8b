import Packwright.Diagnostic.Fault
import Packwright.Pack.Function

/-!
# Generated functions

The registry holds the functions the compiler generates, in families called features. Each feature
counts the numbers given out under its name, in a word of 32 bits; a counter never goes back. Entries
are kept in the order of their registration and listed by feature and name.

## Main definitions

- `Registry` — the generated functions and the counters
- `Registry.counter`, `Registry.isSpent` — the counter of a feature, and whether it can count on
- `Registry.nextId` — takes the next number of a feature
- `Registry.insert`, `Registry.insertNext` — registers a function
- `Registry.inOrder` — the functions sorted by feature and name
-/

namespace Packwright

/-- The generated functions and the counters of their features. -/
structure Registry where
  counters : List (String × UInt32) := []
  entries : List ((String × String) × PackFunction) := []
  deriving DecidableEq, Repr, Inhabited

namespace Registry

/-- The counter of a feature. -/
def counter (r : Registry) (feature : String) : UInt32 := (r.counters.lookup feature).getD 0

/-- The number the next function of a feature gets. -/
def peekId (r : Registry) (feature : String) : Nat := (r.counter feature).toNat

/-- Whether the counter of a feature holds the greatest number of 32 bits. Counting on would overflow,
which stops the program. -/
def isSpent (r : Registry) (feature : String) : Bool := UInt32.size ≤ r.peekId feature + 1

/-- Sets the counter of a feature. -/
def setCounter (r : Registry) (feature : String) (n : UInt32) : Registry :=
  { r with counters := (feature, n) :: r.counters.filter (·.1 ≠ feature) }

/-- Takes the next number of a feature, as long as its counter is not spent. -/
def nextId (r : Registry) (feature : String) : Nat × Registry :=
  (r.peekId feature, r.setCounter feature (r.counter feature + 1))

/-- Looks up a function by feature and name. -/
def get? (r : Registry) (feature name : String) : Option PackFunction :=
  r.entries.lookup (feature, name)

/-- Whether a function is registered. -/
def contains (r : Registry) (feature name : String) : Bool := (r.get? feature name).isSome

/-- Registers a function under a name that is free. -/
def insert (r : Registry) (feature name : String) (commands : List Command) :
    Except Cause (FunctionPath × Registry) :=
  let path := FunctionPath.generated feature name
  if r.contains feature name then .error (.privateDefined path.text)
  else .ok (path, { r with entries := r.entries ++ [((feature, name), ⟨path, commands⟩)] })

/-- Registers a function under the next number of its feature, as long as the counter is not spent;
the number is taken even when the name is not free. -/
def insertNext (r : Registry) (feature : String) (commands : List Command) :
    Except Cause FunctionPath × Registry :=
  let (id, r) := r.nextId feature
  match r.insert feature (toString id) commands with
  | .ok (path, r) => (.ok path, r)
  | .error cause => (.error cause, r)

/-- Changes a registered function. -/
def update (r : Registry) (feature name : String) (f : PackFunction → PackFunction) : Registry :=
  { r with entries := r.entries.map fun (key, fn) =>
      if key = (feature, name) then (key, f fn) else (key, fn) }

/-- Takes a function out. -/
def erase (r : Registry) (feature name : String) : Registry :=
  { r with entries := r.entries.filter (·.1 ≠ (feature, name)) }

/-- The order of pairs of names: by the first, then by the second, both by code points. -/
def keyLe (a b : String × String) : Bool :=
  a.1 < b.1 || (a.1 = b.1 && !(b.2 < a.2))

/-- The entries sorted by feature and name. -/
def sorted (r : Registry) : List ((String × String) × PackFunction) :=
  r.entries.mergeSort fun a b => keyLe a.1 b.1

/-- All functions, sorted by feature and name. -/
def inOrder (r : Registry) : List PackFunction := r.sorted.map Prod.snd

/-- The functions of one feature, sorted by name. -/
def ofFeature (r : Registry) (feature : String) : List PackFunction :=
  (r.sorted.filter (·.1.1 = feature)).map Prod.snd

/-- Number of registered functions. -/
def size (r : Registry) : Nat := r.entries.length

end Registry

end Packwright
