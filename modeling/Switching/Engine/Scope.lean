/-!
# Local scopes

* `Scope`: names with their bits, each name once.
* `Scope.bind`: binds a name, in place of an earlier binding of it.
-/

namespace Switching

/-- Names with their bits. The empty scope is that of statements outside every function. -/
structure Scope where
  bindings : List (String × Bool)
  deriving DecidableEq

namespace Scope

/-- The scope outside every function. -/
def empty : Scope := ⟨[]⟩

def isEmpty (s : Scope) : Bool := s.bindings.isEmpty

def size (s : Scope) : Nat := s.bindings.length

def get? (s : Scope) (name : String) : Option Bool := s.bindings.lookup name

/-- Binds a name, in place of an earlier binding of it. -/
def bind (s : Scope) (name : String) (b : Bool) : Scope :=
  if (s.get? name).isSome then ⟨s.bindings.map fun p => if p.1 = name then (name, b) else p⟩
  else ⟨s.bindings ++ [(name, b)]⟩

def ofList (bindings : List (String × Bool)) : Scope :=
  bindings.foldl (fun s (name, b) => s.bind name b) empty

/-- Binds each name to the bit in its place. The names are taken to be distinct. -/
def zip (names : List String) (bits : List Bool) : Scope := ⟨names.zip bits⟩

end Scope

end Switching
