import AwkToPython.Name

/-!
# Namespaces

A namespace scopes names that contain a lower-case letter. It decides two
leads: the one a name's key has in the symbol table, and the one its Python
attribute has. A registry keeps the namespaces met so far, one per name, and
which of them is current.
-/
namespace AwkToPython

/-- A namespace is its name; all else follows from it. -/
structure Namespace where
  name : String
deriving DecidableEq, Repr, Inhabited

namespace Namespace

/-- Every program starts in this namespace. -/
def default : Namespace := ⟨"awk"⟩

/-- Holds the variables and functions that the generated program's support
module provides. -/
def provided : Namespace := ⟨"awkpy"⟩

def isDefault (space : Namespace) : Bool := space = default

def pythonLead (space : Namespace) : String :=
  if space.isDefault then "self." else "self." ++ space.name ++ "__"

def keyLead (space : Namespace) : String :=
  if space.isDefault then "" else space.name ++ Name.separator

def key (space : Namespace) (name : String) : String := space.keyLead ++ name

def pythonName (space : Namespace) (name : String) : String :=
  space.pythonLead ++ Name.python name

end Namespace

/-- The namespaces met so far, in the order they were met, and the current one. -/
structure Registry where
  spaces : List Namespace
  current : Namespace
deriving DecidableEq, Repr, Inhabited

namespace Registry

def initial : Registry :=
  { spaces := [Namespace.provided, Namespace.default], current := Namespace.default }

def meet (r : Registry) (space : Namespace) : Registry :=
  if r.spaces.contains space then r else { r with spaces := r.spaces ++ [space] }

def setCurrent (r : Registry) (space : Namespace) : Registry :=
  { r.meet space with current := space }

/-- The namespace that a name as written belongs to: its scope, the default one
if it has no lower-case letter, else the current one. -/
def namespaceFor (r : Registry) (name : String) : Namespace :=
  match Name.qualified? name with
  | some (scope, _) => ⟨scope⟩
  | none => if Name.isAllUpper name then Namespace.default else r.current

/-- The namespace and the bare name that a written name stands for. Unlike
`namespaceFor`, a scope before a name without lower-case letters is ignored. -/
def resolve (r : Registry) (name : String) : Namespace × String :=
  match Name.qualified? name with
  | some (scope, bare) =>
    (if Name.isAllUpper bare then Namespace.default else ⟨scope⟩, bare)
  | none => (r.namespaceFor name, name)

end Registry

end AwkToPython
