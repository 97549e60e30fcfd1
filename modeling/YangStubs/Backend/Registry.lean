import YangStubs.Backend.Basic
import YangStubs.Log

/-! # Registries of backends

Backends are registered under their names, in which case does not count.  A backend can be registered
only if the very backend it derives from is.
-/

namespace YangStubs.Backend

open YangStubs.Text

structure Registry where
  /-- By lower-case name. -/
  entries : List (String × Backend)
  next : Nat

namespace Registry

/-- The registry that holds only the backend all others derive from. -/
def new : Registry :=
  ⟨[(defaultName, Backend.root 0)], 1⟩

def key (name : String) : String :=
  String.ofList (lower name.toList)

def get? (registry : Registry) (name : String) : Option Backend :=
  registry.entries.lookup (key name)

def names (registry : Registry) : List String :=
  registry.entries.map (·.2.name)

/-- A backend of its own that all others could derive from. -/
def freshRoot (registry : Registry) : Backend × Registry :=
  (Backend.root registry.next, { registry with next := registry.next + 1 })

def derive? (registry : Registry) (name parent : String) : Except BackendError Draft :=
  match registry.get? parent with
  | some backend => .ok (Draft.ofParent name backend)
  | none => .error (.unknownParent parent)

def build (registry : Registry) (draft : Draft) : Except BackendError (Backend × Registry) := do
  let backend ← draft.build registry.next
  return (backend, { registry with next := registry.next + 1 })

def holdsParent (registry : Registry) (parent : Backend) : Bool :=
  (registry.get? parent.name).any (·.own.serial == parent.own.serial)

def register (registry : Registry) (backend : Backend) : Except BackendError (Registry × Log) :=
  if (registry.entries.lookup (key backend.name)).isSome then .error (.duplicate backend.name)
  else
    match backend.parent? with
    | some parent =>
      if registry.holdsParent parent then .ok (insert registry backend)
      else .error (.unknownParent parent.name)
    | none => .ok (insert registry backend)
where
  insert (registry : Registry) (backend : Backend) : Registry × Log :=
    ({ registry with entries := registry.entries ++ [(key backend.name, backend)] },
     [⟨.debug, .backends, "registered wool " ++ quoted backend.name⟩])

end Registry

end YangStubs.Backend
