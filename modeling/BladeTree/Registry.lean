namespace BladeTree

structure Registration where
  id : UInt8
  owner : String
  name : String
  label : Option String
  deriving DecidableEq, Repr

def Registration.display (r : Registration) : String :=
  r.label.getD (r.owner ++ "::" ++ r.name)

inductive RegistryError where
  | exhausted (capacity : Nat)
  | invalidKey (owner name : String)
  deriving DecidableEq, Repr

def RegistryError.message : RegistryError → String
  | .exhausted capacity => s!"extension id space exhausted ({capacity} slots)"
  | .invalidKey owner name => "invalid extension key `" ++ owner ++ "::" ++ name ++ "`"

structure Registry where
  first : UInt8
  last : UInt8
  first_le_last : first ≤ last
  entries : Array Registration

namespace Registry

def new? (first last : UInt8) : Option Registry :=
  if h : first ≤ last then some ⟨first, last, h, #[]⟩ else none

def capacity (r : Registry) : Nat := r.last.toNat - r.first.toNat + 1

def find? (r : Registry) (owner name : String) : Option Registration :=
  r.entries.find? fun e => e.owner == owner && e.name == name

/-- Claims the next free id, or answers with the id the name already has. -/
def register (r : Registry) (owner name : String) (label : Option String) :
    Except RegistryError (UInt8 × Registry) :=
  if owner.isEmpty || name.isEmpty then .error (.invalidKey owner name)
  else match r.find? owner name with
  | some e => .ok (e.id, r)
  | none =>
    if r.entries.size ≥ r.capacity then .error (.exhausted r.capacity)
    else
      let id := r.first + r.entries.size.toUInt8
      .ok (id, { r with entries := r.entries.push ⟨id, owner, name, label⟩ })

def lookup (r : Registry) (owner name : String) : Option UInt8 :=
  (r.find? owner name).map (·.id)

def get? (r : Registry) (id : UInt8) : Option Registration :=
  if id < r.first || id > r.last then none else r.entries[(id - r.first).toNat]?

def contains (r : Registry) (id : UInt8) : Bool := (r.get? id).isSome

def size (r : Registry) : Nat := r.entries.size

def isEmpty (r : Registry) : Bool := r.entries.isEmpty

def toList (r : Registry) : List Registration := r.entries.toList

/-- The ids left to extensions. -/
def extensions : Registry := ⟨128, 255, by decide, #[]⟩

def extensionPlace (id : Nat) : Fin 128 := Fin.ofNat 128 (id - 128)

end Registry
end BladeTree
