import BladeTree.Node.Basic

namespace BladeTree

/-- Sets the value of a key, in place if the key is there and at the end if not. -/
def putKey [BEq κ] (key : κ) (value : ν) : List (κ × ν) → List (κ × ν)
  | [] => [(key, value)]
  | (k, v) :: rest => if k == key then (k, value) :: rest else (k, v) :: putKey key value rest

inductive MetaValue where
  | int (n : Int)
  | str (s : String)
  | bool (b : Bool)
  deriving DecidableEq, Repr

/-- Why a node was closed without its own end. -/
inductive ClosedBy where
  /-- A following start tag implies the end. -/
  | sibling
  /-- The end of the parent implies the end. -/
  | parentEnd
  /-- The closing tag of an ancestor. -/
  | mismatch
  | eof
  | unterminatedStartTag
  /-- A directive that ends or divides an enclosing block. -/
  | directiveEnd
  deriving DecidableEq, Repr

namespace ClosedBy

def all : List ClosedBy :=
  [sibling, parentEnd, mismatch, eof, unterminatedStartTag, directiveEnd]

def name : ClosedBy → String
  | sibling => "sibling"
  | parentEnd => "parent-end"
  | mismatch => "mismatch"
  | eof => "eof"
  | unterminatedStartTag => "unterminated-start-tag"
  | directiveEnd => "directive-end"

def ofName? (s : String) : Option ClosedBy := all.find? (·.name == s)

def isImplied : ClosedBy → Bool
  | sibling | parentEnd => true
  | _ => false

end ClosedBy

structure Metadata where
  nodes : List (Nat × List (String × MetaValue))

namespace Metadata

def empty : Metadata := ⟨[]⟩

def entries (m : Metadata) (id : Nat) : List (String × MetaValue) :=
  (m.nodes.lookup id).getD []

def get? (m : Metadata) (id : Nat) (key : String) : Option MetaValue :=
  (m.entries id).lookup key

def set (m : Metadata) (id : Nat) (key : String) (value : MetaValue) : Metadata :=
  ⟨putKey id (putKey key value (m.entries id)) m.nodes⟩

def isEmpty (m : Metadata) : Bool := m.nodes.isEmpty

/-- Tokens from the start of an element to its list of type arguments. -/
def genericArgsOffset? (m : Metadata) (id : Nat) : Option Nat :=
  match m.get? id "generic_args_offset" with
  | some (.int n) => if 0 ≤ n ∧ n ≤ 0xFFFFFFFF then some n.toNat else none
  | _ => none

def setGenericArgsOffset (m : Metadata) (id : Nat) (offset : Nat) : Metadata :=
  m.set id "generic_args_offset" (.int offset)

def closedBy? (m : Metadata) (id : Nat) : Option ClosedBy :=
  match m.get? id "closed_by" with
  | some (.str s) => ClosedBy.ofName? s
  | _ => none

def setClosedBy (m : Metadata) (id : Nat) (reason : ClosedBy) : Metadata :=
  m.set id "closed_by" (.str reason.name)

end Metadata
end BladeTree
