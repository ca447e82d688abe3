import BladeTree.Text.Ascii

namespace BladeTree

/-- A text beside its UTF-8 bytes; every offset into it counts bytes. -/
structure Source where
  text : String
  bytes : ByteArray
  bytes_eq : bytes = text.toByteArray

namespace Source

variable (s : Source)

def ofString (text : String) : Source := ⟨text, text.toByteArray, rfl⟩

def size : Nat := s.bytes.size

def byte? (i : Nat) : Option UInt8 := s.bytes[i]?

def has (p : UInt8 → Bool) (i : Nat) : Bool := (s.byte? i).any p

theorem lt_size_of_byte? {i : Nat} {b : UInt8} (h : s.byte? i = some b) : i < s.size := by
  unfold byte? at h
  exact (getElem?_eq_some_iff.1 h).1

theorem lt_size_of_has {p : UInt8 → Bool} {i : Nat} (h : s.has p i) : i < s.size := by
  unfold has at h
  cases hb : s.byte? i with
  | none => simp [hb] at h
  | some b => exact s.lt_size_of_byte? hb

def startsWith (i : Nat) : List UInt8 → Bool
  | [] => true
  | b :: bs => s.has (· == b) i && startsWith (i + 1) bs

/-- As `startsWith`, for lower-case patterns and letters of either case. -/
def startsWithIgnoreCase (i : Nat) : List UInt8 → Bool
  | [] => true
  | b :: bs => s.has (Byte.toLower · == b) i && startsWithIgnoreCase (i + 1) bs

def find (pat : List UInt8) (i : Nat) : Option Nat :=
  if s.startsWith i pat then some i
  else if i < s.size then find pat (i + 1)
  else none
termination_by s.size - i

def skipWhile (p : UInt8 → Bool) (i : Nat) : Nat :=
  if h : s.has p i then
    have := s.lt_size_of_has h
    skipWhile p (i + 1)
  else i
termination_by s.size - i

def isBoundary (i : Nat) : Bool :=
  i == s.size || s.has (fun b => !Byte.isContinuation b) i

/-- The text between two character boundaries. -/
def slice (start stop : Nat) : String :=
  (String.fromUTF8? (s.bytes.extract start stop)).getD ""

theorem le_skipWhile (p : UInt8 → Bool) (i : Nat) : i ≤ s.skipWhile p i := by
  fun_induction skipWhile s p i with
  | case1 i h _ ih => omega
  | case2 i h => omega

theorem skipWhile_le_size (p : UInt8 → Bool) {i : Nat} (hi : i ≤ s.size) :
    s.skipWhile p i ≤ s.size := by
  fun_induction skipWhile s p i with
  | case1 i h hlt ih => exact ih hlt
  | case2 i h => exact hi

theorem le_find {pat : List UInt8} {i j : Nat} (h : s.find pat i = some j) : i ≤ j := by
  fun_induction find s pat i with
  | case1 i hs => simp_all
  | case2 i hs hi ih => have := ih h; omega
  | case3 i hs hi => simp at h

end Source
end BladeTree
