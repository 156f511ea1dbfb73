/-!
The directory of units by number. Units stand in buckets; one that is being closed moves to a list
of its own, so that no new statement finds it, and its number is not given to a new unit until the
close is finished.
-/

namespace DataTransfer

-- `^` is the power of the core library, also where another one is in scope.
attribute [local instance (high)] instPowNat

/-- A unit in the directory: its number, and which of all units created so far it is. -/
structure Entry where
  number : Int
  id : Nat
  deriving Repr, DecidableEq

structure Directory where
  buckets : List (List Entry)
  closing : List Entry := []
  nextNewUnit : Int
  deriving Repr, DecidableEq

namespace Directory

def empty (buckets : Nat) (newUnitBase : Int) : Directory :=
  { buckets := List.replicate (max 1 buckets) [], nextNewUnit := newUnitBase }

/-- Numbers are spread over the buckets by their 32-bit pattern. -/
def bucket (d : Directory) (n : Int) : Nat := (n % 2 ^ (32 : Nat)).toNat % d.buckets.length

def bucketAt (d : Directory) (n : Int) : List Entry := (d.buckets[d.bucket n]?).getD []

def find? (d : Directory) (n : Int) : Option Entry := (d.bucketAt n).find? (·.number = n)

def isClosing (d : Directory) (n : Int) : Bool := d.closing.any (·.number = n)

def live (d : Directory) : List Entry := d.buckets.flatten

def size (d : Directory) : Nat := d.live.length

def references (d : Directory) (id : Nat) : Nat := (d.live ++ d.closing).countP (·.id = id)

def insert (d : Directory) (e : Entry) : Directory :=
  { d with buckets := d.buckets.modify (d.bucket e.number) (· ++ [e]) }

/-- Without the element at `i`, in whose place the last one goes. -/
def swapRemove (es : List Entry) (i : Nat) : List Entry :=
  match es.getLast? with
  | some last => (es.set i last).dropLast
  | none => []

def takeForClose (d : Directory) (n : Int) : Option (Entry × Directory) :=
  let entries := d.bucketAt n
  match d.find? n, entries.findIdx? (·.number = n) with
  | some e, some i =>
    some (e, { d with
      buckets := d.buckets.set (d.bucket n) (swapRemove entries i)
      closing := d.closing ++ [e] })
  | _, _ => none

/-- Forgets a unit whose close is finished. -/
def destroyClosed (d : Directory) (id : Nat) : Directory :=
  { d with closing := d.closing.eraseP (·.id = id) }

def takeAll (d : Directory) : List Entry × Directory :=
  (d.live, { d with buckets := d.buckets.map fun _ => [] })

def newUnit (d : Directory) : Int × Directory :=
  (d.nextNewUnit, { d with nextNewUnit := d.nextNewUnit - 1 })

end Directory

end DataTransfer
