import DataTransfer.Storage.FileSystem

/-!
The operating system as units see it: files and the three standard streams. What is put on standard
output waits in a buffer of the language's library until its line is complete, the buffer is full or it
is flushed; error output is not buffered.
-/

namespace DataTransfer

structure System where
  files : FileSystem := {}
  /-- Standard input that is not consumed yet. -/
  input : Bytes := []
  /-- All that was put on standard output. -/
  output : Bytes := []
  /-- How many of the last bytes of `output` wait in its buffer. -/
  buffered : Nat := 0
  errors : Bytes := []
  deriving Repr, DecidableEq

namespace System

/-- The first line, with its newline, but at most `count` bytes of it; and what stays. -/
def splitLine : (count : Nat) → Bytes → Bytes × Bytes
  | 0, bs => ([], bs)
  | _ + 1, [] => ([], [])
  | count + 1, b :: bs =>
    if b = 10 then ([b], bs)
    else
      let (line, rest) := splitLine count bs
      (b :: line, rest)

theorem splitLine_append (count : Nat) (bs : Bytes) :
    (splitLine count bs).1 ++ (splitLine count bs).2 = bs := by
  fun_induction splitLine count bs <;> simp_all

/-! ### Standard output -/

/-- The size of the buffer of standard output. -/
def bufferSize : Nat := 1024

/-- How much waits once `count` bytes are put behind what waits. They empty a buffer that has no room for
them, and pass by one that they would fill on their own. -/
def enqueue (buffered count : Nat) : Nat :=
  if bufferSize ≤ count then 0
  else if buffered + count ≤ bufferSize then buffered + count
  else count

/-- Puts bytes on standard output. Those up to the last newline do not wait. -/
def print (s : System) (data : Bytes) : System :=
  { s with
    output := s.output ++ data
    buffered :=
      if data.contains 10 then enqueue 0 (data.reverse.takeWhile (· ≠ 10)).length
      else enqueue s.buffered data.length }

@[simp] theorem output_print (s : System) (data : Bytes) : (s.print data).output = s.output ++ data := rfl

/-- What has come out on standard output. -/
def delivered (s : System) : Bytes := s.output.take (s.output.length - s.buffered)

def flushed (s : System) : System := { s with buffered := 0 }

@[simp] theorem delivered_flushed (s : System) : s.flushed.delivered = s.output := by
  simp [delivered, flushed]

theorem delivered_print_of_newline (s : System) (line : Bytes) :
    (s.print (line ++ [10])).delivered = s.output ++ (line ++ [10]) := by
  have hempty : (s.print (line ++ [10])).buffered = 0 := by simp [print, enqueue, bufferSize]
  rw [delivered, hempty, Nat.sub_zero, List.take_length]
  rfl

end System

end DataTransfer
