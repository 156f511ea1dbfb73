import DataTransfer.Field.Source

/-!
A single record held in memory, as a source of field characters. Nothing is signalled at its end.
-/

namespace DataTransfer

structure Line where
  text : Array Char
  connection : Connection := {}
  handler : Handler := {}

namespace Line

def ofString (s : String) : Line := { text := s.toList.toArray }

/-- The cursor moves freely, but not left of the first column. -/
def moveBy (n : Int) (line : Line) : Line :=
  { line with
    connection :=
      { line.connection with position := (line.connection.position + n).toNat } }

/-- The characters from the cursor on. -/
def rest (line : Line) : List Char := line.text.toList.drop line.connection.position

variable {line : Line}

@[simp] theorem moveBy_moveBy (m n : Nat) : (line.moveBy m).moveBy n = line.moveBy (m + n : Nat) := by
  have hposition : ((line.connection.position + (m : Int)).toNat + (n : Int)).toNat =
      (line.connection.position + ((m + n : Nat) : Int)).toNat := by omega
  simp only [moveBy, hposition]

theorem moveBy_zero : line.moveBy (0 : Nat) = line := by
  simp [moveBy]

theorem rest_moveBy (n : Nat) : (line.moveBy n).rest = line.rest.drop n := by
  have hposition : (line.connection.position + (n : Int)).toNat = line.connection.position + n := by omega
  simp only [rest, moveBy, hposition, List.drop_drop]

theorem head?_rest : line.rest.head? = line.text[line.connection.position]? := by
  rw [rest, List.head?_drop, Array.getElem?_toList]

instance : FieldSource Line where
  connection := connection
  handler := handler
  withHandler line h := { line with handler := h }
  current := do
    let line ← get
    pure line.text[line.connection.position]?
  moveBy n := modify (moveBy n)
  reach line := line.text.size

end Line

end DataTransfer
