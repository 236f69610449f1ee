import Stackline.Decimal.Integer
import Stackline.Program.Instruction
import Stackline.Text.Padding

/-!
# Listings

A program shown with the index of each instruction, which is what jumps refer
to.
-/

namespace Stackline
namespace Listing

/-- One line of a listing. -/
structure Entry where
  index : Nat
  text : String
  deriving DecidableEq, Repr

/-- The index, at least four digits wide, and the text. -/
def Entry.line (e : Entry) : String :=
  Text.padStart '0' 4 (Decimal.ofNat e.index) ++ "  " ++ e.text

/-- The entries of a program. -/
def entries (program : List Instruction) : List Entry :=
  program.zipIdx.map fun (i, index) => { index, text := i.text }

/-- The whole listing, its lines separated by line feeds. -/
def render (program : List Instruction) : String :=
  String.intercalate "\n" ((entries program).map Entry.line)

end Listing
end Stackline
