import LegBoard.Proofs.Settings.FileSpellings
import LegBoard.Proofs.Toml.Limits

/-!
# Configuration files that are not read

A file that gives both texts is not read if something else in it is beyond the bounds of the reader,
be it an array, a key or a number.
-/
namespace LegBoard.Settings

open LegBoard.Toml (Key Value)

/-- Brackets that nest so deep, with nothing in them. -/
def nested (n : Nat) : List Char := List.replicate n '[' ++ List.replicate n ']'

end LegBoard.Settings
