import LegBoard.Proofs.Toml.Documents

/-!
# What is beyond the bounds

Arrays that nest too deep and keys of too many parts are not read, though the grammar spells them.
Nor is a document that starts with such a line. Integers that are too great are read as such.
-/
namespace LegBoard.Toml

end LegBoard.Toml
