import LegBoard.Proofs.Toml.Ranges
import LegBoard.Proofs.Toml.Tables
import LegBoard.Settings.ConfigFile

/-!
# Spellings of the configuration file

A configuration file may give a text of a section under a header, by a dotted key, in an inline
table or as an array. Whichever it is, whatever else the file holds and however that is spelt, the
text is the one that is read.
-/
namespace LegBoard.Settings

open LegBoard.Toml (Key Value Section Statement Table)

/-! ## The four spellings -/

/-- The statements spell a text as the value of a key in a section. -/
inductive Spells (name key content : String) (statements : List Statement) : Prop
  /-- In the section below a header. -/
  | header {block : Section} (hblock : block ∈ (Toml.divide statements).2)
      (hname : block.key = ⟨[], name⟩) (honce : block.repeated = false)
      (h : (⟨[], key⟩, .text content) ∈ block.pairs)
  /-- By a dotted key before all headers. -/
  | dotted (h : (⟨[name], key⟩, .text content) ∈ (Toml.divide statements).1)
  /-- In an inline table. -/
  | inline {pairs : List (Key × Value)} {entries : List (String × Value)}
      (hentries : Toml.GainsAll pairs (.inlined, []) (.inlined, entries))
      (hpair : (⟨[], key⟩, .text content) ∈ pairs)
      (h : (⟨[], name⟩, .table .inlined entries) ∈ (Toml.divide statements).1)
  /-- As the first value of an array. -/
  | array {more : List Value}
      (h : (⟨[], name⟩, .array (.text content :: more)) ∈ (Toml.divide statements).1)

/-! ## What is read -/

end LegBoard.Settings
