import LegBoard.Main
import LegBoard.Proofs.Board.BadgeStyle
import LegBoard.Proofs.Board.ExplorerStatus
import LegBoard.Proofs.Board.Glances
import LegBoard.Proofs.Board.PageLinks
import LegBoard.Proofs.Board.PageOutline
import LegBoard.Proofs.Board.Recovery
import LegBoard.Proofs.Board.Requests
import LegBoard.Proofs.Board.Retouching
import LegBoard.Proofs.Colour.Branding
import LegBoard.Proofs.Colour.Brightness
import LegBoard.Proofs.Colour.Notation
import LegBoard.Proofs.Dressing
import LegBoard.Proofs.ExplorerUrl
import LegBoard.Proofs.FaultPlaces
import LegBoard.Proofs.Formats
import LegBoard.Proofs.Json.Assembly
import LegBoard.Proofs.Json.Exchanges
import LegBoard.Proofs.ListForms
import LegBoard.Proofs.ModeNames
import LegBoard.Proofs.RepeatedFields
import LegBoard.Proofs.Settings.FileFormat
import LegBoard.Proofs.Settings.Options
import LegBoard.Proofs.Settings.Precedence
import LegBoard.Proofs.Settings.UnreadFiles
import LegBoard.Proofs.Text.Components
import LegBoard.Proofs.WellFormed
