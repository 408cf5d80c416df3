import Meld.Automaton.Basic
import Meld.Automaton.Diagram
import Meld.Automaton.Guard
import Meld.Automaton.Reach
import Meld.Automaton.Search
import Meld.Automaton.Soundness
import Meld.Automaton.State
import Meld.Automaton.Walk
import Meld.Blueprint.Compile
import Meld.Blueprint.Plan
import Meld.Blueprint.Track
import Meld.Blueprint.Unsized
import Meld.Card.Basic
import Meld.Card.Color
import Meld.Card.Hand
import Meld.Card.Json
import Meld.Card.Rank
import Meld.Card.Token
import Meld.CommandLine.Answer
import Meld.CommandLine.Arguments
import Meld.Decimal.Shortest
import Meld.Deck.Basic
import Meld.Deck.Shuffled
import Meld.Event
import Meld.Main
import Meld.Memo
import Meld.Phase.Basic
import Meld.Phase.Meaning
import Meld.Phase.Text
import Meld.Proofs.Acceptance
import Meld.Proofs.Alike
import Meld.Proofs.AnyRun
import Meld.Proofs.Ascii
import Meld.Proofs.Calls
import Meld.Proofs.Canonical
import Meld.Proofs.Compiled
import Meld.Proofs.Completion
import Meld.Proofs.Counting
import Meld.Proofs.Discovery
import Meld.Proofs.Drawing
import Meld.Proofs.Endless
import Meld.Proofs.Enrichment
import Meld.Proofs.Frontier
import Meld.Proofs.Grammar
import Meld.Proofs.Labels
import Meld.Proofs.Laid
import Meld.Proofs.Lanes
import Meld.Proofs.Legal
import Meld.Proofs.Lines
import Meld.Proofs.Misreading
import Meld.Proofs.Numerals
import Meld.Proofs.Options
import Meld.Proofs.Orderly
import Meld.Proofs.Padding
import Meld.Proofs.Pick
import Meld.Proofs.Pieces
import Meld.Proofs.Precedence
import Meld.Proofs.Prefixes
import Meld.Proofs.Progress
import Meld.Proofs.Readback
import Meld.Proofs.Resolution
import Meld.Proofs.RoundTrip
import Meld.Proofs.Safety
import Meld.Proofs.Sequences
import Meld.Proofs.Sharing
import Meld.Proofs.Shortest
import Meld.Proofs.Shortfall
import Meld.Proofs.Sound
import Meld.Proofs.Spelling
import Meld.Proofs.Spread
import Meld.Proofs.Tidy
import Meld.Proofs.Tokens
import Meld.Proofs.Tracks
import Meld.Proofs.Trusting
import Meld.Proofs.Verdicts
import Meld.Proofs.Vocabulary
import Meld.Proofs.WellFormed
import Meld.Random.Keystream
import Meld.Random.Shuffle
import Meld.Snapshot.Format
import Meld.Snapshot.Integer
import Meld.Snapshot.Reader
import Meld.Snapshot.Restore
import Meld.Text.Blank
import Meld.Text.Extending
import Meld.Text.Numeral
import Meld.Text.Quoted
import Meld.Text.Range
import Meld.Text.Unprintable
import Meld.Text.Utf8
import Meld.Text.Visible
import Meld.Proofs.Effort
import Meld.Proofs.Overflow
import Meld.Proofs.Shuffling
import Meld.Blueprint.Arena
import Meld.Proofs.Edits
import Meld.Proofs.Wiring
import Meld.Proofs.Building
import Meld.Proofs.Assembly
import Meld.Proofs.Relocation
