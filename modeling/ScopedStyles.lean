import ScopedStyles.Rule.Same
import ScopedStyles.Session
import ScopedStyles.CommandLine.Folder
import ScopedStyles.Main
import ScopedStyles.Proofs.Grammar.Agreement
import ScopedStyles.Proofs.Grammar.WellFormed
import ScopedStyles.Proofs.Grammar.RoundTrip
import ScopedStyles.Proofs.Selector.Members
import ScopedStyles.Proofs.Rule.Regular
import ScopedStyles.Proofs.Rule.Reference
import ScopedStyles.Proofs.FlatRule.Image
import ScopedStyles.Proofs.FlatRule.Recognition
import ScopedStyles.Proofs.Scanner.Run
import ScopedStyles.Key.Iterator
import ScopedStyles.Proofs.Key.Shortlex
import ScopedStyles.Proofs.Key.Stream
import ScopedStyles.Proofs.Key.Clash
import ScopedStyles.Proofs.Session.Run
import ScopedStyles.Proofs.Grammar.Aligned
import ScopedStyles.Proofs.Rule.Rescoped
import ScopedStyles.Proofs.Grammar.Concatenation
import ScopedStyles.Proofs.Rule.Characters
import ScopedStyles.Proofs.Text.Framed
import ScopedStyles.Proofs.Rule.Framing
import ScopedStyles.Proofs.CommandLine.Lines
import ScopedStyles.Proofs.Sheet.Edits
import ScopedStyles.Proofs.CommandLine.Agreement
import ScopedStyles.Proofs.Source.Lookahead
import ScopedStyles.Proofs.Grammar.Outcome
import ScopedStyles.Proofs.Source.Reformatted
import ScopedStyles.Proofs.Source.Comment
import ScopedStyles.Proofs.Source.Glued
import ScopedStyles.Proofs.Grammar.Texts
import ScopedStyles.Proofs.Rule.Comments
import ScopedStyles.Proofs.Grammar.Hole
import ScopedStyles.Proofs.Grammar.Isolation
import ScopedStyles.Proofs.Text.Location
import ScopedStyles.Proofs.Grammar.Failure
import ScopedStyles.Proofs.Rule.AnimationList
import ScopedStyles.Proofs.FlatRule.Rejection
import ScopedStyles.Proofs.Grammar.AtRule
import ScopedStyles.Proofs.Scanner.Places
