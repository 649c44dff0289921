import ElementQuery.Binary64
import ElementQuery.ValueAccess
import ElementQuery.Condition
import ElementQuery.Element
import ElementQuery.GridAddress
import ElementQuery.Json.Decoder
import ElementQuery.Json.Reader
import ElementQuery.Json.Values
import ElementQuery.LogLevel
import ElementQuery.Property
import ElementQuery.Provider.Dialogue
import ElementQuery.Provider.Recorder
import ElementQuery.Provider.Request
import ElementQuery.Query
import ElementQuery.Registry
import ElementQuery.Search
import ElementQuery.Settings.Stored
import ElementQuery.Text
import ElementQuery.Tree.Basic
import ElementQuery.Tree.Operation
import ElementQuery.Tree.Spec
import ElementQuery.Wait
import ElementQuery.Proofs.Text.Split
import ElementQuery.Proofs.Text.Character
import ElementQuery.Proofs.Query.Demand
import ElementQuery.Proofs.Tree.Descendants
import ElementQuery.Proofs.Tree.Growth
import ElementQuery.Proofs.Tree.Removal
import ElementQuery.Proofs.Tree.Requests
import ElementQuery.Proofs.Tree.Reachable
import ElementQuery.Proofs.Query.Condition
import ElementQuery.Proofs.Search
import ElementQuery.Proofs.Capability
import ElementQuery.Proofs.ValueAccess
import ElementQuery.Proofs.Query.GridSuffix
import ElementQuery.Proofs.Query.RoundTrip
import ElementQuery.Proofs.Query.Reread
import ElementQuery.Proofs.Settings
import ElementQuery.Proofs.Provider.Discipline
import ElementQuery.Proofs.CallDiscipline
import ElementQuery.Proofs.Tree.Grids
import ElementQuery.Proofs.FoundElements
import ElementQuery.Proofs.Resolution
import ElementQuery.Proofs.Tree.Failure
import ElementQuery.Proofs.Guards
import ElementQuery.Proofs.Tree.Exclusive
import ElementQuery.Proofs.Exclusion
import ElementQuery.Proofs.Blame
import ElementQuery.Proofs.Mistakes
import ElementQuery.Proofs.TermOrder
import ElementQuery.Proofs.Settings.Bounds
import ElementQuery.Proofs.Tree.Identity
import ElementQuery.Proofs.Tree.Pruning
import ElementQuery.Proofs.Effect
import ElementQuery.Proofs.NamedItems
import ElementQuery.Proofs.Query.Grammar
import ElementQuery.Proofs.Toggle
import ElementQuery.Proofs.HiddenItems
import ElementQuery.Proofs.Reselection
import ElementQuery.Proofs.GridAddress.RoundTrip
import ElementQuery.Proofs.Wait.Actions
import ElementQuery.Proofs.Wait
import ElementQuery.Proofs.Tree.OnlySelected
import ElementQuery.Proofs.Spelling
import ElementQuery.Proofs.Provider.Answers
import ElementQuery.Proofs.Reading
import ElementQuery.Proofs.Tree.Keystrokes
import ElementQuery.Proofs.Keystrokes
