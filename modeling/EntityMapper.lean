import EntityMapper.Binary64
import EntityMapper.Blake3
import EntityMapper.Command
import EntityMapper.Decimal.Layout
import EntityMapper.Decimal.Reading
import EntityMapper.Decimal.Shortest
import EntityMapper.Dialect
import EntityMapper.Grammar.Clause
import EntityMapper.Grammar.Definition
import EntityMapper.Grammar.Error
import EntityMapper.Grammar.Name
import EntityMapper.Grammar.Statement
import EntityMapper.Json.Document
import EntityMapper.Json.Fault
import EntityMapper.Json.Number
import EntityMapper.Json.Printer
import EntityMapper.Json.Reader
import EntityMapper.Model.Calendar
import EntityMapper.Model.Cast
import EntityMapper.Model.Entity
import EntityMapper.Model.Error
import EntityMapper.Model.Record
import EntityMapper.Model.Relation
import EntityMapper.Model.Transform
import EntityMapper.NameMap
import EntityMapper.Proofs.Equality
import EntityMapper.Proofs.Grammar.ColumnNames
import EntityMapper.Proofs.Grammar.Compilation
import EntityMapper.Proofs.Grammar.Names
import EntityMapper.Proofs.Grammar.Placeholders
import EntityMapper.Proofs.Grammar.Predicates
import EntityMapper.Proofs.Grammar.Quoting
import EntityMapper.Proofs.Grammar.Recovery
import EntityMapper.Proofs.Grammar.Refused
import EntityMapper.Proofs.Grammar.Tokens
import EntityMapper.Proofs.Grammar.Written
import EntityMapper.Proofs.Model.Changes
import EntityMapper.Proofs.Model.Snapshot
import EntityMapper.Proofs.NameMap
import EntityMapper.Proofs.Query.Folding
import EntityMapper.Proofs.Query.Joining
import EntityMapper.Proofs.Query.Meaning
import EntityMapper.Proofs.Session.Commands
import EntityMapper.Proofs.Session.DisjointUpdates
import EntityMapper.Proofs.Session.EagerLoading
import EntityMapper.Proofs.Session.Effects
import EntityMapper.Proofs.Session.FailedLoad
import EntityMapper.Proofs.Session.Finding
import EntityMapper.Proofs.Session.JoinedPivot
import EntityMapper.Proofs.Session.LoadedTree
import EntityMapper.Proofs.Session.Ownership
import EntityMapper.Proofs.Session.Persistence
import EntityMapper.Proofs.Session.PivotChanges
import EntityMapper.Proofs.Session.PivotIsolation
import EntityMapper.Proofs.Session.PivotRows
import EntityMapper.Proofs.Session.PivotSync
import EntityMapper.Proofs.Session.PolymorphicOwnership
import EntityMapper.Proofs.Session.ReadOnly
import EntityMapper.Proofs.Session.RelationPaths
import EntityMapper.Proofs.Session.RelationRows
import EntityMapper.Proofs.Session.StoredRow
import EntityMapper.Proofs.Session.TypeTags
import EntityMapper.Proofs.Statement.Acceptance
import EntityMapper.Proofs.Statement.Clauses
import EntityMapper.Proofs.Statement.Filters
import EntityMapper.Proofs.Statement.Lexing
import EntityMapper.Proofs.Statement.Reading
import EntityMapper.Proofs.Statement.Refusal
import EntityMapper.Proofs.Statement.Statements
import EntityMapper.Proofs.Store.Comparison
import EntityMapper.Proofs.Store.ConditionalWrite
import EntityMapper.Proofs.Store.Containment
import EntityMapper.Proofs.Store.InPlace
import EntityMapper.Proofs.Store.KeyAddress
import EntityMapper.Proofs.Store.Keys
import EntityMapper.Proofs.Store.Retry
import EntityMapper.Proofs.Store.Selection
import EntityMapper.Proofs.Store.Writes
import EntityMapper.Proofs.Text.Lowercase
import EntityMapper.Query.Intent
import EntityMapper.Query.Operator
import EntityMapper.Query.Predicate
import EntityMapper.Schema
import EntityMapper.Serial.Config
import EntityMapper.Serial.Fields
import EntityMapper.Serial.Query
import EntityMapper.Serial.Schema
import EntityMapper.Serial.Value
import EntityMapper.Session.Backend
import EntityMapper.Session.Basic
import EntityMapper.Session.Config
import EntityMapper.Session.Eager
import EntityMapper.Session.Effect
import EntityMapper.Session.ModelQuery
import EntityMapper.Session.PivotWrite
import EntityMapper.Session.Resolution
import EntityMapper.Statement.Error
import EntityMapper.Statement.Lexer
import EntityMapper.Statement.Parser
import EntityMapper.Statement.Token
import EntityMapper.Statement.Tree
import EntityMapper.Store.Comparison
import EntityMapper.Store.Database
import EntityMapper.Store.Error
import EntityMapper.Store.Evaluation
import EntityMapper.Store.Execution
import EntityMapper.Store.Like
import EntityMapper.Store.Result
import EntityMapper.Store.Sorting
import EntityMapper.Store.Table
import EntityMapper.Text.Ascii
import EntityMapper.Text.Blank
import EntityMapper.Text.Hex
import EntityMapper.Text.Join
import EntityMapper.Text.Lowercase
import EntityMapper.Text.Printable
import EntityMapper.Text.Quoted
import EntityMapper.Text.Ranges
import EntityMapper.Text.Utf8
import EntityMapper.Value
import EntityMapper.Proofs.Statement.Numbering
import EntityMapper.Proofs.Store.Binding
import EntityMapper.Proofs.Statement.Canonical
import EntityMapper.Proofs.Statement.RoundTrip
import EntityMapper.Proofs.Session.OwnCommands
import EntityMapper.Proofs.Session.SyntheticPivot
import EntityMapper.Proofs.Statement.Respelling
import EntityMapper.Proofs.Statement.Spelling
import EntityMapper.Proofs.Json.Documents
import EntityMapper.Proofs.Json.Numbers
import EntityMapper.Proofs.Json.Strings
import EntityMapper.Proofs.Json.Reading
import EntityMapper.Proofs.Json.RoundTrip
import EntityMapper.Proofs.ValueDocuments
import EntityMapper.Proofs.Model.CastForms
import EntityMapper.Proofs.Serial.Decoding
import EntityMapper.Proofs.Serial.Intents
import EntityMapper.Proofs.Store.SortOrder
import EntityMapper.Proofs.Store.OrderedSelection
import EntityMapper.Proofs.Model.Concealment
import EntityMapper.Proofs.Session.Creation
import EntityMapper.Proofs.Store.Like
import EntityMapper.Proofs.Store.Operators
import EntityMapper.Proofs.Store.Membership
import EntityMapper.Proofs.Statement.Cutting
import EntityMapper.Proofs.Statement.Consumption
import EntityMapper.Proofs.Statement.Trailing
import EntityMapper.Proofs.Grammar.Counting
import EntityMapper.Proofs.Session.Counting
import EntityMapper.Proofs.Statement.Blame
import EntityMapper.Proofs.Statement.Report
