import RowPolicy.Truth
import RowPolicy.Number.Binary64
import RowPolicy.Number.Shortest
import RowPolicy.Number.Numeral
import RowPolicy.Text.Blank
import RowPolicy.Text.ByteCount
import RowPolicy.Text.Casing.Table
import RowPolicy.Text.Casing
import RowPolicy.Text.Wildcard
import RowPolicy.Text.Delimited
import RowPolicy.Calendar.Date
import RowPolicy.Calendar.Reading
import RowPolicy.Value
import RowPolicy.Value.Literal
import RowPolicy.Operator
import RowPolicy.ColumnType
import RowPolicy.Row
import RowPolicy.Resource
import RowPolicy.Predicate
import RowPolicy.Predicate.Sql
import RowPolicy.Predicate.Evaluation
import RowPolicy.Policy
import RowPolicy.Compilation
import RowPolicy.PolicySet
import RowPolicy.PolicyText.Reading
import RowPolicy.PolicyText.Token
import RowPolicy.PolicyText.Literal
import RowPolicy.PolicyText.ParseError
import RowPolicy.PolicyText.Block
import RowPolicy.PolicyFile
import RowPolicy.Json.Lexical
import RowPolicy.Json.Document
import RowPolicy.PermissionMap
import RowPolicy.AccessCheck
import RowPolicy.Store
import RowPolicy.Proofs.Traversal
import RowPolicy.Proofs.Registration
import RowPolicy.Proofs.Collection
import RowPolicy.Proofs.Verdict
import RowPolicy.Proofs.History
import RowPolicy.Proofs.ExtraFilter
import RowPolicy.Proofs.Membership
import RowPolicy.Proofs.Complement
import RowPolicy.Proofs.Enumeration
import RowPolicy.Proofs.Calendar.Reading
import RowPolicy.Proofs.PolicyText.Spelling
import RowPolicy.Proofs.PolicyText.Tokens
import RowPolicy.Proofs.PolicyText.Scalars
import RowPolicy.Proofs.PolicyText.Literals
import RowPolicy.Proofs.PolicyText.Completeness
import RowPolicy.Proofs.PolicyText.Progress
import RowPolicy.Proofs.PolicyText.Concatenation
import RowPolicy.Proofs.Sql.Literal
import RowPolicy.Proofs.Sql.Lexeme
import RowPolicy.Proofs.Sql.Formula
import RowPolicy.Proofs.Sql.Leaf
import RowPolicy.Proofs.Sql.Structure
import RowPolicy.Proofs.Information
import RowPolicy.Proofs.Rearrangement
import RowPolicy.Proofs.Shape
import RowPolicy.Proofs.Influence
import RowPolicy.Proofs.Undecided
import RowPolicy.Proofs.Refusal
import RowPolicy.Proofs.Text.Wildcard
import RowPolicy.Proofs.Text.Casing
import RowPolicy.Proofs.Text.Masking
import RowPolicy.Proofs.Text.Delimited
import RowPolicy.Proofs.DelimitedList
import RowPolicy.Proofs.Lattice
import RowPolicy.Proofs.Number.Conversion
import RowPolicy.Proofs.Order
import RowPolicy.Proofs.Transitivity
import RowPolicy.Proofs.TemporalText
import RowPolicy.Proofs.TemporalLiteral
import RowPolicy.Proofs.WholeDay
import RowPolicy.Proofs.Json.Spelling
import RowPolicy.Proofs.Json.Strings
import RowPolicy.Proofs.Json.Numbers
import RowPolicy.Proofs.Json.Brackets
import RowPolicy.Proofs.Json.Documents
import RowPolicy.Proofs.Json.Range
import RowPolicy.Proofs.PermissionMap.Decoding
import RowPolicy.Proofs.PermissionMap.Repetition
import RowPolicy.Proofs.PermissionMap.Listing
import RowPolicy.Proofs.Restatement
import RowPolicy.Proofs.PolicyText.Surroundings
import RowPolicy.Proofs.PolicyText.Integers
import RowPolicy.Proofs.PolicyText.Signs
import RowPolicy.Proofs.PolicyText.Boundaries
import RowPolicy.Proofs.Text.Backtracking
import RowPolicy.Proofs.PolicyText.Rounds
import RowPolicy.Proofs.PolicyText.Canonical
