import EntityQuery.Wire.Request
import EntityQuery.Derive
import EntityQuery.FullText
import EntityQuery.Proofs.Resolving
import EntityQuery.Proofs.Compile
import EntityQuery.Proofs.Meaning
import EntityQuery.Proofs.Selector.Conformance
import EntityQuery.Proofs.Splicing
import EntityQuery.Proofs.Numeric.Literal
import EntityQuery.Proofs.Json.RoundTrip
import EntityQuery.Proofs.Calendar.RoundTrip
import EntityQuery.Proofs.Operand
import EntityQuery.Proofs.Coercion
import EntityQuery.Proofs.Stored
import EntityQuery.Proofs.Wire.RoundTrip
import EntityQuery.Proofs.Request
import EntityQuery.Proofs.Wire.Decisions
import EntityQuery.Proofs.Paging
import EntityQuery.Proofs.Transparency
import EntityQuery.Proofs.Ordering
import EntityQuery.Proofs.Sorting
import EntityQuery.Proofs.Identity
import EntityQuery.Proofs.Building
import EntityQuery.Proofs.Walk
import EntityQuery.Proofs.Appending
import EntityQuery.Proofs.Retyping
import EntityQuery.Proofs.Failures
import EntityQuery.Proofs.Rendering.Clauses
import EntityQuery.Proofs.Rendering.Nesting
import EntityQuery.Proofs.Uniform
import EntityQuery.Proofs.Numeric.Numeral
import EntityQuery.Proofs.Searching
import EntityQuery.Proofs.EarlyCoercion
import EntityQuery.Proofs.Negation
import EntityQuery.Proofs.Comparison
import EntityQuery.Proofs.Membership
import EntityQuery.Proofs.Encoding
import EntityQuery.Proofs.Calendar.SolarYears
import EntityQuery.Proofs.Calendar.Rereading
import EntityQuery.Proofs.Columns
import EntityQuery.Proofs.Numeric.Typing
import EntityQuery.Proofs.Numeric.Decorated
import EntityQuery.Proofs.TypedOperands
import EntityQuery.Proofs.Selector.Walks
import EntityQuery.Proofs.Rendering.Patterns
import EntityQuery.Proofs.Reporting
import EntityQuery.Proofs.Retained
import EntityQuery.Proofs.FullText
import EntityQuery.Proofs.Derive.Constants
import EntityQuery.Proofs.Selector.Members
import EntityQuery.Proofs.Wire.Levels
