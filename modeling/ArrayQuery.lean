import ArrayQuery.Config.Document
import ArrayQuery.Device.Profile
import ArrayQuery.Device.Run
import ArrayQuery.Diagnostic.FirstError
import ArrayQuery.Diagnostic.Report
import ArrayQuery.Element.Arithmetic
import ArrayQuery.Proofs.Copies
import ArrayQuery.Proofs.Forms
import ArrayQuery.Proofs.Numerals
import ArrayQuery.Proofs.Phrases
import ArrayQuery.Proofs.Spelling
import ArrayQuery.Proofs.Bodies
import ArrayQuery.Proofs.Growth
import ArrayQuery.Proofs.Names
import ArrayQuery.Proofs.Readable
import ArrayQuery.Proofs.Words
import ArrayQuery.Proofs.Integers
import ArrayQuery.Proofs.IntegerQueries
import ArrayQuery.Proofs.Lockstep
import ArrayQuery.Proofs.Cancels
import ArrayQuery.Proofs.Disturbance
import ArrayQuery.Proofs.SharedQueries
import ArrayQuery.Proofs.Declared
import ArrayQuery.Proofs.TypedTerms
import ArrayQuery.Proofs.TypedBodies
import ArrayQuery.Proofs.Steps
import ArrayQuery.Proofs.TypedQueries
import ArrayQuery.Proofs.Traces
import ArrayQuery.Proofs.Mentions
import ArrayQuery.Proofs.Lines
import ArrayQuery.Proofs.StepLines
import ArrayQuery.Proofs.Bindings
import ArrayQuery.Proofs.Patterns
import ArrayQuery.Proofs.Rounding
import ArrayQuery.Proofs.Decimals
import ArrayQuery.Proofs.Quantities
import ArrayQuery.Proofs.Columns
import ArrayQuery.Proofs.Transposed
import ArrayQuery.Proofs.TransposedBodies
import ArrayQuery.Proofs.Lifecycle
import ArrayQuery.Proofs.Slots
import ArrayQuery.Proofs.Buffers
import ArrayQuery.Proofs.Outcomes
import ArrayQuery.Proofs.Admission
import ArrayQuery.Proofs.Prepared
import ArrayQuery.Proofs.Ledger
import ArrayQuery.Proofs.Resources
import ArrayQuery.Proofs.Disposal
import ArrayQuery.Proofs.Spellable
import ArrayQuery.Proofs.Structs
import ArrayQuery.Proofs.Supported
import ArrayQuery.Proofs.Decisions
import ArrayQuery.Proofs.Acceptance
import ArrayQuery.Proofs.Strides
import ArrayQuery.Proofs.Coverage
import ArrayQuery.Proofs.Renaming
import ArrayQuery.Proofs.Results
import ArrayQuery.Proofs.Captures
import ArrayQuery.Proofs.Members
import ArrayQuery.Proofs.Identifiers
import ArrayQuery.Proofs.Statements
import ArrayQuery.Proofs.Signs
import ArrayQuery.Proofs.Retyping
import ArrayQuery.Proofs.Conversions
import ArrayQuery.Proofs.Alignment
import ArrayQuery.Proofs.Fits
import ArrayQuery.Proofs.MemberPlaces
import ArrayQuery.Proofs.Padding
import ArrayQuery.Proofs.StableNames
import ArrayQuery.Proofs.Coercions
import ArrayQuery.Proofs.Pages
import ArrayQuery.Proofs.RemainingSteps
import ArrayQuery.Proofs.Regions
import ArrayQuery.Proofs.Chains
import ArrayQuery.Proofs.LiteralTexts
import ArrayQuery.Proofs.Boundaries
import ArrayQuery.Proofs.ErrorLines
import ArrayQuery.Proofs.HostArrays
import ArrayQuery.Proofs.FewestDigits
import ArrayQuery.Proofs.FloatTexts
