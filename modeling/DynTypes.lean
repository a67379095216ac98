import DynTypes.Session
import DynTypes.Settings
import DynTypes.Main
import DynTypes.Proofs.Definition.Outline
import DynTypes.Proofs.Definition.Literal
import DynTypes.Proofs.Definition.Brackets
import DynTypes.Proofs.Definition.Words
import DynTypes.Proofs.Grammar.Accepts
import DynTypes.Proofs.Grammar.Characters
import DynTypes.Proofs.Grammar.Completeness
import DynTypes.Proofs.Grammar.Soundness
import DynTypes.Proofs.Grammar.Reach
import DynTypes.Proofs.Grammar.Viable
import DynTypes.Proofs.Grammar.ErrorPosition
import DynTypes.Proofs.Grammar.Coherence
import DynTypes.Proofs.Reading.Build
import DynTypes.Proofs.Reading.Pairs
import DynTypes.Proofs.Reading.Assembly
import DynTypes.Proofs.Reading.Parse
import DynTypes.Proofs.Reading.Compose
import DynTypes.Proofs.Reading.WellFormed
import DynTypes.Proofs.Reading.RoundTrip
import DynTypes.Proofs.Reading.Literals
import DynTypes.Proofs.Reading.ConstraintText
import DynTypes.Proofs.Reading.Quoting
import DynTypes.Proofs.Reading.Respelling
import DynTypes.Proofs.Number.Order
import DynTypes.Proofs.Number.Rounding
import DynTypes.Proofs.Matching.Collections
import DynTypes.Proofs.Matching.Sums
import DynTypes.Proofs.Matching.Names
import DynTypes.Proofs.Matching.Extension
import DynTypes.Proofs.Matching.Meaning
import DynTypes.Proofs.Matching.Rearrangement
import DynTypes.Proofs.Matching.Umbrellas
import DynTypes.Proofs.Matching.Bounds
import DynTypes.Proofs.Checking.Afresh
import DynTypes.Proofs.Checking.Unobservable
import DynTypes.Proofs.Checking.Retention
import DynTypes.Proofs.Checking.Accounting
import DynTypes.Proofs.Checking.ExactText
import DynTypes.Proofs.Checking.Agreement
import DynTypes.Proofs.Checking.Wording
import DynTypes.Proofs.Description.Tree
import DynTypes.Proofs.Description.SelfMatch
import DynTypes.Proofs.Description.Values
import DynTypes.Proofs.Description.Answers
import DynTypes.Proofs.Description.Acceptance
import DynTypes.Proofs.Json.Scanning
import DynTypes.Proofs.Json.ReadBack
import DynTypes.Proofs.Json.Lossless
import DynTypes.Proofs.Reading.Slashes
import DynTypes.Proofs.Reading.ListEnd
import DynTypes.Proofs.Reading.Front
import DynTypes.Proofs.Reading.FrontPhase
import DynTypes.Proofs.Reading.FrontAssembly
import DynTypes.Proofs.Reading.Lockstep
