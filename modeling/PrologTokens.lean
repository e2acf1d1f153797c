import PrologTokens.Main
import PrologTokens.Proofs.Analysis.Joining
import PrologTokens.Proofs.Json.RoundTrip
import PrologTokens.Proofs.Report.Rows
import PrologTokens.Proofs.Rule.BlindSpots
import PrologTokens.Proofs.Rule.Clauses
import PrologTokens.Proofs.Rule.ReservedWords
import PrologTokens.Proofs.Server.Agreement
import PrologTokens.Proofs.Analysis.Padding
import PrologTokens.Proofs.Pattern.Replacement
import PrologTokens.Proofs.Pattern.Places
import PrologTokens.Proofs.Rule.ForeignText
import PrologTokens.Proofs.Pattern.Parts
import PrologTokens.Proofs.Rule.Locality
import PrologTokens.Proofs.Pattern.NormalForm
import PrologTokens.Proofs.Pattern.Written
import PrologTokens.Proofs.Rule.Lexemes
import PrologTokens.Proofs.Json.Mirror
import PrologTokens.Proofs.Rule.Matching
import PrologTokens.Proofs.Server.TokenViews
import PrologTokens.Proofs.Json.Grammar
import PrologTokens.Proofs.Json.Members
import PrologTokens.Proofs.Json.FieldValues
import PrologTokens.Proofs.Server.Acceptance
import PrologTokens.Proofs.Rule.Signs
import PrologTokens.Proofs.Server.Endpoint
import PrologTokens.Proofs.Rule.Factors
