import LetPoly.Main
import LetPoly.Proofs.Unification
import LetPoly.Proofs.Environment
import LetPoly.Proofs.Independence
import LetPoly.Proofs.DisplayNames
import LetPoly.Proofs.Compression
import LetPoly.Proofs.LetExpansion
import LetPoly.Proofs.UndefinedNames
import LetPoly.Proofs.NameSupply
import LetPoly.Proofs.Termination
import LetPoly.Proofs.Instances
import LetPoly.Proofs.Clash
import LetPoly.Proofs.Footprint
import LetPoly.Proofs.Symmetry
import LetPoly.Proofs.LetRec
import LetPoly.Proofs.NamesUsed
import LetPoly.Proofs.Account
import LetPoly.Proofs.Reports
import LetPoly.Proofs.Outcomes
import LetPoly.Proofs.OutputFile
import LetPoly.Proofs.Expr.Printer
import LetPoly.Proofs.Text.Wrap
import LetPoly.Proofs.Json.Decoding
import LetPoly.Proofs.Term.Parser
import LetPoly.Proofs.ShownTypes
import LetPoly.Proofs.ShortReports
import LetPoly.Proofs.Json.LongReports
import LetPoly.Proofs.Scope.Sharing
import LetPoly.Proofs.Scope.Listing
import LetPoly.Proofs.LookUp
import LetPoly.Proofs.Occurrence
import LetPoly.Proofs.CommandLine.Blocks
