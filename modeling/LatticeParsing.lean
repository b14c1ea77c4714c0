import LatticeParsing.Main
import LatticeParsing.Proofs.Console.ValuedOptions
import LatticeParsing.Proofs.Grammar.Edges
import LatticeParsing.Proofs.Grammar.Merging
import LatticeParsing.Proofs.Grammar.Sessions
import LatticeParsing.Proofs.Lattice.Faults
import LatticeParsing.Proofs.Machine.Runs
import LatticeParsing.Proofs.Machine.Tables
import LatticeParsing.Proofs.Parse.Closing
import LatticeParsing.Proofs.Parse.Contract
import LatticeParsing.Proofs.Parse.Derivability
import LatticeParsing.Proofs.Parse.Grouping
import LatticeParsing.Proofs.Parse.LiteralLabels
import LatticeParsing.Proofs.Parse.Locality
import LatticeParsing.Proofs.Parse.Schedules
import LatticeParsing.Proofs.Parse.Tracing
import LatticeParsing.Proofs.Parse.Unfolding
import LatticeParsing.Proofs.Pattern.Classes
import LatticeParsing.Proofs.Report.Accounts
import LatticeParsing.Proofs.Report.Inputs
import LatticeParsing.Proofs.Report.Listing
import LatticeParsing.Proofs.Rule.Printing
import LatticeParsing.Proofs.Symbol.Lookups
import LatticeParsing.Proofs.Symbol.SymbolTables
