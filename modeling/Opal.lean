import Opal.Main
import Opal.Proofs.Annotations
import Opal.Proofs.FinalBindings
import Opal.Syntax.Display
import Opal.Proofs.ConstantTypes
import Opal.Proofs.SymbolTables
import Opal.Proofs.TypeTables
import Opal.Proofs.DeclarationOrder
import Opal.Proofs.Parentheses
import Opal.Proofs.Diagnostics
import Opal.Proofs.NodeIdentity
import Opal.Proofs.NestedConstructs
import Opal.Proofs.FoldedValues
import Opal.Proofs.CallForms
import Opal.Proofs.QuotedLiterals
import Opal.Proofs.BlockComments
import Opal.Proofs.BalancedChecks
import Opal.Proofs.RescannedTokens
import Opal.Proofs.ParserProgress
