import GrammarTree.Main
import GrammarTree.Proofs.Command.Language
import GrammarTree.Proofs.CommandLine.RootPath
import GrammarTree.Proofs.Derivation.Deletion
import GrammarTree.Proofs.Derivation.Drawing
import GrammarTree.Proofs.Derivation.Path
import GrammarTree.Proofs.Derivation.Production
import GrammarTree.Proofs.Derivation.Quotation
import GrammarTree.Proofs.Derivation.Reconstruction
import GrammarTree.Proofs.Derivation.Relinking
import GrammarTree.Proofs.Derivation.Traversal
import GrammarTree.Proofs.Grammar.Answers
import GrammarTree.Proofs.Grammar.Blocks
import GrammarTree.Proofs.Grammar.Margin
import GrammarTree.Proofs.Grammar.Matching
import GrammarTree.Proofs.Grammar.Merging
import GrammarTree.Proofs.Grammar.Seeds
import GrammarTree.Proofs.Grammar.Unambiguous
import GrammarTree.Proofs.Grammar.Walk
import GrammarTree.Proofs.Grammar.WellFormed
import GrammarTree.Proofs.Session.Copies
import GrammarTree.Proofs.Session.Expansion
import GrammarTree.Proofs.Session.Matching
import GrammarTree.Proofs.Session.Normal
import GrammarTree.Proofs.Session.PendingWork
import GrammarTree.Proofs.Session.RuleSymbols
import GrammarTree.Proofs.Session.Script
import GrammarTree.Proofs.Session.Selecting
