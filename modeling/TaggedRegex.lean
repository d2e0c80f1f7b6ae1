import TaggedRegex.Main
import TaggedRegex.Regex.Printer
import TaggedRegex.Proofs.History.Execution
import TaggedRegex.Proofs.History.ParallelCopies
import TaggedRegex.Proofs.CharRange.Alphabet
import TaggedRegex.Proofs.Automaton.Tagging
import TaggedRegex.Proofs.Determinised.Advance
import TaggedRegex.Proofs.Determinised.Merging
import TaggedRegex.Proofs.Determinised.Table
import TaggedRegex.Proofs.Matching.Consistency
import TaggedRegex.Proofs.Matching.MergeInvariance
import TaggedRegex.Proofs.Automaton.Anchored
import TaggedRegex.Proofs.Backtracking.Agreement
import TaggedRegex.Proofs.Matching.Paths
import TaggedRegex.Proofs.Matching.Reuse
import TaggedRegex.Proofs.Matching.Leftmost
import TaggedRegex.Proofs.Grammar.Printing
import TaggedRegex.Proofs.Growth.Bounds
import TaggedRegex.Proofs.Guarded.Safety
import TaggedRegex.Proofs.Matching.Replay
import TaggedRegex.Proofs.Matching.Indistinguishable
import TaggedRegex.Proofs.Matching.Printed
import TaggedRegex.Proofs.Matching.Wrapped
import TaggedRegex.Proofs.Determinised.RenamingSearch
import TaggedRegex.Proofs.Guarded.SimultaneousCopies
import TaggedRegex.Proofs.Tour.DepthFirst
import TaggedRegex.Proofs.Guarded.Reachability
import TaggedRegex.Proofs.Guarded.Ledger
import TaggedRegex.Proofs.Determinised.LinearScan
import TaggedRegex.Proofs.CharRange.Coarsest
import TaggedRegex.Proofs.CharRange.Complement
import TaggedRegex.Proofs.Automaton.Numbering
import TaggedRegex.Proofs.Grammar.Blame
import TaggedRegex.Proofs.Automaton.Lookups
import TaggedRegex.Proofs.Guarded.Insertions
import TaggedRegex.Proofs.Growth.Recursion
import TaggedRegex.Proofs.Determinised.Dump
import TaggedRegex.Proofs.Tour.Renaming
import TaggedRegex.Proofs.Matching.Discipline
import TaggedRegex.Proofs.Language.Walks
