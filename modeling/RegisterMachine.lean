import RegisterMachine.Instruction.Draft
import RegisterMachine.Main
import RegisterMachine.Session
import RegisterMachine.Proofs.VariableName
import RegisterMachine.Proofs.Evaluation
import RegisterMachine.Proofs.Place
import RegisterMachine.Proofs.Run
import RegisterMachine.Proofs.Limit
import RegisterMachine.Proofs.Mention
import RegisterMachine.Proofs.Renaming
import RegisterMachine.Proofs.BlockRun
import RegisterMachine.Proofs.Binding
import RegisterMachine.Proofs.Copy
import RegisterMachine.Proofs.Inlining
import RegisterMachine.Proofs.InlinedCall
import RegisterMachine.Proofs.BlockSimulation
import RegisterMachine.Proofs.BlockNames
import RegisterMachine.Proofs.Pieces
import RegisterMachine.Proofs.Round
import RegisterMachine.Proofs.ExpandedRun
import RegisterMachine.Proofs.CallAgreement
import RegisterMachine.Proofs.IdleArguments
import RegisterMachine.Proofs.DegreeIndependence
import RegisterMachine.Proofs.Acyclic
import RegisterMachine.Proofs.Resolved
import RegisterMachine.Proofs.Safety
import RegisterMachine.Proofs.BlockRounds
import RegisterMachine.Proofs.DeclaredLabels
import RegisterMachine.Proofs.Termination
import RegisterMachine.Proofs.DegreeFormula
import RegisterMachine.Proofs.WellFormed
import RegisterMachine.Proofs.Hygiene
import RegisterMachine.Proofs.CallStack
import RegisterMachine.Proofs.Word
import RegisterMachine.Proofs.ArgumentWords
import RegisterMachine.Proofs.ArgumentGrammar
import RegisterMachine.Proofs.ArgumentReader
import RegisterMachine.Proofs.ArgumentText
import RegisterMachine.Proofs.LineText
import RegisterMachine.Proofs.LineWords
import RegisterMachine.Proofs.LineGrammar
import RegisterMachine.Proofs.Sections
import RegisterMachine.Proofs.StatementText
import RegisterMachine.Proofs.ProgramText
import RegisterMachine.Proofs.ParsedText
import RegisterMachine.Proofs.TokenStream
import RegisterMachine.Proofs.LineByLine
import RegisterMachine.Proofs.ReadBack
import RegisterMachine.Proofs.StoreKeys
import RegisterMachine.Proofs.CountedSteps
import RegisterMachine.Proofs.RunInvariant
import RegisterMachine.Proofs.Answered
import RegisterMachine.Proofs.DebugSession
import RegisterMachine.Proofs.Cycle
import RegisterMachine.Proofs.Validation
import RegisterMachine.Proofs.SessionMemory
import RegisterMachine.Proofs.DegreeComposition
import RegisterMachine.Proofs.TopologicalOrder
import RegisterMachine.Proofs.DependencyOrder
import RegisterMachine.Proofs.Provenance
import RegisterMachine.Proofs.Tracing
import RegisterMachine.Proofs.WrittenOut
import RegisterMachine.Proofs.WrittenOutRun
import RegisterMachine.Proofs.WrittenOutExpansion
import RegisterMachine.Proofs.Footprint
import RegisterMachine.Proofs.Tiers
import RegisterMachine.Proofs.Inputs
import RegisterMachine.Proofs.UnreadableText
import RegisterMachine.Proofs.Refusal
import RegisterMachine.Proofs.Substitution
import RegisterMachine.Proofs.Relocation
import RegisterMachine.Proofs.LabelTable
import RegisterMachine.Proofs.TokenPlaces
import RegisterMachine.Proofs.Spelling
