import DialogScript.Main
import DialogScript.Playground
import DialogScript.Token.Lossless
import DialogScript.Proofs.Turn
import DialogScript.Proofs.Pair
import DialogScript.Proofs.Scan
import DialogScript.Proofs.Settled
import DialogScript.Proofs.BlockCut
import DialogScript.Proofs.Retrieval
import DialogScript.Proofs.Agreement
import DialogScript.Proofs.Whole
import DialogScript.Proofs.Outline
import DialogScript.Proofs.TagSpan
import DialogScript.Proofs.Blank
import DialogScript.Proofs.Closed
import DialogScript.Proofs.Substitution
import DialogScript.Proofs.ValueTags
import DialogScript.Proofs.Accounting
import DialogScript.Proofs.Precheck
import DialogScript.Proofs.Forgetting
import DialogScript.Proofs.Response
import DialogScript.Proofs.Gate
import DialogScript.Proofs.Coverage
import DialogScript.Proofs.History
import DialogScript.Proofs.BreakGrammar
import DialogScript.Proofs.UnreadBreak
import DialogScript.Proofs.JsonText
import DialogScript.Proofs.JsonValue
import DialogScript.Proofs.Chaining
import DialogScript.Proofs.BlockText
import DialogScript.Proofs.SectionPairs
import DialogScript.Proofs.KnowledgeGrammar
import DialogScript.Proofs.ListPadding
import DialogScript.Proofs.Requirement
import DialogScript.Proofs.Echo
import DialogScript.Proofs.Seam
import DialogScript.Proofs.Rewording
import DialogScript.Proofs.OutputName
import DialogScript.Proofs.Loading
import DialogScript.Proofs.BagForm
import DialogScript.Proofs.Decoding
import DialogScript.Proofs.TokenSlice
import DialogScript.Proofs.Separation
import DialogScript.Proofs.IdleDirective
import DialogScript.Proofs.CommandLine
