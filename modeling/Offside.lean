import Offside.Main
import Offside.Source.Open
import Offside.Source.Script
import Offside.Transform
import Offside.Files.Tree
import Offside.Proofs.Levels
import Offside.Proofs.Request
import Offside.Proofs.Feed
import Offside.Proofs.Batch
import Offside.Proofs.Alignment
import Offside.Proofs.Operation
import Offside.Proofs.Balance
import Offside.Proofs.Marks
import Offside.Proofs.Lossless
import Offside.Proofs.Options
import Offside.Proofs.Outline
import Offside.Proofs.Spelling
import Offside.Proofs.Places
import Offside.Proofs.Following
import Offside.Proofs.OpenFile
import Offside.Proofs.Decoding
import Offside.Proofs.Conversion
import Offside.Proofs.PartFile
import Offside.Proofs.FileRun
import Offside.Proofs.Hearing
import Offside.Proofs.Outcomes
import Offside.Proofs.Arrival
import Offside.Proofs.Respelling
import Offside.Proofs.Presentation
import Offside.Proofs.Accounting
import Offside.Proofs.Recovery
import Offside.Proofs.Installation
import Offside.Proofs.Overriding
import Offside.Proofs.Delivery
import Offside.Proofs.Regions
import Offside.Proofs.IdleLines
import Offside.Proofs.Idempotence
import Offside.Proofs.Ending
import Offside.Proofs.Lookahead
import Offside.Proofs.LineBreaks
import Offside.Proofs.Resolving
import Offside.Proofs.Recording
import Offside.Proofs.Cutting
import Offside.Proofs.ReadAhead
import Offside.Proofs.Remarking
import Offside.Proofs.Separators
import Offside.Proofs.Closing
import Offside.Proofs.AuditTrail
import Offside.Proofs.QueueShape
import Offside.Proofs.Ledger
import Offside.Proofs.Chains
import Offside.Proofs.Deciding
