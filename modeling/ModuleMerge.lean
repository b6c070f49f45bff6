import ModuleMerge.Main
import ModuleMerge.Proofs.AddedNames
import ModuleMerge.Proofs.Completeness
import ModuleMerge.Proofs.Convergence
import ModuleMerge.Proofs.Correspondence
import ModuleMerge.Proofs.KeepFirst
import ModuleMerge.Proofs.Locality
import ModuleMerge.Proofs.NotedEntries
import ModuleMerge.Proofs.Placement
import ModuleMerge.Proofs.PlainMerge
import ModuleMerge.Proofs.RegionBalance
import ModuleMerge.Proofs.SelfMerge
import ModuleMerge.Proofs.Sources
import ModuleMerge.Proofs.Provenance
import ModuleMerge.Proofs.LineBreaks
import ModuleMerge.Proofs.JsonCodec
import ModuleMerge.Proofs.Files
import ModuleMerge.Proofs.Replay
import ModuleMerge.Proofs.Reports
import ModuleMerge.Proofs.Lookups
import ModuleMerge.Proofs.Symmetry
import ModuleMerge.Proofs.Channels
import ModuleMerge.Proofs.CarriedLines
import ModuleMerge.Proofs.LineStarts
import ModuleMerge.Proofs.PartialTypes
import ModuleMerge.Proofs.Trivia
import ModuleMerge.Proofs.FirstFault
import ModuleMerge.Proofs.Wording
import ModuleMerge.Proofs.Payloads
import ModuleMerge.Proofs.PartialSettings
import ModuleMerge.Proofs.LongerInput
import ModuleMerge.Proofs.StoppedRuns
import ModuleMerge.Proofs.Saving
import ModuleMerge.Proofs.Tags
import ModuleMerge.Proofs.NoteLines
import ModuleMerge.Proofs.ChoiceTable
import ModuleMerge.Proofs.IndexTable
import ModuleMerge.Proofs.IndexContents
import ModuleMerge.Proofs.IndexWalk
