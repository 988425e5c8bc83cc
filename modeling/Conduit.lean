import Conduit.Main
import Conduit.Outline
import Conduit.Proofs.Alternatives
import Conduit.Proofs.BlindPipeline
import Conduit.Proofs.BoundValues
import Conduit.Proofs.CollapsedFields
import Conduit.Proofs.CoveredPaths
import Conduit.Proofs.DisjunctionPaths
import Conduit.Proofs.IndexMeaning
import Conduit.Proofs.MergeSafety
import Conduit.Proofs.ModelFallback
import Conduit.Proofs.OrderlessQuery
import Conduit.Proofs.ReadBack
import Conduit.Proofs.RepeatedCasts
import Conduit.Proofs.SortedSlots
import Conduit.Proofs.StageCaps
