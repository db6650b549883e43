import TransitionFeatures.Extraction.Options
import TransitionFeatures.Extraction.Report
import TransitionFeatures.Proofs.Evaluation.Dependence
import TransitionFeatures.Proofs.Extraction.StandAlone
import TransitionFeatures.Proofs.Template.Grammar
import TransitionFeatures.Proofs.Evaluation.Carry
import TransitionFeatures.Proofs.Extraction.Gate
import TransitionFeatures.Proofs.Graph.Consistency
import TransitionFeatures.Proofs.Template.Concatenation
import TransitionFeatures.Proofs.Template.Display
import TransitionFeatures.Proofs.Graph.Head
import TransitionFeatures.Proofs.Graph.Yield
import TransitionFeatures.Proofs.Extraction.Report
import TransitionFeatures.Proofs.Evaluation.Separator
import TransitionFeatures.Proofs.Extraction.Range
import TransitionFeatures.Proofs.Graph.GapType
import TransitionFeatures.Proofs.Evaluation.SeparatorReading
import TransitionFeatures.Proofs.Graph.HeadInYield
import TransitionFeatures.Proofs.Evaluation.NearEnd
import TransitionFeatures.Proofs.Evaluation.Walk
import TransitionFeatures.Proofs.Evaluation.PropertyRuns
import TransitionFeatures.Proofs.Evaluation.Slots
import TransitionFeatures.Proofs.Extraction.Key
import TransitionFeatures.Proofs.Graph.Remote
import TransitionFeatures.Proofs.Graph.Growth
import TransitionFeatures.Proofs.Graph.Termination
import TransitionFeatures.Proofs.Template.Compilation
import TransitionFeatures.Proofs.Evaluation.EdgeReading
import TransitionFeatures.Proofs.Graph.Questions
