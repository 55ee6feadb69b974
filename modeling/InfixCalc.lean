import InfixCalc.Frame
import InfixCalc.Grid.Frame
import InfixCalc.Main
import InfixCalc.Mixed.Builders
import InfixCalc.Mixed.Catalog
import InfixCalc.Proofs.Binary64.Fields
import InfixCalc.Proofs.Binary64.Scale
import InfixCalc.Proofs.Binary64.Text
import InfixCalc.Proofs.Builder
import InfixCalc.Proofs.Evaluation.ByName
import InfixCalc.Proofs.Grammar
import InfixCalc.Proofs.Real.RoundTrip
import InfixCalc.Proofs.Refusal
import InfixCalc.Proofs.RoundTrip
import InfixCalc.Proofs.Evaluation.Unforced
import InfixCalc.Proofs.Recency
import InfixCalc.Proofs.Evaluation.Orderly
import InfixCalc.Proofs.Vocabulary.Orderly
import InfixCalc.Proofs.Real.Orderly
import InfixCalc.Proofs.Complex.Orderly
import InfixCalc.Proofs.Answers
import InfixCalc.Proofs.Evaluation.Stateless
import InfixCalc.Proofs.Sharing.Cache
import InfixCalc.Proofs.Sharing.Heap
import InfixCalc.Proofs.Vocabulary.Stateless
import InfixCalc.Proofs.Sharing.Builder
import InfixCalc.Proofs.Sharing.Session
import InfixCalc.Proofs.Sharing.Lineage
import InfixCalc.Proofs.Calculator.Kept
import InfixCalc.Proofs.Evaluation.Strict
import InfixCalc.Proofs.Evaluation.Reached
import InfixCalc.Proofs.Decimal.Orderly
import InfixCalc.Proofs.Decimal.Vocabulary
import InfixCalc.Proofs.Decimal.Answers
import InfixCalc.Proofs.Evaluation.Carried
import InfixCalc.Proofs.Assembly
import InfixCalc.Proofs.Scan.Progress
import InfixCalc.Proofs.Scan.Segment
import InfixCalc.Proofs.Calculator.Dialogue
import InfixCalc.Proofs.Caching.Turn
import InfixCalc.Proofs.Calculator.Assigned
import InfixCalc.Proofs.Caching.Recall
import InfixCalc.Proofs.Caching.Distance
import InfixCalc.Proofs.Caching.Failure
import InfixCalc.Proofs.Vocabulary.Removal
import InfixCalc.Proofs.Caching.Copied
import InfixCalc.Proofs.Decimal.RoundTrip
import InfixCalc.Proofs.Literals
import InfixCalc.Proofs.Calculator.Apart
import InfixCalc.Proofs.Real.Scientific
import InfixCalc.Proofs.Decimal.Results
import InfixCalc.Proofs.Decimal.Constants
import InfixCalc.Proofs.Decimal.Endless
import InfixCalc.Proofs.Decimal.CubeRoot
import InfixCalc.Proofs.Arrays.Answers
import InfixCalc.Proofs.Frame.Order
import InfixCalc.Proofs.Unbound
