import StackMap.ClassFile.Builder
import StackMap.Command.Run
import StackMap.Conformance.File
import StackMap.Main
import StackMap.Proofs.Worklist
import StackMap.Proofs.Frame.Order
import StackMap.Proofs.Frame.Run
import StackMap.Proofs.Frame.Effect
import StackMap.Proofs.Frame.Rearrange
import StackMap.Proofs.Frame.Execute
import StackMap.Proofs.Frame.Monotone
import StackMap.Proofs.Flow.Entry
import StackMap.Proofs.Flow.Deliver
import StackMap.Proofs.Flow.Step
import StackMap.Proofs.Flow.Replay
import StackMap.Proofs.Flow.Solution
import StackMap.Proofs.Flow.Least
import StackMap.Proofs.Flow.Bound
import StackMap.Proofs.Flow.Path
import StackMap.Proofs.Flow.Reach
import StackMap.Proofs.Flow.WideLocals
import StackMap.Proofs.ClassFile.Reader
import StackMap.Proofs.ClassFile.Truncation
import StackMap.Proofs.ClassFile.Decode
import StackMap.Proofs.ClassFile.Verdict
import StackMap.Proofs.Desc.Grammar
import StackMap.Proofs.Desc.Parts
import StackMap.Proofs.Desc.Accepted
import StackMap.Proofs.Frame.Keeps
import StackMap.Proofs.Frame.Fault
import StackMap.Proofs.Flow.Fault
import StackMap.Proofs.Flow.Control
import StackMap.Proofs.Frame.Proper
import StackMap.Proofs.Flow.Proper
import StackMap.Proofs.Flow.Location
import StackMap.Proofs.ClassFile.Encoding
import StackMap.Proofs.ClassFile.Build
import StackMap.Proofs.ClassFile.Calls
import StackMap.Proofs.ClassFile.RoundTrip
import StackMap.Proofs.ClassFile.Spelling
import StackMap.Proofs.ClassFile.Instruction
import StackMap.Proofs.ClassFile.Layout
import StackMap.Proofs.ClassFile.CodeArray
import StackMap.Proofs.ClassFile.Correspondence
import StackMap.Proofs.ClassFile.Forms
import StackMap.Proofs.Code.WellFormed
import StackMap.Proofs.Assembly.Instruction
import StackMap.Proofs.Frame.Cause
import StackMap.Proofs.Frame.Composed
import StackMap.Proofs.Frame.Locals
import StackMap.Proofs.Frame.Depth
import StackMap.Proofs.Frame.Words
import StackMap.Proofs.Frame.Permutation
import StackMap.Proofs.Assembly.Labels
import StackMap.Proofs.Flow.Label
import StackMap.Proofs.FrontEnd
import StackMap.Proofs.Batch.Steps
import StackMap.Proofs.Batch.Sequential
import StackMap.Proofs.Batch.Outcome
import StackMap.Proofs.Flow.InPlace
import StackMap.Proofs.Flow.Straight
import StackMap.Proofs.Flow.DeadCode
import StackMap.Proofs.Flow.Parameters
import StackMap.Proofs.ClassFile.ModifiedUtf8
import StackMap.Proofs.Desc.Arrays
import StackMap.Proofs.Frame.Range
import StackMap.Proofs.Listing.Locals
import StackMap.Proofs.Text.Quoted
import StackMap.Proofs.Text.Words
import StackMap.Proofs.Numeral.Integer
import StackMap.Proofs.Assembly.Constants
import StackMap.Proofs.Assembly.Composition
import StackMap.Proofs.Listing.Grouping
import StackMap.Proofs.Worklist.History
