import Kayak.Machine
import Kayak.Workload
import Kayak.Rpc
import Kayak.Client
import Kayak.Run
import Kayak.Spec
import Kayak.Invariant
import Kayak.Window
import Kayak.Tasks
import Kayak.NativeSteps
import Kayak.Encoding
import Kayak.Budget
import Kayak.Progress
import Kayak.Shutdown
import Kayak.Stray
import Kayak.RecvOrder
import Kayak.Baseline
import Kayak.Summary
import Kayak.SendOrder
import Kayak.Target
import Kayak.NativeProgress
import Kayak.Completions
import Kayak.Recovery
import Kayak.Capacity
import Kayak.Samples
import Kayak.Loop
import Kayak.Generator
