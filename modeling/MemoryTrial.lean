import MemoryTrial.CriticalSection
import MemoryTrial.Arena.Operations
import MemoryTrial.Heap.Faulty
import MemoryTrial.Allocator
import MemoryTrial.Replay.Loop
import MemoryTrial.Plan.Churn
import MemoryTrial.World.Run
import MemoryTrial.World.Memory
import MemoryTrial.World.Kinds
import MemoryTrial.Script.Allocator
import MemoryTrial.Script.Critical
import MemoryTrial.Script.Exit
import MemoryTrial.Script.Frame
import MemoryTrial.Script.Plan
import MemoryTrial.Script.Program
import MemoryTrial.Script.Registry
import MemoryTrial.Proofs.Arena.Edits
import MemoryTrial.Proofs.Arena.Runs
import MemoryTrial.Proofs.Arena.Search
import MemoryTrial.Proofs.Arena.Grab
import MemoryTrial.Proofs.Arena.Blocks
import MemoryTrial.Proofs.Arena.History
import MemoryTrial.Proofs.Arena.Safety
import MemoryTrial.Proofs.Arena.FirstFit
import MemoryTrial.Proofs.Replay.DecisionTree
import MemoryTrial.Proofs.Replay.Enumeration
import MemoryTrial.Proofs.World.Effects
import MemoryTrial.Proofs.World.Checkpoints
import MemoryTrial.Proofs.Replay.Termination
import MemoryTrial.Proofs.Arena.Misuse
import MemoryTrial.Proofs.Heap.Blocks
import MemoryTrial.Proofs.World.Memory
import MemoryTrial.Proofs.Replay.Exploration
import MemoryTrial.Proofs.Replay.MemoryTest
import MemoryTrial.Proofs.Replay.OutOfMemory
import MemoryTrial.Proofs.World.Ledger
import MemoryTrial.Proofs.World.Creations
import MemoryTrial.Proofs.World.Registry
import MemoryTrial.Proofs.Heap.Handles
import MemoryTrial.Proofs.Heap.Map
import MemoryTrial.Proofs.Heap.Faulty
import MemoryTrial.Proofs.Arena.Layout
import MemoryTrial.Proofs.Replay.Nesting
import MemoryTrial.Proofs.World.Lineage
import MemoryTrial.Proofs.World.Dependencies
import MemoryTrial.Proofs.Script.Kinds
import MemoryTrial.Proofs.World.Teardown
import MemoryTrial.Proofs.Plan.Requests
import MemoryTrial.Proofs.Plan.Replay
import MemoryTrial.Proofs.Plan.Leaks
import MemoryTrial.Proofs.World.Escapes
import MemoryTrial.Proofs.World.ExitHooks
import MemoryTrial.Proofs.World.Reentry
import MemoryTrial.Proofs.World.Depth
import MemoryTrial.Proofs.World.Draining
import MemoryTrial.Proofs.World.LookUps
import MemoryTrial.Proofs.World.HookLog
import MemoryTrial.Proofs.World.Exit
import MemoryTrial.Proofs.World.Routing
import MemoryTrial.Proofs.World.Threads
import MemoryTrial.Proofs.Replay.Counter
import MemoryTrial.Proofs.Arena.Resize
import MemoryTrial.Proofs.Arena.Refusal
import MemoryTrial.Proofs.Arena.Recovery
import MemoryTrial.Proofs.Arena.Check
import MemoryTrial.Proofs.Arena.Bump
