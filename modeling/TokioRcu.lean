import TokioRcu.Lib.Machine
import TokioRcu.Abandon
import TokioRcu.Wakeups
import TokioRcu.Resets
import TokioRcu.Program
import TokioRcu.RootFuture
import TokioRcu.Delivery
import TokioRcu.FastPath
import TokioRcu.SlotStates
import TokioRcu.Exit
import TokioRcu.RootPoll
import TokioRcu.Lib.IdPool
import TokioRcu.SlotTable
import TokioRcu.SlotAllocator
import TokioRcu.SlotExhaustion
import TokioRcu.SlotReaders
import TokioRcu.SlotCalls
import TokioRcu.RegistryInvariant
import TokioRcu.RcuBoxOwnership
import TokioRcu.NoUseAfterFree
import TokioRcu.Handshakes
import TokioRcu.DelayedGracePeriods
import TokioRcu.Executions
import TokioRcu.BackedRefinement
import TokioRcu.Returning
import TokioRcu.Quiescence
