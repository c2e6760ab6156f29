import MiddleMan.Library.Transition
import MiddleMan.Library.Delivery
import MiddleMan.Library.Ownership
import MiddleMan.Library.Getline
import MiddleMan.Library.Interleaving
import MiddleMan.Library.Execution
import MiddleMan.ReadLoop
import MiddleMan.Relay
import MiddleMan.Lifetimes
import MiddleMan.Fidelity
import MiddleMan.Progress
import MiddleMan.Launch
import MiddleMan.TwoRelays
import MiddleMan.Locals
import MiddleMan.Outcome
import MiddleMan.TestProgram
import MiddleMan.PythonModule
import MiddleMan.Session
import MiddleMan.Sender
import MiddleMan.ReadEnds
import MiddleMan.Pipeline
import MiddleMan.SharedFifo
import MiddleMan.EndOfStream
import MiddleMan.Completion
import MiddleMan.FairRelay
import MiddleMan.FairPipeline
