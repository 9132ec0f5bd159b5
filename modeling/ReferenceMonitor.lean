import ReferenceMonitor.Monitor.Faults
import ReferenceMonitor.Monitor.Judgements
import ReferenceMonitor.Monitor.Pasts
import ReferenceMonitor.Monitor.Paths
import ReferenceMonitor.Monitor.Policy
import ReferenceMonitor.Monitor.PolicyText
import ReferenceMonitor.Monitor.ReadBack
import ReferenceMonitor.Platform.Balance
import ReferenceMonitor.Platform.CopyLengths
import ReferenceMonitor.Platform.Encoding
import ReferenceMonitor.Platform.Globals
import ReferenceMonitor.Platform.Locking
import ReferenceMonitor.Platform.References
import ReferenceMonitor.Platform.Refinement
import ReferenceMonitor.Platform.Verdicts
import ReferenceMonitor.System.AddressSpaces
import ReferenceMonitor.System.Anonymous
import ReferenceMonitor.System.Arguments
import ReferenceMonitor.System.Availability
import ReferenceMonitor.System.Confinement
import ReferenceMonitor.System.Conversations
import ReferenceMonitor.System.Descriptors
import ReferenceMonitor.System.Events
import ReferenceMonitor.System.FileCalls
import ReferenceMonitor.System.FreshMemory
import ReferenceMonitor.System.HostExecution
import ReferenceMonitor.System.Main
import ReferenceMonitor.System.Mediation
import ReferenceMonitor.System.NativeResults
import ReferenceMonitor.System.PolicyRuns
import ReferenceMonitor.System.PositionalCalls
import ReferenceMonitor.System.Preservation
import ReferenceMonitor.System.Provenance
import ReferenceMonitor.System.Restarts
import ReferenceMonitor.System.ReturnValues
import ReferenceMonitor.System.Scattering
import ReferenceMonitor.System.Signals
import ReferenceMonitor.System.TableIndices
import ReferenceMonitor.System.Tasks
import ReferenceMonitor.System.Transparency
import ReferenceMonitor.System.ValueResults
import ReferenceMonitor.System.Waiting
