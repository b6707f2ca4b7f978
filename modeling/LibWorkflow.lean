import LibWorkflow.Actions.Adapting
import LibWorkflow.Actions.Contract
import LibWorkflow.Actions.Dynamic
import LibWorkflow.Actions.ExecuteWorkflow
import LibWorkflow.Actions.Exposing
import LibWorkflow.Actions.Forwarding
import LibWorkflow.Actions.Interface
import LibWorkflow.Actions.Layers
import LibWorkflow.Actions.Objects
import LibWorkflow.Codec.Classes
import LibWorkflow.Codec.Contexts
import LibWorkflow.Codec.Embedding
import LibWorkflow.Codec.Loading
import LibWorkflow.Codec.Settings
import LibWorkflow.Codec.Sparing
import LibWorkflow.Codec.Workflows
import LibWorkflow.Core.Ancestry
import LibWorkflow.Core.Engine
import LibWorkflow.Core.PropertySet
import LibWorkflow.Engine.Alike
import LibWorkflow.Engine.Choice
import LibWorkflow.Engine.Layout
import LibWorkflow.Engine.Progress
import LibWorkflow.Engine.Tables
import LibWorkflow.Flow.Checks
import LibWorkflow.Flow.Data
import LibWorkflow.Flow.Denotation
import LibWorkflow.Flow.Equations
import LibWorkflow.Flow.InFlight
import LibWorkflow.Flow.Order
import LibWorkflow.Flow.Outcome
import LibWorkflow.Flow.Reply
import LibWorkflow.Flow.Schedule
import LibWorkflow.Flow.Silence
import LibWorkflow.Flow.Skips
import LibWorkflow.Flow.Terminal
import LibWorkflow.Flow.Termination
import LibWorkflow.Flow.WellFormed
import LibWorkflow.Lib.Cells
import LibWorkflow.Lib.Dataflow
import LibWorkflow.Lib.EventLoop
import LibWorkflow.Lib.Fallible
import LibWorkflow.Lib.Reactive
import LibWorkflow.Messages.Aborts
import LibWorkflow.Messages.Answers
import LibWorkflow.Messages.Causes
import LibWorkflow.Messages.Completion
import LibWorkflow.Messages.Interrupt
import LibWorkflow.Messages.Stale
import LibWorkflow.Messages.Status
import LibWorkflow.Service.Accounted
import LibWorkflow.Service.ActiveObject
import LibWorkflow.Service.Actor
import LibWorkflow.Service.ClientManager
import LibWorkflow.Service.Framing
import LibWorkflow.Service.Ledgers
import LibWorkflow.Service.Lifetimes
import LibWorkflow.Service.Network
import LibWorkflow.Service.Routing
import LibWorkflow.Service.Startup
import LibWorkflow.Service.Storms
import LibWorkflow.Service.Temporary
import LibWorkflow.Service.Unwinding
import LibWorkflow.Sessions.Exchange
import LibWorkflow.Sessions.Isolation
import LibWorkflow.Sessions.Queue
import LibWorkflow.Codec.Sparing
