import LibWorkflow.Core.Context
import Mathlib.Data.Int.Order.Basic
import Mathlib.Data.String.Basic

/-!
# Targets, error reports and requests

`core/steps.h`, `core/target.h`, `tools/error_report.h` and `core/request.h`. Uuids are numbers: the
code compares and orders them, nothing more.
-/

namespace LibWorkflow

open Ordered

/-- `Step`: the reserved action ids. -/
inductive Step where
  | die | cleanup | error | finish | interrupt | status | initialisation
  deriving DecidableEq

/-- `(int32_t) Step`. -/
def Step.id : Step → ℤ
  | .die => -1666
  | .cleanup => -1020
  | .error => -1015
  | .finish => -1010
  | .interrupt => -1005
  | .status => -1000
  | .initialisation => 0

theorem Step.id_injective : Function.Injective Step.id := by
  intro a b h
  cases a <;> cases b <;> first | rfl | exact absurd h (by decide)

@[simp] theorem Step.id_inj {a b : Step} : a.id = b.id ↔ a = b := Step.id_injective.eq_iff

abbrev UUID := ℕ

/-- `ETargetAction`. -/
inductive TargetAction where
  | defaultAction | status | interrupt | error | reply | noReply
  deriving DecidableEq

/-- `Target`. -/
structure Target where
  controller : String
  workflow : String
  identifier : UUID
  clientId : UUID
  executionLevel : UInt32
  target : TargetAction
  action : ℤ
  deriving DecidableEq

/-- `ErrorReport`: an error, or the rethrow of its parent. `original` is the request it is about, from the
type of requests. -/
structure ErrorReportOf (ρ : Type) where
  target : Target
  errorMessage : String
  errorKey : String
  parent : Option (ErrorReportOf ρ)
  original : Option ρ

/-- `Request`. Its `context` is the map of the `GroupedCtx` the code keeps there. -/
structure Request where
  target : Target
  reply : Target
  requestId : UUID
  context : OrdMap String Context
  bypass : PropertySet
  actionBypasses : OrdMap ℤ PropertySet
  report : Option (ErrorReportOf Request)
  workflowJson : String

abbrev ErrorReport := ErrorReportOf Request

namespace ErrorReportOf

variable {ρ : Type}

/-- `ErrorReport(target, key, message)`. -/
def ofError (target : Target) (key message : String) : ErrorReportOf ρ := ⟨target, message, key, none, none⟩

/-- `ErrorReport(target, parent)`. -/
def rethrow (target : Target) (parent : Option (ErrorReportOf ρ)) : ErrorReportOf ρ :=
  ⟨target, "", "", parent, none⟩

def isSet (er : ErrorReportOf ρ) : Bool := er.parent.isSome || !er.errorKey.isEmpty

/-- `getAncestry`, the root first. -/
def getAncestry : ErrorReportOf ρ → List (ErrorReportOf ρ)
  | er@⟨_, _, _, none, _⟩ => [er]
  | er@⟨_, _, _, some parent, _⟩ => parent.getAncestry ++ [er]

/-- The report at the root of the chain: `*getAncestry().begin()`. -/
def root : ErrorReportOf ρ → ErrorReportOf ρ
  | er@⟨_, _, _, none, _⟩ => er
  | ⟨_, _, _, some parent, _⟩ => parent.root

theorem head?_getAncestry : ∀ er : ErrorReportOf ρ, er.getAncestry.head? = some er.root
  | ⟨_, _, _, none, _⟩ => rfl
  | ⟨_, _, _, some parent, _⟩ => by
    rw [getAncestry, root, List.head?_append, head?_getAncestry parent, Option.some_or]

/-- `getErrorKey`: a rethrow asks the first report of its ancestry, which has no parent. -/
def getErrorKey (er : ErrorReportOf ρ) : String :=
  match er.parent with
  | none => er.errorKey
  | some _ => er.root.errorKey

/-- `getErrorMessage`, likewise. -/
def getErrorMessage (er : ErrorReportOf ρ) : String :=
  match er.parent with
  | none => er.errorMessage
  | some _ => er.root.errorMessage

end ErrorReportOf

namespace Request

/-- `Request(target, reply)`. -/
def ofTargets (target reply : Target) : Request :=
  { target := target
    reply := reply
    requestId := target.identifier
    context := ∅
    bypass := PropertySet.new
    actionBypasses := ∅
    report := none
    workflowJson := "" }

/-- `Request::createReply`, of a request that is not null. -/
def createReply (request : Request) : Request :=
  { ofTargets request.reply request.target with requestId := request.requestId }

def getId (request : Request) : UUID := request.target.identifier

def getContext (request : Request) (key : String) : Option Context := request.context.find? key

/-- `setContext`: a null context is not stored. -/
def setContext (request : Request) (key : String) (ctx : Option Context) : Request :=
  match ctx with
  | some ctx => { request with context := request.context.insert key ctx }
  | none => request

end Request

end LibWorkflow
