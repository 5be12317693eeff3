import ConfidentialCompute.Executor.Retry
import ConfidentialCompute.Lib.Semaphore
import ConfidentialCompute.Workflows.SettingsRuns

/-!
# Executions of workflows

`Execute` and `executeWasm` of the workflows app, with the limit on executions that
`memlimit` derives from the enclave's memory. An execution takes a slot or is turned away, waits
for the grace period, has its binary fetched, and takes one of the compile slots of the semaphore
that the settings have put in place by then; an injection may put another one in place while
executions hold or await slots of the old one. Then the guest runs.

The semaphores are those of `lib`. The state holds the app's settings, the slots, the semaphores
made so far and the executions.
Each access to shared state is a step; what the storage service, the compiler and the guest
return, and when, is open.
-/

namespace ConfidentialCompute.Workflows

open Go Runs

variable {φ : Type} {lib : Semaphores Nat}

/-! ## The limit -/

def reserveMB : UInt64 := 1024

def perExecMB : UInt64 := 128

def fallbackConcurrency : Int := 8

/-- The fields of `sysinfo(2)` that are read. -/
structure Sysinfo where
  totalram : UInt64
  unit : UInt32

def totalMemoryMB (sysinfo : Option Sysinfo) : Option UInt64 :=
  sysinfo.map fun si => si.totalram * si.unit.toUInt64 / (1024 * 1024)

/-- `int64(..)` of an unsigned word. -/
def toInt64 (n : UInt64) : Int := Int.bmod n.toNat (2 ^ 64)

def concurrency (totalMB reserveMB perExecMB : UInt64) : Int :=
  if perExecMB = 0 ∨ totalMB ≤ reserveMB then 1
  else
    let n := toInt64 ((totalMB - reserveMB) / perExecMB)
    if n < 1 then 1 else n

/-- What `Derive` puts in `MaxConcurrent`. -/
def deriveMaxConcurrent (sysinfo : Option Sysinfo) : Int :=
  match totalMemoryMB sysinfo with
  | none => fallbackConcurrency
  | some totalMB =>
      if totalMB = 0 then fallbackConcurrency else concurrency totalMB reserveMB perExecMB

/-! ## Requests -/

def appIDConfidentialWorkflows : Bytes := ascii "confidential-workflows@1.0.0-alpha"

def statusTooManyRequests : Nat := 429

def statusGatewayTimeout : Nat := 504

/-- The fields of `WorkflowExecution` that are checked or reported. -/
structure WorkflowExecution where
  workflowId : Bytes
  binaryUrl : Bytes
  binaryHash : Bytes
  hasSdkExecuteRequest : Bool
deriving DecidableEq

/-- The input of a call as far as it can be decoded. -/
inductive WorkflowInput where
  | malformed (err : Bytes)
  | execution (execution : WorkflowExecution)

/-- `ExecuteError`. -/
structure WorkflowError where
  error : Bytes
  code : Nat
deriving DecidableEq

abbrev WorkflowResult := Except WorkflowError Bytes

def atCapacity : WorkflowError :=
  ⟨ascii "enclave at capacity: too many concurrent executions", statusTooManyRequests⟩

/-- The checks that come before the wait. -/
def validateExecution (appID : Bytes) (input : WorkflowInput) :
    Except WorkflowError WorkflowExecution :=
  let bad (text : Bytes) : Except WorkflowError WorkflowExecution :=
    .error ⟨text, statusBadRequest⟩
  if appID ≠ appIDConfidentialWorkflows then
    bad (ascii "invalid app ID: expected " ++ appIDConfidentialWorkflows ++ ascii ", got " ++ appID)
  else
    match input with
    | .malformed err => bad (ascii "unable to unmarshal request data: " ++ err)
    | .execution execution =>
        if execution.workflowId = [] then bad (ascii "workflow_id is required")
        else if execution.binaryUrl = [] then bad (ascii "binary_url is required")
        else if execution.binaryHash = [] then bad (ascii "binary_hash is required")
        else if execution.hasSdkExecuteRequest = false then
          bad (ascii "execute_request is required")
        else .ok execution

/-- An error of `executeWasm`, and whether it wraps `context.DeadlineExceeded`. -/
structure WasmError where
  text : Bytes
  deadlineExceeded : Bool
deriving DecidableEq

def contextDeadlineExceeded : WasmError := ⟨ascii "context deadline exceeded", true⟩

/-- `fmt.Errorf("..: %w", err)`. -/
def WasmError.wrap (err : WasmError) (what : String) : WasmError :=
  { err with text := ascii what ++ ascii ": " ++ err.text }

def WasmError.toWorkflowError (err : WasmError) : WorkflowError :=
  let errMsg := ascii "executing wasm: " ++ err.text
  if err.deadlineExceeded then
    ⟨errWasmExecutionTimeout ++ ascii ": " ++ errMsg, statusGatewayTimeout⟩
  else ⟨errMsg, statusInternalServerError⟩

/-! ## Where an execution is -/

/-- The context of a run: when its timer is due, and whether the timer has fired. -/
structure ExecContext where
  deadline : Option Int
  expired : Bool
deriving DecidableEq

/-- `gate` is the number of the semaphore that the execution has loaded. From `granted` to
`leaving` it holds a compile slot of it. -/
inductive WorkflowPC where
  | validated (execution : WorkflowExecution)
  | sleeping (execution : WorkflowExecution) (wakes : Int)
  | fetching (execution : WorkflowExecution)
  | checking (execution : WorkflowExecution)
  | loadingTimeout
  | loadingGate (timeout : Int)
  | acquiring (timeout : Int) (gate : Nat)
  | queued (timeout : Int) (gate : Nat)
  | granted (timeout : Int) (gate : Nat)
  | compiling (gate : Nat) (ctx : ExecContext)
  | leaving (gate : Nat) (outcome : Except WasmError ExecContext)
  | running (ctx : ExecContext)
  | returning (result : WorkflowResult)
  | returned (result : WorkflowResult)
deriving DecidableEq

namespace WorkflowPC

/-- `close(w.ready)`. -/
def wake : WorkflowPC → WorkflowPC
  | .queued timeout gate => .granted timeout gate
  | pc => pc

/-- The binary has been fetched, or has not. -/
def fetched (result : Except Bytes Unit) : WorkflowPC → Option WorkflowPC
  | .fetching execution =>
      match result with
      | .ok () => some (.checking execution)
      | .error err =>
          some (.returning (.error ⟨ascii "fetching binary: " ++ err, statusBadGateway⟩))
  | _ => none

/-- `CheckRequirements` says whether the requirements, whose JSON text is given, are met. -/
def checked (meets : Bool) (requirements : Bytes) : WorkflowPC → Option WorkflowPC
  | .checking execution =>
      if meets then some .loadingTimeout
      else
        some (.returning (.error ⟨ascii "this TEE doesn't meet the requirements " ++
          requirements ++ ascii " of the workflow: " ++ execution.workflowId, statusBadRequest⟩))
  | _ => none

/-- The timer of the context fires. -/
def expire (now : Int) : WorkflowPC → Option WorkflowPC
  | .compiling gate ⟨some deadline, false⟩ =>
      if deadline ≤ now then some (.compiling gate ⟨some deadline, true⟩) else none
  | .leaving gate (.ok ⟨some deadline, false⟩) =>
      if deadline ≤ now then some (.leaving gate (.ok ⟨some deadline, true⟩)) else none
  | .running ⟨some deadline, false⟩ =>
      if deadline ≤ now then some (.running ⟨some deadline, true⟩) else none
  | _ => none

/-- `NewModule` returns. That the timer has fired meanwhile outweighs what it returns. -/
def compiled (result : Except WasmError Unit) : WorkflowPC → Option WorkflowPC
  | .compiling gate ctx =>
      if ctx.expired then
        some (.leaving gate (.error (contextDeadlineExceeded.wrap "creating wasm module")))
      else
        match result with
        | .error err => some (.leaving gate (.error (err.wrap "creating wasm module")))
        | .ok () => some (.leaving gate (.ok ctx))
  | _ => none

/-- The guest returns, and its result can be marshalled or not. -/
def guestReturns (result : Except WasmError (Except Bytes Bytes)) : WorkflowPC → Option WorkflowPC
  | .running _ =>
      match result with
      | .error err => some (.returning (.error (err.wrap "executing wasm").toWorkflowError))
      | .ok (.error err) =>
          some (.returning (.error ⟨ascii "marshalling workflow response: " ++ err,
            statusInternalServerError⟩))
      | .ok (.ok output) => some (.returning (.ok output))
  | _ => none

end WorkflowPC

/-! ## Steps -/

structure ExecutionSystem (lib : Semaphores Nat) (φ : Type) where
  app : WorkflowsApp φ
  injections : GoMap Nat (InjectCall φ)
  /-- What the limiter was made with. -/
  limit : Int
  /-- How many slots are taken. -/
  slots : Nat
  gates : List lib.Weighted
  calls : List WorkflowPC
  clock : Int

inductive ExecutionAction (φ : Type) where
  | inject (id : Nat) (body : SettingsBody) (factories : Factories φ)
  | injectStep (id : Nat) (i : InjectStep)
  | execute (appID : Bytes) (input : WorkflowInput)
  | proceed (id : Nat)
  | fetched (id : Nat) (result : Except Bytes Unit)
  | checked (id : Nat) (meets : Bool) (requirements : Bytes)
  | expire (id : Nat)
  | compiled (id : Nat) (result : Except WasmError Unit)
  | guestReturns (id : Nat) (result : Except WasmError (Except Bytes Bytes))

/-- A step and the reading of the clock it makes. -/
structure ExecutionLabel (φ : Type) where
  now : Int
  action : ExecutionAction φ

namespace ExecutionSystem

/-- An app into which nothing has been injected. -/
def init (lib : Semaphores Nat) (httpFetcher : Option Int) (limit start : Int) :
    ExecutionSystem lib φ where
  app := .initial httpFetcher
  injections := ∅
  limit := limit
  slots := 0
  gates := [lib.newWeighted defaultMaxConcurrentCompilations]
  calls := []
  clock := start

def put (s : ExecutionSystem lib φ) (id : Nat) (pc : WorkflowPC) : ExecutionSystem lib φ :=
  { s with calls := s.calls.set id pc }

/-- A payload that fails the check leaves nothing to do. -/
def inject (s : ExecutionSystem lib φ) (id : Nat) (body : SettingsBody) (factories : Factories φ) :
    ExecutionSystem lib φ :=
  match body with
  | .malformed _ => s
  | .settings req =>
      match req.validate with
      | .error _ => s
      | .ok () => { s with injections := s.injections.insert id (.start req factories) }

/-- The settings after one step of an injection. A semaphore that is put in place is a new
one. -/
def withSettings (s : ExecutionSystem lib φ) (app : WorkflowsApp φ)
    (injections : GoMap Nat (InjectCall φ)) : ExecutionSystem lib φ :=
  { s with
    app := app
    injections := injections
    gates := if app.compileSlots = s.app.compileSlots then s.gates
      else s.gates ++ [lib.newWeighted app.compileSlots.size] }

/-- `tryAcquire`, and the checks. -/
def execute (s : ExecutionSystem lib φ) (appID : Bytes) (input : WorkflowInput) :
    ExecutionSystem lib φ :=
  if 0 < s.limit ∧ s.limit ≤ s.slots then
    { s with calls := s.calls ++ [.returned (.error atCapacity)] }
  else
    { s with
      slots := if 0 < s.limit then s.slots + 1 else s.slots
      calls := s.calls ++ [match validateExecution appID input with
        | .error err => .returning (.error err)
        | .ok execution => .validated execution] }

/-- A compile slot is given back, and who waits for it is woken. -/
def releaseGate (s : ExecutionSystem lib φ) (gate : Nat) (slot : lib.Weighted) :
    ExecutionSystem lib φ :=
  { s with
    gates := s.gates.set gate (lib.release slot).1
    calls := match (lib.release slot).2 with
      | none => s.calls
      | some id => s.calls.modify id WorkflowPC.wake }

/-- One access of an execution to shared state. -/
def proceed (s : ExecutionSystem lib φ) (now : Int) (id : Nat) :
    WorkflowPC → Option (ExecutionSystem lib φ)
  | .validated execution =>
      if 0 < s.app.gracePeriod then some (s.put id (.sleeping execution (now + s.app.gracePeriod)))
      else some (s.put id (.fetching execution))
  | .sleeping execution wakes =>
      if wakes ≤ now then some (s.put id (.fetching execution)) else none
  | .loadingTimeout => some (s.put id (.loadingGate s.app.executionTimeout))
  | .loadingGate timeout => some (s.put id (.acquiring timeout s.app.compileSlots.serial))
  | .acquiring timeout gate =>
      match s.gates[gate]? with
      | none => none
      | some slot =>
          match lib.acquire slot id with
          | (slot, .granted) =>
              some ({ s with gates := s.gates.set gate slot }.put id (.granted timeout gate))
          | (slot, .queued) =>
              some ({ s with gates := s.gates.set gate slot }.put id (.queued timeout gate))
          | (_, .never) => none
  | .granted timeout gate =>
      some (s.put id
        (.compiling gate ⟨if 0 < timeout then some (now + timeout) else none, false⟩))
  | .leaving gate outcome =>
      match s.gates[gate]? with
      | none => none
      | some slot =>
          some ((s.releaseGate gate slot).put id (match outcome with
            | .error err => .returning (.error err.toWorkflowError)
            | .ok ctx => .running ctx))
  | .returning result =>
      some ({ s with slots := if 0 < s.limit then s.slots - 1 else s.slots }.put id
        (.returned result))
  | .fetching _ | .checking _ | .queued _ _ | .compiling _ _ | .running _ | .returned _ => none

/-- An execution goes on with what it has been waiting for. -/
def answer (s : ExecutionSystem lib φ) (id : Nat) (next : WorkflowPC → Option WorkflowPC) :
    Option (ExecutionSystem lib φ) := do
  let pc ← s.calls[id]?
  let pc ← next pc
  return s.put id pc

def act (s : ExecutionSystem lib φ) (now : Int) :
    ExecutionAction φ → Option (ExecutionSystem lib φ)
  | .inject id body factories =>
      if (s.injections.lookup id).isSome then none else some (s.inject id body factories)
  | .injectStep id i => do
      let call ← s.injections.lookup id
      let (app, call) ← call.take s.app i
      return s.withSettings app (s.injections.insert id call)
  | .execute appID input => some (s.execute appID input)
  | .proceed id => do
      let pc ← s.calls[id]?
      s.proceed now id pc
  | .fetched id result => s.answer id (·.fetched result)
  | .checked id meets requirements => s.answer id (·.checked meets requirements)
  | .expire id => s.answer id (·.expire now)
  | .compiled id result => s.answer id (·.compiled result)
  | .guestReturns id result => s.answer id (·.guestReturns result)

/-- The clock never goes back. -/
def step (s : ExecutionSystem lib φ) (l : ExecutionLabel φ) : Option (ExecutionSystem lib φ) :=
  if s.clock ≤ l.now then { s with clock := l.now }.act l.now l.action else none

end ExecutionSystem

end ConfidentialCompute.Workflows
