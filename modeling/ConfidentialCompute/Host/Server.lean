import ConfidentialCompute.Cache
import ConfidentialCompute.Enclave.Execute
import ConfidentialCompute.Lib.Runs

/-!
# The host as a transition system

`enclave/nitro/host/host.go`: an untrusted proxy in front of the enclave. It collects
identical signed requests in a batch per request hash, hands a batch to the enclave when
it reaches the quorum threshold, and gives the outcome to everyone who waits for it.

The state is the host's fields, the batches it has allocated, the `handleExecute`
goroutines, and the goroutines started for batches: one quorum timer each, and one
execution for each dispatch. Objects are never freed, so they stand in lists and a pointer
is an index. A label is a clock reading and what happens at it:

* a `/requests` goroutine reads the configuration when it arrives, runs its section under
  `processRequestMutex` as one step, and then waits for its channel or its client;
* an execution returns from `processBatch` and then runs `completeBatch` as one step;
* a timer leaves its `select` and then runs `failBatchIfNotProcessed` as one step;
* a `/config` or `/publicKeys` answer of the enclave is processed, a cache is
  garbage-collected, or the server shuts down.

A handler that panics in its section leaves the mutex locked. Logging and metrics are left
out.
-/

namespace ConfidentialCompute

open Go Runs

def cacheDefaultTTL : Int := inboundProxyRequestCacheTTL

/-- The flags the handlers read. `main` refuses to start unless the quorum timeout is
below the lifetime of cache entries. -/
structure HostFlags where
  requireBFTQuorum : Bool
  quorumTimeout : Int
  /-- The timeout as `%v` prints it. -/
  quorumTimeoutText : String
  timeoutBeforeExpiry : quorumTimeout < cacheDefaultTTL

def statusRequestTimeout : Nat := 408
def statusBadGateway : Nat := 502
def statusServiceUnavailable : Nat := 503

/-- The sums are `uint32` and wrap. -/
def quorumThreshold (flags : HostFlags) (f : UInt32) : Nat :=
  if flags.requireBFTQuorum then (2 * f + 1).toNat else (f + 1).toNat

/-! ## What a batch ends in -/

/-- `fromEnclave`: the error is the enclave's own and is relayed as JSON. -/
structure BatchError where
  message : String
  fromEnclave : Bool
deriving DecidableEq

/-- `batchResponse`: a response or an error. -/
abbrev BatchResponse := Except BatchError ExecuteResponse

/-- The body of an answer that is not 200. `decoded` is the `Error` field, if the body
parses as an `EnclaveErrorResponse`. -/
inductive ErrorBody where
  | unreadable
  | text (body : String) (decoded : Option String)

/-- What becomes of the call that `processBatch` makes. -/
inductive EnclaveAnswer where
  | marshalFailed (err : String)
  | noRequest (err : String)
  | unreachable (err : String)
  | refused (status : String) (body : ErrorBody)
  | undecodable (err : String)
  | ok (resp : ExecuteResponse)

def processBatch : EnclaveAnswer → BatchResponse
  | .marshalFailed err => .error ⟨s!"failed to marshal batch of requests: {err}", false⟩
  | .noRequest err => .error ⟨s!"failed to create request: {err}", false⟩
  | .unreachable err => .error ⟨s!"failed to communicate with enclave: {err}", false⟩
  | .refused status .unreadable =>
      .error ⟨s!"enclave returned error: {status} (no message provided)", false⟩
  | .refused status (.text body none) =>
      .error ⟨s!"enclave returned error: {status} - {body}", false⟩
  | .refused status (.text body (some decoded)) =>
      if decoded ≠ "" then .error ⟨s!"enclave returned error: {status} - {decoded}", true⟩
      else .error ⟨s!"enclave returned error: {status} - {body}", false⟩
  | .undecodable err => .error ⟨s!"failed to decode response: {err}", false⟩
  | .ok resp => .ok resp

/-! ## State -/

/-- What a client of the host gets to see. -/
inductive HostReply where
  | error (status : Nat) (message : String)
  /-- The enclave's JSON error with the host's message. -/
  | enclaveError (status : Nat) (message : String)
  | success (resp : ExecuteResponse)
  /-- The enclave's answer as it came. -/
  | relayed (status : Nat)
  | aborted
deriving DecidableEq

inductive HostPC where
  | locking
  | waiting
  | done (reply : HostReply)
deriving DecidableEq

/-- A `handleExecute` goroutine, with the buffer of the channel it makes, of capacity one,
and everything that was ever sent on that channel. -/
structure HostCall where
  req : SignedComputeRequest
  config : EnclaveConfig
  pc : HostPC
  responseCh : Option BatchResponse
  sent : List BatchResponse
deriving DecidableEq

/-- A send that gives up when the buffer is full. -/
def HostCall.send (outcome : BatchResponse) (call : HostCall) : HostCall :=
  match call.responseCh with
  | none => { call with responseCh := some outcome, sent := call.sent ++ [outcome] }
  | some _ => call

/-- Channels are named by the call that made them; `done` says that `doneCh` is closed. -/
structure BatchRequest where
  requests : List SignedComputeRequest
  responseCh : List Nat
  signersSeen : Finset (Slice UInt8)
  createdAt : Int
  processingRequest : Bool
  done : Bool
deriving DecidableEq

/-- Where `handleQuorumTimeout` stands: in its `select`, on the way to
`failBatchIfNotProcessed`, or at its end. -/
inductive TimerPC where
  | waiting
  | failing (isShutdown : Bool)
  | exited
deriving DecidableEq

/-- A batch with the goroutine started for it and that goroutine's arguments. `storedAt` is
when its cache entry was last stored. -/
structure Batch extends BatchRequest where
  requestHash : Bytes32
  f : UInt32
  timer : TimerPC
  storedAt : Int
deriving DecidableEq

inductive ExecutionPC where
  | running
  | finished (outcome : BatchResponse)
  | completed (outcome : BatchResponse) (time : Int)
deriving DecidableEq

/-- A goroutine that runs `processBatch` on the requests of a batch. -/
structure Execution where
  batch : Nat
  requestHash : Bytes32
  requests : List SignedComputeRequest
  pc : ExecutionPC
deriving DecidableEq

structure HostServer where
  config : EnclaveConfig
  pendingRequestsCache : Cache Bytes32 Nat
  responseCache : Cache Bytes32 ExecuteResponse
  calls : List HostCall
  batches : List Batch
  executions : List Execution
  cancelled : Bool
  /-- A handler panicked while it held `processRequestMutex`. -/
  locked : Bool
  clock : Int

namespace HostServer

def newHostServer (start : Int) : HostServer where
  config := .zero
  pendingRequestsCache := Cache.newCache cacheDefaultTTL
  responseCache := Cache.newCache cacheDefaultTTL
  calls := []
  batches := []
  executions := []
  cancelled := false
  locked := false
  clock := start

end HostServer

/-! ## Configuration -/

/-- What comes of a request that the host forwards to the enclave; `none` is a body that
does not parse. -/
inductive Forwarded (α : Type) where
  | unreadableRequest
  | noRequest
  | disconnected
  | unreachable
  | unreadableResponse
  | oversizedResponse
  | answered (status : Nat) (body : Option α)

namespace HostServer

/-- `proxyConfig` takes the cases `disconnected` and `oversizedResponse` for the failures
they are to it. -/
def proxyConfig {α : Type} (s : HostServer) (applyConfig : HostServer → α → HostServer) :
    Forwarded α → HostServer × HostReply
  | .unreadableRequest => (s, .error statusBadRequest "failed to read request body")
  | .noRequest => (s, .error statusInternalServerError "failed to create request")
  | .disconnected | .unreachable =>
      (s, .error statusInternalServerError "failed to communicate with enclave")
  | .unreadableResponse | .oversizedResponse =>
      (s, .error statusInternalServerError "failed to read response body")
  | .answered status body =>
      if status = statusOK then
        match body with
        | none => (s, .error statusInternalServerError "failed to parse response")
        | some resp => (applyConfig s resp, .relayed status)
      else (s, .relayed status)

/-- POST `/config`. -/
def handleSetConfig (s : HostServer) (answer : Forwarded SetConfigResponse) :
    HostServer × HostReply :=
  s.proxyConfig (fun s configResp => { s with config := configResp.config }) answer

/-- PATCH `/config`. -/
def handleUpdateConfig (s : HostServer) (answer : Forwarded UpdateConfigResponse) :
    HostServer × HostReply :=
  s.proxyConfig (fun s configResp =>
    if configResp.applied then { s with config := configResp.config } else s) answer

/-- Restores an empty configuration from a `/publicKeys` answer; errors are only logged. -/
def maybeRecoverConfig (s : HostServer) (body : Option PublicKeyResponse) : HostServer :=
  if ¬ s.config.isZero then s
  else
    match body with
    | none => s
    | some resp =>
        if resp.config.t = 0 ∨ resp.config.signers.length = 0 ∨
            resp.config.masterPublicKey.length = 0 then s
        else { s with config := resp.config }

/-- GET `/publicKeys`, which has no body to read. -/
def handleGetPublicKeys (s : HostServer) (method : HttpMethod)
    (answer : Forwarded PublicKeyResponse) : HostServer × HostReply :=
  if method ≠ .get then (s, .error statusMethodNotAllowed "method not allowed")
  else
    match answer with
    | .unreadableRequest | .noRequest =>
        (s, .error statusInternalServerError "failed to create request")
    | .disconnected => (s, .error statusRequestTimeout "client disconnected")
    | .unreachable =>
        (s, .error statusInternalServerError "failed to communicate with enclave")
    | .unreadableResponse =>
        (s, .error statusBadGateway "failed to read enclave publicKeys response")
    | .oversizedResponse =>
        (s, .error statusBadGateway "enclave publicKeys response exceeds size limit")
    | .answered status body =>
        (if status = statusOK then s.maybeRecoverConfig body else s, .relayed status)

end HostServer

/-! ## Requests -/

/-- A `/requests` body as far as the host can read it. -/
inductive HostBody where
  | unreadable
  | invalidJson
  | request (execReq : SignedComputeRequest)

namespace HostServer

/-- Up to the configuration snapshot. A request that is refused leaves nothing behind. -/
def arrive (s : HostServer) (method : HttpMethod) (body : HostBody) :
    HostServer × Option HostReply :=
  if method ≠ .post then (s, some (.error statusMethodNotAllowed "method not allowed"))
  else
    match body with
    | .unreadable => (s, some (.error statusBadRequest "failed to read request body"))
    | .invalidJson => (s, some (.error statusBadRequest "invalid json"))
    | .request execReq =>
        if s.config.t = 0 ∧ s.config.f = 0 then
          (s, some (.error statusServiceUnavailable
            "service not accepting requests (T and F are zero)"))
        else
          ({ s with calls := s.calls ++ [⟨execReq, s.config, .locking, none, []⟩] }, none)

def setCall (s : HostServer) (i : Nat) (pc : HostPC) : HostServer :=
  { s with calls := s.calls.modify i fun call => { call with pc := pc } }

/-- The batch a pointer leads to. -/
def batch (s : HostServer) (b : Nat) : Batch :=
  s.batches[b]?.getD ⟨⟨[], [], ∅, 0, false, false⟩, default, 0, .exited, 0⟩

def newBatch (now : Int) (requestHash : Bytes32) (f : UInt32) : Batch :=
  ⟨⟨[], [], ∅, now, false, false⟩, requestHash, f, .waiting, now⟩

/-- The pending batch for the hash, or a new one with its timer started. -/
def findBatch (s : HostServer) (now : Int) (requestHash : Bytes32) (f : UInt32) :
    HostServer × Nat :=
  match s.pendingRequestsCache.get now requestHash with
  | some b => (s, b)
  | none =>
      ({ s with batches := s.batches ++ [newBatch now requestHash f] }, s.batches.length)

/-- The batch is stored under the hash again, which renews its entry. -/
def storeBatch (s : HostServer) (now : Int) (requestHash : Bytes32) (b : Nat)
    (br : BatchRequest) : HostServer :=
  { s with
    batches := s.batches.modify b fun cell =>
      { cell with toBatchRequest := br, storedAt := now }
    pendingRequestsCache := s.pendingRequestsCache.set now requestHash b none }

/-- A signer who is already in the batch only subscribes to its outcome. -/
def subscribe (i : Nat) (br : BatchRequest) : BatchRequest :=
  { br with responseCh := br.responseCh ++ [i] }

/-- The batch with a new signer's request; it is processed if that makes it reach exactly
the threshold. -/
def addRequest (flags : HostFlags) (i : Nat) (call : HostCall) (signer : Slice UInt8)
    (br : BatchRequest) : BatchRequest :=
  { br with
    signersSeen := insert signer br.signersSeen
    requests := br.requests ++ [call.req]
    responseCh := br.responseCh ++ [i]
    processingRequest := br.processingRequest ||
      br.requests.length + 1 == quorumThreshold flags call.config.f }

/-- The request joins the batch `b`. -/
def join (flags : HostFlags) (s : HostServer) (now : Int) (requestHash : Bytes32) (i : Nat)
    (call : HostCall) (signer : Slice UInt8) (b : Nat) : HostServer :=
  let br := (s.batch b).toBatchRequest
  if signer ∈ br.signersSeen then
    (s.storeBatch now requestHash b (subscribe i br)).setCall i .waiting
  else
    let br' := addRequest flags i call signer br
    let s := (s.storeBatch now requestHash b br').setCall i .waiting
    if br'.requests.length = quorumThreshold flags call.config.f then
      { s with executions := s.executions ++ [⟨b, requestHash, br'.requests, .running⟩] }
    else s

/-- The section under `processRequestMutex`. -/
def enter (crypto : Crypto) (flags : HostFlags) (s : HostServer) (now : Int) (i : Nat)
    (call : HostCall) : HostServer :=
  let requestHash := call.req.hash crypto
  match verifySignature crypto (requestPayload crypto requestHash) call.req.signature
      call.config.signers with
  | .panicked => { s.setCall i (.done .aborted) with locked := true }
  | .err e =>
      let reason := e.message
      s.setCall i (.done (.error statusBadRequest s!"invalid signature: {reason}"))
  | .ok signer =>
      match s.responseCache.get now requestHash with
      | some cachedResp => s.setCall i (.done (.success cachedResp))
      | none =>
          let (s, b) := s.findBatch now requestHash call.config.f
          s.join flags now requestHash i call signer b

/-- What a goroutine makes of the outcome of its batch. -/
def respond (call : HostCall) : BatchResponse → HostReply
  | .error err =>
      let requestID := hexString call.req.requestID.data
      let text := err.message
      let msg := s!"error for request ID {requestID}: {text}"
      if err.fromEnclave then .enclaveError statusInternalServerError msg
      else .error statusInternalServerError msg
  | .ok resp => .success resp

/-! ## Outcomes -/

/-- The loop over the channels of a batch. -/
def notifyWaiters (calls : List HostCall) (outcome : BatchResponse) (responseCh : List Nat) :
    List HostCall :=
  responseCh.foldl (fun calls i => calls.modify i (HostCall.send outcome)) calls

/-- The pending batch is looked up by hash once more. -/
def completeBatch (s : HostServer) (now : Int) (requestHash : Bytes32)
    (outcome : BatchResponse) : HostServer :=
  match s.pendingRequestsCache.get now requestHash with
  | none => s
  | some b =>
      { s with
        batches := s.batches.modify b fun cell => { cell with done := true }
        calls := notifyWaiters s.calls outcome (s.batch b).responseCh
        responseCache :=
          match outcome with
          | .ok resp => s.responseCache.set now requestHash resp none
          | .error _ => s.responseCache
        pendingRequestsCache := s.pendingRequestsCache.delete requestHash }

def errQuorumTimeout : String := "quorum_timeout"

def timeoutError (flags : HostFlags) (received : Nat) (f : UInt32) (isShutdown : Bool) :
    BatchError :=
  if isShutdown then ⟨"server_shutdown: request cancelled due to server shutdown", false⟩
  else
    let threshold := quorumThreshold flags f
    let timeout := flags.quorumTimeoutText
    ⟨s!"{errQuorumTimeout}: received {received} of {threshold} required signatures within {timeout}",
      false⟩

/-- `doneCh` stays open: the goroutine that waits on it is the one that runs this. -/
def failBatchIfNotProcessed (flags : HostFlags) (s : HostServer) (now : Int)
    (requestHash : Bytes32) (f : UInt32) (isShutdown : Bool) : HostServer :=
  match s.pendingRequestsCache.get now requestHash with
  | none => s
  | some b =>
      let br := s.batch b
      if br.processingRequest then s
      else
        { s with
          calls := notifyWaiters s.calls
            (.error (timeoutError flags br.requests.length f isShutdown)) br.responseCh
          pendingRequestsCache := s.pendingRequestsCache.delete requestHash }

end HostServer

/-! ## Steps -/

inductive HostAction where
  | getPublicKeys (method : HttpMethod) (answer : Forwarded PublicKeyResponse)
  | setConfig (answer : Forwarded SetConfigResponse)
  | updateConfig (answer : Forwarded UpdateConfigResponse)
  | arrive (method : HttpMethod) (body : HostBody)
  | enter (i : Nat)
  | receive (i : Nat)
  | disconnect (i : Nat)
  /-- `processBatch` returns. -/
  | process (e : Nat) (answer : EnclaveAnswer)
  | complete (e : Nat)
  /-- The cases of the timer's `select`. -/
  | timeout (b : Nat)
  | batchDone (b : Nat)
  | contextDone (b : Nat)
  | failBatch (b : Nat)
  | shutdown
  | collectPending
  | collectResponses

def HostAction.isArrival : HostAction → Bool
  | .arrive _ _ => true
  | _ => false

/-- An answer of the enclave to a `/config` or `/publicKeys` request is processed. -/
def HostAction.isConfig : HostAction → Bool
  | .getPublicKeys _ _ | .setConfig _ | .updateConfig _ => true
  | _ => false

structure HostLabel where
  now : Int
  action : HostAction

namespace HostServer

def setExecution (s : HostServer) (e : Nat) (pc : ExecutionPC) : HostServer :=
  { s with executions := s.executions.modify e fun execution => { execution with pc := pc } }

def setTimer (s : HostServer) (b : Nat) (pc : TimerPC) : HostServer :=
  { s with batches := s.batches.modify b fun cell => { cell with timer := pc } }

def callStep (crypto : Crypto) (flags : HostFlags) (s : HostServer) (now : Int) (i : Nat)
    (call : HostCall) : Option HostServer :=
  if call.pc = .locking ∧ s.locked = false then some (s.enter crypto flags now i call) else none

def receiveStep (s : HostServer) (i : Nat) (call : HostCall) : Option HostServer :=
  match call.pc, call.responseCh with
  | .waiting, some outcome =>
      some { s with calls := s.calls.modify i fun call =>
        { call with pc := .done (respond call outcome), responseCh := none } }
  | _, _ => none

def completeStep (s : HostServer) (now : Int) (e : Nat) (execution : Execution) :
    Option HostServer :=
  match execution.pc with
  | .finished outcome =>
      if s.locked = false then
        some ((s.completeBatch now execution.requestHash outcome).setExecution e
          (.completed outcome now))
      else none
  | _ => none

/-- One case of the `select`, with what makes it ready. -/
def selectStep (s : HostServer) (b : Nat) (ready : Batch → Prop) [DecidablePred ready]
    (next : TimerPC) : Option HostServer :=
  match s.batches[b]? with
  | none => none
  | some cell => if cell.timer = .waiting ∧ ready cell then some (s.setTimer b next) else none

def failStep (flags : HostFlags) (s : HostServer) (now : Int) (b : Nat) (cell : Batch) :
    Option HostServer :=
  match cell.timer with
  | .failing isShutdown =>
      if s.locked = false then
        some ((failBatchIfNotProcessed flags s now cell.requestHash cell.f isShutdown).setTimer b
          .exited)
      else none
  | _ => none

def act (crypto : Crypto) (flags : HostFlags) (s : HostServer) (now : Int) :
    HostAction → Option HostServer
  | .getPublicKeys method answer => some (s.handleGetPublicKeys method answer).1
  | .setConfig answer => some (s.handleSetConfig answer).1
  | .updateConfig answer => some (s.handleUpdateConfig answer).1
  | .arrive method body => some (s.arrive method body).1
  | .enter i => s.calls[i]?.bind (s.callStep crypto flags now i)
  | .receive i => s.calls[i]?.bind (s.receiveStep i)
  | .disconnect i => s.calls[i]?.bind fun call =>
      if call.pc = .waiting then
        some (s.setCall i (.done (.error statusRequestTimeout "client disconnected")))
      else none
  | .process e answer => s.executions[e]?.bind fun execution =>
      if execution.pc = .running then some (s.setExecution e (.finished (processBatch answer)))
      else none
  | .complete e => s.executions[e]?.bind (s.completeStep now e)
  | .timeout b =>
      s.selectStep b (fun cell => cell.createdAt + flags.quorumTimeout ≤ now) (.failing false)
  | .batchDone b => s.selectStep b (fun cell => cell.done = true) .exited
  | .contextDone b => s.selectStep b (fun _ => s.cancelled = true) (.failing true)
  | .failBatch b => s.batches[b]?.bind (s.failStep flags now b)
  | .shutdown => some { s with cancelled := true }
  | .collectPending =>
      some { s with pendingRequestsCache := (s.pendingRequestsCache.garbageCollect now).1 }
  | .collectResponses => some { s with responseCache := (s.responseCache.garbageCollect now).1 }

/-- The clock never goes back. -/
def step (crypto : Crypto) (flags : HostFlags) (s : HostServer) (l : HostLabel) :
    Option HostServer :=
  if s.clock ≤ l.now then { s with clock := l.now }.act crypto flags l.now l.action else none

end HostServer

end ConfidentialCompute
