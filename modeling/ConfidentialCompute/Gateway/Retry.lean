import ConfidentialCompute.Gateway.Client
import ConfidentialCompute.Sample

/-!
# Retries of a gateway request

`sendWithRetry` of the workflows app's dispatcher. It repeats `SendRequest` until a result arrives
or the retry window closes. A JSON-RPC error ends the loop unless it is one that clears on its own;
every other error is taken for a fault of the gateways and is retried. But `SendRequest` also
returns errors that are neither: an HTTP 4xx, an oversize body, a malformed body. Its own loop
treats these as final answers, and this one does not.

The turns of the loop are numbered, and so are the moments at which it asks its context: a turn
asks once at its head, at most `2 * n` times within `SendRequest` over `n` gateways, and once while
it backs off.
-/

namespace ConfidentialCompute.Gateway

open Go

/-! ## The loop -/

/-- The error with which the loop gives up, after the errors that it has retried. -/
structure RetryError where
  what : Bytes
  cause : SendError
  transientErrs : List SendError
deriving DecidableEq

def RetryError.text (e : RetryError) : Bytes :=
  let sending := ascii "sending " ++ e.what ++ ascii ": " ++ e.cause.text
  if e.transientErrs = [] then sending
  else sending ++ ascii " (transient attempts: " ++
    joinLines (e.transientErrs.map SendError.text) ++ ascii ")"

/-- What a call is given, the gateways' part of each turn included. -/
structure RetryCall (ε α : Type) where
  proto : JsonRpc
  crypto : Crypto
  client : GatewayClient
  retryCtx : Context
  what : Bytes
  method : Bytes
  paramsJSON : Bytes
  verify : Option Bytes → Except ε α
  exchange : Nat → Exchange

inductive RetryState (ε α : Type) where
  | running (client : GatewayClient) (transientErrs : List SendError)
  | verified (result : Except ε α)
  | gaveUp (err : RetryError)
  | panicked

/-- A JSON-RPC error that does not clear on its own. -/
def SendError.terminal (err : SendError) : Bool :=
  match err.rpcErr with
  | some rpcErr => !decide rpcErr.Retryable
  | none => false

namespace RetryCall

variable {ε α : Type}

/-- The moment at which the turn `i` begins. -/
def head (call : RetryCall ε α) (i : Nat) : Nat := i * (2 * call.client.gatewayURLs.length + 2)

/-- The `SendRequest` of the turn `i`. -/
def attempt (call : RetryCall ε α) (c : GatewayClient) (i : Nat) : SendResult :=
  c.sendRequest call.proto call.crypto (call.retryCtx.after (call.head i + 1)) call.method
    call.paramsJSON (call.exchange i)

/-- One turn of the loop. -/
def turn (call : RetryCall ε α) (i : Nat) : RetryState ε α → RetryState ε α
  | .running c transientErrs =>
      match call.retryCtx.err (call.head i) with
      | some err => .gaveUp ⟨call.what, .context err, transientErrs⟩
      | none =>
          match (call.attempt c i).result with
          | .ok resultJSON => .verified (call.verify resultJSON)
          | .panicked => .panicked
          | .err err =>
              if err.terminal then .gaveUp ⟨call.what, err, transientErrs⟩
              else
                match call.retryCtx.err
                    (call.head i + 2 * call.client.gatewayURLs.length + 1) with
                | some ctxErr => .gaveUp ⟨call.what, .context ctxErr, transientErrs ++ [err]⟩
                | none => .running (call.attempt c i).client (transientErrs ++ [err])
  | s => s

/-- The state after a number of turns. -/
def sendWithRetry (call : RetryCall ε α) : Nat → RetryState ε α
  | 0 => .running call.client []
  | i + 1 => call.turn i (call.sendWithRetry i)

/-- The `SendRequest` that the turn `i` issues, if it issues one. -/
def sent (call : RetryCall ε α) (i : Nat) : Option SendResult :=
  match call.sendWithRetry i, call.retryCtx.err (call.head i) with
  | .running c _, none => some (call.attempt c i)
  | _, _ => none

end RetryCall

/-! ## What is retried -/

/-- The gateway is at fault: a transport error, or an HTTP 5xx without a JSON-RPC body. -/
def AtFault (proto : JsonRpc) : Post → Prop
  | .unsent _ | .unread _ => True
  | .answered statusCode body => 500 ≤ statusCode ∧ statusCode < 600 ∧
      body.length ≤ maxEnclaveResponseBodyBytes ∧ ∃ err, proto.decodeResponse body = .error err
  | .uncreated _ => False

/-- A call whose gateways were all at fault, one at least. -/
def AllAtFault (proto : JsonRpc) (x : Exchange) (sent : SendResult) : Prop :=
  sent.contacted ≠ [] ∧ ∀ p ∈ sent.contacted, AtFault proto (x.post p)

/-- A failure that is to be retried. -/
def WorthRetry (proto : JsonRpc) (x : Exchange) (sent : SendResult) : Prop :=
  (∃ err, sent.result = .err err) ∧
    (AllAtFault proto x sent ∨ ∃ e, sent.result = .err (.answer (.rpc e)) ∧ e.Retryable)

section

variable {ε α : Type} {call : RetryCall ε α} {i : Nat} {prev next : SendResult}

theorem not_terminal_iff {err : SendError} :
    err.terminal = false ↔ ∀ e, err = .answer (.rpc e) → e.Retryable := by
  unfold SendError.terminal
  cases isRPC : err.rpcErr with
  | none =>
      refine ⟨fun _ e is => ?_, fun _ => rfl⟩
      rw [is] at isRPC
      cases isRPC
  | some e =>
      have is : err = .answer (.rpc e) := by
        unfold SendError.rpcErr at isRPC
        split at isRPC
        · cases isRPC
          rfl
        · cases isRPC
      simp [is]

theorem rpc_of_terminal {err : SendError} (terminal : err.terminal = true) :
    ∃ e, err = .answer (.rpc e) := by
  by_contra none_
  have open_ : err.terminal = false := not_terminal_iff.mpr fun e is => (none_ ⟨e, is⟩).elim
  cases terminal.symm.trans open_

theorem head_succ : call.head (i + 1) =
    call.head i + 2 * call.client.gatewayURLs.length + 1 + 1 := by
  unfold RetryCall.head
  rw [Nat.add_mul, Nat.one_mul]
  rfl

theorem Context.lives_before {ctx : Context} {moment later : Nat} (alive : ctx.err later = none)
    (le : moment ≤ later) : ctx.err moment = none := by
  cases ended : ctx.err moment with
  | none => rfl
  | some err => cases (ctx.stays moment err ended later le).symm.trans alive

/-- A further `SendRequest` is issued after an error that is not final, if the window is open. -/
theorem sent_succ_iff :
    (call.sent (i + 1)).isSome = true ↔
      ∃ prev err, call.sent i = some prev ∧ prev.result = .err err ∧ err.terminal = false ∧
        call.retryCtx.err (call.head (i + 1)) = none := by
  have head := @head_succ ε α call i
  unfold RetryCall.sent
  rw [RetryCall.sendWithRetry]
  cases state : call.sendWithRetry i with
  | verified result => simp [RetryCall.turn]
  | gaveUp err => simp [RetryCall.turn]
  | panicked => simp [RetryCall.turn]
  | running c transientErrs =>
      rw [RetryCall.turn]
      cases first : call.retryCtx.err (call.head i) with
      | some err => simp
      | none =>
          dsimp only
          cases result : (call.attempt c i).result with
          | ok resultJSON => simp [result]
          | panicked => simp [result]
          | err err =>
              cases terminal : err.terminal with
              | true => simp [result, terminal]
              | false =>
                  cases second : call.retryCtx.err (call.head (i + 1)) with
                  | some ctxErr =>
                      cases between : call.retryCtx.err
                          (call.head i + 2 * call.client.gatewayURLs.length + 1) with
                      | some err => simp
                      | none => simp
                  | none =>
                      have between : call.retryCtx.err
                          (call.head i + 2 * call.client.gatewayURLs.length + 1) = none :=
                        Context.lives_before second (by rw [head]; exact Nat.le_succ _)
                      simp [result, terminal, between]

/-- The JSON-RPC error that a gateway has given is the error of the call. -/
theorem rpc_iff {proto : JsonRpc} {crypto : Crypto} {c : GatewayClient} {ctx : Context}
    {method params : Bytes} {x : Exchange} {err : SendError}
    (failed : (c.sendRequest proto crypto ctx method params x).result = .err err) (e : RPCError) :
    (∃ p ∈ (c.sendRequest proto crypto ctx method params x).contacted,
        Settles proto (x.post p) (.error (.rpc e))) ↔ err = .answer (.rpc e) := by
  by_cases none_ : c.gatewayURLs.length = 0
  · unfold GatewayClient.sendRequest at failed ⊢
    rw [if_pos none_] at failed ⊢
    cases failed
    simp
  · cases built : c.buildRequest proto crypto method params x.random with
    | error err' =>
        rw [sendRequest_unbuilt none_ built] at failed ⊢
        cases failed
        have unanswered := buildRequest_ne_answer (.rpc e) built
        simp [unanswered]
    | ok req =>
        rw [sendRequest_built none_ built] at failed ⊢
        have ended : Ended proto ctx x.post c.gatewayURLs.length c.gatewayURLs.length
            (failover proto c.gatewayURLs ctx x.post c.start c.gatewayURLs.length 0 []) :=
          failover_ended (Nat.zero_add _) []
        generalize failover proto c.gatewayURLs ctx x.post c.start c.gatewayURLs.length 0 [] =
          visit at ended failed ⊢
        exact ended.rpc_iff failed e

theorem sent_rpc_iff {err : SendError} (issued : call.sent i = some prev)
    (failed : prev.result = .err err) (e : RPCError) :
    (∃ p ∈ prev.contacted, Settles call.proto ((call.exchange i).post p) (.error (.rpc e))) ↔
      err = .answer (.rpc e) := by
  unfold RetryCall.sent at issued
  split at issued
  · cases issued
    exact rpc_iff failed e
  · cases issued

/-- The loop retries only failures that are worth it, JSON-RPC errors that clear on their own and
calls with every gateway at fault, exactly when every failure that occurs while the window is open
is a JSON-RPC error or leaves every gateway at fault. -/
theorem retried_only_at_fault (call : RetryCall ε α) :
    (∀ i next, call.sent (i + 1) = some next →
        ∃ prev, call.sent i = some prev ∧ WorthRetry call.proto (call.exchange i) prev) ↔
      (∀ i prev err, call.sent i = some prev → prev.result = .err err →
        call.retryCtx.err (call.head (i + 1)) = none →
        AllAtFault call.proto (call.exchange i) prev ∨
          ∃ e, ∃ p ∈ prev.contacted,
            Settles call.proto ((call.exchange i).post p) (.error (.rpc e))) := by
  constructor
  · intro worth i prev err issued failed isOpen
    cases terminal : err.terminal with
    | true =>
        obtain ⟨e, isRPC⟩ := rpc_of_terminal terminal
        exact Or.inr ⟨e, (sent_rpc_iff issued failed e).mpr isRPC⟩
    | false =>
        obtain ⟨next, issued'⟩ := Option.isSome_iff_exists.mp
          (sent_succ_iff.mpr ⟨prev, err, issued, failed, terminal, isOpen⟩)
        obtain ⟨prev', same, _, fault | ⟨e, isRPC, _⟩⟩ := worth i next issued'
        · cases issued.symm.trans same
          exact Or.inl fault
        · cases issued.symm.trans same
          cases failed.symm.trans isRPC
          exact Or.inr ⟨e, (sent_rpc_iff issued failed e).mpr rfl⟩
  · intro tame i next issued'
    obtain ⟨prev, err, issued, failed, terminal, isOpen⟩ :=
      sent_succ_iff.mp (Option.isSome_iff_exists.mpr ⟨next, issued'⟩)
    refine ⟨prev, issued, ⟨err, failed⟩, ?_⟩
    rcases tame i prev err issued failed isOpen with fault | ⟨e, answered⟩
    · exact Or.inl fault
    · have isRPC := (sent_rpc_iff issued failed e).mp answered
      exact Or.inr ⟨e, isRPC ▸ failed, not_terminal_iff.mp terminal e isRPC⟩

end

namespace Sample

/-- One gateway, which answers every request with HTTP 404 and an empty body. -/
def notFound : RetryCall Unit (Option Bytes) where
  proto := jsonRpc
  crypto := ConfidentialCompute.Sample.crypto
  client := ⟨⟨[url 1], by decide⟩, none, 0⟩
  retryCtx := .background
  what := ascii "secrets request"
  method := ascii "m"
  paramsJSON := []
  verify := .ok
  exchange _ := exchange fun _ => .answered 404 []

end Sample

/-- A gateway answers with HTTP 404, which `SendRequest` returns as a final answer, and the request
is sent again. -/
theorem client_error_retried :
    (∃ next, Sample.notFound.sent 1 = some next) ∧
      ∃ prev, Sample.notFound.sent 0 = some prev ∧ prev.contacted = [0] ∧
        prev.result = .err (.answer (.status 404 [])) ∧
        ¬ WorthRetry Sample.notFound.proto (Sample.notFound.exchange 0) prev := by
  have again : (Sample.notFound.sent 1).isSome = true := by decide +kernel
  have first : (Sample.notFound.sent 0).map (fun sent => (sent.contacted, sent.result)) =
      some ([0], .err (.answer (.status 404 []))) := by
    decide +kernel
  obtain ⟨prev, issued, same⟩ := Option.map_eq_some_iff.mp first
  obtain ⟨contacted, failed⟩ := Prod.mk.inj same
  refine ⟨Option.isSome_iff_exists.mp again, prev, issued, contacted, failed, ?_⟩
  rintro ⟨_, ⟨_, fault⟩ | ⟨e, isRPC, _⟩⟩
  · obtain ⟨server, _⟩ : AtFault Sample.jsonRpc (.answered 404 []) :=
      fault 0 (contacted ▸ List.mem_cons_self)
    omega
  · cases failed.symm.trans isRPC

end ConfidentialCompute.Gateway
