import ConfidentialCompute.Client
import ConfidentialCompute.Lib.Text
import ConfidentialCompute.Lib.TextCodec
import ConfidentialCompute.Sample
import Mathlib.Data.List.Rotate

/-!
# The gateway client

`SendRequest` of the workflows app's gateway client. A request is built and attested once and then
posted to one gateway after the other, beginning with the one under the cursor, which advances with
each call. A gateway that is at fault is passed over; any other answer ends the call. JSON-RPC and
the attestor are third-party code, and what becomes of each post is an argument.

The context of a call is asked at numbered moments: `2 * i` is the check before the attempt `i`,
and `2 * i + 1` the pause after it.
-/

namespace ConfidentialCompute.Gateway

open Go

/-! ## Messages -/

structure RPCError where
  code : Int
  message : Bytes
deriving DecidableEq

def errInternal : Int := -32603

def errServerOverloaded : Int := -32000

def gatewayFanOutFailure : Bytes := ascii "failed to forward user request to nodes"

def gatewayQuorumExpiry : Bytes := ascii "request expired"

namespace RPCError

def text (e : RPCError) : Bytes :=
  ascii "JSON-RPC error " ++ ascii (toString e.code) ++ ascii ": " ++ e.message

def Retryable (e : RPCError) : Prop :=
  (e.code = errInternal ∧ contains e.message gatewayFanOutFailure = true) ∨
    (e.code = errServerOverloaded ∧ contains e.message gatewayQuorumExpiry = true)

instance (e : RPCError) : Decidable e.Retryable := inferInstanceAs (Decidable (_ ∨ _))

end RPCError

structure RPCResponse where
  error : Option RPCError
  result : Option Bytes
deriving DecidableEq

/-- `jsonrpc2.EncodeRequest`, of an id, a method and parameters, and `jsonrpc2.DecodeResponse`. -/
structure JsonRpc where
  encodeRequest : Bytes → Bytes → Bytes → Except Bytes Bytes
  decodeResponse : Bytes → Except Bytes RPCResponse

/-! ## One gateway -/

/-- What becomes of a post: the request cannot be created, or not sent, or its response cannot be
read, or it is answered. -/
inductive Post where
  | uncreated (err : Bytes)
  | unsent (err : Bytes)
  | unread (err : Bytes)
  | answered (statusCode : Nat) (body : Bytes)
deriving DecidableEq

inductive PostError where
  | creating (err : Bytes)
  | sending (err : Bytes)
  | reading (err : Bytes)
  | tooLarge
  | rpc (e : RPCError)
  | status (statusCode : Nat) (body : Bytes)
  | unmarshalling (err : Bytes)
deriving DecidableEq

def PostError.text : PostError → Bytes
  | .creating err => ascii "creating request: " ++ err
  | .sending err => ascii "sending request: " ++ err
  | .reading err => ascii "reading response body: " ++ err
  | .tooLarge => ascii "gateway response body exceeds limit " ++
      decimal maxEnclaveResponseBodyBytes ++ ascii " bytes"
  | .rpc e => e.text
  | .status statusCode body =>
      ascii "gateway returned HTTP " ++ decimal statusCode ++ ascii ": " ++ body
  | .unmarshalling err => ascii "unmarshalling response: " ++ err

/-- The result, or the error and whether to try the next gateway. Of the body one byte more than
the limit is read. -/
def sendOne (proto : JsonRpc) : Post → Except (PostError × Bool) (Option Bytes)
  | .uncreated err => .error (.creating err, false)
  | .unsent err => .error (.sending err, true)
  | .unread err => .error (.reading err, true)
  | .answered statusCode body =>
      let respBody := body.take (maxEnclaveResponseBodyBytes + 1)
      if maxEnclaveResponseBodyBytes < respBody.length then .error (.tooLarge, false)
      else
        match proto.decodeResponse respBody with
        | .ok ⟨some e, _⟩ => .error (.rpc e, false)
        | .ok ⟨none, result⟩ =>
            if statusCode ≠ 200 then
              .error (.status statusCode respBody, decide (500 ≤ statusCode))
            else .ok result
        | .error decErr =>
            if statusCode ≠ 200 then
              .error (.status statusCode respBody, decide (500 ≤ statusCode))
            else .error (.unmarshalling decErr, false)

/-- The gateway is at fault, and the next one is tried: it is not reached, its response is not read,
or it gives a server error in which the relay has no say. -/
def FailsOver (proto : JsonRpc) : Post → Prop
  | .uncreated _ => False
  | .unsent _ | .unread _ => True
  | .answered statusCode body => 500 ≤ statusCode ∧ body.length ≤ maxEnclaveResponseBodyBytes ∧
      ∀ e result, proto.decodeResponse body ≠ .ok ⟨some e, result⟩

/-- The post is a success, or it is a terminal answer with its error. -/
inductive Settles (proto : JsonRpc) : Post → Except PostError (Option Bytes) → Prop
  | success {body : Bytes} {result : Option Bytes} :
    body.length ≤ maxEnclaveResponseBodyBytes →
    proto.decodeResponse body = .ok ⟨none, result⟩ →
    Settles proto (.answered 200 body) (.ok result)
  | uncreated (err : Bytes) : Settles proto (.uncreated err) (.error (.creating err))
  | tooLarge {statusCode : Nat} {body : Bytes} : maxEnclaveResponseBodyBytes < body.length →
    Settles proto (.answered statusCode body) (.error .tooLarge)
  | rpc {statusCode : Nat} {body : Bytes} {e : RPCError} {result : Option Bytes} :
    body.length ≤ maxEnclaveResponseBodyBytes →
    proto.decodeResponse body = .ok ⟨some e, result⟩ →
    Settles proto (.answered statusCode body) (.error (.rpc e))
  | status {statusCode : Nat} {body : Bytes} : statusCode ≠ 200 → statusCode < 500 →
    body.length ≤ maxEnclaveResponseBodyBytes →
    (∀ e result, proto.decodeResponse body ≠ .ok ⟨some e, result⟩) →
    Settles proto (.answered statusCode body) (.error (.status statusCode body))
  | malformed {body err : Bytes} : body.length ≤ maxEnclaveResponseBodyBytes →
    proto.decodeResponse body = .error err →
    Settles proto (.answered 200 body) (.error (.unmarshalling err))

/-! ## The client -/

structure GatewayClient where
  gatewayURLs : Slice GoString
  /-- `CreateAttestation`, unless there is no attestor. -/
  attestor : Option (Bytes → Except Bytes Bytes)
  cursor : UInt64

/-- The error of a context at each moment it is asked. -/
structure Context where
  err : Nat → Option Bytes
  stays : ∀ i e, err i = some e → ∀ j, i ≤ j → err j = some e

/-- The context as it is seen from a moment on. -/
def Context.after (ctx : Context) (moment : Nat) : Context where
  err i := ctx.err (moment + i)
  stays i e ended j le := ctx.stays (moment + i) e ended (moment + j) (by omega)

/-- A context that is never cancelled. -/
def Context.background : Context where
  err _ := none
  stays _ _ ended := nomatch ended

/-- What a call is given from outside: the bytes of `rand.Read`, and for each position in the list
of gateways what becomes of a post there. -/
structure Exchange where
  random : Except Bytes { u : Bytes // u.length = 16 }
  post : Nat → Post

/-- A call that fails other than by an answer: before the first post, or for its context, or with
every gateway at fault. -/
inductive SendError where
  | noGateways
  | requestID (err : Bytes)
  | marshalling (err : Bytes)
  | attestation (err : Bytes)
  | context (err : Bytes)
  | answer (err : PostError)
  | allFailed (n : Nat) (attemptErrs : List (GoString × PostError))
deriving DecidableEq

def SendError.text : SendError → Bytes
  | .noGateways => ascii "no gateway URLs configured"
  | .requestID err => ascii "generating request ID: " ++ err
  | .marshalling err => ascii "marshalling request: " ++ err
  | .attestation err => ascii "creating attestation: " ++ err
  | .context err => err
  | .answer err => err.text
  | .allFailed n attemptErrs => ascii "all " ++ decimal n ++ ascii " gateways failed: " ++
      joinLines (attemptErrs.map fun attempt =>
        ascii "gateway " ++ attempt.1.data ++ ascii ": " ++ attempt.2.text)

/-- `errors.As` for an `RPCError`. -/
def SendError.rpcErr : SendError → Option RPCError
  | .answer (.rpc e) => some e
  | _ => none

/-- What a call returns that a post has settled. -/
def returned : Except PostError (Option Bytes) → Outcome SendError (Option Bytes)
  | .ok result => .ok result
  | .error err => .err (.answer err)

def newUUID (u : Bytes) : Bytes :=
  let u := u.modify 6 fun b => (b &&& 0x0f) ||| 0x40
  let u := u.modify 8 fun b => (b &&& 0x3f) ||| 0x80
  let part (i j : Nat) : Bytes := Hex.encode ((u.take j).drop i)
  part 0 4 ++ ascii "-" ++ part 4 6 ++ ascii "-" ++ part 6 8 ++ ascii "-" ++ part 8 10 ++
    ascii "-" ++ part 10 16

def hashRequestBody (crypto : Crypto) (body : Bytes) : Bytes :=
  (crypto.sha256 (domainSeparator ++ ascii "\nGatewayRequest\n" ++ body)).data

/-- The body and the attestation header of a request; without an attestor there is no header. -/
structure GatewayRequest where
  body : Bytes
  attHeader : Bytes

def GatewayClient.buildRequest (proto : JsonRpc) (crypto : Crypto) (c : GatewayClient)
    (method params : Bytes) (random : Except Bytes { u : Bytes // u.length = 16 }) :
    Except SendError GatewayRequest :=
  match random with
  | .error err => .error (.requestID err)
  | .ok u =>
      match proto.encodeRequest (newUUID u.val) method params with
      | .error err => .error (.marshalling err)
      | .ok body =>
          match c.attestor with
          | none => .ok ⟨body, []⟩
          | some createAttestation =>
              match createAttestation (hashRequestBody crypto body) with
              | .error err => .error (.attestation err)
              | .ok doc => .ok ⟨body, Base64.encode doc⟩

/-- The positions that were posted to, and what is returned. -/
structure Visit where
  contacted : List Nat
  result : Outcome SendError (Option Bytes)

/-- `gatewayURLs[(start+i)%n]` with its position. The sum is an `int`, and so is the remainder,
which has the sign of the sum. -/
def gatewayAt (urls : Slice GoString) (start : Int) (i : Nat) : Option (Nat × GoString) :=
  let index := ((start + i).bmod (2 ^ 64)).tmod urls.length
  if index < 0 then none else (urls.data[index.toNat]?).map fun url => (index.toNat, url)

/-- The loop over the gateways, `left` of which are still to be tried. -/
def failover (proto : JsonRpc) (urls : Slice GoString) (ctx : Context) (post : Nat → Post)
    (start : Int) : Nat → Nat → List (GoString × PostError) → Visit
  | 0, _, attemptErrs => ⟨[], .err (.allFailed urls.length attemptErrs)⟩
  | left + 1, i, attemptErrs =>
      match ctx.err (2 * i) with
      | some err => ⟨[], .err (.context err)⟩
      | none =>
          match gatewayAt urls start i with
          | none => ⟨[], .panicked⟩
          | some (position, url) =>
              match sendOne proto (post position) with
              | .ok result => ⟨[position], .ok result⟩
              | .error (err, false) => ⟨[position], .err (.answer err)⟩
              | .error (err, true) =>
                  -- After the last gateway there is no pause.
                  match if left = 0 then none else ctx.err (2 * i + 1) with
                  | some ctxErr => ⟨[position], .err (.context ctxErr)⟩
                  | none =>
                      let rest := failover proto urls ctx post start left (i + 1)
                        (attemptErrs ++ [(url, err)])
                      ⟨position :: rest.contacted, rest.result⟩

/-- What a call leaves behind, whom it has contacted, and what it returns. -/
structure SendResult where
  client : GatewayClient
  contacted : List Nat
  result : Outcome SendError (Option Bytes)

/-- The cursor is a `uint64`, which is converted to an `int`. -/
def GatewayClient.start (c : GatewayClient) : Int := (c.cursor.toNat : Int).bmod (2 ^ 64)

def GatewayClient.sendRequest (proto : JsonRpc) (crypto : Crypto) (c : GatewayClient)
    (ctx : Context) (method params : Bytes) (x : Exchange) : SendResult :=
  if c.gatewayURLs.length = 0 then ⟨c, [], .err .noGateways⟩
  else
    match c.buildRequest proto crypto method params x.random with
    | .error err => ⟨c, [], .err err⟩
    | .ok _ =>
        let visit := failover proto c.gatewayURLs ctx x.post c.start c.gatewayURLs.length 0 []
        ⟨{ c with cursor := c.cursor + 1 }, visit.contacted, visit.result⟩

/-- Calls one after the other. -/
def GatewayClient.sendRequests (proto : JsonRpc) (crypto : Crypto) (c : GatewayClient)
    (ctx : Context) (method params : Bytes) : List Exchange → List SendResult
  | [] => []
  | x :: xs =>
      let sent := c.sendRequest proto crypto ctx method params x
      sent :: sent.client.sendRequests proto crypto ctx method params xs

/-! ## Positions -/

/-- The positions in the order in which a call visits them: `c mod n`, `c + 1 mod n`, and so on,
beginning with the attempt `i`. -/
def positions (n c i left : Nat) : List Nat := (List.range' i left).map fun j => (c + j) % n

theorem positions_eq_rotate (n c : Nat) : positions n c 0 n = (List.range n).rotate c := by
  refine List.ext_getElem? fun i => ?_
  by_cases inside : i < n
  · have below : (i + c) % n < n := Nat.mod_lt _ (by omega)
    rw [List.getElem?_rotate (by rwa [List.length_range]), List.length_range,
      List.getElem?_range below]
    simp [positions, inside, Nat.add_comm]
  · rw [List.getElem?_eq_none (by simp [positions]; omega),
      List.getElem?_eq_none (by simp; omega)]

theorem positions_perm (n c : Nat) : (positions n c 0 n).Perm (List.range n) := by
  rw [positions_eq_rotate]
  exact List.rotate_perm _ _

section

variable {proto : JsonRpc} {crypto : Crypto} {urls : Slice GoString} {ctx : Context}
  {post : Nat → Post} {c : GatewayClient} {method params : Bytes} {x : Exchange}

/-- Below `2 ^ 63` the conversions change nothing. -/
theorem gatewayAt_eq {start i : Nat} (inside : i < urls.length)
    (room : start + i < 2 ^ 63) :
    ∃ url, gatewayAt urls start i = some ((start + i) % urls.length, url) := by
  have sum : ((start : Int) + i).bmod (2 ^ 64) = ((start + i : Nat) : Int) := by
    rw [Int.bmod_eq_of_le_mul_two] <;> push_cast <;> omega
  have below : (start + i) % urls.length < urls.data.length :=
    Nat.mod_lt _ (Nat.lt_of_le_of_lt (Nat.zero_le i) inside)
  refine ⟨urls.data[(start + i) % urls.length], ?_⟩
  unfold gatewayAt
  rw [sum, ← Int.ofNat_tmod]
  dsimp only
  rw [if_neg (Int.not_lt.mpr (Int.natCast_nonneg _)), Int.toNat_natCast,
    List.getElem?_eq_getElem below]
  rfl

theorem start_eq (room : c.cursor.toNat < 2 ^ 63) : c.start = c.cursor.toNat := by
  unfold GatewayClient.start
  rw [Int.bmod_eq_of_le_mul_two] <;> omega

/-! ## The outcome of a post -/

/-- A report says what has become of the post. -/
def Reports (proto : JsonRpc) (post : Post) : Except (PostError × Bool) (Option Bytes) → Prop
  | .ok result => Settles proto post (.ok result)
  | .error (err, false) => Settles proto post (.error err)
  | .error (_, true) => FailsOver proto post

/-- An HTTP status other than 200, with a body that holds no JSON-RPC error. -/
theorem reports_status {statusCode : Nat} {body : Bytes} (failed : statusCode ≠ 200)
    (small : body.length ≤ maxEnclaveResponseBodyBytes)
    (silent : ∀ e result, proto.decodeResponse body ≠ .ok ⟨some e, result⟩) :
    Reports proto (.answered statusCode body)
      (.error (.status statusCode body, decide (500 ≤ statusCode))) := by
  by_cases server : 500 ≤ statusCode
  · rw [decide_eq_true server]
    exact ⟨server, small, silent⟩
  · rw [decide_eq_false server]
    exact .status failed (Nat.not_le.mp server) small silent

theorem sendOne_reports (proto : JsonRpc) (post : Post) :
    Reports proto post (sendOne proto post) := by
  cases post with
  | uncreated err => exact .uncreated err
  | unsent err => trivial
  | unread err => trivial
  | answered statusCode body =>
      unfold sendOne
      dsimp only
      by_cases large : maxEnclaveResponseBodyBytes < body.length
      · rw [if_pos (by rw [List.length_take]; omega)]
        exact .tooLarge large
      · have small := Nat.not_lt.mp large
        rw [List.take_of_length_le (Nat.le_succ_of_le small), if_neg large]
        split
        · rename_i e result decoded
          exact .rpc small decoded
        · rename_i result decoded
          split
          · rename_i failed
            exact reports_status failed small fun e _ isError => by cases decoded.symm.trans isError
          · rename_i isOK
            cases not_not.mp isOK
            exact .success small decoded
        · rename_i decErr decoded
          split
          · rename_i failed
            exact reports_status failed small fun e _ isError => by cases decoded.symm.trans isError
          · rename_i isOK
            cases not_not.mp isOK
            exact .malformed small decoded

theorem Settles.not_failsOver {post : Post} {answer : Except PostError (Option Bytes)}
    (settles : Settles proto post answer) : ¬ FailsOver proto post := by
  intro fails
  cases settles with
  | success _ _ => exact absurd fails.1 (by decide)
  | uncreated _ => exact fails
  | tooLarge large => exact absurd fails.2.1 (Nat.not_le.mpr large)
  | rpc _ decoded => exact fails.2.2 _ _ decoded
  | status _ client _ _ => exact absurd fails.1 (Nat.not_le.mpr client)
  | malformed _ _ => exact absurd fails.1 (by decide)

/-- A post has one outcome. -/
theorem Settles.unique {post : Post} {answer answer' : Except PostError (Option Bytes)}
    (settles : Settles proto post answer) (settles' : Settles proto post answer') :
    answer = answer' := by
  cases settles <;> cases settles' <;> grind

theorem Settles.sendOne_ok {post : Post} {result : Option Bytes}
    (success : Settles proto post (.ok result)) : sendOne proto post = .ok result := by
  have reports := sendOne_reports proto post
  generalize sendOne proto post = report at reports
  match report, reports with
  | .ok _, settles => rw [Except.ok.inj (settles.unique success)]
  | .error (_, false), settles => cases settles.unique success
  | .error (_, true), fails => exact (success.not_failsOver fails).elim

/-! ## The loop -/

/-- How the loop can end with `left` of `n` gateways still to be tried. -/
inductive Ended (proto : JsonRpc) (ctx : Context) (post : Nat → Post) (n : Nat) :
    Nat → Visit → Prop
  | settled {left : Nat} {before : List Nat} {position : Nat}
    {answer : Except PostError (Option Bytes)} :
    (∀ p ∈ before, FailsOver proto (post p)) → Settles proto (post position) answer →
    Ended proto ctx post n left ⟨before ++ [position], returned answer⟩
  | exhausted {left : Nat} {contacted : List Nat} {errs : List (GoString × PostError)} :
    (∀ p ∈ contacted, FailsOver proto (post p)) → contacted.length = left →
    Ended proto ctx post n left ⟨contacted, .err (.allFailed n errs)⟩
  | cancelled {left : Nat} {contacted : List Nat} {moment : Nat} {err : Bytes} :
    (∀ p ∈ contacted, FailsOver proto (post p)) → moment < 2 * n → ctx.err moment = some err →
    Ended proto ctx post n left ⟨contacted, .err (.context err)⟩
  | panicked {left : Nat} {contacted : List Nat} :
    Ended proto ctx post n left ⟨contacted, .panicked⟩

theorem returned_ne_allFailed {n : Nat} (answer : Except PostError (Option Bytes))
    (errs : List (GoString × PostError)) : returned answer ≠ .err (.allFailed n errs) := by
  cases answer with
  | ok result => exact nofun
  | error err => exact nofun

theorem Ended.cons {n left position : Nat} {visit : Visit}
    (first : FailsOver proto (post position)) (ended : Ended proto ctx post n left visit) :
    Ended proto ctx post n (left + 1) ⟨position :: visit.contacted, visit.result⟩ := by
  cases ended with
  | settled all ends => exact .settled (List.forall_mem_cons.mpr ⟨first, all⟩) ends
  | exhausted all count =>
      exact .exhausted (List.forall_mem_cons.mpr ⟨first, all⟩) (congrArg (· + 1) count)
  | cancelled all early done =>
      exact .cancelled (List.forall_mem_cons.mpr ⟨first, all⟩) early done
  | panicked => exact .panicked

theorem settled_first {n left position : Nat} {answer : Except PostError (Option Bytes)}
    (ends : Settles proto (post position) answer) :
    Ended proto ctx post n left ⟨[position], returned answer⟩ :=
  .settled (fun _ among => (List.not_mem_nil among).elim) ends

theorem failover_ended {start : Int} {left i : Nat} (inside : i + left = urls.length)
    (attemptErrs : List (GoString × PostError)) :
    Ended proto ctx post urls.length left
      (failover proto urls ctx post start left i attemptErrs) := by
  induction left generalizing i attemptErrs with
  | zero => exact .exhausted (fun p among => (List.not_mem_nil among).elim) rfl
  | succ left ih =>
      unfold failover
      split
      · rename_i err done
        exact .cancelled (fun p among => (List.not_mem_nil among).elim) (by omega) done
      · split
        · exact .panicked
        · rename_i position url _
          have reports := sendOne_reports proto (post position)
          split
          · rename_i result sent
            rw [sent] at reports
            exact settled_first reports
          · rename_i err sent
            rw [sent] at reports
            exact settled_first reports
          · rename_i err sent
            have first : FailsOver proto (post position) := by
              rw [sent] at reports
              exact reports
            split
            · rename_i ctxErr done
              have early : left ≠ 0 := fun last => by simp [last] at done
              rw [if_neg early] at done
              exact .cancelled (by simpa using first) (by omega) done
            · exact (ih (i := i + 1) (by omega) _).cons first

/-- A loop returns the JSON-RPC error of a gateway, and no other. -/
theorem Ended.rpc_iff {n left : Nat} {visit : Visit} {err : SendError}
    (ended : Ended proto ctx post n left visit) (failed : visit.result = .err err) (e : RPCError) :
    (∃ p ∈ visit.contacted, Settles proto (post p) (.error (.rpc e))) ↔
      err = .answer (.rpc e) := by
  have passedBy : ∀ contacted : List Nat, (∀ p ∈ contacted, FailsOver proto (post p)) →
      ¬ ∃ p ∈ contacted, Settles proto (post p) (.error (.rpc e)) := by
    rintro contacted all ⟨p, among, ends⟩
    exact ends.not_failsOver (all p among)
  cases ended with
  | @settled before position answer passed ends =>
      have last : (∃ p ∈ before ++ [position], Settles proto (post p) (.error (.rpc e))) ↔
          answer = .error (.rpc e) := by
        constructor
        · rintro ⟨p, among, answered⟩
          rcases List.mem_append.mp among with among | among
          · exact (passedBy before passed ⟨p, among, answered⟩).elim
          · cases List.mem_singleton.mp among
            exact ends.unique answered
        · rintro rfl
          exact ⟨position, List.mem_append_right _ List.mem_cons_self, ends⟩
      rw [last]
      cases answer with
      | ok result => cases failed
      | error failure =>
          cases failed
          simp
  | exhausted all _ =>
      cases failed
      simpa using fun p among sent => passedBy _ all ⟨p, among, sent⟩
  | cancelled all _ _ =>
      cases failed
      simpa using fun p among sent => passedBy _ all ⟨p, among, sent⟩
  | panicked => cases failed

/-- While the context lives, the loop follows the positions, and it does not give up before the
last one. -/
theorem failover_contacted (lives : ∀ moment, ctx.err moment = none) {start left i : Nat}
    (room : start + urls.length < 2 ^ 63) (inside : i + left = urls.length)
    (attemptErrs : List (GoString × PostError)) :
    (failover proto urls ctx post start left i attemptErrs).contacted <+:
        positions urls.length start i left ∧
      (failover proto urls ctx post start left i attemptErrs).result ≠ .panicked ∧
      (∀ errs, (failover proto urls ctx post start left i attemptErrs).result =
          .err (.allFailed urls.length errs) →
        (failover proto urls ctx post start left i attemptErrs).contacted =
          positions urls.length start i left) := by
  induction left generalizing i attemptErrs with
  | zero => exact ⟨List.prefix_rfl, nofun, fun _ _ => rfl⟩
  | succ left ih =>
      have room' : start + i < 2 ^ 63 := by omega
      obtain ⟨url, isURL⟩ := @gatewayAt_eq urls start i (by omega) room'
      have order : positions urls.length start i (left + 1) =
          (start + i) % urls.length :: positions urls.length start (i + 1) left := rfl
      have pause : (if left = 0 then none else ctx.err (2 * i + 1)) = none := by
        rw [lives, ite_self]
      have one : [(start + i) % urls.length] <+:
          (start + i) % urls.length :: positions urls.length start (i + 1) left :=
        List.prefix_cons_inj _ |>.mpr List.nil_prefix
      rw [order, failover, lives (2 * i), isURL]
      dsimp only
      split
      · exact ⟨one, nofun, nofun⟩
      · exact ⟨one, nofun, nofun⟩
      · rw [pause]
        obtain ⟨isPrefix, runs, all⟩ := ih (i := i + 1) (by omega) (attemptErrs ++ [(url, _)])
        refine ⟨(List.prefix_cons_inj _).mpr isPrefix, runs, fun errs failed => ?_⟩
        rw [all errs failed]

/-! ## Calls -/

theorem sendRequest_built {req : GatewayRequest} (gateways : c.gatewayURLs.length ≠ 0)
    (built : c.buildRequest proto crypto method params x.random = .ok req) :
    c.sendRequest proto crypto ctx method params x =
      ⟨{ c with cursor := c.cursor + 1 },
        (failover proto c.gatewayURLs ctx x.post c.start c.gatewayURLs.length 0 []).contacted,
        (failover proto c.gatewayURLs ctx x.post c.start c.gatewayURLs.length 0 []).result⟩ := by
  unfold GatewayClient.sendRequest
  rw [if_neg gateways, built]

theorem sendRequest_unbuilt {err : SendError} (gateways : c.gatewayURLs.length ≠ 0)
    (unbuilt : c.buildRequest proto crypto method params x.random = .error err) :
    c.sendRequest proto crypto ctx method params x = ⟨c, [], .err err⟩ := by
  unfold GatewayClient.sendRequest
  rw [if_neg gateways, unbuilt]

theorem buildRequest_ne_answer {random : Except Bytes { u : Bytes // u.length = 16 }}
    {err : SendError} (answer : PostError)
    (unbuilt : c.buildRequest proto crypto method params random = .error err) :
    err ≠ .answer answer := by
  unfold GatewayClient.buildRequest at unbuilt
  split at unbuilt
  · cases unbuilt
    exact nofun
  · split at unbuilt
    · cases unbuilt
      exact nofun
    · split at unbuilt
      · cases unbuilt
      · split at unbuilt
        · cases unbuilt
          exact nofun
        · cases unbuilt

/-- The positions are contacted in order, all being at fault up to the first that settles the call,
whose answer is returned. If all of them are at fault, all are contacted. -/
def InOrder (proto : JsonRpc) (post : Nat → Post) (order : List Nat) (sent : SendResult) : Prop :=
  (∃ before position after answer, order = before ++ position :: after ∧
    (∀ p ∈ before, FailsOver proto (post p)) ∧ Settles proto (post position) answer ∧
    sent.contacted = before ++ [position] ∧ sent.result = returned answer) ∨
  ((∀ p ∈ order, FailsOver proto (post p)) ∧ sent.contacted = order)

/-- The error of `n` gateways that have all failed. -/
def SendResult.AllFailed (sent : SendResult) (n : Nat) : Prop :=
  ∃ errs, sent.result = .err (.allFailed n errs)

theorem mem_positions {n start p : Nat} : p ∈ positions n start 0 n ↔ p < n := by
  rw [(positions_perm n start).mem_iff, List.mem_range]

theorem sendRequest_inOrder {req : GatewayRequest} (gateways : c.gatewayURLs.length ≠ 0)
    (room : c.cursor.toNat + c.gatewayURLs.length < 2 ^ 63)
    (lives : ∀ moment, ctx.err moment = none)
    (built : c.buildRequest proto crypto method params x.random = .ok req) :
    InOrder proto x.post (positions c.gatewayURLs.length c.cursor.toNat 0 c.gatewayURLs.length)
        (c.sendRequest proto crypto ctx method params x) ∧
      ((c.sendRequest proto crypto ctx method params x).AllFailed c.gatewayURLs.length ↔
        ∀ p < c.gatewayURLs.length, FailsOver proto (x.post p)) := by
  rw [sendRequest_built gateways built, start_eq (by omega)]
  have ended : Ended proto ctx x.post c.gatewayURLs.length c.gatewayURLs.length
      (failover proto c.gatewayURLs ctx x.post c.cursor.toNat c.gatewayURLs.length 0 []) :=
    failover_ended (Nat.zero_add _) []
  obtain ⟨isPrefix, runs, all⟩ := @failover_contacted proto c.gatewayURLs ctx x.post lives
    c.cursor.toNat c.gatewayURLs.length 0 room (Nat.zero_add _) []
  generalize failover proto c.gatewayURLs ctx x.post c.cursor.toNat c.gatewayURLs.length 0 [] =
    visit at ended isPrefix runs all ⊢
  cases ended with
  | @settled before position answer passed ends =>
      obtain ⟨after, isOrder⟩ := isPrefix
      rw [List.append_assoc, List.singleton_append] at isOrder
      have among : position ∈ positions c.gatewayURLs.length c.cursor.toNat 0
          c.gatewayURLs.length := by
        rw [← isOrder]
        exact List.mem_append_right _ List.mem_cons_self
      refine ⟨Or.inl ⟨before, position, after, answer, isOrder.symm, passed, ends, rfl, rfl⟩, ?_⟩
      constructor
      · rintro ⟨errs, failed⟩
        exact (returned_ne_allFailed answer errs failed).elim
      · intro failed
        exact (ends.not_failsOver (failed position (mem_positions.mp among))).elim
  | exhausted failed _ =>
      have visited := all _ rfl
      dsimp only at visited
      rw [visited] at failed
      exact ⟨Or.inr ⟨failed, visited⟩, fun _ p below => failed p (mem_positions.mpr below),
        fun _ => ⟨_, rfl⟩⟩
  | cancelled _ _ done => cases (lives _).symm.trans done
  | panicked => exact (runs rfl).elim

/-- A call whose first gateway succeeds contacts no other, and advances the cursor. -/
theorem sendRequest_success {req : GatewayRequest} {result : Option Bytes}
    (gateways : c.gatewayURLs.length ≠ 0) (room : c.cursor.toNat < 2 ^ 63)
    (lives : ∀ moment, ctx.err moment = none)
    (built : c.buildRequest proto crypto method params x.random = .ok req)
    (success : Settles proto (x.post (c.cursor.toNat % c.gatewayURLs.length)) (.ok result)) :
    (c.sendRequest proto crypto ctx method params x).contacted =
        [c.cursor.toNat % c.gatewayURLs.length] ∧
      (c.sendRequest proto crypto ctx method params x).client =
        { c with cursor := c.cursor + 1 } := by
  obtain ⟨url, isURL⟩ := @gatewayAt_eq c.gatewayURLs c.cursor.toNat 0
    (Nat.pos_of_ne_zero gateways) room
  obtain ⟨left, isLength⟩ := Nat.exists_eq_succ_of_ne_zero gateways
  have visit : (failover proto c.gatewayURLs ctx x.post c.start (left + 1) 0 []).contacted =
      [c.cursor.toNat % c.gatewayURLs.length] := by
    rw [start_eq room, failover, lives, isURL]
    dsimp only
    rw [Nat.add_zero, success.sendOne_ok]
  rw [sendRequest_built gateways built, isLength] at *
  exact ⟨visit, rfl⟩

/-- Each of the calls meets a success at once: its request is built, and the post to the position
under the cursor, which has advanced by one for each call before, succeeds. -/
def MeetSuccess (proto : JsonRpc) (crypto : Crypto) (c : GatewayClient) (method params : Bytes)
    (xs : List Exchange) : Prop :=
  ∀ (k : Nat) (x : Exchange), xs[k]? = some x →
    (∃ req, c.buildRequest proto crypto method params x.random = .ok req) ∧
      ∃ result, Settles proto (x.post ((c.cursor.toNat + k) % c.gatewayURLs.length)) (.ok result)

theorem sendRequests_contacted (gateways : c.gatewayURLs.length ≠ 0) {xs : List Exchange}
    (room : c.cursor.toNat + xs.length < 2 ^ 63)
    (lives : ∀ moment, ctx.err moment = none)
    (meet : MeetSuccess proto crypto c method params xs) :
    (c.sendRequests proto crypto ctx method params xs).flatMap (·.contacted) =
      positions c.gatewayURLs.length c.cursor.toNat 0 xs.length := by
  induction xs generalizing c with
  | nil => rfl
  | cons x xs ih =>
      rw [List.length_cons] at room
      obtain ⟨⟨req, built⟩, result, success⟩ := meet 0 x rfl
      obtain ⟨contacted, next⟩ :=
        sendRequest_success gateways (by omega) lives built success
      have cursor : (c.cursor + 1).toNat = c.cursor.toNat + 1 := by
        rw [UInt64.toNat_add]
        exact Nat.mod_eq_of_lt (by simp; omega)
      have later : MeetSuccess proto crypto { c with cursor := c.cursor + 1 } method params xs := by
        intro k x' at_
        obtain ⟨built', success'⟩ := meet (k + 1) x' at_
        refine ⟨built', ?_⟩
        dsimp only
        rwa [cursor, Nat.add_assoc, Nat.add_comm 1 k]
      have rest := ih (c := { c with cursor := c.cursor + 1 }) gateways
        (by simp only [cursor]; omega) later
      rw [GatewayClient.sendRequests, List.flatMap_cons, contacted, next, rest]
      simp [positions, cursor, List.range'_succ, List.range'_eq_map_range, Nat.add_assoc,
        Nat.add_comm 1]

/-- A list of at least one gateway and a cursor far enough from `2 ^ 63`. With a context that is
never cancelled, and unless the request cannot be built, a call contacts the positions in cyclic
order up to the first success or terminal answer, which it returns; it reports that all gateways
have failed exactly when all are at fault. As many calls as there are gateways, each of which meets
a success at once, contact each position once. -/
theorem gateway_failover_cyclic (proto : JsonRpc) (crypto : Crypto) (c : GatewayClient)
    (ctx : Context) (method params : Bytes) (gateways : 1 ≤ c.gatewayURLs.length)
    (room : c.cursor.toNat + c.gatewayURLs.length < 2 ^ 63)
    (lives : ∀ moment, ctx.err moment = none) :
    (∀ x : Exchange,
      (∃ err, c.buildRequest proto crypto method params x.random = .error err ∧
        (c.sendRequest proto crypto ctx method params x).contacted = [] ∧
        (c.sendRequest proto crypto ctx method params x).result = .err err) ∨
      (InOrder proto x.post
          (positions c.gatewayURLs.length c.cursor.toNat 0 c.gatewayURLs.length)
          (c.sendRequest proto crypto ctx method params x) ∧
        ((c.sendRequest proto crypto ctx method params x).AllFailed c.gatewayURLs.length ↔
          ∀ p < c.gatewayURLs.length, FailsOver proto (x.post p)))) ∧
    (∀ xs : List Exchange, xs.length = c.gatewayURLs.length →
      MeetSuccess proto crypto c method params xs →
      ((c.sendRequests proto crypto ctx method params xs).flatMap (·.contacted)).Perm
        (List.range c.gatewayURLs.length)) := by
  refine ⟨fun x => ?_, fun xs count meet => ?_⟩
  · cases built : c.buildRequest proto crypto method params x.random with
    | error err =>
        rw [sendRequest_unbuilt (Nat.ne_of_gt gateways) built]
        exact Or.inl ⟨err, rfl, rfl, rfl⟩
    | ok req =>
        exact Or.inr (sendRequest_inOrder (Nat.ne_of_gt gateways) room lives built)
  · rw [sendRequests_contacted (Nat.ne_of_gt gateways) (count ▸ room) lives meet, count]
    exact positions_perm _ _

end

namespace Sample

/-- An empty body is not a response, a body that begins with a zero byte is an error, and any other
is a result. -/
def jsonRpc : JsonRpc where
  encodeRequest _ _ params := .ok params
  decodeResponse
    | [] => .error (ascii "EOF")
    | 0 :: message => .ok ⟨some ⟨-1, message⟩, none⟩
    | body => .ok ⟨none, some body⟩

def url (n : UInt8) : GoString := ⟨[n], by simp⟩

/-- A client of three gateways, without an attestor, whose cursor is at the second. -/
def threeGateways : GatewayClient := ⟨⟨[url 1, url 2, url 3], by decide⟩, none, 1⟩

def exchange (post : Nat → Post) : Exchange :=
  ⟨.ok ⟨List.replicate 16 0, List.length_replicate⟩, post⟩

def sends (posts : List Post) : SendResult :=
  threeGateways.sendRequest jsonRpc ConfidentialCompute.Sample.crypto .background [] []
    (exchange fun p => posts.getD p (.unsent []))

end Sample

section

open ConfidentialCompute.Gateway.Sample

/-- Three gateways, the second of which comes first and is not reached. The third succeeds; or it
answers with an error of the relay, under an HTTP 500; or all of them are at fault. In a round of
three calls with a success each, every gateway has its turn. -/
theorem gateway_failover_three_gateways :
    ((sends [.unsent [], .unsent [], .answered 200 [7]]).contacted = [1, 2] ∧
      (sends [.unsent [], .unsent [], .answered 200 [7]]).result = .ok (some [7])) ∧
    ((sends [.unsent [], .unsent [], .answered 500 [0, 7]]).contacted = [1, 2] ∧
      (sends [.unsent [], .unsent [], .answered 500 [0, 7]]).result =
        .err (.answer (.rpc ⟨-1, [7]⟩))) ∧
    (sends [.unsent [], .unread [], .answered 500 [7]]).AllFailed 3 ∧
    ((threeGateways.sendRequests jsonRpc ConfidentialCompute.Sample.crypto .background [] []
      (List.replicate 3 (exchange fun _ => .answered 200 [7]))).flatMap (·.contacted)).Perm
        [0, 1, 2] := by
  obtain ⟨each, round⟩ := gateway_failover_cyclic jsonRpc ConfidentialCompute.Sample.crypto
    threeGateways .background [] [] (by decide) (by decide) fun _ => rfl
  refine ⟨by decide +kernel, by decide +kernel, ?_, ?_⟩
  · -- The request is built, since there is no attestor.
    refine ((each _).resolve_left fun ⟨_, unbuilt, _⟩ => nomatch unbuilt).2.mpr fun p below => ?_
    match p, below with
    | 0, _ => trivial
    | 1, _ => trivial
    | 2, _ => exact ⟨Nat.le_refl 500, by decide, nofun⟩
  · refine round _ rfl fun k x at_ => ?_
    cases List.eq_of_mem_replicate (List.mem_of_getElem? at_)
    exact ⟨⟨_, rfl⟩, _, .success (by decide) rfl⟩

end

end ConfidentialCompute.Gateway
