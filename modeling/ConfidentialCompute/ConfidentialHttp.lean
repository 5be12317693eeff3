import ConfidentialCompute.Enclave.Execute
import ConfidentialCompute.Lib.TextCodec
import ConfidentialCompute.Lib.Utf8

/-!
# The confidential HTTP app

`Execute` of the app fills the templates of a request with public values and secrets, sends the
request, and encrypts the body of the response if a key is among the secrets. A batch always has
one request, so its index is 0, and the results channel holds one result.

Protobuf, `text/template`, `net/http` and AES-GCM are parameters (`HttpApp`); of them it is only
assumed that a response whose strings are valid UTF-8 marshals. What the environment decides in
one call is `HttpRun`: the orders in which maps are ranged over, the answer of the outbound client
and the nonce. `crypto/rand` does not return errors. Metrics are left out. A text that holds
arbitrary bytes is shown with one character for each byte (`byteText`).
-/

namespace ConfidentialCompute

open Go

/-- A text as it stands in an error, one character for each byte. -/
def byteText (b : Bytes) : String := String.ofList (b.map fun x => Char.ofNat x.toNat)

/-! ## Requests and responses -/

inductive HttpRequestBody where
  | unset
  | bodyString (text : Bytes)
  | bodyBytes (data : Bytes)
deriving DecidableEq

/-- `enclavetypes.Request`. The values of a header may be missing, and the timeout is in
nanoseconds. -/
structure HttpRequest where
  url : Bytes
  method : Bytes
  body : HttpRequestBody
  multiHeaders : GoMap Bytes (Option (List Bytes))
  templatePublicValues : GoMap Bytes Bytes
  customRootCaCertPem : Bytes
  timeout : Option Int
  encryptOutput : Bool

/-- `enclavetypes.Response`. -/
structure HttpResponse where
  statusCode : UInt32
  body : Bytes
  multiHeaders : GoMap Bytes (List Bytes)

/-- What is handed to the client. Headers are in the order in which they are added, and a missing
root means the default client. -/
structure OutboundRequest where
  method : Bytes
  url : Bytes
  body : Option Bytes
  headers : List (Bytes × Bytes)
  rootCAs : Option Bytes
  timeout : Int
deriving DecidableEq

/-- An error of the client's `Do`, as far as it is looked at. `remoteAlert` is the text of the
alert in an operation error of the remote side. -/
structure TransportError where
  text : String
  timedOut : Bool
  hostUnreachable : Bool
  requestBlocked : Bool
  connectionRefused : Bool
  connectionClosed : Bool
  remoteAlert : Option String
  notTLS : Bool
deriving DecidableEq

/-- `body` is what reading at most one byte more than allowed gives. -/
inductive ClientAnswer where
  | failed (err : TransportError)
  | responded (statusCode : Int) (header : GoMap Bytes (List Bytes)) (body : Except String Bytes)

/-- The strings of a response are valid UTF-8. -/
def HttpResponse.Printable (resp : HttpResponse) : Prop :=
  ∀ name values, resp.multiHeaders.lookup name = some values →
    Utf8.valid name = true ∧ ∀ value ∈ values, Utf8.valid value = true

structure HttpApp where
  /-- `proto.Unmarshal`. -/
  unmarshalRequest : Bytes → Except String HttpRequest
  /-- The body, headers, URL and method of a request in words. -/
  describeRequest : HttpRequest → String
  Template : Type
  parseTemplate : Bytes → Option Template
  executeTemplate : Template → GoMap Bytes Bytes → Option Bytes
  /-- Whether `http.NewRequest` accepts a method and a URL. -/
  newRequest : Bytes → Bytes → Bool
  appendCertsFromPEM : Bytes → Bool
  /-- `Seal` of AES-GCM under a key, for a nonce and a plaintext. -/
  gcmSeal : Bytes → Bytes → Bytes → Bytes
  marshalResponse : HttpResponse → Except String Bytes
  marshalResponse_ok : ∀ resp, resp.Printable → ∃ raw, marshalResponse resp = .ok raw

structure HttpRun where
  secretOrder : MapOrder Bytes Bytes
  headerOrder : MapOrder Bytes (Option (List Bytes))
  responseOrder : MapOrder Bytes (List Bytes)
  client : OutboundRequest → ClientAnswer
  nonce : Bytes

/-! ## Template data -/

def appIDConfidentialHTTP : Bytes := ascii "confidential-http@1.0.0-alpha"

def aesGCMEncryptionKey : Bytes := ascii "san_marino_aes_gcm_encryption_key"

/-- One turn of the loop over the secrets. -/
def addSecret (secrets : GoMap Bytes Bytes) (templateData : GoMap Bytes Bytes) (k : Bytes) :
    Except String (GoMap Bytes Bytes) :=
  let name := byteText k
  let v := (secrets.lookup k).getD []
  if k = aesGCMEncryptionKey then .ok templateData
  else if k ∈ templateData then
    .error s!"public input and secret input have the same key: {name}"
  else if ¬ Utf8.valid v then .error s!"secret value for key {name} is not valid utf8"
  else .ok (templateData.insert k v)

def templateData (run : HttpRun) (request : HttpRequest) (secrets : GoMap Bytes Bytes) :
    Except String (GoMap Bytes Bytes) :=
  (run.secretOrder.keys secrets).foldlM (addSecret secrets) request.templatePublicValues

/-! ## Outbound requests -/

/-- A template is parsed and filled in; `kind` is `body` or `header`. -/
def render (app : HttpApp) (kind : String) (data : GoMap Bytes Bytes) (text : Bytes) :
    Except String Bytes :=
  match app.parseTemplate text with
  | none => .error s!"error parsing {kind} template"
  | some template =>
      match app.executeTemplate template data with
      | none => .error s!"error executing {kind} template"
      | some out => .ok out

def methodUsesBody (method : Bytes) : Bool :=
  method = ascii "POST" || method = ascii "PUT" || method = ascii "PATCH"

def renderBody (app : HttpApp) (request : HttpRequest) (data : GoMap Bytes Bytes) :
    Except String (Option Bytes) :=
  if methodUsesBody request.method then
    match request.body with
    | .bodyString text => (render app "body" data text).map some
    | .bodyBytes raw => .ok (some raw)
    | .unset => .ok none
  else .ok none

/-- The values of one header are added after those before. -/
def addHeader (app : HttpApp) (request : HttpRequest) (data : GoMap Bytes Bytes)
    (headers : List (Bytes × Bytes)) (headerName : Bytes) : Except String (List (Bytes × Bytes)) :=
  match (request.multiHeaders.lookup headerName).join with
  | none => .ok headers
  | some values =>
      if headerName = aesGCMEncryptionKey then .ok headers
      else values.foldlM (fun headers value =>
        (render app "header" data value).map fun out => headers ++ [(headerName, out)]) headers

def defaultEnclaveRequestTimeout : Int := 30 * 10 ^ 9

def HttpRequest.effectiveTimeout (request : HttpRequest) : Int :=
  match request.timeout with
  | some timeout => if timeout > 0 then timeout else defaultEnclaveRequestTimeout
  | none => defaultEnclaveRequestTimeout

def checkRequest (app : HttpApp) (request : HttpRequest) : Except String Unit :=
  if app.newRequest request.method request.url then .ok () else .error "error creating http request"

def customRootCAs (app : HttpApp) (request : HttpRequest) : Except String (Option Bytes) :=
  if 0 < request.customRootCaCertPem.length then
    if app.appendCertsFromPEM request.customRootCaCertPem then
      .ok (some request.customRootCaCertPem)
    else .error "error parsing custom root CA certificate"
  else .ok none

def buildRequest (app : HttpApp) (run : HttpRun) (request : HttpRequest)
    (data : GoMap Bytes Bytes) : Except String OutboundRequest := do
  let body ← renderBody app request data
  checkRequest app request
  let headers ← (run.headerOrder.keys request.multiHeaders).foldlM (addHeader app request data) []
  let rootCAs ← customRootCAs app request
  .ok ⟨request.method, request.url, body, headers, rootCAs, request.effectiveTimeout⟩

/-! ## The answer of the client -/

structure OutboundHTTPError where
  statusCode : UInt32
  body : String

/-- The texts of the TLS alerts 40, 70, 71, 112, 116 and 120. -/
def handshakeRejectionAlerts : List String :=
  ["tls: handshake failure", "tls: protocol version not supported",
    "tls: insufficient security level", "tls: unrecognized name", "tls: certificate required",
    "tls: no application protocol"]

def upstreamTLSFailure (err : TransportError) : Option String :=
  let rejected := err.remoteAlert.filter (· ∈ handshakeRejectionAlerts)
  match rejected with
  | some alert => some s!"upstream rejected the TLS handshake: {alert}"
  | none => if err.notTLS then some "upstream did not speak TLS on the requested port" else none

def classifyOutboundHTTPError (err : TransportError) : Option OutboundHTTPError :=
  if err.timedOut then some ⟨504, "upstream request timed out"⟩
  else if err.hostUnreachable then some ⟨502, "upstream host unreachable"⟩
  else if err.requestBlocked then
    some ⟨400, "upstream request blocked by enclave network policy"⟩
  else if err.connectionRefused then some ⟨502, "upstream connection refused"⟩
  else if err.connectionClosed then
    some ⟨502, "upstream closed the connection before responding"⟩
  else (upstreamTLSFailure err).map fun detail => ⟨502, detail⟩

def sanitizeUTF8 (s : Bytes) : Bytes := if Utf8.valid s then s else Utf8.toValid s

def convertHeaders (order : MapOrder Bytes (List Bytes)) (h : GoMap Bytes (List Bytes)) :
    GoMap Bytes (List Bytes) :=
  storeAll ∅ ((order.keys h).map fun name =>
    (sanitizeUTF8 name, ((h.lookup name).getD []).map sanitizeUTF8))

def maxResponseBytes : Nat := 1000 * 1024

def readAnswer (run : HttpRun) : ClientAnswer → Except String HttpResponse
  | .failed err =>
      match classifyOutboundHTTPError err with
      | some he => .ok ⟨he.statusCode, ascii he.body, ∅⟩
      | none =>
          let reason := err.text
          .error s!"error making http request: {reason}"
  | .responded statusCode header body =>
      match body with
      | .error err => .error s!"error reading http response: {err}"
      | .ok respBody =>
          if respBody.length > maxResponseBytes then
            .error s!"response body exceeds maximum allowed size of {maxResponseBytes} bytes"
          else
            .ok ⟨UInt32.ofInt statusCode, respBody, convertHeaders run.responseOrder header⟩

def executeHTTPRequest (app : HttpApp) (run : HttpRun) (request : HttpRequest)
    (data : GoMap Bytes Bytes) : Except String HttpResponse := do
  let httpReq ← buildRequest app run request data
  readAnswer run (run.client httpReq)

/-! ## Execute -/

def badRequest (text : String) : ExecuteError := ⟨text, statusBadRequest⟩

def internalError (text : String) : ExecuteError := ⟨text, statusInternalServerError⟩

/-- The request that the input data holds, if it may be executed with secrets of these names. -/
def admitRequest (app : HttpApp) (appID inputData : Bytes) (hasAESKey : Bool) :
    Except ExecuteError HttpRequest :=
  let expected := byteText appIDConfidentialHTTP
  let got := byteText appID
  if appID ≠ appIDConfidentialHTTP then
    .error (badRequest s!"invalid app ID: expected {expected}, got {got}")
  else
    match app.unmarshalRequest inputData with
    | .error err => .error (badRequest s!"unable to unmarshal request data: {err}")
    | .ok request =>
        let fields := app.describeRequest request
        if request.encryptOutput ∧ ¬ hasAESKey then
          .error (badRequest "encryption requested but no AES-GCM key in secrets")
        else if ¬ request.encryptOutput ∧ hasAESKey then
          .error (badRequest "AES-GCM key present but encryption not requested")
        else if request.method = [] then
          .error (badRequest
            s!"template at index 0 is missing required http method. have: {fields}")
        else .ok request

/-- The goroutine of the request. -/
def runRequest (app : HttpApp) (run : HttpRun) (request : HttpRequest)
    (secrets : GoMap Bytes Bytes) : Except String HttpResponse := do
  let data ← templateData run request secrets
  executeHTTPRequest app run request data

/-- Admission and the HTTP exchange, without encryption. -/
def fetchResponse (app : HttpApp) (run : HttpRun) (appID inputData : Bytes)
    (secrets : GoMap Bytes Bytes) : Except ExecuteError (HttpRequest × HttpResponse) := do
  let request ← admitRequest app appID inputData (aesGCMEncryptionKey ∈ secrets)
  let response ← (runRequest app run request secrets).mapError fun err =>
    badRequest s!"error in request 0: {err}"
  .ok (request, response)

/-- `aes.NewCipher` accepts keys of three sizes. -/
def aesGCMEncrypt (app : HttpApp) (run : HttpRun) (plaintext key : Bytes) :
    Except String Bytes :=
  let size := key.length
  if size = 16 ∨ size = 24 ∨ size = 32 then .ok (run.nonce ++ app.gcmSeal key run.nonce plaintext)
  else .error s!"crypto/aes: invalid key size {size}"

def encryptResponse (app : HttpApp) (run : HttpRun) (request : HttpRequest)
    (secrets : GoMap Bytes Bytes) (response : HttpResponse) : Except ExecuteError HttpResponse :=
  match secrets.lookup aesGCMEncryptionKey with
  | none => .ok response
  | some aesKeyHex =>
      if ¬ request.encryptOutput then .ok response
      else
        match Hex.decode aesKeyHex with
        | .error e =>
            let err := byteText e.text
            .error (badRequest s!"failed to hex-decode AES-GCM key: {err}")
        | .ok aesKey =>
            match aesGCMEncrypt app run response.body aesKey with
            | .error err => .error (internalError s!"error encrypting response body: {err}")
            | .ok encrypted => .ok { response with body := encrypted }

def execute (app : HttpApp) (run : HttpRun) (appID inputData : Bytes)
    (secrets : GoMap Bytes Bytes) : Except ExecuteError Bytes := do
  let (request, response) ← fetchResponse app run appID inputData secrets
  let response ← encryptResponse app run request secrets response
  (app.marshalResponse response).mapError fun err =>
    internalError s!"error marshaling combined responses: {err}"

/-! ## Responses marshal -/

theorem valid_sanitizeUTF8 (s : Bytes) : Utf8.valid (sanitizeUTF8 s) = true := by
  unfold sanitizeUTF8
  split
  · assumption
  · exact Utf8.valid_toValid s

theorem printable_readAnswer {run : HttpRun} {answer : ClientAnswer} {response : HttpResponse}
    (read : readAnswer run answer = .ok response) : response.Printable := by
  intro name values found
  unfold readAnswer at read
  split at read
  · split at read
    · cases read
      cases found
    · cases read
  · split at read
    · cases read
    · split at read
      · cases read
      · cases read
        obtain ⟨name', _, same⟩ := List.mem_map.mp (mem_of_lookup_storeAll found)
        cases same
        refine ⟨valid_sanitizeUTF8 name', fun value among => ?_⟩
        obtain ⟨value', _, rfl⟩ := List.mem_map.mp among
        exact valid_sanitizeUTF8 value'

end ConfidentialCompute
