import ConfidentialCompute.ConfidentialHttp
import ConfidentialCompute.Lib.TwoRuns

/-!
# What the errors of the confidential HTTP app tell about secrets

Two calls differ in the values of the secrets only. Up to encryption they fail alike: the errors
of the templates leave out all detail, and what the outbound client answers is the same. The key
that encrypts the response is the exception. If it is no hexadecimal text, then the error shows a
byte of it, and if it has the wrong size, the error shows the size.
-/

namespace ConfidentialCompute

open Go TwoRuns

/-! ## Faults of a key -/

/-- Why a key cannot be used. -/
inductive KeyFault where
  | hex (err : Hex.DecodeError)
  | size (n : Nat)
deriving DecidableEq

def keyFault (aesKeyHex : Bytes) : Option KeyFault :=
  match Hex.decode aesKeyHex with
  | .error err => some (.hex err)
  | .ok aesKey =>
      if aesKey.length = 16 ∨ aesKey.length = 24 ∨ aesKey.length = 32 then none
      else some (.size aesKey.length)

def KeyFault.executeError : KeyFault → ExecuteError
  | .hex err =>
      let text := byteText err.text
      badRequest s!"failed to hex-decode AES-GCM key: {text}"
  | .size n => internalError s!"error encrypting response body: crypto/aes: invalid key size {n}"

theorem byteText_injective : Function.Injective byteText := by
  have shown (x : UInt8) : (Char.ofNat x.toNat).toNat = x.toNat := by
    have bound := x.toNat_lt
    have isChar : x.toNat.isValidChar := Or.inl (by omega)
    rw [Char.ofNat, dif_pos isChar]
    rfl
  have char : Function.Injective fun x : UInt8 => Char.ofNat x.toNat := by
    intro x x' same
    have code := congrArg Char.toNat same
    dsimp only at code
    rw [shown x, shown x'] at code
    exact UInt8.toNat_inj.mp code
  intro b b' same
  exact char.list_map (String.ofList_injective same)

theorem KeyFault.executeError_injective : Function.Injective KeyFault.executeError := by
  intro fault fault' same
  have text := congrArg ExecuteError.error same
  have code := congrArg ExecuteError.code same
  cases fault with
  | hex err =>
      cases fault' with
      | hex err' =>
          have shown := (String.append_right_inj _).mp text
          rw [Hex.DecodeError.text_injective (byteText_injective shown)]
      | size n => cases code
  | size n =>
      cases fault' with
      | hex err => cases code
      | size n' =>
          have shown := (String.append_right_inj _).mp text
          rw [decimal_injective (congrArg ascii shown)]

/-! ## Two calls -/

/-- The text is a template of the request. -/
def HttpRequest.HasTemplate (request : HttpRequest) (text : Bytes) : Prop :=
  request.body = .bodyString text ∨
    ∃ name values, request.multiHeaders.lookup name = some (some values) ∧ text ∈ values

/-- Two calls with one input, whose secrets have the same names. All but the key are valid UTF-8.
Maps are ranged over in the same order, the templates are filled in or fail alike, and the client
gives the same answer. -/
structure Comparable (app : HttpApp) (inputData : Bytes) (run run' : HttpRun)
    (secrets secrets' : GoMap Bytes Bytes) : Prop where
  names : ∀ k, k ∈ secrets ↔ k ∈ secrets'
  printable : ∀ k v, k ≠ aesGCMEncryptionKey → secrets.lookup k = some v → Utf8.valid v = true
  printable' : ∀ k v, k ≠ aesGCMEncryptionKey → secrets'.lookup k = some v → Utf8.valid v = true
  secretOrder : run.secretOrder.keys secrets = run'.secretOrder.keys secrets'
  headerOrder : ∀ m, run.headerOrder.keys m = run'.headerOrder.keys m
  responseOrder : ∀ m, run.responseOrder.keys m = run'.responseOrder.keys m
  rendered : ∀ request data data' text template, app.unmarshalRequest inputData = .ok request →
    templateData run request secrets = .ok data → templateData run' request secrets' = .ok data' →
    request.HasTemplate text → app.parseTemplate text = some template →
    (app.executeTemplate template data).isSome = (app.executeTemplate template data').isSome
  answered : ∀ request data data' sent sent', app.unmarshalRequest inputData = .ok request →
    templateData run request secrets = .ok data → templateData run' request secrets' = .ok data' →
    buildRequest app run request data = .ok sent →
    buildRequest app run' request data' = .ok sent' → run.client sent = run'.client sent'

section

variable {app : HttpApp} {inputData appID : Bytes} {run run' : HttpRun}
  {secrets secrets' : GoMap Bytes Bytes} {request : HttpRequest} {data data' : GoMap Bytes Bytes}

theorem addSecret_alike (calls : Comparable app inputData run run' secrets secrets') {k : Bytes}
    (named : k ∈ secrets) (same : ∀ name, name ∈ data ↔ name ∈ data') :
    Alike (fun data data' => ∀ name, name ∈ data ↔ name ∈ data') (addSecret secrets data k)
      (addSecret secrets' data' k) := by
  obtain ⟨v, found⟩ := Finmap.mem_iff.mp named
  obtain ⟨v', found'⟩ := Finmap.mem_iff.mp ((calls.names k).mp named)
  unfold addSecret
  dsimp only
  rw [found, found', Option.getD_some, Option.getD_some]
  by_cases isKey : k = aesGCMEncryptionKey
  · rw [if_pos isKey, if_pos isKey]
    exact .ok same
  rw [if_neg isKey, if_neg isKey]
  by_cases clash : k ∈ data
  · rw [if_pos clash, if_pos ((same k).mp clash)]
    exact .error _
  have valid := calls.printable k v isKey found
  have valid' := calls.printable' k v' isKey found'
  rw [if_neg clash, if_neg fun clash' => clash ((same k).mpr clash'),
    if_neg (not_not_intro valid), if_neg (not_not_intro valid')]
  refine .ok fun name => ?_
  rw [Finmap.mem_insert, Finmap.mem_insert, same name]

theorem templateData_alike (calls : Comparable app inputData run run' secrets secrets')
    (request : HttpRequest) :
    Alike (fun data data' => ∀ name, name ∈ data ↔ name ∈ data')
      (templateData run request secrets) (templateData run' request secrets') := by
  unfold templateData
  rw [← calls.secretOrder]
  refine Alike.foldlM (fun _ => Iff.rfl) fun k among data data' same => ?_
  exact addSecret_alike calls ((run.secretOrder.mem_iff _ _).mp among) same

/-- Templates that are filled in or fail alike. -/
def RenderAlike (app : HttpApp) (request : HttpRequest) (data data' : GoMap Bytes Bytes) : Prop :=
  ∀ text template, request.HasTemplate text → app.parseTemplate text = some template →
    (app.executeTemplate template data).isSome = (app.executeTemplate template data').isSome

theorem RenderAlike.render (alike : RenderAlike app request data data') (kind : String)
    {text : Bytes} (used : request.HasTemplate text) :
    Alike (fun _ _ => True) (render app kind data text) (render app kind data' text) := by
  unfold ConfidentialCompute.render
  cases parsed : app.parseTemplate text with
  | none => exact .error _
  | some template =>
      have same := alike text template used parsed
      dsimp only
      cases out : app.executeTemplate template data with
      | none =>
          cases out' : app.executeTemplate template data' with
          | none => exact .error _
          | some result' => simp [out, out'] at same
      | some result =>
          cases out' : app.executeTemplate template data' with
          | none => simp [out, out'] at same
          | some result' => exact .ok trivial

theorem RenderAlike.renderBody (alike : RenderAlike app request data data') :
    Alike (fun _ _ => True) (renderBody app request data) (renderBody app request data') := by
  unfold ConfidentialCompute.renderBody
  split
  · split
    · rename_i text isText
      exact (alike.render "body" (Or.inl isText)).map fun _ _ _ => trivial
    · exact .ok trivial
    · exact .ok trivial
  · exact .ok trivial

theorem RenderAlike.addHeader (alike : RenderAlike app request data data')
    {headers headers' : List (Bytes × Bytes)} (name : Bytes) :
    Alike (fun _ _ => True) (addHeader app request data headers name)
      (addHeader app request data' headers' name) := by
  unfold ConfidentialCompute.addHeader
  split
  · exact .ok trivial
  · rename_i values found
    split
    · exact .ok trivial
    · refine Alike.foldlM trivial fun value among _ _ _ => ?_
      have used : request.HasTemplate value :=
        Or.inr ⟨name, values, Option.join_eq_some_iff.mp found, among⟩
      exact (alike.render "header" used).map fun _ _ _ => trivial

theorem RenderAlike.buildRequest (alike : RenderAlike app request data data')
    (headerOrder : ∀ m, run.headerOrder.keys m = run'.headerOrder.keys m) :
    Alike (fun _ _ => True) (buildRequest app run request data)
      (buildRequest app run' request data') := by
  unfold ConfidentialCompute.buildRequest
  refine alike.renderBody.bind fun _ _ _ => ?_
  refine (Alike.of_eq (y := checkRequest app request) rfl).bind fun _ _ _ => ?_
  rw [headerOrder]
  refine (Alike.foldlM trivial fun name _ _ _ _ => alike.addHeader name).bind fun _ _ _ => ?_
  refine (Alike.of_eq (y := customRootCAs app request) rfl).bind fun _ _ _ => ?_
  exact .ok trivial

theorem readAnswer_eq (responseOrder : ∀ m, run.responseOrder.keys m = run'.responseOrder.keys m)
    (answer : ClientAnswer) : readAnswer run answer = readAnswer run' answer := by
  have headers : convertHeaders run.responseOrder = convertHeaders run'.responseOrder := by
    funext h
    unfold convertHeaders
    rw [responseOrder h]
  unfold readAnswer
  rw [headers]

theorem admitRequest_ok {hasAESKey : Bool}
    (admitted : admitRequest app appID inputData hasAESKey = .ok request) :
    app.unmarshalRequest inputData = .ok request ∧ request.encryptOutput = hasAESKey := by
  unfold admitRequest at admitted
  dsimp only at admitted
  split at admitted
  · cases admitted
  split at admitted
  · cases admitted
  rename_i request' decoded
  split at admitted
  · cases admitted
  rename_i present
  split at admitted
  · cases admitted
  rename_i absent
  split at admitted
  · cases admitted
  cases admitted
  refine ⟨decoded, ?_⟩
  cases wanted : request.encryptOutput <;> cases hasAESKey <;> simp_all

/-- The goroutine ends alike, and with the same response. -/
theorem runRequest_alike (calls : Comparable app inputData run run' secrets secrets')
    (decoded : app.unmarshalRequest inputData = .ok request) :
    Alike (· = ·) (runRequest app run request secrets) (runRequest app run' request secrets') := by
  unfold runRequest
  refine (templateData_alike calls request).returned.bind fun data data' filled => ?_
  obtain ⟨filled, filled', _⟩ := filled
  have alike : RenderAlike app request data data' := fun text template used parsed =>
    calls.rendered request data data' text template decoded filled filled' used parsed
  unfold executeHTTPRequest
  refine (alike.buildRequest calls.headerOrder).returned.bind fun sent sent' built => ?_
  obtain ⟨built, built', _⟩ := built
  rw [calls.answered request data data' sent sent' decoded filled filled' built built',
    readAnswer_eq calls.responseOrder]
  exact .of_eq rfl

/-- **Up to encryption** the two calls end alike, and with the same response. -/
theorem fetchResponse_alike (calls : Comparable app inputData run run' secrets secrets')
    (appID : Bytes) :
    fetchResponse app run appID inputData secrets =
      fetchResponse app run' appID inputData secrets' := by
  have named : (decide (aesGCMEncryptionKey ∈ secrets)) =
      decide (aesGCMEncryptionKey ∈ secrets') := by
    simp only [calls.names]
  apply Alike.eq
  unfold fetchResponse
  rw [← named]
  refine (Alike.of_eq (y := admitRequest app appID inputData _) rfl).returned.bind
    fun request request' admitted => ?_
  obtain ⟨admitted, _, rfl⟩ := admitted
  have decoded := (admitRequest_ok admitted).1
  refine (runRequest_alike calls decoded).mapError.bind fun response response' same => ?_
  exact .ok (congrArg (Prod.mk request) same)

/-! ## Where errors come from -/

theorem fetchResponse_ok {response : HttpResponse}
    (fetched : fetchResponse app run appID inputData secrets = .ok (request, response)) :
    request.encryptOutput = decide (aesGCMEncryptionKey ∈ secrets) ∧ response.Printable := by
  obtain ⟨request', admitted, rest⟩ := bind_ok_iff.mp fetched
  obtain ⟨response', ran, same⟩ := bind_ok_iff.mp rest
  cases same
  refine ⟨(admitRequest_ok admitted).2, ?_⟩
  cases outcome : runRequest app run request secrets with
  | error err =>
      rw [outcome] at ran
      cases ran
  | ok returned =>
      rw [outcome] at ran
      cases ran
      obtain ⟨data, _, executed⟩ := bind_ok_iff.mp outcome
      obtain ⟨sent, _, read⟩ := bind_ok_iff.mp executed
      exact printable_readAnswer read

/-- Encryption fails with the fault of the key. -/
theorem encryptResponse_eq (app : HttpApp) (run : HttpRun) (response : HttpResponse) {key : Bytes}
    (wanted : request.encryptOutput = true)
    (found : secrets.lookup aesGCMEncryptionKey = some key) :
    (∃ fault, keyFault key = some fault ∧
      encryptResponse app run request secrets response = .error fault.executeError) ∨
    (keyFault key = none ∧ ∃ encrypted,
      encryptResponse app run request secrets response =
        .ok { response with body := encrypted }) := by
  unfold encryptResponse keyFault
  rw [found]
  dsimp only
  rw [if_neg (not_not_intro wanted)]
  cases Hex.decode key with
  | error err => exact Or.inl ⟨.hex err, rfl, rfl⟩
  | ok aesKey =>
      dsimp only
      unfold aesGCMEncrypt
      dsimp only
      by_cases size : aesKey.length = 16 ∨ aesKey.length = 24 ∨ aesKey.length = 32
      · rw [if_pos size, if_pos size]
        exact Or.inr ⟨rfl, _, rfl⟩
      · rw [if_neg size, if_neg size]
        exact Or.inl ⟨.size aesKey.length, rfl, rfl⟩

/-- After the exchange only a fault of the key is an error. -/
theorem execute_error_of_fetched {response : HttpResponse} {err : ExecuteError}
    (fetched : fetchResponse app run appID inputData secrets = .ok (request, response)) :
    execute app run appID inputData secrets = .error err ↔
      ∃ key fault, secrets.lookup aesGCMEncryptionKey = some key ∧ keyFault key = some fault ∧
        err = fault.executeError := by
  obtain ⟨wanted, printable⟩ := fetchResponse_ok fetched
  -- The headers are left as they are, so the response marshals after encryption, too.
  have marshals (body : Bytes) :
      ∃ raw, app.marshalResponse { response with body := body } = .ok raw :=
    app.marshalResponse_ok _ printable
  unfold execute
  rw [fetched]
  cases found : secrets.lookup aesGCMEncryptionKey with
  | none =>
      obtain ⟨raw, marshalled⟩ := marshals response.body
      have kept : encryptResponse app run request secrets response = .ok response := by
        unfold encryptResponse
        rw [found]
      simp [kept, marshalled, bind, Except.bind, Except.mapError]
  | some key =>
      have named : aesGCMEncryptionKey ∈ secrets := Finmap.mem_iff.mpr ⟨key, found⟩
      have wanted' : request.encryptOutput = true := by simp [wanted, named]
      rcases encryptResponse_eq app run response wanted' found with
        ⟨fault, faulty, failed⟩ | ⟨sound, body, sealed⟩
      · simp [failed, faulty, bind, Except.bind, eq_comm]
      · obtain ⟨raw, marshalled⟩ := marshals body
        simp [sealed, sound, marshalled, bind, Except.bind, Except.mapError]

/-- **Where an error comes from**: what is done before encryption, or a fault of the key. -/
theorem execute_error_iff {err : ExecuteError} :
    execute app run appID inputData secrets = .error err ↔
      fetchResponse app run appID inputData secrets = .error err ∨
      ∃ request response key fault,
        fetchResponse app run appID inputData secrets = .ok (request, response) ∧
        secrets.lookup aesGCMEncryptionKey = some key ∧ keyFault key = some fault ∧
        err = fault.executeError := by
  cases fetched : fetchResponse app run appID inputData secrets with
  | error err' => simp [execute, fetched, bind, Except.bind]
  | ok result =>
      obtain ⟨request, response⟩ := result
      rw [execute_error_of_fetched fetched]
      constructor
      · rintro ⟨key, fault, fields⟩
        exact Or.inr ⟨request, response, key, fault, rfl, fields⟩
      · rintro (failed | ⟨_, _, key, fault, _, fields⟩)
        · cases failed
        · exact ⟨key, fault, fields⟩

end

/-- **Errors and the values of secrets.** Two calls that differ in the values of the secrets only
return the same error exactly when, if the exchange succeeds, their keys do not have different
faults. -/
theorem errors_alike (app : HttpApp) (appID inputData : Bytes) (run run' : HttpRun)
    (secrets secrets' : GoMap Bytes Bytes)
    (calls : Comparable app inputData run run' secrets secrets') :
    (∀ err err', execute app run appID inputData secrets = .error err →
      execute app run' appID inputData secrets' = .error err' → err = err') ↔
    (∀ request response key key' fault fault',
      fetchResponse app run appID inputData secrets = .ok (request, response) →
      secrets.lookup aesGCMEncryptionKey = some key →
      secrets'.lookup aesGCMEncryptionKey = some key' →
      keyFault key = some fault → keyFault key' = some fault' → fault = fault') := by
  have same := fetchResponse_alike calls appID
  constructor
  · intro alike request response key key' fault fault' fetched found found' faulty faulty'
    apply KeyFault.executeError_injective
    apply alike
    · exact (execute_error_of_fetched fetched).mpr ⟨key, fault, found, faulty, rfl⟩
    · exact (execute_error_of_fetched (same ▸ fetched)).mpr ⟨key', fault', found', faulty', rfl⟩
  · intro condition err err' failed failed'
    rcases execute_error_iff.mp failed with
      early | ⟨request, response, key, fault, fetched, found, faulty, rfl⟩
    · rcases execute_error_iff.mp failed' with early' | ⟨_, _, _, _, fetched', _⟩
      · rw [← same, early] at early'
        exact Except.error.inj early'
      · rw [← same, early] at fetched'
        cases fetched'
    · obtain ⟨key', fault', found', faulty', rfl⟩ :=
        (execute_error_of_fetched (same ▸ fetched)).mp failed'
      rw [condition request response key key' fault fault' fetched found found' faulty faulty']

namespace Sample

/-- A request without headers, whose response is to be encrypted. -/
def httpRequest : HttpRequest := ⟨ascii "u", ascii "GET", .unset, ∅, ∅, [], none, true⟩

def httpApp : HttpApp where
  unmarshalRequest _ := .ok httpRequest
  describeRequest _ := ""
  Template := Bytes
  parseTemplate := some
  executeTemplate template _ := some template
  newRequest _ _ := true
  appendCertsFromPEM _ := true
  gcmSeal _ _ plaintext := plaintext
  marshalResponse resp := .ok resp.body
  marshalResponse_ok resp _ := ⟨resp.body, rfl⟩

/-- The orders in which a call ranges over its maps. -/
structure HttpOrders where
  secrets : MapOrder Bytes Bytes
  headers : MapOrder Bytes (Option (List Bytes))
  response : MapOrder Bytes (List Bytes)

def httpRun (orders : HttpOrders) : HttpRun :=
  ⟨orders.secrets, orders.headers, orders.response, fun _ => .responded 200 ∅ (.ok []), []⟩

def httpSecrets (aesKeyHex : String) : GoMap Bytes Bytes :=
  Finmap.insert aesGCMEncryptionKey (ascii aesKeyHex) ∅

theorem lookup_httpSecrets (aesKeyHex : String) :
    (httpSecrets aesKeyHex).lookup aesGCMEncryptionKey = some (ascii aesKeyHex) :=
  Finmap.lookup_insert _

theorem fetchResponse_httpSecrets (orders : HttpOrders) (aesKeyHex : String) :
    fetchResponse httpApp (httpRun orders) appIDConfidentialHTTP [] (httpSecrets aesKeyHex) =
      .ok (httpRequest, ⟨200, [], ∅⟩) := by
  have named : aesGCMEncryptionKey ∈ httpSecrets aesKeyHex :=
    Finmap.mem_iff.mpr ⟨_, lookup_httpSecrets aesKeyHex⟩
  have filled : templateData (httpRun orders) httpRequest (httpSecrets aesKeyHex) = .ok ∅ := by
    have key := orders.secrets.keys_single aesGCMEncryptionKey (ascii aesKeyHex)
    unfold templateData
    exact (congrArg (List.foldlM (addSecret (httpSecrets aesKeyHex)) ∅) key).trans rfl
  have built : buildRequest httpApp (httpRun orders) httpRequest ∅ =
      .ok ⟨ascii "GET", ascii "u", none, [], none, defaultEnclaveRequestTimeout⟩ := by
    have absent : (httpRun orders).headerOrder.keys httpRequest.multiHeaders = [] :=
      orders.headers.keys_empty
    unfold buildRequest
    rw [absent]
    rfl
  have read : readAnswer (httpRun orders) (.responded 200 ∅ (.ok [])) = .ok ⟨200, [], ∅⟩ := by
    have absent : convertHeaders (httpRun orders).responseOrder ∅ = ∅ := by
      unfold convertHeaders
      rw [show (httpRun orders).responseOrder.keys ∅ = [] from orders.response.keys_empty]
      rfl
    unfold readAnswer
    dsimp only
    rw [absent]
    rfl
  have ran : runRequest httpApp (httpRun orders) httpRequest (httpSecrets aesKeyHex) =
      .ok ⟨200, [], ∅⟩ := by
    unfold runRequest executeHTTPRequest
    rw [filled]
    show (buildRequest httpApp (httpRun orders) httpRequest ∅ >>= _) = _
    rw [built]
    exact read
  unfold fetchResponse
  rw [decide_eq_true named]
  show ((runRequest httpApp (httpRun orders) httpRequest (httpSecrets aesKeyHex)).mapError _ >>=
    _) = _
  rw [ran]
  rfl

theorem comparable_httpSecrets (orders : HttpOrders) (aesKeyHex aesKeyHex' : String) :
    Comparable httpApp [] (httpRun orders) (httpRun orders) (httpSecrets aesKeyHex)
      (httpSecrets aesKeyHex') := by
  have only (hex : String) (k v : Bytes) (other : k ≠ aesGCMEncryptionKey) :
      (httpSecrets hex).lookup k ≠ some v := by
    unfold httpSecrets
    rw [Finmap.lookup_insert_of_ne _ other, Finmap.lookup_empty]
    exact (Option.some_ne_none v).symm
  refine {
    names := fun k => ?_
    printable := fun k v other found => (only _ k v other found).elim
    printable' := fun k v other found => (only _ k v other found).elim
    secretOrder := (orders.secrets.keys_single _ _).trans (orders.secrets.keys_single _ _).symm
    headerOrder := fun _ => rfl
    responseOrder := fun _ => rfl
    rendered := fun _ _ _ _ _ _ _ _ _ _ => rfl
    answered := fun _ _ _ _ _ _ _ _ _ _ => rfl }
  unfold httpSecrets
  rw [Finmap.mem_insert, Finmap.mem_insert]

theorem execute_httpSecrets (orders : HttpOrders) {aesKeyHex : String} {fault : KeyFault}
    (faulty : keyFault (ascii aesKeyHex) = some fault) :
    execute httpApp (httpRun orders) appIDConfidentialHTTP [] (httpSecrets aesKeyHex) =
      .error fault.executeError :=
  (execute_error_of_fetched (fetchResponse_httpSecrets orders aesKeyHex)).mpr
    ⟨_, fault, lookup_httpSecrets aesKeyHex, faulty, rfl⟩

end Sample

section

open Sample

/-- A key that is no hexadecimal text is told by its first invalid byte, and a key of the wrong
size by its size. -/
theorem errors_show_key :
    KeyFault.executeError (.hex (.invalidByte 122)) = badRequest
        "failed to hex-decode AES-GCM key: encoding/hex: invalid byte: U+007A 'z'" ∧
      KeyFault.executeError (.hex (.invalidByte 121)) = badRequest
        "failed to hex-decode AES-GCM key: encoding/hex: invalid byte: U+0079 'y'" ∧
      ∀ orders,
        Comparable httpApp [] (httpRun orders) (httpRun orders)
          (httpSecrets "zz") (httpSecrets "yy") ∧
        execute httpApp (httpRun orders) appIDConfidentialHTTP []
          (httpSecrets "zz") = .error (KeyFault.executeError (.hex (.invalidByte 122))) ∧
        execute httpApp (httpRun orders) appIDConfidentialHTTP []
          (httpSecrets "yy") = .error (KeyFault.executeError (.hex (.invalidByte 121))) ∧
        Comparable httpApp [] (httpRun orders) (httpRun orders)
          (httpSecrets "00") (httpSecrets "0000") ∧
        execute httpApp (httpRun orders) appIDConfidentialHTTP []
          (httpSecrets "00") = .error (KeyFault.executeError (.size 1)) ∧
        execute httpApp (httpRun orders) appIDConfidentialHTTP []
          (httpSecrets "0000") = .error (KeyFault.executeError (.size 2)) := by
  refine ⟨by decide, by decide, fun orders => ⟨comparable_httpSecrets orders _ _, ?_, ?_,
    comparable_httpSecrets orders _ _, ?_, ?_⟩⟩
  · exact execute_httpSecrets orders (by decide)
  · exact execute_httpSecrets orders (by decide)
  · exact execute_httpSecrets orders (by decide)
  · exact execute_httpSecrets orders (by decide)

/-- Different keys with one fault give one error. -/
theorem errors_alike_one_fault :
    keyFault (ascii "zz") = keyFault (ascii "z0") ∧
      ∀ orders err err',
        execute httpApp (httpRun orders) appIDConfidentialHTTP [] (httpSecrets "zz") = .error err →
        execute httpApp (httpRun orders) appIDConfidentialHTTP []
          (httpSecrets "z0") = .error err' → err = err' := by
  have same : keyFault (ascii "zz") = keyFault (ascii "z0") := by decide
  refine ⟨same, fun orders => ?_⟩
  refine (errors_alike httpApp appIDConfidentialHTTP [] (httpRun orders)
    (httpRun orders) _ _ (comparable_httpSecrets orders "zz" "z0")).mpr ?_
  intro _ _ key key' fault fault' _ found found' faulty faulty'
  cases (lookup_httpSecrets "zz").symm.trans found
  cases (lookup_httpSecrets "z0").symm.trans found'
  exact Option.some.inj (faulty.symm.trans (same.trans faulty'))

end

end ConfidentialCompute
