import ConfidentialCompute.Workflows.BinaryCache

/-!
# Injected settings

`InjectSettings` of the workflows app. The host sends one payload with all settings: the tunables,
the storage endpoint with its key, and the gateway. The payload is checked, then stored piece by
piece, around two factories that may fail: one builds the storage fetcher, the other the remote
dispatcher, which is built once.
-/

namespace ConfidentialCompute.Workflows

open Go

/-! ## The payload -/

/-- Durations are in nanoseconds. -/
structure WorkflowSettings where
  storageKey : Bytes
  storageServiceURL : Bytes
  storageServiceTLS : Bool
  gatewayURL : Bytes
  maxBinarySize : Int
  binaryFetchTimeout : Int
  maxCacheBytes : Int
  requestTimeout : Int
  gatewayRequestTimeout : Int
  gatewayRetryBackoff : Int
  gatewayRetryTimeout : Int
  executionTimeout : Int
  workflowGracePeriod : Int
  maxConcurrentCompilations : Int
deriving DecidableEq

/-- The payload as far as it can be decoded. -/
inductive SettingsBody where
  | malformed (err : Bytes)
  | settings (req : WorkflowSettings)

def defaultMaxConcurrentCompilations : Nat := 4

def defaultMaxBinaryCacheBytes : Int := 256 * 1024 * 1024

def defaultWorkflowGracePeriod : Int := 2 * second

namespace WorkflowSettings

/-- The names of the required settings that the payload left empty. -/
def missing (s : WorkflowSettings) : List Bytes :=
  (if s.storageKey = [] then [ascii "storageKey"] else []) ++
    (if s.storageServiceURL = [] then [ascii "storageServiceUrl"] else []) ++
    (if s.gatewayURL = [] then [ascii "gatewayUrl"] else [])

def validate (s : WorkflowSettings) : Except Bytes Unit :=
  if s.maxConcurrentCompilations < 0 then
    .error (ascii "maxConcurrentCompilations must be non-negative; 0 means the default of " ++
      decimal defaultMaxConcurrentCompilations ++ ascii " (got -" ++
      decimal s.maxConcurrentCompilations.natAbs ++ ascii ")")
  else if s.missing ≠ [] then
    .error (ascii "missing required settings: " ++ (ascii ", ").intercalate s.missing)
  else .ok ()

end WorkflowSettings

/-! ## The app -/

structure GatewayConfig where
  url : Bytes
  requestTimeout : Int
  retryBackoff : Int
  retryTimeout : Int
deriving DecidableEq

def WorkflowSettings.gateway (s : WorkflowSettings) : GatewayConfig where
  url := s.gatewayURL
  requestTimeout := s.gatewayRequestTimeout
  retryBackoff := s.gatewayRetryBackoff
  retryTimeout := s.gatewayRetryTimeout

/-- A dispatcher: the gateway it was built for, and its configuration. -/
structure RemoteDispatcher where
  gateway : GatewayConfig
  config : EnclaveConfig

def RemoteDispatcher.setConfig (d : RemoteDispatcher) (config : EnclaveConfig) :
    RemoteDispatcher :=
  { d with config }

/-- A weighted semaphore: how many were made before it, and its size. -/
structure Semaphore where
  serial : Nat
  size : Int
deriving DecidableEq

/-- The fields of the app that the settings and the configuration reach. `φ` are the storage
fetchers. A pointer to a dispatcher is its position in the list of those made so far. -/
structure WorkflowsApp (φ : Type) where
  fetcher : BinaryFetcher
  /-- The default timeout of the HTTP fetcher, if there is one. -/
  httpFetcher : Option Int
  executionTimeout : Int
  compileSlots : Semaphore
  gracePeriod : Int
  storageServiceURL : Bytes
  storageServiceTLS : Bool
  storageFetcher : Option φ
  /-- The storage fetchers that have been closed. -/
  closed : List φ
  dispatchers : List RemoteDispatcher
  dispatcher : Option Nat
  hasDispatcherFactory : Bool
  lastConfig : EnclaveConfig
  haveConfig : Bool

/-- What the two factories return in a call. -/
structure Factories (φ : Type) where
  storage : (storageURL : Bytes) → (tls : Bool) → (privateKey : Bytes) →
    (maxBytes timeout : Int) → Except Bytes φ
  dispatcher : GatewayConfig → Except Bytes RemoteDispatcher

variable {φ : Type}

/-- What the storage factory returns to a call with the payload `req`. -/
def Factories.storageFor (factories : Factories φ) (req : WorkflowSettings) : Except Bytes φ :=
  factories.storage req.storageServiceURL req.storageServiceTLS req.storageKey req.maxBinarySize
    req.binaryFetchTimeout

/-- The transports an app is made with, as far as it can check them. -/
structure AppConfig where
  httpFetcher : Option Int
  hasStorageFetcherFactory : Bool
  hasRemoteDispatcherFactory : Bool

/-- An app into which nothing has been injected. -/
def WorkflowsApp.initial (httpFetcher : Option Int) : WorkflowsApp φ where
  fetcher := newBinaryFetcher defaultMaxBinaryCacheBytes
  httpFetcher := httpFetcher
  executionTimeout := 0
  compileSlots := ⟨0, defaultMaxConcurrentCompilations⟩
  gracePeriod := defaultWorkflowGracePeriod
  storageServiceURL := []
  storageServiceTLS := false
  storageFetcher := none
  closed := []
  dispatchers := []
  dispatcher := none
  hasDispatcherFactory := true
  lastConfig := EnclaveConfig.zero
  haveConfig := false

def newConfidentialWorkflowsApp (config : AppConfig) : Except Bytes (WorkflowsApp φ) :=
  if config.httpFetcher = none then .error (ascii "HTTP fetcher is required")
  else if config.hasStorageFetcherFactory = false then
    .error (ascii "storage fetcher factory is required")
  else if config.hasRemoteDispatcherFactory = false then
    .error (ascii "remote dispatcher factory is required")
  else
    .ok (.initial config.httpFetcher)

namespace WorkflowsApp

/-! ## The stores, in the order of the call -/

def setMaxCacheBytes (req : WorkflowSettings) (a : WorkflowsApp φ) : WorkflowsApp φ :=
  { a with fetcher := a.fetcher.setMaxCacheBytes req.maxCacheBytes }

def setDefaultTimeout (req : WorkflowSettings) (a : WorkflowsApp φ) : WorkflowsApp φ :=
  { a with
    httpFetcher := a.httpFetcher.map fun d =>
      if req.requestTimeout ≤ 0 then d else req.requestTimeout }

def storeExecutionTimeout (req : WorkflowSettings) (a : WorkflowsApp φ) : WorkflowsApp φ :=
  { a with
    executionTimeout := if 0 < req.executionTimeout then req.executionTimeout
      else a.executionTimeout }

def storeCompileSlots (req : WorkflowSettings) (a : WorkflowsApp φ) : WorkflowsApp φ :=
  { a with
    compileSlots := if 0 < req.maxConcurrentCompilations then
        ⟨a.compileSlots.serial + 1, req.maxConcurrentCompilations⟩
      else a.compileSlots }

/-- Only zero keeps the old value: a negative grace period switches the wait off. -/
def storeGracePeriod (req : WorkflowSettings) (a : WorkflowsApp φ) : WorkflowsApp φ :=
  { a with
    gracePeriod := if req.workflowGracePeriod ≠ 0 then req.workflowGracePeriod
      else a.gracePeriod }

def setStorageService (req : WorkflowSettings) (a : WorkflowsApp φ) : WorkflowsApp φ :=
  { a with
    storageServiceURL := req.storageServiceURL
    storageServiceTLS := req.storageServiceTLS }

/-- The old fetcher is closed after the swap. -/
def swapStorageFetcher (fetcher : φ) (a : WorkflowsApp φ) : WorkflowsApp φ :=
  { a with
    storageFetcher := some fetcher
    closed := a.closed ++ a.storageFetcher.toList }

/-- A dispatcher that is built after a configuration came is given it. -/
def buildDispatcher (req : WorkflowSettings) (factories : Factories φ) (a : WorkflowsApp φ) :
    Except Bytes Unit × WorkflowsApp φ :=
  if a.dispatcher = none ∧ a.hasDispatcherFactory = true then
    match factories.dispatcher req.gateway with
    | .error err => (.error (ascii "building remote dispatcher: " ++ err), a)
    | .ok d =>
        let d := if a.haveConfig = true then d.setConfig a.lastConfig else d
        (.ok (), { a with
          dispatchers := a.dispatchers ++ [d]
          dispatcher := some a.dispatchers.length })
  else (.ok (), a)

/-- What is stored before the storage fetcher is built. -/
def storeTunables (req : WorkflowSettings) (a : WorkflowsApp φ) : WorkflowsApp φ :=
  let a := a.setMaxCacheBytes req
  let a := a.setDefaultTimeout req
  let a := a.storeExecutionTimeout req
  let a := a.storeCompileSlots req
  let a := a.storeGracePeriod req
  a.setStorageService req

def injectSettings (a : WorkflowsApp φ) (body : SettingsBody) (factories : Factories φ) :
    Except Bytes Unit × WorkflowsApp φ :=
  match body with
  | .malformed err => (.error (ascii "parsing settings: " ++ err), a)
  | .settings req =>
      match req.validate with
      | .error err => (.error err, a)
      | .ok () =>
          let a := a.storeTunables req
          match factories.storage a.storageServiceURL a.storageServiceTLS req.storageKey
              req.maxBinarySize req.binaryFetchTimeout with
          | .error err => (.error (ascii "building storage fetcher: " ++ err), a)
          | .ok fetcher => (a.swapStorageFetcher fetcher).buildDispatcher req factories

end WorkflowsApp

/-! ## A smaller bound on the cache -/

namespace BinaryFetcher

variable {f : BinaryFetcher} {incoming : Nat}

theorem evictOldest_of_none (nothing : f.oldest = none) : f.evictOldest = f := by
  rw [evictOldest, nothing]

theorem cached_evictOldest {entry : CacheEntry} (isOldest : f.oldest = some entry) :
    f.cached = f.evictOldest.cached ++ [entry] := by
  obtain ⟨el, last, holds⟩ := Option.bind_eq_some_iff.mp isOldest
  obtain ⟨els, split⟩ := List.getLast?_eq_some_iff.mp last
  have only : [el].filterMap (f.elements[·]?) = [entry] := by simp [holds]
  rw [evictOldest, isOldest]
  show f.evictList.filterMap (f.elements[·]?) =
    f.evictList.dropLast.filterMap (f.elements[·]?) ++ [entry]
  rw [split, List.dropLast_concat, List.filterMap_append, only]

theorem length_cached_evictOldest_le (f : BinaryFetcher) :
    f.evictOldest.cached.length ≤ f.cached.length := by
  cases isOldest : f.oldest with
  | none => rw [evictOldest_of_none isOldest]
  | some entry => rw [cached_evictOldest isOldest, List.length_append]; omega

theorem length_cached_evictFrom_le (incoming n : Nat) (f : BinaryFetcher) :
    (evictFrom incoming n f).cached.length ≤ f.cached.length := by
  induction n generalizing f with
  | zero => exact le_rfl
  | succ n ih =>
      rw [evictFrom]
      split
      · exact (ih f.evictOldest).trans (length_cached_evictOldest_le f)
      · exact le_rfl

theorem evictFrom_of_nothing (nothing : f.MustEvict incoming → f.oldest = none) (n : Nat) :
    evictFrom incoming n f = f := by
  induction n with
  | zero => rfl
  | succ n ih =>
      rw [evictFrom]
      split
      · rename_i must
        rw [evictOldest_of_none (nothing must), ih]
      · rfl

/-- The loop leaves everything cached if it has nothing to evict, and only then. -/
theorem cached_evict_eq_iff :
    (f.evict incoming).cached = f.cached ↔ (f.MustEvict incoming → f.oldest = none) := by
  constructor
  · intro kept must
    cases isOldest : f.oldest with
    | none => rfl
    | some entry =>
        obtain ⟨n, rounds⟩ := Nat.exists_eq_succ_of_ne_zero
          (mt List.length_eq_zero_iff.mp must.2)
        have fewer := length_cached_evictFrom_le incoming n f.evictOldest
        rw [evict, rounds, evictFrom, if_pos must] at kept
        rw [kept, cached_evictOldest isOldest, List.length_append, List.length_singleton] at fewer
        omega
  · intro nothing
    rw [evict, evictFrom_of_nothing nothing]

theorem setMaxCacheBytes_keeps_iff {bound : Int} :
    ((f.setMaxCacheBytes bound).maxCacheBytes = f.maxCacheBytes ∧
        (f.setMaxCacheBytes bound).cached = f.cached) ↔
      (0 < bound → bound = f.maxCacheBytes ∧ (f.MustEvict 0 → f.oldest = none)) := by
  by_cases positive : 0 < bound
  · rw [maxCacheBytes_setMaxCacheBytes positive, setMaxCacheBytes,
      if_neg (Int.not_le.mpr positive)]
    constructor
    · rintro ⟨rfl, kept⟩ -
      exact ⟨rfl, cached_evict_eq_iff.mp kept⟩
    · intro restates
      obtain ⟨rfl, nothing⟩ := restates positive
      exact ⟨rfl, cached_evict_eq_iff.mpr nothing⟩
  · rw [setMaxCacheBytes_ignored (Int.not_lt.mp positive)]
    exact iff_of_true ⟨rfl, rfl⟩ fun isPositive => absurd isPositive positive

end BinaryFetcher

/-! ## Calls that fail -/

namespace WorkflowsApp

variable {a a' : WorkflowsApp φ} {req : WorkflowSettings} {body : SettingsBody}
  {factories : Factories φ} {fetcher : φ}

/-- The settings, the cached binaries and the dispatcher are those from before. -/
structure Untouched (a a' : WorkflowsApp φ) : Prop where
  maxCacheBytes : a'.fetcher.maxCacheBytes = a.fetcher.maxCacheBytes
  cached : a'.fetcher.cached = a.fetcher.cached
  httpFetcher : a'.httpFetcher = a.httpFetcher
  executionTimeout : a'.executionTimeout = a.executionTimeout
  compileSlots : a'.compileSlots = a.compileSlots
  gracePeriod : a'.gracePeriod = a.gracePeriod
  storageServiceURL : a'.storageServiceURL = a.storageServiceURL
  storageServiceTLS : a'.storageServiceTLS = a.storageServiceTLS
  storageFetcher : a'.storageFetcher = a.storageFetcher
  dispatcher : a'.dispatcher = a.dispatcher
  dispatchers : a'.dispatchers = a.dispatchers

theorem Untouched.refl (a : WorkflowsApp φ) : Untouched a a :=
  ⟨rfl, rfl, rfl, rfl, rfl, rfl, rfl, rfl, rfl, rfl, rfl⟩

/-- The payload says what the app has already: each tunable in it is omitted or the current one,
and the endpoint is the current one. Compile slots cannot be given again, since each payload with
a number of slots has a semaphore made. -/
structure Restates (a : WorkflowsApp φ) (req : WorkflowSettings) : Prop where
  maxCacheBytes : 0 < req.maxCacheBytes → req.maxCacheBytes = a.fetcher.maxCacheBytes ∧
    (a.fetcher.MustEvict 0 → a.fetcher.oldest = none)
  requestTimeout : ∀ d, a.httpFetcher = some d → 0 < req.requestTimeout → req.requestTimeout = d
  executionTimeout : 0 < req.executionTimeout → req.executionTimeout = a.executionTimeout
  maxConcurrentCompilations : req.maxConcurrentCompilations ≤ 0
  workflowGracePeriod : req.workflowGracePeriod ≠ 0 → req.workflowGracePeriod = a.gracePeriod
  storageServiceURL : req.storageServiceURL = a.storageServiceURL
  storageServiceTLS : req.storageServiceTLS = a.storageServiceTLS

theorem setDefaultTimeout_keeps_iff :
    (a.setDefaultTimeout req).httpFetcher = a.httpFetcher ↔
      ∀ d, a.httpFetcher = some d → 0 < req.requestTimeout → req.requestTimeout = d := by
  rw [setDefaultTimeout]
  cases a.httpFetcher with
  | none => exact iff_of_true rfl fun d found => nomatch found
  | some current =>
      simp only [Option.map_some, Option.some.injEq, forall_eq']
      by_cases positive : 0 < req.requestTimeout
      · rw [if_neg (Int.not_le.mpr positive), forall_prop_of_true positive]
      · rw [if_pos (Int.not_lt.mp positive)]
        exact iff_of_true rfl fun isPositive => absurd isPositive positive

theorem storeCompileSlots_keeps_iff :
    (a.storeCompileSlots req).compileSlots = a.compileSlots ↔
      req.maxConcurrentCompilations ≤ 0 := by
  rw [storeCompileSlots]
  show (if _ then _ else _) = _ ↔ _
  rw [ite_eq_right_iff]
  constructor
  · intro same
    by_contra positive
    have serial := congrArg Semaphore.serial (same (Int.not_le.mp positive))
    exact absurd serial (Nat.succ_ne_self _)
  · intro ignored positive
    omega

/-- What precedes the storage fetcher leaves the app alone if the payload restates it. -/
theorem untouched_storeTunables_iff :
    Untouched a (a.storeTunables req) ↔ Restates a req := by
  constructor
  · intro untouched
    exact ⟨BinaryFetcher.setMaxCacheBytes_keeps_iff.mp ⟨untouched.maxCacheBytes, untouched.cached⟩,
      setDefaultTimeout_keeps_iff.mp untouched.httpFetcher,
      ite_eq_right_iff.mp untouched.executionTimeout,
      storeCompileSlots_keeps_iff.mp untouched.compileSlots,
      ite_eq_right_iff.mp untouched.gracePeriod,
      untouched.storageServiceURL, untouched.storageServiceTLS⟩
  · intro restates
    obtain ⟨bound, cached⟩ :=
      BinaryFetcher.setMaxCacheBytes_keeps_iff.mpr restates.maxCacheBytes
    exact ⟨bound, cached, setDefaultTimeout_keeps_iff.mpr restates.requestTimeout,
      ite_eq_right_iff.mpr restates.executionTimeout,
      storeCompileSlots_keeps_iff.mpr restates.maxConcurrentCompilations,
      ite_eq_right_iff.mpr restates.workflowGracePeriod, restates.storageServiceURL,
      restates.storageServiceTLS, rfl, rfl, rfl⟩

theorem untouched_swapStorageFetcher_iff :
    Untouched a ((a.storeTunables req).swapStorageFetcher fetcher) ↔
      Restates a req ∧ a.storageFetcher = some fetcher := by
  constructor
  · intro untouched
    have before : Untouched a (a.storeTunables req) :=
      { untouched with storageFetcher := rfl }
    exact ⟨untouched_storeTunables_iff.mp before, untouched.storageFetcher.symm⟩
  · rintro ⟨restates, same⟩
    exact { untouched_storeTunables_iff.mpr restates with storageFetcher := same.symm }

/-- Where a call ends, and the app it leaves. -/
inductive InjectOutcome (a : WorkflowsApp φ) (factories : Factories φ) :
    SettingsBody → Except Bytes Unit × WorkflowsApp φ → Prop
  | malformed {err : Bytes} :
    InjectOutcome a factories (.malformed err) (.error (ascii "parsing settings: " ++ err), a)
  | invalid {req : WorkflowSettings} {err : Bytes} :
    req.validate = .error err → InjectOutcome a factories (.settings req) (.error err, a)
  | noStorage {req : WorkflowSettings} {err : Bytes} :
    req.validate = .ok () → factories.storageFor req = .error err →
    InjectOutcome a factories (.settings req)
      (.error (ascii "building storage fetcher: " ++ err), a.storeTunables req)
  | noDispatcher {req : WorkflowSettings} {fetcher : φ} {err : Bytes} :
    req.validate = .ok () → factories.storageFor req = .ok fetcher → a.dispatcher = none →
    a.hasDispatcherFactory = true → factories.dispatcher req.gateway = .error err →
    InjectOutcome a factories (.settings req)
      (.error (ascii "building remote dispatcher: " ++ err),
        (a.storeTunables req).swapStorageFetcher fetcher)
  | applied {req : WorkflowSettings} {fetcher : φ} {a' : WorkflowsApp φ} :
    req.validate = .ok () → factories.storageFor req = .ok fetcher →
    (a.dispatcher = none → a.hasDispatcherFactory = true →
      ∃ d, factories.dispatcher req.gateway = .ok d) →
    InjectOutcome a factories (.settings req) (.ok (), a')

theorem injectSettings_outcome (a : WorkflowsApp φ) (body : SettingsBody)
    (factories : Factories φ) :
    InjectOutcome a factories body (a.injectSettings body factories) := by
  cases body with
  | malformed err => exact .malformed
  | settings req =>
      rw [injectSettings]
      cases valid : req.validate with
      | error err => exact .invalid valid
      | ok _ =>
          have asked : factories.storage (a.storeTunables req).storageServiceURL
              (a.storeTunables req).storageServiceTLS req.storageKey req.maxBinarySize
              req.binaryFetchTimeout = factories.storageFor req := rfl
          simp only [asked]
          cases stored : factories.storageFor req with
          | error err => exact .noStorage valid stored
          | ok fetcher =>
              show InjectOutcome a factories _ (buildDispatcher req factories _)
              rw [buildDispatcher]
              split
              · rename_i build
                cases built : factories.dispatcher req.gateway with
                | error err => exact .noDispatcher valid stored build.1 build.2 built
                | ok d => exact .applied valid stored fun _ _ => ⟨d, built⟩
              · rename_i keep
                exact .applied valid stored fun absent factory => absurd ⟨absent, factory⟩ keep

end WorkflowsApp

theorem rejected_settings_untouched_iff (a : WorkflowsApp φ) (body : SettingsBody)
    (factories : Factories φ) :
    ((∃ err, (a.injectSettings body factories).1 = .error err) →
        a.Untouched (a.injectSettings body factories).2) ↔
      ∀ req, body = .settings req → req.validate = .ok () →
        (∀ err, factories.storageFor req = .error err → a.Restates req) ∧
        (∀ fetcher err, factories.storageFor req = .ok fetcher → a.dispatcher = none →
          a.hasDispatcherFactory = true → factories.dispatcher req.gateway = .error err →
          a.Restates req ∧ a.storageFetcher = some fetcher) := by
  generalize ends : a.injectSettings body factories = result
  have outcome := WorkflowsApp.injectSettings_outcome a body factories
  rw [ends] at outcome
  cases outcome with
  | malformed =>
      exact iff_of_true (fun _ => .refl a) fun req same => nomatch same
  | invalid invalid =>
      refine iff_of_true (fun _ => .refl a) ?_
      intro req same valid
      cases same
      cases valid.symm.trans invalid
  | noStorage valid failed =>
      constructor
      · intro property req same _
        cases same
        refine ⟨fun _ _ => WorkflowsApp.untouched_storeTunables_iff.mp (property ⟨_, rfl⟩), ?_⟩
        intro fetcher err stored
        cases stored.symm.trans failed
      · intro condition _
        exact WorkflowsApp.untouched_storeTunables_iff.mpr ((condition _ rfl valid).1 _ failed)
  | noDispatcher valid stored absent factory failed =>
      constructor
      · intro property req same _
        cases same
        refine ⟨fun err failed => ?_, fun fetcher err stored' _ _ _ => ?_⟩
        · cases failed.symm.trans stored
        · cases stored'.symm.trans stored
          exact WorkflowsApp.untouched_swapStorageFetcher_iff.mp (property ⟨_, rfl⟩)
      · intro condition _
        exact WorkflowsApp.untouched_swapStorageFetcher_iff.mpr
          ((condition _ rfl valid).2 _ _ stored absent factory failed)
  | applied valid stored built =>
      refine iff_of_true (fun failed => nomatch failed.choose_spec) ?_
      intro req same _
      cases same
      refine ⟨fun err failed => ?_, fun fetcher err stored' absent factory failed => ?_⟩
      · cases failed.symm.trans stored
      · obtain ⟨d, built⟩ := built absent factory
        cases failed.symm.trans built

namespace Sample

def settings (storageKey storageServiceURL gatewayURL : Bytes) : WorkflowSettings where
  storageKey := storageKey
  storageServiceURL := storageServiceURL
  storageServiceTLS := true
  gatewayURL := gatewayURL
  maxBinarySize := 0
  binaryFetchTimeout := 0
  maxCacheBytes := 0
  requestTimeout := 0
  gatewayRequestTimeout := 0
  gatewayRetryBackoff := 0
  gatewayRetryTimeout := 0
  executionTimeout := 0
  workflowGracePeriod := 0
  maxConcurrentCompilations := 0

def app : WorkflowsApp Nat := .initial (some (30 * second))

example : newConfidentialWorkflowsApp ⟨some (30 * second), true, true⟩ = .ok app := rfl

/-- The storage factory refuses a key that is not hexadecimal. -/
def refusingKey : Factories Nat where
  storage _ _ _ _ _ :=
    .error (ascii "decoding ed25519 key hex: encoding/hex: invalid byte: U+007A 'z'")
  dispatcher gateway := .ok ⟨gateway, EnclaveConfig.zero⟩

def badKey : SettingsBody :=
  .settings (settings (ascii "zz") (ascii "storage:443") (ascii "https://gateway"))

end Sample

theorem rejected_settings_half_configured :
    (∃ err, (Sample.app.injectSettings Sample.badKey Sample.refusingKey).1 = .error err) ∧
      ¬ Sample.app.Untouched (Sample.app.injectSettings Sample.badKey Sample.refusingKey).2 := by
  have endpoint : (Sample.app.injectSettings Sample.badKey Sample.refusingKey).2.storageServiceURL =
      ascii "storage:443" := rfl
  refine ⟨⟨_, rfl⟩, fun untouched => ?_⟩
  have same := untouched.storageServiceURL
  rw [endpoint] at same
  revert same
  decide

end ConfidentialCompute.Workflows
