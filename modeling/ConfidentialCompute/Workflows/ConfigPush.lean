import ConfidentialCompute.Enclave.ConfigRequests
import ConfidentialCompute.Workflows.SettingsRuns

/-!
# The configuration of the remote dispatcher

The dispatcher of the workflows app learns the enclave's configuration in two ways. A `/config`
request that installs one calls `OnConfigUpdate`, which notes it under `mu` and then pushes it,
outside `mu`, to the dispatcher it saw there. An injection that builds the dispatcher gives it,
under `mu`, the configuration noted last. Injections run at any time; `/config` requests run one
at a time, since they hold `configLock` to their end.
-/

namespace ConfidentialCompute.Workflows

open Go Runs

variable {φ : Type}

/-! ## The system -/

/-- Where the `/config` request in progress stands. -/
inductive ConfigPC where
  /-- `OnConfigUpdate` is called. -/
  | note (config : EnclaveConfig)
  /-- It has noted the configuration, and seen this dispatcher. -/
  | push (d : Option Nat) (config : EnclaveConfig)
  | answer

structure PushSystem (φ : Type) where
  server : EnclaveServer
  app : WorkflowsApp φ
  /-- The injections in progress. -/
  injections : GoMap Nat (InjectCall φ)
  /-- The request that holds `configLock`. -/
  request : Option ConfigPC
  /-- The configurations that the server has installed, the last one first. -/
  installed : List EnclaveConfig

inductive PushLabel (φ : Type) where
  | inject (id : Nat) (body : SettingsBody) (factories : Factories φ)
  | injectStep (id : Nat) (i : InjectStep)
  | config (now : Int) (attestor : AttestorReply) (request : ConfigRequest)
  | proceed

namespace WorkflowsApp

/-- `OnConfigUpdate` under `mu`. -/
def noteConfig (a : WorkflowsApp φ) (config : EnclaveConfig) : WorkflowsApp φ :=
  { a with
    lastConfig := config
    haveConfig := true }

/-- `d.SetConfig(config)`. -/
def pushConfig (a : WorkflowsApp φ) (d : Nat) (config : EnclaveConfig) : WorkflowsApp φ :=
  { a with dispatchers := a.dispatchers.modify d (·.setConfig config) }

end WorkflowsApp

namespace PushSystem

/-- A payload that fails the check leaves nothing to do. -/
def inject (s : PushSystem φ) (id : Nat) (body : SettingsBody) (factories : Factories φ) :
    PushSystem φ :=
  match body with
  | .malformed _ => s
  | .settings req =>
      match req.validate with
      | .error _ => s
      | .ok () => { s with injections := s.injections.insert id (.start req factories) }

/-- The handlers call `OnConfigUpdate` where they install a configuration; what they do with the
server does not depend on the app. -/
def arrive (crypto : Crypto) (s : PushSystem φ) (now : Int) (attestor : AttestorReply)
    (request : ConfigRequest) : PushSystem φ :=
  let server :=
    ({ s.server with appConfig := none }.handleConfig crypto now attestor request).1
  match server.appConfig with
  | none => { s with server, request := some .answer }
  | some config =>
      { s with server, request := some (.note config), installed := config :: s.installed }

def proceed (s : PushSystem φ) : ConfigPC → PushSystem φ
  | .note config =>
      { s with app := s.app.noteConfig config, request := some (.push s.app.dispatcher config) }
  | .push none _ => { s with request := some .answer }
  | .push (some d) config =>
      { s with app := s.app.pushConfig d config, request := some .answer }
  | .answer => { s with request := none }

def step (crypto : Crypto) (s : PushSystem φ) : PushLabel φ → Option (PushSystem φ)
  | .inject id body factories =>
      if (s.injections.lookup id).isSome then none else some (s.inject id body factories)
  | .injectStep id i =>
      (s.injections.lookup id).bind fun call =>
        (call.take s.app i).map fun (app, call) =>
          { s with app, injections := s.injections.insert id call }
  | .config now attestor request =>
      match s.request with
      | some _ => none
      | none => some (s.arrive crypto now attestor request)
  | .proceed => s.request.map s.proceed

/-- No configuration has come yet. A dispatcher may have been given to the app up front. -/
structure Started (s : PushSystem φ) : Prop where
  appConfigurable : s.server.appConfigurable = true
  haveConfig : s.app.haveConfig = false
  dispatcher : ∀ p, s.app.dispatcher = some p → p < s.app.dispatchers.length
  request : s.request = none
  installed : s.installed = []

end PushSystem

/-! ## What the handlers tell the app -/

/-- A `/config` request tells the app nothing and leaves the configuration, or tells it the
configuration that it has installed. -/
inductive Tells (s s' : EnclaveServer) : Prop
  | nothing : s'.appConfigurable = s.appConfigurable → s'.config = s.config →
    s'.appConfig = s.appConfig → Tells s s'
  | installed : s'.appConfigurable = s.appConfigurable → s'.appConfig = some s'.config → Tells s s'

section

variable {crypto : Crypto} {s : EnclaveServer} {now : Int} {attestor : AttestorReply}

theorem Tells.refl (s : EnclaveServer) : Tells s s := .nothing rfl rfl rfl

theorem handleSetConfig_tells (configurable : s.appConfigurable = true) {method : HttpMethod}
    {body : ConfigBody} : Tells s (s.handleSetConfig method body attestor).1 := by
  have notify : ∀ newConfig, { s with config := newConfig, configSet := true }.notifyApp newConfig =
      { s with config := newConfig, configSet := true, appConfig := some newConfig } :=
    fun newConfig => if_pos configurable
  unfold EnclaveServer.handleSetConfig
  split
  · exact .refl s
  · split
    · exact .refl s
    · split
      · exact .refl s
      · exact .refl s
      · exact .refl s
      · simp only [notify]
        split <;> exact .installed rfl rfl

theorem handleUpdateConfig_tells (configurable : s.appConfigurable = true) {body : ConfigBody} :
    Tells s (EnclaveServer.handleUpdateConfig crypto s now body attestor).1 := by
  have apply : ∀ newHash signer newConfig,
      Tells s ((s.recordVote crypto now newHash signer).applyConfig newConfig) := by
    intro newHash signer newConfig
    have notify : (s.recordVote crypto now newHash signer).applyConfig newConfig =
        { s.recordVote crypto now newHash signer with
          config := newConfig
          pendingConfigVotes := (s.recordVote crypto now newHash signer).pendingConfigVotes.flush
          appConfig := some newConfig } := if_pos configurable
    rw [notify]
    exact .installed rfl rfl
  unfold EnclaveServer.handleUpdateConfig
  split
  · exact .refl s
  · split
    · exact .refl s
    · exact .refl s
    · exact .refl s
    · dsimp only
      split
      · exact .refl s
      · exact .refl s
      · split
        · split
          · exact .refl s
          · exact .nothing rfl rfl rfl
        · split
          · exact .nothing rfl rfl rfl
          · split
            · exact apply ..
            · cases apply _ _ _ with
              | nothing configurable config told => exact .nothing configurable config told
              | installed configurable told => exact .installed configurable told

theorem handleConfig_tells (configurable : s.appConfigurable = true) (request : ConfigRequest) :
    Tells s (s.handleConfig crypto now attestor request).1 := by
  cases request with
  | set method body => exact handleSetConfig_tells configurable
  | update body => exact handleUpdateConfig_tells configurable

end

/-! ## What an injection does to the dispatcher -/

/-- The configuration noted last. -/
def WorkflowsApp.noted (a : WorkflowsApp φ) : Option EnclaveConfig :=
  if a.haveConfig = true then some a.lastConfig else none

/-- A step leaves the dispatcher alone, or builds the first one with what has been noted. -/
inductive Dispatching (a a' : WorkflowsApp φ) : Prop
  | kept : a'.noted = a.noted → a'.dispatcher = a.dispatcher →
    a'.dispatchers = a.dispatchers → Dispatching a a'
  | built {d : RemoteDispatcher} : a'.noted = a.noted → a.dispatcher = none →
    a'.dispatcher = some a.dispatchers.length → a'.dispatchers = a.dispatchers ++ [d] →
    (∀ config, a.noted = some config → d.config = config) → Dispatching a a'

section

variable {a a' : WorkflowsApp φ} {call call' : InjectCall φ} {i : InjectStep}

theorem buildDispatcher_dispatching (req : WorkflowSettings) (factories : Factories φ) :
    Dispatching a (a.buildDispatcher req factories).2 := by
  rw [WorkflowsApp.buildDispatcher]
  split
  · rename_i build
    cases factories.dispatcher req.gateway with
    | error err => exact .kept rfl rfl rfl
    | ok d =>
        refine .built rfl build.1 rfl rfl fun config noted => ?_
        rw [WorkflowsApp.noted] at noted
        split at noted
        · rename_i have_
          rw [if_pos have_]
          exact Option.some.inj noted
        · cases noted
  · exact .kept rfl rfl rfl

theorem run_dispatching (req : WorkflowSettings) (factories : Factories φ) (i : InjectStep) :
    Dispatching a (i.run req factories a).2 := by
  cases i with
  | storage =>
      rw [InjectStep.run]
      split <;> exact .kept rfl rfl rfl
  | dispatcher => exact buildDispatcher_dispatching req factories
  | _ => exact .kept rfl rfl rfl

theorem take_dispatching (taken : call.take a i = some (a', call')) : Dispatching a a' := by
  rw [InjectCall.take] at taken
  split at taken
  · cases taken
  · split at taken
    · have effect := run_dispatching (a := a) call.req call.factories i
      generalize i.run call.req call.factories a = result at taken effect
      obtain ⟨status, after⟩ := result
      cases status <;> cases taken <;> exact effect
    · cases taken

end

/-! ## The invariant -/

/-- The dispatcher, if there is one, has the configuration `last`. -/
def UpToDate (a : WorkflowsApp φ) (last : Option EnclaveConfig) : Prop :=
  ∀ p config, a.dispatcher = some p → last = some config →
    ∃ d, a.dispatchers[p]? = some d ∧ d.config = config

/-- What holds at each point of a `/config` request; `last` has been installed last. -/
inductive Pushing (a : WorkflowsApp φ) (last : Option EnclaveConfig) : Option ConfigPC → Prop
  | idle : a.noted = last → UpToDate a last → Pushing a last none
  | note {config : EnclaveConfig} : last = some config → Pushing a last (some (.note config))
  | unseen {config : EnclaveConfig} : a.noted = last → UpToDate a last →
    Pushing a last (some (.push none config))
  | seen {p : Nat} {config : EnclaveConfig} : a.noted = last → last = some config →
    a.dispatcher = some p → Pushing a last (some (.push (some p) config))
  | answer : a.noted = last → UpToDate a last → Pushing a last (some .answer)

structure PushSystem.Current (s : PushSystem φ) : Prop where
  appConfigurable : s.server.appConfigurable = true
  config : ∀ config, s.installed.head? = some config → s.server.config = config
  dispatcher : ∀ p, s.app.dispatcher = some p → p < s.app.dispatchers.length
  pushing : Pushing s.app s.installed.head? s.request

section

variable {a a' : WorkflowsApp φ} {last : Option EnclaveConfig} {pc : Option ConfigPC}

theorem UpToDate.dispatching (upToDate : UpToDate a last) (noted : a.noted = last)
    (effect : Dispatching a a') : UpToDate a' last := by
  intro p config pointer isLast
  cases effect with
  | kept _ dispatcher dispatchers =>
      rw [dispatcher] at pointer
      rw [dispatchers]
      exact upToDate p config pointer isLast
  | @built d _ _ dispatcher dispatchers given =>
      cases pointer.symm.trans dispatcher
      rw [dispatchers]
      exact ⟨d, List.getElem?_concat_length, given config (noted.trans isLast)⟩

theorem Dispatching.noted (effect : Dispatching a a') : a'.noted = a.noted := by
  cases effect <;> assumption

/-- An injection may come in at any point of a request. -/
theorem Pushing.dispatching (pushing : Pushing a last pc) (effect : Dispatching a a') :
    Pushing a' last pc := by
  cases pushing with
  | idle noted upToDate =>
      exact .idle (effect.noted.trans noted) (upToDate.dispatching noted effect)
  | note isLast => exact .note isLast
  | unseen noted upToDate =>
      exact .unseen (effect.noted.trans noted) (upToDate.dispatching noted effect)
  | seen noted isLast pointer =>
      refine .seen (effect.noted.trans noted) isLast ?_
      cases effect with
      | kept _ dispatcher _ => exact dispatcher.trans pointer
      | built _ absent => cases absent.symm.trans pointer
  | answer noted upToDate =>
      exact .answer (effect.noted.trans noted) (upToDate.dispatching noted effect)

theorem Dispatching.pointer (effect : Dispatching a a')
    (valid : ∀ p, a.dispatcher = some p → p < a.dispatchers.length) :
    ∀ p, a'.dispatcher = some p → p < a'.dispatchers.length := by
  intro p pointer
  cases effect with
  | kept _ dispatcher dispatchers =>
      rw [dispatcher] at pointer
      rw [dispatchers]
      exact valid p pointer
  | built _ _ dispatcher dispatchers _ =>
      cases pointer.symm.trans dispatcher
      rw [dispatchers, List.length_append]
      exact Nat.lt_add_one _

/-- The push brings the dispatcher that was seen up to date. -/
theorem upToDate_pushConfig {p : Nat} {config : EnclaveConfig} (isLast : last = some config)
    (pointer : a.dispatcher = some p) (valid : p < a.dispatchers.length) :
    UpToDate (a.pushConfig p config) last := by
  intro p' config' pointer' isLast'
  cases isLast.symm.trans isLast'
  cases pointer.symm.trans pointer'
  have found := List.getElem?_eq_getElem valid
  refine ⟨_, (Heap.getElem?_modify_of found).trans (if_pos rfl), rfl⟩

end

namespace PushSystem

variable {crypto : Crypto} {s s' : PushSystem φ}

theorem Current.inject (current : s.Current) (id : Nat) (body : SettingsBody)
    (factories : Factories φ) : (s.inject id body factories).Current := by
  unfold PushSystem.inject
  split
  · exact current
  · split
    · exact current
    · exact ⟨current.appConfigurable, current.config, current.dispatcher, current.pushing⟩

theorem Current.arrive (current : s.Current) (free : s.request = none) (now : Int)
    (attestor : AttestorReply) (request : ConfigRequest) :
    (s.arrive crypto now attestor request).Current := by
  obtain ⟨configurable, config, dispatcher, pushing⟩ := current
  rw [free] at pushing
  obtain ⟨noted, upToDate⟩ : s.app.noted = s.installed.head? ∧
      UpToDate s.app s.installed.head? := by
    cases pushing with
    | idle noted upToDate => exact ⟨noted, upToDate⟩
  have tells : Tells { s.server with appConfig := none }
      ({ s.server with appConfig := none }.handleConfig crypto now attestor request).1 :=
    handleConfig_tells (s := { s.server with appConfig := none }) configurable request
  rw [PushSystem.arrive]
  generalize ({ s.server with appConfig := none }.handleConfig crypto now attestor request).1 =
    server at tells
  cases tells with
  | nothing configurable' config' told =>
      rw [told]
      exact ⟨configurable'.trans configurable, fun last isLast =>
        config'.trans (config last isLast), dispatcher, .answer noted upToDate⟩
  | installed configurable' told =>
      rw [told]
      exact ⟨configurable'.trans configurable, fun last isLast => Option.some.inj isLast,
        dispatcher, .note rfl⟩

theorem Current.proceed (current : s.Current) {pc : ConfigPC} (stands : s.request = some pc) :
    (s.proceed pc).Current := by
  obtain ⟨configurable, config, dispatcher, pushing⟩ := current
  rw [stands] at pushing
  cases pushing with
  | @note newConfig isLast =>
      have noted : (s.app.noteConfig newConfig).noted = s.installed.head? := isLast.symm
      refine ⟨configurable, config, dispatcher, ?_⟩
      show Pushing (s.app.noteConfig newConfig) _ (some (.push s.app.dispatcher newConfig))
      cases pointer : s.app.dispatcher with
      | none =>
          refine .unseen noted fun p config pointer' _ => ?_
          cases pointer.symm.trans pointer'
      | some p => exact .seen noted isLast pointer
  | unseen noted upToDate => exact ⟨configurable, config, dispatcher, .answer noted upToDate⟩
  | @seen p newConfig noted isLast pointer =>
      refine ⟨configurable, config, fun p' pointer' => ?_,
        .answer noted (upToDate_pushConfig isLast pointer (dispatcher p pointer))⟩
      show p' < (s.app.dispatchers.modify p _).length
      rw [List.length_modify]
      exact dispatcher p' pointer'
  | answer noted upToDate => exact ⟨configurable, config, dispatcher, .idle noted upToDate⟩

theorem Current.step (current : s.Current) {l : PushLabel φ} (taken : s.step crypto l = some s') :
    s'.Current := by
  cases l with
  | inject id body factories =>
      rw [PushSystem.step] at taken
      split at taken
      · cases taken
      · cases taken
        exact current.inject id body factories
  | injectStep id i =>
      obtain ⟨call, _, taken⟩ := Option.bind_eq_some_iff.mp taken
      obtain ⟨⟨app, call'⟩, takes, rfl⟩ := Option.map_eq_some_iff.mp taken
      have effect := take_dispatching takes
      exact ⟨current.appConfigurable, current.config, effect.pointer current.dispatcher,
        current.pushing.dispatching effect⟩
  | config now attestor request =>
      rw [PushSystem.step] at taken
      split at taken
      · cases taken
      · rename_i free
        cases taken
        exact current.arrive free now attestor request
  | proceed =>
      obtain ⟨pc, stands, rfl⟩ := Option.map_eq_some_iff.mp taken
      exact current.proceed stands

theorem Started.current (started : s.Started) : s.Current where
  appConfigurable := started.appConfigurable
  config config isLast := by
    rw [started.installed] at isLast
    cases isLast
  dispatcher := started.dispatcher
  pushing := by
    rw [started.request, started.installed]
    refine .idle ?_ fun p config _ isLast => nomatch isLast
    rw [WorkflowsApp.noted, started.haveConfig]
    rfl

end PushSystem

theorem dispatcher_config_current {crypto : Crypto} {s₀ s : PushSystem φ} {ls : List (PushLabel φ)}
    (started : s₀.Started) (run : Run (PushSystem.step crypto) anyStep s₀ ls s)
    (applied : s.installed ≠ []) (free : s.request = none) {p : Nat}
    (pointer : s.app.dispatcher = some p) :
    ∃ d, s.app.dispatchers[p]? = some d ∧ d.config = s.server.config := by
  have current : s.Current := run.invariant started.current
    fun _ _ _ current _ taken => current.step taken
  obtain ⟨config, rest, isLast⟩ := List.exists_cons_of_ne_nil applied
  have last : s.installed.head? = some config := by rw [isLast]; rfl
  have pushing := current.pushing
  rw [free] at pushing
  rw [current.config config last]
  cases pushing with
  | idle noted upToDate => exact upToDate p config pointer last

namespace Sample

/-- The workflows app in an enclave without a configuration. -/
def enclave : PushSystem Nat where
  server := .newEnclaveServer EnclaveConfig.zero false true
    (.newBoxKeychain defaultKeypairExpiration) 0
  app := app
  injections := ∅
  request := none
  installed := []

theorem enclave_started : enclave.Started where
  appConfigurable := rfl
  haveConfig := rfl
  dispatcher p pointer := by cases (pointer : none = some p)
  request := rfl
  installed := rfl

/-- The settings come while the first configuration is being delivered: the app has noted it, and
has seen no dispatcher. -/
def crossing : List (PushLabel Nat) :=
  [.config 0 (.ok ∅) (.set .post (.config (Sample.config 1) ∅)), .proceed,
    .inject 0 (.settings (settings (ascii "00") (ascii "storage:443") (ascii "https://gateway")))
      (building 0)] ++
    InjectStep.order.map (.injectStep 0) ++ [.proceed, .proceed]

end Sample

theorem dispatcher_config_current_crossing :
    ∃ s, Run (PushSystem.step Sample.crypto) anyStep Sample.enclave Sample.crossing s ∧
      s.server.config = Sample.config 1 ∧
      ∃ d, s.app.dispatchers[0]? = some d ∧ d.config = s.server.config := by
  obtain ⟨s, run, config, applied, free, pointer⟩ := Run.exists_of_exec
    (P := fun s : PushSystem Nat => s.server.config = Sample.config 1 ∧ s.installed ≠ [] ∧
      s.request.isNone = true ∧ s.app.dispatcher = some 0)
    (show (exec (PushSystem.step Sample.crypto) anyStep Sample.enclave
      Sample.crossing).any _ = true by decide)
  refine ⟨s, run, config, dispatcher_config_current Sample.enclave_started run applied
    (Option.isNone_iff_eq_none.mp free) pointer⟩

end ConfidentialCompute.Workflows
