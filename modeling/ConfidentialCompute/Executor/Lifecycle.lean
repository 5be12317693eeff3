import ConfidentialCompute.Lib.Runs
import ConfidentialCompute.Lib.TextCodec

/-!
# Starting and closing an executor

`NewRealExecutor`, `initLazily`, `startEnclaveRefreshLoop` and `Close` of the executor, with
`NewPoolWithConfig` and `Close` of the pool it makes. An initialization holds a mutex until it
returns; when it fails after the pool was made, it closes the pool. The loops in the background are
told to stop through their contexts: that of the executor and that of the pool. The collectors, that
of the executor's cache of secrets and that of the pool's cache, nothing stops.

The state holds the loops and pools made so far and the calls. Each access to shared state is a
step; what the registry, the keystore and the refreshes return, and when, is open.
-/

namespace ConfidentialCompute.Lifecycle

open Go Runs

/-! ## Before the pool -/

/-- What one initialization finds. `parseConfig` has the encrypted API keys of the configuration;
`enableCache` and `enableProactiveRefresh` come from the limit settings. -/
structure Surroundings where
  standardCapabilityAccount : Bytes
  parseConfig : Except Bytes Bytes
  newRateLimiter : Except Bytes Unit
  accounts : Except Bytes (List Bytes)
  decrypt : Bytes → Bytes → Except Bytes Bytes
  getLocalNodeAndCapConfig : Except Bytes Unit
  getEnclaveNodes : Except Bytes Unit
  enableCache : Bool
  enableProactiveRefresh : Bool

/-- The errors in the words of `%v`. -/
def listed : List Bytes → Bytes
  | [] => []
  | [err] => err
  | err :: rest => err ++ ascii " " ++ listed rest

/-- The first key that can be decrypted. A key that is no hexadecimal text ends the search. -/
def findAPIKey (decrypt : Bytes → Except Bytes Bytes) (decryptErrs : List Bytes) :
    List Bytes → Except Bytes Bytes
  | [] =>
      .error (ascii "failed to decrypt any provided API keys: [" ++ listed decryptErrs ++ ascii "]")
  | key :: rest =>
      match Hex.decode key with
      | .error err => .error (ascii "failed to decode hex-encoded encrypted API key: " ++ err.text)
      | .ok keyCtxt =>
          match decrypt keyCtxt with
          | .error err =>
              findAPIKey decrypt (decryptErrs ++ [ascii "failed to decrypt API key: " ++ err]) rest
          | .ok found => .ok found

/-- The API key, if the configuration has any. -/
def apiKeyOf (w : Surroundings) (encryptedAPIKeys : Bytes) : Except Bytes (Option Bytes) :=
  if encryptedAPIKeys = [] then .ok none
  else
    match w.accounts with
    | .error err => .error (ascii "failed to get accounts from keystore: " ++ err)
    | .ok accounts =>
        if accounts = [] then .error (ascii "no accounts found in keystore")
        else if w.standardCapabilityAccount ∉ accounts then
          .error (ascii "no " ++ w.standardCapabilityAccount ++ ascii " account found in keystore")
        else
          (findAPIKey (w.decrypt w.standardCapabilityAccount) []
            (encryptedAPIKeys.splitOn 0x2c)).map some

/-- `initLazily` up to the pool: the API key it has stored by then, and whether it gets there. -/
def prepare (w : Surroundings) : Option Bytes × Except Bytes Unit :=
  match w.parseConfig with
  | .error err => (none, .error (ascii "failed to parse capability config: " ++ err))
  | .ok encryptedAPIKeys =>
      match w.newRateLimiter with
      | .error err => (none, .error (ascii "failed to create rate limiter: " ++ err))
      | .ok () =>
          match apiKeyOf w encryptedAPIKeys with
          | .error err => (none, .error err)
          | .ok apiKey =>
              (apiKey, do
                w.getLocalNodeAndCapConfig
                w.getEnclaveNodes.mapError (ascii "failed to create enclave pool: " ++ ·))

/-- What the registry has on the vault. -/
structure VaultAnswer where
  capabilityID : Bytes
  getExecutable : Except Bytes Unit
  possibleFaultyNodes : Except Bytes Unit

def VaultAnswer.check (answer : VaultAnswer) : Except Bytes Unit := do
  answer.getExecutable.mapError fun err =>
    ascii "failed to get VaultDON capability with ID '" ++ answer.capabilityID ++
      ascii "' from registry: " ++ err
  answer.possibleFaultyNodes.mapError (ascii "failed to get VaultDON possible faulty nodes: " ++ ·)

/-! ## Loops, pools and calls -/

inductive LoopRole where
  | enclaveRefresh
  | cacheRefresh
  | collector
deriving DecidableEq

inductive LoopPhase where
  | selecting
  | working
  | ended
deriving DecidableEq

/-- A goroutine that works at every tick until its context is cancelled. -/
structure Loop where
  role : LoopRole
  cancelled : Bool
  phase : LoopPhase
deriving DecidableEq

def Loop.new (role : LoopRole) : Loop := ⟨role, false, .selecting⟩

/-- `refreshStopCh` is the channel, as the number of the loop that was started with it. -/
structure EnclavePool where
  publicKeyCache : Bool
  refreshStopCh : Option Nat
deriving DecidableEq

/-- Where a call is. An initialization holds the mutex from `preparing` to `releasing`. -/
inductive LifePC where
  | locking
  | preparing
  | asking (pool : Nat)
  | discarding (pool : Nat) (err : Bytes)
  | releasing (loop : Nat) (err : Bytes)
  | initialized (result : Except Bytes Unit)
  | closing
  | stopping (cancel done client : Option Nat)
  | awaiting (done client : Option Nat)
  | closingClient (client : Option Nat)
  | awaitingClient (loop : Nat)
  | closed

structure ExecutorLife where
  initializedMutex : Option Nat
  initialized : Bool
  apiKey : Bytes
  enclaveClient : Option Nat
  refreshCancel : Option Nat
  refreshDone : Option Nat
  pools : List EnclavePool
  loops : List Loop
  calls : List LifePC

inductive LifeAction where
  | initLazily
  | close
  | proceed (id : Nat)
  | prepared (id : Nat) (surroundings : Surroundings)
  | answered (id : Nat) (answer : VaultAnswer)
  | tick (loop : Nat)
  | worked (loop : Nat)
  | stop (loop : Nat)

/-- New calls, ticks, and the steps that bring something to its end. -/
inductive MoveKind where
  | arrival
  | tick
  | step
deriving DecidableEq

def LifeAction.kind : LifeAction → MoveKind
  | .initLazily | .close => .arrival
  | .tick _ => .tick
  | .proceed _ | .prepared _ _ | .answered _ _ | .worked _ | .stop _ => .step

namespace ExecutorLife

/-- `NewRealExecutor` makes the cache of secrets, whose collector runs from then on. -/
def init : ExecutorLife :=
  ⟨none, false, [], none, none, none, [], [Loop.new .collector], []⟩

def put (s : ExecutorLife) (id : Nat) (pc : LifePC) : ExecutorLife :=
  { s with calls := s.calls.set id pc }

/-- An initialization returns and unlocks the mutex. -/
def unlock (s : ExecutorLife) (id : Nat) (result : Except Bytes Unit) : ExecutorLife :=
  { s with initializedMutex := none }.put id (.initialized result)

def cancel (s : ExecutorLife) (loop : Nat) : ExecutorLife :=
  { s with loops := s.loops.modify loop fun loop => { loop with cancelled := true } }

def hasEnded (s : ExecutorLife) (loop : Nat) : Bool :=
  (s.loops[loop]?).any fun loop => loop.phase = .ended

/-- `NewPoolWithConfig`: the collector is started with the cache, and then the refresh loop. -/
def newPool (s : ExecutorLife) (enableCache enableProactiveRefresh : Bool) : ExecutorLife :=
  { s with
    pools := s.pools ++ [⟨enableCache,
      if enableCache && enableProactiveRefresh then some (s.loops.length + 1) else none⟩]
    loops := s.loops ++
      if enableCache then
        if enableProactiveRefresh then [Loop.new .collector, Loop.new .cacheRefresh]
        else [Loop.new .collector]
      else [] }

/-- The loop that a pool has not been told to stop. -/
def open_ (s : ExecutorLife) (pool : Nat) : Option Nat := (s.pools[pool]?).bind (·.refreshStopCh)

/-- The critical section of the pool's `Close`, when the channel is not `nil`. -/
def shut (s : ExecutorLife) (pool loop : Nat) : ExecutorLife :=
  { s with
    pools := s.pools.modify pool fun pool => { pool with refreshStopCh := none } }.cancel loop

/-- The last part of a successful initialization, with `startEnclaveRefreshLoop`. -/
def adopt (s : ExecutorLife) (id pool : Nat) : ExecutorLife :=
  { s with
    enclaveClient := some pool
    initialized := true
    refreshCancel := some s.loops.length
    refreshDone := some s.loops.length
    loops := s.loops ++ [Loop.new .enclaveRefresh] }.unlock id (.ok ())

def proceed (s : ExecutorLife) (id : Nat) : LifePC → Option ExecutorLife
  | .locking =>
      if s.initializedMutex ≠ none then none
      else if s.initialized then some (s.put id (.initialized (.ok ())))
      else some ({ s with initializedMutex := some id }.put id .preparing)
  | .discarding pool err =>
      match s.open_ pool with
      | some loop => some ((s.shut pool loop).put id (.releasing loop err))
      | none => some (s.unlock id (.error err))
  | .releasing loop err => if s.hasEnded loop then some (s.unlock id (.error err)) else none
  | .closing =>
      if s.initializedMutex ≠ none then none
      else
        some ({ s with refreshCancel := none }.put id
          (.stopping s.refreshCancel s.refreshDone s.enclaveClient))
  | .stopping (some loop) done client => some ((s.cancel loop).put id (.awaiting done client))
  | .stopping none _ client => some (s.put id (.closingClient client))
  -- A receive from a channel that is `nil` waits for ever.
  | .awaiting (some loop) client =>
      if s.hasEnded loop then some (s.put id (.closingClient client)) else none
  | .awaiting none _ => none
  | .closingClient (some pool) =>
      match s.open_ pool with
      | some loop => some ((s.shut pool loop).put id (.awaitingClient loop))
      | none => some (s.put id .closed)
  | .closingClient none => some (s.put id .closed)
  | .awaitingClient loop => if s.hasEnded loop then some (s.put id .closed) else none
  | .preparing | .asking _ | .initialized _ | .closed => none

def prepared (s : ExecutorLife) (id : Nat) (w : Surroundings) : LifePC → Option ExecutorLife
  | .preparing =>
      let (apiKey, outcome) := prepare w
      let s := { s with apiKey := apiKey.getD s.apiKey }
      match outcome with
      | .error err => some (s.unlock id (.error err))
      | .ok () =>
          some ((s.newPool w.enableCache w.enableProactiveRefresh).put id (.asking s.pools.length))
  | _ => none

def answered (s : ExecutorLife) (id : Nat) (answer : VaultAnswer) : LifePC → Option ExecutorLife
  | .asking pool =>
      match answer.check with
      | .error err => some (s.put id (.discarding pool err))
      | .ok () => some (s.adopt id pool)
  | _ => none

/-- At a tick the loop works, even if its context has been cancelled meanwhile. -/
def runLoop (s : ExecutorLife) (loop : Nat) (next : Loop → Option LoopPhase) :
    Option ExecutorLife := do
  let found ← s.loops[loop]?
  let phase ← next found
  return { s with loops := s.loops.set loop { found with phase := phase } }

def act (s : ExecutorLife) : LifeAction → Option ExecutorLife
  | .initLazily => some { s with calls := s.calls ++ [.locking] }
  | .close => some { s with calls := s.calls ++ [.closing] }
  | .proceed id => (s.calls[id]?).bind (s.proceed id)
  | .prepared id surroundings => (s.calls[id]?).bind (s.prepared id surroundings)
  | .answered id answer => (s.calls[id]?).bind (s.answered id answer)
  | .tick loop => s.runLoop loop fun found =>
      if found.phase = .selecting then some .working else none
  | .worked loop => s.runLoop loop fun found =>
      if found.phase = .working then some .selecting else none
  | .stop loop => s.runLoop loop fun found =>
      if found.phase = .selecting ∧ found.cancelled then some .ended else none

end ExecutorLife

/-! ## What a step does -/

namespace LifePC

/-- The call holds the mutex. -/
def holds : LifePC → Bool
  | .preparing | .asking _ | .discarding _ _ | .releasing _ _ => true
  | _ => false

/-- The pool that a call will adopt or close. -/
def guards : LifePC → Option Nat
  | .asking pool | .discarding pool _ => some pool
  | _ => none

/-- The loop that a call is about to cancel. -/
def bears : LifePC → Option Nat
  | .stopping cancel _ _ => cancel
  | _ => none

/-- The pool of the executor that a call is going to close. -/
def closes : LifePC → Option Nat
  | .stopping _ _ client | .awaiting _ client | .closingClient client => client
  | _ => none

/-- The loop that a call waits for. -/
def awaits : LifePC → Option Nat
  | .releasing loop _ | .awaitingClient loop => some loop
  | .awaiting done _ => done
  | _ => none

end LifePC

/-- A loop enters the next phase. -/
inductive Loop.Turns (loop : Loop) : MoveKind → LoopPhase → Prop
  | tick (waits : loop.phase = .selecting) : Turns loop .tick .working
  | worked (works : loop.phase = .working) : Turns loop .step .selecting
  | stop (waits : loop.phase = .selecting) (cancelled : loop.cancelled = true) :
      Turns loop .step .ended

namespace ExecutorLife

variable {s s' : ExecutorLife} {a : LifeAction} {id loop : Nat} {pc : LifePC}

/-- A step of a call that touches nothing else. -/
inductive Passes (s : ExecutorLife) : LifePC → LifePC → Prop
  | already (free : s.initializedMutex = none) (done : s.initialized = true) :
      Passes s .locking (.initialized (.ok ()))
  | refuse {pool : Nat} {err : Bytes} : Passes s (.asking pool) (.discarding pool err)
  | skip {done client : Option Nat} : Passes s (.stopping none done client) (.closingClient client)
  | awaited {loop : Nat} {client : Option Nat} (ends : s.hasEnded loop = true) :
      Passes s (.awaiting (some loop) client) (.closingClient client)
  | idle {client : Option Nat} (ends : ∀ pool, client = some pool → s.open_ pool = none) :
      Passes s (.closingClient client) .closed
  | left {loop : Nat} (ends : s.hasEnded loop = true) : Passes s (.awaitingClient loop) .closed

/-- An initialization gives up. -/
inductive Leaves (s : ExecutorLife) : LifePC → Prop
  | unprepared : Leaves s .preparing
  | idle {pool : Nat} {err : Bytes} (ends : s.open_ pool = none) : Leaves s (.discarding pool err)
  | released {loop : Nat} {err : Bytes} (ends : s.hasEnded loop = true) :
      Leaves s (.releasing loop err)

/-- A call closes a pool and then waits for the loop of it. -/
inductive Shuts (pool loop : Nat) : LifePC → LifePC → Prop
  | discarded {err : Bytes} : Shuts pool loop (.discarding pool err) (.releasing loop err)
  | client : Shuts pool loop (.closingClient (some pool)) (.awaitingClient loop)

/-- Everything that can happen. -/
inductive Moves (s : ExecutorLife) : MoveKind → ExecutorLife → Prop
  | arrive {pc : LifePC} (new : pc = .locking ∨ pc = .closing) :
      Moves s .arrival { s with calls := s.calls ++ [pc] }
  | pass {id : Nat} {pc pc' : LifePC} (found : s.calls[id]? = some pc) (passes : s.Passes pc pc') :
      Moves s .step (s.put id pc')
  | lock {id : Nat} (found : s.calls[id]? = some .locking) (free : s.initializedMutex = none)
      (fresh : s.initialized = false) :
      Moves s .step ({ s with initializedMutex := some id }.put id .preparing)
  | leave {id : Nat} {pc : LifePC} (apiKey : Bytes) {err : Bytes} (found : s.calls[id]? = some pc)
      (leaves : s.Leaves pc) : Moves s .step ({ s with apiKey := apiKey }.unlock id (.error err))
  | pool {id : Nat} {apiKey : Bytes} (found : s.calls[id]? = some .preparing)
      (enableCache enableProactiveRefresh : Bool) :
      Moves s .step (({ s with apiKey := apiKey }.newPool enableCache enableProactiveRefresh).put id
        (.asking s.pools.length))
  | adopt {id pool : Nat} (found : s.calls[id]? = some (.asking pool)) :
      Moves s .step (s.adopt id pool)
  | shut {id pool loop : Nat} {pc pc' : LifePC} (found : s.calls[id]? = some pc)
      (isOpen : s.open_ pool = some loop) (shuts : Shuts pool loop pc pc') :
      Moves s .step ((s.shut pool loop).put id pc')
  | take {id : Nat} (found : s.calls[id]? = some .closing) (free : s.initializedMutex = none) :
      Moves s .step ({ s with refreshCancel := none }.put id
        (.stopping s.refreshCancel s.refreshDone s.enclaveClient))
  | cancel {id loop : Nat} {done client : Option Nat}
      (found : s.calls[id]? = some (.stopping (some loop) done client)) :
      Moves s .step ((s.cancel loop).put id (.awaiting done client))
  | turn {kind : MoveKind} {loop : Nat} {found : Loop} {phase : LoopPhase}
      (isLoop : s.loops[loop]? = some found) (turns : found.Turns kind phase) :
      Moves s kind { s with loops := s.loops.set loop { found with phase := phase } }

theorem Moves.of_proceed (found : s.calls[id]? = some pc) (taken : s.proceed id pc = some s') :
    s.Moves .step s' := by
  cases pc with
  | locking =>
      simp only [proceed] at taken
      split at taken
      · cases taken
      · rename_i free
        rw [not_not] at free
        split at taken
        · rename_i done
          cases taken
          exact .pass found (.already free done)
        · rename_i fresh
          cases taken
          exact .lock found free (Bool.not_eq_true _ ▸ fresh)
  | discarding pool err =>
      simp only [proceed] at taken
      split at taken
      · rename_i isOpen
        cases taken
        exact .shut found isOpen .discarded
      · rename_i ends
        cases taken
        exact .leave s.apiKey found (.idle ends)
  | releasing loop err =>
      obtain ⟨ends, taken⟩ := Option.ite_none_right_eq_some.mp taken
      cases taken
      exact .leave s.apiKey found (.released ends)
  | closing =>
      obtain ⟨free, taken⟩ := Option.ite_none_left_eq_some.mp taken
      cases taken
      exact .take found (not_not.mp free)
  | stopping cancel done client =>
      cases cancel with
      | some loop =>
          cases taken
          exact .cancel found
      | none =>
          cases taken
          exact .pass found .skip
  | awaiting done client =>
      cases done with
      | some loop =>
          obtain ⟨ends, taken⟩ := Option.ite_none_right_eq_some.mp taken
          cases taken
          exact .pass found (.awaited ends)
      | none => cases taken
  | closingClient client =>
      cases client with
      | some pool =>
          simp only [proceed] at taken
          split at taken
          · rename_i isOpen
            cases taken
            exact .shut found isOpen .client
          · rename_i ends
            cases taken
            exact .pass found (.idle fun _ same => Option.some.inj same ▸ ends)
      | none =>
          cases taken
          exact .pass found (.idle nofun)
  | awaitingClient loop =>
      obtain ⟨ends, taken⟩ := Option.ite_none_right_eq_some.mp taken
      cases taken
      exact .pass found (.left ends)
  | preparing => cases taken
  | asking pool => cases taken
  | initialized result => cases taken
  | closed => cases taken

theorem runLoop_eq_some {next : Loop → Option LoopPhase} (taken : s.runLoop loop next = some s') :
    ∃ found phase, s.loops[loop]? = some found ∧ next found = some phase ∧
      s' = { s with loops := s.loops.set loop { found with phase := phase } } := by
  obtain ⟨found, isLoop, taken⟩ := Option.bind_eq_some_iff.mp taken
  obtain ⟨phase, isPhase, taken⟩ := Option.bind_eq_some_iff.mp taken
  cases taken
  exact ⟨found, phase, isLoop, isPhase, rfl⟩

theorem Moves.of_act (taken : s.act a = some s') : s.Moves a.kind s' := by
  cases a with
  | initLazily =>
      cases taken
      exact .arrive (Or.inl rfl)
  | close =>
      cases taken
      exact .arrive (Or.inr rfl)
  | proceed id =>
      obtain ⟨pc, found, taken⟩ := Option.bind_eq_some_iff.mp taken
      exact .of_proceed found taken
  | prepared id w =>
      obtain ⟨pc, found, taken⟩ := Option.bind_eq_some_iff.mp taken
      unfold prepared at taken
      split at taken
      · dsimp only at taken
        split at taken
        · cases taken
          exact .leave _ found .unprepared
        · cases taken
          exact .pool found w.enableCache w.enableProactiveRefresh
      · cases taken
  | answered id answer =>
      obtain ⟨pc, found, taken⟩ := Option.bind_eq_some_iff.mp taken
      unfold answered at taken
      split at taken
      · split at taken
        · cases taken
          exact .pass found .refuse
        · cases taken
          exact .adopt found
      · cases taken
  | tick loop =>
      obtain ⟨found, phase, isLoop, isPhase, rfl⟩ := runLoop_eq_some taken
      obtain ⟨waits, isPhase⟩ := Option.ite_none_right_eq_some.mp isPhase
      cases isPhase
      exact .turn isLoop (.tick waits)
  | worked loop =>
      obtain ⟨found, phase, isLoop, isPhase, rfl⟩ := runLoop_eq_some taken
      obtain ⟨works, isPhase⟩ := Option.ite_none_right_eq_some.mp isPhase
      cases isPhase
      exact .turn isLoop (.worked works)
  | stop loop =>
      obtain ⟨found, phase, isLoop, isPhase, rfl⟩ := runLoop_eq_some taken
      obtain ⟨⟨waits, cancelled⟩, isPhase⟩ := Option.ite_none_right_eq_some.mp isPhase
      cases isPhase
      exact .turn isLoop (.stop waits cancelled)

end ExecutorLife

end ConfidentialCompute.Lifecycle
