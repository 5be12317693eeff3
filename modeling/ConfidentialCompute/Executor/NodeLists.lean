import ConfidentialCompute.EnclaveSelection
import ConfidentialCompute.Hashing
import ConfidentialCompute.PoolSteps
import ConfidentialCompute.PoolTrust

/-!
# The node list of the executor and that of the pool

`EnsureFreshEnclaves` hands the list it has read from the registry to the pool's `UpdateNodes`
and, when that succeeds, stores it as the executor's own. The refresh loop and every attempt of
`Execute` call it, and nothing orders the calls: the pool's lock is released before the executor's
is taken. A call whose list the pool has settled on long ago can therefore store it after another
call has replaced the list in both places.

An `UpdateNodes` call has decided once it has found its list unchanged or has written it. Between
its decision and its store a call carries a list that only it knows to be current.

* `Agree`: the calls between decision and store all carry the pool's list, and where there is
  none, the executor has it.
* `Agree.step`: this lasts as long as no list is written past a call that carries another one.
* `node_lists_agree`: runs; `node_lists_differ`: what happens otherwise.
-/

namespace ConfidentialCompute

open Go Runs

/-! ## The code -/

/-- Where a call of `EnsureFreshEnclaves` is. -/
inductive RefreshPC where
  | resolving
  /-- In the `UpdateNodes` call number `u`, or back from it. -/
  | updating (u : Nat)
  /-- At the Vault DON's threshold and the membership. -/
  | settling
  | returned
deriving DecidableEq

structure RefreshCall where
  nodes : Slice PoolNode
  pc : RefreshPC
deriving DecidableEq

/-- The pool, the executor's list and the calls of `EnsureFreshEnclaves`. -/
structure NodeLists where
  pool : PoolState
  enclaves : Slice PoolNode
  calls : List RefreshCall

inductive NodeListsAction where
  | ensureFreshEnclaves
  /-- The registry answers; an error is one of the two lookups failing. -/
  | resolve (c : Nat) (nodes : Except String (Slice PoolNode))
  /-- `UpdateNodes` has returned. -/
  | resume (c : Nat)
  | finish (c : Nat)
  /-- A step of the pool. `UpdateNodes` is called by `EnsureFreshEnclaves` only. -/
  | pool (action : PoolAction)

structure NodeListsLabel where
  now : Int
  action : NodeListsAction

namespace NodeLists

def setCall (s : NodeLists) (c : Nat) (call : RefreshCall) : NodeLists :=
  { s with calls := s.calls.modify c fun _ => call }

def getEnclaves (s : NodeLists) : Slice PoolNode := s.enclaves

/-- A call reads its list from the registry, sorts it and enters `UpdateNodes`. -/
def resolveCall (services : PoolServices) (s : NodeLists) (now : Int) (c : Nat)
    (call : RefreshCall) (nodes : Except String (Slice PoolNode)) : Option NodeLists :=
  match call.pc, nodes with
  | .resolving, .error _ => some (s.setCall c { call with pc := .returned })
  | .resolving, .ok nodes =>
      (s.pool.step services ⟨now, .updateNodes (sortEnclaveNodes nodes)⟩).map fun pool =>
        { s with pool := pool }.setCall c
          ⟨sortEnclaveNodes nodes, .updating s.pool.updates.length⟩
  | _, _ => none

/-- A call goes on once its `UpdateNodes` has returned. -/
def resumeCall (s : NodeLists) (c : Nat) (call : RefreshCall) : Option NodeLists :=
  match call.pc with
  | .updating u =>
      match s.pool.standingAt u with
      | some (_, .returned (.ok _)) =>
          some ({ s with enclaves := call.nodes }.setCall c { call with pc := .settling })
      | some (_, .returned (.error _)) => some (s.setCall c { call with pc := .settling })
      | _ => none
  | _ => none

def finishCall (s : NodeLists) (c : Nat) (call : RefreshCall) : Option NodeLists :=
  match call.pc with
  | .settling => some (s.setCall c { call with pc := .returned })
  | _ => none

def step (services : PoolServices) (s : NodeLists) (l : NodeListsLabel) : Option NodeLists :=
  match l.action with
  | .ensureFreshEnclaves => some { s with calls := s.calls ++ [⟨∅, .resolving⟩] }
  | .resolve c nodes =>
      (s.calls[c]?).bind fun call => s.resolveCall services l.now c call nodes
  | .resume c => (s.calls[c]?).bind (s.resumeCall c)
  | .finish c => (s.calls[c]?).bind (s.finishCall c)
  | .pool (.updateNodes _) => none
  | .pool action =>
      (s.pool.step services ⟨l.now, action⟩).map fun pool => { s with pool := pool }

/-- `initLazily` gives one list to both. -/
def init (services : PoolServices) (nodes : Slice PoolNode) (start : Int) : NodeLists :=
  ⟨.init services (sortEnclaveNodes nodes) start, sortEnclaveNodes nodes, []⟩

end NodeLists

/-! ## Decided calls -/

/-- The call has found its list unchanged or has written it. -/
def NodeUpdatePC.decided : NodeUpdatePC → Bool
  | .flushing | .returned (.ok _) => true
  | .comparing | .validating | .returned (.error _) => false

def NodeUpdatePC.isOpen : NodeUpdatePC → Bool
  | .returned _ => false
  | .comparing | .validating | .flushing => true

def NodeUpdatePC.succeeded : NodeUpdatePC → Bool
  | .returned (.ok _) => true
  | .comparing | .validating | .flushing | .returned (.error _) => false

def NodeUpdatePC.isValidating : NodeUpdatePC → Bool
  | .validating => true
  | .comparing | .flushing | .returned _ => false

/-- The `UpdateNodes` call that a call is in. -/
def RefreshPC.update : RefreshPC → Option Nat
  | .updating u => some u
  | .resolving | .settling | .returned => none

namespace NodeLists

/-- The call has the pool's decision and has not stored its list. -/
def Carries (s : NodeLists) (call : RefreshCall) : Prop :=
  ∃ standing ∈ call.pc.update.bind s.pool.standingAt, standing.2.decided = true

instance (s : NodeLists) (call : RefreshCall) : Decidable (s.Carries call) :=
  inferInstanceAs (Decidable (∃ standing ∈ _, _))

/-- The list that a step writes into the pool, if it gets to writing. -/
def aboutToWrite (s : NodeLists) (l : NodeListsLabel) : Option (Slice PoolNode) :=
  match l.action with
  | .pool (.advance u) =>
      (s.pool.updates[u]?).bind fun update =>
        if update.pc.isValidating = true ∧ update.err = none then some update.nodes else none
  | _ => none

/-- A list is written only while every call between decision and store carries the same. -/
def WritesAlone (s : NodeLists) (l : NodeListsLabel) : Prop :=
  ∀ nodes ∈ s.aboutToWrite l, ∀ call ∈ s.calls, s.Carries call → call.nodes = nodes

instance (s : NodeLists) (l : NodeListsLabel) : Decidable (s.WritesAlone l) :=
  inferInstanceAs (Decidable (∀ nodes ∈ _, ∀ call ∈ s.calls, _))

/-- No call of `EnsureFreshEnclaves` is in progress. -/
def Idle (s : NodeLists) : Prop := ∀ call ∈ s.calls, call.pc = .returned

instance (s : NodeLists) : Decidable s.Idle := inferInstanceAs (Decidable (∀ call ∈ s.calls, _))

/-- The lists that are in play: the first one and those that the registry has reported. -/
def reportedLists (nodes : Slice PoolNode) (ls : List NodeListsLabel) : List (Slice PoolNode) :=
  sortEnclaveNodes nodes :: ls.filterMap fun l =>
    match l.action with
    | .resolve _ (.ok nodes) => some (sortEnclaveNodes nodes)
    | _ => none

/-- The two lists agree up to what the calls in progress carry, and all lists are from `known`. -/
structure Agree (known : List (Slice PoolNode)) (s : NodeLists) : Prop where
  linked : ∀ call ∈ s.calls, ∀ u, call.pc = .updating u →
    ∃ pc, s.pool.standingAt u = some (call.nodes, pc)
  owned : ∀ u nodes pc, s.pool.standingAt u = some (nodes, pc) → pc.isOpen = true →
    ∃ call ∈ s.calls, call.pc = .updating u
  carried : ∀ call ∈ s.calls, s.Carries call → call.nodes = s.pool.nodes
  stored : (∀ call ∈ s.calls, ¬ s.Carries call) → s.enclaves = s.pool.nodes
  nodes_known : s.pool.nodes ∈ known
  updates_known : ∀ u nodes pc, s.pool.standingAt u = some (nodes, pc) → nodes ∈ known

section

variable {services : PoolServices} {known : List (Slice PoolNode)} {s s' : NodeLists}
  {call call' : RefreshCall} {c u : Nat} {l : NodeListsLabel} {pool' : PoolState}

theorem carries_iff :
    s.Carries call ↔ ∃ u nodes pc, call.pc = .updating u ∧
      s.pool.standingAt u = some (nodes, pc) ∧ pc.decided = true := by
  constructor
  · rintro ⟨⟨nodes, pc⟩, standing, decided⟩
    obtain ⟨u, isUpdate, standing⟩ := Option.bind_eq_some_iff.mp standing
    refine ⟨u, nodes, pc, ?_, standing, decided⟩
    cases isPC : call.pc with
    | updating v =>
        rw [isPC] at isUpdate
        cases isUpdate
        rfl
    | resolving | settling | returned =>
        rw [isPC] at isUpdate
        cases isUpdate
  · rintro ⟨u, nodes, pc, isPC, standing, decided⟩
    refine ⟨(nodes, pc), ?_, decided⟩
    rw [isPC]
    exact standing

/-- A call in `UpdateNodes` carries its list exactly if that has decided. -/
theorem carries_iff_decided {nodes : Slice PoolNode} {pc : NodeUpdatePC}
    (isPC : call.pc = .updating u) (standing : s.pool.standingAt u = some (nodes, pc)) :
    s.Carries call ↔ pc.decided = true := by
  rw [carries_iff]
  constructor
  · rintro ⟨v, list, now, isPC', standing', decided⟩
    cases isPC.symm.trans isPC'
    cases standing.symm.trans standing'
    exact decided
  · intro decided
    exact ⟨u, nodes, pc, isPC, standing, decided⟩

/-- Whether a call carries its list depends on the pool's `UpdateNodes` calls only. -/
theorem carries_congr (same : ∀ u, call.pc = .updating u →
    s'.pool.standingAt u = s.pool.standingAt u) : s'.Carries call ↔ s.Carries call := by
  rw [carries_iff, carries_iff]
  constructor
  · rintro ⟨u, nodes, pc, isPC, standing, decided⟩
    exact ⟨u, nodes, pc, isPC, same u isPC ▸ standing, decided⟩
  · rintro ⟨u, nodes, pc, isPC, standing, decided⟩
    exact ⟨u, nodes, pc, isPC, (same u isPC).trans standing, decided⟩

theorem not_carries_of_update (outside : call.pc.update = none) : ¬ s.Carries call := by
  rintro ⟨standing, found, _⟩
  rw [outside] at found
  cases found

theorem mem_setCall (member : call ∈ (s.setCall c call').calls) :
    call = call' ∨ call ∈ s.calls := by
  obtain ⟨j, found⟩ := List.mem_iff_getElem?.mp member
  simp only [setCall, List.getElem?_modify] at found
  split at found
  · obtain ⟨old, _, same⟩ := Option.map_eq_some_iff.mp found
    exact Or.inl same.symm
  · right
    apply List.mem_of_getElem? (i := j)
    simpa using found

theorem mem_setCall_of_mem (call' : RefreshCall) (found : s.calls[c]? = some call)
    {other : RefreshCall} (member : other ∈ s.calls) :
    other = call ∨ other ∈ (s.setCall c call').calls := by
  obtain ⟨j, isOther⟩ := List.mem_iff_getElem?.mp member
  by_cases same : c = j
  · subst same
    exact Or.inl (Option.some.inj (isOther.symm.trans found))
  · right
    apply List.mem_of_getElem? (i := j)
    simp [setCall, same, isOther]

theorem mem_setCall_self (found : s.calls[c]? = some call) :
    call' ∈ (s.setCall c call').calls := by
  apply List.mem_of_getElem? (i := c)
  simp [setCall, found]

/-! ## One step -/

/-- The texts that are hashed to compare node lists. -/
def listTexts (known : List (Slice PoolNode)) : Set Bytes :=
  {text | ∃ list ∈ known, (EnclavesList.mk list).preimage = text}

theorem eq_of_hash (collisionFree : services.crypto.CollisionFree (listTexts known))
    {a b : Slice PoolNode} (left : a ∈ known) (right : b ∈ known)
    (same : EnclavesList.hash services.crypto ⟨a⟩ = EnclavesList.hash services.crypto ⟨b⟩) :
    a = b := by
  have preimages := collisionFree _ ⟨a, left, rfl⟩ _ ⟨b, right, rfl⟩ same
  exact congrArg EnclavesList.enclaves (EnclavesList.preimage_injective preimages)

namespace Agree

/-- A step of the pool that no `UpdateNodes` call makes. -/
theorem keep (agree : Agree known s) (kept : s.pool.KeepsNodes pool') :
    Agree known { s with pool := pool' } where
  linked call member u isPC := by
    obtain ⟨pc, standing⟩ := agree.linked call member u isPC
    exact ⟨pc, (kept.standingAt u).trans standing⟩
  owned u nodes pc standing := agree.owned u nodes pc ((kept.standingAt u).symm.trans standing)
  carried call member carries := by
    rw [carries_congr fun u _ => kept.standingAt u] at carries
    exact (agree.carried call member carries).trans kept.nodes.symm
  stored none := by
    refine (agree.stored fun call member carries => none call member ?_).trans kept.nodes.symm
    rwa [carries_congr fun u _ => kept.standingAt u]
  nodes_known := kept.nodes ▸ agree.nodes_known
  updates_known u nodes pc standing :=
    agree.updates_known u nodes pc ((kept.standingAt u).symm.trans standing)

theorem start (agree : Agree known s) :
    Agree known { s with calls := s.calls ++ [⟨∅, .resolving⟩] } where
  linked call member u isPC := by
    rcases List.mem_append.mp member with old | new
    · exact agree.linked call old u isPC
    · cases List.mem_singleton.mp new
      cases isPC
  owned u nodes pc standing isOpen := by
    obtain ⟨call, member, isPC⟩ := agree.owned u nodes pc standing isOpen
    exact ⟨call, List.mem_append_left _ member, isPC⟩
  carried call member carries := by
    rcases List.mem_append.mp member with old | new
    · exact agree.carried call old carries
    · cases List.mem_singleton.mp new
      exact (not_carries_of_update rfl carries).elim
  stored none := agree.stored fun call member => none call (List.mem_append_left _ member)
  nodes_known := agree.nodes_known
  updates_known := agree.updates_known

/-- A call leaves `UpdateNodes` or goes on outside it. A list that it carried becomes the
executor's list. -/
theorem leave {enclaves : Slice PoolNode} (agree : Agree known s)
    (found : s.calls[c]? = some call) (outside : call'.pc.update = none)
    (ended : ∀ u nodes pc, call.pc = .updating u → s.pool.standingAt u = some (nodes, pc) →
      pc.isOpen = false)
    (stores : s.Carries call ∧ enclaves = call.nodes ∨
      ¬ s.Carries call ∧ enclaves = s.enclaves) :
    Agree known ({ s with enclaves := enclaves }.setCall c call') where
  linked other member u isPC := by
    rcases mem_setCall member with rfl | old
    · rw [isPC] at outside
      cases outside
    · exact agree.linked other old u isPC
  owned u nodes pc standing isOpen := by
    obtain ⟨owner, member, isPC⟩ := agree.owned u nodes pc standing isOpen
    rcases mem_setCall_of_mem call' found member with rfl | kept
    · rw [ended u nodes pc isPC standing] at isOpen
      cases isOpen
    · exact ⟨owner, kept, isPC⟩
  carried other member carries := by
    rcases mem_setCall member with rfl | old
    · exact (not_carries_of_update outside carries).elim
    · exact agree.carried other old carries
  stored none := by
    rcases stores with ⟨carries, isList⟩ | ⟨free, same⟩
    · exact isList.trans (agree.carried call (List.mem_of_getElem? found) carries)
    · refine same.trans (agree.stored fun other member carries => ?_)
      rcases mem_setCall_of_mem call' found member with rfl | kept
      · exact free carries
      · exact none other kept carries
  nodes_known := agree.nodes_known
  updates_known := agree.updates_known

/-- A call enters `UpdateNodes` with its list. -/
theorem enter {nodes : Slice PoolNode} (agree : Agree known s)
    (found : s.calls[c]? = some call) (outside : call.pc.update = none) (isKnown : nodes ∈ known)
    (sameNodes : pool'.nodes = s.pool.nodes)
    (updates : pool'.updates = s.pool.updates ++ [⟨nodes, none, .comparing⟩]) :
    Agree known
      ({ s with pool := pool' }.setCall c ⟨nodes, .updating s.pool.updates.length⟩) := by
  have standings := PoolState.standingAt_append updates
  have below : ∀ other ∈ s.calls, ∀ u, other.pc = .updating u →
      pool'.standingAt u = s.pool.standingAt u := by
    intro other member u isPC
    obtain ⟨pc, standing⟩ := agree.linked other member u isPC
    rw [standings, if_neg]
    rintro rfl
    simp [PoolState.standingAt] at standing
  constructor
  case linked =>
    intro other member u isPC
    rcases mem_setCall member with rfl | old
    · cases isPC
      refine ⟨.comparing, ?_⟩
      show pool'.standingAt _ = _
      rw [standings, if_pos rfl]
      rfl
    · obtain ⟨pc, standing⟩ := agree.linked other old u isPC
      exact ⟨pc, (below other old u isPC).trans standing⟩
  case owned =>
    intro u list pc standing isOpen
    change pool'.standingAt u = _ at standing
    rw [standings] at standing
    split at standing
    · rename_i last
      exact ⟨_, mem_setCall_self found, last ▸ rfl⟩
    · obtain ⟨owner, member, isPC⟩ := agree.owned u list pc standing isOpen
      rcases mem_setCall_of_mem _ found member with rfl | kept
      · rw [isPC] at outside
        cases outside
      · exact ⟨owner, kept, isPC⟩
  case carried =>
    intro other member carries
    rcases mem_setCall member with rfl | old
    · obtain ⟨u, list, pc, isPC, standing, decided⟩ := carries_iff.mp carries
      cases isPC
      change pool'.standingAt _ = _ at standing
      rw [standings, if_pos rfl] at standing
      cases standing
      cases decided
    · rw [carries_congr (below other old)] at carries
      exact (agree.carried other old carries).trans sameNodes.symm
  case stored =>
    intro none
    refine (agree.stored fun other member carries => ?_).trans sameNodes.symm
    rcases mem_setCall_of_mem _ found member with rfl | kept
    · exact not_carries_of_update outside carries
    · apply none other kept
      rwa [carries_congr (below other member)]
  case nodes_known => exact sameNodes ▸ agree.nodes_known
  case updates_known =>
    intro u list pc standing
    change pool'.standingAt u = _ at standing
    rw [standings] at standing
    split at standing
    · cases standing
      exact isKnown
    · exact agree.updates_known u list pc standing

/-- An access of an `UpdateNodes` call, seen from the calls of `EnsureFreshEnclaves`. A decision
needs that the lists carried by others are the one decided on. -/
theorem advance {nodes : Slice PoolNode} {pc pc' : NodeUpdatePC} (agree : Agree known s)
    (before : s.pool.standingAt u = some (nodes, pc)) (wasOpen : pc.isOpen = true)
    (moved : ∀ v, pool'.standingAt v =
      if v = u then some (nodes, pc') else s.pool.standingAt v)
    (decides : pc'.decided = pc.decided ∧ pool'.nodes = s.pool.nodes ∨
      pc'.decided = true ∧ nodes = pool'.nodes ∧
        ∀ call ∈ s.calls, s.Carries call → call.nodes = pool'.nodes) :
    Agree known { s with pool := pool' } := by
  -- What a call in this or another `UpdateNodes` call carries afterwards.
  have here : ∀ call ∈ s.calls, call.pc = .updating u → call.nodes = nodes := by
    intro call member isPC
    obtain ⟨_, standing⟩ := agree.linked call member u isPC
    rw [before] at standing
    cases standing
    rfl
  have elsewhere : ∀ call : RefreshCall, call.pc ≠ .updating u →
      (({ s with pool := pool' } : NodeLists).Carries call ↔ s.Carries call) := by
    intro call isOther
    apply carries_congr
    intro v isPC
    show pool'.standingAt v = _
    rw [moved, if_neg]
    rintro rfl
    exact isOther isPC
  have after : ({ s with pool := pool' } : NodeLists).pool.standingAt u = some (nodes, pc') := by
    show pool'.standingAt u = _
    rw [moved, if_pos rfl]
  constructor
  case linked =>
    intro call member v isPC
    by_cases same : v = u
    · subst same
      refine ⟨pc', ?_⟩
      show pool'.standingAt v = _
      rw [moved, if_pos rfl, here call member isPC]
    · obtain ⟨other, standing⟩ := agree.linked call member v isPC
      refine ⟨other, ?_⟩
      show pool'.standingAt v = _
      rw [moved, if_neg same, standing]
  case owned =>
    intro v list after standing isOpen
    change pool'.standingAt v = _ at standing
    rw [moved] at standing
    split at standing
    · rename_i same
      subst same
      exact agree.owned v nodes pc before wasOpen
    · exact agree.owned v list after standing isOpen
  case carried =>
    intro call member carries
    show call.nodes = pool'.nodes
    rcases decides with ⟨same, sameNodes⟩ | ⟨_, isList, others⟩
    · rw [sameNodes]
      apply agree.carried call member
      by_cases isPC : call.pc = .updating u
      · rwa [carries_iff_decided isPC before, ← same, ← carries_iff_decided isPC after]
      · rwa [← elsewhere call isPC]
    · by_cases isPC : call.pc = .updating u
      · exact (here call member isPC).trans isList
      · exact others call member ((elsewhere call isPC).mp carries)
  case stored =>
    intro none
    show s.enclaves = pool'.nodes
    rcases decides with ⟨same, sameNodes⟩ | ⟨decided, _, _⟩
    · rw [sameNodes]
      refine agree.stored fun call member carries => none call member ?_
      by_cases isPC : call.pc = .updating u
      · rwa [carries_iff_decided isPC after, same, ← carries_iff_decided isPC before]
      · rwa [elsewhere call isPC]
    · -- The call that is in this `UpdateNodes` carries its list now.
      obtain ⟨owner, member, isPC⟩ := agree.owned u nodes pc before wasOpen
      exact (none owner member ((carries_iff_decided isPC after).mpr decided)).elim
  case nodes_known =>
    show pool'.nodes ∈ known
    rcases decides with ⟨_, sameNodes⟩ | ⟨_, isList, _⟩
    · rw [sameNodes]
      exact agree.nodes_known
    · rw [← isList]
      exact agree.updates_known u nodes pc before
  case updates_known =>
    intro v list after standing
    change pool'.standingAt v = _ at standing
    rw [moved] at standing
    split at standing
    · cases standing
      exact agree.updates_known u nodes pc before
    · exact agree.updates_known v list after standing

theorem advanceUpdate {update : NodeUpdate}
    (collisionFree : services.crypto.CollisionFree (listTexts known)) (agree : Agree known s)
    (found : s.pool.updates[u]? = some update)
    (alone : update.pc.isValidating = true → update.err = none →
      ∀ call ∈ s.calls, s.Carries call → call.nodes = update.nodes)
    (moved : s.pool.advanceUpdate services u update = some pool') :
    Agree known { s with pool := pool' } := by
  obtain ⟨update', updates, sameList, move⟩ := PoolState.updateMove_of_advance moved
  have before : s.pool.standingAt u = some (update.nodes, update.pc) := by
    rw [PoolState.standingAt, found]
    rfl
  have standings : ∀ v, pool'.standingAt v =
      if v = u then some (update.nodes, update'.pc) else s.pool.standingAt v := by
    intro v
    rw [PoolState.standingAt_modify found updates, NodeUpdate.standing, sameList]
  generalize update'.pc = pc' at standings move
  cases move with
  | unchanged comparing same sameNodes =>
      have isList : update.nodes = s.pool.nodes :=
        eq_of_hash collisionFree (agree.updates_known u _ _ before) agree.nodes_known same
      refine agree.advance before (by rw [comparing]; rfl) standings (Or.inr ⟨rfl, ?_, ?_⟩)
      · rw [isList, sameNodes]
      · intro call member carries
        rw [sameNodes]
        exact agree.carried call member carries
  | validates comparing sameNodes =>
      refine agree.advance before (by rw [comparing]; rfl) standings (Or.inl ⟨?_, sameNodes⟩)
      rw [comparing]
      rfl
  | rejected err validating sameNodes =>
      refine agree.advance before (by rw [validating]; rfl) standings (Or.inl ⟨?_, sameNodes⟩)
      rw [validating]
      rfl
  | written validating valid isList =>
      refine agree.advance before (by rw [validating]; rfl) standings
        (Or.inr ⟨rfl, isList.symm, ?_⟩)
      rw [isList]
      exact alone (by rw [validating]; rfl) valid
  | released flushing sameNodes =>
      refine agree.advance before (by rw [flushing]; rfl) standings (Or.inl ⟨?_, sameNodes⟩)
      rw [flushing]
      rfl

/-- **One step.** -/
theorem step (collisionFree : services.crypto.CollisionFree (listTexts known))
    (agree : Agree known s)
    (reported : ∀ c nodes, l.action = .resolve c (.ok nodes) → sortEnclaveNodes nodes ∈ known)
    (alone : s.WritesAlone l) (taken : s.step services l = some s') : Agree known s' := by
  unfold NodeLists.step at taken
  unfold WritesAlone aboutToWrite at alone
  cases isAction : l.action with
  | ensureFreshEnclaves =>
      rw [isAction] at taken
      cases taken
      exact agree.start
  | resolve c nodes =>
      rw [isAction] at taken
      obtain ⟨call, found, moved⟩ := Option.bind_eq_some_iff.mp taken
      unfold resolveCall at moved
      split at moved
      · rename_i resolving
        cases moved
        have outside : call.pc.update = none := by rw [resolving]; rfl
        refine agree.leave found rfl ?_ (Or.inr ⟨not_carries_of_update outside, rfl⟩)
        intro u nodes pc isPC
        cases resolving.symm.trans isPC
      · rename_i nodes resolving
        obtain ⟨pool', entered, rfl⟩ := Option.map_eq_some_iff.mp moved
        have acted := PoolState.act_of_step entered
        cases acted
        exact agree.enter found (by rw [resolving]; rfl) (reported c nodes isAction) rfl rfl
      · cases moved
  | resume c =>
      rw [isAction] at taken
      obtain ⟨call, found, moved⟩ := Option.bind_eq_some_iff.mp taken
      unfold resumeCall at moved
      split at moved
      · rename_i u updating
        have ended : ∀ {list : Slice PoolNode} {result : Except String Unit},
            s.pool.standingAt u = some (list, .returned result) → ∀ v nodes pc,
              call.pc = .updating v → s.pool.standingAt v = some (nodes, pc) →
                pc.isOpen = false := by
          intro list result returned v nodes pc isPC standing
          cases updating.symm.trans isPC
          cases returned.symm.trans standing
          rfl
        split at moved
        · rename_i list done returned
          cases moved
          exact agree.leave found rfl (ended returned)
            (Or.inl ⟨(carries_iff_decided updating returned).mpr rfl, rfl⟩)
        · rename_i list err returned
          cases moved
          refine agree.leave found rfl (ended returned) (Or.inr ⟨?_, rfl⟩)
          rw [carries_iff_decided updating returned]
          exact nofun
        · cases moved
      · cases moved
  | finish c =>
      rw [isAction] at taken
      obtain ⟨call, found, moved⟩ := Option.bind_eq_some_iff.mp taken
      unfold finishCall at moved
      split at moved
      · rename_i settling
        cases moved
        have outside : call.pc.update = none := by rw [settling]; rfl
        refine agree.leave found rfl ?_ (Or.inr ⟨not_carries_of_update outside, rfl⟩)
        intro u nodes pc isPC
        cases settling.symm.trans isPC
      · cases moved
  | pool action =>
      rw [isAction] at taken alone
      cases action with
      | updateNodes nodes => cases taken
      | advance u =>
          obtain ⟨pool', stepped, rfl⟩ := Option.map_eq_some_iff.mp taken
          obtain ⟨update, found, moved⟩ :=
            Option.bind_eq_some_iff.mp (PoolState.act_of_step stepped)
          have clocked : Agree known { s with pool := { s.pool with clock := l.now } } :=
            agree.keep (.of_eq rfl rfl)
          have advanced := clocked.advanceUpdate collisionFree found
            (fun validating valid => alone update.nodes (by
              show (s.pool.updates[u]?).bind _ = _
              rw [show s.pool.updates[u]? = some update from found]
              exact if_pos ⟨validating, valid⟩)) moved
          exact advanced
      | getPublicKeys | proceed | refresh | readNodes | reply | settle | collect =>
          obtain ⟨pool', stepped, rfl⟩ := Option.map_eq_some_iff.mp taken
          exact agree.keep ((PoolState.writes_of_step stepped).2 rfl)

end Agree

/-- **Every run.** -/
theorem agree_of_run {nodes : Slice PoolNode} {start : Int} {ls : List NodeListsLabel}
    (collisionFree : services.crypto.CollisionFree (listTexts known))
    (reported : ∀ list ∈ reportedLists nodes ls, list ∈ known)
    (run : Run (NodeLists.step services) WritesAlone (.init services nodes start) ls s) :
    Agree known s := by
  induction run with
  | nil =>
      constructor
      case linked => exact nofun
      case owned => exact nofun
      case carried => exact nofun
      case stored => exact fun _ => rfl
      case nodes_known => exact reported _ List.mem_cons_self
      case updates_known => exact nofun
  | @snoc ls s s' l before alone taken ih =>
      have earlier : ∀ list ∈ reportedLists nodes ls, list ∈ known := by
        intro list member
        apply reported
        rw [reportedLists, List.filterMap_append, ← List.cons_append]
        exact List.mem_append_left _ member
      refine (ih earlier).step collisionFree ?_ alone taken
      intro c list isAction
      apply reported
      rw [reportedLists, List.filterMap_append, ← List.cons_append]
      apply List.mem_append_right
      simp [isAction]

end

end NodeLists

/-- **One list.** If a list is written into the pool only while no call carries another one from
its own `UpdateNodes` to the executor, then the two lists are equal whenever no call is in
progress, after a successful `UpdateNodes` and before the first. -/
theorem node_lists_agree {services : PoolServices} {nodes : Slice PoolNode} {start : Int}
    {ls : List NodeListsLabel} {s : NodeLists}
    (collisionFree : services.crypto.CollisionFree
      (NodeLists.listTexts (NodeLists.reportedLists nodes ls)))
    (run : Run (NodeLists.step services) NodeLists.WritesAlone (.init services nodes start) ls s)
    (idle : s.Idle) : s.getEnclaves = s.pool.nodes := by
  have agree := NodeLists.agree_of_run collisionFree (fun _ member => member) run
  apply agree.stored
  intro call member
  apply NodeLists.not_carries_of_update
  rw [idle call member]
  rfl

/-! ## Two runs -/

namespace Sample

def atLists (now : Int) (action : NodeListsAction) : NodeListsLabel := ⟨now, action⟩

/-- The first call finds the registry unchanged. -/
def refreshUnchanged : List NodeListsLabel :=
  [atLists 0 .ensureFreshEnclaves, atLists 0 (.resolve 0 (.ok (one (poolNode 1)))),
    atLists 1 (.pool (.advance 0))]

/-- A call whose list has changed gets it into the pool. -/
def replaceNodes (c u fetch : Nat) : List NodeListsLabel :=
  [atLists 2 .ensureFreshEnclaves, atLists 2 (.resolve c (.ok (one (poolNode 2)))),
    atLists 3 (.pool (.advance u)),
    atLists 4 (.pool (.reply fetch (.response (keyResponse 2)))),
    atLists 4 (.pool (.settle fetch)), atLists 5 (.pool (.advance u)),
    atLists 5 (.pool (.advance u))]

def storeNodes (c : Nat) : List NodeListsLabel := [atLists 6 (.resume c), atLists 6 (.finish c)]

end Sample

section

open Sample

theorem node_lists_agree_in_turn :
    ∃ s, Run (NodeLists.step poolServices) NodeLists.WritesAlone
        (.init poolServices (one (poolNode 1)) 0) (replaceNodes 0 0 0 ++ storeNodes 0) s ∧
      s.Idle ∧ s.pool.nodes = one (poolNode 2) ∧ s.getEnclaves = s.pool.nodes := by
  obtain ⟨s, run, idle, replaced⟩ : ∃ s,
      Run (NodeLists.step poolServices) NodeLists.WritesAlone
        (.init poolServices (one (poolNode 1)) 0)
        (replaceNodes 0 0 0 ++ storeNodes 0) s ∧
      s.Idle ∧ s.pool.nodes = one (poolNode 2) :=
    Run.exists_of_exec (by decide +kernel)
  refine ⟨s, run, idle, replaced, node_lists_agree ?_ run idle⟩
  refine .of_list ((NodeLists.reportedLists (one (poolNode 1))
    (replaceNodes 0 0 0 ++ storeNodes 0)).map fun nodes => (EnclavesList.mk nodes).preimage)
    (fun text ⟨nodes, among, isText⟩ => isText ▸ List.mem_map_of_mem among) (by decide +kernel)

/-- The first call has been told that its list is unchanged; the second replaces the list in both
places; then the first stores its own. -/
theorem node_lists_differ :
    ∃ s, Run (NodeLists.step poolServices) anyStep (.init poolServices (one (poolNode 1)) 0)
        (refreshUnchanged ++ replaceNodes 1 1 0 ++ storeNodes 1 ++ storeNodes 0) s ∧
      s.Idle ∧ (∃ update ∈ s.pool.updates, update.pc.succeeded = true) ∧
      s.pool.nodes = one (poolNode 2) ∧
      s.getEnclaves = one (poolNode 1) ∧ s.getEnclaves ≠ s.pool.nodes :=
  Run.exists_of_exec (by decide +kernel)

end

end ConfidentialCompute
