import ConfidentialCompute.Executor.Lifecycle
import ConfidentialCompute.Lib.Progress

/-!
# What is left when an executor is closed

Whoever can still cancel a loop, and whoever waits for one that has been cancelled, is followed
through every interleaving of initializations, closings and loops. `Tended` says of the loops alone
that somebody answers for each of them; the calls and the pools say who that is (`kept`, `awaited`).
-/

namespace ConfidentialCompute.Lifecycle

open Runs

/-! ## Loops and who answers for them -/

/-- The loops in `kept` can still be cancelled by somebody, and for those in `awaited` somebody
waits. Collectors apart, these are all the loops that run. -/
structure Tended (kept awaited : List Nat) (loops : List Loop) : Prop where
  nodup : kept.Nodup
  kept_iff : ∀ n, n ∈ kept ↔
    ∃ found, loops[n]? = some found ∧ found.role ≠ .collector ∧ found.cancelled = false
  spared : ∀ found ∈ loops, found.role = .collector → found.cancelled = false
  stops : ∀ found ∈ loops, found.phase = .ended → found.cancelled = true
  dying : ∀ (n : Nat) (found : Loop), loops[n]? = some found → found.cancelled = true →
    found.phase = .ended ∨ n ∈ awaited
  cancelled : ∀ n ∈ awaited, ∃ found, loops[n]? = some found ∧ found.cancelled = true

namespace Tended

variable {kept kept' awaited awaited' : List Nat} {loops : List Loop} {n : Nat} {found : Loop}

/-- Loops change hands, and nobody waits any more for one that has ended. -/
theorem handed (tended : Tended kept awaited loops) (same : kept.Perm kept')
    (fewer : awaited' ⊆ awaited)
    (waits : ∀ n ∈ awaited, n ∈ awaited' ∨
      ∃ found, loops[n]? = some found ∧ found.phase = .ended) : Tended kept' awaited' loops where
  nodup := same.nodup_iff.mp tended.nodup
  kept_iff n := same.mem_iff.symm.trans (tended.kept_iff n)
  spared := tended.spared
  stops := tended.stops
  dying n found isLoop cancelled := by
    rcases tended.dying n found isLoop cancelled with ended | among
    · exact Or.inl ended
    · rcases waits n among with still | ⟨other, isOther, ended⟩
      · exact Or.inr still
      · cases isLoop.symm.trans isOther
        exact Or.inl ended
  cancelled n among := tended.cancelled n (fewer among)

theorem perm (tended : Tended kept awaited loops) (same : kept.Perm kept') :
    Tended kept' awaited loops :=
  tended.handed same (List.Subset.refl _) fun _ => Or.inl

theorem started (tended : Tended kept awaited loops) (role : LoopRole) :
    Tended (if role = .collector then kept else loops.length :: kept) awaited
      (loops ++ [Loop.new role]) := by
  have new : loops.length ∉ kept := by simp [tended.kept_iff]
  obtain ⟨nodup, kept_iff, spared, stops, dying, cancelled⟩ := tended
  refine ⟨?_, fun n => ?_, ?_, ?_, fun n found isLoop cancelled => ?_, fun n among => ?_⟩
  · grind
  · by_cases last : n = loops.length
    · subst last
      by_cases collects : role = .collector <;> simp [Loop.new, collects, new]
    · have old := kept_iff n
      grind [Loop.new]
  · grind [Loop.new]
  · grind [Loop.new]
  · grind [Loop.new]
  · have before := cancelled n among
    grind

/-- Who keeps a loop cancels it and waits for it. -/
theorem cancel (tended : Tended (n :: kept) awaited loops) :
    Tended kept (n :: awaited) (loops.modify n fun loop => { loop with cancelled := true }) := by
  obtain ⟨nodup, kept_iff, spared, stops, dying, waiting⟩ := tended
  obtain ⟨absent, nodup⟩ := List.nodup_cons.mp nodup
  obtain ⟨old, isOld, role, _⟩ := (kept_iff n).mp List.mem_cons_self
  rw [List.modify_eq_set_getElem?, isOld]
  show Tended kept (n :: awaited) (loops.set n { old with cancelled := true })
  refine ⟨nodup, fun m => ?_, ?_, ?_, fun m found isLoop cancelled => ?_, fun m among => ?_⟩
  · have before := kept_iff m
    grind
  · exact forall_mem_set spared fun collects => absurd collects role
  · exact forall_mem_set stops fun _ => rfl
  · have before := dying m
    grind
  · have before := waiting m
    grind

theorem turned {kind : MoveKind} {phase : LoopPhase} (tended : Tended kept awaited loops)
    (isLoop : loops[n]? = some found) (turns : found.Turns kind phase) :
    Tended kept awaited (loops.set n { found with phase := phase }) := by
  have among := List.mem_of_getElem? isLoop
  have may : phase = .ended → found.cancelled = true := by
    intro ended
    cases turns <;> grind
  have runs : found.phase ≠ .ended := by
    cases turns <;> simp [*]
  obtain ⟨nodup, kept_iff, spared, stops, dying, waiting⟩ := tended
  refine ⟨nodup, fun m => ?_, ?_, ?_, fun m later isLater cancelled => ?_, fun m waits => ?_⟩
  · have before := kept_iff m
    grind
  · exact forall_mem_set spared (spared found among)
  · exact forall_mem_set stops may
  · have before := dying m
    grind
  · have before := waiting m
    grind

end Tended

/-! ## The mutex -/

section Mutex

variable {calls : List LifePC} {mutex : Option Nat} {id : Nat} {pc pc' : LifePC}

/-- The mutex is held by the one call that holds it. -/
def HeldBy (calls : List LifePC) (mutex : Option Nat) : Prop :=
  ∀ id, mutex = some id ↔ ∃ pc, calls[id]? = some pc ∧ pc.holds = true

theorem HeldBy.append (held : HeldBy calls mutex) (idle : pc.holds = false) :
    HeldBy (calls ++ [pc]) mutex := by
  intro id
  rw [held id]
  grind

theorem HeldBy.set (held : HeldBy calls mutex) (found : calls[id]? = some pc)
    (same : pc'.holds = pc.holds) : HeldBy (calls.set id pc') mutex := by
  intro other
  rw [held other]
  grind

theorem HeldBy.lock (held : HeldBy calls none) (found : calls[id]? = some pc)
    (holds : pc'.holds = true) : HeldBy (calls.set id pc') (some id) := by
  intro other
  have free := held other
  grind

theorem HeldBy.unlock (held : HeldBy calls mutex) (found : calls[id]? = some pc)
    (holds : pc.holds = true) (idle : pc'.holds = false) : HeldBy (calls.set id pc') none := by
  intro other
  have mine := (held id).mpr ⟨pc, found, holds⟩
  have others := held other
  grind

end Mutex

namespace ExecutorLife

variable {s s' : ExecutorLife} {kind : MoveKind} {id pool loop : Nat} {pc pc' : LifePC}

theorem Passes.holds_eq (passes : s.Passes pc pc') : pc'.holds = pc.holds := by
  cases passes <;> rfl

theorem Leaves.holds (leaves : s.Leaves pc) : pc.holds = true := by
  cases leaves <;> rfl

theorem Shuts.holds_eq (shuts : Shuts pool loop pc pc') : pc'.holds = pc.holds := by
  cases shuts <;> rfl

/-- Only initializations hold the mutex, and none is under way once the executor is initialized. -/
structure Locked (s : ExecutorLife) : Prop where
  held : HeldBy s.calls s.initializedMutex
  ready : s.initialized = true → s.initializedMutex = none
  fresh : s.initialized = false → s.refreshCancel = none ∧ s.enclaveClient = none

/-- A call that holds the mutex finds the executor uninitialized. -/
theorem Locked.uninitialized (locked : s.Locked) (found : s.calls[id]? = some pc)
    (holds : pc.holds = true) : s.initialized = false := by
  by_contra done
  have free := locked.ready (Bool.not_eq_false _ ▸ done)
  cases free.symm.trans ((locked.held id).mpr ⟨pc, found, holds⟩)

theorem Locked.step (locked : s.Locked) (moves : s.Moves kind s') : s'.Locked := by
  obtain ⟨held, ready, fresh⟩ := locked
  cases moves with
  | arrive new =>
      refine ⟨held.append ?_, ready, fresh⟩
      rcases new with rfl | rfl <;> rfl
  | pass found passes => exact ⟨held.set found passes.holds_eq, ready, fresh⟩
  | lock found free unready =>
      rw [free] at held
      exact ⟨held.lock found rfl, fun done => (nomatch unready.symm.trans done), fresh⟩
  | leave apiKey found leaves =>
      exact ⟨held.unlock found leaves.holds rfl, fun _ => rfl, fresh⟩
  | pool found c r => exact ⟨held.set found rfl, ready, fresh⟩
  | adopt found => exact ⟨held.unlock found rfl rfl, fun _ => rfl, nofun⟩
  | shut found isOpen shuts => exact ⟨held.set found shuts.holds_eq, ready, fresh⟩
  | take found free => exact ⟨held.set found rfl, ready, fun unready => ⟨rfl, (fresh unready).2⟩⟩
  | cancel found => exact ⟨held.set found rfl, ready, fresh⟩
  | turn isLoop turns => exact ⟨held, ready, fresh⟩

end ExecutorLife

/-! ## Channels -/

/-- Whoever has the function that cancels the executor's loop has the channel of its end. -/
def LifePC.Equipped : LifePC → Prop
  | .stopping (some loop) done _ => done = some loop
  | .awaiting done _ => done ≠ none
  | _ => True

namespace ExecutorLife

variable {s s' : ExecutorLife} {kind : MoveKind} {id pool loop n : Nat} {pc pc' : LifePC}

structure Channels (s : ExecutorLife) : Prop where
  done : ∀ n, s.refreshCancel = some n → s.refreshDone = some n
  equipped : ∀ pc ∈ s.calls, pc.Equipped

theorem Channels.step (channels : s.Channels) (moves : s.Moves kind s') : s'.Channels := by
  obtain ⟨done, equipped⟩ := channels
  cases moves with
  | arrive new =>
      refine ⟨done, List.forall_mem_append.mpr ⟨equipped, ?_⟩⟩
      rw [List.forall_mem_singleton]
      rcases new with rfl | rfl <;> trivial
  | pass found passes => exact ⟨done, forall_mem_set equipped (by cases passes <;> trivial)⟩
  | lock found free unready => exact ⟨done, forall_mem_set equipped trivial⟩
  | leave apiKey found leaves => exact ⟨done, forall_mem_set equipped trivial⟩
  | pool found c r => exact ⟨done, forall_mem_set equipped trivial⟩
  | adopt found => exact ⟨fun n same => same, forall_mem_set equipped trivial⟩
  | shut found _ shuts => exact ⟨done, forall_mem_set equipped (by cases shuts <;> trivial)⟩
  | take found free =>
      refine ⟨nofun, forall_mem_set equipped ?_⟩
      cases has : s.refreshCancel with
      | none => trivial
      | some n => exact done n has
  | cancel found =>
      have isDone : _ = some _ := equipped _ (List.mem_of_getElem? found)
      refine ⟨done, forall_mem_set equipped ?_⟩
      rw [isDone]
      exact nofun
  | turn isLoop turns => exact ⟨done, equipped⟩

/-! ## Pools -/

theorem open_shut (other : Nat) :
    (s.shut pool loop).open_ other = if other = pool then none else s.open_ other := by
  unfold open_ shut cancel
  grind

theorem open_newPool (c r : Bool) :
    (s.newPool c r).open_ pool =
      if pool = s.pools.length then if c && r then some (s.loops.length + 1) else none
      else s.open_ pool := by
  unfold open_ newPool
  grind

/-- A pool that has not been closed is in the hands of an initialization, or it is the executor's;
then the executor can be closed, or a call is closing it. -/
def PoolsHeld (s : ExecutorLife) : Prop :=
  ∀ pool n, s.open_ pool = some n → pool ∈ s.calls.filterMap LifePC.guards ∨
    (s.enclaveClient = some pool ∧
      (s.refreshCancel ≠ none ∨ pool ∈ s.calls.filterMap LifePC.closes))

theorem Passes.guards (passes : s.Passes pc pc') (mine : pc.guards = some pool) :
    pc'.guards = some pool := by
  cases passes with
  | refuse => exact mine
  | _ => cases mine

theorem Passes.closes (passes : s.Passes pc pc') (isOpen : s.open_ pool = some n)
    (mine : pc.closes = some pool) : pc'.closes = some pool := by
  cases passes with
  | skip => exact mine
  | awaited _ => exact mine
  | idle ends => cases (ends pool mine).symm.trans isOpen
  | _ => cases mine

theorem Leaves.guards (leaves : s.Leaves pc) (mine : pc.guards = some pool) :
    s.open_ pool = none := by
  cases leaves with
  | idle ends =>
      cases mine
      exact ends
  | _ => cases mine

theorem Shuts.held {other : Nat} (shuts : Shuts pool loop pc pc')
    (mine : pc.guards = some other ∨ pc.closes = some other) : other = pool := by
  cases shuts with
  | discarded =>
      rcases mine with mine | mine
      · exact (Option.some.inj mine).symm
      · cases mine
  | client =>
      rcases mine with mine | mine
      · cases mine
      · exact (Option.some.inj mine).symm

theorem PoolsHeld.step (held : s.PoolsHeld) (locked : s.Locked) (moves : s.Moves kind s') :
    s'.PoolsHeld := by
  intro pool n isOpen
  -- What a call has in its hands outlives the steps of the others.
  have set {id : Nat} {pc pc' : LifePC} (found : s.calls[id]? = some pc)
      (isOpen : s.open_ pool = some n) (guards : pc.guards = some pool → pc'.guards = some pool)
      (closes : pc.closes = some pool → pc'.closes = some pool) :
      pool ∈ (s.calls.set id pc').filterMap LifePC.guards ∨ (s.enclaveClient = some pool ∧
        (s.refreshCancel ≠ none ∨ pool ∈ (s.calls.set id pc').filterMap LifePC.closes)) :=
    (held pool n isOpen).imp (fun among => mem_filterMap_set found among guards)
      (And.imp_right (Or.imp_right fun among => mem_filterMap_set found among closes))
  cases moves with
  | arrive new =>
      refine (held pool n isOpen).imp ?_ (And.imp_right (Or.imp_right ?_)) <;>
        rw [List.filterMap_append] <;> exact List.mem_append_left _
  | pass found passes => exact set found isOpen passes.guards (passes.closes isOpen)
  | lock found free unready => exact set found isOpen nofun nofun
  | leave apiKey found leaves =>
      refine set found isOpen (fun mine => ?_) (by cases leaves <;> exact nofun)
      cases (leaves.guards mine).symm.trans isOpen
  | pool found c r =>
      have among : (s.newPool c r).open_ pool = some n := isOpen
      rw [open_newPool] at among
      split at among
      · rename_i new
        refine Or.inl (List.mem_filterMap.mpr ⟨.asking s.pools.length, ?_, congrArg some new.symm⟩)
        exact List.mem_of_getElem? (List.getElem?_set_self (List.getElem?_eq_some_iff.mp found).1)
      · exact set found among nofun nofun
  | @adopt id made found =>
      have unready := locked.uninitialized found rfl
      rcases held pool n isOpen with guarded | ⟨client, _⟩
      · by_cases mine : pool = made
        · exact Or.inr ⟨congrArg some mine.symm, Or.inl nofun⟩
        · exact Or.inl (mem_filterMap_set found guarded fun same =>
            absurd (Option.some.inj same).symm mine)
      · cases (locked.fresh unready).2.symm.trans client
  | @shut id closedPool closedLoop pc pc' found wasOpen shuts =>
      have still : (s.shut closedPool closedLoop).open_ pool = some n := isOpen
      rw [open_shut] at still
      obtain ⟨apart, old⟩ := Option.ite_none_left_eq_some.mp still
      exact set found old (fun mine => absurd (shuts.held (Or.inl mine)) apart)
        fun mine => absurd (shuts.held (Or.inr mine)) apart
  | take found free =>
      rcases held pool n isOpen with guarded | ⟨client, _⟩
      · exact Or.inl (mem_filterMap_set found guarded nofun)
      · refine Or.inr ⟨client, Or.inr (List.mem_filterMap.mpr
          ⟨.stopping s.refreshCancel s.refreshDone s.enclaveClient, ?_, client⟩)⟩
        exact List.mem_of_getElem? (List.getElem?_set_self (List.getElem?_eq_some_iff.mp found).1)
  | cancel found => exact set found isOpen nofun fun mine => mine
  | turn isLoop turns => exact held pool n isOpen

/-! ## Custody -/

/-- The loops that somebody can still cancel: a call that closes the executor, the executor, or a
pool. -/
def kept (s : ExecutorLife) : List Nat :=
  s.calls.filterMap LifePC.bears ++
    (s.refreshCancel.toList ++ s.pools.filterMap EnclavePool.refreshStopCh)

def awaited (s : ExecutorLife) : List Nat := s.calls.filterMap LifePC.awaits

theorem mem_kept : n ∈ s.kept ↔ n ∈ s.calls.filterMap LifePC.bears ∨ s.refreshCancel = some n ∨
    ∃ pool, s.open_ pool = some n := by
  have open_iff : n ∈ s.pools.filterMap EnclavePool.refreshStopCh ↔
      ∃ pool, s.open_ pool = some n := by
    simp only [List.mem_filterMap, open_, Option.bind_eq_some_iff]
    constructor
    · intro ⟨found, among, has⟩
      obtain ⟨pool, isPool⟩ := List.mem_iff_getElem?.mp among
      exact ⟨pool, found, isPool, has⟩
    · intro ⟨pool, found, isPool, has⟩
      exact ⟨found, List.mem_of_getElem? isPool, has⟩
  rw [kept, List.mem_append, List.mem_append, Option.mem_toList, open_iff]

/-- A call that takes a step exchanges the loop it is about to cancel for another. -/
theorem kept_put (pc' : LifePC) (found : s.calls[id]? = some pc) :
    (pc'.bears.toList ++ s.kept).Perm (pc.bears.toList ++ (s.put id pc').kept) := by
  have calls : (pc'.bears.toList ++ s.calls.filterMap LifePC.bears).Perm _ :=
    perm_filterMap_set pc' found
  simpa only [kept, put, List.append_assoc] using calls.append_right _

theorem kept_put_same (found : s.calls[id]? = some pc) (free : pc.bears = none)
    (free' : pc'.bears = none) : s.kept.Perm (s.put id pc').kept := by
  have exchange := kept_put pc' found
  rw [free, free'] at exchange
  exact exchange

theorem kept_shut (isOpen : s.open_ pool = some loop) :
    s.kept.Perm (loop :: (s.shut pool loop).kept) := by
  obtain ⟨found, isPool, has⟩ := Option.bind_eq_some_iff.mp isOpen
  have pools : ([] ++ s.pools.filterMap EnclavePool.refreshStopCh).Perm _ :=
    perm_filterMap_set (f := EnclavePool.refreshStopCh) { found with refreshStopCh := none } isPool
  rw [has] at pools
  have shut : (s.shut pool loop).pools = s.pools.set pool { found with refreshStopCh := none } := by
    simp only [ExecutorLife.shut, cancel, List.modify_eq_set_getElem?, isPool]
    rfl
  rw [kept, kept, shut]
  exact ((pools.append_left _).trans List.perm_middle |>.append_left _).trans List.perm_middle

theorem hasEnded_iff : s.hasEnded n = true ↔
    ∃ found, s.loops[n]? = some found ∧ found.phase = .ended := by
  simp [hasEnded, Option.any_eq_true]

/-- A call that takes a step begins to wait for a loop, or stops waiting for one that has ended. -/
theorem tended_put {custody : List Nat} (found : s.calls[id]? = some pc)
    (tended : Tended custody (pc'.awaits.toList ++ s.awaited) s.loops)
    (same : custody.Perm (s.put id pc').kept)
    (ends : ∀ n, pc.awaits = some n → s.hasEnded n = true) :
    Tended (s.put id pc').kept (s.put id pc').awaited s.loops := by
  have exchange : (pc'.awaits.toList ++ s.awaited).Perm
      (pc.awaits.toList ++ (s.put id pc').awaited) := perm_filterMap_set pc' found
  refine tended.handed same (fun n among => ?_) fun n among => ?_
  · exact exchange.symm.subset (List.mem_append_right _ among)
  · rcases List.mem_append.mp (exchange.subset among) with mine | others
    · exact Or.inr (hasEnded_iff.mp (ends n (Option.mem_toList.mp mine)))
    · exact Or.inl others

theorem Passes.free (passes : s.Passes pc pc') :
    pc.bears = none ∧ pc'.bears = none ∧ pc'.awaits = none := by
  cases passes <;> exact ⟨rfl, rfl, rfl⟩

theorem Passes.ends (passes : s.Passes pc pc') (n : Nat) (waits : pc.awaits = some n) :
    s.hasEnded n = true := by
  cases passes with
  | awaited ends =>
      cases waits
      exact ends
  | left ends =>
      cases waits
      exact ends
  | _ => cases waits

theorem Leaves.bears (leaves : s.Leaves pc) : pc.bears = none := by
  cases leaves <;> rfl

theorem Leaves.ends (leaves : s.Leaves pc) (n : Nat) (waits : pc.awaits = some n) :
    s.hasEnded n = true := by
  cases leaves with
  | released ends =>
      cases waits
      exact ends
  | _ => cases waits

theorem Shuts.free (shuts : Shuts pool loop pc pc') :
    pc.bears = none ∧ pc'.bears = none ∧ pc.awaits = none ∧ pc'.awaits = some loop := by
  cases shuts <;> exact ⟨rfl, rfl, rfl, rfl⟩

/-- The loops of a new pool: the collector answers to nobody, the other one to the pool. -/
theorem tended_newPool (tended : Tended s.kept s.awaited s.loops) (c r : Bool) :
    Tended (s.newPool c r).kept s.awaited (s.newPool c r).loops := by
  match c, r with
  | false, _ => simpa [newPool, kept] using tended
  | true, false => simpa [newPool, kept] using tended.started .collector
  | true, true =>
      have both := (tended.started .collector).started .cacheRefresh
      rw [if_neg nofun, if_pos rfl, List.length_append, List.length_singleton,
        List.append_assoc] at both
      refine both.perm ?_
      rw [← List.singleton_append]
      refine List.perm_append_comm.trans ?_
      simp only [kept, newPool, List.filterMap_append, List.append_assoc]
      exact .refl _

theorem tended_step (tended : Tended s.kept s.awaited s.loops) (locked : s.Locked)
    (channels : s.Channels) (moves : s.Moves kind s') : Tended s'.kept s'.awaited s'.loops := by
  cases moves with
  | arrive new =>
      rcases new with rfl | rfl <;>
        simpa [kept, awaited, List.filterMap_cons, LifePC.bears, LifePC.awaits] using tended
  | pass found passes =>
      obtain ⟨free, free', noWait⟩ := passes.free
      refine tended_put found ?_ (kept_put_same found free free') passes.ends
      rw [noWait]
      exact tended
  | lock found _ _ => exact tended_put found tended (kept_put_same found rfl rfl) nofun
  | leave apiKey found leaves =>
      exact tended_put found tended (kept_put_same found leaves.bears rfl) leaves.ends
  | pool found c r =>
      exact tended_put found (tended_newPool tended c r) (kept_put_same found rfl rfl) nofun
  | adopt found =>
      have more := tended.started .enclaveRefresh
      rw [if_neg nofun] at more
      refine tended_put found more (.trans ?_ (kept_put_same found rfl rfl)) nofun
      simp only [kept, (locked.fresh (locked.uninitialized found rfl)).1]
      exact List.perm_middle.symm
  | shut found isOpen shuts =>
      obtain ⟨free, free', noWait, waits⟩ := shuts.free
      have told := (tended.perm (kept_shut isOpen)).cancel
      refine tended_put found ?_ (kept_put_same found free free') (by simp [noWait])
      rw [waits]
      exact told
  | take found _ =>
      have exchange := kept_put (s := { s with refreshCancel := none })
        (.stopping s.refreshCancel s.refreshDone s.enclaveClient) found
      exact tended_put found tended ((List.perm_append_comm_assoc ..).trans exchange) nofun
  | @cancel id loop done client found =>
      obtain rfl : done = some loop := channels.equipped _ (List.mem_of_getElem? found)
      have told := (tended.perm (kept_put (.awaiting (some loop) client) found)).cancel
      exact tended_put found told (.refl _) nofun
  | turn isLoop turns => exact tended.turned isLoop turns

/-! ## Collectors -/

/-- How many caches have been made: that of the secrets, and those of the pools. -/
def caches (s : ExecutorLife) : Nat := 1 + s.pools.countP EnclavePool.publicKeyCache

/-- There is one collector for each cache. -/
def OneEach (s : ExecutorLife) : Prop :=
  s.loops.countP (fun found => found.role = .collector) = s.caches

theorem OneEach.step (each : s.OneEach) (moves : s.Moves kind s') : s'.OneEach := by
  unfold OneEach caches at each ⊢
  cases moves with
  | pool _ c r =>
      simp only [put, newPool, List.countP_append, each]
      cases c <;> cases r <;> rfl
  | adopt _ =>
      simp only [adopt, unlock, put, List.countP_append, each]
      rfl
  | shut _ _ _ =>
      simp only [put, ExecutorLife.shut, ExecutorLife.cancel]
      exact (countP_modify (fun _ => by rfl) _).trans
        (each.trans (congrArg (1 + ·) (countP_modify (fun _ => by rfl) _).symm))
  | cancel _ =>
      simp only [put, ExecutorLife.cancel]
      exact (countP_modify (fun _ => by rfl) _).trans each
  | @turn _ _ found phase isLoop _ =>
      have change := countP_set_add (fun found => found.role = .collector)
        { found with phase := phase } isLoop
      exact (Nat.add_right_cancel change).trans each
  | _ => exact each

/-! ## With no call under way -/

structure Sound (s : ExecutorLife) : Prop where
  locked : s.Locked
  channels : s.Channels
  pools : s.PoolsHeld
  tended : Tended s.kept s.awaited s.loops
  each : s.OneEach

theorem sound_init : init.Sound where
  locked := ⟨fun _ => iff_of_false nofun fun ⟨_, found, _⟩ => (nomatch found), fun _ => rfl,
    fun _ => ⟨rfl, rfl⟩⟩
  channels := ⟨nofun, nofun⟩
  pools := fun _ _ isOpen => nomatch isOpen
  tended :=
    have none_ : Tended [] [] [] := ⟨List.nodup_nil,
      fun _ => iff_of_false nofun fun ⟨_, isLoop, _⟩ => (nomatch isLoop),
      nofun, nofun, nofun, nofun⟩
    none_.started .collector
  each := rfl

theorem Sound.step (sound : s.Sound) (moves : s.Moves kind s') : s'.Sound where
  locked := sound.locked.step moves
  channels := sound.channels.step moves
  pools := sound.pools.step sound.locked moves
  tended := tended_step sound.tended sound.locked sound.channels moves
  each := sound.each.step moves

theorem Sound.run {ls : List LifeAction} {ok : ExecutorLife → LifeAction → Prop} (sound : s.Sound)
    (run : Run act ok s ls s') : s'.Sound :=
  run.invariant sound fun _ _ _ sound _ taken => sound.step (.of_act taken)

end ExecutorLife

namespace LifePC

/-- The call has returned. -/
def returned : LifePC → Bool
  | .initialized _ | .closed => true
  | _ => false

/-- The call is closing the executor. -/
def isClosing : LifePC → Bool
  | .closing | .stopping _ _ _ | .awaiting _ _ | .closingClient _ | .awaitingClient _ => true
  | _ => false

/-- The call neither closes the executor nor holds the mutex. -/
def Aside (pc : LifePC) : Prop := pc.isClosing = false ∧ pc.holds = false

variable {pc : LifePC}

theorem aside_of_returned (returned : pc.returned = true) : pc.Aside := by
  cases pc <;> first | exact ⟨rfl, rfl⟩ | cases returned

/-- Such a call has nothing to do with loops and pools. -/
theorem Aside.free (aside : pc.Aside) :
    pc.bears = none ∧ pc.awaits = none ∧ pc.guards = none ∧ pc.closes = none := by
  unfold Aside at aside
  cases pc <;> simp_all [isClosing, holds, bears, awaits, guards, closes]

theorem busy_of_holds (holds : pc.holds = true) :
    pc.returned = false ∧ pc ≠ .locking ∧ pc ≠ .closing := by
  cases pc <;> simp_all [LifePC.holds, returned]

end LifePC

namespace ExecutorLife

variable {s s' s'' : ExecutorLife} {kind : MoveKind} {id loop n : Nat} {pc pc' : LifePC}
  {ls more rest : List LifeAction} {found : Loop}

/-- A collector is never told to stop. -/
theorem Sound.collector_runs (sound : s.Sound) (among : found ∈ s.loops)
    (collects : found.role = .collector) : found.phase ≠ .ended := by
  intro ended
  cases (sound.tended.spared found among collects).symm.trans (sound.tended.stops found among ended)

theorem not_mem_filterMap {f : LifePC → Option Nat} (none_ : ∀ pc ∈ s.calls, f pc = none) :
    n ∉ s.calls.filterMap f := by
  intro among
  obtain ⟨pc, isCall, has⟩ := List.mem_filterMap.mp among
  cases (none_ pc isCall).symm.trans has

theorem Sound.of_runs (sound : s.Sound) (aside : ∀ pc ∈ s.calls, pc.Aside)
    (isLoop : s.loops[n]? = some found) (runs : found.phase ≠ .ended) :
    found.role = .collector ∨ (s.refreshCancel ≠ none ∧ (s.refreshCancel = some n ∨
      ∃ pool, s.enclaveClient = some pool ∧ s.open_ pool = some n)) := by
  by_cases collects : found.role = .collector
  · exact Or.inl collects
  right
  have unawaited : n ∉ s.awaited := not_mem_filterMap fun pc among => (aside pc among).free.2.1
  have spared : found.cancelled = false := by
    by_contra cancelled
    rcases sound.tended.dying n found isLoop (Bool.not_eq_false _ ▸ cancelled) with ended | waits
    · exact runs ended
    · exact unawaited waits
  have kept := (sound.tended.kept_iff n).mpr ⟨found, isLoop, collects, spared⟩
  rcases mem_kept.mp kept with bears | mine | ⟨pool, isOpen⟩
  · exact absurd bears (not_mem_filterMap fun pc among => (aside pc among).free.1)
  · exact ⟨by simp [mine], Or.inl mine⟩
  · rcases sound.pools pool n isOpen with guarded | ⟨client, stoppable | closes⟩
    · exact absurd guarded (not_mem_filterMap fun pc among => (aside pc among).free.2.2.1)
    · exact ⟨stoppable, Or.inr ⟨pool, client, isOpen⟩⟩
    · exact absurd closes (not_mem_filterMap fun pc among => (aside pc among).free.2.2.2)

theorem Sound.count_running (sound : s.Sound)
    (only : ∀ found ∈ s.loops, found.phase ≠ .ended ↔ found.role = .collector) :
    s.loops.countP (fun found => found.phase ≠ .ended) = s.caches := by
  refine (List.countP_congr fun found among => ?_).trans sound.each
  simpa using only found among

/-- **Loops with no call under way.** A loop that runs is a collector, or the executor can still
stop it; as long as no initialization has succeeded, only the collectors run, one for each cache
that was made, the executor's own included. -/
theorem idle_loops (run : Run act anyStep init ls s) (idle : ∀ pc ∈ s.calls, pc.returned = true) :
    (∀ (n : Nat) (found : Loop), s.loops[n]? = some found → found.phase ≠ .ended →
      found.role = .collector ∨ (s.initialized = true ∧ (s.refreshCancel = some n ∨
        ∃ pool, s.enclaveClient = some pool ∧ s.open_ pool = some n))) ∧
      (s.initialized = false →
        s.loops.countP (fun found => found.phase ≠ .ended) = s.caches) := by
  have sound := sound_init.run run
  have running (n : Nat) (found : Loop) (isLoop : s.loops[n]? = some found)
      (runs : found.phase ≠ .ended) :
      found.role = .collector ∨ (s.initialized = true ∧ (s.refreshCancel = some n ∨
        ∃ pool, s.enclaveClient = some pool ∧ s.open_ pool = some n)) := by
    have aside (pc : LifePC) (among : pc ∈ s.calls) := LifePC.aside_of_returned (idle pc among)
    refine (sound.of_runs aside isLoop runs).imp_right fun ⟨stoppable, mine⟩ => ⟨?_, mine⟩
    by_contra unready
    exact stoppable (sound.locked.fresh (Bool.not_eq_true _ ▸ unready)).1
  refine ⟨running, fun unready => sound.count_running fun found among => ?_⟩
  constructor
  · intro runs
    obtain ⟨n, isLoop⟩ := List.mem_iff_getElem?.mp among
    rcases running n found isLoop runs with collects | ⟨ready, _⟩
    · exact collects
    · cases unready.symm.trans ready
  · exact sound.collector_runs among

namespace Sample

/-- All goes well up to the pool, which gets a cache and a refresh loop. -/
def surroundings : Surroundings where
  standardCapabilityAccount := []
  parseConfig := .ok []
  newRateLimiter := .ok ()
  accounts := .ok []
  decrypt _ _ := .ok []
  getLocalNodeAndCapConfig := .ok ()
  getEnclaveNodes := .ok ()
  enableCache := true
  enableProactiveRefresh := true

def vault : VaultAnswer := ⟨[], .ok (), .ok ()⟩

/-- The registry does not have the vault. -/
def failure : List LifeAction :=
  [.initLazily, .proceed 0, .prepared 0 surroundings, .answered 0 ⟨[], .error [], .ok ()⟩,
    .proceed 0, .stop 2, .proceed 0]

def success : List LifeAction :=
  [.initLazily, .proceed 0, .prepared 0 surroundings, .answered 0 vault]

/-- `Close` waits for the executor's loop and then for the pool's. -/
def closing : List LifeAction :=
  [.proceed 1, .proceed 1, .stop 3, .proceed 1, .proceed 1, .tick 2, .worked 2, .stop 2, .proceed 1]

end Sample

theorem idle_loops_failure : ∃ ls s, Run act anyStep init ls s ∧
    (∀ pc ∈ s.calls, pc.returned = true) ∧ s.initialized = false ∧ s.caches = 2 ∧
    s.loops.countP (fun found => found.phase ≠ .ended) = s.caches := by
  obtain ⟨s, run, idle, unready, caches⟩ : ∃ s, Run act anyStep init Sample.failure s ∧
      (∀ pc ∈ s.calls, pc.returned = true) ∧ s.initialized = false ∧ s.caches = 2 :=
    Run.exists_of_exec (by decide +kernel)
  exact ⟨_, s, run, idle, unready, caches, (idle_loops run idle).2 unready⟩

/-! ## After a closing -/

/-- Only collectors run in an executor that is initialized. -/
structure Finished (s : ExecutorLife) : Prop where
  sound : s.Sound
  ready : s.initialized = true
  ended : ∀ found ∈ s.loops, found.phase = .ended ∨ found.role = .collector

/-- No initialization is under way in an executor that is initialized. -/
theorem Sound.not_holds (sound : s.Sound) (ready : s.initialized = true)
    (found : s.calls[id]? = some pc) : pc.holds = false := by
  by_contra holds
  cases ready.symm.trans (sound.locked.uninitialized found (Bool.not_eq_false _ ▸ holds))

theorem ended_cancel (ended : ∀ found ∈ s.loops, found.phase = .ended ∨ found.role = .collector) :
    ∀ found ∈ (s.cancel loop).loops, found.phase = .ended ∨ found.role = .collector := by
  unfold cancel
  exact forall_mem_modify ended (fun _ before => by exact before) loop

theorem Finished.step (finished : s.Finished) (moves : s.Moves kind s') : s'.Finished := by
  obtain ⟨sound, ready, ended⟩ := finished
  have sound' := sound.step moves
  cases moves with
  | pool found c r => cases sound.not_holds ready found
  | adopt found => cases sound.not_holds ready found
  | shut found isOpen shuts => exact ⟨sound', ready, ended_cancel ended⟩
  | cancel found => exact ⟨sound', ready, ended_cancel ended⟩
  | @turn _ _ found phase isLoop turns =>
      refine ⟨sound', ready, forall_mem_set ended ?_⟩
      refine (ended found (List.mem_of_getElem? isLoop)).imp_left fun before => ?_
      cases turns with
      | tick waits => cases waits.symm.trans before
      | worked works => cases works.symm.trans before
      | stop _ _ => rfl
  | _ => exact ⟨sound', ready, ended⟩

/-- A call is about to take the function that cancels the executor's loop, or one has. -/
structure Closing (s : ExecutorLife) : Prop where
  sound : s.Sound
  ready : s.initialized = true
  taken : .closing ∈ s.calls ∨ s.refreshCancel = none

theorem Closing.step (closing : s.Closing) (moves : s.Moves kind s') : s'.Closing := by
  obtain ⟨sound, ready, taken⟩ := closing
  have sound' := sound.step moves
  have set {id : Nat} {pc pc' : LifePC} (found : s.calls[id]? = some pc) (other : pc ≠ .closing) :
      .closing ∈ s.calls.set id pc' ∨ s.refreshCancel = none := by
    refine taken.imp_left fun among => ?_
    obtain ⟨n, isCall⟩ := List.mem_iff_getElem?.mp among
    have apart : id ≠ n := fun same => other (Option.some.inj (found.symm.trans (same ▸ isCall)))
    exact List.mem_of_getElem? ((List.getElem?_set_ne apart).trans isCall)
  cases moves with
  | arrive new => exact ⟨sound', ready, taken.imp_left (List.mem_append_left _)⟩
  | pass found passes => exact ⟨sound', ready, set found (by cases passes <;> exact nofun)⟩
  | lock found free unready => cases unready.symm.trans ready
  | leave apiKey found leaves => cases leaves.holds.symm.trans (sound.not_holds ready found)
  | pool found c r => cases sound.not_holds ready found
  | adopt found => cases sound.not_holds ready found
  | shut found isOpen shuts => exact ⟨sound', ready, set found (by cases shuts <;> exact nofun)⟩
  | take found free => exact ⟨sound', ready, Or.inr rfl⟩
  | cancel found => exact ⟨sound', ready, set found nofun⟩
  | turn isLoop turns => exact ⟨sound', ready, taken⟩

theorem Closing.finished (closing : s.Closing)
    (returned : ∀ pc ∈ s.calls, pc.isClosing = false) : s.Finished := by
  obtain ⟨sound, ready, taken⟩ := closing
  have noCancel := taken.resolve_left fun among => nomatch returned _ among
  have aside (pc : LifePC) (among : pc ∈ s.calls) : pc.Aside := by
    obtain ⟨id, found⟩ := List.mem_iff_getElem?.mp among
    exact ⟨returned pc among, sound.not_holds ready found⟩
  refine ⟨sound, ready, fun found among => or_iff_not_imp_left.mpr fun runs => ?_⟩
  obtain ⟨n, isLoop⟩ := List.mem_iff_getElem?.mp among
  rcases sound.of_runs aside isLoop runs with collects | ⟨stoppable, _⟩
  · exact collects
  · exact absurd noCancel stoppable

/-- **Closing is for good.** `Close` is called on an executor that is initialized. From when all
closings have returned on, only the collectors run, one for each cache that was made, the
executor's own included. -/
theorem closed_for_good (run : Run act anyStep init ls s) (ready : s.initialized = true)
    (closing : Run act anyStep s (.close :: more) s')
    (returned : ∀ pc ∈ s'.calls, pc.isClosing = false) (later : Run act anyStep s' rest s'') :
    (∀ found ∈ s''.loops, found.phase ≠ .ended ↔ found.role = .collector) ∧
      s''.loops.countP (fun found => found.phase ≠ .ended) = s''.caches := by
  have sound := sound_init.run run
  obtain ⟨called, _, taken, onward⟩ := Run.cons_iff.mp closing
  cases taken
  have called : Closing { s with calls := s.calls ++ [.closing] } :=
    ⟨sound.step (.arrive (Or.inr rfl)), ready, Or.inl (by simp)⟩
  have closes : s'.Closing :=
    onward.invariant called fun _ _ _ closing _ taken => closing.step (.of_act taken)
  have finished : s''.Finished := later.invariant (closes.finished returned)
    fun _ _ _ finished _ taken => finished.step (.of_act taken)
  have only (found : Loop) (among : found ∈ s''.loops) :
      found.phase ≠ .ended ↔ found.role = .collector :=
    ⟨(finished.ended found among).resolve_left, finished.sound.collector_runs among⟩
  exact ⟨only, finished.sound.count_running only⟩

theorem closed_for_good_once : ∃ ls s more s' rest s'', Run act anyStep init ls s ∧
    s.initialized = true ∧ Run act anyStep s (.close :: more) s' ∧
    (∀ pc ∈ s'.calls, pc.isClosing = false) ∧ Run act anyStep s' rest s'' ∧ s''.caches = 2 ∧
    s''.loops.countP (fun found => found.phase ≠ .ended) = s''.caches := by
  obtain ⟨s'', whole, caches⟩ : ∃ s'', Run act anyStep init
      (Sample.success ++ (.close :: Sample.closing ++ [.tick 0])) s'' ∧ s''.caches = 2 :=
    Run.exists_of_exec (by decide +kernel)
  obtain ⟨s, run, onward⟩ := whole.split
  obtain ⟨s', closing, later⟩ := onward.split
  obtain ⟨t, run', ready⟩ : ∃ t, Run act anyStep init Sample.success t ∧ t.initialized = true :=
    Run.exists_of_exec (by decide +kernel)
  obtain ⟨t', closing', returned⟩ : ∃ t', Run act anyStep init
      (Sample.success ++ .close :: Sample.closing) t' ∧
      ∀ pc ∈ t'.calls, pc.isClosing = false := Run.exists_of_exec (by decide +kernel)
  cases run.unique run'
  cases (run.trans closing).unique closing'
  exact ⟨_, s, _, s', _, s'', run, ready, closing, returned, later, caches,
    (closed_for_good run ready closing returned later).2⟩

end ExecutorLife

/-! ## No call waits for ever -/

/-- How many steps a call takes at most, with those of the loops that it starts. -/
def LifePC.rank : LifePC → Nat
  | .locking => 8
  | .preparing => 7
  | .closing => 6
  | .stopping _ _ _ => 5
  | .asking _ | .awaiting _ _ => 4
  | .discarding _ _ | .closingClient _ => 3
  | .releasing _ _ | .awaitingClient _ => 2
  | .initialized _ | .closed => 0

/-- How many steps a loop takes at most without a tick. -/
def Loop.rank (loop : Loop) : Nat :=
  match loop.phase with
  | .working => 2
  | .selecting => 1
  | .ended => 0

theorem Loop.Turns.rank_lt {loop : Loop} {phase : LoopPhase} (turns : loop.Turns .step phase) :
    Loop.rank { loop with phase := phase } < loop.rank := by
  cases turns with
  | worked works => simp [rank, works]
  | stop waits _ => simp [rank, waits]

namespace ExecutorLife

variable {s s' : ExecutorLife} {id loop : Nat} {pc pc' : LifePC} {ls more : List LifeAction}

/-- A call, a loop, the registry or the keystore takes a step: no new call, and no tick. -/
def moving (_ : ExecutorLife) (a : LifeAction) : Prop := a.kind = .step

instance (s : ExecutorLife) (a : LifeAction) : Decidable (moving s a) :=
  inferInstanceAs (Decidable (a.kind = .step))

def toil (s : ExecutorLife) : Nat := work LifePC.rank s.calls + work Loop.rank s.loops

theorem Passes.rank_lt (passes : s.Passes pc pc') : pc'.rank < pc.rank := by
  cases passes <;> simp [LifePC.rank]

theorem Leaves.rank_pos (leaves : s.Leaves pc) : 0 < pc.rank := by
  cases leaves <;> simp [LifePC.rank]

theorem Shuts.rank_lt {pool : Nat} (shuts : Shuts pool loop pc pc') : pc'.rank < pc.rank := by
  cases shuts <;> simp [LifePC.rank]

theorem toil_put_lt {t : ExecutorLife} (calls : t.calls = s.calls) (found : s.calls[id]? = some pc)
    (less : work Loop.rank t.loops + pc'.rank < work Loop.rank s.loops + pc.rank) :
    (t.put id pc').toil < s.toil := by
  have change : work LifePC.rank (s.calls.set id pc') + pc.rank =
      work LifePC.rank s.calls + pc'.rank := work_set_add LifePC.rank found
  simp only [toil, put, calls]
  omega

theorem work_newPool_le (c r : Bool) :
    work Loop.rank (s.newPool c r).loops ≤ work Loop.rank s.loops + 2 := by
  rw [newPool, work_append]
  cases c <;> cases r <;> simp [work, Loop.new, Loop.rank]

theorem work_cancel_le : work Loop.rank (s.cancel loop).loops ≤ work Loop.rank s.loops := by
  unfold cancel
  exact work_modify_le Loop.rank (fun _ => by rfl) loop

/-- The loops that a call starts are paid for by the steps it has taken. -/
theorem Moves.toil_lt (moves : s.Moves .step s') : s'.toil < s.toil := by
  cases moves with
  | pass found passes => exact toil_put_lt rfl found (Nat.add_lt_add_left passes.rank_lt _)
  | lock found _ _ => exact toil_put_lt rfl found (Nat.add_lt_add_left (by decide) _)
  | leave _ found leaves => exact toil_put_lt rfl found (Nat.add_lt_add_left leaves.rank_pos _)
  | pool found c r =>
      refine toil_put_lt rfl found ?_
      have few : work Loop.rank (s.newPool c r).loops ≤ work Loop.rank s.loops + 2 :=
        work_newPool_le c r
      show work Loop.rank (s.newPool c r).loops + 4 < work Loop.rank s.loops + 7
      omega
  | adopt found =>
      refine toil_put_lt rfl found ?_
      show work Loop.rank (s.loops ++ [Loop.new .enclaveRefresh]) + 0 < work Loop.rank s.loops + 4
      rw [work_append]
      have one : work Loop.rank [Loop.new .enclaveRefresh] = 1 := rfl
      omega
  | shut found isOpen shuts =>
      exact toil_put_lt rfl found (Nat.add_lt_add_of_le_of_lt work_cancel_le shuts.rank_lt)
  | take found _ => exact toil_put_lt rfl found (Nat.add_lt_add_left (by simp [LifePC.rank]) _)
  | cancel found =>
      refine toil_put_lt rfl found (Nat.add_lt_add_of_le_of_lt work_cancel_le ?_)
      simp [LifePC.rank]
  | turn isLoop turns => exact Nat.add_lt_add_left (work_set_lt _ isLoop turns.rank_lt) _

/-- A step that may be taken. -/
def Enabled (s : ExecutorLife) : Prop := ∃ a s', moving s a ∧ s.act a = some s'

theorem enabled_of_isSome (found : s.calls[id]? = some pc) (goes : (s.proceed id pc).isSome) :
    s.Enabled := by
  obtain ⟨t, taken⟩ := Option.isSome_iff_exists.mp goes
  exact ⟨.proceed id, t, rfl, by rw [act, found, Option.bind_some, taken]⟩

/-- A call that waits for a loop can go on when the loop has ended. Until then the loop can, since
it has been cancelled. -/
theorem Sound.enabled_of_awaits (sound : s.Sound) (found : s.calls[id]? = some pc)
    (waits : pc.awaits = some loop)
    (goesOn : s.hasEnded loop = true → (s.proceed id pc).isSome) : s.Enabled := by
  obtain ⟨awaited, isLoop, cancelled⟩ := sound.tended.cancelled loop
    (List.mem_filterMap.mpr ⟨pc, List.mem_of_getElem? found, waits⟩)
  cases phase : awaited.phase with
  | selecting => exact ⟨.stop loop, _, rfl, by simp [act, runLoop, isLoop, phase, cancelled]; rfl⟩
  | working => exact ⟨.worked loop, _, rfl, by simp [act, runLoop, isLoop, phase]; rfl⟩
  | ended => exact enabled_of_isSome found (goesOn (hasEnded_iff.mpr ⟨awaited, isLoop, phase⟩))

/-- Everyone but a call that waits for the mutex can take a step, or the loop can that it waits
for. -/
theorem Sound.enabled_of_unlocked (sound : s.Sound) (found : s.calls[id]? = some pc)
    (unreturned : pc.returned = false) (unlocked : pc ≠ .locking ∧ pc ≠ .closing) :
    s.Enabled := by
  cases pc with
  | locking => exact absurd rfl unlocked.1
  | closing => exact absurd rfl unlocked.2
  | initialized result => cases unreturned
  | closed => cases unreturned
  | preparing =>
      let w : Surroundings := ⟨[], .error [], .ok (), .ok [], fun _ _ => .ok [], .ok (), .ok (),
        false, false⟩
      exact ⟨.prepared id w, _, rfl, by simp [act, found, prepared]; rfl⟩
  | asking pool =>
      exact ⟨.answered id ⟨[], .ok (), .ok ()⟩, _, rfl, by simp [act, found, answered]; rfl⟩
  | discarding pool err => exact enabled_of_isSome found (by simp only [proceed]; split <;> rfl)
  | releasing loop err =>
      exact sound.enabled_of_awaits found rfl fun ends => by simp [proceed, ends]
  | stopping cancel done client => exact enabled_of_isSome found (by cases cancel <;> rfl)
  | awaiting done client =>
      cases done with
      | none => exact absurd rfl (sound.channels.equipped _ (List.mem_of_getElem? found))
      | some loop => exact sound.enabled_of_awaits found rfl fun ends => by simp [proceed, ends]
  | closingClient client =>
      refine enabled_of_isSome found ?_
      cases client with
      | none => rfl
      | some pool => simp only [proceed]; split <;> rfl
  | awaitingClient loop =>
      exact sound.enabled_of_awaits found rfl fun ends => by simp [proceed, ends]

/-- A call that waits for the mutex can have it, or the one that holds it can go on. -/
theorem Sound.enabled (sound : s.Sound) (found : s.calls[id]? = some pc)
    (unreturned : pc.returned = false) : s.Enabled := by
  by_cases unlocked : pc ≠ .locking ∧ pc ≠ .closing
  · exact sound.enabled_of_unlocked found unreturned unlocked
  cases held : s.initializedMutex with
  | none =>
      have waits : pc = .locking ∨ pc = .closing := by tauto
      refine enabled_of_isSome found ?_
      rcases waits with rfl | rfl
      · cases ready : s.initialized <;> simp [proceed, held, ready]
      · simp [proceed, held]
  | some holder =>
      obtain ⟨holding, isHolder, holds⟩ := (sound.locked.held holder).mp held
      obtain ⟨unreturned, unlocked⟩ := LifePC.busy_of_holds holds
      exact sound.enabled_of_unlocked isHolder unreturned unlocked

/-- **No call waits for ever.** From any state that can be reached, the steps that are no new calls
and no ticks are at most eight for each call and two for each loop; and as long as a call has not
returned, there is one. -/
theorem calls_return (run : Run act anyStep init ls s) (served : Run act moving s more s') :
    more.length ≤ 8 * s.calls.length + 2 * s.loops.length ∧
      ((∀ a s'', moving s' a → s'.act a ≠ some s'') →
        ∀ pc ∈ s'.calls, pc.returned = true) := by
  constructor
  · have steps := served.length_add_work_le fun s a s' allowed taken =>
      (allowed ▸ Moves.of_act taken : s.Moves .step s').toil_lt
    have most : s.toil ≤ 8 * s.calls.length + 2 * s.loops.length := by
      refine Nat.add_le_add (work_le _ (fun pc => ?_) _) (work_le _ (fun found => ?_) _)
      · cases pc <;> simp [LifePC.rank]
      · unfold Loop.rank
        split <;> omega
    omega
  · have sound := (sound_init.run run).run served
    exact forall_done_of_stuck fun id pc found unreturned =>
      sound.enabled found (Bool.not_eq_true _ ▸ unreturned)

theorem calls_return_both : ∃ ls s more s', Run act anyStep init ls s ∧
    Run act moving s more s' ∧ more.length = 6 ∧ (∀ pc ∈ s'.calls, pc.returned = true) ∧
    more.length ≤ 8 * s.calls.length + 2 * s.loops.length := by
  have run : Run act anyStep init [.initLazily, .close]
      { init with calls := [.locking, .closing] } := .of_exec rfl
  obtain ⟨s', served, returned⟩ : ∃ s', Run act moving { init with calls := [.locking, .closing] }
      [.proceed 1, .proceed 0, .prepared 0 Sample.surroundings, .proceed 1,
        .answered 0 Sample.vault, .proceed 1] s' ∧ ∀ pc ∈ s'.calls, pc.returned = true :=
    Run.exists_of_exec (by decide +kernel)
  exact ⟨_, _, _, s', run, served, rfl, returned, (calls_return run served).1⟩

end ExecutorLife

end ConfidentialCompute.Lifecycle
