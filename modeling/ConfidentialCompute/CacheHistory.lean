import ConfidentialCompute.CacheOperations
import ConfidentialCompute.Lib.Runs

/-!
# What a cache remembers

The purpose of the cache, without map, list or collector: under a key there is what was last
written, until it is deleted or flushed or its time is over. An unbounded cache refines that, with
collections at any points of the run, so the answers of a run do not tell whether and when the
collector ran.
-/

namespace ConfidentialCompute

open Go

variable {K V : Type} [DecidableEq K]

/-- What a reader is told. -/
inductive CacheAnswer (V : Type) where
  | got (value : Option V)
  | gotOrSet (value : V) (loaded : Bool)
deriving DecidableEq

def Cache.answer (c : Cache K V) : Int × CacheOp K V → Option (CacheAnswer V)
  | (now, .get key) => some (.got (c.get now key))
  | (now, .getOrSet key value ttl) =>
      let (_, present, loaded) := c.getOrSet now key value ttl
      some (.gotOrSet present loaded)
  | _ => none

/-- The answers of a sequence of operations, in order. -/
def Cache.answers : Cache K V → List (Int × CacheOp K V) → List (CacheAnswer V)
  | _, [] => []
  | c, op :: ops => (c.answer op).toList ++ (c.applyOp op).answers ops

/-! ## The abstract cache -/

/-- The item last written under each key. -/
abbrev Written (K V : Type) := K → Option (CacheItem V)

namespace Written

/-- The value that is present, unless its time is over. -/
def live (w : Written K V) (now : Int) (key : K) : Option V :=
  ((w key).filter fun item => ¬ item.Expired now).map CacheItem.value

/-- An operation, where `ttl` is the default time to live. Collections do nothing. -/
def next (ttl : Int) (w : Written K V) : Int × CacheOp K V → Written K V
  | (now, .set key value itemTTL) =>
      Function.update w key (some ⟨value, now, itemTTL.getD ttl⟩)
  | (now, .getOrSet key value itemTTL) =>
      match w.live now key with
      | some _ => w
      | none => Function.update w key (some ⟨value, now, itemTTL.getD ttl⟩)
  | (_, .get _) => w
  | (_, .delete key) => Function.update w key none
  | (_, .flush) => fun _ => none
  | (_, .garbageCollect) => w

def answer (w : Written K V) : Int × CacheOp K V → Option (CacheAnswer V)
  | (now, .get key) => some (.got (w.live now key))
  | (now, .getOrSet key value _) =>
      match w.live now key with
      | some present => some (.gotOrSet present true)
      | none => some (.gotOrSet value false)
  | _ => none

def answers (ttl : Int) : Written K V → List (Int × CacheOp K V) → List (CacheAnswer V)
  | _, [] => []
  | w, op :: ops => (w.answer op).toList ++ answers ttl (w.next ttl op) ops

end Written

/-- The abstract cache after a history. -/
def written (ttl : Int) (ops : List (Int × CacheOp K V)) : Written K V :=
  ops.foldl (Written.next ttl) fun _ => none

/-! ## Refinement -/

/-- Under each key the cache has the item last written, or has dropped it as expired. -/
structure Refines (c : Cache K V) (w : Written K V) (now : Int) : Prop where
  unbounded : c.maxEntries ≤ 0
  found : ∀ key, c.items.lookup key = w key ∨
    (c.items.lookup key = none ∧ ∃ item, w key = some item ∧ item.Expired now)

section

variable {c : Cache K V} {w : Written K V} {now later : Int}

omit [DecidableEq K] in
theorem Written.live_eq_some_iff {key : K} {value : V} :
    w.live now key = some value ↔ ∃ item, w key = some item ∧ ¬ item.Expired now ∧
      item.value = value := by
  unfold Written.live
  simp [Option.filter_eq_some_iff, and_assoc]

theorem Refines.mono (refines : Refines c w now) (le : now ≤ later) : Refines c w later where
  unbounded := refines.unbounded
  found key := by
    rcases refines.found key with same | ⟨missing, item, isItem, expired⟩
    · exact Or.inl same
    · exact Or.inr ⟨missing, item, isItem, expired.mono le⟩

theorem Refines.get_eq (refines : Refines c w now) (key : K) : c.get now key = w.live now key := by
  apply Option.ext
  intro value
  rw [Cache.get_eq_some_iff, Written.live_eq_some_iff]
  rcases refines.found key with same | ⟨missing, item, isItem, expired⟩
  · rw [same]
  · rw [missing, isItem]
    constructor
    · rintro ⟨_, absurd_, _⟩
      cases absurd_
    · rintro ⟨_, same, unexpired, _⟩
      cases same
      exact absurd expired unexpired

theorem Refines.answer_eq (refines : Refines c w now) (op : CacheOp K V) :
    c.answer (now, op) = w.answer (now, op) := by
  cases op with
  | get key =>
      simp only [Cache.answer, Written.answer]
      rw [refines.get_eq]
  | getOrSet key value ttl =>
      simp only [Cache.answer, Written.answer, Cache.getOrSet]
      rw [refines.get_eq]
      cases w.live now key with
      | none => rfl
      | some present => rfl
  | set key value ttl => rfl
  | delete key => rfl
  | flush => rfl
  | garbageCollect => rfl

theorem Refines.set (refines : Refines c w now) (key : K) (value : V) (ttl : Option Int) :
    Refines (c.set now key value ttl)
      (Function.update w key (some ⟨value, now, ttl.getD c.timeToLive⟩)) now where
  unbounded := by
    rw [Cache.maxEntries_set]
    exact refines.unbounded
  found key' := by
    rw [Cache.lookup_set (.of_unbounded refines.unbounded)]
    by_cases same : key' = key
    · subst same
      simp
    · rw [if_neg same, Function.update_of_ne same]
      exact refines.found key'

theorem Refines.delete (refines : Refines c w now) (key : K) :
    Refines (c.delete key) (Function.update w key none) now where
  unbounded := refines.unbounded
  found key' := by
    rw [Cache.lookup_delete]
    by_cases same : key' = key
    · subst same
      simp
    · rw [if_neg same, Function.update_of_ne same]
      exact refines.found key'

theorem Refines.flush (refines : Refines c w now) : Refines c.flush (fun _ => none) now where
  unbounded := refines.unbounded
  found key := Or.inl (Finmap.lookup_empty key)

/-- A collection drops what has expired, and nothing else. -/
theorem Refines.garbageCollect (refines : Refines c w now) :
    Refines (c.garbageCollect now).1 w now where
  unbounded := refines.unbounded
  found key := by
    rcases Cache.lookup_garbageCollect c now key with kept | ⟨gone, item, isItem, expired⟩
    · rw [kept]
      exact refines.found key
    · rcases refines.found key with same | ⟨missing, _⟩
      · exact Or.inr ⟨gone, item, by rw [← same, isItem], expired⟩
      · rw [missing] at isItem
        cases isItem

/-- **One operation.** -/
theorem Refines.applyOp (refines : Refines c w now) (op : CacheOp K V) :
    Refines (c.applyOp (now, op)) (w.next c.timeToLive (now, op)) now := by
  cases op with
  | set key value ttl => exact refines.set key value ttl
  | getOrSet key value ttl =>
      simp only [Cache.applyOp, Written.next, Cache.getOrSet]
      rw [refines.get_eq]
      cases w.live now key with
      | none => exact refines.set key value ttl
      | some present => exact refines
  | get key => exact refines
  | delete key => exact refines.delete key
  | flush => exact refines.flush
  | garbageCollect => exact refines.garbageCollect

end

/-! ## Histories -/

/-- Each operation is made at the time of the one before or later. -/
def InTime (ops : List (Int × CacheOp K V)) : Prop := ops.Pairwise fun first second =>
  first.1 ≤ second.1

section

variable {c : Cache K V} {w : Written K V} {start : Int} {ops : List (Int × CacheOp K V)}

/-- **The same answers.** -/
theorem Refines.answers_eq (refines : Refines c w start) (inTime : InTime ops)
    (after : ∀ op ∈ ops, start ≤ op.1) : c.answers ops = w.answers c.timeToLive ops := by
  induction ops generalizing c w start with
  | nil => rfl
  | cons op ops ih =>
      rcases op with ⟨now, op⟩
      have refines' := refines.mono (after _ List.mem_cons_self)
      have rest := ih (refines'.applyOp op) (List.pairwise_cons.mp inTime).2
        (List.pairwise_cons.mp inTime).1
      rw [Cache.timeToLive_applyOp] at rest
      rw [Cache.answers, Written.answers, refines'.answer_eq, rest]

theorem Refines.runOps (refines : Refines c w start) (inTime : InTime ops)
    (after : ∀ op ∈ ops, start ≤ op.1) {now : Int} (le : start ≤ now)
    (before : ∀ op ∈ ops, op.1 ≤ now) :
    Refines (c.runOps ops) (ops.foldl (Written.next c.timeToLive) w) now := by
  induction ops generalizing c w start with
  | nil => exact refines.mono le
  | cons op ops ih =>
      rcases op with ⟨time, op⟩
      have refines' := refines.mono (after _ List.mem_cons_self)
      have rest := ih (refines'.applyOp op) (List.pairwise_cons.mp inTime).2
        (List.pairwise_cons.mp inTime).1 (before _ List.mem_cons_self)
        fun later among => before later (List.mem_cons_of_mem _ among)
      rw [Cache.timeToLive_applyOp] at rest
      exact rest

end

def CacheOp.isCollection : CacheOp K V → Bool
  | .garbageCollect => true
  | _ => false

omit [DecidableEq K] in
theorem CacheOp.eq_garbageCollect {op : CacheOp K V} (collects : op.isCollection = true) :
    op = .garbageCollect := by
  cases op with
  | garbageCollect => rfl
  | _ => cases collects

/-- To the abstract cache collections do not matter. -/
theorem Written.answers_filter (ttl : Int) (w : Written K V) (ops : List (Int × CacheOp K V)) :
    w.answers ttl (ops.filter fun op => !op.2.isCollection) = w.answers ttl ops := by
  induction ops generalizing w with
  | nil => rfl
  | cons op ops ih =>
      rcases op with ⟨now, op⟩
      by_cases collects : op.isCollection = true
      · cases CacheOp.eq_garbageCollect collects
        exact ih w
      · rw [List.filter_cons_of_pos (by simpa using collects), Written.answers, Written.answers, ih]

/-! ## The last write -/

/-- The operation stores `item` under `key`, where `w` is what is there before it. -/
def Writes (ttl : Int) (w : Written K V) (key : K) (item : CacheItem V) :
    Int × CacheOp K V → Prop
  | (now, .set key' value itemTTL) => key' = key ∧ item = ⟨value, now, itemTTL.getD ttl⟩
  | (now, .getOrSet key' value itemTTL) =>
      key' = key ∧ w.live now key = none ∧ item = ⟨value, now, itemTTL.getD ttl⟩
  | _ => False

/-- The operation removes what is under `key`. -/
def Clears (key : K) : Int × CacheOp K V → Prop
  | (_, .delete key') => key' = key
  | (_, .flush) => True
  | _ => False

/-- The operation leaves alone what is under `key`. -/
def SparesKey (ttl : Int) (w : Written K V) (key : K) (op : Int × CacheOp K V) : Prop :=
  ¬ Clears key op ∧ ∀ item, ¬ Writes ttl w key item op

/-- `item` is what the last write to `key` stored, and no `Delete` or `Flush` followed it. -/
def LastWrite (ttl : Int) (ops : List (Int × CacheOp K V)) (key : K) (item : CacheItem V) : Prop :=
  ∃ before op after, ops = before ++ op :: after ∧ Writes ttl (written ttl before) key item op ∧
    ∀ between later rest, after = between ++ later :: rest →
      SparesKey ttl (written ttl (before ++ op :: between)) key later

section

variable {ttl : Int} {w : Written K V} {key : K} {item : CacheItem V}
  {ops : List (Int × CacheOp K V)} {op : Int × CacheOp K V}

theorem next_of_writes (writes : Writes ttl w key item op) : w.next ttl op key = some item := by
  rcases op with ⟨now, op⟩
  cases op with
  | set key' value itemTTL =>
      rcases writes with ⟨rfl, rfl⟩
      exact Function.update_self _ _ _
  | getOrSet key' value itemTTL =>
      rcases writes with ⟨rfl, missing, rfl⟩
      simp only [Written.next, missing]
      exact Function.update_self _ _ _
  | get _ => exact writes.elim
  | delete _ => exact writes.elim
  | flush => exact writes.elim
  | garbageCollect => exact writes.elim

theorem next_of_clears (clears : Clears key op) : w.next ttl op key = none := by
  rcases op with ⟨now, op⟩
  cases op with
  | delete key' =>
      cases clears
      exact Function.update_self _ _ _
  | flush => rfl
  | set _ _ _ => exact clears.elim
  | getOrSet _ _ _ => exact clears.elim
  | get _ => exact clears.elim
  | garbageCollect => exact clears.elim

theorem next_of_sparesKey (spares : SparesKey ttl w key op) : w.next ttl op key = w key := by
  rcases spares with ⟨keeps, writesNot⟩
  rcases op with ⟨now, op⟩
  cases op with
  | set key' value itemTTL =>
      have other : key ≠ key' := fun same => writesNot _ ⟨same.symm, rfl⟩
      exact Function.update_of_ne other _ _
  | getOrSet key' value itemTTL =>
      simp only [Written.next]
      cases present : w.live now key' with
      | some _ => rfl
      | none =>
          have other : key ≠ key' := by
            rintro rfl
            exact writesNot _ ⟨rfl, present, rfl⟩
          exact Function.update_of_ne other _ _
  | delete key' =>
      have other : key ≠ key' := fun same => keeps same.symm
      exact Function.update_of_ne other _ _
  | flush => exact absurd trivial keeps
  | get _ => rfl
  | garbageCollect => rfl

theorem written_concat : written ttl (ops ++ [op]) = (written ttl ops).next ttl op := by
  rw [written, List.foldl_append]
  rfl

/-- What holds of every member of a list and what stands before it, with one more member. -/
theorem forall_split_concat {α : Type} {P : List α → α → Prop} {as : List α} {last : α} :
    (∀ before a after, as ++ [last] = before ++ a :: after → P before a) ↔
      (∀ before a after, as = before ++ a :: after → P before a) ∧ P as last := by
  constructor
  · intro all
    refine ⟨fun before a after split => all before a (after ++ [last]) ?_, all as last [] rfl⟩
    rw [split, List.append_assoc]
    rfl
  · rintro ⟨all, isLast⟩ before a after split
    rcases Runs.concat_eq_append_cons_iff.mp split with ⟨rfl, rfl, _⟩ | ⟨rest, _, earlier⟩
    · exact isLast
    · exact all before a rest earlier

/-- The last write of a longer history is the operation just made, or it was the last one before
and the operation spares it. -/
theorem lastWrite_concat :
    LastWrite ttl (ops ++ [op]) key item ↔
      Writes ttl (written ttl ops) key item op ∨
        (LastWrite ttl ops key item ∧ SparesKey ttl (written ttl ops) key op) := by
  constructor
  · rintro ⟨before, write, after, split, writes, spared⟩
    rcases Runs.concat_eq_append_cons_iff.mp split with ⟨rfl, rfl, _⟩ | ⟨after, rfl, rfl⟩
    · exact Or.inl writes
    · rcases forall_split_concat.mp spared with ⟨spared, last⟩
      exact Or.inr ⟨⟨before, write, after, rfl, writes, spared⟩, last⟩
  · rintro (writes | ⟨⟨before, write, after, rfl, writes, spared⟩, last⟩)
    · exact ⟨ops, op, [], rfl, writes, fun between later rest split => by simp at split⟩
    · refine ⟨before, write, after ++ [op], ?_, writes, ?_⟩
      · rw [List.append_assoc, List.cons_append]
      · exact forall_split_concat.mpr ⟨spared, last⟩

/-- **The abstract cache holds the last write.** -/
theorem written_eq_some_iff : written ttl ops key = some item ↔ LastWrite ttl ops key item := by
  induction ops using List.reverseRecOn generalizing item with
  | nil =>
      refine iff_of_false nofun ?_
      rintro ⟨before, op, after, split, _⟩
      simp at split
  | append_singleton ops op ih =>
      rw [written_concat, lastWrite_concat, ← ih]
      by_cases clears : Clears key op
      · rw [next_of_clears clears]
        refine iff_of_false nofun ?_
        rintro (writes | ⟨_, keeps, _⟩)
        · have stored := next_of_writes writes
          rw [next_of_clears clears] at stored
          cases stored
        · exact keeps clears
      · by_cases writes : ∃ item', Writes ttl (written ttl ops) key item' op
        · rcases writes with ⟨item', writes⟩
          have stored := next_of_writes writes
          rw [stored]
          constructor
          · intro same
            cases same
            exact Or.inl writes
          · rintro (writes' | ⟨_, _, none_⟩)
            · exact stored.symm.trans (next_of_writes writes')
            · exact absurd writes (none_ item')
        · have none_ : ∀ item', ¬ Writes ttl (written ttl ops) key item' op :=
            fun item' writes' => writes ⟨item', writes'⟩
          rw [next_of_sparesKey ⟨clears, none_⟩]
          constructor
          · exact fun found => Or.inr ⟨found, clears, none_⟩
          · rintro (writes' | ⟨found, _⟩)
            · exact absurd writes' (none_ item)
            · exact found

end

omit [DecidableEq K] in
theorem InTime.filter {ops : List (Int × CacheOp K V)} (inTime : InTime ops)
    (p : Int × CacheOp K V → Bool) : InTime (ops.filter p) :=
  List.Pairwise.sublist List.filter_sublist inTime

/-- A new cache refines the abstract one to which nothing was written. -/
theorem refines_newBoundedCache {ttl maxEntries : Int} (unbounded : maxEntries ≤ 0) (start : Int) :
    Refines (Cache.newBoundedCache ttl maxEntries : Cache K V) (fun _ => none) start where
  unbounded := unbounded
  found key := Or.inl (Finmap.lookup_empty key)

omit [DecidableEq K] in
theorem InTime.exists_start {ops : List (Int × CacheOp K V)} (inTime : InTime ops) :
    ∃ start, ∀ op ∈ ops, start ≤ op.1 := by
  cases ops with
  | nil => exact ⟨0, fun _ among => absurd among List.not_mem_nil⟩
  | cons first rest =>
      refine ⟨first.1, fun op among => ?_⟩
      rcases List.mem_cons.mp among with rfl | among
      · exact Int.le_refl _
      · exact (List.pairwise_cons.mp inTime).1 op among

/-- **Collections do not show.** A run of an unbounded cache gives the same answers without its
collections, and every `Get` returns what the last write to its key stored that no `Delete` or
`Flush` followed, if that is not longer ago than its time to live. -/
theorem garbage_collection_invisible {K V : Type} [DecidableEq K] (ttl maxEntries : Int)
    (unbounded : maxEntries ≤ 0) (ops : List (Int × CacheOp K V)) (inTime : InTime ops) :
    (Cache.newBoundedCache ttl maxEntries).answers ops =
      (Cache.newBoundedCache ttl maxEntries).answers
        (ops.filter fun op => !op.2.isCollection) ∧
    ∀ before now key after, ops = before ++ (now, .get key) :: after →
      ∀ value, ((Cache.newBoundedCache ttl maxEntries).runOps before).get now key = some value ↔
        ∃ item, LastWrite ttl before key item ∧ item.value = value ∧
          now - item.creationTime ≤ item.timeToLive := by
  rcases inTime.exists_start with ⟨start, after⟩
  have refines : Refines (Cache.newBoundedCache ttl maxEntries : Cache K V) (fun _ => none) start :=
    refines_newBoundedCache unbounded start
  refine ⟨?_, fun before now key later split value => ?_⟩
  · have plain := refines.answers_eq (inTime.filter fun op => !op.2.isCollection)
      fun op among => after op (List.mem_of_mem_filter among)
    rw [refines.answers_eq inTime after, plain, Written.answers_filter]
  · subst split
    rcases List.pairwise_append.mp inTime with ⟨inTime', _, order⟩
    have early : ∀ op ∈ before, op.1 ≤ now := fun op among => order op among _ List.mem_cons_self
    have begun : start ≤ now := after _ (List.mem_append_right _ List.mem_cons_self)
    have refines' := refines.runOps inTime'
      (fun op among => after op (List.mem_append_left _ among)) begun early
    rw [refines'.get_eq, Written.live_eq_some_iff]
    constructor
    · rintro ⟨item, found, unexpired, isValue⟩
      exact ⟨item, written_eq_some_iff.mp found, isValue, Int.not_lt.mp unexpired⟩
    · rintro ⟨item, last, isValue, inside⟩
      exact ⟨item, written_eq_some_iff.mpr last, Int.not_lt.mpr inside, isValue⟩

namespace Sample

/-- A value expires, is collected, and is replaced by a `GetOrSet`. -/
def cacheOps : List (Int × CacheOp Nat Nat) :=
  [(0, .set 1 10 (some 5)), (3, .get 1), (6, .garbageCollect), (6, .getOrSet 1 11 none)]

def cacheRun : List (Int × CacheOp Nat Nat) := cacheOps ++ [(12, .get 1)]

end Sample

theorem garbage_collection_invisible_one_expiry :
    (Cache.newBoundedCache 7 0).answers Sample.cacheRun =
      (Cache.newBoundedCache 7 0).answers
        (Sample.cacheRun.filter fun op => !op.2.isCollection) ∧
    (Cache.newBoundedCache 7 0).answers Sample.cacheRun =
      [.got (some 10), .gotOrSet 11 false, .got (some 11)] ∧
    ∃ item, LastWrite 7 Sample.cacheOps 1 item ∧ item.value = 11 ∧
      12 - item.creationTime ≤ item.timeToLive := by
  have inTime : InTime Sample.cacheRun := by
    unfold InTime
    decide
  rcases garbage_collection_invisible 7 0 (Int.le_refl 0) _ inTime with ⟨same, gets⟩
  refine ⟨same, by decide +kernel, ?_⟩
  exact (gets Sample.cacheOps 12 1 [] rfl 11).mp (by decide +kernel)

end ConfidentialCompute
