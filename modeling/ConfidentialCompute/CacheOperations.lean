import ConfidentialCompute.Cache
import ConfidentialCompute.Lib.Arrivals

/-!
# Runs of the TTL cache

The map and the key list of the cache are updated separately. Over any sequence of operations the
list holds the keys of the map, each once, in the order in which they were inserted, and its length
stays within the cap.
-/

namespace ConfidentialCompute

open Go

inductive CacheOp (K V : Type) where
  | set (key : K) (value : V) (ttl : Option Int)
  | getOrSet (key : K) (value : V) (ttl : Option Int)
  | get (key : K)
  | delete (key : K)
  | flush
  | garbageCollect
deriving DecidableEq

namespace Cache

variable {K V : Type} [DecidableEq K]

/-- The cache after an operation, made at a clock reading. -/
def applyOp (c : Cache K V) : Int × CacheOp K V → Cache K V
  | (now, .set key value ttl) => c.set now key value ttl
  | (now, .getOrSet key value ttl) => (c.getOrSet now key value ttl).1
  | (_, .get _) => c
  | (_, .delete key) => c.delete key
  | (_, .flush) => c.flush
  | (now, .garbageCollect) => (c.garbageCollect now).1

def runOps (c : Cache K V) (ops : List (Int × CacheOp K V)) : Cache K V := ops.foldl applyOp c

/-! ## Collection -/

/-- The item of a key, unless it has expired. -/
def liveItem (items : GoMap K (CacheItem V)) (now : Int) (key : K) : Option (CacheItem V) :=
  (items.lookup key).filter fun item => ¬ item.Expired now

/-- The loop of the collection: position `i - 1` is looked at next, and a key that goes is cut out
of the list in place. -/
def collectFrom (now : Int) : Nat → Cache K V × Nat → Cache K V × Nat
  | 0, state => state
  | i + 1, (c, removed) =>
      match c.keyList[i]? with
      | none => (c, removed)
      | some key =>
          match liveItem c.items now key with
          | none =>
              collectFrom now i
                ({ c with items := c.items.erase key, keyList := c.keyList.eraseIdx i }, removed + 1)
          | some _ => collectFrom now i (c, removed)

variable {c : Cache K V} {now : Int} {key : K} {value : V} {ttl : Option Int}

theorem liveItem_eq_some_iff {items : GoMap K (CacheItem V)} {item : CacheItem V} :
    liveItem items now key = some item ↔ items.lookup key = some item ∧ ¬ item.Expired now := by
  rw [liveItem, Option.filter_eq_some_iff, decide_eq_true_eq]

theorem liveItem_eq_none_iff {items : GoMap K (CacheItem V)} :
    liveItem items now key = none ↔
      ∀ item, items.lookup key = some item → item.Expired now := by
  rw [liveItem, Option.filter_eq_none_iff]
  simp

theorem collectKey_eq (acc : List K × GoMap K (CacheItem V) × Nat) :
    collectKey now key acc =
      match liveItem acc.2.1 now key with
      | none => (acc.1, acc.2.1.erase key, acc.2.2 + 1)
      | some _ => (key :: acc.1, acc.2.1, acc.2.2) := by
  unfold collectKey
  cases found : acc.2.1.lookup key with
  | none =>
      have none_ : liveItem acc.2.1 now key = none := liveItem_eq_none_iff.mpr (by simp [found])
      rw [none_]
  | some item =>
      by_cases expired : item.Expired now
      · have none_ : liveItem acc.2.1 now key = none :=
          liveItem_eq_none_iff.mpr (by simp [found, expired])
        rw [none_]
        simp only [if_pos expired]
      · rw [liveItem_eq_some_iff.mpr ⟨found, expired⟩]
        simp only [if_neg expired]

/-- What is left of the keys before position `i` stands in front of what was kept after it. -/
theorem collectFrom_eq (now : Int) (before kept : List K) (c : Cache K V) (removed : Nat)
    (isList : c.keyList = before ++ kept) :
    collectFrom now before.length (c, removed) =
      let (kept, items, removed) := before.foldr (collectKey now) (kept, c.items, removed)
      ({ c with items := items, keyList := kept }, removed) := by
  induction before using List.reverseRecOn generalizing c kept removed with
  | nil =>
      rw [List.nil_append] at isList
      rw [List.length_nil, List.foldr_nil, ← isList]
      rfl
  | append_singleton before key ih =>
      have here : c.keyList[before.length]? = some key := by
        rw [isList, List.append_assoc, List.getElem?_append_right (Nat.le_refl _), Nat.sub_self]
        rfl
      rw [List.length_append, List.length_singleton, collectFrom, here, List.foldr_append,
        List.foldr_cons, List.foldr_nil, collectKey_eq]
      simp only
      cases liveItem c.items now key with
      | none =>
          have cutOut : c.keyList.eraseIdx before.length = before ++ kept := by
            rw [isList, List.append_assoc, List.eraseIdx_append_of_length_le (Nat.le_refl _),
              Nat.sub_self]
            rfl
          exact ih kept _ _ cutOut
      | some item =>
          have stays : c.keyList = before ++ key :: kept := by
            rw [isList, List.append_assoc]
            rfl
          exact ih (key :: kept) c removed stays

/-- The collection is the loop from the last key to the first. -/
theorem garbageCollect_eq_loop (c : Cache K V) (now : Int) :
    c.garbageCollect now = collectFrom now c.keyList.length (c, 0) :=
  (collectFrom_eq now c.keyList [] c 0 (List.append_nil _).symm).symm

/-- Among the collected keys, those with a live item stay, and the others lose theirs. -/
theorem collect_eq (now : Int) (keys : List K) (items : GoMap K (CacheItem V)) :
    (keys.foldr (collectKey now) ([], items, 0)).1 =
        keys.filter (fun key => (liveItem items now key).isSome) ∧
      ∀ key, (keys.foldr (collectKey now) ([], items, 0)).2.1.lookup key =
        if key ∈ keys then liveItem items now key else items.lookup key := by
  induction keys with
  | nil => exact ⟨rfl, fun key => (if_neg List.not_mem_nil).symm⟩
  | cons k keys ih =>
      rcases ih with ⟨kept, found⟩
      rw [List.foldr_cons]
      generalize keys.foldr (collectKey now) ([], items, 0) = acc at kept found ⊢
      have live : liveItem acc.2.1 now k = liveItem items now k := by
        unfold liveItem
        rw [found]
        split
        · unfold liveItem
          rw [Option.filter_filter]
          simp
        · rfl
      rw [collectKey_eq, live]
      cases present : liveItem items now k with
      | none =>
          refine ⟨?_, fun key => ?_⟩
          · simp [present, kept]
          · rw [lookup_erase_eq, found]
            by_cases same : key = k
            · simp [same, present]
            · simp [same]
      | some item =>
          refine ⟨?_, fun key => ?_⟩
          · simp [present, kept]
          · rw [found]
            by_cases same : key = k
            · subst same
              have there : items.lookup key = some item := (liveItem_eq_some_iff.mp present).1
              simp [present, there]
            · simp [same]

theorem keyList_garbageCollect (c : Cache K V) (now : Int) :
    (c.garbageCollect now).1.keyList =
      c.keyList.filter fun key => (liveItem c.items now key).isSome :=
  (collect_eq now c.keyList c.items).1

theorem lookup_garbageCollect_eq (c : Cache K V) (now : Int) (key : K) :
    (c.garbageCollect now).1.items.lookup key =
      if key ∈ c.keyList then liveItem c.items now key else c.items.lookup key :=
  (collect_eq now c.keyList c.items).2 key

/-! ## One operation -/

/-- The list has the keys of the map, each once, and is within the cap. -/
structure WellFormed (c : Cache K V) : Prop where
  nodup : c.keyList.Nodup
  mem_iff : ∀ key, key ∈ c.keyList ↔ key ∈ c.items
  bounded : 0 < c.maxEntries → (c.keyList.length : Int) ≤ c.maxEntries

/-- A new key is stored, and the `n` oldest keys make room for it. -/
structure InsertsNew (c : Cache K V) (key : K) (item : CacheItem V) (n : Nat) (c' : Cache K V) :
    Prop where
  older : n ≤ c.keyList.length
  keyList : c'.keyList = c.keyList.drop n ++ [key]
  lookup : ∀ k, c'.items.lookup k =
    if k = key then some item else if k ∈ c.keyList.take n then none else c.items.lookup k
  /-- Nothing is removed unless the cap was exceeded. -/
  exceeded : n ≠ 0 → 0 < c.maxEntries ∧ c.maxEntries < c.keyList.length + 1
  fits : 0 < c.maxEntries → (c'.keyList.length : Int) ≤ c.maxEntries

theorem lookup_eraseAll_eq (keys : List K) (items : GoMap K (CacheItem V)) (k : K) :
    (keys.foldl (fun m k => m.erase k) items).lookup k =
      if k ∈ keys then none else items.lookup k := by
  induction keys generalizing items with
  | nil => exact (if_neg List.not_mem_nil).symm
  | cons first keys ih =>
      rw [List.foldl_cons, ih, lookup_erase_eq]
      by_cases same : k = first
      · simp [same]
      · simp [same]

theorem keyList_set (room : c.HasRoom key) :
    (c.set now key value ttl).keyList = c.keyListWith key := by
  unfold set setLocked
  simp only
  rw [if_neg]
  rintro ⟨bounded, overflow⟩
  rcases room with unbounded | fits <;> omega

/-- A full cache loses a tenth of its keys and the one too many, never as many as it had. -/
theorem evictCount_le {maxEntries : Int} {len : Nat} (bounded : 0 < maxEntries)
    (full : (len : Int) = maxEntries) :
    0 < evictCount maxEntries (len + 1) ∧ evictCount maxEntries (len + 1) ≤ len := by
  unfold evictCount evictionBatchDivisor
  omega

/-- **Room for a new key** is made by the oldest keys. -/
theorem WellFormed.insertsNew (wf : c.WellFormed) (absent : key ∉ c.items) (now : Int) (value : V)
    (ttl : Option Int) :
    ∃ n, InsertsNew c key ⟨value, now, ttl.getD c.timeToLive⟩ n (c.set now key value ttl) := by
  have longer : c.keyListWith key = c.keyList ++ [key] := if_neg absent
  have unlisted : key ∉ c.keyList := fun among => absent ((wf.mem_iff key).mp among)
  by_cases room : c.HasRoom key
  · refine ⟨0, Nat.zero_le _, ?_, fun k => ?_, fun nonzero => absurd rfl nonzero, fun bounded => ?_⟩
    · rw [keyList_set room, longer, List.drop_zero]
    · rw [lookup_set room, List.take_zero]
      simp
    · rw [keyList_set room]
      rcases room with unbounded | fits
      · omega
      · exact fits
  · rw [HasRoom, longer, List.length_append, List.length_singleton, not_or, Int.not_le,
      Int.not_le] at room
    rcases room with ⟨bounded, overflow⟩
    have atMost := wf.bounded bounded
    have full : (c.keyList.length : Int) = c.maxEntries := by omega
    rcases evictCount_le bounded full with ⟨some_, le⟩
    have evicts : c.set now key value ttl =
        { c with
          items := (c.keyList.take (evictCount c.maxEntries (c.keyList.length + 1))).foldl
            (fun m k => m.erase k) (c.items.insert key ⟨value, now, ttl.getD c.timeToLive⟩)
          keyList := c.keyList.drop (evictCount c.maxEntries (c.keyList.length + 1)) ++ [key] } := by
      unfold set setLocked
      simp only [longer, List.length_append, List.length_singleton]
      rw [if_pos ⟨bounded, overflow⟩, List.take_append_of_le_length le,
        List.drop_append_of_le_length le]
    refine ⟨evictCount c.maxEntries (c.keyList.length + 1), le, ?_, fun k => ?_, fun _ => ?_,
      fun _ => ?_⟩
    · rw [evicts]
    · rw [evicts]
      simp only
      rw [lookup_eraseAll_eq, lookup_insert_eq]
      by_cases same : k = key
      · have kept : key ∉ c.keyList.take (evictCount c.maxEntries (c.keyList.length + 1)) :=
          fun among => unlisted (List.mem_of_mem_take among)
        simp [same, kept]
      · simp [same]
    · exact ⟨bounded, by omega⟩
    · rw [evicts]
      simp only [List.length_append, List.length_drop, List.length_singleton]
      omega

theorem mem_iff_lookup {items : GoMap K (CacheItem V)} {k : K} :
    k ∈ items ↔ ∃ item, items.lookup k = some item := by
  constructor
  · exact fun among => Finmap.mem_iff.mp among
  · exact fun found => Finmap.mem_iff.mpr found

theorem InsertsNew.wellFormed {item : CacheItem V} {n : Nat} {c' : Cache K V} (wf : c.WellFormed)
    (absent : key ∉ c.items) (inserts : InsertsNew c key item n c')
    (cap : c'.maxEntries = c.maxEntries) : c'.WellFormed where
  nodup := by
    have unlisted : key ∉ c.keyList.drop n := fun among =>
      absent ((wf.mem_iff key).mp (List.mem_of_mem_drop among))
    rw [inserts.keyList, ← List.concat_eq_append]
    exact (wf.nodup.sublist (List.drop_sublist n _)).concat unlisted
  mem_iff k := by
    have parts : c.keyList.Nodup := wf.nodup
    rw [← List.take_append_drop n c.keyList] at parts
    have apart := (List.nodup_append.mp parts).2.2
    have whole : k ∈ c.keyList ↔ k ∈ c.keyList.take n ∨ k ∈ c.keyList.drop n := by
      rw [← List.mem_append, List.take_append_drop]
    rw [inserts.keyList, List.mem_append, List.mem_singleton, mem_iff_lookup, inserts.lookup]
    by_cases same : k = key
    · simp [same]
    · by_cases evicted : k ∈ c.keyList.take n
      · have gone : k ∉ c.keyList.drop n := fun among => apart k evicted k among rfl
        simp [same, evicted, gone]
      · simp only [same, evicted, if_false, or_false, ← mem_iff_lookup]
        rw [← wf.mem_iff, whole]
        simp [evicted]
  bounded bounded := by
    rw [cap] at bounded ⊢
    exact inserts.fits bounded

theorem WellFormed.set_present (wf : c.WellFormed) (present : key ∈ c.items) (now : Int) (value : V)
    (ttl : Option Int) :
    (c.set now key value ttl).keyList = c.keyList ∧ (c.set now key value ttl).WellFormed := by
  have same : c.keyListWith key = c.keyList := if_pos present
  have room : c.HasRoom key := by
    rw [HasRoom, same]
    rcases Int.lt_or_le 0 c.maxEntries with bounded | unbounded
    · exact Or.inr (wf.bounded bounded)
    · exact Or.inl unbounded
  have keys : (c.set now key value ttl).keyList = c.keyList := by rw [keyList_set room, same]
  refine ⟨keys, ?_, fun k => ?_, fun bounded => ?_⟩
  · rw [keys]
    exact wf.nodup
  · rw [keys, items_set room, Finmap.mem_insert, wf.mem_iff]
    constructor
    · exact Or.inr
    · rintro (rfl | among)
      · exact present
      · exact among
  · rw [keys, maxEntries_set] at *
    exact wf.bounded bounded

/-- What one operation does to map and list. -/
structure Keeps (c c' : Cache K V) : Prop where
  wellFormed : c'.WellFormed
  change : Arrivals.Change c.keyList c'.keyList

omit [DecidableEq K] in
theorem WellFormed.keeps_refl (wf : c.WellFormed) : c.Keeps c :=
  ⟨wf, .left (List.Sublist.refl _)⟩

theorem WellFormed.set (wf : c.WellFormed) : c.Keeps (c.set now key value ttl) := by
  by_cases present : key ∈ c.items
  · rcases wf.set_present present now value ttl with ⟨keys, wf'⟩
    refine ⟨wf', ?_⟩
    rw [keys]
    exact .left (List.Sublist.refl _)
  · rcases wf.insertsNew present now value ttl with ⟨n, inserts⟩
    refine ⟨inserts.wellFormed wf present maxEntries_set, ?_⟩
    rw [inserts.keyList]
    exact .joined (List.drop_sublist n _) fun among => present ((wf.mem_iff key).mp among)

theorem WellFormed.delete (wf : c.WellFormed) : c.Keeps (c.delete key) where
  wellFormed :=
    { nodup := wf.nodup.erase key
      mem_iff := fun k => by
        show k ∈ c.keyList.erase key ↔ k ∈ c.items.erase key
        rw [wf.nodup.mem_erase_iff, Finmap.mem_erase, wf.mem_iff]
      bounded := fun bounded => by
        have le := wf.bounded bounded
        have shorter : (c.keyList.erase key).length ≤ c.keyList.length :=
          (List.erase_sublist).length_le
        show ((c.keyList.erase key).length : Int) ≤ c.maxEntries
        omega }
  change := .left List.erase_sublist

omit [DecidableEq K] in
theorem keeps_flush (c : Cache K V) : c.Keeps c.flush where
  wellFormed :=
    { nodup := List.nodup_nil
      mem_iff := fun _ => iff_of_false List.not_mem_nil Finmap.notMem_empty
      bounded := fun bounded => Int.le_of_lt bounded }
  change := .left (List.nil_sublist _)

theorem WellFormed.garbageCollect (wf : c.WellFormed) : c.Keeps (c.garbageCollect now).1 := by
  have keys := keyList_garbageCollect c now
  have fewer : (c.garbageCollect now).1.keyList.Sublist c.keyList := by
    rw [keys]
    exact List.filter_sublist
  refine ⟨⟨wf.nodup.sublist fewer, fun k => ?_, fun bounded => ?_⟩, .left fewer⟩
  · rw [keys, List.mem_filter, mem_iff_lookup, lookup_garbageCollect_eq, ← Option.isSome_iff_exists]
    by_cases listed : k ∈ c.keyList
    · simp [listed]
    · have unmapped : c.items.lookup k = none := by
        rw [Finmap.lookup_eq_none, ← wf.mem_iff]
        exact listed
      simp [listed, unmapped]
  · have le := wf.bounded bounded
    have shorter := fewer.length_le
    rw [maxEntries_garbageCollect]
    omega

theorem getOrSet_cases (c : Cache K V) (now : Int) (key : K) (value : V) (ttl : Option Int) :
    (c.getOrSet now key value ttl).1 = c ∨
      (c.get now key = none ∧ (c.getOrSet now key value ttl).1 = c.set now key value ttl) := by
  unfold getOrSet
  cases found : c.get now key with
  | none => exact Or.inr ⟨rfl, rfl⟩
  | some present => exact Or.inl rfl

/-- **One operation.** -/
theorem WellFormed.applyOp (wf : c.WellFormed) (op : Int × CacheOp K V) :
    c.Keeps (c.applyOp op) := by
  rcases op with ⟨now, op⟩
  cases op with
  | set key value ttl => exact wf.set
  | getOrSet key value ttl =>
      show c.Keeps (c.getOrSet now key value ttl).1
      rcases getOrSet_cases c now key value ttl with same | ⟨_, sets⟩
      · rw [same]
        exact wf.keeps_refl
      · rw [sets]
        exact wf.set
  | get key => exact wf.keeps_refl
  | delete key => exact wf.delete
  | flush => exact keeps_flush c
  | garbageCollect => exact wf.garbageCollect

theorem size_eq_length (wf : c.WellFormed) : c.size = c.keyList.length := by
  have keys : c.items.keys = c.keyList.toFinset := by
    ext k
    rw [Finmap.mem_keys, List.mem_toFinset, wf.mem_iff]
  rw [size, keys, List.toFinset_card_of_nodup wf.nodup]

theorem getOrSet_absent (absent : key ∉ c.items) :
    (c.getOrSet now key value ttl).1 = c.set now key value ttl := by
  have unmapped : c.items.lookup key = none := Finmap.lookup_eq_none.mpr absent
  have missing : c.get now key = none := by rw [get, unmapped]
  rw [getOrSet, missing]
  rfl

/-! ## All runs -/

/-- What is the same before and after a `Set`, a deletion, a flush and a collection is the same
before and after every operation. -/
theorem applyOp_keeps {α : Type} (field : Cache K V → α)
    (set : ∀ now key value ttl, field (c.set now key value ttl) = field c)
    (delete : ∀ key, field (c.delete key) = field c) (flush : field c.flush = field c)
    (collect : ∀ now, field (c.garbageCollect now).1 = field c) (op : Int × CacheOp K V) :
    field (c.applyOp op) = field c := by
  rcases op with ⟨now, op⟩
  cases op with
  | set key value ttl => exact set now key value ttl
  | getOrSet key value ttl =>
      show field (c.getOrSet now key value ttl).1 = field c
      rcases getOrSet_cases c now key value ttl with same | ⟨_, sets⟩
      · rw [same]
      · rw [sets, set]
  | get key => rfl
  | delete key => exact delete key
  | flush => exact flush
  | garbageCollect => exact collect now

@[simp] theorem maxEntries_applyOp (c : Cache K V) (op : Int × CacheOp K V) :
    (c.applyOp op).maxEntries = c.maxEntries :=
  applyOp_keeps Cache.maxEntries (fun _ _ _ _ => maxEntries_set) (fun _ => rfl) rfl (fun _ => rfl)
    op

@[simp] theorem timeToLive_applyOp (c : Cache K V) (op : Int × CacheOp K V) :
    (c.applyOp op).timeToLive = c.timeToLive :=
  applyOp_keeps Cache.timeToLive (fun _ _ _ _ => timeToLive_set) (fun _ => rfl) rfl (fun _ => rfl)
    op

theorem runOps_concat (c : Cache K V) (ops : List (Int × CacheOp K V)) (op : Int × CacheOp K V) :
    c.runOps (ops ++ [op]) = (c.runOps ops).applyOp op := by
  rw [runOps, List.foldl_append]
  rfl

/-- One more operation of a sequence, or none if it is over. -/
theorem runOps_take_succ (c : Cache K V) (ops : List (Int × CacheOp K V)) (i : Nat) :
    c.runOps (ops.take (i + 1)) = c.runOps (ops.take i) ∨
      ∃ op, c.runOps (ops.take (i + 1)) = (c.runOps (ops.take i)).applyOp op := by
  rw [List.take_add_one]
  cases ops[i]? with
  | none => exact Or.inl (by rw [Option.toList_none, List.append_nil])
  | some op => exact Or.inr ⟨op, runOps_concat c _ op⟩

theorem WellFormed.runOps (wf : c.WellFormed) (ops : List (Int × CacheOp K V)) :
    (c.runOps ops).WellFormed ∧ (c.runOps ops).maxEntries = c.maxEntries := by
  induction ops generalizing c with
  | nil => exact ⟨wf, rfl⟩
  | cons op ops ih =>
      rcases ih (wf.applyOp op).wellFormed with ⟨wf', cap⟩
      exact ⟨wf', cap.trans (maxEntries_applyOp c op)⟩

omit [DecidableEq K] in
theorem wellFormed_newBoundedCache (ttl maxEntries : Int) :
    (newBoundedCache ttl maxEntries : Cache K V).WellFormed where
  nodup := List.nodup_nil
  mem_iff _ := iff_of_false List.not_mem_nil Finmap.notMem_empty
  bounded bounded := Int.le_of_lt bounded

end Cache

open Cache

/-- **Representation and bounded eviction.** After any sequence of operations the key list has no
repeats, holds exactly the keys of the map and is ordered by insertion, where a key counts from its
first insertion after it was last removed; a cap is kept; and a new key makes only the oldest keys
leave, none if there is room, and is not itself removed. -/
theorem cache_representation {K V : Type} [DecidableEq K] (ttl maxEntries : Int)
    (ops : List (Int × CacheOp K V)) :
    let states := fun i => (newBoundedCache ttl maxEntries).runOps (ops.take i)
    let c := (newBoundedCache ttl maxEntries).runOps ops
    (c.keyList.Nodup ∧ (∀ key, key ∈ c.keyList ↔ key ∈ c.items) ∧
      Arrivals.Ordered (fun i key => key ∈ (states i).items) ops.length c.keyList) ∧
    (0 < maxEntries → (c.size : Int) ≤ maxEntries) ∧
    ∀ now key value ttl, key ∉ c.items →
      (∃ n, InsertsNew c key ⟨value, now, ttl.getD c.timeToLive⟩ n (c.set now key value ttl)) ∧
      ∃ n, InsertsNew c key ⟨value, now, ttl.getD c.timeToLive⟩ n
        (c.getOrSet now key value ttl).1 := by
  intro states c
  have start : (newBoundedCache ttl maxEntries : Cache K V).WellFormed :=
    wellFormed_newBoundedCache ttl maxEntries
  rcases start.runOps ops with ⟨wf, cap⟩
  have ordered : Arrivals.Ordered (fun i key => key ∈ (states i).items) ops.length c.keyList := by
    have changes : ∀ i, Arrivals.Change (states i).keyList (states (i + 1)).keyList := by
      intro i
      rcases runOps_take_succ (newBoundedCache ttl maxEntries) ops i with same | ⟨op, next⟩
      · simp only [states, same]
        exact .left (List.Sublist.refl _)
      · simp only [states, next]
        exact ((start.runOps (ops.take i)).1.applyOp op).change
    have members : ∀ i key, key ∈ (states i).keyList ↔ key ∈ (states i).items := fun i =>
      (start.runOps (ops.take i)).1.mem_iff
    have all := Arrivals.ordered_of_changes (fun i => (states i).keyList) rfl changes members
      ops.length
    simp only [states, List.take_length] at all
    exact all
  refine ⟨⟨wf.nodup, wf.mem_iff, ordered⟩, fun bounded => ?_, fun now key value ttl absent => ?_⟩
  · have isCap : c.maxEntries = maxEntries := cap
    have within : (c.keyList.length : Int) ≤ c.maxEntries := wf.bounded (by rw [cap]; exact bounded)
    rw [size_eq_length wf]
    exact within.trans (Int.le_of_eq isCap)
  · rw [getOrSet_absent absent]
    exact ⟨wf.insertsNew absent now value ttl, wf.insertsNew absent now value ttl⟩


end ConfidentialCompute
