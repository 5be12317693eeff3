import ConfidentialCompute.Lib.Go

/-!
# The TTL cache

`util/cache.go`: a map from keys to values with a creation time and a time to live
each, next to the list of its keys in order of insertion. Every method runs under the
cache's own mutex and is one atomic operation; the clock reading it makes is an
argument. `garbageCollect` is the body of the background ticker.

What later modules use of it are the lemmas on `items.lookup`: a `set` that evicts
nothing changes one key (`lookup_set`), and a collection removes only what every later
`get` would have skipped (`lookup_garbageCollect`, `get_garbageCollect`).
-/

namespace ConfidentialCompute

open Go

structure CacheItem (V : Type) where
  value : V
  creationTime : Int
  timeToLive : Int
deriving DecidableEq

/-- `time.Since(item.CreationTime) > item.TimeToLive` at the clock reading `now`. -/
def CacheItem.Expired {V : Type} (item : CacheItem V) (now : Int) : Prop :=
  item.timeToLive < now - item.creationTime

instance {V : Type} (item : CacheItem V) (now : Int) : Decidable (item.Expired now) :=
  inferInstanceAs (Decidable (_ < _))

theorem CacheItem.Expired.mono {V : Type} {item : CacheItem V} {now later : Int}
    (expired : item.Expired now) (le : now ≤ later) : item.Expired later := by
  unfold CacheItem.Expired at *
  omega

/-- `maxEntries ≤ 0` means unbounded. -/
structure Cache (K V : Type) where
  items : GoMap K (CacheItem V)
  keyList : List K
  timeToLive : Int
  maxEntries : Int

def evictionBatchDivisor : Int := 10

namespace Cache

variable {K V : Type} [DecidableEq K]

def newBoundedCache (ttl : Int) (maxEntries : Int) : Cache K V :=
  ⟨∅, [], ttl, maxEntries⟩

def newCache (ttl : Int) : Cache K V := newBoundedCache ttl 0

/-- The key list after `key` has been stored, before any eviction. -/
def keyListWith (c : Cache K V) (key : K) : List K :=
  if key ∈ c.items then c.keyList else c.keyList ++ [key]

/-- How many of the oldest keys an overflowing list of `len` keys loses. -/
def evictCount (maxEntries : Int) (len : Nat) : Nat :=
  min (len - maxEntries + maxEntries / evictionBatchDivisor).toNat len

def setLocked (c : Cache K V) (now : Int) (key : K) (value : V)
    (ttl : Option Int) : Cache K V :=
  let items := c.items.insert key ⟨value, now, ttl.getD c.timeToLive⟩
  let keyList := c.keyListWith key
  if 0 < c.maxEntries ∧ c.maxEntries < keyList.length then
    let evict := evictCount c.maxEntries keyList.length
    { c with
      items := (keyList.take evict).foldl (fun m k => m.erase k) items
      keyList := keyList.drop evict }
  else
    { c with items := items, keyList := keyList }

def set (c : Cache K V) (now : Int) (key : K) (value : V) (ttl : Option Int) :
    Cache K V :=
  c.setLocked now key value ttl

def get (c : Cache K V) (now : Int) (key : K) : Option V :=
  match c.items.lookup key with
  | none => none
  | some item => if item.Expired now then none else some item.value

/-- The value of `key`, and whether it was there already. -/
def getOrSet (c : Cache K V) (now : Int) (key : K) (value : V) (ttl : Option Int) :
    Cache K V × V × Bool :=
  match c.get now key with
  | some present => (c, present, true)
  | none => (c.setLocked now key value ttl, value, false)

/-- The key list loses the first occurrence of `key`. -/
def delete (c : Cache K V) (key : K) : Cache K V :=
  { c with items := c.items.erase key, keyList := c.keyList.erase key }

def keys (c : Cache K V) : List K := c.keyList

def size (c : Cache K V) : Nat := c.items.keys.card

def flush (c : Cache K V) : Cache K V := { c with items := ∅, keyList := [] }

/-- One turn of the collection loop: keys kept so far, map, number removed. -/
def collectKey (now : Int) (key : K) (acc : List K × GoMap K (CacheItem V) × Nat) :
    List K × GoMap K (CacheItem V) × Nat :=
  match acc.2.1.lookup key with
  | none => (acc.1, acc.2.1.erase key, acc.2.2 + 1)
  | some item =>
      if item.Expired now then (acc.1, acc.2.1.erase key, acc.2.2 + 1)
      else (key :: acc.1, acc.2.1, acc.2.2)

/-- The loop runs from the last key to the first; it also counts what it removes. -/
def garbageCollect (c : Cache K V) (now : Int) : Cache K V × Nat :=
  let (kept, items, removed) := c.keyList.foldr (collectKey now) ([], c.items, 0)
  ({ c with items := items, keyList := kept }, removed)

/-! ## What the operations do to the map -/

/-- Storing `key` does not overflow the cap. -/
def HasRoom (c : Cache K V) (key : K) : Prop :=
  c.maxEntries ≤ 0 ∨ ((c.keyListWith key).length : Int) ≤ c.maxEntries

instance (c : Cache K V) (key : K) : Decidable (c.HasRoom key) :=
  inferInstanceAs (Decidable (_ ∨ _))

/-- No item has expired at `now`. -/
def Fresh (c : Cache K V) (now : Int) : Prop :=
  ∀ key item, c.items.lookup key = some item → ¬ item.Expired now

variable {c : Cache K V} {now later : Int} {key key' : K} {value : V} {ttl : Option Int}
  {item : CacheItem V}

@[simp] theorem maxEntries_set : (c.set now key value ttl).maxEntries = c.maxEntries := by
  unfold set setLocked
  dsimp only
  split <;> rfl

@[simp] theorem timeToLive_set : (c.set now key value ttl).timeToLive = c.timeToLive := by
  unfold set setLocked
  dsimp only
  split <;> rfl

@[simp] theorem maxEntries_delete : (c.delete key).maxEntries = c.maxEntries := rfl

@[simp] theorem timeToLive_delete : (c.delete key).timeToLive = c.timeToLive := rfl

@[simp] theorem maxEntries_garbageCollect :
    (c.garbageCollect now).1.maxEntries = c.maxEntries := rfl

@[simp] theorem timeToLive_garbageCollect :
    (c.garbageCollect now).1.timeToLive = c.timeToLive := rfl

theorem items_set (room : c.HasRoom key) :
    (c.set now key value ttl).items =
      c.items.insert key ⟨value, now, ttl.getD c.timeToLive⟩ := by
  unfold set setLocked
  dsimp only
  rw [if_neg]
  rintro ⟨bounded, overflow⟩
  rcases room with unbounded | fits <;> omega

/-- A `set` that evicts nothing changes the entry of its key only. -/
theorem lookup_set (room : c.HasRoom key) :
    (c.set now key value ttl).items.lookup key' =
      if key' = key then some ⟨value, now, ttl.getD c.timeToLive⟩
      else c.items.lookup key' := by
  rw [items_set room, lookup_insert_eq]

theorem lookup_eraseAll {keys : List K} {items : GoMap K (CacheItem V)}
    (found : (keys.foldl (fun m k => m.erase k) items).lookup key = some item) :
    items.lookup key = some item := by
  induction keys generalizing items with
  | nil => exact found
  | cons k keys ih =>
      have kept := ih found
      rw [lookup_erase_eq] at kept
      split at kept
      · cases kept
      · exact kept

/-- With or without evictions, what is found after a `set` is the value just stored or was
there before. -/
theorem of_lookup_set (found : (c.set now key value ttl).items.lookup key' = some item) :
    (key' = key ∧ item.value = value) ∨ c.items.lookup key' = some item := by
  have inserted : (c.items.insert key ⟨value, now, ttl.getD c.timeToLive⟩).lookup key' =
      some item := by
    unfold set setLocked at found
    dsimp only at found
    split at found
    · exact lookup_eraseAll found
    · exact found
  rcases lookup_insert_cases inserted with ⟨same, isItem⟩ | ⟨_, old⟩
  · exact Or.inl ⟨same, by rw [isItem]⟩
  · exact Or.inr old

theorem lookup_delete :
    (c.delete key).items.lookup key' = if key' = key then none else c.items.lookup key' :=
  lookup_erase_eq _ _ _

theorem get_eq_none_iff :
    c.get now key = none ↔ ∀ item, c.items.lookup key = some item → item.Expired now := by
  unfold get
  cases found : c.items.lookup key with
  | none => simp
  | some item => by_cases expired : item.Expired now <;> simp [expired]

theorem get_eq_some_iff :
    c.get now key = some value ↔
      ∃ item, c.items.lookup key = some item ∧ ¬ item.Expired now ∧ item.value = value := by
  unfold get
  cases found : c.items.lookup key with
  | none => simp
  | some item => by_cases expired : item.Expired now <;> simp [expired]

/-- A collection of some of the keys keeps an entry or removes it as expired. -/
theorem lookup_collect (now : Int) (keys : List K) (items : GoMap K (CacheItem V)) (key : K) :
    (keys.foldr (collectKey now) ([], items, 0)).2.1.lookup key = items.lookup key ∨
      ((keys.foldr (collectKey now) ([], items, 0)).2.1.lookup key = none ∧
        ∃ item, items.lookup key = some item ∧ item.Expired now) := by
  induction keys with
  | nil => exact Or.inl rfl
  | cons k keys ih =>
      rw [List.foldr_cons]
      generalize keys.foldr (collectKey now) ([], items, 0) = acc at ih ⊢
      unfold collectKey
      cases found : acc.2.1.lookup k with
      | none =>
          dsimp only
          rw [lookup_erase_eq]
          split
          · rename_i same
            subst same
            rcases ih with kept | ⟨_, gone⟩
            · exact Or.inl (by rw [← kept, found])
            · exact Or.inr ⟨rfl, gone⟩
          · exact ih
      | some item =>
          dsimp only
          split
          · rename_i expired
            dsimp only
            rw [lookup_erase_eq]
            split
            · rename_i same
              subst same
              rcases ih with kept | ⟨missing, _⟩
              · exact Or.inr ⟨rfl, item, by rw [← kept, found], expired⟩
              · rw [missing] at found
                cases found
            · exact ih
          · exact ih

/-- A collection keeps an entry or removes it as expired. -/
theorem lookup_garbageCollect (c : Cache K V) (now : Int) (key : K) :
    (c.garbageCollect now).1.items.lookup key = c.items.lookup key ∨
      ((c.garbageCollect now).1.items.lookup key = none ∧
        ∃ item, c.items.lookup key = some item ∧ item.Expired now) :=
  lookup_collect now c.keyList c.items key

theorem lookup_of_garbageCollect
    (found : (c.garbageCollect now).1.items.lookup key = some item) :
    c.items.lookup key = some item := by
  rcases lookup_garbageCollect c now key with kept | ⟨gone, _⟩
  · rw [← kept, found]
  · rw [gone] at found
    cases found

/-- Garbage collection is invisible to every later `get`. -/
theorem get_garbageCollect (le : now ≤ later) :
    (c.garbageCollect now).1.get later key = c.get later key := by
  rcases lookup_garbageCollect c now key with kept | ⟨gone, item, found, old⟩
  · unfold get
    rw [kept]
  · unfold get
    rw [gone, found]
    dsimp only
    rw [if_pos (old.mono le)]

/-- With nothing expired there is nothing to collect. -/
theorem Fresh.lookup_garbageCollect (fresh : c.Fresh now) :
    (c.garbageCollect now).1.items.lookup key = c.items.lookup key := by
  rcases Cache.lookup_garbageCollect c now key with kept | ⟨_, item, found, old⟩
  · exact kept
  · exact (fresh key item found old).elim

theorem Fresh.get_eq_none (fresh : c.Fresh now) (missing : c.get now key = none) :
    c.items.lookup key = none := by
  cases found : c.items.lookup key with
  | none => rfl
  | some item => exact (fresh key item found (get_eq_none_iff.mp missing item found)).elim

theorem HasRoom.of_unbounded (unbounded : c.maxEntries ≤ 0) : c.HasRoom key := Or.inl unbounded

end Cache

end ConfidentialCompute
