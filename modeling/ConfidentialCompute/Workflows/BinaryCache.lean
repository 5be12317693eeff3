import ConfidentialCompute.Lib.Heap
import ConfidentialCompute.Lib.Lru
import ConfidentialCompute.Lib.Runs
import ConfidentialCompute.Lib.TextCodec
import ConfidentialCompute.Types

/-!
# The cache of workflow binaries

`BinaryFetcher` of the workflows app. A binary is asked for by its hash. It is taken from the
cache, or fetched by a `RawFetcher`, which is not trusted, compared with the hash and cached. The
cache is a map to the elements of a linked list, the most recently used one first, and a count of
the bytes in it. Elements are never changed once they are made; a pointer to one is its position
in the list of all of them.
-/

namespace ConfidentialCompute.Workflows

open Go Runs

/-! ## The fetcher -/

structure CacheEntry where
  key : Bytes
  value : Slice UInt8
deriving DecidableEq

structure BinaryFetcher where
  maxCacheBytes : Int
  cacheBytes : Int
  /-- The list elements made so far. -/
  elements : List CacheEntry
  items : GoMap Bytes Nat
  evictList : List Nat
deriving DecidableEq

def newBinaryFetcher (maxCacheBytes : Int) : BinaryFetcher := ⟨maxCacheBytes, 0, [], ∅, []⟩

/-- `MoveToFront` of `container/list`, which leaves an element alone that is not in the list. -/
def moveToFront (el : Nat) (l : List Nat) : List Nat := if el ∈ l then el :: l.erase el else l

namespace BinaryFetcher

/-- What the last element of the list holds. -/
def oldest (f : BinaryFetcher) : Option CacheEntry := f.evictList.getLast?.bind (f.elements[·]?)

/-- The body of the eviction loops. -/
def evictOldest (f : BinaryFetcher) : BinaryFetcher :=
  match f.oldest with
  | none => f
  | some entry =>
      { f with
        evictList := f.evictList.dropLast
        items := f.items.erase entry.key
        cacheBytes := (f.cacheBytes - entry.value.length).bmod (2 ^ 64) }

/-- The condition of the eviction loops; no bytes are incoming when the bound is set. -/
def MustEvict (incoming : Nat) (f : BinaryFetcher) : Prop :=
  f.maxCacheBytes < (f.cacheBytes + incoming).bmod (2 ^ 64) ∧ f.evictList ≠ []

instance (incoming : Nat) (f : BinaryFetcher) : Decidable (f.MustEvict incoming) :=
  inferInstanceAs (Decidable (_ ∧ _))

def evictFrom (incoming : Nat) : Nat → BinaryFetcher → BinaryFetcher
  | 0, f => f
  | n + 1, f => if f.MustEvict incoming then evictFrom incoming n f.evictOldest else f

/-- An eviction loop. Every round takes an element off the list. -/
def evict (incoming : Nat) (f : BinaryFetcher) : BinaryFetcher :=
  evictFrom incoming f.evictList.length f

/-- A non-positive bound is ignored. -/
def setMaxCacheBytes (f : BinaryFetcher) (maxCacheBytes : Int) : BinaryFetcher :=
  if maxCacheBytes ≤ 0 then f else { f with maxCacheBytes }.evict 0

def cacheGet (f : BinaryFetcher) (key : Bytes) : Option (Slice UInt8) × BinaryFetcher :=
  match f.items.lookup key with
  | none => (none, f)
  | some el =>
      ((f.elements[el]?).map (·.value), { f with evictList := moveToFront el f.evictList })

/-- `PushFront`, with the entry of the map and the count. -/
def pushFront (entry : CacheEntry) (f : BinaryFetcher) : BinaryFetcher :=
  { f with
    elements := f.elements ++ [entry]
    evictList := f.elements.length :: f.evictList
    items := f.items.insert entry.key f.elements.length
    cacheBytes := (f.cacheBytes + entry.value.length).bmod (2 ^ 64) }

def cachePut (f : BinaryFetcher) (key : Bytes) (value : Slice UInt8) : BinaryFetcher :=
  match f.items.lookup key with
  | some el => { f with evictList := moveToFront el f.evictList }
  | none => (f.evict value.length).pushFront ⟨key, value⟩

end BinaryFetcher

def cacheKey (binaryHash : Slice UInt8) : Bytes := Hex.encode binaryHash.data

/-- `Fetch` up to the call of the raw fetcher, which is made if there is no result yet. `raw` says
whether there is a raw fetcher. -/
def BinaryFetcher.fetchCached (f : BinaryFetcher) (binaryHash : Slice UInt8) (raw : Bool) :
    Option (Except Bytes (Slice UInt8)) × BinaryFetcher :=
  if binaryHash.length = 0 then
    (some (.error (ascii "binary_hash is required for integrity verification")), f)
  else if raw = false then (some (.error (ascii "storage credentials not yet provisioned")), f)
  else
    match f.cacheGet (cacheKey binaryHash) with
    | (some cached, f) => (some (.ok cached), f)
    | (none, f) => (none, f)

/-- `Fetch` from the return of the raw fetcher on. -/
def BinaryFetcher.fetchRaw (crypto : Crypto) (f : BinaryFetcher) (binaryHash : Slice UInt8)
    (fetched : Except Bytes (Slice UInt8)) : Except Bytes (Slice UInt8) × BinaryFetcher :=
  match fetched with
  | .error err => (.error (ascii "fetching binary: " ++ err), f)
  | .ok binary =>
      let actual := crypto.sha256 binary.data
      if actual.data ≠ binaryHash.data then
        (.error (ascii "binary hash mismatch: expected " ++ Hex.encode binaryHash.data ++
          ascii ", got " ++ Hex.encode actual.data), f)
      else (.ok binary, f.cachePut (cacheKey binaryHash) binary)

/-! ## The abstract cache -/

/-- A binary counts with its length. -/
def CacheEntry.weight (entry : CacheEntry) : Nat := entry.value.length

namespace BinaryFetcher

/-- What is cached, in the order of the list. -/
def cached (f : BinaryFetcher) : List CacheEntry := f.evictList.filterMap (f.elements[·]?)

/-- The fetcher holds the cache `c`. -/
structure Refines (f : BinaryFetcher) (c : Lru.Cache CacheEntry.key) : Prop where
  listed : f.evictList.map (f.elements[·]?) = c.entries.map some
  mapped : ∀ key el, f.items.lookup key = some el ↔
    el ∈ f.evictList ∧ ∃ entry, f.elements[el]? = some entry ∧ entry.key = key
  counted : f.cacheBytes = Lru.total CacheEntry.weight c.entries

variable {f f' : BinaryFetcher} {c : Lru.Cache CacheEntry.key} {entry : CacheEntry} {el : Nat}
  {key : Bytes} {incoming : Nat}

theorem refines_new (maxCacheBytes : Int) :
    (newBinaryFetcher maxCacheBytes).Refines Lru.Cache.empty where
  listed := rfl
  mapped key el := by
    constructor
    · intro found
      cases found.symm.trans (Finmap.lookup_empty key)
    · intro found
      cases found.1
  counted := rfl

/-- Which elements are listed, and what they hold, is all that matters. -/
theorem Refines.congr (refines : f.Refines c) (elements : f'.elements = f.elements)
    (items : f'.items = f.items) (bytes : f'.cacheBytes = f.cacheBytes)
    (evictList : f'.evictList = f.evictList) : f'.Refines c where
  listed := by rw [elements, evictList]; exact refines.listed
  mapped := by rw [elements, items, evictList]; exact refines.mapped
  counted := bytes.trans refines.counted

theorem Refines.cached_eq (refines : f.Refines c) : f.cached = c.entries := by
  have flat : ∀ l : List Nat, l.filterMap (f.elements[·]?) =
      (l.map (f.elements[·]?)).filterMap id := fun l => by rw [List.filterMap_map]; rfl
  rw [cached, flat, refines.listed, List.filterMap_map]
  exact List.filterMap_some

theorem Refines.length_evictList (refines : f.Refines c) :
    f.evictList.length = c.entries.length := by
  have lengths := congrArg List.length refines.listed
  rwa [List.length_map, List.length_map] at lengths

theorem Refines.nodup (refines : f.Refines c) : f.evictList.Nodup := by
  have entries : (c.entries.map some).Nodup :=
    c.nodup.of_map.map (Option.some_injective _)
  rw [← refines.listed] at entries
  exact entries.of_map

theorem Refines.mem_entries (refines : f.Refines c) (among : el ∈ f.evictList)
    (holds : f.elements[el]? = some entry) : entry ∈ c.entries := by
  have member : some entry ∈ f.evictList.map (f.elements[·]?) :=
    List.mem_map.mpr ⟨el, among, holds⟩
  rw [refines.listed] at member
  obtain ⟨_, among', same⟩ := List.mem_map.mp member
  cases same
  exact among'

theorem Refines.exists_element (refines : f.Refines c) (among : entry ∈ c.entries) :
    ∃ el ∈ f.evictList, f.elements[el]? = some entry := by
  have member : some entry ∈ c.entries.map some := List.mem_map_of_mem among
  rw [← refines.listed] at member
  exact List.mem_map.mp member

theorem Refines.lookup_eq_none_iff (refines : f.Refines c) :
    f.items.lookup key = none ↔ key ∉ c.entries.map CacheEntry.key := by
  rw [Option.eq_none_iff_forall_not_mem]
  constructor
  · intro absent among
    obtain ⟨entry, member, rfl⟩ := List.mem_map.mp among
    obtain ⟨el, listed, holds⟩ := refines.exists_element member
    exact absent el ((refines.mapped entry.key el).mpr ⟨listed, entry, holds, rfl⟩)
  · intro absent el found
    obtain ⟨listed, entry, holds, rfl⟩ := (refines.mapped key el).mp found
    exact absent (List.mem_map_of_mem (refines.mem_entries listed holds))

/-- Moving an element to the front is a use of its key. -/
theorem Refines.moveToFront (refines : f.Refines c) (found : f.items.lookup key = some el) :
    { f with evictList := moveToFront el f.evictList }.Refines (c.touch key) := by
  obtain ⟨among, entry, holds, rfl⟩ := (refines.mapped key el).mp found
  have front : Workflows.moveToFront el f.evictList =
      el :: f.evictList.filter (· != el) := by
    rw [Workflows.moveToFront, if_pos among, refines.nodup.erase_eq_filter]
  -- the other elements are those that hold another key
  have others : f.evictList.filter (· != el) =
      f.evictList.filter fun other =>
        (f.elements[other]?).map CacheEntry.key ≠ some entry.key := by
    refine List.filter_congr fun other among' => ?_
    rw [Bool.eq_iff_iff, bne_iff_ne, decide_eq_true_eq, not_iff_not]
    constructor
    · rintro rfl
      rw [holds]
      rfl
    · intro same
      obtain ⟨entry', holds', same⟩ := Option.map_eq_some_iff.mp same
      exact Option.some.inj (((refines.mapped entry.key other).mpr
        ⟨among', entry', holds', same⟩).symm.trans found)
  refine ⟨?_, fun key' el' => ?_, ?_⟩
  · show (Workflows.moveToFront el f.evictList).map (f.elements[·]?) = _
    rw [Lru.Cache.entries_touch (refines.mem_entries among holds), front, others, List.map_cons,
      List.map_cons, holds]
    refine congrArg _ ?_
    have filtered := congrArg (List.filter fun found : Option CacheEntry =>
      found.map CacheEntry.key ≠ some entry.key) refines.listed
    rw [List.filter_map, List.filter_map] at filtered
    simpa [Function.comp_def] using filtered
  · rw [refines.mapped key' el']
    have same : el' ∈ Workflows.moveToFront el f.evictList ↔ el' ∈ f.evictList := by
      rw [Workflows.moveToFront, if_pos among, (List.perm_cons_erase among).mem_iff]
    exact and_congr_left' same.symm
  · show f.cacheBytes = _
    rw [refines.counted, Lru.total_perm (Lru.Cache.entries_touch_perm entry.key c)]

/-! ## The eviction loop -/

/-- The last element of the list holds the last entry. -/
theorem Refines.last (refines : f.Refines c) (more : f.evictList ≠ []) :
    ∃ el entry, f.evictList = f.evictList.dropLast ++ [el] ∧ f.elements[el]? = some entry ∧
      c.entries = c.dropLast.entries ++ [entry] ∧
      f.evictList.dropLast.map (f.elements[·]?) = c.dropLast.entries.map some := by
  obtain ⟨els, el, split⟩ := (List.eq_nil_or_concat f.evictList).resolve_left more
  rw [List.concat_eq_append] at split
  have listed := refines.listed
  rw [split, List.map_append, List.map_singleton] at listed
  obtain ⟨entries, last, parts, front, back⟩ := List.map_eq_append_iff.mp listed.symm
  obtain ⟨entry, rfl, holds⟩ := List.map_eq_singleton_iff.mp back
  have dropped : c.dropLast.entries = entries := by
    rw [Lru.Cache.entries_dropLast, parts, List.dropLast_concat]
  refine ⟨el, entry, ?_, holds.symm, ?_, ?_⟩
  · rw [split, List.dropLast_concat]
  · rw [dropped, parts]
  · rw [dropped, split, List.dropLast_concat, front]

theorem Refines.evictOldest (refines : f.Refines c) (more : f.evictList ≠ [])
    (fits : Lru.total CacheEntry.weight c.entries < 2 ^ 63) :
    f.evictOldest.Refines c.dropLast ∧
      ∃ entry, f.oldest = some entry ∧ c.entries = c.dropLast.entries ++ [entry] := by
  obtain ⟨el, entry, split, holds, parts, front⟩ := refines.last more
  have isOldest : f.oldest = some entry := by
    rw [oldest, split, List.getLast?_concat]
    exact holds
  have itself : f.items.lookup entry.key = some el := by
    refine (refines.mapped entry.key el).mpr ⟨?_, entry, holds, rfl⟩
    rw [split]
    exact List.mem_append_right _ List.mem_cons_self
  have nodup := refines.nodup
  rw [split] at nodup
  refine ⟨?_, entry, isOldest, parts⟩
  rw [BinaryFetcher.evictOldest, isOldest]
  refine ⟨front, fun key' el' => ?_, ?_⟩
  · show (f.items.erase entry.key).lookup key' = some el' ↔ el' ∈ f.evictList.dropLast ∧ _
    have mapped := refines.mapped key' el'
    rw [split, List.mem_append, List.mem_singleton] at mapped
    rw [lookup_erase_eq]
    split
    · rename_i same
      subst same
      constructor
      · exact fun absurd => by cases absurd
      · rintro ⟨among, holds'⟩
        cases itself.symm.trans (mapped.mpr ⟨Or.inl among, holds'⟩)
        exact ((List.nodup_append.mp nodup).2.2 el among el List.mem_cons_self rfl).elim
    · rename_i other
      rw [mapped]
      refine ⟨fun ⟨among, entry', holds', same⟩ => ⟨among.resolve_right ?_, entry', holds', same⟩,
        fun ⟨among, holds'⟩ => ⟨Or.inl among, holds'⟩⟩
      rintro rfl
      cases holds.symm.trans holds'
      exact other same.symm
  · show (f.cacheBytes - entry.value.length).bmod (2 ^ 64) = _
    have sum : Lru.total CacheEntry.weight c.entries =
        Lru.total CacheEntry.weight c.dropLast.entries + entry.value.length := by
      conv => lhs; rw [parts]
      simp [CacheEntry.weight]
    rw [refines.counted, sum]
    rw [sum] at fits
    rw [Int.bmod_eq_of_le_mul_two] <;> push_cast <;> omega

theorem maxCacheBytes_evictOldest (f : BinaryFetcher) :
    f.evictOldest.maxCacheBytes = f.maxCacheBytes := by
  unfold evictOldest
  split <;> rfl

theorem maxCacheBytes_evictFrom (incoming n : Nat) (f : BinaryFetcher) :
    (evictFrom incoming n f).maxCacheBytes = f.maxCacheBytes := by
  induction n generalizing f with
  | zero => rfl
  | succ n ih =>
      rw [evictFrom]
      split
      · rw [ih, maxCacheBytes_evictOldest]
      · rfl

/-- The condition of the loop is that what is cached and what is incoming exceeds the bound. -/
theorem Refines.mustEvict_iff (refines : f.Refines c)
    (fits : Lru.total CacheEntry.weight c.entries + incoming < 2 ^ 63) :
    f.MustEvict incoming ↔
      f.maxCacheBytes - incoming < Lru.total CacheEntry.weight c.entries ∧ c.entries ≠ [] := by
  have count : (f.cacheBytes + incoming).bmod (2 ^ 64) =
      Lru.total CacheEntry.weight c.entries + incoming := by
    rw [refines.counted, Int.bmod_eq_of_le_mul_two] <;> omega
  have empty : f.evictList = [] ↔ c.entries = [] := by
    rw [← List.length_eq_zero_iff, refines.length_evictList, List.length_eq_zero_iff]
  rw [MustEvict, count, Ne, empty]
  exact and_congr_left' (by omega)

/-- The loop makes room for what is incoming. -/
theorem Refines.evictFrom (refines : f.Refines c) {n : Nat} (rounds : c.entries.length ≤ n)
    (fits : Lru.total CacheEntry.weight c.entries + incoming < 2 ^ 63) :
    (evictFrom incoming n f).Refines
      (c.trim CacheEntry.weight (f.maxCacheBytes - incoming)) := by
  induction n generalizing f c with
  | zero =>
      rw [Lru.Cache.trim_of_fits fun heavy => heavy.2 (List.length_eq_zero_iff.mp (by omega))]
      exact refines
  | succ n ih =>
      rw [BinaryFetcher.evictFrom]
      by_cases must : f.MustEvict incoming
      · obtain ⟨heavy, more⟩ := (refines.mustEvict_iff fits).mp must
        obtain ⟨dropped, entry, _, parts⟩ := refines.evictOldest must.2 (by omega)
        have sum := congrArg (Lru.total CacheEntry.weight) parts
        have len := congrArg List.length parts
        rw [Lru.total_append] at sum
        rw [List.length_append, List.length_singleton] at len
        rw [if_pos must, Lru.Cache.trim_of_heavy heavy more, ← maxCacheBytes_evictOldest f]
        exact ih dropped (by omega) (by omega)
      · rw [if_neg must, Lru.Cache.trim_of_fits fun heavy =>
          must ((refines.mustEvict_iff fits).mpr heavy)]
        exact refines

theorem Refines.evict (refines : f.Refines c) (incoming : Nat)
    (fits : Lru.total CacheEntry.weight c.entries + incoming < 2 ^ 63) :
    (f.evict incoming).Refines (c.trim CacheEntry.weight (f.maxCacheBytes - incoming)) :=
  refines.evictFrom (Nat.le_of_eq refines.length_evictList.symm) fits

/-! ## The methods -/

theorem setMaxCacheBytes_ignored {bound : Int} (ignored : bound ≤ 0) :
    f.setMaxCacheBytes bound = f :=
  if_pos ignored

theorem maxCacheBytes_setMaxCacheBytes {bound : Int} (positive : 0 < bound) :
    (f.setMaxCacheBytes bound).maxCacheBytes = bound := by
  rw [setMaxCacheBytes, if_neg (Int.not_le.mpr positive)]
  exact maxCacheBytes_evictFrom _ _ _

theorem Refines.setMaxCacheBytes (refines : f.Refines c) {bound : Int} (positive : 0 < bound)
    (fits : Lru.total CacheEntry.weight c.entries < 2 ^ 63) :
    (f.setMaxCacheBytes bound).Refines (c.trim CacheEntry.weight bound) := by
  have bounded : { f with maxCacheBytes := bound }.Refines c := refines.congr rfl rfl rfl rfl
  rw [BinaryFetcher.setMaxCacheBytes, if_neg (Int.not_le.mpr positive)]
  simpa using bounded.evict 0 fits

theorem maxCacheBytes_cacheGet (f : BinaryFetcher) (key : Bytes) :
    (f.cacheGet key).2.maxCacheBytes = f.maxCacheBytes := by
  unfold cacheGet
  split <;> rfl

theorem cacheGet_absent (absent : f.items.lookup key = none) : f.cacheGet key = (none, f) := by
  rw [cacheGet, absent]

theorem cacheGet_present (found : f.items.lookup key = some el)
    (holds : f.elements[el]? = some entry) :
    f.cacheGet key =
      (some entry.value, { f with evictList := moveToFront el f.evictList }) := by
  rw [cacheGet, found]
  exact congrArg (fun entry => (Option.map CacheEntry.value entry, _)) holds

theorem Refines.cacheGet_some (refines : f.Refines c) {value : Slice UInt8}
    (hit : (f.cacheGet key).1 = some value) :
    ⟨key, value⟩ ∈ c.entries ∧ (f.cacheGet key).2.Refines (c.touch key) := by
  cases found : f.items.lookup key with
  | none =>
      rw [cacheGet_absent found] at hit
      cases hit
  | some el =>
      obtain ⟨among, entry, holds, rfl⟩ := (refines.mapped key el).mp found
      rw [cacheGet_present found holds] at hit ⊢
      cases hit
      exact ⟨refines.mem_entries among holds, refines.moveToFront found⟩

theorem Refines.cacheGet_none (refines : f.Refines c) (miss : (f.cacheGet key).1 = none) :
    (f.cacheGet key).2 = f := by
  cases found : f.items.lookup key with
  | none => rw [cacheGet_absent found]
  | some el =>
      obtain ⟨_, entry, holds, _⟩ := (refines.mapped key el).mp found
      rw [cacheGet_present found holds] at miss
      cases miss

theorem Refines.pushFront (refines : f.Refines c)
    (fresh : entry.key ∉ c.entries.map CacheEntry.key)
    (fits : Lru.total CacheEntry.weight c.entries + entry.value.length < 2 ^ 63) :
    (f.pushFront entry).Refines (c.add entry fresh) := by
  have alloc := Heap.getElem?_alloc f.elements entry
  -- the elements of the list were made before
  have old : ∀ el ∈ f.evictList, el ≠ f.elements.length := by
    intro el among
    have member : f.elements[el]? ∈ c.entries.map some := by
      rw [← refines.listed]
      exact List.mem_map_of_mem among
    obtain ⟨_, _, holds⟩ := List.mem_map.mp member
    exact Nat.ne_of_lt (Heap.lt_of_getElem? holds.symm)
  refine ⟨?_, fun key el => ?_, ?_⟩
  · show (f.elements.length :: f.evictList).map ((f.elements ++ [entry])[·]?) =
      (entry :: c.entries).map some
    rw [List.map_cons, List.map_cons, alloc, if_pos rfl, ← refines.listed]
    refine congrArg _ (List.map_congr_left fun el among => ?_)
    rw [alloc, if_neg (old el among)]
  · show (f.items.insert entry.key f.elements.length).lookup key = some el ↔
      el ∈ f.elements.length :: f.evictList ∧
        ∃ entry', (f.elements ++ [entry])[el]? = some entry' ∧ entry'.key = key
    rw [lookup_insert_eq, alloc, List.mem_cons]
    by_cases new : el = f.elements.length
    · subst new
      have absent : ∀ key, f.items.lookup key ≠ some f.elements.length :=
        fun key found => old _ ((refines.mapped key _).mp found).1 rfl
      by_cases same : key = entry.key
      · simp [same]
      · simp [same, absent, Ne.symm same]
    · rw [if_neg new]
      split
      · rename_i same
        subst same
        have absent := refines.lookup_eq_none_iff.mpr fresh
        have unmapped := refines.mapped entry.key el
        rw [absent] at unmapped
        simpa [new, eq_comm] using unmapped
      · simpa [new] using refines.mapped key el
  · show (f.cacheBytes + entry.value.length).bmod (2 ^ 64) =
      (Lru.total CacheEntry.weight (entry :: c.entries) : Int)
    rw [refines.counted, Lru.total_cons, CacheEntry.weight]
    rw [Int.bmod_eq_of_le_mul_two] <;> push_cast <;> omega

theorem Refines.cachePut_present (refines : f.Refines c) (value : Slice UInt8)
    (present : key ∈ c.entries.map CacheEntry.key) :
    (f.cachePut key value).Refines (c.touch key) := by
  cases found : f.items.lookup key with
  | none => exact (refines.lookup_eq_none_iff.mp found present).elim
  | some el =>
      rw [cachePut, found]
      exact refines.moveToFront found

/-- What is dropped for another binary leaves the key of that binary fresh. -/
theorem fresh_trim {room : Int} (fresh : key ∉ c.entries.map CacheEntry.key) :
    key ∉ (c.trim CacheEntry.weight room).entries.map CacheEntry.key :=
  fun among => fresh (((Lru.Cache.trim_isPrefix _ _ _).sublist.map _).mem among)

/-- A binary that is not cached yet takes the place of the oldest ones. -/
theorem Refines.cachePut_fresh (refines : f.Refines c) {value : Slice UInt8}
    (fresh : key ∉ c.entries.map CacheEntry.key)
    (fits : Lru.total CacheEntry.weight c.entries + value.length < 2 ^ 63) :
    (f.cachePut key value).Refines
      ((c.trim CacheEntry.weight (f.maxCacheBytes - value.length)).add ⟨key, value⟩
        (fresh_trim fresh)) := by
  rw [cachePut, refines.lookup_eq_none_iff.mpr fresh]
  refine (refines.evict _ fits).pushFront _ (Nat.lt_of_le_of_lt (Nat.add_le_add_right ?_ _) fits)
  exact Lru.total_le_of_isPrefix _ (Lru.Cache.trim_isPrefix _ _ _)

theorem maxCacheBytes_cachePut (f : BinaryFetcher) (key : Bytes) (value : Slice UInt8) :
    (f.cachePut key value).maxCacheBytes = f.maxCacheBytes := by
  unfold cachePut
  split
  · rfl
  · exact maxCacheBytes_evictFrom _ _ _

end BinaryFetcher

end ConfidentialCompute.Workflows
