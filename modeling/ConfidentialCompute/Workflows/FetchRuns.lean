import ConfidentialCompute.Sample
import ConfidentialCompute.Workflows.BinaryCache

/-!
# Runs of the binary cache

`Fetch` calls and `SetMaxCacheBytes` calls in any order. A `Fetch` call takes the lock of the cache
twice, once to look the binary up and once to store it; between the two the raw fetcher is at work,
which may return anything, or fail. The checks of a call are local, so they belong to the step
next to them.

A run keeps two histories: what the calls have returned, and the keys in the order in which their
entries were inserted or found, the latest one first.
-/

namespace ConfidentialCompute.Workflows

open Go Runs

structure FetchSystem where
  fetcher : BinaryFetcher
  /-- The hashes asked for by the calls that wait for the raw fetcher. -/
  pending : GoMap Nat (Slice UInt8)
  returned : List (Slice UInt8 × Except Bytes (Slice UInt8))
  uses : List Bytes

inductive FetchLabel where
  | fetch (call : Nat) (binaryHash : Slice UInt8) (raw : Bool)
  | rawReturns (call : Nat) (fetched : Except Bytes (Slice UInt8))
  | setMaxCacheBytes (maxCacheBytes : Int)

namespace FetchSystem

def start (maxCacheBytes : Int) : FetchSystem := ⟨newBinaryFetcher maxCacheBytes, ∅, [], []⟩

/-- A call returns. It has used the entry of its hash if it has a binary. -/
def finish (s : FetchSystem) (binaryHash : Slice UInt8) :
    Except Bytes (Slice UInt8) → BinaryFetcher → FetchSystem
  | .error err, fetcher =>
      { s with fetcher, returned := (binaryHash, .error err) :: s.returned }
  | .ok binary, fetcher =>
      { s with
        fetcher
        returned := (binaryHash, .ok binary) :: s.returned
        uses := cacheKey binaryHash :: s.uses }

/-- What a raw fetcher returns is in memory together with what is cached, and of memory there are
less than `2 ^ 63` bytes. -/
def fitsMemory (s : FetchSystem) : Except Bytes (Slice UInt8) → Bool
  | .error _ => true
  | .ok binary => Lru.total CacheEntry.weight s.fetcher.cached + binary.length < 2 ^ 63

def step (crypto : Crypto) (s : FetchSystem) : FetchLabel → Option FetchSystem
  | .fetch call binaryHash raw =>
      if (s.pending.lookup call).isSome then none
      else
        match s.fetcher.fetchCached binaryHash raw with
        | (some result, fetcher) => some (s.finish binaryHash result fetcher)
        | (none, fetcher) =>
            some { s with fetcher, pending := s.pending.insert call binaryHash }
  | .rawReturns call fetched =>
      match s.pending.lookup call with
      | none => none
      | some binaryHash =>
          if s.fitsMemory fetched then
            let (result, fetcher) := s.fetcher.fetchRaw crypto binaryHash fetched
            some ({ s with pending := s.pending.erase call }.finish binaryHash result fetcher)
          else none
  | .setMaxCacheBytes maxCacheBytes =>
      some { s with fetcher := s.fetcher.setMaxCacheBytes maxCacheBytes }

/-- The binary that a step inserts. -/
def inserts (crypto : Crypto) (s : FetchSystem) : FetchLabel → Option (Slice UInt8)
  | .rawReturns call (.ok binary) =>
      (s.pending.lookup call).bind fun binaryHash =>
        if (crypto.sha256 binary.data).data = binaryHash.data ∧
            s.fetcher.items.lookup (cacheKey binaryHash) = none then some binary
        else none
  | _ => none

end FetchSystem

/-- The entry that a step inserts, if it inserts one. It goes by the hash of its binary. -/
def FetchSystem.inserted (crypto : Crypto) (s : FetchSystem) (l : FetchLabel) : List CacheEntry :=
  (s.inserts crypto l).toList.map fun binary =>
    ⟨Hex.encode (crypto.sha256 binary.data).data, binary⟩

/-! ## What a step does -/

/-- What a step does to the cache and to the histories. -/
inductive FetchMoves (crypto : Crypto) (s : FetchSystem) (l : FetchLabel) (s' : FetchSystem) : Prop
  | quiet (fetcher : s'.fetcher = s.fetcher) (uses : s'.uses = s.uses)
      (returned : ∀ hash value, (hash, .ok value) ∈ s'.returned → (hash, .ok value) ∈ s.returned)
      (inserts : s.inserts crypto l = none)
  | hit (binaryHash value : Slice UInt8)
      (found : (s.fetcher.cacheGet (cacheKey binaryHash)).1 = some value)
      (fetcher : s'.fetcher = (s.fetcher.cacheGet (cacheKey binaryHash)).2)
      (uses : s'.uses = cacheKey binaryHash :: s.uses)
      (returned : s'.returned = (binaryHash, .ok value) :: s.returned)
      (inserts : s.inserts crypto l = none)
  | put (call : Nat) (binaryHash binary : Slice UInt8) (isLabel : l = .rawReturns call (.ok binary))
      (asked : s.pending.lookup call = some binaryHash)
      (verified : (crypto.sha256 binary.data).data = binaryHash.data)
      (fits : Lru.total CacheEntry.weight s.fetcher.cached + binary.length < 2 ^ 63)
      (fetcher : s'.fetcher = s.fetcher.cachePut (cacheKey binaryHash) binary)
      (uses : s'.uses = cacheKey binaryHash :: s.uses)
      (returned : s'.returned = (binaryHash, .ok binary) :: s.returned)
  | bound (maxCacheBytes : Int) (isLabel : l = .setMaxCacheBytes maxCacheBytes)
      (fetcher : s'.fetcher = s.fetcher.setMaxCacheBytes maxCacheBytes)
      (uses : s'.uses = s.uses) (returned : s'.returned = s.returned)

section

variable {crypto : Crypto} {s s' : FetchSystem} {l : FetchLabel} {c : Lru.Cache CacheEntry.key}

theorem returned_of_error {s : FetchSystem} {hash hash' value : Slice UInt8} {err : Bytes}
    (among : (hash, .ok value) ∈ ((hash', .error err) :: s.returned :
      List (Slice UInt8 × Except Bytes (Slice UInt8)))) : (hash, .ok value) ∈ s.returned := by
  rcases List.mem_cons.mp among with same | among
  · cases same
  · exact among

theorem fetchMoves (refines : s.fetcher.Refines c) (taken : s.step crypto l = some s') :
    FetchMoves crypto s l s' := by
  cases l with
  | fetch call binaryHash raw =>
      simp only [FetchSystem.step] at taken
      split at taken
      · cases taken
      unfold BinaryFetcher.fetchCached at taken
      split_ifs at taken
      · cases taken
        exact .quiet rfl rfl (fun _ _ => returned_of_error) rfl
      · cases taken
        exact .quiet rfl rfl (fun _ _ => returned_of_error) rfl
      · cases looked : s.fetcher.cacheGet (cacheKey binaryHash) with
        | mk found fetcher =>
            cases found with
            | none =>
                have miss : (s.fetcher.cacheGet (cacheKey binaryHash)).1 = none := by rw [looked]
                have unchanged := refines.cacheGet_none miss
                rw [looked] at taken unchanged
                cases taken
                exact .quiet unchanged rfl (fun _ _ among => among) rfl
            | some value =>
                rw [looked] at taken
                cases taken
                exact .hit binaryHash value (by rw [looked]) (by rw [looked]; rfl) rfl rfl rfl
  | rawReturns call fetched =>
      simp only [FetchSystem.step] at taken
      split at taken
      · cases taken
      rename_i binaryHash asked
      split at taken
      · rename_i fits
        cases fetched with
        | error err =>
            cases taken
            exact .quiet rfl rfl (fun _ _ => returned_of_error) rfl
        | ok binary =>
            simp only [BinaryFetcher.fetchRaw] at taken
            split at taken
            · rename_i mismatch
              cases taken
              refine .quiet rfl rfl (fun _ _ => returned_of_error) ?_
              rw [FetchSystem.inserts, asked]
              exact if_neg fun both => mismatch both.1
            · rename_i verified
              cases taken
              exact .put call binaryHash binary rfl asked (not_ne_iff.mp verified)
                (of_decide_eq_true fits) rfl rfl rfl
      · cases taken
  | setMaxCacheBytes maxCacheBytes =>
      cases taken
      exact .bound maxCacheBytes rfl rfl rfl rfl

/-! ## What every state satisfies -/

/-- The fetcher holds the cache `c`, in the order of the uses, and binaries go by their hash. -/
structure FetchSystem.Sound (crypto : Crypto) (s : FetchSystem) (c : Lru.Cache CacheEntry.key) :
    Prop where
  refines : s.fetcher.Refines c
  fits : Lru.total CacheEntry.weight c.entries < 2 ^ 63
  ordered : c.Ordered s.uses
  verified : ∀ entry ∈ c.entries, entry.key = Hex.encode (crypto.sha256 entry.value.data).data
  returned : ∀ hash value, (hash, .ok value) ∈ s.returned →
    (crypto.sha256 value.data).data = hash.data

namespace FetchSystem

theorem Sound.start (maxCacheBytes : Int) :
    (FetchSystem.start maxCacheBytes).Sound crypto Lru.Cache.empty where
  refines := BinaryFetcher.refines_new maxCacheBytes
  fits := Nat.two_pow_pos 63
  ordered := Lru.Cache.ordered_empty []
  verified _ among := absurd among List.not_mem_nil
  returned _ _ among := absurd among List.not_mem_nil

theorem Sound.returned_cons (sound : s.Sound crypto c) {binaryHash binary : Slice UInt8}
    (isHash : (crypto.sha256 binary.data).data = binaryHash.data)
    (returned : s'.returned = (binaryHash, .ok binary) :: s.returned) :
    ∀ hash value, (hash, .ok value) ∈ s'.returned →
      (crypto.sha256 value.data).data = hash.data := by
  intro hash value among
  rw [returned] at among
  rcases List.mem_cons.mp among with same | among
  · cases same
    exact isHash
  · exact sound.returned hash value among

theorem Sound.touch (sound : s.Sound crypto c) {entry : CacheEntry} (among : entry ∈ c.entries)
    (refines : s'.fetcher.Refines (c.touch entry.key)) (uses : s'.uses = entry.key :: s.uses)
    (returned : ∀ hash value, (hash, .ok value) ∈ s'.returned →
      (crypto.sha256 value.data).data = hash.data) : s'.Sound crypto (c.touch entry.key) := by
  have perm := Lru.Cache.entries_touch_perm entry.key c
  refine ⟨refines, ?_, ?_, fun entry member => ?_, returned⟩
  · rw [Lru.total_perm perm]
    exact sound.fits
  · rw [uses]
    exact Lru.Cache.ordered_touch among sound.ordered
  · exact sound.verified entry (perm.mem_iff.mp member)

theorem Sound.add (sound : s.Sound crypto c) {entry : CacheEntry} {room : Int}
    {fresh : entry.key ∉ (c.trim CacheEntry.weight room).entries.map CacheEntry.key}
    (refines : s'.fetcher.Refines ((c.trim CacheEntry.weight room).add entry fresh))
    (isHash : entry.key = Hex.encode (crypto.sha256 entry.value.data).data)
    (fits : Lru.total CacheEntry.weight c.entries + entry.value.length < 2 ^ 63)
    (uses : s'.uses = entry.key :: s.uses)
    (returned : ∀ hash value, (hash, .ok value) ∈ s'.returned →
      (crypto.sha256 value.data).data = hash.data) :
    s'.Sound crypto ((c.trim CacheEntry.weight room).add entry fresh) := by
  have less := Lru.Cache.trim_isPrefix CacheEntry.weight room c
  have lighter := Lru.total_le_of_isPrefix CacheEntry.weight less
  refine ⟨refines, ?_, ?_, ?_, returned⟩
  · rw [Lru.Cache.entries_add, Lru.total_cons, CacheEntry.weight]
    omega
  · rw [uses]
    exact Lru.Cache.ordered_add (Lru.Cache.ordered_sublist less.sublist sound.ordered)
  · intro other member
    rcases List.mem_cons.mp member with rfl | member
    · exact isHash
    · exact sound.verified other (less.mem member)

theorem Sound.step (sound : s.Sound crypto c) (taken : s.step crypto l = some s') :
    ∃ c', s'.Sound crypto c' := by
  cases fetchMoves sound.refines taken with
  | quiet fetcher uses returned =>
      refine ⟨c, ?_, sound.fits, ?_, sound.verified, fun hash value among =>
        sound.returned hash value (returned hash value among)⟩
      · rw [fetcher]
        exact sound.refines
      · rw [uses]
        exact sound.ordered
  | hit binaryHash value found fetcher uses returned =>
      obtain ⟨among, refines⟩ := sound.refines.cacheGet_some found
      rw [← fetcher] at refines
      have isHash : (crypto.sha256 value.data).data = binaryHash.data :=
        Hex.encode_injective (sound.verified _ among).symm
      exact ⟨_, sound.touch among refines uses (sound.returned_cons isHash returned)⟩
  | put call binaryHash binary isLabel asked isHash fits fetcher uses returned =>
      rw [sound.refines.cached_eq] at fits
      have returned' := sound.returned_cons isHash returned
      by_cases present : cacheKey binaryHash ∈ c.entries.map CacheEntry.key
      · have refines := sound.refines.cachePut_present binary present
        obtain ⟨entry, among, isKey⟩ := List.mem_map.mp present
        rw [← fetcher, ← isKey] at refines
        rw [← isKey] at uses
        exact ⟨_, sound.touch among refines uses returned'⟩
      · have refines := sound.refines.cachePut_fresh present fits
        rw [← fetcher] at refines
        exact ⟨_, sound.add refines (congrArg Hex.encode isHash.symm) fits uses returned'⟩
  | bound maxCacheBytes isLabel fetcher uses returned =>
      rcases Int.lt_or_le 0 maxCacheBytes with positive | ignored
      · have refines := sound.refines.setMaxCacheBytes positive sound.fits
        have less := Lru.Cache.trim_isPrefix CacheEntry.weight maxCacheBytes c
        rw [← fetcher] at refines
        refine ⟨_, refines, ?_, ?_, ?_, ?_⟩
        · exact Nat.lt_of_le_of_lt (Lru.total_le_of_isPrefix _ less) sound.fits
        · rw [uses]
          exact Lru.Cache.ordered_sublist less.sublist sound.ordered
        · exact fun entry member => sound.verified entry (less.mem member)
        · rw [returned]
          exact sound.returned
      · rw [BinaryFetcher.setMaxCacheBytes_ignored ignored] at fetcher
        refine ⟨c, ?_, sound.fits, ?_, sound.verified, ?_⟩
        · rw [fetcher]
          exact sound.refines
        · rw [uses]
          exact sound.ordered
        · rw [returned]
          exact sound.returned

theorem sound_of_run {maxCacheBytes : Int} {ls : List FetchLabel}
    (run : Run (step crypto) anyStep (start maxCacheBytes) ls s) : ∃ c, s.Sound crypto c := by
  induction run with
  | nil => exact ⟨_, .start maxCacheBytes⟩
  | snoc _ _ taken ih =>
      obtain ⟨c, sound⟩ := ih
      exact sound.step taken

end FetchSystem

/-- What is inserted by a call whose binary has the hash it asked for. -/
theorem inserts_of_verified {call : Nat} {binaryHash binary : Slice UInt8}
    (asked : s.pending.lookup call = some binaryHash)
    (verified : (crypto.sha256 binary.data).data = binaryHash.data) :
    s.inserts crypto (.rawReturns call (.ok binary)) =
      if s.fetcher.items.lookup (cacheKey binaryHash) = none then some binary else none := by
  rw [FetchSystem.inserts, asked]
  simp [verified]

/-! ## The size bound -/

/-- What is cached is within the bound. -/
def FetchSystem.Bounded (s : FetchSystem) : Prop :=
  Lru.total CacheEntry.weight s.fetcher.cached ≤ s.fetcher.maxCacheBytes

instance (s : FetchSystem) : Decidable s.Bounded := inferInstanceAs (Decidable (_ ≤ _))

/-- A binary that a step inserts is within the bound on its own. -/
def FetchSystem.InsertsWithinBound (crypto : Crypto) (s : FetchSystem) (l : FetchLabel) : Prop :=
  ∀ binary ∈ s.inserts crypto l, (binary.length : Int) ≤ s.fetcher.maxCacheBytes

instance (s : FetchSystem) (l : FetchLabel) : Decidable (s.InsertsWithinBound crypto l) :=
  inferInstanceAs (Decidable (∀ _ ∈ _, _))

/-- After an insertion the bound holds if the binary is within it: either there was room for it, or
it is alone. -/
theorem total_trim_add_iff {entry : CacheEntry} {bound : Int}
    {fresh : entry.key ∉
      (c.trim CacheEntry.weight (bound - entry.value.length)).entries.map CacheEntry.key} :
    (Lru.total CacheEntry.weight ((c.trim CacheEntry.weight
      (bound - entry.value.length)).add entry fresh).entries : Int) ≤ bound ↔
      (entry.value.length : Int) ≤ bound := by
  rw [Lru.Cache.entries_add, Lru.total_cons, CacheEntry.weight]
  rcases Lru.Cache.total_trim CacheEntry.weight (bound - entry.value.length) c with room | alone
  · omega
  · rw [alone, Lru.total_nil]
    omega

theorem FetchSystem.Sound.bounded_iff (sound : s.Sound crypto c) (bounded : s.Bounded)
    (taken : s.step crypto l = some s') : s'.Bounded ↔ s.InsertsWithinBound crypto l := by
  have before : (Lru.total CacheEntry.weight c.entries : Int) ≤ s.fetcher.maxCacheBytes := by
    rw [← sound.refines.cached_eq]
    exact bounded
  have nothing : s.inserts crypto l = none → s.InsertsWithinBound crypto l := by
    intro none_ binary among
    rw [none_] at among
    cases among
  cases fetchMoves sound.refines taken with
  | quiet fetcher uses returned inserts =>
      refine iff_of_true ?_ (nothing inserts)
      rw [Bounded, fetcher]
      exact bounded
  | hit binaryHash value found fetcher uses returned inserts =>
      refine iff_of_true ?_ (nothing inserts)
      have refines := (sound.refines.cacheGet_some found).2
      rw [Bounded, fetcher, refines.cached_eq, BinaryFetcher.maxCacheBytes_cacheGet,
        Lru.total_perm (Lru.Cache.entries_touch_perm _ c)]
      exact before
  | put call binaryHash binary isLabel asked isHash fits fetcher =>
      rw [sound.refines.cached_eq] at fits
      have inserts := inserts_of_verified asked isHash
      rw [← isLabel] at inserts
      by_cases present : cacheKey binaryHash ∈ c.entries.map CacheEntry.key
      · have refines := sound.refines.cachePut_present binary present
        rw [if_neg fun absent => sound.refines.lookup_eq_none_iff.mp absent present] at inserts
        refine iff_of_true ?_ (nothing inserts)
        rw [Bounded, fetcher, refines.cached_eq, BinaryFetcher.maxCacheBytes_cachePut,
          Lru.total_perm (Lru.Cache.entries_touch_perm _ c)]
        exact before
      · have refines := sound.refines.cachePut_fresh present fits
        rw [if_pos (sound.refines.lookup_eq_none_iff.mpr present)] at inserts
        rw [Bounded, fetcher, refines.cached_eq, BinaryFetcher.maxCacheBytes_cachePut,
          total_trim_add_iff, InsertsWithinBound, inserts]
        simp
  | bound maxCacheBytes isLabel fetcher =>
      refine iff_of_true ?_ (nothing (by rw [isLabel]; rfl))
      rcases Int.lt_or_le 0 maxCacheBytes with accepted | ignored
      · have refines := sound.refines.setMaxCacheBytes accepted sound.fits
        rw [Bounded, fetcher, refines.cached_eq,
          BinaryFetcher.maxCacheBytes_setMaxCacheBytes accepted]
        rcases Lru.Cache.total_trim CacheEntry.weight maxCacheBytes c with fits | empty
        · exact fits
        · rw [empty]
          exact Int.le_of_lt accepted
      · rw [Bounded, fetcher, BinaryFetcher.setMaxCacheBytes_ignored ignored]
        exact bounded

end

/-- **The bound.** Every state of a run is within the bound exactly when no step inserts a binary
that exceeds the bound on its own. -/
theorem cache_bound_iff (crypto : Crypto) (maxCacheBytes : Int) (positive : 0 < maxCacheBytes)
    (ls : List FetchLabel) :
    (∀ pre s, pre <+: ls →
      Run (FetchSystem.step crypto) anyStep (.start maxCacheBytes) pre s → s.Bounded) ↔
    ∀ pre s l s', StepOf (FetchSystem.step crypto) anyStep (.start maxCacheBytes) ls pre s l s' →
      s.InsertsWithinBound crypto l := by
  refine Run.forall_iff_steps (Int.le_of_lt positive) fun ls s l s' run bounded taken => ?_
  obtain ⟨c, sound⟩ := FetchSystem.sound_of_run run
  exact sound.bounded_iff bounded taken

namespace Sample

open ConfidentialCompute.Sample

def binary : Slice UInt8 := ⟨[1, 2], by decide⟩

def hashOf (binary : Slice UInt8) : Slice UInt8 :=
  ⟨(digest binary.data).data, by rw [(digest binary.data).length_eq]; decide⟩

def fetching (call : Nat) (binary : Slice UInt8) : List FetchLabel :=
  [.fetch call (hashOf binary) true, .rawReturns call (.ok binary)]

def fetchOnce : List FetchLabel := fetching 0 binary

end Sample

/-- A binary of two bytes is cached although one byte is the bound. -/
theorem cache_bound_exceeded :
    ∃ s, Run (FetchSystem.step Sample.crypto) anyStep (.start 1) Sample.fetchOnce s ∧
      ¬ s.Bounded :=
  Run.exists_of_exec (by decide +kernel)

/-- With a bound of two bytes every state is within it. -/
theorem cache_bound_kept :
    0 < (2 : Int) ∧ ∀ pre s, pre <+: Sample.fetchOnce →
      Run (FetchSystem.step Sample.crypto) anyStep (.start 2) pre s → s.Bounded := by
  refine ⟨by decide, (cache_bound_iff Sample.crypto 2 (by decide) Sample.fetchOnce).mpr
    fun pre s l s' st => ?_⟩
  have small : ∀ taken ∈ visited (FetchSystem.step Sample.crypto) (.start 2) Sample.fetchOnce,
      taken.1.InsertsWithinBound Sample.crypto taken.2 := by decide +kernel
  exact small _ st.mem_visited

/-! ## Integrity and the order of evictions -/

/-- The map and the list hold the same elements, each under its own key and once. -/
structure BinaryFetcher.Paired (f : BinaryFetcher) : Prop where
  nodup : f.evictList.Nodup
  mapped : ∀ el ∈ f.evictList, ∃ entry,
    f.elements[el]? = some entry ∧ f.items.lookup entry.key = some el
  listed : ∀ key el, f.items.lookup key = some el →
    el ∈ f.evictList ∧ ∃ entry, f.elements[el]? = some entry ∧ entry.key = key

/-- What is cached after a step is exactly what its evictions leave of the entries before it, with
the entry that it inserts, if any. The evictions make room for that entry. -/
def FetchSystem.EvictsOldest (crypto : Crypto) (s : FetchSystem) (l : FetchLabel)
    (s' : FetchSystem) : Prop :=
  ∃ left, Lru.Evicts CacheEntry.key CacheEntry.weight s.uses
      (s'.fetcher.maxCacheBytes - Lru.total CacheEntry.weight (s.inserted crypto l))
      s.fetcher.cached left ∧
    s'.fetcher.cached.Perm (s.inserted crypto l ++ left)

section

variable {crypto : Crypto} {s s' : FetchSystem} {l : FetchLabel} {c : Lru.Cache CacheEntry.key}

theorem BinaryFetcher.Refines.paired {f : BinaryFetcher} (refines : f.Refines c) : f.Paired where
  nodup := refines.nodup
  mapped el among := by
    have member : f.elements[el]? ∈ f.evictList.map (f.elements[·]?) := List.mem_map_of_mem among
    rw [refines.listed] at member
    obtain ⟨entry, _, holds⟩ := List.mem_map.mp member
    exact ⟨entry, holds.symm, (refines.mapped entry.key el).mpr ⟨among, entry, holds.symm, rfl⟩⟩
  listed key el found := (refines.mapped key el).mp found

theorem FetchSystem.Sound.evicts (sound : s.Sound crypto c) (taken : s.step crypto l = some s') :
    s.EvictsOldest crypto l s' := by
  -- a step that inserts nothing and takes nothing out
  have keeps : s.inserts crypto l = none → s'.fetcher.cached.Perm s.fetcher.cached →
      s.EvictsOldest crypto l s' :=
    fun inserts perm => ⟨s.fetcher.cached, .done, by rwa [inserted, inserts]⟩
  rw [EvictsOldest] at keeps ⊢
  cases fetchMoves sound.refines taken with
  | quiet fetcher uses returned inserts => exact keeps inserts (by rw [fetcher])
  | hit binaryHash value found fetcher uses returned inserts =>
      refine keeps inserts ?_
      rw [fetcher, (sound.refines.cacheGet_some found).2.cached_eq, sound.refines.cached_eq]
      exact Lru.Cache.entries_touch_perm _ c
  | put call binaryHash binary isLabel asked isHash fits fetcher =>
      subst isLabel
      rw [sound.refines.cached_eq] at fits
      have inserts := inserts_of_verified asked isHash
      by_cases present : cacheKey binaryHash ∈ c.entries.map CacheEntry.key
      · rw [if_neg fun absent => sound.refines.lookup_eq_none_iff.mp absent present] at inserts
        refine keeps inserts ?_
        rw [fetcher, (sound.refines.cachePut_present binary present).cached_eq,
          sound.refines.cached_eq]
        exact Lru.Cache.entries_touch_perm _ c
      · rw [if_pos (sound.refines.lookup_eq_none_iff.mpr present)] at inserts
        have entry : s.inserted crypto (.rawReturns call (.ok binary)) =
            [⟨cacheKey binaryHash, binary⟩] := by
          rw [inserted, inserts, cacheKey, ← isHash]
          rfl
        have weight : Lru.total CacheEntry.weight [⟨cacheKey binaryHash, binary⟩] =
            binary.length := by simp [CacheEntry.weight]
        rw [entry, weight, fetcher, BinaryFetcher.maxCacheBytes_cachePut,
          sound.refines.cached_eq, (sound.refines.cachePut_fresh present fits).cached_eq]
        exact ⟨_, Lru.Cache.evicts_trim sound.ordered, .refl _⟩
  | bound maxCacheBytes isLabel fetcher =>
      subst isLabel
      rcases Int.lt_or_le 0 maxCacheBytes with accepted | ignored
      · rw [fetcher, BinaryFetcher.maxCacheBytes_setMaxCacheBytes accepted,
          sound.refines.cached_eq, (sound.refines.setMaxCacheBytes accepted sound.fits).cached_eq]
        refine ⟨_, Lru.Cache.evicts_trim sound.ordered, ?_⟩
        simp [inserted, inserts]
      · refine keeps rfl ?_
        rw [fetcher, BinaryFetcher.setMaxCacheBytes_ignored ignored]

end

/-- **Integrity.** In every reachable state the count is the sum of the cached lengths, the map and
the list hold the same elements, and what is cached under a hash or was returned for one has that
hash. What is cached after the next step is exactly what its evictions leave of the old entries,
with the entry that it inserts, if any. Each eviction takes the entry whose latest insertion or hit
is the oldest among those still cached, and without it the bound would be exceeded. -/
theorem binary_cache_integrity (crypto : Crypto) (maxCacheBytes : Int) (ls : List FetchLabel)
    (s : FetchSystem) (run : Run (FetchSystem.step crypto) anyStep (.start maxCacheBytes) ls s) :
    s.fetcher.cacheBytes = Lru.total CacheEntry.weight s.fetcher.cached ∧
    s.fetcher.Paired ∧
    (∀ (hash : Slice UInt8) (el : Nat) (entry : CacheEntry),
      s.fetcher.items.lookup (cacheKey hash) = some el → s.fetcher.elements[el]? = some entry →
        (crypto.sha256 entry.value.data).data = hash.data) ∧
    (∀ hash value, (hash, .ok value) ∈ s.returned →
      (crypto.sha256 value.data).data = hash.data) ∧
    ∀ l s', s.step crypto l = some s' → s.EvictsOldest crypto l s' := by
  obtain ⟨c, sound⟩ := FetchSystem.sound_of_run run
  refine ⟨?_, sound.refines.paired, ?_, sound.returned, fun l s' taken => sound.evicts taken⟩
  · rw [sound.refines.counted, sound.refines.cached_eq]
  · intro hash el entry found holds
    obtain ⟨among, entry', holds', isKey⟩ := (sound.refines.mapped _ el).mp found
    cases holds.symm.trans holds'
    have isHash := sound.verified entry (sound.refines.mem_entries among holds)
    exact (Hex.encode_injective (isKey.symm.trans isHash)).symm

namespace Sample

open ConfidentialCompute.Sample

def small : Slice UInt8 := one 7

def third : Slice UInt8 := ⟨[3, 4], by decide⟩

/-- Binaries of one byte and of two bytes are fetched, and the first is hit. Then a third one, of
two bytes, is asked for. -/
def thirdAsked : List FetchLabel :=
  fetching 0 small ++ fetching 1 binary ++
    [.fetch 2 (hashOf small) true, .fetch 3 (hashOf third) true]

def entryOf (binary : Slice UInt8) : CacheEntry := ⟨Hex.encode (digest binary.data).data, binary⟩

end Sample

/-- With a bound of four bytes, the third binary takes the place of the second, which was used
before the first. -/
theorem binary_cache_integrity_one_eviction :
    ∃ s s', Run (FetchSystem.step Sample.crypto) anyStep (.start 4) Sample.thirdAsked s ∧
      s.step Sample.crypto (.rawReturns 3 (.ok Sample.third)) = some s' ∧
      s.fetcher.cached = [Sample.small, Sample.binary].map Sample.entryOf ∧
      s'.fetcher.cached = [Sample.third, Sample.small].map Sample.entryOf ∧
      s.EvictsOldest Sample.crypto (.rawReturns 3 (.ok Sample.third)) s' ∧ s.fetcher.Paired := by
  obtain ⟨s, run, before, after⟩ : ∃ s, Run (FetchSystem.step Sample.crypto) anyStep (.start 4)
      Sample.thirdAsked s ∧
      s.fetcher.cached = [Sample.small, Sample.binary].map Sample.entryOf ∧
      (s.step Sample.crypto (.rawReturns 3 (.ok Sample.third))).map (·.fetcher.cached) =
        some ([Sample.third, Sample.small].map Sample.entryOf) :=
    Run.exists_of_exec (by decide +kernel)
  obtain ⟨s', taken, left⟩ := Option.map_eq_some_iff.mp after
  have integrity := binary_cache_integrity Sample.crypto 4 Sample.thirdAsked s run
  exact ⟨s, s', run, taken, before, left, integrity.2.2.2.2 _ s' taken, integrity.2.1⟩

end ConfidentialCompute.Workflows
