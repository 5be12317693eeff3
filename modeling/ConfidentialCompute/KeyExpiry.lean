import ConfidentialCompute.PoolInvariant
import ConfidentialCompute.PoolSteps
import ConfidentialCompute.PoolTrust

/-!
# How long a cached key is served

The pool keeps a response for the least lifetime among its keys, capped by `MaxTTL` and less a
buffer. An enclave counts the lifetime of a key from its creation, and the cache counts it from
the moment at which the response is stored. A response is therefore served for longer than its
keys live whenever the keys were older than the buffer when it was stored.
-/

namespace ConfidentialCompute

open Go Runs

/-- `time.Duration(float64(minTTL) * TTLBufferPercent)` for a ratio, rounded toward zero. -/
def ttlBufferOf (ratio : Rat) (minTTL : Int) : Int := (minTTL * ratio.num).tdiv ratio.den

/-- The creation times and lifetimes of the most recently created keys of a response. -/
def EnclavePublicKeyData.newestKeys (data : EnclavePublicKeyData) : List (Int × Int) :=
  (data.creationTimes.data.zip data.ttls.data).filter fun key =>
    data.creationTimes.data.all fun creation => decide (creation ≤ key.1)

/-- A most recently created key has not outlived its lifetime at `t`. -/
def EnclavePublicKeyData.NewestLive (data : EnclavePublicKeyData) (t : Int) : Prop :=
  ∀ key ∈ data.newestKeys, t ≤ key.1 + key.2

instance (data : EnclavePublicKeyData) (t : Int) : Decidable (data.NewestLive t) :=
  inferInstanceAs (Decidable (∀ key ∈ _, _))

/-- A response stored at `now` leaves the cache before its newest key expires. -/
def OutlivedBy (config : CacheConfig) (now : Int) (data : EnclavePublicKeyData) : Prop :=
  config.enableCache = true → 0 < calculateEffectiveTTL config data.ttls →
    data.NewestLive (now + calculateEffectiveTTL config data.ttls)

/-! ## The cache in a run -/

/-- The cache is unbounded, and what is in it had a positive lifetime when it was stored. -/
structure CacheSound (config : CacheConfig) (cache : PublicKeyCache) : Prop where
  unbounded : cache.maxEntries ≤ 0
  positive : AllCached config cache fun data => 0 < calculateEffectiveTTL config data.ttls

section

variable {config : CacheConfig} {cache cache' : PublicKeyCache} {now : Int} {enclaveID : Bytes32}
  {data : EnclavePublicKeyData}

theorem CacheSound.move (sound : CacheSound config cache)
    (moved : CacheMove config now cache cache') : CacheSound config cache' := by
  cases moved with
  | kept => exact sound
  | stored enclaveID data =>
      refine ⟨?_, sound.positive.set And.right⟩
      unfold setCachedPublicKey
      split
      · rw [Cache.maxEntries_set]
        exact sound.unbounded
      · exact sound.unbounded
  | flushed => exact ⟨sound.unbounded, .flush _ _⟩
  | collected => exact ⟨sound.unbounded, sound.positive.garbageCollect⟩

theorem cacheSound_of_run {pool : PoolServices} {nodes : Slice PoolNode} {start : Int}
    {ls : List PoolLabel} {s : PoolState}
    (run : Run (PoolState.step pool) anyStep (.init pool nodes start) ls s) :
    CacheSound pool.cacheConfig s.publicKeyCache := by
  induction run with
  | nil => exact ⟨le_rfl, .newCache⟩
  | snoc _ _ taken ih => exact ih.move (PoolState.writes_of_step taken).1

/-! ## A response and what is served of it -/

/-- What the cache answers at `t` after a response has been stored at `now`. -/
theorem getCachedPublicKey_stored (sound : CacheSound config cache)
    (enabled : config.enableCache = true)
    (positive : 0 < calculateEffectiveTTL config data.ttls) (t : Int) :
    getCachedPublicKey config (setCachedPublicKey config cache now enclaveID data) t enclaveID =
      if t ≤ now + calculateEffectiveTTL config data.ttls then some data else none := by
  have room : cache.HasRoom enclaveID := Or.inl sound.unbounded
  unfold getCachedPublicKey setCachedPublicKey
  rw [if_pos enabled, if_pos ⟨enabled, positive⟩]
  unfold Cache.get
  rw [Cache.lookup_set room, if_pos rfl]
  dsimp only [Option.getD_some]
  by_cases within : t ≤ now + calculateEffectiveTTL config data.ttls
  · rw [if_pos within, if_neg (by unfold CacheItem.Expired; dsimp only; omega)]
    rfl
  · rw [if_neg within, if_pos (by unfold CacheItem.Expired; dsimp only; omega)]
    rfl

/-- A response that is not stored is not in the cache either. -/
theorem getCachedPublicKey_not_stored (sound : CacheSound config cache)
    (refused : ¬ (config.enableCache = true ∧ 0 < calculateEffectiveTTL config data.ttls))
    (t : Int) :
    getCachedPublicKey config (setCachedPublicKey config cache now enclaveID data) t enclaveID ≠
      some data := by
  intro served
  unfold setCachedPublicKey at served
  rw [if_neg refused] at served
  have positive := sound.positive.get served
  unfold getCachedPublicKey at served
  split at served
  · rename_i enabled
    exact refused ⟨enabled, positive⟩
  · cases served

end

/-- **Served while alive.** In any state of the pool, let a response be stored at `now`. The cache
answers with it at later times only while its most recently created key is alive, if and only if
it is not stored at all or leaves the cache before that key expires. -/
theorem cached_key_live_iff {pool : PoolServices} {nodes : Slice PoolNode} {start now : Int}
    {ls : List PoolLabel} {s : PoolState}
    (run : Run (PoolState.step pool) anyStep (.init pool nodes start) ls s)
    (enclaveID : Bytes32) (data : EnclavePublicKeyData) :
    (∀ t, now ≤ t →
      getCachedPublicKey pool.cacheConfig
        (setCachedPublicKey pool.cacheConfig s.publicKeyCache now enclaveID data) t enclaveID =
          some data → data.NewestLive t) ↔ OutlivedBy pool.cacheConfig now data := by
  have sound := cacheSound_of_run run
  constructor
  · intro live enabled positive
    -- The last moment at which the response is served.
    apply live _ (by omega)
    rw [getCachedPublicKey_stored sound enabled positive, if_pos le_rfl]
  · intro outlived t _ served key newest
    by_cases stored : pool.cacheConfig.enableCache = true ∧
        0 < calculateEffectiveTTL pool.cacheConfig data.ttls
    · rw [getCachedPublicKey_stored sound stored.1 stored.2] at served
      split at served
      · rename_i within
        exact within.trans (outlived stored.1 stored.2 key newest)
      · cases served
    · exact (getCachedPublicKey_not_stored sound stored t served).elim

/-- In terms of ages: at the time of storing, a newest key is no older than the buffer and what
its lifetime has over the one that the cache starts from. -/
theorem outlivedBy_iff_age {config : CacheConfig} {now ttl minTTL : Int} {ttls : List Int}
    {data : EnclavePublicKeyData} (keys : data.ttls.data = ttl :: ttls)
    (least : minTTL = min (ttls.foldl min ttl) config.maxTTL) (fits : minTTL < 2 ^ 63)
    (buffer : 0 ≤ config.ttlBuffer minTTL ∧ config.ttlBuffer minTTL ≤ minTTL) :
    OutlivedBy config now data ↔
      (config.enableCache = true → max (config.ttlBuffer minTTL) second < minTTL →
        ∀ key ∈ data.newestKeys,
          now - key.1 ≤ key.2 - minTTL + max (config.ttlBuffer minTTL) second) := by
  have effective : calculateEffectiveTTL config data.ttls =
      minTTL - max (config.ttlBuffer minTTL) second := by
    unfold calculateEffectiveTTL
    rw [keys]
    dsimp only
    rw [← least]
    unfold second
    exact Int.bmod_eq_of_le (by omega) (by omega)
  unfold OutlivedBy EnclavePublicKeyData.NewestLive
  rw [effective]
  refine imp_congr_right fun _ => imp_congr (by omega) (forall₂_congr fun key _ => by omega)

/-! ## Two responses -/

namespace Sample

def defaultPool : PoolServices :=
  { poolServices with
    cacheConfig := ⟨30 * minute, 5 * minute, true, ttlBufferOf { num := 1, den := 10 }, false⟩ }

/-- One key with a lifetime of ten minutes, created at time zero. -/
def tenMinuteKey : EnclavePublicKeyData :=
  { keyData 1 with creationTimes := one 0, ttls := one (10 * minute) }

end Sample

section

open Sample

theorem key_live_stored_at_once :
    Run (PoolState.step defaultPool) anyStep (.init defaultPool (one (poolNode 1)) 0) []
        (.init defaultPool (one (poolNode 1)) 0) ∧
      ∀ t, second ≤ t →
        getCachedPublicKey defaultPool.cacheConfig (setCachedPublicKey defaultPool.cacheConfig
            (PoolState.init defaultPool (one (poolNode 1)) 0).publicKeyCache
            second (key 1) tenMinuteKey) t (key 1) =
              some tenMinuteKey → tenMinuteKey.NewestLive t :=
  ⟨.nil, (cached_key_live_iff .nil (key 1) tenMinuteKey).mpr
    ((outlivedBy_iff_age rfl rfl (by decide) (by decide)).mpr fun _ _ => by decide)⟩

/-- Stored nine minutes after its creation, a key of ten minutes is still served five minutes
after that. -/
theorem expired_key_served :
    getCachedPublicKey defaultPool.cacheConfig (setCachedPublicKey defaultPool.cacheConfig
          (PoolState.init defaultPool (one (poolNode 1)) 0).publicKeyCache
          (9 * minute) (key 1) tenMinuteKey) (14 * minute) (key 1) = some tenMinuteKey ∧
      tenMinuteKey.newestKeys = [(0, 10 * minute)] ∧
      ¬ tenMinuteKey.NewestLive (14 * minute) := by
  refine ⟨?_, by decide +kernel, by decide +kernel⟩
  rw [getCachedPublicKey_stored (cacheSound_of_run .nil) rfl (by decide +kernel)]
  exact if_pos (by decide +kernel)

end

end ConfidentialCompute
