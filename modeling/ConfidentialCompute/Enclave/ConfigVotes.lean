import ConfidentialCompute.Enclave.Steps
import ConfidentialCompute.Sample
import Mathlib.Logic.Relation

/-!
# Votes on configurations

A PATCH `/config` request is a vote by a current signer for the configuration in its
body. Votes are kept per proposed configuration as the set of the voters' key digests, and
the configuration is applied when the set reaches `F + 1`.
-/

namespace ConfidentialCompute

open Go Runs

variable {p : Platform} {crypto : Crypto} {s₀ s s' m : EnclaveServer} {now t : Int}
  {a : EnclaveAction} {l : EnclaveLabel} {ls since : List EnclaveLabel} {h d : Bytes32}
  {item : CacheItem (Finset Bytes32)} {config : EnclaveConfig}

/-! ## One step -/

/-- A step keeps the lifetime of votes and the cap of their cache. -/
theorem ConfigEffect.params (effect : ConfigEffect crypto s now a s') :
    s'.pendingConfigVotes.timeToLive = s.pendingConfigVotes.timeToLive ∧
      s'.pendingConfigVotes.maxEntries = s.pendingConfigVotes.maxEntries := by
  cases effect with
  | same same | posted _ same | collected same =>
      rw [same.pendingConfigVotes]
      exact ⟨rfl, rfl⟩
  | voted _ _ same | applied _ _ same =>
      rw [same.pendingConfigVotes]
      exact ⟨Cache.timeToLive_set, Cache.maxEntries_set⟩

/-- An entry that is pending after a step was so before, or the step is a valid vote that
has just renewed it. -/
theorem ConfigEffect.pending (effect : ConfigEffect crypto s now a s')
    (unbounded : s.pendingConfigVotes.maxEntries ≤ 0)
    (found : s'.pendingConfigVotes.items.lookup h = some item) :
    s.pendingConfigVotes.items.lookup h = some item ∨
      ∃ voted signature signer attestor,
        a = .updateConfig (.config voted signature) attestor ∧ voted.hash crypto = h ∧
          ValidVote crypto s voted signature signer ∧
          item = ⟨s.votesWith crypto now h signer, now, s.pendingConfigVotes.timeToLive⟩ := by
  cases effect with
  | same same =>
      rw [same.pendingConfigVotes] at found
      exact Or.inl found
  | posted _ same =>
      rw [same.pendingConfigVotes] at found
      exact Or.inl found
  | @voted voted signature signer attestor _ valid _ same =>
      rw [same.pendingConfigVotes] at found
      dsimp only [EnclaveServer.recordVote] at found
      rw [Cache.lookup_set (.of_unbounded unbounded)] at found
      split at found
      · rename_i same
        subst same
        cases found
        exact Or.inr ⟨voted, signature, signer, attestor, rfl, rfl, valid, rfl⟩
      · exact Or.inl found
  | applied _ _ same =>
      rw [same.pendingConfigVotes] at found
      cases found
  | collected same =>
      rw [same.pendingConfigVotes] at found
      exact Or.inl (Cache.lookup_of_garbageCollect found)

/-! ## The history of votes -/

/-- `l` is a vote for the configuration with hash `h` by the signer whose key has digest
`d`, and the server counted it in the run from `m` along `ls`. -/
def CountedVote (p : Platform) (m : EnclaveServer) (ls : List EnclaveLabel) (h d : Bytes32)
    (l : EnclaveLabel) : Prop :=
  ∃ pre s s', StepOf (EnclaveServer.step p) anyStep m ls pre s l s' ∧
    ∃ voted signature signer attestor,
      l.action = .updateConfig (.config voted signature) attestor ∧
        voted.hash p.toCrypto = h ∧ ValidVote p.toCrypto s voted signature signer ∧
        p.sha256 signer.data = d

theorem CountedVote.append (vote : CountedVote p m ls h d l) (more : List EnclaveLabel) :
    CountedVote p m (ls ++ more) h d l := by
  obtain ⟨pre, s, s', st, rest⟩ := vote
  exact ⟨pre, s, s', st.append more, rest⟩

theorem CountedVote.shift {first : List EnclaveLabel}
    (before : Run (EnclaveServer.step p) anyStep s₀ first m) (vote : CountedVote p m ls h d l) :
    CountedVote p s₀ (first ++ ls) h d l := by
  obtain ⟨pre, s, s', st, rest⟩ := vote
  exact ⟨first ++ pre, s, s', st.shift before, rest⟩

theorem CountedVote.mem (vote : CountedVote p m ls h d l) : l ∈ ls := by
  obtain ⟨_, _, _, st, _⟩ := vote
  exact st.mem

theorem run_params (run : Run (EnclaveServer.step p) anyStep m ls s) :
    s.pendingConfigVotes.timeToLive = m.pendingConfigVotes.timeToLive ∧
      s.pendingConfigVotes.maxEntries = m.pendingConfigVotes.maxEntries := by
  induction run with
  | nil => exact ⟨rfl, rfl⟩
  | snoc _ _ taken ih =>
      obtain ⟨ttl, cap⟩ := (EnclaveServer.step_config taken).params
      exact ⟨ttl.trans ih.1, cap.trans ih.2⟩

theorem run_clock (run : Run (EnclaveServer.step p) anyStep m ls s) :
    m.clock ≤ s.clock ∧ ∀ l ∈ ls, m.clock ≤ l.now := by
  induction run with
  | nil => exact ⟨Int.le_refl _, by simp⟩
  | @snoc ls s s' l _ _ taken ih =>
      have le := (EnclaveServer.step_eq_some taken).1
      have clock := EnclaveServer.step_clock taken
      refine ⟨by omega, fun l' member => ?_⟩
      rcases List.mem_append.mp member with old | new
      · exact ih.2 l' old
      · cases List.mem_singleton.mp new
        omega

/-- If nothing live was pending for `h` at `t`, and the run from there on takes place at `t`
or later, then what is pending for `h` at its end was dead at `t` or consists of votes
counted in the run. -/
theorem recorded_since (unbounded : m.pendingConfigVotes.maxEntries ≤ 0)
    (nothing : m.pendingConfigVotes.get t h = none)
    (run : Run (EnclaveServer.step p) anyStep m ls s) (later : ∀ l ∈ ls, t ≤ l.now)
    (found : s.pendingConfigVotes.items.lookup h = some item) :
    item.Expired t ∨ ∀ d ∈ item.value, ∃ l, CountedVote p m ls h d l := by
  induction run generalizing item with
  | nil => exact Or.inl (Cache.get_eq_none_iff.mp nothing item found)
  | @snoc ls s s' l before _ taken ih =>
      have ih := fun {item} => @ih item fun l' member => later l' (by simp [member])
      have cap : s.pendingConfigVotes.maxEntries ≤ 0 := by
        rw [(run_params before).2]
        exact unbounded
      have now : t ≤ l.now := later l (by simp)
      rcases (EnclaveServer.step_config taken).pending cap found with old | renewed
      · rcases ih old with dead | counted
        · exact Or.inl dead
        · refine Or.inr fun d member => ?_
          obtain ⟨l', vote⟩ := counted d member
          exact ⟨l', vote.append [l]⟩
      · obtain ⟨voted, signature, signer, attestor, action, hash, valid, rfl⟩ := renewed
        refine Or.inr fun d member => ?_
        rcases Finset.mem_insert.mp member with rfl | pending
        · exact ⟨l, ls, s, s', .last before trivial taken, voted, signature, signer, attestor,
            action, hash, valid, rfl⟩
        · -- the digest was in the entry that the vote found live
          cases live : s.pendingConfigVotes.get l.now h with
          | none => simp [live] at pending
          | some votes =>
              obtain ⟨old, lookup, alive, rfl⟩ := Cache.get_eq_some_iff.mp live
              rcases ih lookup with dead | counted
              · exact (alive (dead.mono now)).elim
              · rw [live] at pending
                obtain ⟨l', vote⟩ := counted d pending
                exact ⟨l', vote.append [l]⟩

/-! ## Authority over configurations -/

/-- `l` is a PATCH request with a valid config-update signature of `signer` over
`newConfig`. -/
def VoteFor (crypto : Crypto) (newConfig : EnclaveConfig) (signer : Slice UInt8)
    (l : EnclaveLabel) : Prop :=
  ∃ voted signature attestor, l.action = .updateConfig (.config voted signature) attestor ∧
    voted.hash crypto = newConfig.hash crypto ∧
    crypto.ed25519Verify signer.data (configUpdatePayload crypto (newConfig.hash crypto))
      signature.data = true

/-- At least `F + 1` distinct signers of `config` have voted for `newConfig` among `votes`. -/
def Authorized (crypto : Crypto) (votes : List EnclaveLabel) (config newConfig : EnclaveConfig) :
    Prop :=
  ∃ voters : Finset (Slice UInt8), config.f.toNat + 1 ≤ voters.card ∧
    ∀ signer ∈ voters, signer ∈ config.signers ∧ ∃ l ∈ votes, VoteFor crypto newConfig signer l

/-- The configuration `config` is set in `m` and after each label of `since`. -/
def InForce (p : Platform) (m : EnclaveServer) (since : List EnclaveLabel)
    (config : EnclaveConfig) : Prop :=
  ∀ done s, done <+: since → Run (EnclaveServer.step p) anyStep m done s →
    s.configSet = true ∧ s.config = config

/-- A part of the run along `ls` that ends in `s` took place under the configuration of `s`,
and nothing was pending at its start. -/
def Governed (p : Platform) (s₀ : EnclaveServer) (ls : List EnclaveLabel) (s : EnclaveServer) :
    Prop :=
  ∃ before since m, ls = before ++ since ∧ Run (EnclaveServer.step p) anyStep s₀ before m ∧
    Run (EnclaveServer.step p) anyStep m since s ∧
    (∀ h, m.pendingConfigVotes.items.lookup h = none) ∧ InForce p m since s.config

theorem Governed.fresh (run : Run (EnclaveServer.step p) anyStep s₀ ls s)
    (isSet : s.configSet = true) (nothing : ∀ h, s.pendingConfigVotes.items.lookup h = none) :
    Governed p s₀ ls s := by
  refine ⟨ls, [], s, by simp, run, .nil, nothing, fun done s' isPrefix run' => ?_⟩
  cases List.prefix_nil.mp isPrefix
  cases run'.eq_nil
  exact ⟨isSet, rfl⟩

theorem Governed.extend (governed : Governed p s₀ ls s) (taken : s.step p l = some s')
    (isSet : s'.configSet = true) (config : s'.config = s.config) :
    Governed p s₀ (ls ++ [l]) s' := by
  obtain ⟨before, since, m, rfl, first, second, nothing, inForce⟩ := governed
  have longer : Run (EnclaveServer.step p) anyStep m (since ++ [l]) s' :=
    .snoc second trivial taken
  refine ⟨before, since ++ [l], m, by simp, first, longer, nothing, fun done t isPrefix run => ?_⟩
  rcases List.prefix_concat_iff.mp isPrefix with rfl | shorter
  · cases run.unique longer
    exact ⟨isSet, rfl⟩
  · obtain ⟨set', config'⟩ := inForce done t shorter run
    exact ⟨set', config'.trans config.symm⟩

/-- What a run without reconfiguration keeps: votes are pending under a set configuration
only, and all of them were submitted under it. -/
structure VotesGoverned (p : Platform) (s₀ : EnclaveServer) (ls : List EnclaveLabel)
    (s : EnclaveServer) : Prop where
  locked : s.allowReconfig = false
  unbounded : s.pendingConfigVotes.maxEntries ≤ 0
  unset : s.configSet = false → ∀ h, s.pendingConfigVotes.items.lookup h = none
  governed : s.configSet = true → Governed p s₀ ls s

/-- No vote is taken before a configuration is set. -/
theorem VotesGoverned.noVotes (inv : VotesGoverned p s₀ ls s) (taken : s.step p l = some s')
    (unset : s.configSet = false) (h : Bytes32) :
    s'.pendingConfigVotes.items.lookup h = none := by
  cases found : s'.pendingConfigVotes.items.lookup h with
  | none => rfl
  | some item =>
      rcases (EnclaveServer.step_config taken).pending inv.unbounded found with
        old | ⟨_, _, _, _, _, _, valid, _⟩
      · rw [inv.unset unset h] at old
        cases old
      · rw [valid.configSet] at unset
        cases unset

theorem VotesGoverned.step (before : Run (EnclaveServer.step p) anyStep s₀ ls s)
    (inv : VotesGoverned p s₀ ls s) (taken : s.step p l = some s') :
    VotesGoverned p s₀ (ls ++ [l]) s' := by
  have effect := EnclaveServer.step_config taken
  have after : Run (EnclaveServer.step p) anyStep s₀ (ls ++ [l]) s' := .snoc before trivial taken
  have cap : s'.pendingConfigVotes.maxEntries ≤ 0 := by
    rw [effect.params.2]
    exact inv.unbounded
  have kept : s'.allowReconfig = s.allowReconfig → s'.configSet = s.configSet →
      s'.config = s.config → VotesGoverned p s₀ (ls ++ [l]) s' := by
    intro allowReconfig configSet config
    refine ⟨allowReconfig.trans inv.locked, cap, ?_, ?_⟩
    · intro unset
      rw [configSet] at unset
      exact inv.noVotes taken unset
    · intro isSet
      rw [configSet] at isSet
      exact (inv.governed isSet).extend taken (configSet.trans isSet) config
  generalize l.action = a at effect
  cases effect with
  | same same => exact kept same.allowReconfig same.configSet same.config
  | collected same => exact kept same.allowReconfig same.configSet same.config
  | posted allowed same =>
      have unset : s.configSet = false := by
        by_contra isSet
        have := allowed (by simpa using isSet)
        rw [inv.locked] at this
        cases this
      refine ⟨by rw [same.allowReconfig]; exact inv.locked, cap, ?_, ?_⟩
      · intro stillUnset
        rw [same.configSet] at stillUnset
        cases stillUnset
      · intro isSet
        exact .fresh after isSet (inv.noVotes taken unset)
  | voted valid _ same =>
      refine ⟨by rw [same.allowReconfig]; exact inv.locked, cap, ?_, ?_⟩
      · intro unset
        rw [same.configSet] at unset
        exact absurd (valid.configSet.symm.trans unset) (by simp)
      · intro isSet
        exact (inv.governed valid.configSet).extend taken isSet same.config
  | applied valid _ same =>
      refine ⟨by rw [same.allowReconfig]; exact inv.locked, cap, ?_, ?_⟩
      · intro unset
        rw [same.configSet] at unset
        exact absurd (valid.configSet.symm.trans unset) (by simp)
      · intro isSet
        apply Governed.fresh after isSet
        intro h
        rw [same.pendingConfigVotes]
        rfl

theorem VotesGoverned.of_run {appConfigurable : Bool}
    {keychain : BoxKeychain} {start : Int}
    (run : Run (EnclaveServer.step p) anyStep
      (.newEnclaveServer config false appConfigurable keychain start) ls s) :
    VotesGoverned p (.newEnclaveServer config false appConfigurable keychain start) ls s := by
  apply run.invariant_history
  · refine ⟨rfl, Int.le_refl 0, fun _ _ => rfl, ?_⟩
    intro isSet
    cases isSet
  · intro ls s l s' before inv _ taken
    exact inv.step before taken

/-- The step is a PATCH request, and a quorum of the signers of the configuration it
replaces has voted, while that configuration was in force, for the one it applies. -/
def ChangedByQuorum (p : Platform) (s₀ : EnclaveServer) (pre : List EnclaveLabel)
    (s : EnclaveServer) (l : EnclaveLabel) (s' : EnclaveServer) : Prop :=
  (∃ signature attestor, l.action = .updateConfig (.config s'.config signature) attestor) ∧
    ∃ before since m, pre = before ++ since ∧ Run (EnclaveServer.step p) anyStep s₀ before m ∧
      InForce p m since s.config ∧ Authorized p.toCrypto (since ++ [l]) s.config s'.config

/-- A vote that was counted while `config` was in force is one by a signer of `config`. -/
theorem CountedVote.voteFor {newConfig : EnclaveConfig} (inForce : InForce p m since config)
    (vote : CountedVote p m since (newConfig.hash p.toCrypto) d l) :
    ∃ signer : Slice UInt8, p.sha256 signer.data = d ∧
      signer ∈ config.signers ∧ VoteFor p.toCrypto newConfig signer l := by
  obtain ⟨pre, s, s', ⟨⟨post, eq⟩, run, _⟩, voted, signature, signer, attestor, action, hash,
    valid, digest⟩ := vote
  have isPrefix : pre <+: since := ⟨l :: post, eq.symm⟩
  obtain ⟨member, verified⟩ := verifySignature_ok valid.verified
  rw [(inForce pre s isPrefix run).2] at member
  rw [hash] at verified
  exact ⟨signer, digest, member, voted, signature, attestor, action, hash, verified⟩

theorem VotesGoverned.change (before : Run (EnclaveServer.step p) anyStep s₀ ls s)
    (inv : VotesGoverned p s₀ ls s) (taken : s.step p l = some s') (isSet : s.configSet = true)
    (changed : s'.config ≠ s.config) : ChangedByQuorum p s₀ ls s l s' := by
  have effect := EnclaveServer.step_config taken
  have le := (EnclaveServer.step_eq_some taken).1
  generalize action : l.action = a at effect
  cases effect with
  | same same | voted _ _ same | collected same => exact (changed same.config).elim
  | posted allowed _ =>
      have := allowed isSet
      rw [inv.locked] at this
      cases this
  | @applied newConfig signature signer attestor _ valid enough same =>
      obtain ⟨first, since, m, rfl, reached, run, nothing, inForce⟩ := inv.governed isSet
      have config : s'.config = newConfig := same.config
      rw [← config] at action valid enough
      refine ⟨⟨signature, attestor, action⟩, first, since, m, rfl, reached, inForce, ?_⟩
      have covered : ∀ d ∈ s.votesWith p.toCrypto l.now (s'.config.hash p.toCrypto) signer,
          ∃ voter : Slice UInt8, p.sha256 voter.data = d ∧ (voter ∈ s.config.signers ∧
            ∃ vote ∈ since ++ [l], VoteFor p.toCrypto s'.config voter vote) := by
        intro d member
        rcases Finset.mem_insert.mp member with rfl | pending
        · obtain ⟨allowed, verified⟩ := verifySignature_ok valid.verified
          exact ⟨signer, rfl, allowed, l, by simp, _, signature, attestor, action, rfl, verified⟩
        · cases live : s.pendingConfigVotes.get l.now (s'.config.hash p.toCrypto) with
          | none => simp [live] at pending
          | some votes =>
              obtain ⟨item, lookup, alive, rfl⟩ := Cache.get_eq_some_iff.mp live
              rw [live] at pending
              have clocks := run_clock run
              have cap : m.pendingConfigVotes.maxEntries ≤ 0 := by
                rw [← (run_params run).2]
                exact inv.unbounded
              have empty : m.pendingConfigVotes.get m.clock (s'.config.hash p.toCrypto) = none := by
                rw [Cache.get_eq_none_iff, nothing]
                intro item found
                cases found
              rcases recorded_since cap empty run clocks.2 lookup with dead | counted
              · exact (alive (dead.mono (by omega))).elim
              · obtain ⟨vote, isVote⟩ := counted d pending
                obtain ⟨voter, digest, allowed, voteFor⟩ := isVote.voteFor inForce
                exact ⟨voter, digest, allowed, vote, by simp [isVote.mem], voteFor⟩
      obtain ⟨voters, card, each⟩ := Quorum.exists_sources covered
      exact ⟨voters, enough.trans card, each⟩

/-- The first configuration set in the run along `ls`. -/
def FirstConfig (p : Platform) (s₀ : EnclaveServer) (ls : List EnclaveLabel)
    (config : EnclaveConfig) : Prop :=
  ∃ pre s l s', StepOf (EnclaveServer.step p) anyStep s₀ ls pre s l s' ∧
    s.configSet = false ∧ s'.configSet = true ∧ s'.config = config ∧
    ∃ method signature attestor, l.action = .setConfig method (.config config signature) attestor

/-- In the run along `ls` the configuration `newConfig` replaced `config` by a quorum. -/
def ReplacedBy (p : Platform) (s₀ : EnclaveServer) (ls : List EnclaveLabel)
    (config newConfig : EnclaveConfig) : Prop :=
  ∃ pre s l s', StepOf (EnclaveServer.step p) anyStep s₀ ls pre s l s' ∧
    s.config = config ∧ s'.config = newConfig ∧ ChangedByQuorum p s₀ pre s l s'

/-- The configuration of `s` descends from the first one by a chain of quorums. -/
def Descends (p : Platform) (s₀ : EnclaveServer) (ls : List EnclaveLabel) (s : EnclaveServer) :
    Prop :=
  ∃ first, FirstConfig p s₀ ls first ∧
    Relation.ReflTransGen (ReplacedBy p s₀ ls) first s.config

theorem Descends.append (descends : Descends p s₀ ls s) (more : List EnclaveLabel) :
    Descends p s₀ (ls ++ more) s := by
  obtain ⟨first, ⟨pre, s₁, l, s₂, st, rest⟩, chain⟩ := descends
  refine ⟨first, ⟨pre, s₁, l, s₂, st.append more, rest⟩,
    Relation.ReflTransGen.mono ?_ _ _ chain⟩
  rintro c c' ⟨pre, s₁, l, s₂, st, rest⟩
  exact ⟨pre, s₁, l, s₂, st.append more, rest⟩

theorem Descends.step (before : Run (EnclaveServer.step p) anyStep s₀ ls s)
    (inv : VotesGoverned p s₀ ls s) (descends : s.configSet = true → Descends p s₀ ls s)
    (taken : s.step p l = some s') (isSet : s'.configSet = true) :
    Descends p s₀ (ls ++ [l]) s' := by
  have last : StepOf (EnclaveServer.step p) anyStep s₀ (ls ++ [l]) ls s l s' :=
    .last before trivial taken
  cases wasSet : s.configSet with
  | true =>
      obtain ⟨first, isFirst, chain⟩ := (descends wasSet).append [l]
      by_cases same : s'.config = s.config
      · exact ⟨first, isFirst, by rwa [same]⟩
      · have quorum := inv.change before taken wasSet same
        exact ⟨first, isFirst, chain.tail ⟨ls, s, l, s', last, rfl, rfl, quorum⟩⟩
  | false =>
      have effect := EnclaveServer.step_config taken
      generalize action : l.action = a at effect
      cases effect with
      | same same | collected same =>
          rw [same.configSet] at isSet
          exact absurd (wasSet.symm.trans isSet) (by simp)
      | voted valid _ _ | applied valid _ _ =>
          exact absurd (wasSet.symm.trans valid.configSet) (by simp)
      | @posted method newConfig signature attestor _ _ same =>
          have config : s'.config = newConfig := same.config
          rw [← config] at action
          exact ⟨s'.config, ⟨ls, s, l, s', last, wasSet, isSet, rfl, method, signature, attestor,
            action⟩, .refl⟩

/-- **Authority over configurations.** In every run of an enclave started without
`allowReconfig`, once a configuration is set it only changes by a PATCH request for which a
quorum of its signers has voted while it was in force; so every configuration is reached
from the first one by a chain of such quorums. -/
theorem config_authority {config : EnclaveConfig} {appConfigurable : Bool}
    {keychain : BoxKeychain} {start : Int} {s₀ : EnclaveServer}
    (started : s₀ = .newEnclaveServer config false appConfigurable keychain start)
    (run : Run (EnclaveServer.step p) anyStep s₀ ls s) :
    (∀ pre s₁ l s₂, StepOf (EnclaveServer.step p) anyStep s₀ ls pre s₁ l s₂ →
      s₁.configSet = true → s₂.config ≠ s₁.config → ChangedByQuorum p s₀ pre s₁ l s₂) ∧
    (s.configSet = true → Descends p s₀ ls s) := by
  subst started
  constructor
  · rintro pre s₁ l s₂ ⟨_, before, _, taken⟩ isSet changed
    exact (VotesGoverned.of_run before).change before taken isSet changed
  · induction run with
    | nil =>
        intro isSet
        cases isSet
    | snoc before _ taken ih =>
        intro isSet
        exact Descends.step before (.of_run before) ih taken isSet

section

open Sample

/-- Two of four signers replace a configuration with `F = 1`. -/
theorem config_authority_two_votes :
    ∃ ls s, Run (EnclaveServer.step platform) anyStep (server 1) ls s ∧
      s.config = Sample.config 0 ∧
      (∀ pre s₁ l s₂, StepOf (EnclaveServer.step platform) anyStep (server 1) ls pre s₁ l s₂ →
        s₁.configSet = true → s₂.config ≠ s₁.config →
        ChangedByQuorum platform (server 1) pre s₁ l s₂) ∧
      (s.configSet = true → Descends platform (server 1) ls s) := by
  have found : ∃ s, Run (EnclaveServer.step platform) anyStep (server 1)
      [post (Sample.config 1), vote 1 1 (Sample.config 0), vote 2 2 (Sample.config 0)] s ∧
      s.config = Sample.config 0 := by
    apply Run.exists_of_exec
    decide +kernel
  obtain ⟨s, run, applied⟩ := found
  exact ⟨_, s, run, applied, config_authority rfl run⟩

end

/-! ## The age of counted votes -/

/-- At a PATCH request the live entry for the proposed configuration holds the votes of at
most one signer, or at some moment of the last `configVoteTTL` none was live. -/
def VoteTimely (p : Platform) (s₀ : EnclaveServer) (pre : List EnclaveLabel)
    (s : EnclaveServer) (l : EnclaveLabel) : Prop :=
  ∀ newConfig signature attestor, l.action = .updateConfig (.config newConfig signature) attestor →
    ((s.pendingConfigVotes.get l.now (newConfig.hash p.toCrypto)).getD ∅).card ≤ 1 ∨
      ∃ before opening since m, pre ++ [l] = before ++ opening :: since ∧
        Run (EnclaveServer.step p) anyStep s₀ before m ∧
        m.pendingConfigVotes.get opening.now (newConfig.hash p.toCrypto) = none ∧
        l.now - opening.now ≤ configVoteTTL

/-- The PATCH request applies its configuration, and every signer counted towards the
quorum has submitted a vote for it at most `configVoteTTL` ago. -/
def VotesInWindow (p : Platform) (s₀ : EnclaveServer) (pre : List EnclaveLabel)
    (s : EnclaveServer) (l : EnclaveLabel) : Prop :=
  ∀ newConfig signature attestor, l.action = .updateConfig (.config newConfig signature) attestor →
    ∃ signer, ValidVote p.toCrypto s newConfig signature signer ∧
      ∀ d ∈ s.votesWith p.toCrypto l.now (newConfig.hash p.toCrypto) signer,
        ∃ vote, CountedVote p s₀ (pre ++ [l]) (newConfig.hash p.toCrypto) d vote ∧
          l.now - vote.now ≤ configVoteTTL

/-- Every entry was last renewed by one of the votes in it. -/
theorem renewed_by_vote (unbounded : m.pendingConfigVotes.maxEntries ≤ 0)
    (nothing : ∀ h, m.pendingConfigVotes.items.lookup h = none)
    (run : Run (EnclaveServer.step p) anyStep m ls s)
    (found : s.pendingConfigVotes.items.lookup h = some item) :
    item.timeToLive = m.pendingConfigVotes.timeToLive ∧
      ∃ d ∈ item.value, ∃ l, CountedVote p m ls h d l ∧ l.now = item.creationTime := by
  induction run generalizing item with
  | nil =>
      rw [nothing] at found
      cases found
  | @snoc ls s s' l before _ taken ih =>
      obtain ⟨ttl, cap⟩ := run_params before
      rw [← cap] at unbounded
      rcases (EnclaveServer.step_config taken).pending unbounded found with old | renewed
      · obtain ⟨same, d, member, l', vote, time⟩ := ih old
        exact ⟨same, d, member, l', vote.append [l], time⟩
      · obtain ⟨voted, signature, signer, attestor, action, hash, valid, rfl⟩ := renewed
        exact ⟨ttl, p.sha256 signer.data, Finset.mem_insert_self _ _, l,
          ⟨ls, s, s', .last before trivial taken, voted, signature, signer, attestor, action, hash,
            valid, rfl⟩, rfl⟩

theorem run_from_first {opening : EnclaveLabel}
    (run : Run (EnclaveServer.step p) anyStep m (opening :: since) s) :
    opening.now ≤ s.clock ∧ ∀ l ∈ opening :: since, opening.now ≤ l.now := by
  have whole : Run (EnclaveServer.step p) anyStep m ([opening] ++ since) s := run
  obtain ⟨m₁, first, rest⟩ := whole.split
  have single : Run (EnclaveServer.step p) anyStep m ([] ++ [opening]) m₁ := first
  obtain ⟨m₀, _, _, taken⟩ := single.of_snoc
  have clock := EnclaveServer.step_clock taken
  obtain ⟨le, later⟩ := run_clock rest
  refine ⟨by omega, fun l member => ?_⟩
  rcases List.mem_cons.mp member with rfl | member
  · exact Int.le_refl _
  · have := later l member
    omega

/-- The votes that are live at `now`, when none was live at an earlier label, were counted
since that label. -/
theorem live_since {before : List EnclaveLabel} {opening : EnclaveLabel}
    (unbounded : s₀.pendingConfigVotes.maxEntries ≤ 0)
    (reached : Run (EnclaveServer.step p) anyStep s₀ before m)
    (nothing : m.pendingConfigVotes.get opening.now h = none)
    (run : Run (EnclaveServer.step p) anyStep m (opening :: since) s) (le : s.clock ≤ now)
    {votes : Finset Bytes32} (live : s.pendingConfigVotes.get now h = some votes)
    (member : d ∈ votes) :
    ∃ l, CountedVote p s₀ (before ++ opening :: since) h d l ∧ opening.now ≤ l.now := by
  obtain ⟨opened, later⟩ := run_from_first run
  obtain ⟨item, lookup, alive, rfl⟩ := Cache.get_eq_some_iff.mp live
  have cap : m.pendingConfigVotes.maxEntries ≤ 0 := by
    rw [(run_params reached).2]
    exact unbounded
  rcases recorded_since cap nothing run later lookup with dead | counted
  · exact (alive (dead.mono (by omega))).elim
  · obtain ⟨l, vote⟩ := counted d member
    exact ⟨l, vote.shift reached, later l vote.mem⟩

/-- **When counted votes are recent.** At every application of a proposed configuration
that meets `VoteTimely`, all votes counted were submitted within `configVoteTTL`. -/
theorem votes_in_window {config : EnclaveConfig} {allowReconfig appConfigurable : Bool}
    {keychain : BoxKeychain} {start : Int} {s₀ : EnclaveServer} {pre : List EnclaveLabel}
    (started : s₀ = .newEnclaveServer config allowReconfig appConfigurable keychain start)
    (st : StepOf (EnclaveServer.step p) anyStep s₀ ls pre s l s')
    (timely : VoteTimely p s₀ pre s l) (changed : s'.config ≠ s.config) :
    VotesInWindow p s₀ pre s l := by
  obtain ⟨_, run, _, taken⟩ := st
  have le := (EnclaveServer.step_eq_some taken).1
  have effect := EnclaveServer.step_config taken
  have unbounded : s₀.pendingConfigVotes.maxEntries ≤ 0 := by rw [started]; exact Int.le_refl 0
  have ttl : s₀.pendingConfigVotes.timeToLive = configVoteTTL := by rw [started]; rfl
  have nothing : ∀ h, s₀.pendingConfigVotes.items.lookup h = none := by
    rw [started]
    exact fun _ => rfl
  intro newConfig signature attestor action
  rw [action] at effect
  cases effect with
  | same same | voted _ _ same => exact (changed same.config).elim
  | @applied _ _ signer _ _ valid _ _ =>
      refine ⟨signer, valid, fun d member => ?_⟩
      rcases Finset.mem_insert.mp member with rfl | pending
      · refine ⟨l, ⟨pre, s, s', .last run trivial taken, newConfig, signature, signer, attestor,
          action, rfl, valid, rfl⟩, ?_⟩
        rw [Int.sub_self]
        decide
      · cases live : s.pendingConfigVotes.get l.now (newConfig.hash p.toCrypto) with
        | none => simp [live] at pending
        | some votes =>
            rw [live] at pending
            rcases timely newConfig signature attestor action with single | recent
            · -- the one signer in the entry has renewed it
              obtain ⟨item, lookup, alive, rfl⟩ := Cache.get_eq_some_iff.mp live
              rw [live] at single
              obtain ⟨lifetime, d', member', vote, isVote, time⟩ :=
                renewed_by_vote unbounded nothing run lookup
              cases Finset.card_le_one.mp single d pending d' member'
              refine ⟨vote, isVote.append [l], ?_⟩
              unfold CacheItem.Expired at alive
              omega
            · obtain ⟨before, opening, since, m, eq, reached, none_, window⟩ := recent
              rcases concat_eq_append_cons_iff.mp eq with ⟨rfl, rfl, _⟩ | ⟨since, rfl, rfl⟩
              · -- nothing was live at `l` itself
                cases reached.unique run
                rw [none_] at live
                cases live
              · obtain ⟨m', first, rest⟩ := run.split
                cases first.unique reached
                obtain ⟨vote, isVote, after⟩ :=
                  live_since unbounded reached none_ rest le live pending
                exact ⟨vote, isVote.append [l], by omega⟩

section

open Sample

/-- Three votes, each nine minutes after the one before. -/
def slowVotes : List EnclaveLabel :=
  [post (Sample.config 2), vote 0 1 (Sample.config 0), vote (9 * minute) 2 (Sample.config 0)]

def lastVote : EnclaveLabel := vote (18 * minute) 3 (Sample.config 0)

theorem votes_in_window_prompt :
    ∃ ls pre s l s', StepOf (EnclaveServer.step platform) anyStep (server 1) ls pre s l s' ∧
      VoteTimely platform (server 1) pre s l ∧ s'.config ≠ s.config ∧
      VotesInWindow platform (server 1) pre s l := by
  have found : ∃ s, Run (EnclaveServer.step platform) anyStep (server 1)
      [post (Sample.config 1), vote 0 1 (Sample.config 0)] s ∧
      ((s.pendingConfigVotes.get minute ((Sample.config 0).hash crypto)).getD ∅).card ≤ 1 ∧
      (s.step platform (vote minute 2 (Sample.config 0))).any
        (fun s' => s'.config ≠ s.config) := by
    apply Run.exists_of_exec
    decide +kernel
  obtain ⟨s, run, single, applies⟩ := found
  obtain ⟨s', taken, changed⟩ := (Option.any_eq_true _ _).mp applies
  have st := StepOf.last run trivial taken
  have timely : VoteTimely platform (server 1) [post (Sample.config 1), vote 0 1 (Sample.config 0)]
      s (vote minute 2 (Sample.config 0)) := by
    intro newConfig signature attestor action
    cases action
    exact Or.inl single
  exact ⟨_, _, s, _, s', st, timely, of_decide_eq_true changed,
    votes_in_window rfl st timely (of_decide_eq_true changed)⟩

/-- A vote is counted eighteen minutes after it was submitted, with `F = 2`: the second
vote has renewed the entry that holds the first. -/
theorem votes_outside_window :
    ∃ s s', StepOf (EnclaveServer.step platform) anyStep (server 2) (slowVotes ++ [lastVote])
        slowVotes s lastVote s' ∧
      s'.config ≠ s.config ∧ ¬ VotesInWindow platform (server 2) slowVotes s lastVote := by
  have found : ∃ s, Run (EnclaveServer.step platform) anyStep (server 2) slowVotes s ∧
      digest (key 1).data ∈
        (s.pendingConfigVotes.get lastVote.now ((Sample.config 0).hash crypto)).getD ∅ ∧
      (s.step platform lastVote).any (fun s' => s'.config ≠ s.config) := by
    apply Run.exists_of_exec
    decide +kernel
  obtain ⟨s, run, pending, applies⟩ := found
  obtain ⟨s', taken, changed⟩ := (Option.any_eq_true _ _).mp applies
  refine ⟨s, s', .last run trivial taken, of_decide_eq_true changed, fun window => ?_⟩
  obtain ⟨signer, _, counted⟩ := window _ _ _ rfl
  obtain ⟨vote, isVote, recent⟩ := counted (digest (key 1).data) (Finset.mem_insert_of_mem pending)
  have among := isVote.mem
  obtain ⟨_, _, _, _, voted, signature, voter, attestor, action, _, valid, digests⟩ := isVote
  have verified := (verifySignature_ok valid.verified).2
  simp only [slowVotes, List.cons_append, List.nil_append, List.mem_cons, List.not_mem_nil,
    or_false] at among
  rcases among with rfl | rfl | rfl | rfl
  · cases action
  · exact absurd recent (by decide)
  · cases action
    have other : voter.data = (key 2).data := signer_of_verify verified
    rw [other] at digests
    exact absurd digests (by decide +kernel)
  · cases action
    have other : voter.data = (key 3).data := signer_of_verify verified
    rw [other] at digests
    exact absurd digests (by decide +kernel)

end

end ConfidentialCompute
