import ConfidentialCompute.Enclave.PublicKeys
import ConfidentialCompute.Lib.Progress
import ConfidentialCompute.Sample

/-!
# Attested public keys

What holds of the public keys endpoint under every order of its steps. At most one request leads
a flight for a content (`SoleFlights`), so the calls of the attestor for one content follow each
other, and the cache keeps them apart by its time to live (`Spaced`). What a request is answered
with was attested for exactly what it answers (`Genuine`), and no request waits for ever. All this
is said of any lawful group of flights.
-/

namespace ConfidentialCompute

open Go Runs SingleFlight

/-! ## Leading a flight -/

namespace KeysPC

/-- The flight that a request leads. -/
def leading : KeysPC → Option (Bytes32 × Nat)
  | .attesting _ hash (.rechecking flight) => some (hash, flight)
  | .attesting _ hash (.creating flight _) => some (hash, flight)
  | .attesting _ hash (.storing flight _ _) => some (hash, flight)
  | .attesting _ hash (.landing flight _) => some (hash, flight)
  | _ => none

/-- The call of the attestor that a request has made and not finished. -/
inductive Owns : KeysPC → Nat → NsmCall → Prop
  | creating {resp : PublicKeyResponse} {hash : Bytes32} {flight k : Nat} {begunAt : Int} :
    Owns (.attesting resp hash (.creating flight k)) k ⟨hash, begunAt, none, none⟩
  | storing {resp : PublicKeyResponse} {hash : Bytes32} {flight k : Nat} {begunAt : Int}
      {att : Slice UInt8} :
    Owns (.attesting resp hash (.storing flight k att)) k ⟨hash, begunAt, some (.ok att), none⟩

def owning : KeysPC → Option Nat
  | .attesting _ _ (.creating _ k) => some k
  | .attesting _ _ (.storing _ k _) => some k
  | _ => none

variable {pc : KeysPC} {k : Nat} {call : NsmCall}

theorem Owns.owning (owns : pc.Owns k call) : pc.owning = some k := by
  cases owns <;> rfl

theorem Owns.leading (owns : pc.Owns k call) :
    ∃ flight, pc.leading = some (call.hash, flight) := by
  cases owns <;> exact ⟨_, rfl⟩

/-- A request that leads a flight waits for nobody. -/
theorem ready_of_leading {x : Bytes32 × Nat} (leads : pc.leading = some x) :
    (∀ reply, pc ≠ .answered reply) ∧
      ∀ resp hash flight, pc ≠ .attesting resp hash (.waiting flight) := by
  constructor
  · intro reply isAnswered
    rw [isAnswered] at leads
    cases leads
  · intro resp hash flight isWaiting
    rw [isWaiting] at leads
    cases leads

end KeysPC

/-- The attestor has failed, or its document has been stored. -/
def NsmCall.Over (call : NsmCall) : Prop :=
  ∃ result, call.reply = some result ∧ ∀ att, result = .ok att → call.storedAt ≠ none

def leadOf (calls : List KeysPC) (id : Nat) : Option (Bytes32 × Nat) :=
  (calls[id]?).bind KeysPC.leading

section

variable {calls : List KeysPC} {id : Nat} {pc pc' : KeysPC}

theorem leadOf_eq (found : calls[id]? = some pc) : leadOf calls id = pc.leading := by
  rw [leadOf, found, Option.bind_some]

theorem leadOf_set (found : calls[id]? = some pc) :
    leadOf (calls.set id pc') = Function.update (leadOf calls) id pc'.leading := by
  have bound := (List.getElem?_eq_some_iff.mp found).1
  funext j
  rw [Function.update_apply]
  unfold leadOf
  split
  · rename_i same
    subst same
    rw [List.getElem?_set_self bound, Option.bind_some]
  · rename_i other
    rw [List.getElem?_set_ne (Ne.symm other)]

theorem leadOf_set_same (found : calls[id]? = some pc) (same : pc'.leading = pc.leading) :
    leadOf (calls.set id pc') = leadOf calls := by
  rw [leadOf_set found, same, ← leadOf_eq found, Function.update_eq_self]

theorem leadOf_append (idle : pc.leading = none) : leadOf (calls ++ [pc]) = leadOf calls := by
  funext j
  unfold leadOf
  rw [List.getElem?_append]
  split
  · rfl
  · rename_i long
    rw [List.getElem?_eq_none (Nat.le_of_not_lt long)]
    cases j - calls.length with
    | zero => exact idle
    | succ n => rfl

/-- After a request has moved, each request is where it was or is the one that moved. -/
theorem getElem?_set_cases {j : Nat} {x : KeysPC} (found : (calls.set id pc')[j]? = some x) :
    (j = id ∧ x = pc') ∨ (j ≠ id ∧ calls[j]? = some x) := by
  grind

theorem getElem?_concat_cases {α : Type} {xs : List α} {last x : α} {j : Nat}
    (found : (xs ++ [last])[j]? = some x) : xs[j]? = some x ∨ (j = xs.length ∧ x = last) := by
  grind

theorem leading_arrival {method : HttpMethod} {param : GoString} :
    (KeysEndpoint.arrival method param).leading = none := by
  unfold KeysEndpoint.arrival
  split <;> rfl

theorem owning_arrival {method : HttpMethod} {param : GoString} :
    (KeysEndpoint.arrival method param).owning = none := by
  unfold KeysEndpoint.arrival
  split <;> rfl

end

variable {lib : Flights Bytes32 AttestorReply} {crypto : Crypto} {config : EnclaveConfig}
  {start now clock : Int} {s₀ s s' : KeysEndpoint lib} {l : KeysLabel} {ls more : List KeysLabel}
  {atts atts' : Attestations lib} {calls : List KeysPC} {id k : Nat} {action : KeysAction}
  {pc pc' : KeysPC} {resp : PublicKeyResponse} {hash : Bytes32} {call : NsmCall}
  {result : AttestorReply} {att : Slice UInt8}

/-- The flights are led by the requests that lead them, and each call of the attestor that is
not over is owned by a request. -/
structure SoleFlights (atts : Attestations lib) (calls : List KeysPC) : Prop where
  led : lib.Led atts.attestationGroup (leadOf calls)
  owned : ∀ (id : Nat) (pc : KeysPC) (k : Nat), calls[id]? = some pc → pc.owning = some k →
    ∃ call, atts.nsm[k]? = some call ∧ pc.Owns k call
  owner : ∀ (k : Nat) (call : NsmCall), atts.nsm[k]? = some call →
    call.Over ∨ ∃ (id : Nat) (pc : KeysPC), calls[id]? = some pc ∧ pc.Owns k call

namespace SoleFlights

theorem led_same (sole : SoleFlights atts calls) (found : calls[id]? = some pc)
    (same : pc'.leading = pc.leading) :
    lib.Led atts.attestationGroup (leadOf (calls.set id pc')) := by
  rw [leadOf_set_same found same]
  exact sole.led

/-- A request that is about to ask the attestor finds every earlier call for the same content
over. -/
theorem all_over (sole : SoleFlights atts calls) {flight : Nat} (found : calls[id]? = some pc)
    (leads : pc.leading = some (hash, flight)) (idle : pc.owning = none)
    (made : atts.nsm[k]? = some call) (same : call.hash = hash) :
    call.Over := by
  rcases sole.owner k call made with done | ⟨j, other, found', owns⟩
  · exact done
  · obtain ⟨flight', leads'⟩ := owns.leading
    rw [same, ← leadOf_eq found'] at leads'
    rw [← leadOf_eq found] at leads
    have isId := sole.led.unique leads leads'
    subst isId
    cases found.symm.trans found'
    rw [owns.owning] at idle
    cases idle

theorem owner_unique (sole : SoleFlights atts calls) {j : Nat} {other : KeysPC}
    (found : calls[id]? = some pc) (owns : pc.owning = some k) (found' : calls[j]? = some other)
    (owns' : other.owning = some k) : j = id := by
  obtain ⟨call, made, owns⟩ := sole.owned id pc k found owns
  obtain ⟨call', made', owns'⟩ := sole.owned j other k found' owns'
  cases made.symm.trans made'
  obtain ⟨flight, leads⟩ := owns.leading
  obtain ⟨flight', leads'⟩ := owns'.leading
  rw [← leadOf_eq found] at leads
  rw [← leadOf_eq found'] at leads'
  exact sole.led.unique leads' leads

/-- A call that the request does not own stays with its owner when the request moves. -/
theorem owner_set (sole : SoleFlights atts calls) (found : calls[id]? = some pc)
    (made : atts.nsm[k]? = some call) (other : pc.owning ≠ some k) :
    call.Over ∨ ∃ (j : Nat) (x : KeysPC), (calls.set id pc')[j]? = some x ∧ x.Owns k call := by
  rcases sole.owner k call made with done | ⟨j, x, found', owns⟩
  · exact Or.inl done
  · refine Or.inr ⟨j, x, ?_, owns⟩
    rw [List.getElem?_set_ne, found']
    intro same
    subst same
    cases found.symm.trans found'
    exact other owns.owning

/-- A move that is not about a call of the attestor. -/
theorem quiet (sole : SoleFlights atts calls) (found : calls[id]? = some pc)
    (idle : pc.owning = none) (idle' : pc'.owning = none) (nsm : atts'.nsm = atts.nsm)
    (led : lib.Led atts'.attestationGroup (leadOf (calls.set id pc'))) :
    SoleFlights atts' (calls.set id pc') := by
  refine ⟨led, fun j x k found' owns => ?_, fun k call made => ?_⟩
  · rcases getElem?_set_cases found' with ⟨_, rfl⟩ | ⟨_, found'⟩
    · rw [idle'] at owns
      cases owns
    · rw [nsm]
      exact sole.owned j x k found' owns
  · rw [nsm] at made
    exact sole.owner_set found made (by simp [idle])

/-- A move that changes the call that the request owns. -/
theorem change (sole : SoleFlights atts calls) {f : NsmCall → NsmCall}
    (found : calls[id]? = some pc) (owns : pc.owning = some k) (same : pc'.leading = pc.leading)
    (group : atts'.attestationGroup = atts.attestationGroup) (nsm : atts'.nsm = atts.nsm.modify k f)
    (next : ∀ call, pc.Owns k call → pc'.Owns k (f call) ∨ (pc'.owning = none ∧ (f call).Over)) :
    SoleFlights atts' (calls.set id pc') := by
  obtain ⟨call, made, ownsCall⟩ := sole.owned id pc k found owns
  have bound := (List.getElem?_eq_some_iff.mp found).1
  have after : atts'.nsm[k]? = some (f call) := by
    rw [nsm, List.getElem?_modify_eq, made]
    rfl
  have others {k' : Nat} (ne : k' ≠ k) : atts'.nsm[k']? = atts.nsm[k']? := by
    rw [nsm, List.getElem?_modify_ne _ _ (Ne.symm ne)]
  refine ⟨?_, fun j x k' found' owns' => ?_, fun k' call' made' => ?_⟩
  · rw [group]
    exact sole.led_same found same
  · rcases getElem?_set_cases found' with ⟨_, rfl⟩ | ⟨ne, found'⟩
    · rcases next call ownsCall with still | ⟨idle, _⟩
      · cases still.owning.symm.trans owns'
        exact ⟨f call, after, still⟩
      · rw [idle] at owns'
        cases owns'
    · by_cases isK : k' = k
      · subst isK
        exact absurd (sole.owner_unique found owns found' owns') ne
      · rw [others isK]
        exact sole.owned j x k' found' owns'
  · by_cases isK : k' = k
    · subst isK
      cases after.symm.trans made'
      rcases next call ownsCall with still | ⟨_, done⟩
      · exact Or.inr ⟨id, pc', List.getElem?_set_self bound, still⟩
      · exact Or.inl done
    · rw [others isK] at made'
      exact sole.owner_set found made' fun same => isK (Option.some.inj (same.symm.trans owns))

/-- A new call of the attestor is owned by the request that makes it. -/
theorem begins (sole : SoleFlights atts calls) {flight : Nat}
    (found : calls[id]? = some (.attesting resp hash (.rechecking flight))) :
    SoleFlights (atts.begin_ now hash)
      (calls.set id (.attesting resp hash (.creating flight atts.nsm.length))) := by
  have bound := (List.getElem?_eq_some_iff.mp found).1
  refine ⟨sole.led_same found rfl, fun j x k found' owns => ?_, fun k call made => ?_⟩
  · rcases getElem?_set_cases found' with ⟨_, rfl⟩ | ⟨ne, found'⟩
    · cases owns
      exact ⟨⟨hash, now, none, none⟩, List.getElem?_concat_length, .creating⟩
    · obtain ⟨call, made, ownsCall⟩ := sole.owned j x k found' owns
      exact ⟨call, List.getElem?_append_left (List.getElem?_eq_some_iff.mp made).1 ▸ made,
        ownsCall⟩
  · rcases getElem?_concat_cases made with old | ⟨rfl, rfl⟩
    · exact sole.owner_set found old nofun
    · exact Or.inr ⟨id, _, List.getElem?_set_self bound, .creating⟩

theorem moves (lawful : lib.Lawful) (sole : SoleFlights atts calls) (found : calls[id]? = some pc)
    (moved : pc.Moves crypto config now id atts action atts' pc') :
    SoleFlights atts' (calls.set id pc') := by
  cases moved with
  | leads starts =>
      refine sole.quiet found rfl rfl rfl ?_
      rw [leadOf_set found]
      exact sole.led.enter (leadOf_eq found) starts
  | begins missing => exact sole.begins found
  | created =>
      refine sole.change found rfl rfl rfl rfl fun call owns => Or.inl ?_
      cases owns
      exact .storing
  | failed =>
      refine sole.change found rfl rfl rfl rfl fun call owns => Or.inr ⟨rfl, _, rfl, ?_⟩
      intro att isOk
      cases isOk
  | stores =>
      refine sole.change found rfl rfl rfl rfl fun call owns => Or.inr ⟨rfl, ?_⟩
      cases owns
      exact ⟨_, rfl, fun _ _ stored => by cases stored⟩
  | lands =>
      refine sole.quiet found rfl rfl rfl ?_
      rw [leadOf_set found]
      exact sole.led.land lawful (leadOf_eq found)
  | _ => exact sole.quiet found rfl rfl rfl (sole.led_same found rfl)

theorem arrives (sole : SoleFlights atts calls) (idle : pc.leading = none)
    (idle' : pc.owning = none) : SoleFlights atts (calls ++ [pc]) := by
  refine ⟨?_, fun j x k found owns => ?_, fun k call made => ?_⟩
  · rw [leadOf_append idle]
    exact sole.led
  · rcases getElem?_concat_cases found with old | ⟨_, rfl⟩
    · exact sole.owned j x k old owns
    · rw [idle'] at owns
      cases owns
  · rcases sole.owner k call made with done | ⟨j, x, found, owns⟩
    · exact Or.inl done
    · refine Or.inr ⟨j, x, ?_, owns⟩
      rw [List.getElem?_append_left (List.getElem?_eq_some_iff.mp found).1, found]

end SoleFlights

/-! ## Calls of the attestor for one content -/

/-- `a` had returned when `b` began, and if it had made a document, that had expired. -/
def NsmCall.Precedes (a b : NsmCall) : Prop :=
  ∃ result, a.reply = some result ∧ ∀ att, result = .ok att →
    ∃ t, a.storedAt = some t ∧ t + publicKeyAttestationCacheTTL < b.begunAt

theorem KeysPC.Owns.not_precedes {b : NsmCall} (owns : pc.Owns k call) : ¬ call.Precedes b := by
  intro ⟨result, replied, stored⟩
  cases owns with
  | creating => cases replied
  | storing =>
      cases replied
      obtain ⟨t, isTime, _⟩ := stored _ rfl
      cases isTime

/-- A document that has been stored is found until it expires, and the calls for one content
precede each other. -/
structure Spaced (atts : Attestations lib) (clock : Int) : Prop where
  unbounded : atts.pubKeyAttestations.maxEntries ≤ 0
  ttl : atts.pubKeyAttestations.timeToLive = publicKeyAttestationCacheTTL
  stored : ∀ (k : Nat) (call : NsmCall) (t : Int), atts.nsm[k]? = some call →
    call.storedAt = some t → t ≤ clock
  kept : ∀ (k : Nat) (call : NsmCall) (t now : Int), atts.nsm[k]? = some call →
    call.storedAt = some t → clock ≤ now → atts.pubKeyAttestations.get now call.hash = none →
    t + publicKeyAttestationCacheTTL < now
  apart : ∀ (k k' : Nat) (a b : NsmCall), k < k' → atts.nsm[k]? = some a →
    atts.nsm[k']? = some b → a.hash = b.hash → a.Precedes b

section

variable {nsm : List NsmCall} {k j : Nat} {f : NsmCall → NsmCall} {call x : NsmCall}

theorem getElem?_modify_cases (made : nsm[k]? = some call)
    (found : (nsm.modify k f)[j]? = some x) :
    (j = k ∧ x = f call) ∨ (j ≠ k ∧ nsm[j]? = some x) := by
  grind

end

namespace Spaced

theorem later (spaced : Spaced atts clock) (forward : clock ≤ now) : Spaced atts now where
  unbounded := spaced.unbounded
  ttl := spaced.ttl
  stored k call t made isTime := (spaced.stored k call t made isTime).trans forward
  kept k call t now' made isTime le := spaced.kept k call t now' made isTime (forward.trans le)
  apart := spaced.apart

theorem of_same (spaced : Spaced atts clock)
    (cache : atts'.pubKeyAttestations = atts.pubKeyAttestations) (nsm : atts'.nsm = atts.nsm) :
    Spaced atts' clock := by
  obtain ⟨unbounded, ttl, stored, kept, apart⟩ := spaced
  rw [← cache, ← nsm] at *
  exact ⟨unbounded, ttl, stored, kept, apart⟩

theorem collected (spaced : Spaced atts now) :
    Spaced { atts with
      pubKeyAttestations := (atts.pubKeyAttestations.garbageCollect now).1 } now where
  unbounded := spaced.unbounded
  ttl := spaced.ttl
  stored := spaced.stored
  kept k call t now' made isTime le missing := by
    rw [Cache.get_garbageCollect le] at missing
    exact spaced.kept k call t now' made isTime le missing
  apart := spaced.apart

/-- A new call is preceded by all calls for its content: they are over, and nothing is cached. -/
theorem begins (spaced : Spaced atts now)
    (done : ∀ (k : Nat) (call : NsmCall), atts.nsm[k]? = some call → call.hash = hash → call.Over)
    (missing : atts.pubKeyAttestations.get now hash = none) :
    Spaced (atts.begin_ now hash) now where
  unbounded := spaced.unbounded
  ttl := spaced.ttl
  stored k call t made isTime := by
    rcases getElem?_concat_cases made with old | ⟨_, rfl⟩
    · exact spaced.stored k call t old isTime
    · cases isTime
  kept k call t now' made isTime := by
    rcases getElem?_concat_cases made with old | ⟨_, rfl⟩
    · exact spaced.kept k call t now' old isTime
    · cases isTime
  apart k k' a b before isA isB same := by
    rcases getElem?_concat_cases isB with old' | ⟨isLast, rfl⟩
    · rcases getElem?_concat_cases isA with old | ⟨isLast, _⟩
      · exact spaced.apart k k' a b before old old' same
      · have bound := (List.getElem?_eq_some_iff.mp old').1
        omega
    · rcases getElem?_concat_cases isA with old | ⟨isLast', _⟩
      · obtain ⟨result, replied, isStored⟩ := done k a old same
        refine ⟨result, replied, fun att isOk => ?_⟩
        obtain ⟨t, isTime⟩ := Option.ne_none_iff_exists'.mp (isStored att isOk)
        refine ⟨t, isTime, spaced.kept k a t now old isTime (Int.le_refl now) ?_⟩
        rw [same]
        exact missing
      · omega

/-- A call that is not over precedes none, so it may still change. -/
theorem apart_modify (spaced : Spaced atts clock) {f : NsmCall → NsmCall}
    (made : atts.nsm[k]? = some call) (owns : pc.Owns k call) (hash : (f call).hash = call.hash)
    (begunAt : (f call).begunAt = call.begunAt) :
    ∀ (j j' : Nat) (a b : NsmCall), j < j' → (atts.nsm.modify k f)[j]? = some a →
      (atts.nsm.modify k f)[j']? = some b → a.hash = b.hash → a.Precedes b := by
  intro j j' a b before isA isB same
  rcases getElem?_modify_cases made isA with ⟨rfl, rfl⟩ | ⟨_, oldA⟩
  · rcases getElem?_modify_cases made isB with ⟨isJ, _⟩ | ⟨_, oldB⟩
    · omega
    · rw [hash] at same
      exact (owns.not_precedes (spaced.apart j j' call b before made oldB same)).elim
  · rcases getElem?_modify_cases made isB with ⟨rfl, rfl⟩ | ⟨_, oldB⟩
    · rw [hash] at same
      obtain ⟨result, replied, stored⟩ := spaced.apart j j' a call before oldA made same
      rw [← begunAt] at stored
      exact ⟨result, replied, stored⟩
    · exact spaced.apart j j' a b before oldA oldB same

theorem replies (spaced : Spaced atts clock) (made : atts.nsm[k]? = some call)
    (owns : pc.Owns k call) (result : AttestorReply) :
    Spaced (atts.reply k result) clock := by
  have nothing : call.storedAt = none := by cases owns <;> rfl
  refine ⟨spaced.unbounded, spaced.ttl, fun j x t isX isTime => ?_,
    fun j x t now isX isTime => ?_, spaced.apart_modify made owns rfl rfl⟩
  · rcases getElem?_modify_cases made isX with ⟨_, rfl⟩ | ⟨_, isX⟩
    · cases nothing.symm.trans isTime
    · exact spaced.stored j x t isX isTime
  · rcases getElem?_modify_cases made isX with ⟨_, rfl⟩ | ⟨_, isX⟩
    · cases nothing.symm.trans isTime
    · exact spaced.kept j x t now isX isTime

theorem stores (spaced : Spaced atts now) (made : atts.nsm[k]? = some call) (owns : pc.Owns k call)
    (isHash : call.hash = hash) : Spaced (atts.store now hash k att) now := by
  subst isHash
  have lookup (hash : Bytes32) :
      (atts.pubKeyAttestations.set now call.hash att none).items.lookup hash =
        if hash = call.hash then some ⟨att, now, publicKeyAttestationCacheTTL⟩
        else atts.pubKeyAttestations.items.lookup hash := by
    rw [Cache.lookup_set (.of_unbounded spaced.unbounded), spaced.ttl]
    rfl
  -- Every document for this content was stored by now, so it is gone when the new one is.
  have renewed {t now' : Int} (le : t ≤ now)
      (missing : (atts.pubKeyAttestations.set now call.hash att none).get now' call.hash = none) :
      t + publicKeyAttestationCacheTTL < now' := by
    have expired := Cache.get_eq_none_iff.mp missing _ ((lookup _).trans (if_pos rfl))
    unfold CacheItem.Expired at expired
    dsimp only at expired
    omega
  refine ⟨?_, ?_, fun j x t isX isTime => ?_, fun j x t now' isX isTime le missing => ?_,
    spaced.apart_modify made owns rfl rfl⟩
  · simpa [Attestations.store] using spaced.unbounded
  · simpa [Attestations.store] using spaced.ttl
  · rcases getElem?_modify_cases made isX with ⟨_, rfl⟩ | ⟨_, isX⟩
    · cases isTime
      exact Int.le_refl now
    · exact spaced.stored j x t isX isTime
  · rcases getElem?_modify_cases made isX with ⟨_, rfl⟩ | ⟨_, isX⟩
    · cases isTime
      exact renewed (Int.le_refl now) missing
    · by_cases same : x.hash = call.hash
      · rw [same] at missing
        exact renewed (spaced.stored j x t isX isTime) missing
      · refine spaced.kept j x t now' isX isTime le ?_
        simp only [Attestations.store, Cache.get, lookup, if_neg same] at missing
        exact missing

theorem moves (sole : SoleFlights atts calls) (spaced : Spaced atts now)
    (found : calls[id]? = some pc) (moved : pc.Moves crypto config now id atts action atts' pc') :
    Spaced atts' now := by
  have owned {k : Nat} (owns : pc.owning = some k) := sole.owned id pc k found owns
  cases moved with
  | leads _ => exact spaced.of_same rfl rfl
  | lands => exact spaced.of_same rfl rfl
  | begins missing =>
      exact spaced.begins (fun k call made same => sole.all_over found rfl rfl made same) missing
  | created =>
      obtain ⟨call, made, owns⟩ := owned rfl
      exact spaced.replies made owns _
  | failed =>
      obtain ⟨call, made, owns⟩ := owned rfl
      exact spaced.replies made owns _
  | stores =>
      obtain ⟨call, made, owns⟩ := owned rfl
      exact spaced.stores made owns (by cases owns; rfl)
  | _ => exact spaced

end Spaced

/-! ## What is answered -/

/-- The attestor returned `result` for `hash`. -/
def Attestations.Produced (atts : Attestations lib) (hash : Bytes32) (result : AttestorReply) :
    Prop :=
  ∃ call ∈ atts.nsm, call.hash = hash ∧ call.reply = some result

/-- What a request has in hand comes from the attestor, for the content of its response. -/
def KeysPC.Genuine (crypto : Crypto) (atts : Attestations lib) : KeysPC → Prop
  | .reading _ | .listing _ _ => True
  | .attesting resp hash pc =>
      hash = resp.publicKeyHash crypto ∧
        match pc with
        | .waiting flight => lib.Awaits atts.attestationGroup (atts.Produced hash) hash flight
        | .storing _ _ att => atts.Produced hash (.ok att)
        | .landing _ result => atts.Produced hash result
        | _ => True
  | .answered (.ok resp) => atts.Produced (resp.publicKeyHash crypto) (.ok resp.attestation)
  | .answered (.error _ _) => True

structure Genuine (crypto : Crypto) (atts : Attestations lib) (calls : List KeysPC) : Prop where
  cached : ∀ hash item, atts.pubKeyAttestations.items.lookup hash = some item →
    atts.Produced hash (.ok item.value)
  held : ∀ pc ∈ calls, pc.Genuine crypto atts

theorem KeysPC.Genuine.mono
    (genuine : pc.Genuine crypto atts)
    (more : ∀ hash result, atts.Produced hash result → atts'.Produced hash result)
    (awaits : ∀ hash flight, lib.Awaits atts.attestationGroup (atts'.Produced hash) hash flight →
      lib.Awaits atts'.attestationGroup (atts'.Produced hash) hash flight) :
    pc.Genuine crypto atts' := by
  cases pc with
  | reading param => trivial
  | listing snapshot requestID => trivial
  | attesting resp hash at_ =>
      obtain ⟨isHash, has⟩ := genuine
      refine ⟨isHash, ?_⟩
      cases at_ with
      | waiting flight => exact awaits hash flight (has.mono fun r => more hash r)
      | storing flight nsmCall att => exact more hash _ has
      | landing flight result => exact more hash _ has
      | lookup => trivial
      | entering => trivial
      | rechecking flight => trivial
      | creating flight nsmCall => trivial
  | answered reply =>
      cases reply with
      | ok resp => exact more _ _ genuine
      | error status message => trivial

namespace Genuine

theorem of_get (genuine : Genuine crypto atts calls)
    (found : atts.pubKeyAttestations.get now hash = some att) : atts.Produced hash (.ok att) := by
  obtain ⟨item, isItem, _, rfl⟩ := Cache.get_eq_some_iff.mp found
  exact genuine.cached hash item isItem

/-- The request that moves has something genuine in hand, and the others keep what they have. -/
theorem set (genuine : Genuine crypto atts calls) (new : pc'.Genuine crypto atts')
    (more : ∀ hash result, atts.Produced hash result → atts'.Produced hash result)
    (awaits : ∀ hash flight, lib.Awaits atts.attestationGroup (atts'.Produced hash) hash flight →
      lib.Awaits atts'.attestationGroup (atts'.Produced hash) hash flight)
    (cached : ∀ hash item, atts'.pubKeyAttestations.items.lookup hash = some item →
      atts.pubKeyAttestations.items.lookup hash = some item ∨
        atts'.Produced hash (.ok item.value)) :
    Genuine crypto atts' (calls.set id pc') := by
  refine ⟨fun hash item found => ?_,
    forall_mem_set (fun x old => (genuine.held x old).mono more awaits) new⟩
  rcases cached hash item found with old | new
  · exact more _ _ (genuine.cached hash item old)
  · exact new

/-- A move that leaves everything shared as it is. -/
theorem quiet (genuine : Genuine crypto atts calls) (new : pc'.Genuine crypto atts) :
    Genuine crypto atts (calls.set id pc') :=
  genuine.set new (fun _ _ made => made) (fun _ _ awaits => awaits) fun _ _ found => Or.inl found

theorem produced_begin {hash' : Bytes32} (made : atts.Produced hash result) :
    (atts.begin_ now hash').Produced hash result := by
  obtain ⟨call, among, has⟩ := made
  exact ⟨call, List.mem_append_left _ among, has⟩

/-- What the attestor has returned stays, and what it returns is there. -/
theorem produced_reply (made : atts.nsm[k]? = some call) (waiting : call.reply = none) :
    (atts.reply k result).Produced call.hash result ∧
      ∀ hash result', atts.Produced hash result' → (atts.reply k result).Produced hash result' := by
  constructor
  · refine ⟨{ call with reply := some result }, List.mem_of_getElem? (?_ : _[k]? = _), rfl, rfl⟩
    rw [Attestations.reply, List.getElem?_modify_eq, made]
    rfl
  · intro hash result' ⟨other, among, isHash, replied⟩
    obtain ⟨j, isJ⟩ := List.mem_iff_getElem?.mp among
    refine ⟨other, List.mem_of_getElem? (?_ : _[j]? = _), isHash, replied⟩
    rw [Attestations.reply, List.getElem?_modify_ne _ _, isJ]
    intro same
    subst same
    cases made.symm.trans isJ
    rw [waiting] at replied
    cases replied

theorem produced_store {hash' : Bytes32} (made : atts.Produced hash result) :
    (atts.store now hash' k att).Produced hash result := by
  obtain ⟨call, among, isHash, replied⟩ := made
  obtain ⟨j, isJ⟩ := List.mem_iff_getElem?.mp among
  have after : (atts.store now hash' k att).nsm[j]? =
      some (if k = j then { call with storedAt := some now } else call) := by
    rw [Attestations.store, List.getElem?_modify, isJ]
    split <;> simp [*]
  refine ⟨_, List.mem_of_getElem? after, ?_, ?_⟩
  · split <;> exact isHash
  · split <;> exact replied

theorem moves (lawful : lib.Lawful) (sole : SoleFlights atts calls)
    (genuine : Genuine crypto atts calls)
    (found : calls[id]? = some pc) (moved : pc.Moves crypto config now id atts action atts' pc') :
    Genuine crypto atts' (calls.set id pc') := by
  have own := genuine.held pc (List.mem_of_getElem? found)
  have owned {k : Nat} (owns : pc.owning = some k) := sole.owned id pc k found owns
  cases moved with
  | refused => exact genuine.quiet trivial
  | read _ => exact genuine.quiet trivial
  | noKeys => exact genuine.quiet trivial
  | listed => exact genuine.quiet ⟨rfl, trivial⟩
  | @hit resp hash att isAtt =>
      obtain ⟨rfl, _⟩ := own
      exact genuine.quiet (genuine.of_get isAtt)
  | missed => exact genuine.quiet ⟨own.1, trivial⟩
  | joins current => exact genuine.quiet ⟨own.1, Or.inl current⟩
  | @woken resp hash flight result landed =>
      obtain ⟨rfl, awaits⟩ := own
      refine genuine.quiet ?_
      rcases awaits with current | ⟨result', landed', made⟩
      · obtain ⟨p, leads⟩ := (sole.led.current_iff _ _).mp current
        cases (sole.led.pending p _ _ leads).symm.trans landed
      · cases landed.symm.trans landed'
        cases result with
        | ok att => exact made
        | error err => trivial
  | found isAtt => exact genuine.quiet ⟨own.1, genuine.of_get isAtt⟩
  | leads starts =>
      exact genuine.set ⟨own.1, trivial⟩ (fun _ _ made => made)
        (fun _ _ awaits => awaits.enter starts) fun _ _ found => Or.inl found
  | begins missing =>
      exact genuine.set ⟨own.1, trivial⟩ (fun _ _ => produced_begin) (fun _ _ awaits => awaits)
        fun _ _ found => Or.inl found
  | created | failed =>
      obtain ⟨call, made, owns⟩ := owned rfl
      cases owns
      obtain ⟨new, more⟩ := produced_reply made rfl
      exact genuine.set ⟨own.1, new⟩ more (fun _ _ awaits => awaits) fun _ _ found => Or.inl found
  | stores =>
      refine genuine.set ⟨own.1, produced_store own.2⟩ (fun _ _ => produced_store)
        (fun _ _ awaits => awaits) fun hash' item found => ?_
      rcases Cache.of_lookup_set found with ⟨rfl, isAtt⟩ | old
      · rw [isAtt]
        exact Or.inr (produced_store own.2)
      · exact Or.inl old
  | @lands resp hash flight result =>
      obtain ⟨rfl, made⟩ := own
      have leads : leadOf calls id = some (resp.publicKeyHash crypto, flight) := leadOf_eq found
      refine genuine.set ?_ (fun _ _ made => made) (fun hash' flight' awaits => ?_)
        fun _ _ found => Or.inl found
      · cases result with
        | ok att => exact made
        | error err => trivial
      · refine awaits.land lawful sole.led leads fun same => ?_
        rw [same]
        exact made

end Genuine

namespace KeysEndpoint

structure Sound (crypto : Crypto) (s : KeysEndpoint lib) : Prop where
  sole : SoleFlights s.attestations s.calls
  spaced : Spaced s.attestations s.clock
  genuine : Genuine crypto s.attestations s.calls

theorem sound_init (lawful : lib.Lawful) (crypto : Crypto) (config : EnclaveConfig) (start : Int) :
    (init lib config start).Sound crypto where
  sole := ⟨Flights.led_empty lawful, fun _ _ _ found => (nomatch found),
    fun _ _ made => (nomatch made)⟩
  spaced := ⟨Int.le_refl 0, rfl, fun _ _ _ made => (nomatch made),
    fun _ _ _ _ made => (nomatch made), fun _ _ _ _ _ made => (nomatch made)⟩
  genuine := ⟨fun _ _ found => (nomatch found), fun _ among => (nomatch among)⟩

theorem Sound.step (lawful : lib.Lawful) (sound : s.Sound crypto)
    (taken : step crypto s l = some s') : s'.Sound crypto := by
  obtain ⟨forward, advances⟩ := advances_of_step lawful taken
  obtain ⟨sole, spaced, genuine⟩ := sound
  have spaced := spaced.later forward
  generalize l.action = a at advances
  cases advances with
  | arrives method param isPc =>
      subst isPc
      refine ⟨sole.arrives leading_arrival owning_arrival, spaced, genuine.cached, ?_⟩
      intro pc among
      rcases List.mem_append.mp among with old | new
      · exact genuine.held pc old
      · rw [List.mem_singleton.mp new]
        unfold arrival
        split <;> trivial
  | moves found moved =>
      exact ⟨sole.moves lawful found moved, spaced.moves sole found moved,
        genuine.moves lawful sole found moved⟩
  | configured => exact ⟨sole, spaced, genuine⟩
  | collected =>
      refine ⟨⟨sole.led, sole.owned, sole.owner⟩, spaced.collected, fun hash item found => ?_,
        fun pc among => ?_⟩
      · exact genuine.cached hash item (Cache.lookup_of_garbageCollect found)
      · exact (genuine.held pc among).mono (fun _ _ made => made) fun _ _ awaits => awaits

theorem sound_of_run (lawful : lib.Lawful)
    (run : Run (step crypto) anyStep (init lib config start) ls s) : s.Sound crypto :=
  run.invariant (sound_init lawful crypto config start) fun _ _ _ sound _ taken =>
    sound.step lawful taken

/-! ## Where the content of a response comes from -/

end KeysEndpoint

namespace KeysPC

/-- The configuration that a request has read. -/
def snapshot : KeysPC → Option EnclaveConfig
  | .listing config _ => some config
  | .attesting resp _ _ => some resp.config
  | .answered (.ok resp) => some resp.config
  | _ => none

/-- The response that a request is to give, without its attestation. -/
def draft : KeysPC → Option PublicKeyResponse
  | .attesting resp _ _ => some { resp with attestation := ∅ }
  | .answered (.ok resp) => some { resp with attestation := ∅ }
  | _ => none

/-- How the content of a response has changed: it is gone or the same, the configuration has been
read, or the keychain has answered. -/
inductive Source (config : EnclaveConfig) (id : Nat) (pc pc' : KeysPC) : KeysAction → Prop
  | gone {action : KeysAction} (snapshot : pc'.snapshot = none) (draft : pc'.draft = none) :
      Source config id pc pc' action
  | same {action : KeysAction} (snapshot : pc'.snapshot = pc.snapshot)
      (draft : pc'.draft = pc.draft) : Source config id pc pc' action
  | read (set : config.isZero = false) (snapshot : pc'.snapshot = some config)
      (draft : pc'.draft = none) : Source config id pc pc' (.proceed id)
  | listed {old : EnclaveConfig} {keypairs : Slice BoxKeypair} (had : pc.snapshot = some old)
      (snapshot : pc'.snapshot = some old) (draft : pc'.draft = some (keysResponse old keypairs)) :
      Source config id pc pc' (.keypairs id (.ok keypairs))

theorem source_ofAttestation {at_ : AttestPC} :
    Source config id (.attesting resp hash at_) (answered (.ofAttestation resp result)) action := by
  cases result with
  | ok att => exact .same rfl rfl
  | error err => exact .gone rfl rfl

theorem Moves.source (moved : pc.Moves crypto config now id atts action atts' pc') :
    Source config id pc pc' action := by
  cases moved with
  | refused => exact .gone rfl rfl
  | noKeys => exact .gone rfl rfl
  | read set => exact .read set rfl rfl
  | listed => exact .listed rfl rfl rfl
  | hit _ => exact source_ofAttestation
  | woken _ => exact source_ofAttestation
  | lands => exact source_ofAttestation
  | _ => exact .same rfl rfl

end KeysPC

namespace KeysEndpoint

/-- The request has read the configuration in one of its own steps. -/
def ReadConfig (crypto : Crypto) (s₀ : KeysEndpoint lib) (ls : List KeysLabel) (id : Nat)
    (config : EnclaveConfig) : Prop :=
  config.isZero = false ∧ ∃ pre s₁ l s₂, StepOf (step crypto) anyStep s₀ ls pre s₁ l s₂ ∧
    l.action = .proceed id ∧ s₁.config = config

/-- The keychain has answered the request with the keypairs. -/
def ReceivedKeys (crypto : Crypto) (s₀ : KeysEndpoint lib) (ls : List KeysLabel) (id : Nat)
    (keypairs : Slice BoxKeypair) : Prop :=
  ∃ pre s₁ l s₂, StepOf (step crypto) anyStep s₀ ls pre s₁ l s₂ ∧
    l.action = .keypairs id (.ok keypairs)

theorem ReadConfig.append (read : ReadConfig crypto s₀ ls id config) :
    ReadConfig crypto s₀ (ls ++ [l]) id config := by
  obtain ⟨set, pre, s₁, l₁, s₂, st, rest⟩ := read
  exact ⟨set, pre, s₁, l₁, s₂, st.append [l], rest⟩

theorem ReceivedKeys.append {keypairs : Slice BoxKeypair}
    (received : ReceivedKeys crypto s₀ ls id keypairs) :
    ReceivedKeys crypto s₀ (ls ++ [l]) id keypairs := by
  obtain ⟨pre, s₁, l₁, s₂, st, rest⟩ := received
  exact ⟨pre, s₁, l₁, s₂, st.append [l], rest⟩

/-- What a request has in hand, and when it came by it. -/
structure Sourced (crypto : Crypto) (s₀ : KeysEndpoint lib) (ls : List KeysLabel) (id : Nat)
    (pc : KeysPC) : Prop where
  config : ∀ config, pc.snapshot = some config → ReadConfig crypto s₀ ls id config
  keys : ∀ resp, pc.draft = some resp →
    ∃ keypairs, resp = keysResponse resp.config keypairs ∧ ReceivedKeys crypto s₀ ls id keypairs

theorem Sourced.append (sourced : Sourced crypto s₀ ls id pc) :
    Sourced crypto s₀ (ls ++ [l]) id pc where
  config config isConfig := (sourced.config config isConfig).append
  keys resp isResp := by
    obtain ⟨keypairs, isKeys, received⟩ := sourced.keys resp isResp
    exact ⟨keypairs, isKeys, received.append⟩

theorem Sourced.of_nothing (noConfig : pc.snapshot = none) (noDraft : pc.draft = none) :
    Sourced crypto s₀ ls id pc := by
  refine ⟨fun config isConfig => ?_, fun resp isResp => ?_⟩
  · cases noConfig.symm.trans isConfig
  · cases noDraft.symm.trans isResp

def AllSourced (crypto : Crypto) (s₀ : KeysEndpoint lib) (ls : List KeysLabel)
    (s : KeysEndpoint lib) : Prop :=
  ∀ (id : Nat) (pc : KeysPC), s.calls[id]? = some pc → Sourced crypto s₀ ls id pc

/-- What the request that takes a step has in hand comes from this step or from before. -/
theorem Sourced.moves (before : Run (step crypto) anyStep s₀ ls s)
    (taken : step crypto s l = some s') (sourced : Sourced crypto s₀ ls id pc)
    (source : KeysPC.Source s.config id pc pc' l.action) :
    Sourced crypto s₀ (ls ++ [l]) id pc' := by
  have here := StepOf.last before trivial taken
  generalize action : l.action = a at source
  cases source with
  | gone snapshot draft => exact .of_nothing snapshot draft
  | same snapshot draft =>
      refine ⟨fun config isConfig => ?_, fun resp isResp => ?_⟩
      · exact sourced.append.config config (snapshot.symm.trans isConfig)
      · exact sourced.append.keys resp (draft.symm.trans isResp)
  | read set snapshot draft =>
      refine ⟨fun config isConfig => ?_, fun resp isResp => ?_⟩
      · cases snapshot.symm.trans isConfig
        exact ⟨set, ls, s, _, _, here, action, rfl⟩
      · cases draft.symm.trans isResp
  | listed had snapshot draft =>
      refine ⟨fun config isConfig => ?_, fun resp isResp => ?_⟩
      · cases snapshot.symm.trans isConfig
        exact sourced.append.config _ had
      · cases draft.symm.trans isResp
        exact ⟨_, rfl, ls, s, _, _, here, action⟩

theorem AllSourced.step (lawful : lib.Lawful) (before : Run (step crypto) anyStep s₀ ls s)
    (sourced : AllSourced crypto s₀ ls s) (taken : step crypto s l = some s') :
    AllSourced crypto s₀ (ls ++ [l]) s' := by
  have ⟨_, advances⟩ := advances_of_step lawful taken
  generalize action : l.action = a at advances
  intro j x found
  cases advances with
  | arrives method param isPc =>
      rcases getElem?_concat_cases found with old | ⟨_, rfl⟩
      · exact (sourced j x old).append
      · rw [isPc, arrival]
        split <;> exact .of_nothing rfl rfl
  | @moves id _ pc pc' atts isPc moved =>
      rcases getElem?_set_cases found with ⟨rfl, rfl⟩ | ⟨_, old⟩
      · exact (sourced j pc isPc).moves before taken (action ▸ moved.source)
      · exact (sourced j x old).append
  | configured => exact (sourced j x found).append
  | collected => exact (sourced j x found).append

theorem sourced_of_run (lawful : lib.Lawful)
    (run : Run (step crypto) anyStep (init lib config start) ls s) :
    AllSourced crypto (init lib config start) ls s := by
  apply run.invariant_history
  · intro id pc found
    cases found
  · intro ls s l s' before sourced _ taken
    exact sourced.step lawful before taken

/-- **Every answer is attested for what it says.** Whatever the order of the steps, and whether
the document was cached, awaited or made for this request, the attestor made it for the hash of
exactly this response: the keypairs that the keychain returned to this request, and a
configuration that was in force at one of its steps. -/
theorem answer_attested (lawful : lib.Lawful)
    (run : Run (step crypto) anyStep (init lib config start) ls s)
    (answered : s.calls[id]? = some (.answered (.ok resp))) :
    (∃ call ∈ s.attestations.nsm, call.hash = resp.publicKeyHash crypto ∧
      call.reply = some (.ok resp.attestation)) ∧
    (∃ keypairs, { resp with attestation := ∅ } = keysResponse resp.config keypairs ∧
      ReceivedKeys crypto (init lib config start) ls id keypairs) ∧
    ReadConfig crypto (init lib config start) ls id resp.config := by
  have sourced := sourced_of_run lawful run id _ answered
  refine ⟨?_, sourced.keys _ rfl, sourced.config _ rfl⟩
  exact (sound_of_run lawful run).genuine.held _ (List.mem_of_getElem? answered)

namespace Sample

open ConfidentialCompute.Sample

/-- The endpoint with the group of `SingleFlight.mapFlights`. -/
def endpoint : KeysEndpoint (mapFlights Bytes32 AttestorReply) :=
  init _ (ConfidentialCompute.Sample.config 1) 0

/-- Two requests overlap and share a flight; a third one comes when the document has expired. -/
def sharedFlight : List KeysLabel :=
  let keypairs := one (⟨key 9, key 8, hour, 0⟩ : BoxKeypair)
  [.arrive .get ∅, .arrive .get ∅, .proceed 0, .proceed 1, .keypairs 0 (.ok keypairs),
    .keypairs 1 (.ok keypairs), .proceed 0, .proceed 1, .proceed 0, .proceed 1, .proceed 0,
    .attested 0 (.ok (one 7)), .proceed 0, .proceed 0, .proceed 1].map (⟨0, ·⟩) ++
  [.arrive .get ∅, .proceed 2, .keypairs 2 (.ok keypairs), .proceed 2, .proceed 2,
    .proceed 2].map (⟨6 * second, ·⟩)

end Sample

theorem answer_attested_joined : ∃ ls s resp,
    Run (step Sample.crypto) anyStep Sample.endpoint ls s ∧
      s.calls[1]? = some (.answered (.ok resp)) ∧
      ∃ call ∈ s.attestations.nsm, call.hash = resp.publicKeyHash Sample.crypto ∧
        call.reply = some (.ok resp.attestation) := by
  obtain ⟨s, run, found⟩ : ∃ s,
      Run (step Sample.crypto) anyStep Sample.endpoint Sample.sharedFlight s ∧
        s.calls[1]? = some (.answered (.ok { keysResponse (Sample.config 1)
          (Sample.one ⟨Sample.key 9, Sample.key 8, hour, 0⟩) with
            attestation := Sample.one 7 })) :=
    Run.exists_of_exec (by decide +kernel)
  exact ⟨_, s, _, run, found, (answer_attested mapFlights_lawful run found).1⟩

/-- **The attestor is asked once for one content while a document lives.** Of two calls for the
same hash, the first had returned when the second began, and if it returned a document, the
second began later than the time to live after that was stored. -/
theorem attestor_calls_apart (lawful : lib.Lawful)
    (run : Run (step crypto) anyStep (init lib config start) ls s)
    {k k' : Nat} {a b : NsmCall} (before : k < k') (isA : s.attestations.nsm[k]? = some a)
    (isB : s.attestations.nsm[k']? = some b) (same : a.hash = b.hash) : a.Precedes b :=
  (sound_of_run lawful run).spaced.apart k k' a b before isA isB same

theorem attestor_calls_apart_expired : ∃ ls s a b,
    Run (step Sample.crypto) anyStep Sample.endpoint ls s ∧
      s.attestations.nsm[0]? = some a ∧ s.attestations.nsm[1]? = some b ∧ a.hash = b.hash ∧
      a.Precedes b := by
  obtain ⟨s, run, found⟩ : ∃ s,
      Run (step Sample.crypto) anyStep Sample.endpoint Sample.sharedFlight s ∧
        ((s.attestations.nsm[0]?).any fun a => (s.attestations.nsm[1]?).any fun b =>
          a.hash = b.hash) = true :=
    Run.exists_of_exec (by decide +kernel)
  obtain ⟨a, isA, found⟩ := (Option.any_eq_true _ _).mp found
  obtain ⟨b, isB, found⟩ := (Option.any_eq_true _ _).mp found
  have same := of_decide_eq_true found
  exact ⟨_, s, a, b, run, isA, isB, same,
    attestor_calls_apart mapFlights_lawful run Nat.zero_lt_one isA isB same⟩

/-! ## No request waits for ever -/

/-- A request, the keychain or the attestor takes a step. -/
def moving (_ : KeysEndpoint lib) (l : KeysLabel) : Prop :=
  match l.action with
  | .proceed _ | .keypairs _ _ | .attested _ _ => True
  | _ => False

instance (s : KeysEndpoint lib) (l : KeysLabel) : Decidable (moving s l) :=
  match l with
  | ⟨_, .proceed _⟩ | ⟨_, .keypairs _ _⟩ | ⟨_, .attested _ _⟩ => isTrue trivial
  | ⟨_, .arrive _ _⟩ | ⟨_, .setConfig _⟩ | ⟨_, .collect⟩ => isFalse fun no => no

end KeysEndpoint

/-- How many steps a request takes at most. -/
def KeysPC.rank : KeysPC → Nat
  | .reading _ => 8
  | .listing _ _ => 7
  | .attesting _ _ .lookup => 6
  | .attesting _ _ .entering => 5
  | .attesting _ _ (.rechecking _) => 4
  | .attesting _ _ (.creating _ _) => 3
  | .attesting _ _ (.storing _ _ _) => 2
  | .attesting _ _ (.landing _ _) => 1
  | .attesting _ _ (.waiting _) => 1
  | .answered _ => 0

theorem KeysPC.Moves.rank_lt (moved : pc.Moves crypto config now id atts action atts' pc') :
    pc'.rank < pc.rank := by
  cases moved <;> simp [KeysPC.rank]

theorem KeysPC.rank_le (pc : KeysPC) : pc.rank ≤ 8 := by
  unfold KeysPC.rank
  split <;> decide

namespace KeysEndpoint

theorem work_lt_of_moving (lawful : lib.Lawful) (s : KeysEndpoint lib) (l : KeysLabel)
    (s' : KeysEndpoint lib) (allowed : moving s l) (taken : step crypto s l = some s') :
    work KeysPC.rank s'.calls < work KeysPC.rank s.calls := by
  have ⟨_, advances⟩ := advances_of_step lawful taken
  obtain ⟨now, action⟩ := l
  cases advances with
  | moves found moved => exact work_set_lt KeysPC.rank found moved.rank_lt
  | _ => exact allowed.elim

/-- Everyone but a request that waits can take a step. -/
theorem enabled_of_ready (found : s.calls[id]? = some pc)
    (unanswered : ∀ reply, pc ≠ .answered reply)
    (ready : ∀ resp hash flight, pc = .attesting resp hash (.waiting flight) →
      lib.result s.attestations.attestationGroup flight ≠ none) :
    ∃ l s', moving s l ∧ step crypto s l = some s' := by
  have proceeds (taken : (pc.proceed s.config s.attestations s.clock).isSome) :
      ∃ l s', moving s l ∧ step crypto s l = some s' := by
    obtain ⟨⟨atts, pc'⟩, isNext⟩ := Option.isSome_iff_exists.mp taken
    refine ⟨⟨s.clock, .proceed id⟩, { s with attestations := atts, calls := s.calls.set id pc' },
      trivial, ?_⟩
    simp [step, act, found, isNext]
  cases pc with
  | answered reply => exact absurd rfl (unanswered reply)
  | listing snapshot requestID =>
      refine ⟨⟨s.clock, .keypairs id (.error "")⟩, ?_⟩
      cases requestID <;> simp [step, act, found, moving, KeysPC.receive]
  | reading param =>
      apply proceeds
      simp only [KeysPC.proceed]
      split
      · rfl
      · split
        · rfl
        · split <;> rfl
  | attesting resp hash at_ =>
      cases at_ with
      | lookup | entering | rechecking flight =>
          apply proceeds
          simp only [KeysPC.proceed, AttestPC.proceed]
          split <;> rfl
      | waiting flight =>
          apply proceeds
          obtain ⟨result, landed⟩ := Option.ne_none_iff_exists'.mp (ready resp hash flight rfl)
          simp [KeysPC.proceed, AttestPC.proceed, landed]
      | creating flight nsmCall =>
          refine ⟨⟨s.clock, .attested id (.error "")⟩, ?_⟩
          simp [step, act, found, moving, KeysPC.attested]
      | storing flight nsmCall att => exact proceeds rfl
      | landing flight result => exact proceeds rfl

/-- A request that waits for a flight under way waits for one that can take a step. -/
theorem enabled (sound : s.Sound crypto) (found : s.calls[id]? = some pc)
    (unanswered : ∀ reply, pc ≠ .answered reply) :
    ∃ l s', moving s l ∧ step crypto s l = some s' := by
  by_cases ready : ∀ resp hash flight, pc = .attesting resp hash (.waiting flight) →
      lib.result s.attestations.attestationGroup flight ≠ none
  · exact enabled_of_ready found unanswered ready
  · push Not at ready
    obtain ⟨resp, hash, flight, rfl, pending⟩ := ready
    have awaits := (sound.genuine.held _ (List.mem_of_getElem? found)).2
    rcases awaits.result_or_led sound.sole.led with ⟨result, landed, _⟩ | ⟨leader, leads⟩
    · rw [pending] at landed
      cases landed
    · obtain ⟨other, found', leads⟩ := Option.bind_eq_some_iff.mp leads
      obtain ⟨unanswered', busy⟩ := KeysPC.ready_of_leading leads
      exact enabled_of_ready found' unanswered' fun resp hash flight isWaiting =>
        absurd isWaiting (busy resp hash flight)

/-- **No request waits for ever.** From any state that can be reached, however the requests, the
keychain and the attestor take turns, there are at most eight steps for each request; and as
long as a request is unanswered one of them can take a step. -/
theorem requests_answered (lawful : lib.Lawful)
    (run : Run (step crypto) anyStep (init lib config start) ls s)
    (served : Run (step crypto) moving s more s') :
    more.length ≤ 8 * s.calls.length ∧
      ((∀ l s'', moving s' l → step crypto s' l ≠ some s'') →
        ∀ pc ∈ s'.calls, ∃ reply, pc = .answered reply) := by
  constructor
  · have steps := served.length_add_work_le (work_lt_of_moving lawful)
    have most := work_le KeysPC.rank KeysPC.rank_le s.calls
    omega
  · have sound := sound_of_run lawful (run.trans served.any)
    exact forall_done_of_stuck fun id pc found unanswered =>
      enabled sound found (not_exists.mp unanswered)

theorem requests_answered_joined : ∃ ls s more s',
    Run (step Sample.crypto) anyStep Sample.endpoint ls s ∧
      Run (step Sample.crypto) moving s more s' ∧ more.length = 13 ∧
      (∀ pc ∈ s'.calls, pc.rank = 0) ∧ more.length ≤ 8 * s.calls.length := by
  have run : Run (step Sample.crypto) anyStep Sample.endpoint (Sample.sharedFlight.take 2)
      { Sample.endpoint with calls := [.reading ∅, .reading ∅] } := .of_exec rfl
  obtain ⟨s', served, done⟩ : ∃ s', Run (step Sample.crypto) moving
      { Sample.endpoint with calls := [.reading ∅, .reading ∅] }
        ((Sample.sharedFlight.drop 2).take 13) s' ∧ ∀ pc ∈ s'.calls, pc.rank = 0 :=
    Run.exists_of_exec (by decide +kernel)
  exact ⟨_, _, _, s', run, served, rfl, done, (requests_answered mapFlights_lawful run served).1⟩

end KeysEndpoint

end ConfidentialCompute
