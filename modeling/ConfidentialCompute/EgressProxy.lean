import ConfidentialCompute.EgressPolicy
import ConfidentialCompute.Lib.Netip

/-!
# Destinations that the proxy of the host lets through

The enclave has no network of its own: it asks the SOCKS server of the host for connections, with a
profile as user and password. `ruleSet` of the proxy server decides on each request, from the
address that the server has found, against lists of prefixes and the addresses of the host's
interfaces.
-/

namespace ConfidentialCompute.Egress

open Go Netip

/-! ## The server of the host -/

def ProxyProfile.name : ProxyProfile → Bytes
  | .proxyProfilePublic => ascii "public"
  | .proxyProfileConfigured => ascii "configured"
  | .proxyProfileTest => ascii "test"

/-- The conversion of a user name to a profile. -/
def ProxyProfile.ofName (name : Bytes) : Option ProxyProfile :=
  [.proxyProfilePublic, .proxyProfileConfigured, .proxyProfileTest].find?
    fun profile => profile.name = name

def safeURLBlockedIPv4 : List Netip.Prefix :=
  [⟨ofOctets 10 0 0 0, 8⟩, ⟨ofOctets 172 16 0 0, 12⟩, ⟨ofOctets 192 168 0 0, 16⟩,
    ⟨ofOctets 127 0 0 0, 8⟩, ⟨ofOctets 0 0 0 0, 8⟩, ⟨ofOctets 169 254 0 0, 16⟩,
    ⟨ofOctets 192 0 0 0, 24⟩, ⟨ofOctets 192 0 2 0, 24⟩, ⟨ofOctets 198 51 100 0, 24⟩,
    ⟨ofOctets 203 0 113 0, 24⟩, ⟨ofOctets 192 88 99 0, 24⟩, ⟨ofOctets 198 18 0 0, 15⟩,
    ⟨ofOctets 224 0 0 0, 4⟩, ⟨ofOctets 240 0 0 0, 4⟩, ⟨ofOctets 255 255 255 255, 32⟩,
    ⟨ofOctets 100 64 0 0, 10⟩]

def alwaysBlockedIPv4Prefixes : List Netip.Prefix :=
  [⟨ofOctets 0 0 0 0, 8⟩, ⟨ofOctets 240 0 0 0, 4⟩]

def publicProfileAllowsAddress (addr : Addr) : Bool :=
  if !addr.is4 then false else !safeURLBlockedIPv4.any fun blocked => blocked.contains addr

structure RuleSet where
  localAddresses : List Addr
  allowLocalDestinationsForTests : Bool

def RuleSet.destinationDenied (r : RuleSet) (address : Addr) : Bool :=
  if !address.is4 || address.isUnspecified || address.isLinkLocalUnicast ||
      address.isMulticast then true
  else if !r.allowLocalDestinationsForTests &&
      (address.isLoopback || r.localAddresses.contains address) then true
  else alwaysBlockedIPv4Prefixes.any fun blocked => blocked.contains address

inductive Command where
  | connect
  | bind
  | associate
deriving DecidableEq

/-- The destination of a request; the server adds the address that it finds for a name. -/
structure DestAddr where
  fqdn : Bytes
  ip : Bytes
  port : Nat
deriving DecidableEq

/-- `username` is that of the authentication, if there was one. -/
structure Request where
  command : Command
  username : Option Bytes
  destAddr : Option DestAddr

def RuleSet.allow (r : RuleSet) (request : Request) : Bool :=
  if request.command ≠ .connect then false
  else
    match request.username, request.destAddr with
    | some username, some destAddr =>
        match addrFromSlice destAddr.ip with
        | none => false
        | some address =>
            if r.destinationDenied address.unmap then false
            else
              match ProxyProfile.ofName username with
              | some .proxyProfilePublic => publicProfileAllowsAddress address.unmap
              | some .proxyProfileConfigured => true
              | some .proxyProfileTest => true
              | none => false
    | _, _ => false

/-- What the host knows of its own interfaces. -/
structure Interfaces where
  addrs : Except Bytes (List Bytes)
  parsePrefix : Bytes → Except Bytes Netip.Prefix

def localInterfaceAddresses (unicode : Unicode) (os : Interfaces) : Except Bytes (List Addr) :=
  match os.addrs with
  | .error err => .error (ascii "enumerate local interface addresses: " ++ err)
  | .ok raws => raws.mapM fun raw =>
      match os.parsePrefix raw with
      | .error err =>
          .error (ascii "parse local interface address " ++ quote unicode raw ++ ascii ": " ++ err)
      | .ok found => .ok found.addr.unmap

structure Server where
  credentials : List (Bytes × Bytes)
  rules : RuleSet

/-- `New` of the proxy server. -/
def newServer (unicode : Unicode) (os : Interfaces) (allowLocalDestinationsForTests : Bool) :
    Except Bytes Server := do
  let localAddresses ← localInterfaceAddresses unicode os
  return ⟨[ProxyProfile.proxyProfilePublic, .proxyProfileConfigured, .proxyProfileTest].map
      fun profile => (profile.name, profile.name),
    localAddresses, allowLocalDestinationsForTests⟩

/-! ## Addresses that are let through -/

/-- Addresses that no profile reaches: of this network, of the link, for groups, and reserved. -/
def Special (a b : UInt8) : Prop := a = 0 ∨ (a = 169 ∧ b = 254) ∨ 224 ≤ a

/-- Addresses that only operators and tests reach: private, shared and looped back ones, and those
for protocols, documentation and benchmarks. -/
def Internal (a b c : UInt8) : Prop :=
  a = 10 ∨ (a = 172 ∧ 16 ≤ b ∧ b < 32) ∨ (a = 192 ∧ b = 168) ∨ a = 127 ∨
    (a = 192 ∧ b = 0 ∧ c = 0) ∨ (a = 192 ∧ b = 0 ∧ c = 2) ∨ (a = 198 ∧ b = 51 ∧ c = 100) ∨
    (a = 203 ∧ b = 0 ∧ c = 113) ∨ (a = 192 ∧ b = 88 ∧ c = 99) ∨ (a = 198 ∧ (b = 18 ∨ b = 19)) ∨
    (a = 100 ∧ 64 ≤ b ∧ b < 128)

/-- The rules of the server leave the address open to the profile. -/
def RuleSet.Opens (r : RuleSet) (profile : ProxyProfile) (ip : Bytes) : Prop :=
  ∃ a b c d, HasOctets ip a b c d ∧ ¬ Special a b ∧
    (r.allowLocalDestinationsForTests = false →
      a ≠ 127 ∧ ofOctets a b c d ∉ r.localAddresses) ∧
    (profile = .proxyProfilePublic → ¬ Internal a b c)

section Rules

variable {r : RuleSet} {profile : ProxyProfile} {ip : Bytes} {a b c d : UInt8}

theorem alwaysBlocked_iff :
    (alwaysBlockedIPv4Prefixes.any fun blocked => blocked.contains (ofOctets a b c d)) = true ↔
      a = 0 ∨ 240 ≤ a := by
  have := a.toNat_lt
  simp only [alwaysBlockedIPv4Prefixes, List.any_cons, List.any_nil, Bool.or_eq_true, Bool.or_false,
    contains_first_iff (show 8 ≤ 8 by omega), contains_first_iff (show 4 ≤ 8 by omega),
    ← UInt8.toNat_inj, UInt8.le_iff_toNat_le, UInt8.toNat_ofNat]
  omega

/-- Of the addresses that are open at all, the public profile is refused the internal ones. -/
theorem publicProfileAllowsAddress_iff (ordinary : ¬ Special a b) :
    publicProfileAllowsAddress (ofOctets a b c d) = true ↔ ¬ Internal a b c := by
  have bound := b.toNat_lt
  have privateB : b.toNat / 2 ^ (8 - 4) = (16 : UInt8).toNat / 2 ^ (8 - 4) ↔ 16 ≤ b ∧ b < 32 := by
    simp only [UInt8.le_iff_toNat_le, UInt8.lt_iff_toNat_lt, UInt8.toNat_ofNat]
    omega
  have shared : b.toNat / 2 ^ (8 - 2) = (64 : UInt8).toNat / 2 ^ (8 - 2) ↔ 64 ≤ b ∧ b < 128 := by
    simp only [UInt8.le_iff_toNat_le, UInt8.lt_iff_toNat_lt, UInt8.toNat_ofNat]
    omega
  have benchmark : b.toNat / 2 ^ (8 - 7) = (18 : UInt8).toNat / 2 ^ (8 - 7) ↔ b = 18 ∨ b = 19 := by
    simp only [← UInt8.toNat_inj, UInt8.toNat_ofNat]
    omega
  obtain ⟨nonzero, linked, below⟩ : a ≠ 0 ∧ ¬ (a = 169 ∧ b = 254) ∧ ¬ 224 ≤ a := by
    simpa only [Special, not_or] using ordinary
  have group : a.toNat / 2 ^ (8 - 4) ≠ (224 : UInt8).toNat / 2 ^ (8 - 4) := by
    simp only [UInt8.le_iff_toNat_le, UInt8.toNat_ofNat] at below ⊢
    omega
  have reserved : a.toNat / 2 ^ (8 - 4) ≠ (240 : UInt8).toNat / 2 ^ (8 - 4) := by
    simp only [UInt8.le_iff_toNat_le, UInt8.toNat_ofNat] at below ⊢
    omega
  have last : a ≠ 255 := fun same => below (same ▸ by decide)
  have isV4 : (ofOctets a b c d).is4 = true := rfl
  rw [publicProfileAllowsAddress, isV4, if_neg (by decide), Bool.not_eq_true', ← Bool.not_eq_true,
    not_iff_not]
  simp only [safeURLBlockedIPv4, List.any_cons, List.any_nil, Bool.or_eq_true, Bool.or_false,
    contains_first_iff (show 8 ≤ 8 by omega), contains_first_iff (show 4 ≤ 8 by omega),
    contains_second_iff (show 2 ≤ 8 by omega), contains_second_iff (show 4 ≤ 8 by omega),
    contains_second_iff (show 7 ≤ 8 by omega), contains_second_iff (show 8 ≤ 8 by omega),
    contains_third_iff, contains_fourth_iff, privateB, shared, benchmark, group, reserved, nonzero,
    linked, last, Nat.sub_self, Nat.pow_zero, Nat.div_one, UInt8.toNat_inj, false_and, false_or]
  rfl

theorem destinationDenied_iff :
    r.destinationDenied (ofOctets a b c d) = false ↔
      ¬ Special a b ∧ (r.allowLocalDestinationsForTests = false →
        a ≠ 127 ∧ ofOctets a b c d ∉ r.localAddresses) := by
  have isV4 : (ofOctets a b c d).is4 = true := rfl
  have special : ((ofOctets a b c d).isUnspecified = true ∨
      (ofOctets a b c d).isLinkLocalUnicast = true ∨ (ofOctets a b c d).isMulticast = true ∨
      (alwaysBlockedIPv4Prefixes.any fun blocked => blocked.contains (ofOctets a b c d)) = true) ↔
        Special a b := by
    simp only [isUnspecified_ofOctets_iff, isLinkLocalUnicast_ofOctets_iff,
      isMulticast_ofOctets_iff, alwaysBlocked_iff, Special, ← UInt8.toNat_inj,
      UInt8.le_iff_toNat_le, UInt8.toNat_ofNat]
    omega
  have loops : (ofOctets a b c d).isLoopback = true ↔ a = 127 := isLoopback_ofOctets_iff
  rw [← special, Ne, ← loops, RuleSet.destinationDenied, isV4]
  grind

theorem opens_iff {address : Addr} (found : addrFromSlice ip = some address) :
    r.Opens profile ip ↔ r.destinationDenied address.unmap = false ∧
      (profile = .proxyProfilePublic → publicProfileAllowsAddress address.unmap = true) := by
  constructor
  · intro ⟨a, b, c, d, octets, ordinary, distant, outward⟩
    rw [octets.unmap found, destinationDenied_iff, publicProfileAllowsAddress_iff ordinary]
    exact ⟨⟨ordinary, distant⟩, outward⟩
  · intro ⟨notDenied, outward⟩
    cases unmapped : address.unmap with
    | v4 bits =>
        have whole : (addrFromSlice ip).map Addr.unmap = some (.v4 bits) := by
          rw [found, Option.map_some, unmapped]
        obtain ⟨a, b, c, d, octets, -⟩ := unmap_eq_v4_iff.mp whole
        rw [octets.unmap found] at notDenied outward
        obtain ⟨ordinary, distant⟩ := destinationDenied_iff.mp notDenied
        rw [publicProfileAllowsAddress_iff ordinary] at outward
        exact ⟨a, b, c, d, octets, ordinary, distant, outward⟩
    | v6 bits =>
        rw [unmapped] at notDenied
        cases notDenied

theorem ofName_eq_some_iff {name : Bytes} :
    ProxyProfile.ofName name = some profile ↔ name = profile.name := by
  constructor
  · intro found
    have same := List.find?_some found
    exact (of_decide_eq_true same).symm
  · intro same
    rw [same]
    cases profile <;> decide +kernel

theorem allow_connect_iff {dest : DestAddr} :
    r.allow ⟨.connect, some profile.name, some dest⟩ = true ↔ r.Opens profile dest.ip := by
  rw [RuleSet.allow, if_neg (not_not.mpr rfl)]
  dsimp only
  cases found : addrFromSlice dest.ip with
  | none =>
      refine iff_of_false Bool.false_ne_true ?_
      intro ⟨a, b, c, d, octets, _⟩
      have whole := unmap_eq_v4_iff.mpr ⟨a, b, c, d, octets, rfl⟩
      rw [found] at whole
      cases whole
  | some address =>
      rw [opens_iff found, ofName_eq_some_iff.mpr rfl]
      dsimp only
      split
      · rename_i denied
        exact iff_of_false Bool.false_ne_true fun both => by simp [denied] at both
      · rename_i notDenied
        rw [and_iff_right (Bool.not_eq_true _ ▸ notDenied)]
        cases profile
        · simp
        · simp
        · simp

theorem of_allow {request : Request} (allowed : r.allow request = true) :
    ∃ profile dest, request = ⟨.connect, some (ProxyProfile.name profile), some dest⟩ := by
  obtain ⟨command, username, destAddr⟩ := request
  rw [RuleSet.allow] at allowed
  split at allowed
  · cases allowed
  · rename_i connects
    cases not_not.mp connects
    split at allowed
    · rename_i name dest isUser isDest
      cases isUser
      cases isDest
      cases known : ProxyProfile.ofName name with
      | some profile => exact ⟨profile, dest, by rw [ofName_eq_some_iff.mp known]⟩
      | none =>
          rw [known] at allowed
          split at allowed
          · cases allowed
          · split at allowed <;> cases allowed
    · cases allowed

end Rules

/-! ## The server that is made -/

/-- An address of an interface of the host. -/
def Interfaces.Has (os : Interfaces) (address : Addr) : Prop :=
  ∃ raws, os.addrs = .ok raws ∧ ∃ raw ∈ raws, ∃ found, os.parsePrefix raw = .ok found ∧
    found.addr.unmap = address

/-- The host lets a profile reach the address. -/
def Interfaces.Opens (os : Interfaces) (allowLocalDestinationsForTests : Bool)
    (profile : ProxyProfile) (ip : Bytes) : Prop :=
  ∃ a b c d, HasOctets ip a b c d ∧ ¬ Special a b ∧
    (allowLocalDestinationsForTests = false → a ≠ 127 ∧ ¬ os.Has (ofOctets a b c d)) ∧
    (profile = .proxyProfilePublic → ¬ Internal a b c)

section Made

variable {unicode : Unicode} {os : Interfaces} {allowLocal : Bool} {server : Server}

theorem mem_localInterfaceAddresses {addresses : List Addr} {address : Addr}
    (found : localInterfaceAddresses unicode os = .ok addresses) :
    address ∈ addresses ↔ os.Has address := by
  rw [localInterfaceAddresses] at found
  split at found
  · cases found
  · rename_i raws listed
    rw [mem_iff_of_mapM found, Interfaces.Has, listed]
    constructor
    · intro ⟨raw, among, parsed⟩
      split at parsed
      · cases parsed
      · rename_i found _
        exact ⟨raws, rfl, raw, among, found, ‹_›, Except.ok.inj parsed⟩
    · intro ⟨_, same, raw, among, found, parsed, unmapped⟩
      cases same
      refine ⟨raw, among, ?_⟩
      rw [parsed]
      exact congrArg Except.ok unmapped

theorem newServer_opens_iff (made : newServer unicode os allowLocal = .ok server)
    {profile : ProxyProfile} {ip : Bytes} :
    server.rules.Opens profile ip ↔ os.Opens allowLocal profile ip := by
  obtain ⟨addresses, found, same⟩ := bind_ok_iff.mp made
  cases same
  simp only [RuleSet.Opens, Interfaces.Opens, mem_localInterfaceAddresses found]

/-- **What the proxy lets through.** A request is let through exactly when it is one to connect, its
user is a profile, and the host leaves the address open to that profile: it is an IPv4 address in
one of its two forms, no special one, none of the host itself except for tests, and for the public
profile no internal one. -/
theorem allow_iff_opens (made : newServer unicode os allowLocal = .ok server) (request : Request) :
    server.rules.allow request = true ↔ ∃ profile dest,
      request = ⟨.connect, some (ProxyProfile.name profile), some dest⟩ ∧
        os.Opens allowLocal profile dest.ip := by
  constructor
  · intro allowed
    obtain ⟨profile, dest, rfl⟩ := of_allow allowed
    exact ⟨profile, dest, rfl, (newServer_opens_iff made).mp (allow_connect_iff.mp allowed)⟩
  · intro ⟨profile, dest, same, opens⟩
    rw [same]
    exact allow_connect_iff.mpr ((newServer_opens_iff made).mpr opens)

end Made

namespace Sample

/-- A host with one interface, on a private network. -/
def oneInterface : Interfaces where
  addrs := .ok [ascii "10.0.0.5/24"]
  parsePrefix _ := .ok ⟨ofOctets 10 0 0 5, 24⟩

end Sample

/-- An operator's endpoint on the private network, in the form of an IPv6 address. -/
theorem allow_iff_opens_private : ∃ server,
    newServer Sample.plainHosts.unicode Sample.oneInterface false = .ok server ∧
      server.rules.allow ⟨.connect, some (ascii "configured"),
        some ⟨[], mapped ++ [10, 0, 0, 7], 443⟩⟩ = true := by
  have made : newServer Sample.plainHosts.unicode Sample.oneInterface false = .ok _ := rfl
  refine ⟨_, made, (allow_iff_opens made _).mpr
    ⟨.proxyProfileConfigured, _, rfl, 10, 0, 0, 7, Or.inr rfl, ?_, fun _ => ⟨by decide, ?_⟩, nofun⟩⟩
  · unfold Special
    decide
  · intro ⟨raws, listed, raw, _, found, parsed, same⟩
    cases parsed
    exact absurd same (by decide +kernel)

end ConfidentialCompute.Egress
