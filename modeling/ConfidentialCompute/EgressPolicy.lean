import ConfidentialCompute.Lib.Url
import Mathlib.Data.Finset.Basic

/-!
# The network policy of the enclave

`policy.go` of the proxy client. Every connection the enclave opens is checked against a policy.
That of an operator's endpoints is made from the text with the gateway URLs that the gateway client
also reads: both split it at commas and trim the pieces. The client drops empty pieces; the policy
refuses the whole text for one.
-/

namespace ConfidentialCompute.Egress

open Go

/-! ## The policy -/

/-- The parts of the standard library that follow the tables of Unicode, or the version. -/
structure Library where
  unicode : Unicode
  parseHost : Bytes → Bytes → Option Bytes

inductive PolicyKind where
  | workflowControlled
  | configuredEndpoint
  | preSignedURL
  | insecureFixture
deriving DecidableEq

inductive ProxyProfile where
  | proxyProfilePublic
  | proxyProfileConfigured
  | proxyProfileTest
deriving DecidableEq

structure Policy where
  kind : PolicyKind
  profile : ProxyProfile
  authorities : Finset Bytes
deriving DecidableEq

def workflowControlledPolicy : Policy := ⟨.workflowControlled, .proxyProfilePublic, ∅⟩

def preSignedURLPolicy : Policy := ⟨.preSignedURL, .proxyProfilePublic, ∅⟩

def canonicalAuthority (lib : Library) (host port : Bytes) : Except Bytes (Bytes × Nat) :=
  match (parseUint 16 port).filter (· ≠ 0) with
  | none => .error (ascii "invalid destination port " ++ quote lib.unicode port)
  | some portNumber =>
      let host := toLower lib.unicode (trimSuffix (ascii ".") host)
      if host = [] then .error (ascii "destination host is empty")
      else .ok (joinHostPort host (decimal portNumber), portNumber)

/-- The port that a URL means. -/
def urlPort (lib : Library) (endpoint : Bytes) (u : Url.URL) : Except Bytes Bytes :=
  if u.port ≠ [] then .ok u.port
  else if toLower lib.unicode u.scheme = ascii "https" then .ok (ascii "443")
  else if toLower lib.unicode u.scheme = ascii "http" then .ok (ascii "80")
  else .error (ascii "operator endpoint " ++ quote lib.unicode endpoint ++
    ascii " has unsupported scheme")

def endpointAuthority (lib : Library) (endpoint : Bytes) : Except Bytes Bytes :=
  let invalid := ascii "invalid operator endpoint " ++ quote lib.unicode endpoint
  if endpoint = [] then .error (ascii "operator endpoint is empty")
  else if contains endpoint (ascii "://") then
    match Url.parse lib.parseHost endpoint with
    | none => .error invalid
    | some u =>
        if u.hostname = [] then .error invalid
        else do
          let port ← urlPort lib endpoint u
          let (authority, _) ← canonicalAuthority lib u.hostname port
          return authority
  else
    match splitHostPort endpoint with
    | .error err =>
        .error (ascii "operator endpoint " ++ quote lib.unicode endpoint ++
          ascii " must include a port: " ++ err)
    | .ok (host, port) => do
        let (authority, _) ← canonicalAuthority lib host port
        return authority

/-- The first piece that has no authority decides. -/
def configuredEndpointPolicy (lib : Library) (endpoints : List Bytes) : Except Bytes Policy := do
  let authorities ← (endpoints.flatMap (List.splitOn 0x2c)).mapM fun endpoint =>
    endpointAuthority lib (trimSpace endpoint)
  if authorities = [] then .error (ascii "at least one operator endpoint is required")
  else return ⟨.configuredEndpoint, .proxyProfileConfigured, authorities.toFinset⟩

/-- The text of a `PolicyError`. -/
def policyError (reason : Bytes) : Bytes :=
  ascii "outbound request blocked by enclave network policy: " ++ reason

def Policy.validateAuthority (lib : Library) (p : Policy) (host port : Bytes) :
    Except Bytes Unit :=
  match canonicalAuthority lib host port with
  | .error err => .error (policyError err)
  | .ok (authority, portNumber) =>
      match p.kind with
      | .workflowControlled =>
          if portNumber ≠ 80 ∧ portNumber ≠ 443 then
            .error (policyError (ascii "port is not 80 or 443"))
          else .ok ()
      | .preSignedURL =>
          if portNumber ≠ 443 then .error (policyError (ascii "artifact port is not 443"))
          else .ok ()
      | .insecureFixture => .ok ()
      | .configuredEndpoint =>
          if authority ∈ p.authorities then .ok ()
          else .error (policyError (ascii "destination is not the configured operator endpoint"))

/-- The gateway client's reading of the text. -/
def parseGatewayURLs (raw : Bytes) : List Bytes :=
  ((raw.splitOn 0x2c).map trimSpace).filter (· ≠ [])

/-! ## Hosts and ports -/

/-- Equal up to the case of letters and one dot at the end. -/
def SameHost (host host' : Bytes) : Prop :=
  (trimSuffix (ascii ".") host).map lowerByte = (trimSuffix (ascii ".") host').map lowerByte

/-- Equal up to zeros at the front. -/
def SamePort (port port' : Bytes) : Prop :=
  port.dropWhile (· = 0x30) = port'.dropWhile (· = 0x30)

variable {lib : Library} {host host' port port' : Bytes} {n : Nat}

theorem samePort_iff (positive : 0 < n) (parsed : parseUint 16 port' = some n) :
    SamePort port port' ↔ parseUint 16 port = some n := by
  obtain ⟨below, written⟩ := (parseUint_eq_some_iff positive).mp parsed
  rw [parseUint_eq_some_iff positive, SamePort, written, and_iff_right below]

theorem canonicalAuthority_eq_ok_iff (isText : isAscii host = true) {authority : Bytes} :
    canonicalAuthority lib host port = .ok (authority, n) ↔
      0 < n ∧ parseUint 16 port = some n ∧ trimSuffix (ascii ".") host ≠ [] ∧
        authority = joinHostPort ((trimSuffix (ascii ".") host).map lowerByte) (decimal n) := by
  have small : toLower lib.unicode (trimSuffix (ascii ".") host) =
      (trimSuffix (ascii ".") host).map lowerByte :=
    toLower_ascii _ (isAscii_trimSuffix isText)
  rw [canonicalAuthority, small]
  cases parsed : (parseUint 16 port).filter (· ≠ 0) with
  | none =>
      refine iff_of_false nofun ?_
      rintro ⟨positive, found, _⟩
      rw [found, Option.filter_some, if_pos (by simpa using Nat.ne_of_gt positive)] at parsed
      cases parsed
  | some m =>
      obtain ⟨found, nonzero⟩ := Option.filter_eq_some_iff.mp parsed
      have positive : 0 < m := Nat.pos_of_ne_zero (by simpa using nonzero)
      simp only [List.map_eq_nil_iff, found]
      split
      · rename_i empty
        exact iff_of_false nofun fun ⟨_, _, nonempty, _⟩ => nonempty empty
      · rename_i nonempty
        constructor
        · intro same
          cases same
          exact ⟨positive, rfl, nonempty, rfl⟩
        · rintro ⟨_, same, _, rfl⟩
          cases same
          rfl

/-- The endpoint policy admits what it has an authority for. -/
theorem validateAuthority_configured_iff {authorities : Finset Bytes} {profile : ProxyProfile}
    (isText : isAscii host = true) :
    (Policy.mk .configuredEndpoint profile authorities).validateAuthority lib host port = .ok () ↔
      ∃ n, 0 < n ∧ parseUint 16 port = some n ∧ trimSuffix (ascii ".") host ≠ [] ∧
        joinHostPort ((trimSuffix (ascii ".") host).map lowerByte) (decimal n) ∈ authorities := by
  rw [Policy.validateAuthority]
  cases canonical : canonicalAuthority lib host port with
  | error err =>
      refine iff_of_false nofun ?_
      rintro ⟨n, positive, parsed, nonempty, _⟩
      cases canonical.symm.trans
        ((canonicalAuthority_eq_ok_iff isText).mpr ⟨positive, parsed, nonempty, rfl⟩)
  | ok result =>
      obtain ⟨authority, n⟩ := result
      obtain ⟨positive, parsed, nonempty, rfl⟩ := (canonicalAuthority_eq_ok_iff isText).mp canonical
      dsimp only
      split
      · rename_i among
        exact iff_of_true rfl ⟨n, positive, parsed, nonempty, among⟩
      · rename_i absent
        refine iff_of_false nofun ?_
        rintro ⟨m, _, parsed', _, among⟩
        cases parsed.symm.trans parsed'
        exact absent among

/-! ## Gateway URLs -/

/-- An `http` or `https` URL, with a host of ASCII characters that is more than a dot, and with a
port from 1 to 65535 or none. -/
structure GatewayURL (lib : Library) (text : Bytes) (u : Url.URL) : Prop where
  parsed : Url.parse lib.parseHost text = some u
  scheme : u.scheme = ascii "http" ∨ u.scheme = ascii "https"
  isText : isAscii u.hostname = true
  host : trimSuffix (ascii ".") u.hostname ≠ []
  port : u.port = [] ∨ ∃ n, 0 < n ∧ parseUint 16 u.port = some n

/-- The port of a URL, or the one of its scheme. -/
def effectivePort (u : Url.URL) : Bytes :=
  if u.port ≠ [] then u.port else if u.scheme = ascii "https" then ascii "443" else ascii "80"

variable {text : Bytes} {u : Url.URL}

theorem GatewayURL.exists_portNumber (isURL : GatewayURL lib text u) :
    ∃ n, 0 < n ∧ parseUint 16 (effectivePort u) = some n := by
  rw [effectivePort]
  split
  · rename_i given
    exact isURL.port.resolve_left given
  · split
    · exact ⟨443, by decide, by decide +kernel⟩
    · exact ⟨80, by decide, by decide +kernel⟩

theorem GatewayURL.urlPort_eq (isURL : GatewayURL lib text u) :
    urlPort lib text u = .ok (effectivePort u) := by
  have small : toLower lib.unicode u.scheme = u.scheme := by
    rcases isURL.scheme with http | https
    · rw [http, toLower_ascii _ (by decide)]
      decide
    · rw [https, toLower_ascii _ (by decide)]
      decide
  rw [urlPort, effectivePort, small]
  split
  · rfl
  · rcases isURL.scheme with http | https
    · rw [http, if_neg (by decide), if_pos rfl, if_neg (by decide)]
    · rw [https, if_pos rfl, if_pos rfl]

theorem GatewayURL.contains (isURL : GatewayURL lib text u) :
    contains text (ascii "://") = true := by
  refine Url.contains_of_parse isURL.parsed ?_ ?_
  · rcases isURL.scheme with http | https
    · rw [http]
      decide
    · rw [https]
      decide
  · intro empty
    have noHost : u.hostname = [] := by rw [Url.URL.hostname, empty]; rfl
    refine isURL.host ?_
    rw [noHost]
    rfl

/-- A well-formed URL stands for its host and its port. -/
theorem endpointAuthority_of_gatewayURL (isURL : GatewayURL lib text u) (positive : 0 < n)
    (parsed : parseUint 16 (effectivePort u) = some n) :
    endpointAuthority lib text =
      .ok (joinHostPort ((trimSuffix (ascii ".") u.hostname).map lowerByte) (decimal n)) := by
  have nonempty : text ≠ [] := by
    rintro rfl
    have within := contains_iff.mp isURL.contains
    cases List.infix_nil.mp within
  have hasHost : u.hostname ≠ [] := by
    intro empty
    have host := isURL.host
    rw [empty] at host
    exact host rfl
  have canonical : canonicalAuthority lib u.hostname (effectivePort u) = .ok
      (joinHostPort ((trimSuffix (ascii ".") u.hostname).map lowerByte) (decimal n), n) :=
    (canonicalAuthority_eq_ok_iff isURL.isText).mpr ⟨positive, parsed, isURL.host, rfl⟩
  rw [endpointAuthority, if_neg nonempty, if_pos isURL.contains, isURL.parsed]
  simp only [if_neg hasHost, isURL.urlPort_eq]
  show (canonicalAuthority lib u.hostname (effectivePort u) >>= fun result =>
    pure result.1) = _
  rw [canonical]
  rfl

/-! ## The two readings -/

/-- The policy is made, and admits the hosts and ports of the URLs that the client reads. -/
def ReadsAlike (lib : Library) (raw : Bytes) : Prop :=
  ∃ p, configuredEndpointPolicy lib [raw] = .ok p ∧
    ∀ host port, isAscii host = true →
      (p.validateAuthority lib host port = .ok () ↔
        ∃ text ∈ parseGatewayURLs raw, ∃ u, Url.parse lib.parseHost text = some u ∧
          SameHost host u.hostname ∧ SamePort port (effectivePort u))

/-- A pair of host and port has the authority of a URL if it is the same up to spelling. -/
theorem authority_eq_iff (isURL : GatewayURL lib text u) :
    endpointAuthority lib text =
        .ok (joinHostPort ((trimSuffix (ascii ".") host).map lowerByte) (decimal n)) ↔
      SameHost host u.hostname ∧ parseUint 16 (effectivePort u) = some n := by
  obtain ⟨m, positive', parsed⟩ := isURL.exists_portNumber
  have noColon : ∀ k, (0x3a : UInt8) ∉ decimal k := fun k among =>
    absurd (le_of_mem_decimal among) (by decide)
  rw [endpointAuthority_of_gatewayURL isURL positive' parsed, parsed]
  constructor
  · intro same
    obtain ⟨hosts, ports⟩ :=
      joinHostPort_injective (noColon m) (noColon n) (Except.ok.inj same)
    exact ⟨hosts.symm, congrArg some (decimal_injective ports)⟩
  · rintro ⟨hosts, same⟩
    cases same
    rw [SameHost] at hosts
    rw [hosts]

theorem endpointAuthority_nil (lib : Library) :
    endpointAuthority lib [] = .error (ascii "operator endpoint is empty") := rfl

variable {raw : Bytes}

/-- What a policy that is made from a text has: the authorities of its pieces. -/
theorem configuredEndpointPolicy_eq_ok_iff {p : Policy} :
    configuredEndpointPolicy lib [raw] = .ok p ↔
      ∃ authorities, ((raw.splitOn 0x2c).mapM fun piece =>
          endpointAuthority lib (trimSpace piece)) = .ok authorities ∧
        p = ⟨.configuredEndpoint, .proxyProfileConfigured, authorities.toFinset⟩ := by
  rw [configuredEndpointPolicy, List.flatMap_singleton, bind_ok_iff]
  refine exists_congr fun authorities => and_congr_right fun found => ?_
  have nonempty : authorities ≠ [] := by
    rintro rfl
    exact List.splitOn_ne_nil _ _ (List.forall₂_nil_right_iff.mp (mapM_ok_iff.mp found))
  rw [if_neg nonempty]
  exact ⟨fun made => (Except.ok.inj made).symm, fun made => congrArg Except.ok made.symm⟩

/-- Without blank pieces, both read the same list. -/
theorem parseGatewayURLs_eq (solid : ∀ piece ∈ raw.splitOn 0x2c, trimSpace piece ≠ []) :
    parseGatewayURLs raw = (raw.splitOn 0x2c).map trimSpace := by
  rw [parseGatewayURLs, List.filter_eq_self]
  intro text among
  obtain ⟨piece, listed, rfl⟩ := List.mem_map.mp among
  simpa using solid piece listed

/-- The policy fails at a blank piece, and at no well-formed URL. -/
theorem exists_policy_iff
    (wellFormed : ∀ text ∈ parseGatewayURLs raw, ∃ u, GatewayURL lib text u) :
    (∃ p, configuredEndpointPolicy lib [raw] = .ok p) ↔
      ∀ piece ∈ raw.splitOn 0x2c, trimSpace piece ≠ [] := by
  simp only [configuredEndpointPolicy_eq_ok_iff]
  rw [exists_comm]
  simp only [exists_and_left, exists_eq, and_true, exists_mapM_ok_iff]
  refine forall₂_congr fun piece among => ?_
  constructor
  · rintro ⟨authority, found⟩ blank
    rw [blank, endpointAuthority_nil] at found
    cases found
  · intro solid
    have listed : trimSpace piece ∈ parseGatewayURLs raw :=
      List.mem_filter.mpr ⟨List.mem_map_of_mem among, by simpa using solid⟩
    obtain ⟨u, isURL⟩ := wellFormed _ listed
    obtain ⟨n, positive, parsed⟩ := isURL.exists_portNumber
    exact ⟨_, endpointAuthority_of_gatewayURL isURL positive parsed⟩

theorem policy_reads_alike_iff (lib : Library) (raw : Bytes)
    (wellFormed : ∀ text ∈ parseGatewayURLs raw, ∃ u, GatewayURL lib text u) :
    ReadsAlike lib raw ↔ ∀ piece ∈ raw.splitOn 0x2c, trimSpace piece ≠ [] := by
  constructor
  · rintro ⟨p, made, -⟩
    exact (exists_policy_iff wellFormed).mp ⟨p, made⟩
  · intro solid
    obtain ⟨p, made⟩ := (exists_policy_iff wellFormed).mpr solid
    refine ⟨p, made, fun host port isText => ?_⟩
    obtain ⟨authorities, found, rfl⟩ := configuredEndpointPolicy_eq_ok_iff.mp made
    have among : ∀ authority, authority ∈ authorities ↔
        ∃ text ∈ parseGatewayURLs raw, endpointAuthority lib text = .ok authority := by
      intro authority
      rw [mem_iff_of_mapM found, parseGatewayURLs_eq solid]
      simp
    rw [validateAuthority_configured_iff isText]
    simp only [List.mem_toFinset, among]
    constructor
    · rintro ⟨n, positive, parsed, -, text, listed, found⟩
      obtain ⟨u, isURL⟩ := wellFormed text listed
      obtain ⟨hosts, number⟩ := (authority_eq_iff isURL).mp found
      exact ⟨text, listed, u, isURL.parsed, hosts, (samePort_iff positive number).mpr parsed⟩
    · rintro ⟨text, listed, u, parsed, hosts, ports⟩
      obtain ⟨u', isURL⟩ := wellFormed text listed
      cases parsed.symm.trans isURL.parsed
      obtain ⟨n, positive, number⟩ := isURL.exists_portNumber
      refine ⟨n, positive, (samePort_iff positive number).mp ports, fun empty => ?_, text, listed,
        (authority_eq_iff isURL).mpr ⟨hosts, number⟩⟩
      rw [SameHost, empty] at hosts
      exact isURL.host (List.map_eq_nil_iff.mp hosts.symm)

namespace Sample

/-- Hosts without brackets, escapes or colons stand for themselves. -/
def plainHosts : Library := ⟨⟨id, id⟩, fun _ host => some host⟩

theorem plain_gateway : GatewayURL plainHosts (ascii "https://Gateway.one.") ⟨ascii "https",
    ascii "Gateway.one."⟩ where
  parsed := by decide +kernel
  scheme := Or.inr rfl
  isText := by decide +kernel
  host := by decide +kernel
  port := Or.inl (by decide +kernel)

theorem gateway_with_port : GatewayURL plainHosts (ascii "http://two:08080/v1") ⟨ascii "http",
    ascii "two:08080"⟩ where
  parsed := by decide +kernel
  scheme := Or.inl rfl
  isText := by decide +kernel
  host := by decide +kernel
  port := Or.inr ⟨8080, by decide, by decide +kernel⟩

def twoGateways : Bytes := ascii " https://Gateway.one. ,http://two:08080/v1"

def trailingComma : Bytes := ascii "https://Gateway.one.,"

theorem trailingComma_wellFormed :
    ∀ text ∈ parseGatewayURLs trailingComma, ∃ u, GatewayURL plainHosts text u := by
  have urls : parseGatewayURLs trailingComma = [ascii "https://Gateway.one."] := by decide +kernel
  rw [urls, List.forall_mem_singleton]
  exact ⟨_, plain_gateway⟩

end Sample

section

open ConfidentialCompute.Egress.Sample

theorem policy_reads_two_gateways_alike : ReadsAlike plainHosts twoGateways := by
  have urls : parseGatewayURLs twoGateways =
      [ascii "https://Gateway.one.", ascii "http://two:08080/v1"] := by decide +kernel
  have solid : ((twoGateways.splitOn 0x2c).all fun piece => trimSpace piece ≠ []) = true := by
    decide +kernel
  refine (policy_reads_alike_iff plainHosts twoGateways ?_).mpr fun piece among => ?_
  · rw [urls, List.forall_mem_cons, List.forall_mem_singleton]
    exact ⟨⟨_, plain_gateway⟩, _, gateway_with_port⟩
  · exact of_decide_eq_true (List.all_eq_true.mp solid piece among)

theorem policy_refuses_trailing_comma :
    parseGatewayURLs trailingComma ≠ [] ∧
      (∀ text ∈ parseGatewayURLs trailingComma, ∃ u, GatewayURL plainHosts text u) ∧
      ¬ ReadsAlike plainHosts trailingComma := by
  have blank : [] ∈ trailingComma.splitOn 0x2c := by decide +kernel
  refine ⟨by decide +kernel, trailingComma_wellFormed, ?_⟩
  rintro ⟨p, made, -⟩
  exact (exists_policy_iff trailingComma_wellFormed).mp ⟨p, made⟩ [] blank rfl

end

end ConfidentialCompute.Egress
