import ConfidentialCompute.Executor.Refresh
import ConfidentialCompute.Lib.Strings
import ConfidentialCompute.PoolTrust

/-!
# The API key in the request header

The executor writes its API key as a header line into every entry of the node list, and the pool
takes the line apart again when it sends a request to an enclave: the line is split at each colon,
and there must be two parts.
-/

namespace ConfidentialCompute

open Go

/-! ## Headers -/

/-- A byte that may stand in the name of a header. -/
def validHeaderFieldByte (c : UInt8) : Bool :=
  (48 ≤ c && c ≤ 57) || (65 ≤ c && c ≤ 90) || (97 ≤ c && c ≤ 122) ||
    (ascii "!#$%&'*+-.^_|~").contains c || c == 96

/-- `upper` says that a word of the name begins. -/
def canonicalFrom (upper : Bool) : Bytes → Bytes
  | [] => []
  | c :: rest =>
      let c :=
        if upper && 97 ≤ c && c ≤ 122 then c - 32
        else if !upper && 65 ≤ c && c ≤ 90 then c + 32
        else c
      c :: canonicalFrom (c == 45) rest

/-- `textproto.CanonicalMIMEHeaderKey`. -/
def canonicalMIMEHeaderKey (key : Bytes) : Bytes :=
  if key.all validHeaderFieldByte then canonicalFrom true key else key

/-- `http.Header`. -/
abbrev Header := GoMap Bytes (List Bytes)

def Header.set (h : Header) (key value : Bytes) : Header :=
  h.insert (canonicalMIMEHeaderKey key) [value]

/-- The first value, and the empty string if there is none. -/
def Header.get (h : Header) (key : Bytes) : Bytes :=
  ((h.lookup (canonicalMIMEHeaderKey key)).getD []).headD []

theorem Header.get_set (h : Header) (key value : Bytes) :
    Header.get (h.set key value) key = value := by
  rw [Header.get, Header.set, Finmap.lookup_insert]
  rfl

/-! ## The code -/

def authHeaderTemplate (apiKey : Bytes) : Bytes := ascii "x-api-key: " ++ apiKey

/-- The header line that `GetEnclaveNodes` stores. There is none without a key. -/
def apiKeyHeader (apiKey : GoString) (fits : (authHeaderTemplate apiKey.data).length < 2 ^ 63) :
    Option GoString :=
  if apiKey.length = 0 then none else some ⟨authHeaderTemplate apiKey.data, fits⟩

def colon : UInt8 := 58

def setAuthHeader (enclave : PoolNode) (header : Header) : Except Bytes Header :=
  if enclave.enclaveAuthHeader.length = 0 then .ok header
  else
    match enclave.enclaveAuthHeader.data.splitOn colon with
    | [name, value] => .ok (header.set (trimSpace name) (trimSpace value))
    | _ =>
        .error (ascii "malformed enclave auth header for enclave " ++
          Hex.encode enclave.enclaveID.data ++ ascii ": " ++ enclave.enclaveAuthHeader.data)

/-! ## The round trip -/

section

variable {apiKey : GoString} {fits : (authHeaderTemplate apiKey.data).length < 2 ^ 63}
  {enclaves nodes : Slice PoolNode} {node : PoolNode}

theorem enclaveAuthHeader_of_stored (nonempty : apiKey.data ≠ [])
    (stored : getEnclaveNodes (apiKeyHeader apiKey fits) (.ok enclaves) = .ok nodes)
    (among : node ∈ nodes) : node.enclaveAuthHeader = ⟨authHeaderTemplate apiKey.data, fits⟩ := by
  have key : apiKeyHeader apiKey fits = some ⟨authHeaderTemplate apiKey.data, fits⟩ :=
    if_neg fun empty => nonempty (List.length_eq_zero_iff.mp empty)
  rw [key, getEnclaveNodes] at stored
  cases stored
  obtain ⟨_, _, rfl⟩ := List.mem_map.mp among
  rfl

/-- The name of the header is cut off at the first colon. -/
theorem splitOn_authHeaderTemplate (key : Bytes) :
    (authHeaderTemplate key).splitOn colon = ascii "x-api-key" :: (0x20 :: key).splitOn colon := by
  have plain : colon ∉ ascii "x-api-key" := by decide
  exact List.splitOn_append_cons_self_of_not_mem plain (0x20 :: key)

theorem splitOn_of_colon {key : Bytes} (member : colon ∈ key) :
    ∃ first second more, (0x20 :: key).splitOn colon = first :: second :: more := by
  obtain ⟨before, after, rfl⟩ := List.append_of_mem member
  have left := List.splitOn_ne_nil colon (0x20 :: before)
  have right := List.splitOn_ne_nil colon after
  obtain ⟨first, more, isLeft⟩ := List.exists_cons_of_ne_nil left
  obtain ⟨last, more', isRight⟩ := List.exists_cons_of_ne_nil right
  rw [← List.cons_append, List.splitOn_append_cons_self, isLeft, isRight]
  cases more with
  | nil => exact ⟨first, last, more', rfl⟩
  | cons second more => exact ⟨first, second, more ++ last :: more', rfl⟩

/-- A stored key is set as the header, without the white space around it, unless there is a colon
in it. -/
theorem setAuthHeader_of_stored (nonempty : apiKey.data ≠ [])
    (stored : getEnclaveNodes (apiKeyHeader apiKey fits) (.ok enclaves) = .ok nodes)
    (among : node ∈ nodes) (header : Header) :
    setAuthHeader node header =
      if colon ∈ apiKey.data then
        .error (ascii "malformed enclave auth header for enclave " ++
          Hex.encode node.enclaveID.data ++ ascii ": " ++ authHeaderTemplate apiKey.data)
      else .ok (header.set (ascii "x-api-key") (trimSpace apiKey.data)) := by
  have line := enclaveAuthHeader_of_stored nonempty stored among
  have written : node.enclaveAuthHeader.length ≠ 0 := by
    rw [line]
    exact Nat.succ_ne_zero _
  rw [setAuthHeader, if_neg written, line, splitOn_authHeaderTemplate]
  by_cases member : colon ∈ apiKey.data
  · obtain ⟨first, second, more, parts⟩ := splitOn_of_colon member
    rw [if_pos member, parts]
  · have whole : colon ∉ (0x20 :: apiKey.data : Bytes) := by
      rw [List.mem_cons, not_or]
      exact ⟨by decide, member⟩
    have name : trimSpace (ascii "x-api-key") = ascii "x-api-key" := by decide +kernel
    rw [if_neg member, List.splitOn_eq_singleton whole]
    show Except.ok (header.set (trimSpace (ascii "x-api-key")) _) = _
    rw [name, trimSpace_space]

end

/-- **API keys survive** exactly if there is no colon in them. -/
theorem api_key_survives_iff (apiKey : GoString) (nonempty : apiKey.data ≠ [])
    (trimmed : trimSpace apiKey.data = apiKey.data)
    (fits : (authHeaderTemplate apiKey.data).length < 2 ^ 63) (enclaves nodes : Slice PoolNode)
    (stored : getEnclaveNodes (apiKeyHeader apiKey fits) (.ok enclaves) = .ok nodes)
    (node : PoolNode) (among : node ∈ nodes) (header : Header) :
    (∃ header', setAuthHeader node header = .ok header' ∧
      Header.get header' (ascii "x-api-key") = apiKey.data) ↔ colon ∉ apiKey.data := by
  rw [setAuthHeader_of_stored nonempty stored among header]
  constructor
  · rintro ⟨header', applied, _⟩ member
    rw [if_pos member] at applied
    cases applied
  · intro plain
    rw [if_neg plain, trimmed]
    exact ⟨_, rfl, Header.get_set header _ _⟩

namespace Sample

/-- The node list with one entry, as it is stored with an API key. -/
def keyedNodes (apiKey : GoString) (fits : (authHeaderTemplate apiKey.data).length < 2 ^ 63) :
    Except ExecutorError (Slice PoolNode) :=
  getEnclaveNodes (apiKeyHeader apiKey fits) (.ok (one (poolNode 1)))

def colonKey : GoString := ⟨ascii "id:secret", by decide⟩

def plainKey : GoString := ⟨ascii "my-secret-api-key", by decide⟩

end Sample

/-- With the key `id:secret` no request to the enclave can be made. -/
theorem api_key_with_colon_fails :
    trimSpace Sample.colonKey.data = Sample.colonKey.data ∧
    ∃ nodes, Sample.keyedNodes Sample.colonKey (by decide) = .ok nodes ∧ nodes.length = 1 ∧
      ∀ node ∈ nodes, ¬ ∃ header', setAuthHeader node ∅ = .ok header' := by
  refine ⟨by decide +kernel, _, rfl, rfl, fun node among => ?_⟩
  have nonempty : Sample.colonKey.data ≠ [] := by decide
  have refused := setAuthHeader_of_stored nonempty rfl among ∅
  rw [if_pos (by decide)] at refused
  rintro ⟨_, applied⟩
  cases refused.symm.trans applied

/-- A key without a colon arrives. -/
theorem api_key_survives_plain :
    ∃ nodes, Sample.keyedNodes Sample.plainKey (by decide) = .ok nodes ∧
      ∀ node ∈ nodes, ∃ header', setAuthHeader node ∅ = .ok header' ∧
        Header.get header' (ascii "x-api-key") = Sample.plainKey.data := by
  refine ⟨_, rfl, fun node among => ?_⟩
  exact (api_key_survives_iff Sample.plainKey (by decide) (by decide +kernel) (by decide) _ _ rfl
    node among ∅).mpr (by decide)

end ConfidentialCompute
