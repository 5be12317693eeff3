import ConfidentialCompute.Lib.Strings
import ConfidentialCompute.Lib.Text

/-!
# URLs and addresses

`net/url` as far as the scheme and the host of a URL are concerned, and the addresses of `net`.
What a host may look like is a parameter, `parseHost`: it gives, for a scheme, the host that an
authority stands for, if any. The syntax of IPv6 literals, zones and colons in hosts has changed
between versions of the library, and nothing here depends on it.
-/

namespace Go

/-- What stands before and after the last occurrence of a byte. -/
def cutLast (sep : UInt8) (text : Bytes) : Option (Bytes × Bytes) :=
  if sep ∈ text then
    some (((text.reverse.dropWhile (· ≠ sep)).drop 1).reverse,
      (text.reverse.takeWhile (· ≠ sep)).reverse)
  else none

namespace Url

/-- The scheme, in small letters, and the host, with the port if there is one. -/
structure URL where
  scheme : Bytes
  host : Bytes
deriving DecidableEq

/-! ## The parts of a URL -/

def isLetter (b : UInt8) : Bool := 97 ≤ b && b ≤ 122 || 65 ≤ b && b ≤ 90

def isDigit (b : UInt8) : Bool := 48 ≤ b && b ≤ 57

/-- Letters, digits, `+`, `-` and `.`. -/
def isSchemeByte (b : UInt8) : Bool :=
  isLetter b || isDigit b || b == 0x2b || b == 0x2d || b == 0x2e

/-- The scheme and what follows it. A text without a scheme is all rest; one that begins with a
colon has no reading. -/
def getScheme (rawURL : Bytes) : Option (Bytes × Bytes) :=
  match rawURL.dropWhile isSchemeByte with
  | 0x3a :: rest =>
      match rawURL.takeWhile isSchemeByte with
      | [] => none
      | b :: scheme => some (if isLetter b then (b :: scheme, rest) else ([], rawURL))
  | _ => some ([], rawURL)

def isHexDigit (b : UInt8) : Bool := isDigit b || 97 ≤ b && b ≤ 102 || 65 ≤ b && b ≤ 70

/-- `unescape` succeeds: each percent sign has two hexadecimal digits after it. -/
def validEscapes : Bytes → Bool
  | [] => true
  | 0x25 :: a :: b :: rest => isHexDigit a && isHexDigit b && validEscapes rest
  | 0x25 :: _ => false
  | _ :: rest => validEscapes rest

def validUserinfo (userinfo : Bytes) : Bool :=
  userinfo.all fun b => isLetter b || isDigit b || (ascii "-._:~!$&'()*+,;=%@").contains b

def parseAuthority (parseHost : Bytes → Bytes → Option Bytes) (scheme authority : Bytes) :
    Option Bytes :=
  match cutLast 0x40 authority with
  | none => parseHost scheme authority
  | some (userinfo, host) =>
      (parseHost scheme host).bind fun host =>
        let (username, password) := cut 0x3a userinfo
        if validUserinfo userinfo && validEscapes username && validEscapes password then some host
        else none

/-- What follows the scheme, up to the query: nothing that the library looks into, an authority
and a path, or a path. The first segment of a path without a scheme has no colon. -/
def parseRest (parseHost : Bytes → Bytes → Option Bytes) (scheme rest : Bytes) : Option URL :=
  if (ascii "/").isPrefixOf rest = false ∧ scheme ≠ [] then some ⟨scheme, []⟩
  else if (ascii "/").isPrefixOf rest = false ∧ 0x3a ∈ (cut 0x2f rest).1 then none
  else if (scheme ≠ [] ∨ (ascii "///").isPrefixOf rest = false) ∧
      (ascii "//").isPrefixOf rest = true then
    let authority := (rest.drop 2).takeWhile (· ≠ 0x2f)
    let path := (rest.drop 2).dropWhile (· ≠ 0x2f)
    (parseAuthority parseHost scheme authority).bind fun host =>
      if validEscapes path then some ⟨scheme, host⟩ else none
  else if validEscapes rest then some ⟨scheme, []⟩
  else none

/-- `parse` after the fragment has been cut off. -/
def parseNoFragment (parseHost : Bytes → Bytes → Option Bytes) (rawURL : Bytes) : Option URL :=
  if rawURL.any fun b => b < 0x20 || b == 0x7f then none
  else if rawURL = ascii "*" then some ⟨[], []⟩
  else
    (getScheme rawURL).bind fun (scheme, rest) =>
      parseRest parseHost (scheme.map lowerByte) (cut 0x3f rest).1

/-- `url.Parse`; every error is `none`. -/
def parse (parseHost : Bytes → Bytes → Option Bytes) (rawURL : Bytes) : Option URL :=
  let (text, fragment) := cut 0x23 rawURL
  (parseNoFragment parseHost text).bind fun url =>
    if validEscapes fragment then some url else none

def validOptionalPort : Bytes → Bool
  | [] => true
  | b :: digits => b == 0x3a && digits.all isDigit

/-- The host and the port of a URL. The brackets of an IPv6 literal are dropped. -/
def splitHostPort (hostPort : Bytes) : Bytes × Bytes :=
  let (host, port) :=
    match cutLast 0x3a hostPort with
    | none => (hostPort, [])
    | some (host, port) =>
        if validOptionalPort (0x3a :: port) then (host, port) else (hostPort, [])
  if (ascii "[").isPrefixOf host && (ascii "]").isSuffixOf host then
    ((host.drop 1).dropLast, port)
  else (host, port)

namespace URL

def hostname (u : URL) : Bytes := (splitHostPort u.host).1

def port (u : URL) : Bytes := (splitHostPort u.host).2

end URL

/-! ## URLs with a host -/

variable {parseHost : Bytes → Bytes → Option Bytes} {rawURL scheme rest : Bytes} {u : URL}

theorem eq_of_getScheme (found : getScheme rawURL = some (scheme, rest)) (nonempty : scheme ≠ []) :
    rawURL = scheme ++ 0x3a :: rest := by
  have parts := List.takeWhile_append_dropWhile (p := isSchemeByte) (l := rawURL)
  unfold getScheme at found
  split at found
  · rename_i after colon
    split at found
    · cases found
    · rename_i b bytes start
      split at found
      · cases found
        rw [← start, ← colon, parts]
      · cases found
        exact absurd rfl nonempty
  · cases found
    exact absurd rfl nonempty

/-- A host comes after two slashes. -/
theorem slashes_of_parseRest (parsed : parseRest parseHost scheme rest = some u)
    (host : u.host ≠ []) : u.scheme = scheme ∧ ascii "//" <+: rest := by
  rw [parseRest] at parsed
  split at parsed
  · cases parsed
    exact absurd rfl host
  · split at parsed
    · cases parsed
    · split at parsed
      · rename_i slashes
        obtain ⟨host, _, parsed⟩ := Option.bind_eq_some_iff.mp parsed
        split at parsed
        · cases parsed
          exact ⟨rfl, List.isPrefixOf_iff_prefix.mp slashes.2⟩
        · cases parsed
      · split at parsed
        · cases parsed
          exact absurd rfl host
        · cases parsed

/-- Where the host of a URL comes from. -/
theorem exists_authority (parsed : parseNoFragment parseHost rawURL = some u)
    (host : u.host ≠ []) :
    ∃ scheme rest, getScheme rawURL = some (scheme, rest) ∧ u.scheme = scheme.map lowerByte ∧
      ascii "//" <+: rest := by
  rw [parseNoFragment] at parsed
  split at parsed
  · cases parsed
  · split at parsed
    · cases parsed
      exact absurd rfl host
    · obtain ⟨⟨scheme, rest⟩, found, parsed⟩ := Option.bind_eq_some_iff.mp parsed
      obtain ⟨same, slashes⟩ := slashes_of_parseRest parsed host
      exact ⟨scheme, rest, found, same, slashes.trans (List.takeWhile_prefix _)⟩

theorem contains_of_parse (parsed : parse parseHost rawURL = some u) (scheme : u.scheme ≠ [])
    (host : u.host ≠ []) : contains rawURL (ascii "://") = true := by
  obtain ⟨url, parsed, fragment⟩ := Option.bind_eq_some_iff.mp parsed
  split at fragment
  · cases fragment
    obtain ⟨scheme', rest, found, same, after, rfl⟩ := exists_authority parsed host
    have nonempty : scheme' ≠ [] := by
      rintro rfl
      exact scheme same
    have text : (cut 0x23 rawURL).1 = scheme' ++ ascii "://" ++ after := by
      have slashes : ascii "://" = 0x3a :: ascii "//" := by decide
      rw [List.append_assoc, slashes]
      exact eq_of_getScheme found nonempty
    have within : ascii "://" <:+: (cut 0x23 rawURL).1 := ⟨scheme', after, text.symm⟩
    exact contains_iff.mpr (within.trans (List.takeWhile_prefix _).isInfix)
  · cases fragment

end Url

/-! ## Addresses -/

/-- `net.JoinHostPort`. -/
def joinHostPort (host port : Bytes) : Bytes :=
  if 0x3a ∈ host then ascii "[" ++ host ++ ascii "]:" ++ port else host ++ 0x3a :: port

/-- The host as it stands in an address. -/
def bracketed (host : Bytes) : Bytes :=
  if 0x3a ∈ host then ascii "[" ++ host ++ ascii "]" else host

theorem joinHostPort_eq (host port : Bytes) :
    joinHostPort host port = bracketed host ++ 0x3a :: port := by
  rw [joinHostPort, bracketed]
  split
  · have closing : ascii "]:" = ascii "]" ++ [0x3a] := by decide
    rw [closing, List.append_assoc, List.append_assoc, List.append_assoc, List.append_assoc]
    rfl
  · rfl

theorem bracketed_injective : Function.Injective bracketed := by
  have colon : ∀ host, 0x3a ∈ bracketed host ↔ 0x3a ∈ host := by
    intro host
    rw [bracketed]
    split
    · rename_i within
      exact iff_of_true (List.mem_append_left _ (List.mem_append_right _ within)) within
    · exact Iff.rfl
  intro host host' same
  have both : 0x3a ∈ host ↔ 0x3a ∈ host' := by rw [← colon host, same, colon host']
  rw [bracketed, bracketed] at same
  by_cases within : 0x3a ∈ host
  · rw [if_pos within, if_pos (both.mp within)] at same
    exact List.append_cancel_left (List.append_cancel_right same)
  · rwa [if_neg within, if_neg (mt both.mpr within)] at same

/-- The port is what follows the last colon. -/
theorem joinHostPort_injective {host host' port port' : Bytes} (digits : 0x3a ∉ port)
    (digits' : 0x3a ∉ port') (same : joinHostPort host port = joinHostPort host' port') :
    host = host' ∧ port = port' := by
  rw [joinHostPort_eq, joinHostPort_eq] at same
  have last : ∀ host port : Bytes, 0x3a ∉ port →
      (host ++ 0x3a :: port).reverse.takeWhile (· ≠ 0x3a) = port.reverse := by
    intro host port digits
    have digitsOnly : ∀ b ∈ port.reverse, decide (b ≠ 0x3a) = true := by
      intro b among
      exact decide_eq_true fun colon => digits (colon ▸ List.mem_reverse.mp among)
    rw [List.reverse_append, List.reverse_cons, List.append_assoc,
      List.takeWhile_append_of_pos digitsOnly]
    simp
  have ports : port = port' := by
    rw [← List.reverse_inj, ← last (bracketed host) port digits, same, last _ port' digits']
  subst ports
  exact ⟨bracketed_injective (List.append_cancel_right same), rfl⟩

/-- The text of a `net.AddrError`. -/
def addrError (addr why : Bytes) : Bytes :=
  if addr = [] then why else ascii "address " ++ addr ++ ascii ": " ++ why

/-- `net.SplitHostPort`. -/
def splitHostPort (hostport : Bytes) : Except Bytes (Bytes × Bytes) :=
  match cutLast 0x3a hostport with
  | none => .error (addrError hostport (ascii "missing port in address"))
  | some (host, port) =>
      if hostport.head? = some 0x5b then
        -- The first bracket that closes must stand right before the last colon.
        if 0x5d ∉ hostport then .error (addrError hostport (ascii "missing ']' in address"))
        else
          let inner := (cut 0x5d hostport).1
          let after := (cut 0x5d hostport).2
          if inner.length + 1 = host.length then
            if 0x5b ∈ hostport.drop 1 then
              .error (addrError hostport (ascii "unexpected '[' in address"))
            else if 0x5d ∈ after then
              .error (addrError hostport (ascii "unexpected ']' in address"))
            else .ok (inner.drop 1, port)
          else if after.head? = some 0x3a then
            .error (addrError hostport (ascii "too many colons in address"))
          else .error (addrError hostport (ascii "missing port in address"))
      else if 0x3a ∈ host then
        .error (addrError hostport (ascii "too many colons in address"))
      else if 0x5b ∈ hostport then
        .error (addrError hostport (ascii "unexpected '[' in address"))
      else if 0x5d ∈ hostport then
        .error (addrError hostport (ascii "unexpected ']' in address"))
      else .ok (host, port)

end Go
