import ConfidentialCompute.Types

/-!
# The Ed25519 signature verifier

`VerifySignature` tries the allowed signers in order and returns the first under which
the signature verifies. `ed25519.Verify` panics on a key that is not 32 bytes long, and
the loop does not look at the length of a key before it hands it over, so a malformed
signer that the loop reaches ends the call by a panic.
-/

namespace ConfidentialCompute

open Go

def ed25519SignatureSize : Nat := 64

def ed25519PublicKeySize : Nat := 32

inductive VerifyError where
  | signatureLength (got : Nat)
  | notFromAllowedSigner
deriving DecidableEq

def VerifyError.message : VerifyError → String
  | .signatureLength got =>
      s!"invalid signature length: expected {ed25519SignatureSize} bytes, got {got}"
  | .notFromAllowedSigner => "signature not from any allowed signer"

/-- The loop over the allowed signers. -/
def verifyAgainst (crypto : Crypto) (hash signature : Bytes) :
    List (Slice UInt8) → Outcome VerifyError (Slice UInt8)
  | [] => .err .notFromAllowedSigner
  | allowedSigner :: rest =>
      if allowedSigner.length ≠ ed25519PublicKeySize then .panicked
      else if crypto.ed25519Verify allowedSigner.data hash signature then .ok allowedSigner
      else verifyAgainst crypto hash signature rest

def verifySignature (crypto : Crypto) (hash : Bytes) (signature : Slice UInt8)
    (allowedSigners : Slice (Slice UInt8)) : Outcome VerifyError (Slice UInt8) :=
  if signature.length ≠ ed25519SignatureSize then .err (.signatureLength signature.length)
  else verifyAgainst crypto hash signature.data allowedSigners.data

/-- The signature is a valid one of the key over the text. -/
def ValidSignature (crypto : Crypto) (hash : Bytes) (signature key : Slice UInt8) : Prop :=
  key.length = ed25519PublicKeySize ∧ signature.length = ed25519SignatureSize ∧
    crypto.ed25519Verify key.data hash signature.data = true

/-- The loop comes to a key that is not of the right length: no key before it is malformed
or verifies the signature. -/
def ReachesMalformedKey (crypto : Crypto) (hash : Bytes) (signature : Slice UInt8)
    (allowedSigners : Slice (Slice UInt8)) : Prop :=
  signature.length = ed25519SignatureSize ∧
    ∃ tried key rest, allowedSigners.data = tried ++ key :: rest ∧
      key.length ≠ ed25519PublicKeySize ∧
      ∀ other ∈ tried, other.length = ed25519PublicKeySize ∧
        crypto.ed25519Verify other.data hash signature.data = false

variable {crypto : Crypto} {hash : Bytes} {signature : Slice UInt8}
  {allowedSigners : Slice (Slice UInt8)} {signer : Slice UInt8}

theorem verifyAgainst_ok {sig : Bytes} {signers : List (Slice UInt8)}
    (ok : verifyAgainst crypto hash sig signers = .ok signer) :
    signer ∈ signers ∧ signer.length = ed25519PublicKeySize ∧
      crypto.ed25519Verify signer.data hash sig = true := by
  induction signers with
  | nil => cases ok
  | cons first rest ih =>
      unfold verifyAgainst at ok
      split at ok
      · cases ok
      · rename_i size
        split at ok
        · rename_i verified
          cases ok
          exact ⟨List.mem_cons_self, not_not.mp size, verified⟩
        · obtain ⟨member, verified⟩ := ih ok
          exact ⟨List.mem_cons_of_mem _ member, verified⟩

/-- The signer returned is one of the allowed ones and the signature is theirs. -/
theorem verifySignature_valid
    (ok : verifySignature crypto hash signature allowedSigners = .ok signer) :
    signer ∈ allowedSigners ∧ ValidSignature crypto hash signature signer := by
  unfold verifySignature at ok
  split at ok
  · cases ok
  · rename_i size
    obtain ⟨member, length, verified⟩ := verifyAgainst_ok ok
    exact ⟨member, length, not_not.mp size, verified⟩

theorem verifySignature_ok
    (ok : verifySignature crypto hash signature allowedSigners = .ok signer) :
    signer ∈ allowedSigners ∧
      crypto.ed25519Verify signer.data hash signature.data = true := by
  obtain ⟨member, _, _, verified⟩ := verifySignature_valid ok
  exact ⟨member, verified⟩

theorem verifyAgainst_panicked_iff {sig : Bytes} {signers : List (Slice UInt8)} :
    verifyAgainst crypto hash sig signers = .panicked ↔
      ∃ tried key rest, signers = tried ++ key :: rest ∧ key.length ≠ ed25519PublicKeySize ∧
        ∀ other ∈ tried, other.length = ed25519PublicKeySize ∧
          crypto.ed25519Verify other.data hash sig = false := by
  induction signers with
  | nil => simp [verifyAgainst]
  | cons first rest ih =>
      unfold verifyAgainst
      split
      · rename_i size
        simp only [true_iff]
        exact ⟨[], first, rest, rfl, size, by simp⟩
      · rename_i size
        split
        · rename_i verified
          simp only [reduceCtorEq, false_iff]
          rintro ⟨tried, key, after, eq, malformed, before⟩
          cases tried with
          | nil =>
              cases eq
              exact size malformed
          | cons head tried =>
              cases eq
              have := (before _ List.mem_cons_self).2
              rw [verified] at this
              cases this
        · rename_i refused
          rw [ih]
          constructor
          · rintro ⟨tried, key, after, rfl, malformed, before⟩
            refine ⟨first :: tried, key, after, rfl, malformed, fun other member => ?_⟩
            rcases List.mem_cons.mp member with rfl | member
            · exact ⟨not_not.mp size, by simpa using refused⟩
            · exact before other member
          · rintro ⟨tried, key, after, eq, malformed, before⟩
            cases tried with
            | nil =>
                cases eq
                exact (size malformed).elim
            | cons head tried =>
                cases eq
                exact ⟨tried, key, after, rfl, malformed, fun other member =>
                  before other (List.mem_cons_of_mem _ member)⟩

/-- `VerifySignature` panics on the malformed keys it comes to, and on nothing else. -/
theorem verifySignature_panicked_iff :
    verifySignature crypto hash signature allowedSigners = .panicked ↔
      ReachesMalformedKey crypto hash signature allowedSigners := by
  unfold verifySignature ReachesMalformedKey
  split
  · rename_i size
    simp [size]
  · rename_i size
    rw [verifyAgainst_panicked_iff]
    simp [not_not.mp size]

instance : Decidable (ReachesMalformedKey crypto hash signature allowedSigners) :=
  decidable_of_iff _ verifySignature_panicked_iff

/-- A valid signature of an allowed signer is found, if it is nobody else's and the loop
does not panic. -/
theorem verifySignature_of_valid (member : signer ∈ allowedSigners)
    (valid : ValidSignature crypto hash signature signer)
    (unique : ∀ other ∈ allowedSigners, ValidSignature crypto hash signature other →
      other = signer)
    (survives : ¬ ReachesMalformedKey crypto hash signature allowedSigners) :
    verifySignature crypto hash signature allowedSigners = .ok signer := by
  cases result : verifySignature crypto hash signature allowedSigners with
  | ok found =>
      obtain ⟨allowed, isValid⟩ := verifySignature_valid result
      rw [unique found allowed isValid]
  | panicked => exact (survives (verifySignature_panicked_iff.mp result)).elim
  | err e =>
      exfalso
      unfold verifySignature at result
      rw [if_neg (not_not.mpr valid.2.1)] at result
      have refused : ∀ {signers : List (Slice UInt8)},
          verifyAgainst crypto hash signature.data signers = .err e → signer ∉ signers := by
        intro signers
        induction signers with
        | nil => simp
        | cons first rest ih =>
            intro failed
            unfold verifyAgainst at failed
            split at failed
            · cases failed
            · split at failed
              · cases failed
              · rename_i notFirst
                intro among
                rcases List.mem_cons.mp among with rfl | among
                · exact notFirst valid.2.2
                · exact ih failed among
      exact refused result member

end ConfidentialCompute
