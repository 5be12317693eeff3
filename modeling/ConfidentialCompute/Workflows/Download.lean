import ConfidentialCompute.Lib.TextCodec

/-!
# The size limit of a download

`download` of the storage fetcher. The binary arrives in base64, and `maxBytes` limits what is
read: the encoded text may have a third more characters than the binary has bytes, and four more.
The slack lets some binaries pass that exceed the limit, and the product `maxBytes * 4` overflows
for limits from `2 ^ 61` on.

What becomes of the request is an argument: the body is a stream of bytes that ends or fails.
-/

namespace ConfidentialCompute.Workflows

open Go

/-- The bytes of a body, and the error met after them if the body does not end there. -/
structure ResponseBody where
  data : Bytes
  err : Option Bytes
deriving DecidableEq

/-- `io.ReadAll` of an `io.LimitReader`. An error after the limit is not met, and a limit below one
reads nothing. -/
def ResponseBody.readLimited (body : ResponseBody) (limit : Int) : Except Bytes Bytes :=
  if body.data.length < limit then
    match body.err with
    | none => .ok body.data
    | some err => .error err
  else .ok (body.data.take limit.toNat)

/-- What becomes of the request: it is not built, it fails, or it is answered. -/
inductive DownloadAnswer where
  | unbuilt (err : Bytes)
  | failed (err : Bytes)
  | responded (statusCode : Int) (body : ResponseBody)

/-- `f.maxBytes*4/3 + 4`, in `int64`. -/
def maxEncoded (maxBytes : Int) : Int :=
  (((maxBytes * 4).bmod (2 ^ 64)).tdiv 3 + 4).bmod (2 ^ 64)

def download (maxBytes : Int) : DownloadAnswer → Except Bytes Bytes
  | .unbuilt err => .error (ascii "building download request: " ++ err)
  | .failed err => .error (ascii "downloading binary: " ++ err)
  | .responded statusCode body =>
      if statusCode ≠ 200 then
        .error (ascii "downloading binary: status " ++ ascii (toString statusCode))
      else
        match body.readLimited ((maxEncoded maxBytes + 1).bmod (2 ^ 64)) with
        | .error err => .error (ascii "reading binary body: " ++ err)
        | .ok encoded =>
            if maxEncoded maxBytes < encoded.length then
              .error (ascii "binary exceeds max size of " ++ ascii (toString maxBytes) ++
                ascii " bytes")
            else
              match Base64.decodeFrom encoded 0 [] with
              | .error offset =>
                  .error (ascii "base64 decoding binary: " ++ Base64.corruptInputText offset)
              | .ok decoded => .ok decoded

section

variable {maxBytes : Int} {body : ResponseBody} {decoded : Bytes}

/-- The encoded limit, by the number of times the product `maxBytes * 4` passes `2 ^ 63`. -/
def encodedLimit (maxBytes : Int) : Int :=
  if maxBytes < 2 ^ 61 then maxBytes * 4 / 3 + 4
  else if maxBytes < 2 ^ 62 then 4 - (2 ^ 62 - maxBytes) * 4 / 3
  else if maxBytes < 2 ^ 62 + 2 ^ 61 then (maxBytes - 2 ^ 62) * 4 / 3 + 4
  else 4 - (2 ^ 63 - maxBytes) * 4 / 3

theorem bmod_eq {x r : Int} (k : Int) (low : -2 ^ 63 ≤ r) (high : r < 2 ^ 63)
    (same : x = r + 2 ^ 64 * k) : x.bmod (2 ^ 64) = r := by
  rw [same, Int.bmod_def]
  split <;> omega

theorem maxEncoded_of_product {r : Int} (product : (maxBytes * 4).bmod (2 ^ 64) = r) :
    maxEncoded maxBytes = r.tdiv 3 + 4 ∧ -2 ^ 62 ≤ r.tdiv 3 ∧ r.tdiv 3 ≤ 2 ^ 62 := by
  have low : -2 ^ 63 ≤ r := product ▸ Int.le_bmod (by decide)
  have high : r < 2 ^ 63 := product ▸ Int.bmod_lt (by decide)
  have third : -2 ^ 62 ≤ r.tdiv 3 ∧ r.tdiv 3 ≤ 2 ^ 62 := by
    have sign : Int.sign 3 = 1 := rfl
    rw [Int.tdiv_eq_ediv, sign]
    split <;> omega
  refine ⟨?_, third⟩
  rw [maxEncoded, product, Int.bmod_eq_of_le_mul_two] <;> omega

theorem maxEncoded_eq (positive : 0 < maxBytes) (int64 : maxBytes < 2 ^ 63) :
    maxEncoded maxBytes = encodedLimit maxBytes := by
  have above {r k : Int} (low : 0 ≤ r) (high : r < 2 ^ 63)
      (same : maxBytes * 4 = r + 2 ^ 64 * k) : maxEncoded maxBytes = r / 3 + 4 := by
    rw [(maxEncoded_of_product (bmod_eq k (by omega) high same)).1,
      Int.tdiv_eq_ediv_of_nonneg low]
  have below {r k : Int} (low : 0 ≤ r) (high : r ≤ 2 ^ 63)
      (same : maxBytes * 4 = -r + 2 ^ 64 * k) : maxEncoded maxBytes = 4 - r / 3 := by
    rw [(maxEncoded_of_product (bmod_eq k (by omega) (by omega) same)).1, Int.neg_tdiv,
      Int.tdiv_eq_ediv_of_nonneg low]
    omega
  unfold encodedLimit
  split_ifs
  · exact above (k := 0) (by omega) (by omega) (by omega)
  · exact below (k := 1) (by omega) (by omega) (by omega)
  · exact above (k := 1) (by omega) (by omega) (by omega)
  · exact below (k := 2) (by omega) (by omega) (by omega)

/-- The limit of the reader is one more than that of the text. -/
theorem succ_maxEncoded (maxBytes : Int) :
    (maxEncoded maxBytes + 1).bmod (2 ^ 64) = maxEncoded maxBytes + 1 := by
  obtain ⟨limit, low, high⟩ := @maxEncoded_of_product maxBytes _ rfl
  rw [Int.bmod_eq_of_le_mul_two] <;> omega

/-- A body is accepted if it ends, is within the limit and can be decoded. -/
theorem download_ok_iff :
    download maxBytes (.responded 200 body) = .ok decoded ↔
      body.err = none ∧ body.data.length ≤ maxEncoded maxBytes ∧
        Base64.decodeFrom body.data 0 [] = .ok decoded := by
  simp only [download, ne_eq, not_true_eq_false, if_false, succ_maxEncoded]
  by_cases within : (body.data.length : Int) ≤ maxEncoded maxBytes
  · rw [ResponseBody.readLimited, if_pos (by omega)]
    cases ended : body.err with
    | some err => simp
    | none =>
        simp only [if_neg (Int.not_lt.mpr within)]
        cases Base64.decodeFrom body.data 0 [] with
        | error offset => simp
        | ok bytes => simp [within]
  · have long : maxEncoded maxBytes < (body.data.take (maxEncoded maxBytes + 1).toNat).length := by
      rw [List.length_take]
      omega
    rw [ResponseBody.readLimited, if_neg (by omega)]
    simp only [if_pos long, within, false_and, and_false, reduceCtorEq]

/-- Every encoding of a binary within the limit is within the limit of the text. -/
theorem length_encode_le (small : maxBytes < 2 ^ 61) {n : Nat} (within : n ≤ maxBytes) :
    ((n + 2) / 3 * 4 : Nat) ≤ encodedLimit maxBytes := by
  rw [encodedLimit, if_pos small]
  omega

end

/-- **The limit is exact** for a body by the number `n` of bytes that it decodes to and the number
`k` of line breaks in it. If `n` exceeds `maxBytes`, then the text of `4 * ⌈n / 3⌉ + k` characters
has to exceed the encoded limit, which is `maxBytes * 4 / 3 + 4` below `2 ^ 61`. From `2 ^ 61` on
the encoded limit is another number, and it has to leave room for the plain encoding if `n` is
within `maxBytes`. -/
theorem download_limit_iff (maxBytes : Int) (positive : 0 < maxBytes) (int64 : maxBytes < 2 ^ 63)
    (body : ResponseBody) :
    ((∀ decoded, download maxBytes (.responded 200 body) = .ok decoded →
        decoded.length ≤ maxBytes) ∧
      ∀ bytes, bytes.length ≤ maxBytes → body = ⟨Base64.encode bytes, none⟩ →
        download maxBytes (.responded 200 body) = .ok bytes) ↔
    ((∀ decoded, body.err = none → Base64.decodeFrom body.data 0 [] = .ok decoded →
        decoded.length ≤ maxBytes ∨ encodedLimit maxBytes <
          ((decoded.length + 2) / 3 * 4 + body.data.countP Base64.isNewline : Nat)) ∧
      (2 ^ 61 ≤ maxBytes → ∀ bytes, bytes.length ≤ maxBytes → body = ⟨Base64.encode bytes, none⟩ →
        ((bytes.length + 2) / 3 * 4 : Nat) ≤ encodedLimit maxBytes)) := by
  have limit := maxEncoded_eq positive int64
  have length {decoded : Bytes} (isDecoded : Base64.decodeFrom body.data 0 [] = .ok decoded) :
      body.data.length =
        (decoded.length + 2) / 3 * 4 + body.data.countP Base64.isNewline :=
    Base64.length_decodeFrom (List.length_nil.trans_le (Nat.zero_le 3)) isDecoded
  constructor
  · rintro ⟨limited, accepted⟩
    refine ⟨fun decoded ends isDecoded => ?_, fun _ bytes within isBody => ?_⟩
    · by_cases short : (body.data.length : Int) ≤ maxEncoded maxBytes
      · exact Or.inl (limited decoded (download_ok_iff.mpr ⟨ends, short, isDecoded⟩))
      · rw [← length isDecoded, ← limit]
        exact Or.inr (Int.not_le.mp short)
    · have short := (download_ok_iff.mp (accepted bytes within isBody)).2.1
      rwa [isBody, Base64.length_encode, limit] at short
  · rintro ⟨noSlack, noOverflow⟩
    refine ⟨fun decoded passed => ?_, fun bytes within isBody => ?_⟩
    · obtain ⟨ends, short, isDecoded⟩ := download_ok_iff.mp passed
      rw [length isDecoded, limit] at short
      exact (noSlack decoded ends isDecoded).resolve_right (Int.not_lt.mpr short)
    · refine download_ok_iff.mpr ⟨by rw [isBody], ?_, ?_⟩
      · rw [isBody, Base64.length_encode, limit]
        rcases Int.lt_or_le maxBytes (2 ^ 61) with small | large
        · exact length_encode_le small within
        · exact noOverflow large bytes within isBody
      · rw [isBody]
        exact Base64.decodeFrom_encode bytes 0

/-- With a limit of one byte a text of four characters passes, which makes three bytes; with a limit
of `2 ^ 62` bytes the text of six bytes is refused. -/
theorem download_limit_inexact :
    download 1 (.responded 200 ⟨ascii "QUJD", none⟩) = .ok (ascii "ABC") ∧
    download (2 ^ 62) (.responded 200 ⟨Base64.encode (ascii "ABCDEF"), none⟩) =
      .error (ascii "binary exceeds max size of 4611686018427387904 bytes") := by
  decide +kernel

namespace Sample

/-- Ten bytes in base64, wrapped after eight characters. -/
def wrapped : ResponseBody := ⟨ascii "QUJDREVG\nR0hJSg==", none⟩

end Sample

/-- With a limit of seven bytes, ten bytes are refused; with a limit of ten bytes, the plain text of
ten bytes is accepted. -/
theorem download_limit_ten_bytes :
    (∀ decoded, download 7 (.responded 200 Sample.wrapped) = .ok decoded →
      (decoded.length : Int) ≤ 7) ∧
    Base64.decodeFrom Sample.wrapped.data 0 [] = .ok (ascii "ABCDEFGHIJ") ∧
    download 10 (.responded 200 ⟨Base64.encode (ascii "ABCDEFGHIJ"), none⟩) =
      .ok (ascii "ABCDEFGHIJ") := by
  have decodes : Base64.decodeFrom Sample.wrapped.data 0 [] = .ok (ascii "ABCDEFGHIJ") := by
    decide +kernel
  have refused := (download_limit_iff 7 (by decide) (by decide) Sample.wrapped).mpr
    ⟨fun decoded _ isDecoded => by
        cases decodes.symm.trans isDecoded
        exact Or.inr (by decide),
      fun large => absurd large (by decide)⟩
  have accepted := (download_limit_iff 10 (by decide) (by decide)
    ⟨Base64.encode (ascii "ABCDEFGHIJ"), none⟩).mpr
    ⟨fun decoded _ isDecoded => by
        cases (Base64.decodeFrom_encode (ascii "ABCDEFGHIJ") 0).symm.trans isDecoded
        exact Or.inl (by decide),
      fun large => absurd large (by decide)⟩
  exact ⟨refused.1, decodes, accepted.2 _ (by decide) rfl⟩

end ConfidentialCompute.Workflows
