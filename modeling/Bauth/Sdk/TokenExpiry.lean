import Bauth.Json.Write
import Bauth.Sdk.Pkce
import Mathlib.Algebra.Order.Ring.Abs
import Mathlib.Data.Int.Order.Lemmas

/-!
# The expiry of an access token

The SDK reads `exp` from a token without verifying it. It restores the padding that bauth leaves
out, and takes each byte of the claims for one character: the texts of other claims come out
garbled, the number does not.
-/

namespace Bauth

namespace Sdk.TokenExpiry

open Sdk.Pkce

/-! ### Numbers -/

/-- Double precision: integers of at most 53 bits are told apart, and so are their products. -/
structure Doubles where
  Number : Type
  ofRat : ℚ → Number
  mul : Number → Number → Number
  exact : ∀ m n : ℤ, |m| ≤ 2 ^ 53 → |n| ≤ 2 ^ 53 → ofRat m = ofRat n → m = n
  mul_exact : ∀ m n : ℤ, |m| ≤ 2 ^ 53 → |n| ≤ 2 ^ 53 → |m * n| ≤ 2 ^ 53 →
    mul (ofRat m) (ofRat n) = ofRat (m * n : ℤ)

/-! ### Tokens -/

/-- The claims as `serde_json` writes them. -/
def claimsJson (app : App) (claims : AccessTokenClaims) : List Char :=
  Json.writeObject [
    ("iss".toList, .string claims.iss.toList),
    ("sub".toList, .string (app.showUuid claims.sub).toList),
    ("aud".toList, .string claims.aud.toList),
    ("client_id".toList, .string claims.clientId.toList),
    ("sid".toList, .string (app.showUuid claims.sid).toList),
    ("iat".toList, .integer claims.iat),
    ("exp".toList, .integer claims.exp),
    ("jti".toList, .string (app.showUuid claims.jti).toList)]

/-- `jsonwebtoken::encode`, given the bytes of the header and of the signature. -/
def encodeJwt (header : Bytes) (claims : List Char) (signature : Bytes) : String :=
  String.ofList (['.'].intercalate [base64Url header,
    base64Url (claims.flatMap String.utf8EncodeChar), base64Url signature])

/-! ### `accessTokenExpiry` -/

def isAsciiWhitespace (c : Char) : Bool :=
  c = '\t' || c = '\n' || c.toNat = 12 || c = '\r' || c = ' '

def base64Index (c : Char) : Option ℕ := base64Alphabet.idxOf? c

/-- Remove one `=` at the end. -/
def dropPad (text : List Char) : List Char :=
  if text.getLast? = some '=' then text.dropLast else text

/-- `atob`; `none` where it throws. -/
def atob (text : List Char) : Option (List Char) :=
  let data := text.filter fun c => !isAsciiWhitespace c
  let data := if data.length % 4 = 0 then dropPad (dropPad data) else data
  if data.length % 4 = 1 then none
  else do
    let groups ← data.mapM base64Index
    return (fromSextets groups).map Char.ofUInt8

/-- `text.padEnd(length, "=")`. -/
def padEnd (length : ℕ) (text : List Char) : List Char :=
  text ++ List.replicate (length - text.length) '='

/-- What `accessTokenExpiry` makes of the second part of a token. -/
def decodePayload (payload : List Char) : Option (List Char) :=
  let base64 := replaceAll '_' '/' (replaceAll '-' '+' payload)
  atob (padEnd ((base64.length + 3) / 4 * 4) base64)

def accessTokenExpiry (D : Doubles) (accessToken : String) : Option D.Number := do
  let payload ← (accessToken.toList.splitOn '.')[1]?
  if payload = [] then none
  else do
    let claims ← Json.parse (← decodePayload payload)
    match claims.property "exp" with
    | some (.number exp) => return D.mul (D.ofRat exp) (D.ofRat 1000)
    | _ => none

/-! ### The payload -/

/-- What the two substitutions make of a character. -/
def restore (c : Char) : Char :=
  let c := if c = '-' then '+' else c
  if c = '_' then '/' else c

lemma restore_base64UrlChar : ∀ n < 64, restore (base64UrlChar n) = base64Char n := by
  have hall : ((List.range 64).all fun n => restore (base64UrlChar n) = base64Char n) = true := by
    decide +kernel
  simpa using hall

lemma replaceAll_base64Url (bytes : Bytes) :
    replaceAll '_' '/' (replaceAll '-' '+' (base64Url bytes)) = (sextets bytes).map base64Char := by
  rw [base64Url_eq]
  simp only [replaceAll, List.map_map]
  exact List.map_congr_left fun n hn => restore_base64UrlChar n (sextets_lt bytes n hn)

lemma length_sextets (bytes : Bytes) : (sextets bytes).length = (bytes.length * 4 + 2) / 3 := by
  rw [← base64Url_length, base64Url_eq, List.length_map]

/-- Rounded up to a multiple of four, the length is that of the padded text. -/
lemma padEnd_eq (bytes : Bytes) : padEnd (((sextets bytes).length + 3) / 4 * 4)
    ((sextets bytes).map base64Char) = base64 bytes := by
  have hlength : ((sextets bytes).length + 3) / 4 * 4 - (sextets bytes).length =
      (3 - bytes.length % 3) % 3 := by
    rw [length_sextets]
    obtain h | h | h : bytes.length % 3 = 0 ∨ bytes.length % 3 = 1 ∨ bytes.length % 3 = 2 := by omega
    all_goals
      rw [h]
      omega
  rw [padEnd, List.length_map, hlength, base64_eq, padding]

/-- The characters that stand for the bytes of a text. -/
lemma base64Char_facts : ∀ n < 64, base64Index (base64Char n) = some n ∧ base64Char n ≠ '=' ∧
    isAsciiWhitespace (base64Char n) = false := by
  have hall : ((List.range 64).all fun n => base64Index (base64Char n) = some n &&
      base64Char n != '=' && !isAsciiWhitespace (base64Char n)) = true := by
    decide +kernel
  intro n hn
  have h := List.all_eq_true.mp hall n (List.mem_range.mpr hn)
  simp only [Bool.and_eq_true, decide_eq_true_eq, bne_iff_ne, Bool.not_eq_true'] at h
  exact ⟨h.1.1, h.1.2, h.2⟩

lemma dropPad_concat (text : List Char) : dropPad (text ++ ['=']) = text := by
  simp [dropPad]

lemma dropPad_self {text : List Char} (h : '=' ∉ text) : dropPad text = text := by
  rw [dropPad, if_neg]
  intro hlast
  exact h (List.mem_of_getLast? hlast)

/-- `atob` undoes base64, whatever the number of bytes. -/
lemma atob_base64 (bytes : Bytes) : atob (base64 bytes) = some (bytes.map Char.ofUInt8) := by
  have hfacts : ∀ c ∈ (sextets bytes).map base64Char, c ≠ '=' ∧ isAsciiWhitespace c = false := by
    intro c hc
    obtain ⟨n, hn, rfl⟩ := List.mem_map.mp hc
    exact (base64Char_facts n (sextets_lt bytes n hn)).2
  have hequals : '=' ∉ (sextets bytes).map base64Char := fun h => (hfacts _ h).1 rfl
  have hfilter : (base64 bytes).filter (fun c => !isAsciiWhitespace c) = base64 bytes := by
    refine List.filter_eq_self.mpr fun c hc => ?_
    rw [base64_eq] at hc
    rcases List.mem_append.mp hc with hc | hc
    · simp [(hfacts c hc).2]
    · obtain rfl := List.eq_of_mem_replicate hc
      decide
  have hlength : (base64 bytes).length % 4 = 0 := by
    rw [base64_eq, padding, List.length_append, List.length_map, List.length_replicate,
      length_sextets]
    obtain h | h | h : bytes.length % 3 = 0 ∨ bytes.length % 3 = 1 ∨ bytes.length % 3 = 2 := by omega
    all_goals
      rw [h]
      omega
  -- the padding is at most two characters
  have hdrop : dropPad (dropPad (base64 bytes)) = (sextets bytes).map base64Char := by
    rw [base64_eq, padding]
    have hlt : (3 - bytes.length % 3) % 3 < 3 := Nat.mod_lt _ (by decide)
    generalize (3 - bytes.length % 3) % 3 = k at hlt
    obtain rfl | rfl | rfl : k = 0 ∨ k = 1 ∨ k = 2 := by omega
    · rw [List.replicate_zero, List.append_nil, dropPad_self hequals, dropPad_self hequals]
    · rw [List.replicate_one, dropPad_concat, dropPad_self hequals]
    · have htwo : List.replicate 2 '=' = ['='] ++ ['='] := rfl
      rw [htwo, ← List.append_assoc, dropPad_concat, dropPad_concat]
  have hgroups : ((sextets bytes).map base64Char).mapM base64Index = some (sextets bytes) := by
    have hall : ∀ l : List ℕ, (∀ n ∈ l, n < 64) → (l.map base64Char).mapM base64Index = some l := by
      intro l hl
      induction l with
      | nil => rfl
      | cons n l ih =>
        rw [List.map_cons, List.mapM_cons, (base64Char_facts n (hl n List.mem_cons_self)).1,
          ih fun m hm => hl m (List.mem_cons_of_mem n hm)]
        rfl
    exact hall _ (sextets_lt bytes)
  have hone : ((sextets bytes).map base64Char).length % 4 ≠ 1 := by
    rw [List.length_map, length_sextets]
    omega
  simp only [atob, hfilter, hlength, if_true, hdrop, if_neg hone, hgroups, Option.bind_eq_bind,
    Option.bind_some, fromSextets_sextets]
  rfl

/-- Every byte of a payload is recovered. -/
lemma decodePayload_base64Url (bytes : Bytes) :
    decodePayload (base64Url bytes) = some (bytes.map Char.ofUInt8) := by
  rw [decodePayload, replaceAll_base64Url]
  simp only [List.length_map]
  rw [padEnd_eq, atob_base64]

/-! ### The claims -/

lemma not_mem_dot (bytes : Bytes) : '.' ∉ base64Url bytes := by
  intro hmem
  have halphabet := base64Url_mem bytes _ hmem
  revert halphabet
  decide +kernel

/-- What the SDK finds in the second part of a token. -/
lemma payload_encodeJwt (header signature : Bytes) (claims : List Char) :
    ((encodeJwt header claims signature).toList.splitOn '.')[1]? =
      some (base64Url (claims.flatMap String.utf8EncodeChar)) := by
  rw [encodeJwt, String.toList_ofList, List.splitOn_intercalate]
  · rfl
  · simp only [List.forall_mem_cons]
    exact ⟨not_mem_dot _, not_mem_dot _, not_mem_dot _, by simp⟩
  · exact List.cons_ne_nil _ _

lemma property_claims (app : App) (claims : AccessTokenClaims) :
    ∃ value, Json.parse (Json.latin1 (claimsJson app claims)) = some value ∧
      value.property "exp" = some (.number claims.exp) :=
  ⟨_, Json.parse_write (List.cons_ne_nil _ _), by
    simp only [List.map_cons, List.map_nil, Json.Value.property, Json.Scalar.read]
    rfl⟩

/-- The expiry that the SDK reads in a token is the `exp` that bauth signed, in milliseconds, whatever
the other claims are; every byte of any payload is recovered on the way. -/
theorem accessTokenExpiry_exact (D : Doubles) (app : App) :
    (∀ (header signature : Bytes) (claims : AccessTokenClaims), |claims.exp| < 2 ^ 43 →
      accessTokenExpiry D (encodeJwt header (claimsJson app claims) signature) =
        some (D.ofRat (claims.exp * 1000 : ℤ)) ∧
      ∀ n : ℤ, |n| ≤ 2 ^ 53 → D.ofRat n = D.ofRat (claims.exp * 1000 : ℤ) → n = claims.exp * 1000) ∧
    ∀ bytes, decodePayload (base64Url bytes) = some (bytes.map Char.ofUInt8) := by
  refine ⟨fun header signature claims hexp => ?_, decodePayload_base64Url⟩
  have hproduct : |claims.exp * 1000| ≤ 2 ^ 53 := by
    have h1000 : |(1000 : ℤ)| = 1000 := rfl
    rw [abs_mul, h1000]
    omega
  refine ⟨?_, fun n hn h => D.exact n _ hn hproduct h⟩
  have hne : base64Url ((claimsJson app claims).flatMap String.utf8EncodeChar) ≠ [] := by
    intro hnil
    have hlength := congrArg List.length hnil
    have hpos := Json.length_latin1 (claimsJson app claims)
    rw [base64Url_length, List.length_nil] at hlength
    rw [Json.latin1, List.length_map] at hpos
    simp only [claimsJson, Json.writeObject, List.length_cons] at hpos hlength
    omega
  obtain ⟨value, hparse, hproperty⟩ := property_claims app claims
  rw [Json.latin1] at hparse
  have hmul := D.mul_exact claims.exp 1000 (by omega) (by decide) hproduct
  simp only [accessTokenExpiry, payload_encodeJwt, Option.bind_eq_bind, Option.bind_some, if_neg hne,
    decodePayload_base64Url, hparse, hproperty]
  exact congrArg some (by exact_mod_cast hmul)

/-- Numbers as they are on paper, which double precision agrees with on small integers. -/
def paper : Doubles where
  Number := ℚ
  ofRat n := n
  mul := (· * ·)
  exact m n _ _ h := by exact_mod_cast h
  mul_exact m n _ _ _ := by push_cast; rfl

/-- An issuer and an audience that are not ASCII. -/
theorem accessTokenExpiry_exact_unicode :
    accessTokenExpiry paper (encodeJwt [123, 125] (claimsJson exampleApp
      { iss := "https://bauth.é", sub := 1, aud := "日本\n\"", clientId := "app", sid := 2
        iat := 1700000000, exp := 1700000900, jti := 3 }) [0]) =
      some (paper.ofRat (1700000900 * 1000 : ℤ)) :=
  ((accessTokenExpiry_exact paper exampleApp).1 [123, 125] [0] _ (by decide)).1

end Sdk.TokenExpiry

end Bauth
