import Bauth.Codes.Base64
import Bauth.Serial.Script
import Mathlib.Data.List.DropRight

/-!
# PKCE on both sides

The SDK writes a verifier and its challenge with `btoa`, two substitutions and a strip of the
padding; bauth reads them as base64url without padding.
-/

namespace Bauth

namespace Sdk.Pkce

/-! ### base64, as `btoa` writes it -/

def base64Alphabet : List Char :=
  "ABCDEFGHIJKLMNOPQRSTUVWXYZabcdefghijklmnopqrstuvwxyz0123456789+/".toList

def base64Char (n : ℕ) : Char := base64Alphabet.getD n 'A'

/-- RFC 4648 §4, with padding. -/
def base64 : Bytes → List Char
  | a :: b :: c :: rest =>
    let n := a.toNat * 65536 + b.toNat * 256 + c.toNat
    base64Char (n / 262144) :: base64Char (n / 4096 % 64) :: base64Char (n / 64 % 64) ::
      base64Char (n % 64) :: base64 rest
  | [a, b] =>
    let n := a.toNat * 1024 + b.toNat * 4
    [base64Char (n / 4096), base64Char (n / 64 % 64), base64Char (n % 64), '=']
  | [a] =>
    let n := a.toNat * 16
    [base64Char (n / 64), base64Char (n % 64), '=', '=']
  | [] => []

/-- `String.fromCharCode`, of a byte. -/
def fromCharCode (byte : UInt8) : Char := Char.ofUInt8 byte

/-- `btoa`: of a text with a character above U+00FF it throws. -/
def btoa (binary : List Char) : Option (List Char) :=
  if binary.all fun c => c.toNat < 256 then
    some (base64 (binary.map fun c => UInt8.ofNat c.toNat))
  else none

/-! ### `pkce.ts` -/

/-- `text.replace(/from/g, to)`. -/
def replaceAll (source target : Char) (text : List Char) : List Char :=
  text.map fun c => if c = source then target else c

/-- `text.replace(/=+$/, "")`. -/
def stripPadding (text : List Char) : List Char := text.rdropWhile (· = '=')

def base64url (bytes : Bytes) : Option String := do
  let encoded ← btoa (bytes.map fromCharCode)
  return String.ofList (stripPadding (replaceAll '/' '_' (replaceAll '+' '-' encoded)))

/-- Given the random bytes. -/
def generateCodeVerifier (bytes : Bytes) : Option String := base64url bytes

/-- The padding that `btoa` adds. -/
def padding (bytes : Bytes) : List Char := List.replicate ((3 - bytes.length % 3) % 3) '='

lemma base64_eq (bytes : Bytes) :
    base64 bytes = (sextets bytes).map base64Char ++ padding bytes := by
  fun_induction base64 bytes with
  | case1 a b c rest n ih =>
    have hpadding : padding (a :: b :: c :: rest) = padding rest := by
      have hmod : (a :: b :: c :: rest).length % 3 = rest.length % 3 := Nat.add_mod_right rest.length 3
      rw [padding, hmod, padding]
    simp only [sextets, ih, hpadding, List.map_cons, List.cons_append, n]
  | case2 a b n => simp [sextets, padding, n]
  | case3 a n => simp [sextets, padding, n, List.replicate]
  | case4 => rfl

section Pkce

variable {app : App}

end Pkce

end Sdk.Pkce

end Bauth
