import Bauth.Model.Server

/-!
# base64url

The texts that `URL_SAFE_NO_PAD` makes: their characters and their length.
-/

namespace Bauth

lemma utf8Len_eq_length {s : List Char} (h : ∀ c ∈ s, c.utf8Size = 1) : utf8Len s = s.length := by
  induction s with
  | nil => rfl
  | cons c s ih =>
    have hs := ih fun c' hc' => h c' (List.mem_cons_of_mem c hc')
    have hc := h c List.mem_cons_self
    simp only [utf8Len, List.foldr_cons, List.length_cons] at hs ⊢
    omega

lemma base64UrlChar_mem (n : ℕ) : base64UrlChar n ∈ base64UrlAlphabet := by
  unfold base64UrlChar
  rw [List.getD_eq_getElem?_getD]
  cases h : base64UrlAlphabet[n]? with
  | none =>
    rw [Option.getD_none]
    exact List.mem_of_getElem? (rfl : base64UrlAlphabet[0]? = some 'A')
  | some c => exact List.mem_of_getElem? h

lemma base64Url_mem (bytes : Bytes) : ∀ c ∈ base64Url bytes, c ∈ base64UrlAlphabet := by
  fun_induction base64Url bytes with
  | case1 a b c rest n ih =>
    simp only [List.forall_mem_cons]
    exact ⟨base64UrlChar_mem _, base64UrlChar_mem _, base64UrlChar_mem _, base64UrlChar_mem _, ih⟩
  | case2 a b n => simp [base64UrlChar_mem]
  | case3 a n => simp [base64UrlChar_mem]
  | case4 => simp

lemma base64Url_length (bytes : Bytes) :
    (base64Url bytes).length = (bytes.length * 4 + 2) / 3 := by
  fun_induction base64Url bytes with
  | case1 a b c rest n ih =>
    simp only [List.length_cons]
    omega
  | case2 a b n => simp
  | case3 a n => simp
  | case4 => simp

/-- The characters of base64url take one byte each, and a verifier may have them. -/
lemma of_mem_alphabet : ∀ c ∈ base64UrlAlphabet, isUnreserved c = true ∧ c.utf8Size = 1 := by
  have hall : (base64UrlAlphabet.all fun c => isUnreserved c && c.utf8Size = 1) = true := by
    decide +kernel
  simpa using hall

/-- The verifiers a client draws are accepted. -/
lemma isValidVerifier_base64Url {bytes : Bytes} (h : bytes.length = 32) :
    isValidVerifier (String.ofList (base64Url bytes)) = true := by
  have hlen : utf8Len (base64Url bytes) = 43 := by
    rw [utf8Len_eq_length fun c hc => (of_mem_alphabet c (base64Url_mem bytes c hc)).2,
      base64Url_length, h]
  have hchars : (base64Url bytes).all isUnreserved = true :=
    List.all_eq_true.mpr fun c hc => (of_mem_alphabet c (base64Url_mem bytes c hc)).1
  simp [isValidVerifier, hlen, hchars]

/-! ### Reading base64url -/

/-- The bytes of groups of six bits; bits that fill no byte are left out. -/
def fromSextets : List ℕ → Bytes
  | a :: b :: c :: d :: rest =>
    let n := a * 262144 + b * 4096 + c * 64 + d
    UInt8.ofNat (n / 65536) :: UInt8.ofNat (n / 256) :: UInt8.ofNat n :: fromSextets rest
  | [a, b, c] =>
    let n := a * 4096 + b * 64 + c
    [UInt8.ofNat (n / 1024), UInt8.ofNat (n / 4)]
  | [a, b] => [UInt8.ofNat ((a * 64 + b) / 16)]
  | _ => []

/-- The groups of six bits of bytes, the last one filled with zeros. -/
def sextets : Bytes → List ℕ
  | a :: b :: c :: rest =>
    let n := a.toNat * 65536 + b.toNat * 256 + c.toNat
    n / 262144 :: n / 4096 % 64 :: n / 64 % 64 :: n % 64 :: sextets rest
  | [a, b] =>
    let n := a.toNat * 1024 + b.toNat * 4
    [n / 4096, n / 64 % 64, n % 64]
  | [a] =>
    let n := a.toNat * 16
    [n / 64, n % 64]
  | [] => []

lemma base64Url_eq (bytes : Bytes) : base64Url bytes = (sextets bytes).map base64UrlChar := by
  fun_induction base64Url bytes with
  | case1 a b c rest n ih => simp [sextets, ih, n]
  | case2 a b n => simp [sextets, n]
  | case3 a n => simp [sextets, n]
  | case4 => rfl

lemma sextets_lt (bytes : Bytes) : ∀ n ∈ sextets bytes, n < 64 := by
  fun_induction sextets bytes with
  | case1 a b c rest n ih =>
    have ha := a.toNat_lt
    have hb := b.toNat_lt
    have hc := c.toNat_lt
    simp only [List.forall_mem_cons]
    exact ⟨by omega, by omega, by omega, by omega, ih⟩
  | case2 a b n =>
    have ha := a.toNat_lt
    have hb := b.toNat_lt
    simp only [List.forall_mem_cons]
    exact ⟨by omega, by omega, by omega, nofun⟩
  | case3 a n =>
    have ha := a.toNat_lt
    simp only [List.forall_mem_cons]
    exact ⟨by omega, by omega, nofun⟩
  | case4 => exact nofun

/-- The bytes are recovered from their groups of six bits, whatever their number. -/
lemma fromSextets_sextets (bytes : Bytes) : fromSextets (sextets bytes) = bytes := by
  have hbyte : ∀ (a : UInt8) n, n % 256 = a.toNat → UInt8.ofNat n = a := by
    intro a n h
    rw [← UInt8.toNat_inj, UInt8.toNat_ofNat']
    exact h
  fun_induction sextets bytes with
  | case1 a b c rest n ih =>
    have ha := a.toNat_lt
    have hb := b.toNat_lt
    have hc := c.toNat_lt
    have hn : n / 262144 * 262144 + n / 4096 % 64 * 4096 + n / 64 % 64 * 64 + n % 64 = n := by omega
    simp only [fromSextets, hn, ih]
    rw [hbyte a _ (by omega), hbyte b _ (by omega), hbyte c _ (by omega)]
  | case2 a b n =>
    have ha := a.toNat_lt
    have hb := b.toNat_lt
    have hn : n / 4096 * 4096 + n / 64 % 64 * 64 + n % 64 = n := by omega
    simp only [fromSextets, hn]
    rw [hbyte a _ (by omega), hbyte b _ (by omega)]
  | case3 a n =>
    have ha := a.toNat_lt
    have hn : n / 64 * 64 + n % 64 = n := by omega
    simp only [fromSextets, hn]
    rw [hbyte a _ (by omega)]
  | case4 => rfl

end Bauth
