import Bauth.Client.Verifier
import Bauth.Model.ClientIp
import Bauth.Routes.Me
import Bauth.Serial.Script
import Mathlib.Data.List.TakeDrop

/-!
# Bearer tokens on both sides

`CurrentUser` and `bearer_token` with `Verifier::verify` check the same tokens. They read them out of
the `Authorization` header each in their own way.
-/

namespace Bauth

open Transaction

namespace Bearer

/-! ### `jsonwebtoken` -/

/-- The settings of `decode`. -/
structure Settings extends Validation where
  audience : Option String

/-- What `decode` calls: the header of a token, its signature, its claims, and which of the claims
of the specification it has. -/
structure Jwt where
  decodeHeader : String → Option TokenHeader
  signed : String → Bytes → String → Bool
  claims : String → Option AccessTokenClaims
  present : String → String → Bool
  /-- The claims of an access token have an audience. -/
  present_aud : ∀ token c, claims token = some c → present token "aud" = true
  /-- White space is not base64url. -/
  spaced : ∀ token : String, trim token.toList ≠ token.toList →
    decodeHeader token = none ∨ ∀ key algorithm, signed token key algorithm = false

/-- The validation of the claims. -/
def Jwt.validates (jwt : Jwt) (token : String) (claims : AccessTokenClaims) (settings : Settings)
    (now : Time) : Bool :=
  settings.requiredSpecClaims.all (jwt.present token) &&
    timestamp now - settings.leeway ≤ claims.exp && claims.iss = settings.issuer &&
    (!settings.validateAud || settings.audience = some claims.aud)

/-- `decode`. -/
def Jwt.decode (jwt : Jwt) (token : String) (key : Bytes) (settings : Settings) (now : Time) :
    Option AccessTokenClaims := do
  if !jwt.signed token key settings.algorithm then none
  else
    let claims ← jwt.claims token
    if jwt.validates token claims settings now then some claims else none

/-- bauth with this library. -/
def Jwt.app (jwt : Jwt) (app : App) : App :=
  { app with
    decodeHeader := jwt.decodeHeader
    decodeToken := fun token key validation now =>
      jwt.decode token key { toValidation := validation, audience := none } now }

/-! ### `bauth_client` -/

/-- `str::split_once`. -/
def splitOnce (separator : Char) (s : List Char) : Option (List Char × List Char) :=
  match s.span (· ≠ separator) with
  | (_, []) => none
  | (before, _ :: after) => some (before, after)

/-- `str::eq_ignore_ascii_case`. -/
def eqIgnoreAsciiCase (s t : List Char) : Bool := s.map Char.toLower = t.map Char.toLower

/-- `bearer_token`. -/
def bearerToken (value : List Char) : Option String := do
  let (scheme, token) ← splitOnce ' ' value
  if eqIgnoreAsciiCase scheme "bearer".toList then some (String.ofList (trim token)) else none

/-- `Verifier::new`: the settings. -/
def verifierSettings (issuer audience : String) : Settings where
  algorithm := "EdDSA"
  issuer := issuer
  validateAud := true
  audience := some audience
  requiredSpecClaims := ["exp", "iss", "aud", "sub"]
  leeway := leewaySeconds

/-- `Verifier::verify`, once the published keys are in the cache. -/
def verify (jwt : Jwt) (issuer audience : String) (keys : List (String × Bytes)) (token : String)
    (now : Time) : Option AccessTokenClaims := do
  let kid ← Verifier.kidOf (jwt.decodeHeader token)
  let key ← Verifier.lookup keys kid
  jwt.decode token key (verifierSettings issuer audience) now

/-- The audience that a token names. -/
def Jwt.audience (jwt : Jwt) (token : String) : String :=
  ((jwt.claims token).map AccessTokenClaims.aud).getD ""

/-- `AuthUser::from_request_parts` in an API of that audience. -/
def authUser (jwt : Jwt) (issuer : String) (keys : List (String × Bytes)) (value : Bytes)
    (now : Time) : Option AccessTokenClaims := do
  let token ← bearerToken (← headerText value)
  verify jwt issuer (jwt.audience token) keys token now

/-! ### The checks of a token -/

/-- The token is a valid access token with these claims. -/
structure Valid (jwt : Jwt) (issuer : String) (keys : List (String × Bytes)) (token : String)
    (now : Time) (claims : AccessTokenClaims) : Prop where
  header : ∃ header, jwt.decodeHeader token = some header ∧ header.alg = "EdDSA" ∧
    header.typ = some "at+jwt" ∧ ∃ kid key, header.kid = some kid ∧ (kid, key) ∈ keys ∧
      jwt.signed token key "EdDSA" = true
  parsed : jwt.claims token = some claims
  present : ∀ name ∈ ["exp", "iss", "sub"], jwt.present token name = true
  issued : claims.iss = issuer
  live : timestamp now - leewaySeconds ≤ claims.exp

section Checks

variable {jwt : Jwt} {app : App} {issuer token : String} {keys : SigningKeys} {now : Time}
  {claims : AccessTokenClaims}

lemma mem_of_find {l : List (String × Bytes)} {kid : String} {key : Bytes}
    (h : (l.find? fun k => k.1 = kid).map Prod.snd = some key) : (kid, key) ∈ l := by
  obtain ⟨⟨kid', key'⟩, hfind, rfl⟩ := Option.map_eq_some_iff.mp h
  obtain rfl : kid' = kid := by simpa using List.find?_some hfind
  exact List.mem_of_find?_eq_some hfind

lemma find_of_mem {l : List (String × Bytes)} (hl : (l.map Prod.fst).Nodup) {kid : String}
    {key : Bytes} (h : (kid, key) ∈ l) : (l.find? fun k => k.1 = kid).map Prod.snd = some key := by
  cases hfind : l.find? fun k => k.1 = kid with
  | none => exact absurd (decide_eq_true rfl) (List.find?_eq_none.mp hfind _ h)
  | some k =>
    have hsame : k.1 = kid := by simpa using List.find?_some hfind
    obtain rfl := List.inj_on_of_nodup_map hl (List.mem_of_find?_eq_some hfind) h hsame
    rfl

lemma decode_eq_some {key : Bytes} {settings : Settings} :
    jwt.decode token key settings now = some claims ↔
      jwt.signed token key settings.algorithm = true ∧ jwt.claims token = some claims ∧
        jwt.validates token claims settings now = true := by
  rw [Jwt.decode]
  cases jwt.signed token key settings.algorithm with
  | false => simp
  | true =>
    cases jwt.claims token with
    | none => simp
    | some c =>
      simp only [Bool.not_true, Bool.false_eq_true, if_false, Option.bind_eq_bind, Option.bind_some,
        Option.ite_none_right_eq_some, Option.some.injEq, true_and]
      constructor
      · rintro ⟨h, rfl⟩
        exact ⟨rfl, h⟩
      · rintro ⟨rfl, h⟩
        exact ⟨h, rfl⟩

/-- What `CurrentUser` asks of a token. -/
lemma decode_currentUser_iff {key : Bytes} :
    jwt.decode token key { toValidation := accessTokenValidation app, audience := none } now =
      some claims ↔ jwt.signed token key "EdDSA" = true ∧ jwt.claims token = some claims ∧
        (∀ name ∈ ["exp", "iss", "sub"], jwt.present token name = true) ∧
          claims.iss = app.issuer ∧ timestamp now - leewaySeconds ≤ claims.exp := by
  simp only [decode_eq_some, Jwt.validates, accessTokenValidation, Bool.and_eq_true,
    List.all_eq_true, decide_eq_true_eq, Bool.not_false, Bool.true_or, and_true]
  tauto

/-- `Verifier::verify` asks for the audience too, which is the one the token names. -/
lemma decode_verifier_iff {key : Bytes} :
    jwt.decode token key (verifierSettings issuer (jwt.audience token)) now = some claims ↔
      jwt.signed token key "EdDSA" = true ∧ jwt.claims token = some claims ∧
        (∀ name ∈ ["exp", "iss", "sub"], jwt.present token name = true) ∧
          claims.iss = issuer ∧ timestamp now - leewaySeconds ≤ claims.exp := by
  simp only [decode_eq_some, Jwt.validates, verifierSettings, Bool.and_eq_true, List.all_eq_true,
    decide_eq_true_eq, Bool.not_true, Bool.false_or, List.forall_mem_cons]
  constructor
  · rintro ⟨hsigned, hclaims, ⟨⟨⟨hexp, hiss, -, hsub, -⟩, hlive⟩, hissuer⟩, -⟩
    exact ⟨hsigned, hclaims, ⟨hexp, hiss, hsub, nofun⟩, hissuer, hlive⟩
  · rintro ⟨hsigned, hclaims, ⟨hexp, hiss, hsub, -⟩, hissuer, hlive⟩
    refine ⟨hsigned, hclaims, ⟨⟨⟨hexp, hiss, jwt.present_aud token claims hclaims, hsub, nofun⟩,
      hlive⟩, hissuer⟩, ?_⟩
    rw [Jwt.audience, hclaims]
    rfl

/-- The checks of `CurrentUser` once it has the token. -/
def currentUserChecks (jwt : Jwt) (app : App) (keys : SigningKeys) (token : String) (now : Time) :
    Option AccessTokenClaims := do
  let header ← jwt.decodeHeader token
  if header.alg ≠ "EdDSA" || header.typ ≠ some "at+jwt" then none
  else
    let key ← header.kid.bind keys.decodingKey
    jwt.decode token key { toValidation := accessTokenValidation app, audience := none } now

lemma authenticate_eq (authorization : Option String) :
    authenticate (jwt.app app) keys authorization now =
      (authorization.bind (stripPrefix "Bearer ")).bind fun token =>
        currentUserChecks jwt app keys token now := by
  cases authorization with
  | none => rfl
  | some value =>
    cases hprefix : stripPrefix "Bearer " value with
    | none => simp [authenticate, hprefix]
    | some token =>
      have hheader : (jwt.app app).decodeHeader token = jwt.decodeHeader token := rfl
      simp only [authenticate, hprefix, Option.bind_some, Option.bind_eq_bind, currentUserChecks,
        hheader]
      cases jwt.decodeHeader token with
      | none => rfl
      | some header =>
        simp only [Option.bind_some]
        split_ifs <;> rfl

lemma currentUserChecks_iff (hkeys : (keys.jwks.map Prod.fst).Nodup) :
    currentUserChecks jwt app keys token now = some claims ↔
      Valid jwt app.issuer keys.jwks token now claims := by
  simp only [currentUserChecks, Option.bind_eq_bind, Option.bind_eq_some_iff]
  constructor
  · rintro ⟨header, hheader, h⟩
    split_ifs at h with hbad
    simp only [Bool.or_eq_true, decide_eq_true_eq, not_or, not_not] at hbad
    obtain ⟨key, hkey, hdecode⟩ := Option.bind_eq_some_iff.mp h
    obtain ⟨kid, hkid, hkey⟩ := Option.bind_eq_some_iff.mp hkey
    obtain ⟨hsigned, hclaims, hpresent, hissuer, hlive⟩ := decode_currentUser_iff.mp hdecode
    exact ⟨⟨header, hheader, hbad.1, hbad.2, kid, key, hkid, mem_of_find hkey, hsigned⟩, hclaims,
      hpresent, hissuer, hlive⟩
  · rintro ⟨⟨header, hheader, halg, htyp, kid, key, hkid, hkey, hsigned⟩, hclaims, hpresent, hissuer,
      hlive⟩
    refine ⟨header, hheader, ?_⟩
    have hdecode := decode_currentUser_iff.mpr ⟨hsigned, hclaims, hpresent, hissuer, hlive⟩
    have hfind : keys.decodingKey kid = some key := find_of_mem hkeys hkey
    simp [halg, htyp, hkid, hfind, hdecode]

lemma lookup_eq (hkeys : (keys.jwks.map Prod.fst).Nodup) (kid : String) :
    Verifier.lookup keys.jwks kid = keys.decodingKey kid := by
  refine Option.ext fun key => ?_
  have hreverse : (keys.jwks.reverse.map Prod.fst).Nodup := by
    rw [List.map_reverse]
    exact List.nodup_reverse.mpr hkeys
  constructor
  · intro h
    exact find_of_mem hkeys (List.mem_reverse.mp (mem_of_find h))
  · intro h
    exact find_of_mem hreverse (List.mem_reverse.mpr (mem_of_find h))

lemma verify_iff (hkeys : (keys.jwks.map Prod.fst).Nodup) :
    verify jwt issuer (jwt.audience token) keys.jwks token now = some claims ↔
      Valid jwt issuer keys.jwks token now claims := by
  simp only [verify, Verifier.kidOf, lookup_eq hkeys, Option.bind_eq_bind, Option.bind_eq_some_iff]
  constructor
  · rintro ⟨kid, ⟨header, hheader, h⟩, key, hkey, hdecode⟩
    split_ifs at h with hbad
    simp only [Bool.or_eq_true, decide_eq_true_eq, not_or, not_not] at hbad
    obtain ⟨hsigned, hclaims, hpresent, hissuer, hlive⟩ := decode_verifier_iff.mp hdecode
    exact ⟨⟨header, hheader, hbad.1, hbad.2, kid, key, h, mem_of_find hkey, hsigned⟩, hclaims,
      hpresent, hissuer, hlive⟩
  · rintro ⟨⟨header, hheader, halg, htyp, kid, key, hkid, hkey, hsigned⟩, hclaims, hpresent, hissuer,
      hlive⟩
    have hdecode := decode_verifier_iff.mpr ⟨hsigned, hclaims, hpresent, hissuer, hlive⟩
    exact ⟨kid, ⟨header, hheader, by simp [halg, htyp, hkid]⟩, key, find_of_mem hkeys hkey, hdecode⟩

/-- Both check the same of a token. -/
lemma verify_eq (hkeys : (keys.jwks.map Prod.fst).Nodup) :
    verify jwt app.issuer (jwt.audience token) keys.jwks token now =
      currentUserChecks jwt app keys token now :=
  Option.ext fun _ => (verify_iff hkeys).trans (currentUserChecks_iff hkeys).symm

/-- A token with white space around it is none. -/
lemma Valid.trimmed (h : Valid jwt issuer keys.jwks token now claims) :
    trim token.toList = token.toList := by
  by_contra hspace
  obtain ⟨header, hheader, -, -, kid, key, -, -, hsigned⟩ := h.header
  rcases jwt.spaced token hspace with hnone | hnone
  · cases hnone.symm.trans hheader
  · cases (hnone key _).symm.trans hsigned

/-! ### The header -/

lemma stripPrefix_eq_some {value token : String} :
    stripPrefix "Bearer " value = some token ↔ value = "Bearer " ++ token := by
  simp only [stripPrefix, Option.ite_none_right_eq_some, Option.some.injEq, List.isPrefixOf_iff_prefix]
  constructor
  · rintro ⟨⟨rest, hrest⟩, rfl⟩
    refine String.toList_injective ?_
    rw [String.toList_append, ← hrest]
    exact congrArg ("Bearer ".toList ++ ·) String.toList_ofList.symm
  · rintro rfl
    rw [String.toList_append, List.drop_left, String.ofList_toList]
    exact ⟨List.prefix_append _ _, rfl⟩

lemma bearerToken_append (token : String) :
    bearerToken ("Bearer " ++ token).toList = some (String.ofList (trim token.toList)) := by
  have hspan : ("Bearer " ++ token).toList.span (· ≠ ' ') = ("Bearer".toList, ' ' :: token.toList) := by
    rw [List.span_eq_takeWhile_dropWhile, String.toList_append]
    rfl
  rw [bearerToken, splitOnce, hspan]
  rfl

/-- bauth and its APIs agree on a header if and only if it spells the scheme `Bearer`, with one space
before the token and none after it, or does not carry a valid access token. -/
theorem authenticate_eq_iff (hkeys : (keys.jwks.map Prod.fst).Nodup) (value : Bytes) :
    authenticate (jwt.app app) keys ((headerText value).map String.ofList) now =
        authUser jwt app.issuer keys.jwks value now ↔
      ∀ text token, headerText value = some text → bearerToken text = some token →
        (∃ claims, Valid jwt app.issuer keys.jwks token now claims) →
          String.ofList text = "Bearer " ++ token := by
  have hnone : ∀ {token}, ¬(∃ claims, Valid jwt app.issuer keys.jwks token now claims) →
      currentUserChecks jwt app keys token now = none := by
    intro token h
    refine Option.eq_none_iff_forall_not_mem.mpr fun claims hclaims => h ⟨claims, ?_⟩
    exact (currentUserChecks_iff hkeys).mp hclaims
  rw [authenticate_eq]
  cases hvalue : headerText value with
  | none => simp [authUser, hvalue]
  | some text =>
    simp only [authUser, hvalue, Option.map_some, Option.bind_some, Option.bind_eq_bind,
      Option.some.injEq, verify_eq hkeys]
    constructor
    · rintro hsame _ token rfl htoken ⟨claims, hvalid⟩
      rw [htoken, Option.bind_some, (currentUserChecks_iff hkeys).mpr hvalid] at hsame
      obtain ⟨token', htoken', hchecks⟩ := Option.bind_eq_some_iff.mp hsame
      have htext := stripPrefix_eq_some.mp htoken'
      have htrim := ((currentUserChecks_iff hkeys).mp hchecks).trimmed
      have hbearer := bearerToken_append token'
      rw [← htext, String.toList_ofList, htoken, htrim, String.ofList_toList] at hbearer
      rw [htext, Option.some.inj hbearer]
    · intro h
      cases hstrip : stripPrefix "Bearer " (String.ofList text) with
      | some token' =>
        have htext := stripPrefix_eq_some.mp hstrip
        have hbearer := bearerToken_append token'
        rw [← htext, String.toList_ofList] at hbearer
        rw [hbearer, Option.bind_some, Option.bind_some]
        by_cases htrim : trim token'.toList = token'.toList
        · rw [htrim, String.ofList_toList]
        · -- bauth refuses the white space, so that the token has to be invalid without it
          rw [hnone fun hvalid => htrim hvalid.choose_spec.trimmed, hnone fun hvalid => ?_]
          have hspelled := h text _ rfl hbearer hvalid
          rw [htext, String.append_right_inj] at hspelled
          have hsame := congrArg String.toList hspelled
          rw [String.toList_ofList] at hsame
          exact htrim hsame.symm
      | none =>
        rw [Option.bind_none]
        cases hbearer : bearerToken text with
        | none => rfl
        | some token =>
          rw [Option.bind_some, hnone fun hvalid => ?_]
          have hspelled := h text token rfl hbearer hvalid
          cases hstrip.symm.trans (stripPrefix_eq_some.mpr hspelled)

end Checks

/-- A library that takes `t` for a token signed with any key. -/
def exampleJwt : Jwt where
  decodeHeader token :=
    if token = "t" then some { alg := "EdDSA", typ := some "at+jwt", kid := some "k" } else none
  signed token _ _ := token = "t"
  claims token :=
    if token = "t" then
      some { iss := "https://bauth", sub := 1, aud := "api", clientId := "app", sid := 2, iat := 0
             exp := 900, jti := 3 }
    else none
  present _ _ := true
  present_aud _ _ _ := rfl
  spaced token h := by
    refine .inl (if_neg ?_)
    rintro rfl
    exact h (by decide)

def exampleKeys : SigningKeys where
  keys := []
  jwks := [("k", [])]

/-- `Bearer t` is accepted by both. -/
theorem authenticate_eq_bearer :
    authenticate (exampleJwt.app exampleApp) exampleKeys
        ((headerText (asBytes "Bearer t")).map String.ofList) 0 =
      authUser exampleJwt exampleApp.issuer exampleKeys.jwks (asBytes "Bearer t") 0 := by
  refine (authenticate_eq_iff (by decide) _).mpr fun text token htext htoken _ => ?_
  have h : headerText (asBytes "Bearer t") = some "Bearer t".toList := by decide
  obtain rfl := Option.some.inj (h.symm.trans htext)
  have h' : bearerToken "Bearer t".toList = some "t" := by decide
  obtain rfl := Option.some.inj (h'.symm.trans htoken)
  rfl

/-- `bearer t` is accepted by the APIs and refused by bauth. -/
theorem lowercase_bearer_refused : ¬∀ (jwt : Jwt) (app : App) (keys : SigningKeys),
    (keys.jwks.map Prod.fst).Nodup → ∀ (value : Bytes) (now : Time),
      authenticate (jwt.app app) keys ((headerText value).map String.ofList) now =
        authUser jwt app.issuer keys.jwks value now := by
  intro h
  have hsame := h exampleJwt exampleApp exampleKeys (by decide) (asBytes "bearer t") 0
  revert hsame
  decide

end Bearer

end Bauth
