import Bauth.Alone.Served
import Mathlib.Data.Nat.Pairing

/-!
# Scripts of requests

A script is a list of requests with the times they arrive at; serving it is a run. `exampleApp` is
a small server to try scripts on: it has two clients, and its identifiers and secrets show the
process and the draw they come from.
-/

namespace Bauth

open Transaction

/-! ### Serving a script -/

section Script

variable (app : App) (reply : (q : Question) → Reply q)

/-- The requests of a script as they are served, and the state they leave. -/
def script (s : Server) : List (Time × Request) → List Served × Server
  | [] => ([], s)
  | (time, request) :: rest =>
    let p := serve app time reply request s
    let (steps, s') := script p.after rest
    (p :: steps, s')

/-- No request of the script comes before the clock or the request before it. -/
def InOrder (clock : Time) : List (Time × Request) → Prop
  | [] => True
  | (time, _) :: rest => clock ≤ time ∧ InOrder time rest

instance decidableInOrder : (clock : Time) → (requests : List (Time × Request)) →
    Decidable (InOrder clock requests)
  | _, [] => inferInstanceAs (Decidable True)
  | clock, (time, _) :: rest =>
    have := decidableInOrder time rest
    inferInstanceAs (Decidable (clock ≤ time ∧ InOrder time rest))

variable {app reply}

theorem script_run {s : Server} {requests : List (Time × Request)}
    (h : InOrder s.clock requests) :
    Run app s (script app reply s requests).1 (script app reply s requests).2 := by
  induction requests generalizing s with
  | nil => exact .nil
  | cons step rest ih =>
    obtain ⟨time, request⟩ := step
    exact (Run.single time reply request h.1).append (ih h.2)

/-- The state of a server on an empty database. -/
def Server.empty : Server := { db := {}, served := 0, clock := 0 }

theorem script_reachable {requests : List (Time × Request)} (h : InOrder 0 requests) :
    Reachable app (script app reply Server.empty requests).2 :=
  ⟨0, _, script_run h⟩

end Script

/-! ### A small server -/

/-- A code verifier of 43 characters, and its SHA-256. -/
def exampleVerifier : String := "dBjftJeZ4CVP-mB92K27uhbUJU1p1r_wW1gFWFOEjXk"

def exampleDigest : Bytes :=
  [19, 211, 30, 150, 26, 26, 216, 236, 47, 22, 177, 12, 76, 152, 46, 8, 118, 168, 120, 173, 109,
    241, 68, 86, 110, 225, 137, 74, 203, 112, 249, 195]

/-- The challenge of `exampleVerifier`. -/
def exampleChallenge : String := "E9Melhoa2OwvFrEMTJguCHaoeK1t8URWbuGJSstw-cM"

def exampleClient : Client where
  id := "app"
  name := "App"
  redirectUris := ["https://app/cb"]
  allowSignup := true
  magicLinkUrl := "https://app/login"
  emailChangeUrl := some "https://app/email"

def otherClient : Client where
  id := "other"
  name := "Other"
  redirectUris := ["https://other/cb"]
  magicLinkUrl := "https://other/login"

def exampleApp : App where
  clients := [exampleClient, otherClient]
  issuer := "https://bauth"
  sha256 bytes := if bytes = asBytes exampleVerifier then exampleDigest else 1 :: bytes
  hmac key message := key ++ message
  magicLinkKey := [0]
  confirmationKey := [1]
  uuid n := Nat.pair n.process n.index
  secret n := String.ofList (List.replicate n.process 'p' ++ '-' :: List.replicate n.index 'i')
  digits n := n.process * 10 + n.index
  unicode :=
    { lower := fun c => if c = 'İ' then 'i' else if c = 'Σ' then 'σ' else c.toLower
      cased := Char.isAlpha
      caseIgnorable := fun c => c = '.'
      lower_dotted := by decide
      lower_sigma := by decide }
  showUuid _ := "kid"
  encodeToken _ claims _ :=
    String.ofList (List.replicate claims.sub 'u' ++ List.replicate claims.sid 's')
  decodeHeader _ := some { alg := "EdDSA", typ := some "at+jwt", kid := some "kid" }
  decodeToken token _ validation _ := some
    { iss := validation.issuer, sub := token.toList.count 'u', aud := "app", clientId := "app"
      sid := token.toList.count 's', iat := 0, exp := 0, jti := 0 }

/-- Nothing is limited, and a key can sign. -/
def exampleReply : (q : Question) → Reply q
  | .limit _ _ => none
  | .signingKeys =>
    { keys := [{ kid := 0, encodingKey := [], activeAt := 0, retiredAt := none }]
      jwks := [("kid", [])] }

example : exampleApp.challengeOf exampleVerifier = exampleChallenge := by decide

lemma exampleApp_uuid_injective : Function.Injective exampleApp.uuid := by
  rintro ⟨p, i⟩ ⟨q, j⟩ h
  obtain ⟨rfl, rfl⟩ := Nat.pair_eq_pair.mp h
  rfl

lemma exampleApp_secret_injective : Function.Injective exampleApp.secret := by
  rintro ⟨p, i⟩ ⟨q, j⟩ h
  have hlist := String.ofList_injective h
  have hp := congrArg (List.count 'p') hlist
  have hi := congrArg (List.count 'i') hlist
  simp [List.count_replicate] at hp hi
  rw [hp, hi]

lemma exampleApp_sha256_injective : Function.Injective exampleApp.sha256 := by
  intro a b h
  simp only [exampleApp] at h
  split_ifs at h with ha hb hb
  · exact ha.trans hb.symm
  · simp [exampleDigest] at h
  · simp [exampleDigest] at h
  · simpa using h

/-- A flow is started, and its link is mailed. -/
def exampleLink : List (Time × Request) :=
  [(0, .createFlow {
      clientId := "app", redirectUri := "https://app/cb", codeChallenge := exampleChallenge
      codeChallengeMethod := "S256", state := none }),
    (1, .requestMagicLink "ip" 0 "bob@x.fr")]

/-- The link is used, and the code it answers is exchanged for the first refresh token,
`ppp-iii`. -/
def exampleLogin : List (Time × Request) :=
  exampleLink ++
    [(2, .confirmMagicLink "ip" "p-iii"),
    (3, .token {
      grantType := "authorization_code", clientId := "app", code := some "pp-iiii"
      redirectUri := some "https://app/cb", codeVerifier := some exampleVerifier })]

/-- The server after `exampleLogin`. -/
def exampleServer : Server where
  db :=
    { users := [
        { id := 7, email := "bob@x.fr", emailVerifiedAt := some 2, disabledAt := none
          createdAt := 2, updatedAt := 2 }]
      loginFlows := [
        { id := 0, clientId := "app", redirectUri := "https://app/cb"
          codeChallenge := exampleChallenge, state := none, magicLinkRequests := 1
          expiresAt := 900000001, completedAt := some 2, createdAt := 0 }]
      magicLinks := [
        { id := 26, flowId := 0, userId := none, email := "bob@x.fr"
          tokenHash := [1, 112, 45, 105, 105, 105]
          codeHash := [0, 0, 0, 0, 0, 0, 0, 0, 0, 0, 0, 0, 0, 0, 0, 0, 0, 48, 48, 48, 48, 49, 52]
          codeFailures := 0, expiresAt := 900000001, consumedAt := some 2, createdAt := 1 }]
      authorizationCodes := [
        { id := 27, codeHash := [1, 112, 112, 45, 105, 105, 105, 105], flowId := 0, userId := 7
          expiresAt := 60000002, consumedAt := some 3, createdAt := 2 }]
      sessions := [
        { id := 14, userId := 7, clientId := "app", authorizationCodeId := some 27
          expiresAt := 2592000000003, revokedAt := none, createdAt := 3 }]
      refreshTokens := [
        { id := 19, sessionId := 14, parentId := none
          tokenHash := [1, 112, 112, 112, 45, 105, 105, 105], rotatedAt := none
          supersededAt := none, createdAt := 3 }] }
  served := 4
  clock := 3

lemma exampleServer_eq : (script exampleApp exampleReply .empty exampleLogin).2 = exampleServer := by
  decide +kernel

lemma exampleServer_reachable : Reachable exampleApp exampleServer := by
  rw [← exampleServer_eq]
  exact script_reachable (by decide)

/-- A refresh by the client `clientId`. -/
def refreshWith (clientId token : String) : Request :=
  .token { grantType := "refresh_token", clientId, refreshToken := some token }

end Bauth
