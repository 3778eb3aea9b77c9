import Bauth.Model.Address
import Bauth.Model.Database

/-!
# The server's configuration, errors and effects

What the handlers read besides the database: the registered clients, the keys, the random source
and the third-party primitives they call, each a function the results below quantify over.
-/

namespace Bauth

open Transaction

/-! ### Texts as bytes -/

/-- UTF-8. -/
def asBytes (s : String) : Bytes := s.toList.flatMap String.utf8EncodeChar

lemma asBytes_injective : Function.Injective asBytes := by
  intro s t h
  refine String.toByteArray_inj.mp ?_
  rw [← String.utf8Encode_toList, ← String.utf8Encode_toList]
  simp only [List.utf8Encode]
  exact congrArg List.toByteArray h

/-- The 16 bytes of a row identifier, most significant first. -/
def uuidBytes (id : Uuid) : Bytes :=
  (List.range 16).reverse.map fun i => UInt8.ofNat (id / 256 ^ i)

def base64UrlAlphabet : List Char :=
  "ABCDEFGHIJKLMNOPQRSTUVWXYZabcdefghijklmnopqrstuvwxyz0123456789-_".toList

/-- The character of one group of six bits. -/
def base64UrlChar (n : ℕ) : Char := base64UrlAlphabet.getD n 'A'

/-- `URL_SAFE_NO_PAD.encode` (RFC 4648 §5, without padding). -/
def base64Url : Bytes → List Char
  | a :: b :: c :: rest =>
    let n := a.toNat * 65536 + b.toNat * 256 + c.toNat
    base64UrlChar (n / 262144) :: base64UrlChar (n / 4096 % 64) ::
      base64UrlChar (n / 64 % 64) :: base64UrlChar (n % 64) :: base64Url rest
  | [a, b] =>
    let n := a.toNat * 1024 + b.toNat * 4
    [base64UrlChar (n / 4096), base64UrlChar (n / 64 % 64), base64UrlChar (n % 64)]
  | [a] =>
    let n := a.toNat * 16
    [base64UrlChar (n / 64), base64UrlChar (n % 64)]
  | [] => []

/-- `format!("{:06}", n)` for `n < 10^6`. -/
def sixDigits (n : ℕ) : String :=
  String.ofList ([100000, 10000, 1000, 100, 10, 1].map fun p => Char.ofNat (48 + n / p % 10))

example : sixDigits 42917 = "042917" := by decide

/-! ### Clients -/

/-- The fields of a client that some handler reads. -/
structure Client where
  id : String
  name : String
  redirectUris : List String
  allowSignup : Bool := false
  audience : Option String := none
  magicLinkUrl : String
  emailChangeUrl : Option String := none
  deriving DecidableEq, Repr

def Client.allowsRedirectUri (c : Client) (redirectUri : String) : Bool :=
  c.redirectUris.any fun allowed => allowed = redirectUri

def Client.audienceName (c : Client) : String := c.audience.getD c.id

/-! ### Access tokens -/

/-- Claims of an access token. -/
structure AccessTokenClaims where
  iss : String
  sub : Uuid
  aud : String
  clientId : String
  sid : Uuid
  iat : ℤ
  exp : ℤ
  jti : Uuid
  deriving DecidableEq, Repr

/-- The JWT header fields that are set or checked. -/
structure TokenHeader where
  alg : String
  typ : Option String
  kid : Option String
  deriving DecidableEq, Repr

/-- A key allowed to sign from `activeAt` until `retiredAt`. -/
structure LoadedKey where
  kid : Uuid
  encodingKey : Bytes
  activeAt : Time
  retiredAt : Option Time
  deriving DecidableEq, Repr

def LoadedKey.canSign (k : LoadedKey) (now : Time) : Bool :=
  k.activeAt ≤ now && k.retiredAt.all fun retiredAt => now < retiredAt

/-- The keys an instance holds. A published key is its `kid` with its public half. -/
structure SigningKeys where
  keys : List LoadedKey
  jwks : List (String × Bytes)
  deriving DecidableEq, Repr

def SigningKeys.signingKey (s : SigningKeys) (now : Time) : Option LoadedKey :=
  s.keys.find? fun k => k.canSign now

def SigningKeys.decodingKey (s : SigningKeys) (kid : String) : Option Bytes :=
  (s.jwks.find? fun k => k.1 = kid).map Prod.snd

/-- What `CurrentUser` asks of a token's claims. -/
structure Validation where
  algorithm : String
  issuer : String
  validateAud : Bool
  requiredSpecClaims : List String
  leeway : ℤ
  deriving DecidableEq, Repr

/-! ### The application -/

/-- The configuration of one server and the code it calls outside the repository: SHA-256, HMAC,
the JWT library, the random source (`uuid`, `secret` and `digits` of a draw) and the Unicode
tables. -/
structure App where
  clients : List Client
  issuer : String
  sha256 : Bytes → Bytes
  hmac : Bytes → Bytes → Bytes
  magicLinkKey : Bytes
  confirmationKey : Bytes
  uuid : Draw → Uuid
  secret : Draw → String
  digits : Draw → ℕ
  unicode : Unicode
  showUuid : Uuid → String
  encodeToken : TokenHeader → AccessTokenClaims → Bytes → String
  decodeHeader : String → Option TokenHeader
  decodeToken : String → Bytes → Validation → Time → Option AccessTokenClaims

variable (app : App)

/-- `Clients::get`. -/
def App.client (id : String) : Option Client := app.clients.find? fun c => c.id = id

lemma App.client_id {app : App} {id : String} {c : Client} (h : app.client id = some c) :
    c.id = id := by
  simpa using List.find?_some h

/-! ### Tokens and codes -/

/-- `token::hash`. -/
def App.hash (plain : String) : Bytes := app.sha256 (asBytes plain)

/-- A secret sent to the user; only `hash` is stored. -/
structure SecretToken where
  plain : String
  hash : Bytes

/-- `token::generate`. -/
def App.generateToken (n : Draw) : SecretToken where
  plain := app.secret n
  hash := app.hash (app.secret n)

def codeRange : ℕ := 1000000

/-- What the HMAC of a code covers. -/
def message (owner : Uuid) (code : String) : Bytes := uuidBytes owner ++ asBytes code

/-- The digits of a generated code. -/
def App.plainCode (n : Draw) : String := sixDigits (app.digits n % codeRange)

/-- `CodeKey::generate`: the hash of the code. -/
def App.codeHash (key : Bytes) (owner : Uuid) (n : Draw) : Bytes :=
  app.hmac key (message owner (app.plainCode n))

/-- `CodeKey::verify`. -/
def App.verifyCode (key : Bytes) (owner : Uuid) (code : String) (hash : Bytes) : Bool :=
  app.hmac key (message owner code) = hash

/-- How long an emailed code and its magic link work. -/
def codeTtl : Time := minutes 15

/-- Wrong codes on one email before it is consumed. -/
def maxFailuresPerCode : ℕ := 5

/-- Wrong codes over a day on one address or account. -/
def maxFailuresPerDay : ℕ := 10

def isWellFormed (code : String) : Bool :=
  utf8Len code.toList = 6 && code.toList.all Char.isDigit

/-! ### PKCE -/

def isUnreserved (c : Char) : Bool :=
  c.isAlphanum || c = '-' || c = '.' || c = '_' || c = '~'

/-- `pkce::is_valid_challenge`. -/
def isValidChallenge (challenge : String) : Bool :=
  utf8Len challenge.toList = 43 &&
    challenge.toList.all fun c => c.isAlphanum || c = '-' || c = '_'

/-- `pkce::is_valid_verifier`. -/
def isValidVerifier (verifier : String) : Bool :=
  43 ≤ utf8Len verifier.toList && utf8Len verifier.toList ≤ 128 &&
    verifier.toList.all isUnreserved

/-- `base64url(SHA-256(verifier))`. -/
def App.challengeOf (verifier : String) : String :=
  String.ofList (base64Url (app.sha256 (asBytes verifier)))

/-- `pkce::verify`. -/
def App.pkceVerify (verifier challenge : String) : Bool :=
  isValidVerifier verifier && app.challengeOf verifier = challenge

/-! ### Errors -/

/-- Errors of the app routes. -/
inductive ApiError where
  | invalidRequest (message : String)
  | invalidEmail
  | invalidToken
  | invalidCode
  | invalidClient
  | invalidRedirectUri
  | invalidCodeChallenge
  | accountDisabled
  | flowExpired
  | unauthorized
  | notFound
  | emailTaken
  | rateLimited (retryAfter : Time)
  | internal
  deriving DecidableEq, Repr

def ApiError.code : ApiError → String
  | invalidRequest _ => "invalid_request"
  | invalidEmail => "invalid_email"
  | invalidToken => "invalid_token"
  | invalidCode => "invalid_code"
  | invalidClient => "invalid_client"
  | invalidRedirectUri => "invalid_redirect_uri"
  | invalidCodeChallenge => "invalid_code_challenge"
  | accountDisabled => "account_disabled"
  | flowExpired => "flow_expired"
  | unauthorized => "unauthorized"
  | notFound => "not_found"
  | emailTaken => "email_taken"
  | rateLimited _ => "rate_limited"
  | internal => "internal_error"

def ApiError.status : ApiError → ℕ
  | unauthorized => 401
  | notFound => 404
  | rateLimited _ => 429
  | internal => 500
  | _ => 400

/-- Errors of the token endpoint. -/
inductive OAuthError where
  | invalidRequest (description : String)
  | invalidClient
  | invalidGrant (description : String)
  | unsupportedGrantType
  | serverError
  deriving DecidableEq, Repr

def OAuthError.status : OAuthError → ℕ
  | invalidRequest _ | invalidGrant _ | unsupportedGrantType => 400
  | invalidClient => 401
  | serverError => 500

/-- The `error` member of the body. -/
def OAuthError.error : OAuthError → String
  | invalidRequest _ => "invalid_request"
  | invalidClient => "invalid_client"
  | invalidGrant _ => "invalid_grant"
  | unsupportedGrantType => "unsupported_grant_type"
  | serverError => "server_error"

/-- A statement the database refuses. -/
inductive DbError where
  | uniqueViolation
  | foreignKeyViolation
  | rowNotFound
  deriving DecidableEq, Repr

/-! ### What a handler does outside the database -/

/-- The emails bauth sends, with the values their templates are given. -/
inductive Email where
  | magicLink (recipient appName link code : String)
  | magicSignup (recipient appName link code : String)
  | confirmationCode (recipient action code : String)
  | confirmEmailChange (recipient link : String)
  | emailChanged (recipient newEmail : String)
  | accountDeleted (recipient : String)
  deriving DecidableEq, Repr

/-- The address an email is handed to the mailer for. -/
def Email.recipient : Email → String
  | magicLink r .. | magicSignup r .. | confirmationCode r .. | confirmEmailChange r ..
  | emailChanged r .. | accountDeleted r => r

inductive CodePurpose where
  | magicLink
  | confirmation
  deriving DecidableEq, Repr

/-- Effects outside the database: an email handed to the mailer, or a call of `CodeKey::verify`
for a row holding a code. -/
inductive Event where
  | sent (email : Email)
  | codeVerified (purpose : CodePurpose) (row : Uuid)
  deriving DecidableEq, Repr

inductive Limiter where
  | emailPerAddress
  | emailPerIp
  | tokenPerIp
  deriving DecidableEq, Repr

/-- What a handler asks of its own process: a rate limiter, or the keys last loaded. -/
inductive Question where
  | limit (limiter : Limiter) (key : String)
  | signingKeys
  deriving DecidableEq, Repr

/-- A limiter answers how long to wait, `none` when the request passes. -/
@[reducible] def Reply : Question → Type
  | .limit _ _ => Option Time
  | .signingKeys => SigningKeys

end Bauth
