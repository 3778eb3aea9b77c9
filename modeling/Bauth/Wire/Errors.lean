import Bauth.Sdk.Flow
import Bauth.Json.Text

/-!
# Errors over the wire

What the server writes for an error, and the `BauthError` that the SDK makes of it.
-/

namespace Bauth

open Transaction

inductive HeaderName where
  | cacheControl
  | contentType
  | retryAfter
  | wwwAuthenticate
  deriving DecidableEq

/-- A response; the body is its text. -/
structure HttpResponse where
  status : ℕ
  headers : List (HeaderName × String)
  body : List Char
  deriving DecidableEq

def HttpResponse.header (response : HttpResponse) (name : HeaderName) : Option String :=
  (response.headers.find? fun h => h.1 = name).map Prod.snd

/-- `axum::Json`: a status, headers and an object of these members. -/
def jsonResponse (status : ℕ) (headers : List (HeaderName × String))
    (members : List (List Char × Json.Scalar)) : HttpResponse where
  status
  headers := (.contentType, "application/json") :: headers
  body := Json.writeObject members

/-! ### `errors` -/

/-- Whole seconds, rounded up: `Retry-After: 0` would invite an immediate retry. -/
def retryAfterSeconds (retryAfter : Time) : ℕ :=
  retryAfter.toNat / 1000000 + if 0 < retryAfter.toNat % 1000000 then 1 else 0

/-- A number as it is displayed. -/
def showNat (n : ℕ) : String := String.ofList (Json.writeNat n)

/-- The texts of the errors. -/
def ApiError.message : ApiError → String
  | invalidRequest message => message
  | invalidEmail => "email address is invalid"
  | invalidToken => "token is invalid, expired or already used"
  | invalidCode => "code is incorrect, expired or already used"
  | invalidClient => "unknown client_id"
  | invalidRedirectUri => "redirect_uri is not registered for this client"
  | invalidCodeChallenge => "code_challenge must be a S256 challenge (43 base64url characters)"
  | accountDisabled => "account is disabled"
  | flowExpired => "login flow is unknown, expired or already completed"
  | unauthorized => "missing, invalid or expired access token"
  | notFound => "not found"
  | emailTaken => "email address is already used by another account"
  | rateLimited retryAfter =>
    "too many attempts, retry in " ++ showNat (retryAfterSeconds retryAfter) ++ " seconds"
  | internal => "internal server error"

/-- The headers of an error, besides its content type. -/
def ApiError.headers : ApiError → List (HeaderName × String)
  | unauthorized => [(.wwwAuthenticate, "Bearer error=\"invalid_token\"")]
  | rateLimited retryAfter => [(.retryAfter, showNat (retryAfterSeconds retryAfter))]
  | _ => []

def ApiError.intoResponse (error : ApiError) : HttpResponse :=
  jsonResponse error.status error.headers
    [("code".toList, .string error.code.toList), ("message".toList, .string error.message.toList)]

/-! ### `routes::oauth` -/

def OAuthError.description : OAuthError → Option String
  | invalidRequest description => some description
  | invalidGrant description => some description
  | invalidClient | unsupportedGrantType | serverError => none

/-- The description is left out where there is none. -/
def OAuthError.intoResponse (error : OAuthError) : HttpResponse :=
  jsonResponse error.status [(.cacheControl, "no-store")]
    (("error".toList, .string error.error.toList) ::
      (error.description.map fun description =>
        ("error_description".toList, Json.Scalar.string description.toList)).toList)

def Failure.intoResponse : Failure → HttpResponse
  | api error => error.intoResponse
  | oauth error => error.intoResponse

def Failure.code : Failure → String
  | api error => error.code
  | oauth error => error.error

/-- What tells a developer more than the code. -/
def Failure.message : Failure → String
  | api error => error.message
  | oauth error => error.description.getD error.error

/-- How long the rate limit lasts. -/
def Failure.wait : Failure → Option Time
  | api (.rateLimited retryAfter) => some retryAfter
  | _ => none

namespace Sdk

/-- `BauthErrorCode`. -/
def bauthErrorCodes : List String :=
  ["invalid_request", "invalid_email", "invalid_token", "invalid_code", "invalid_client",
    "invalid_redirect_uri", "invalid_code_challenge", "account_disabled", "flow_expired",
    "unauthorized", "not_found", "email_taken", "rate_limited", "internal_error",
    "invalid_grant", "unsupported_grant_type", "server_error",
    "network_error", "unexpected_response"]

/-- Strings are their code units. `message` is what `String(…)` is applied to, which leaves a string
as it is. -/
structure BauthError where
  status : ℕ
  code : List ℕ
  message : Json.Value
  retryAfter : Option ℕ

/-- `Number`, of the digits of a number. -/
def numberOf (text : List Char) : Option ℕ :=
  if text.all Char.isDigit then some (Json.digitsValue text) else none

/-- `retryAfterHeader ? Number(retryAfterHeader) : undefined`. -/
def retryAfterOf (response : HttpResponse) : Option ℕ :=
  match response.header .retryAfter with
  | some text => if text.toList = [] then none else numberOf text.toList
  | none => none

/-- A property that is a string. -/
def stringProperty (name : String) (body : Json.Value) : Option (List ℕ) :=
  match body.property name with
  | some (.string units) => some units
  | _ => none

/-- `value ?? code`. -/
def valueOr (value : Option Json.Value) (code : List ℕ) : Json.Value :=
  match value with
  | none | some .null => .string code
  | some value => value

/-- `BauthError.fromResponse`; the body is `none` where the text is no JSON. -/
def fromResponse (response : HttpResponse) (body : Option Json.Value) : BauthError :=
  let retryAfter := retryAfterOf response
  let unexpected : BauthError :=
    { status := response.status, code := Json.units "unexpected_response".toList
      message := .string (Json.units ("HTTP " ++ showNat response.status).toList), retryAfter }
  match body with
  | none => unexpected
  | some body =>
    match stringProperty "code" body, stringProperty "error" body with
    | some code, _ =>
      { status := response.status, code, message := valueOr (body.property "message") code
        retryAfter }
    | none, some error =>
      { status := response.status, code := error
        message := valueOr (body.property "error_description") error, retryAfter }
    | none, none => unexpected

/-- The error as an app tells it from others: by its code. -/
def BauthError.toError (error : BauthError) : Error :=
  match Json.ofUnits error.code with
  | some code => .bauth (String.ofList code)
  | none => .other

/-- What `unwrap` throws for a response that is not ok. -/
def errorOf (response : HttpResponse) : BauthError :=
  fromResponse response (Json.parse response.body)

end Sdk

/-! ### What is thrown is what was answered -/

lemma isDigit_of_mem_showNat {n : ℕ} : (showNat n).toList.all Char.isDigit = true := by
  rw [showNat, String.toList_ofList, List.all_eq_true]
  exact fun c hc => Json.isDigit_of_mem_writeNat hc

/-- A number that is displayed is read back. -/
lemma numberOf_showNat (n : ℕ) : Sdk.numberOf (showNat n).toList = some n := by
  rw [Sdk.numberOf, if_pos isDigit_of_mem_showNat, showNat, String.toList_ofList, Json.writeNat]
  split_ifs with hn
  · rw [hn]
    rfl
  · rw [Json.digitsValue_reverse fun d hd => Nat.digits_lt_base (by decide) hd, Nat.ofDigits_digits]

lemma showNat_ne_nil (n : ℕ) : (showNat n).toList ≠ [] := by
  obtain ⟨c, rest, hcons, -⟩ := Json.exists_cons_writeNat n
  simp [showNat, hcons]

/-- A wait is over after a number of seconds if and only if this is as long as the header says. -/
lemma le_seconds_iff (t : Time) (n : ℕ) : t ≤ seconds n ↔ retryAfterSeconds t ≤ n := by
  have hnat : t ≤ seconds n ↔ t.toNat ≤ n * 1000000 := by
    rw [Int.toNat_le, seconds]
    push_cast
    exact Iff.rfl
  rw [hnat, retryAfterSeconds]
  generalize t.toNat = micros
  split_ifs <;> omega

lemma retryAfterOf_intoResponse (f : Failure) :
    Sdk.retryAfterOf f.intoResponse = f.wait.map retryAfterSeconds := by
  rcases f with e | e
  · cases e with
    | rateLimited retryAfter =>
      show (if (showNat (retryAfterSeconds retryAfter)).toList = [] then none
        else Sdk.numberOf (showNat (retryAfterSeconds retryAfter)).toList) = _
      rw [if_neg (showNat_ne_nil _), numberOf_showNat]
      rfl
    | _ => rfl
  · rfl

lemma status_intoResponse (f : Failure) : f.intoResponse.status = f.status := by
  cases f <;> rfl

/-- The body of an error is an object with its code and its message. -/
lemma body_intoResponse (f : Failure) : ∃ body, Json.parse f.intoResponse.body = some body ∧
    (Sdk.stringProperty "code" body = some (Json.units f.code.toList) ∧
        body.property "message" = some (.string (Json.units f.message.toList)) ∨
      Sdk.stringProperty "code" body = none ∧
        Sdk.stringProperty "error" body = some (Json.units f.code.toList) ∧
        Sdk.valueOr (body.property "error_description") (Json.units f.code.toList) =
          .string (Json.units f.message.toList)) := by
  cases f with
  | api e =>
    refine ⟨_, Json.parse_text (List.cons_ne_nil _ _), .inl ⟨?_, ?_⟩⟩
    · rw [Sdk.stringProperty, Json.property_of_mem List.mem_cons_self (by simp)]
      rfl
    · rw [Json.property_of_mem (List.mem_cons_of_mem _ List.mem_cons_self) (by simp)]
      rfl
  | oauth e =>
    have hnames : ((("error".toList, Json.Scalar.string e.error.toList) ::
        (e.description.map fun description =>
          ("error_description".toList, Json.Scalar.string description.toList)).toList).map
            Prod.fst).Nodup := by
      cases e.description <;> simp
    refine ⟨_, Json.parse_text (List.cons_ne_nil _ _), .inr ⟨?_, ?_, ?_⟩⟩
    · rw [Sdk.stringProperty, Json.property_of_notMem]
      cases e.description <;> simp
    · rw [Sdk.stringProperty, Json.property_of_mem List.mem_cons_self hnames]
      rfl
    · cases hdescription : e.description with
      | none =>
        rw [Json.property_of_notMem]
        · simp [Sdk.valueOr, Failure.message, Failure.code, hdescription]
        · simp
      | some description =>
        rw [hdescription] at hnames
        rw [Json.property_of_mem (v := .string description.toList) (by simp) hnames]
        simp [Sdk.valueOr, Failure.message, hdescription, Json.Scalar.value]

/-- The `BauthError` for a failure. -/
def Failure.toBauthError (f : Failure) : Sdk.BauthError where
  status := f.status
  code := Json.units f.code.toList
  message := .string (Json.units f.message.toList)
  retryAfter := f.wait.map retryAfterSeconds

lemma errorOf_intoResponse (f : Failure) : Sdk.errorOf f.intoResponse = f.toBauthError := by
  obtain ⟨body, hparse, hbody⟩ := body_intoResponse f
  rw [Sdk.errorOf, hparse, Sdk.fromResponse, retryAfterOf_intoResponse, status_intoResponse,
    Failure.toBauthError]
  rcases hbody with ⟨hcode, hmessage⟩ | ⟨hcode, herror, hmessage⟩
  · simp only [hcode, hmessage, Sdk.valueOr]
  · simp only [hcode, herror, hmessage]

lemma Failure.code_mem (f : Failure) : f.code ∈ Sdk.bauthErrorCodes ∧
    f.code ≠ "network_error" ∧ f.code ≠ "unexpected_response" := by
  rcases f with e | e <;> cases e <;> simp [code, ApiError.code, OAuthError.error,
    Sdk.bauthErrorCodes]

lemma Failure.toBauthError_toError (f : Failure) :
    f.toBauthError.toError = Sdk.Flow.Failure.toError f := by
  rw [Sdk.BauthError.toError, toBauthError, Json.ofUnits_units]
  cases f <;> simp [code, Sdk.Flow.Failure.toError]

/-- Whatever error a route answers, the SDK throws it with its status, code and message. The code is
one that the SDK names, and not one of its own; `retryAfter` is there for a rate limit, and says the
least number of seconds that is long enough. -/
theorem errors_arrive (f : Failure) :
    Sdk.errorOf f.intoResponse = f.toBauthError ∧
      (Sdk.errorOf f.intoResponse).toError = Sdk.Flow.Failure.toError f ∧
      (f.code ∈ Sdk.bauthErrorCodes ∧ f.code ≠ "network_error" ∧
        f.code ≠ "unexpected_response") ∧
      ∀ n : ℕ, (∃ t ∈ f.wait, t ≤ seconds n) ↔
        ∃ m ∈ (Sdk.errorOf f.intoResponse).retryAfter, m ≤ n := by
  rw [errorOf_intoResponse]
  refine ⟨rfl, f.toBauthError_toError, f.code_mem, fun n => ?_⟩
  simp [Failure.toBauthError, le_seconds_iff]

end Bauth
