import Bauth.Sdk.Flow
import Bauth.Form.UrlEncoded
import Bauth.Wire.Errors

/-!
# The token endpoint over the wire

The forms that the SDK sends to `/oauth/token` and `/oauth/revoke`, what the server reads of them,
and what the SDK reads of the answers.
-/

namespace Bauth

open Transaction

/-- A `POST` with a form. -/
structure FormRequest where
  contentType : String
  body : List UInt8

/-! ### `OAuthForm` -/

inductive FormRejection where
  | invalidContentType
  | duplicateField (name : String)
  | missingField (name : String)
  deriving DecidableEq

/-- Fails at the first field that is given again; what is not a field may be. -/
def noDuplicates (fields : List String) : List String → List (String × String) →
    Except FormRejection Unit
  | _, [] => .ok ()
  | seen, (name, _) :: rest =>
    if name ∈ seen then .error (.duplicateField name)
    else noDuplicates fields (if name ∈ fields then name :: seen else seen) rest

def requiredField (name : String) (pairs : List (String × String)) :
    Except FormRejection String :=
  match pairs.lookup name with
  | some value => .ok value
  | none => .error (.missingField name)

namespace OAuth

def TokenRequest.ofForm (pairs : List (String × String)) :
    Except FormRejection TokenRequest := do
  noDuplicates ["grant_type", "client_id", "code", "redirect_uri", "code_verifier",
    "refresh_token"] [] pairs
  return {
    grantType := ← requiredField "grant_type" pairs
    clientId := ← requiredField "client_id" pairs
    code := pairs.lookup "code"
    redirectUri := pairs.lookup "redirect_uri"
    codeVerifier := pairs.lookup "code_verifier"
    refreshToken := pairs.lookup "refresh_token" }

def RevokeRequest.ofForm (pairs : List (String × String)) :
    Except FormRejection RevokeRequest := do
  noDuplicates ["token", "client_id"] [] pairs
  return {
    token := ← requiredField "token" pairs
    clientId := ← requiredField "client_id" pairs }

/-- As it is serialized. -/
def TokenResponse.members (response : TokenResponse) : List (List Char × Json.Scalar) :=
  [("access_token".toList, .string response.accessToken.toList),
    ("token_type".toList, .string "Bearer".toList),
    ("expires_in".toList, .integer response.expiresIn),
    ("refresh_token".toList, .string response.refreshToken.toList)]

def TokenResponse.intoResponse (response : TokenResponse) : HttpResponse :=
  jsonResponse 200 [(.cacheControl, "no-store")] response.members

end OAuth

section Routes

variable (app : App) (D : Form.Utf8Decoder) (bodyText : FormRejection → String)

/-- A route that takes a form; `bodyText` is the text of a rejection. -/
def formRoute {α β : Type} (ofForm : List (String × String) → Except FormRejection α)
    (respond : β → HttpResponse) (route : α → Handler OAuthError β) (request : FormRequest) :
    Program sig HttpResponse := do
  let input :=
    -- parameters may follow
    if "application/x-www-form-urlencoded".toList.isPrefixOf request.contentType.toList then
      ofForm (Form.read D request.body)
    else .error .invalidContentType
  match input with
  | .error rejection => return (OAuthError.invalidRequest (bodyText rejection)).intoResponse
  | .ok input =>
    match ← (route input).run with
    | .ok response => return respond response
    | .error error => return error.intoResponse

/-- `POST /oauth/token`, as it is received. -/
def tokenRoute : FormRequest → Program sig HttpResponse :=
  formRoute D bodyText OAuth.TokenRequest.ofForm OAuth.TokenResponse.intoResponse (OAuth.token app)

/-- `POST /oauth/revoke`, as it is received. -/
def revokeRoute : FormRequest → Program sig HttpResponse :=
  formRoute D bodyText OAuth.RevokeRequest.ofForm (fun _ => ⟨200, [], []⟩) (OAuth.revoke app)

end Routes

/-! ### `createBauthClient` -/

namespace Sdk

/-- `form`: what is `null` or missing is left out. -/
def formRequest (body : List (String × Option String)) : FormRequest where
  contentType := "application/x-www-form-urlencoded"
  body := Form.write (body.filterMap fun entry => entry.2.map fun value => (entry.1, value))

def exchangeCodeRequest (clientId redirectUri code codeVerifier : String) : FormRequest :=
  formRequest [("grant_type", some "authorization_code"), ("client_id", some clientId),
    ("code", some code), ("redirect_uri", some redirectUri),
    ("code_verifier", some codeVerifier)]

def refreshRequest (clientId refreshToken : String) : FormRequest :=
  formRequest [("grant_type", some "refresh_token"), ("client_id", some clientId),
    ("refresh_token", some refreshToken)]

def logoutRequest (clientId refreshToken : String) : FormRequest :=
  formRequest [("client_id", some clientId), ("token", some refreshToken)]

def networkError : BauthError where
  status := 0
  code := Json.units "network_error".toList
  message := .string (Json.units "bauth is unreachable".toList)
  retryAfter := none

/-- `unwrap`, of a response; there is no value where there is no body. -/
def unwrap (response : HttpResponse) : Except BauthError (Option Json.Value) :=
  if 200 ≤ response.status ∧ response.status < 300 then
    if response.body = [] then .ok none
    else match Json.parse response.body with
      | some value => .ok (some value)
      | none => .error networkError
  else .error (errorOf response)

def textProperty (name : String) (body : Json.Value) : Option String := do
  return String.ofList (← Json.ofUnits (← stringProperty name body))

def integerProperty (name : String) (body : Json.Value) : Option ℤ :=
  match body.property name with
  | some (.number n) => if n.den = 1 then some n.num else none
  | _ => none

/-- The `Tokens` that a value is. -/
def tokensOf (body : Json.Value) : Option OAuth.TokenResponse := do
  return {
    accessToken := ← textProperty "access_token" body
    expiresIn := ← integerProperty "expires_in" body
    refreshToken := ← textProperty "refresh_token" body }

/-- What a call for tokens returns or throws. -/
def readTokens (response : HttpResponse) : Except BauthError (Option OAuth.TokenResponse) :=
  (unwrap response).map fun body => body.bind tokensOf

/-- What a call for nothing returns or throws. -/
def readNothing (response : HttpResponse) : Except BauthError Unit :=
  (unwrap response).map fun _ => ()

end Sdk

/-! ### What is sent is what is read -/

/-- The answer to a call for tokens, without the wire. -/
def tokensTold : Response → Except Sdk.BauthError (Option OAuth.TokenResponse)
  | .ok (.tokens tokens) => .ok (some tokens)
  | .ok _ => .ok none
  | .error failure => .error failure.toBauthError

/-- The answer to a call for nothing, without the wire. -/
def nothingTold (response : Response) : Except Sdk.BauthError Unit :=
  (response.mapError Failure.toBauthError).map fun _ => ()

lemma textProperty_of_mem {members : List (List Char × Json.Scalar)} (name text : String)
    (hmem : (name.toList, Json.Scalar.string text.toList) ∈ members)
    (hnames : (members.map Prod.fst).Nodup) :
    Sdk.textProperty name (.object (members.map fun m => (Json.units m.1, m.2.value))) =
      some text := by
  rw [Sdk.textProperty, Sdk.stringProperty, Json.property_of_mem hmem hnames, Json.Scalar.value]
  simp only [Option.bind_eq_bind, Option.bind_some, Json.ofUnits_units, String.ofList_toList]
  rfl

lemma unwrap_of_status {response : HttpResponse} (h : 400 ≤ response.status) :
    Sdk.unwrap response = .error (Sdk.errorOf response) :=
  if_neg (by omega)

lemma Failure.le_status (f : Failure) : 400 ≤ f.status := by
  rcases f with e | e <;> cases e <;> simp [Failure.status, ApiError.status, OAuthError.status]

lemma unwrap_failure (f : Failure) : Sdk.unwrap f.intoResponse = .error f.toBauthError := by
  rw [unwrap_of_status (status_intoResponse f ▸ f.le_status), errorOf_intoResponse]

/-- A response with an object is read as the object. -/
lemma unwrap_jsonResponse (headers : List (HeaderName × String))
    {members : List (List Char × Json.Scalar)} (hne : members ≠ []) :
    Sdk.unwrap (jsonResponse 200 headers members) =
      .ok (some (.object (members.map fun m => (Json.units m.1, m.2.value)))) := by
  have hbody : (jsonResponse 200 headers members).body ≠ [] := List.cons_ne_nil _ _
  have hparse : Json.parse (jsonResponse 200 headers members).body = some _ := Json.parse_text hne
  rw [Sdk.unwrap, if_pos (by simp [jsonResponse]), if_neg hbody]
  simp only [hparse]

/-- Tokens are read back. -/
lemma readTokens_intoResponse (tokens : OAuth.TokenResponse) :
    Sdk.readTokens tokens.intoResponse = .ok (some tokens) := by
  have hnames : (tokens.members.map Prod.fst).Nodup := by
    simp [OAuth.TokenResponse.members]
  have haccess := textProperty_of_mem "access_token" tokens.accessToken
    (by simp [OAuth.TokenResponse.members]) hnames
  have hrefresh := textProperty_of_mem "refresh_token" tokens.refreshToken
    (by simp [OAuth.TokenResponse.members]) hnames
  have hmem : ("expires_in".toList, .integer tokens.expiresIn) ∈ tokens.members := by
    simp [OAuth.TokenResponse.members]
  have hinteger : Sdk.integerProperty "expires_in"
      (.object (tokens.members.map fun m => (Json.units m.1, m.2.value))) =
        some tokens.expiresIn := by
    rw [Sdk.integerProperty, Json.property_of_mem hmem hnames]
    simp [Json.Scalar.value]
  have hne : tokens.members ≠ [] := List.cons_ne_nil _ _
  have htokens : Sdk.tokensOf (.object (tokens.members.map fun m => (Json.units m.1, m.2.value))) =
      some tokens := by
    simp [Sdk.tokensOf, haccess, hrefresh, hinteger]
  rw [Sdk.readTokens, OAuth.TokenResponse.intoResponse, unwrap_jsonResponse _ hne]
  exact congrArg Except.ok htokens

section Calls

variable (app : App) (D : Form.Utf8Decoder) (bodyText : FormRejection → String)

/-- A form that is read as `input` is answered like `input`. -/
lemma formRoute_map {α β γ : Type} {ofForm : List (String × String) → Except FormRejection α}
    {respond : β → HttpResponse} {route : α → Handler OAuthError β}
    {body : List (String × Option String)} {input : α} {read : HttpResponse → γ}
    {wrap : β → Body} {told : Response → γ}
    (hread : ofForm (body.filterMap fun entry => entry.2.map fun value => (entry.1, value)) =
      .ok input)
    (hok : ∀ response, read (respond response) = told (.ok (wrap response)))
    (herror : ∀ error : OAuthError, read error.intoResponse = told (.error (.oauth error))) :
    read <$> formRoute D bodyText ofForm respond route (Sdk.formRequest body) =
      told <$> oauthRoute wrap (route input) := by
  have hform : Form.read D (Sdk.formRequest body).body =
      body.filterMap fun entry => entry.2.map fun value => (entry.1, value) :=
    Form.read_write D _
  have htype : ∀ s : String, s.toList.isPrefixOf s.toList = true := fun s =>
    List.isPrefixOf_iff_prefix.mpr List.prefix_rfl
  rw [formRoute, hform, hread, oauthRoute, Sdk.formRequest, if_pos (htype _)]
  dsimp only
  rw [map_bind, map_bind]
  congr 1
  funext result
  cases result with
  | ok response => exact congrArg Program.ret (hok response)
  | error error => exact congrArg Program.ret (herror error)

lemma readNothing_failure (f : Failure) :
    Sdk.readNothing f.intoResponse = nothingTold (.error f) := by
  rw [Sdk.readNothing, unwrap_failure]
  rfl

lemma readTokens_failure (f : Failure) :
    Sdk.readTokens f.intoResponse = tokensTold (.error f) := by
  rw [Sdk.readTokens, unwrap_failure]
  rfl

/-- A call of the SDK to the token endpoint is the request with these texts, whatever they are, and
returns or throws what the route answers. -/
theorem token_calls_arrive (b : Sdk.Flow.Browser) (code codeVerifier refreshToken : String) :
    Sdk.readTokens <$> tokenRoute app D bodyText
        (Sdk.exchangeCodeRequest b.clientId b.redirectUri code codeVerifier) =
      tokensTold <$> handle app (.token {
        grantType := "authorization_code", clientId := b.clientId, code := some code
        redirectUri := some b.redirectUri, codeVerifier := some codeVerifier }) ∧
    Sdk.readTokens <$> tokenRoute app D bodyText
        (Sdk.refreshRequest b.clientId refreshToken) =
      tokensTold <$> handle app (.token {
        grantType := "refresh_token", clientId := b.clientId
        refreshToken := some refreshToken }) ∧
    Sdk.readNothing <$> revokeRoute app D bodyText (Sdk.logoutRequest b.clientId refreshToken) =
      nothingTold <$> handle app (.revoke { token := refreshToken, clientId := b.clientId }) := by
  have htokens : ∀ response : OAuth.TokenResponse,
      Sdk.readTokens response.intoResponse = tokensTold (.ok (.tokens response)) :=
    readTokens_intoResponse
  refine ⟨?_, ?_, ?_⟩
  · exact formRoute_map D bodyText rfl htokens fun e => readTokens_failure (.oauth e)
  · exact formRoute_map D bodyText rfl htokens fun e => readTokens_failure (.oauth e)
  · exact formRoute_map D bodyText rfl (fun _ => rfl) fun e => readNothing_failure (.oauth e)

end Calls

end Bauth
