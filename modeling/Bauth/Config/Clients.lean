import Bauth.Model.Server
import Mathlib.Data.List.Dedup

/-!
# `clients`

The clients of `bauth.toml`, once it is parsed, and the checks they pass at startup. The parser of
URLs is a parameter.
-/

namespace Bauth

/-- What the checks read of a parsed URL; `text` is the URL written out. -/
structure Url where
  scheme : String
  host : Option String
  port : Option ℕ
  fragment : Option String
  text : String
  deriving DecidableEq

/-- `Url::parse`, with the text of its error. -/
abbrev UrlParser := String → Except String Url

/-- `ClientsError::Invalid`. -/
structure InvalidClient where
  client : String
  reason : String
  deriving DecidableEq

structure ClientConfig extends Client where
  allowedOrigins : List String := []
  deriving DecidableEq

def ensure (holds : Bool) (reason : String) : Except String Unit :=
  if holds then .ok () else .error reason

def Url.isLoopback (url : Url) : Bool :=
  url.host = some "localhost" || url.host = some "127.0.0.1" || url.host = some "[::1]"

/-- `https`, `http` on localhost, or an app scheme with a dot. -/
def Url.isAllowed (url : Url) : Bool :=
  url.scheme = "https" || (url.scheme = "http" && url.isLoopback) || url.scheme.toList.contains '.'

/-- The rules shared by every URL of a client. -/
def checkUrl (parse : UrlParser) (field url : String) : Except String Url := do
  let parsed ← (parse url).mapError fun e => field ++ " `" ++ url ++ "`: " ++ e
  ensure parsed.fragment.isNone (field ++ " `" ++ url ++ "` must not contain a fragment")
  ensure parsed.isAllowed (field ++ " `" ++ url ++ "` must use https, http on localhost, or an " ++
    "app scheme like `fr.example.app:/callback`")
  return parsed

/-- `scheme://host[:port]`, if there is a host. -/
def originOf (url : Url) : Option String := do
  let host ← url.host
  match url.port with
  | some port => return url.scheme ++ "://" ++ host ++ ":" ++ toString port
  | none => return url.scheme ++ "://" ++ host

namespace ClientConfig

variable (parse : UrlParser) (c : ClientConfig)

/-- The origin of a page that a browser shows. -/
def pageOrigin (url : String) : Option String :=
  match parse url with
  | .ok url => if url.scheme = "http" || url.scheme = "https" then originOf url else none
  | .error _ => none

def pages : List String := c.redirectUris ++ [c.magicLinkUrl] ++ c.emailChangeUrl.toList

/-- The origins that may call bauth from a browser for this client. -/
def origins : List String := c.pages.filterMap (pageOrigin parse) ++ c.allowedOrigins

def validId : Bool :=
  !c.id.toList.isEmpty && c.id.toList.all fun b => b.isLower || b.isDigit || b = '-' || b = '_'

/-- Byte-for-byte matching only works if the configured value is already canonical. -/
def checkRedirectUri (uri : String) : Except String Unit := do
  let parsed ← (parse uri).mapError fun e => "redirect_uri `" ++ uri ++ "`: " ++ e
  ensure (parsed.text = uri)
    ("redirect_uri `" ++ uri ++ "` must be written `" ++ parsed.text ++ "`")
  let _ ← checkUrl parse "redirect_uri" uri

/-- Compared byte for byte with the browser's `Origin` header. -/
def checkAllowedOrigin (origin : String) : Except String Unit := do
  let parsed ← (parse origin).mapError fun e => "allowed_origin `" ++ origin ++ "`: " ++ e
  ensure (originOf parsed = some origin) ("allowed_origin `" ++ origin ++ "` must be an origin " ++
    "like `https://app.example.com` (no path, no trailing slash)")

/-- The checks of one client, the first failure first. -/
def check : Except String Unit := do
  ensure c.validId "id must match [a-z0-9_-]+"
  ensure (!c.redirectUris.isEmpty) "at least one redirect_uri is required"
  forM c.redirectUris (checkRedirectUri parse)
  let _ ← checkUrl parse "magic_link_url" c.magicLinkUrl
  forM c.emailChangeUrl.toList fun url => do
    let _ ← checkUrl parse "email_change_url" url
  forM c.allowedOrigins (checkAllowedOrigin parse)

def validate : Except InvalidClient Unit :=
  (c.check parse).mapError fun reason => { client := c.id, reason }

end ClientConfig

namespace Clients

variable (parse : UrlParser)

/-- The loop of `Clients::from_toml`, with the clients inserted so far. -/
def insertAll : List ClientConfig → List ClientConfig → Except InvalidClient (List ClientConfig)
  | clients, [] => .ok clients
  | clients, c :: rest => do
    c.validate parse
    if clients.any fun c' => c'.id = c.id then
      .error { client := c.id, reason := "duplicate id" }
    else
      insertAll (clients ++ [c]) rest

/-- `Clients::from_toml`, of the clients of the file. -/
def fromFile (file : List ClientConfig) : Except InvalidClient (List ClientConfig) :=
  insertAll parse [] file

/-- Every client's browser origins, deduplicated. -/
def origins (clients : List ClientConfig) : List String :=
  (clients.flatMap (ClientConfig.origins parse)).dedup

end Clients

/-! ### What the checks accept -/

/-- A page that a link or a redirect may open. -/
structure Page (parse : UrlParser) (url : String) (u : Url) : Prop where
  parses : parse url = .ok u
  noFragment : u.fragment = none
  allowed : u.isAllowed = true

/-- A client that the server starts with. -/
structure ClientConfig.Valid (parse : UrlParser) (c : ClientConfig) : Prop where
  id : c.validId = true
  redirects : c.redirectUris ≠ []
  redirectUris : ∀ uri ∈ c.redirectUris, ∃ u, Page parse uri u ∧ u.text = uri
  magicLinkUrl : ∃ u, Page parse c.magicLinkUrl u
  emailChangeUrl : ∀ url ∈ c.emailChangeUrl, ∃ u, Page parse url u
  allowedOrigins : ∀ origin ∈ c.allowedOrigins, ∃ u, parse origin = .ok u ∧
    originOf u = some origin

section Checks

variable {parse : UrlParser} {c : ClientConfig}

lemma bind_eq_ok {ε α β : Type} {x : Except ε α} {f : α → Except ε β} {b : β} :
    (x >>= f) = .ok b ↔ ∃ a, x = .ok a ∧ f a = .ok b := by
  cases x <;> simp [bind, Except.bind]

lemma mapError_eq_ok {ε ε' α : Type} {x : Except ε α} {f : ε → ε'} {a : α} :
    x.mapError f = .ok a ↔ x = .ok a := by
  cases x <;> simp [Except.mapError]

lemma ensure_eq_ok {holds : Bool} {reason : String} {u : Unit} :
    ensure holds reason = .ok u ↔ holds = true := by
  cases holds <;> simp [ensure]

lemma forM_eq_ok {α ε : Type} {l : List α} {f : α → Except ε Unit} {u : Unit} :
    forM l f = .ok u ↔ ∀ x ∈ l, f x = .ok () := by
  induction l with
  | nil => simp [pure, Except.pure]
  | cons x l ih =>
    rw [List.forM_cons, bind_eq_ok, List.forall_mem_cons]
    constructor
    · rintro ⟨u, hx, hl⟩
      exact ⟨hx, ih.mp hl⟩
    · rintro ⟨hx, hl⟩
      exact ⟨(), hx, ih.mpr hl⟩

lemma checkUrl_eq_ok {field url : String} {u : Url} :
    checkUrl parse field url = .ok u ↔ Page parse url u := by
  simp only [checkUrl, bind_eq_ok, mapError_eq_ok, ensure_eq_ok]
  constructor
  · rintro ⟨parsed, hparse, -, hfragment, -, hallowed, hreturn⟩
    cases hreturn
    exact ⟨hparse, by simpa using hfragment, hallowed⟩
  · intro h
    exact ⟨u, h.parses, (), by simp [h.noFragment], (), h.allowed, rfl⟩

lemma checkRedirectUri_eq_ok {uri : String} :
    ClientConfig.checkRedirectUri parse uri = .ok () ↔ ∃ u, Page parse uri u ∧ u.text = uri := by
  simp only [ClientConfig.checkRedirectUri, bind_eq_ok, mapError_eq_ok, ensure_eq_ok,
    checkUrl_eq_ok]
  constructor
  · rintro ⟨u, hparse, -, htext, u', hpage, -⟩
    obtain rfl : u = u' := Except.ok.inj (hparse.symm.trans hpage.parses)
    exact ⟨u, hpage, of_decide_eq_true htext⟩
  · rintro ⟨u, hpage, htext⟩
    exact ⟨u, hpage.parses, (), by simp [htext], u, hpage, rfl⟩

lemma checkAllowedOrigin_eq_ok {origin : String} :
    ClientConfig.checkAllowedOrigin parse origin = .ok () ↔
      ∃ u, parse origin = .ok u ∧ originOf u = some origin := by
  simp [ClientConfig.checkAllowedOrigin, bind_eq_ok, mapError_eq_ok, ensure_eq_ok]

lemma validate_eq_ok : c.validate parse = .ok () ↔ c.Valid parse := by
  simp only [ClientConfig.validate, ClientConfig.check, mapError_eq_ok, bind_eq_ok, ensure_eq_ok,
    forM_eq_ok, checkRedirectUri_eq_ok, checkAllowedOrigin_eq_ok]
  constructor
  · rintro ⟨-, hid, -, hne, -, hredirects, u, hlink, -, hchange, horigins⟩
    constructor
    · exact hid
    · simpa using hne
    · exact hredirects
    · exact ⟨u, checkUrl_eq_ok.mp hlink⟩
    · intro url hurl
      obtain ⟨u, hchange, -⟩ := hchange url (Option.mem_toList.mpr hurl)
      exact ⟨u, checkUrl_eq_ok.mp hchange⟩
    · exact horigins
  · intro h
    obtain ⟨u, hlink⟩ := h.magicLinkUrl
    refine ⟨(), h.id, (), ?_, (), h.redirectUris, u, checkUrl_eq_ok.mpr hlink, (), ?_,
      h.allowedOrigins⟩
    · simpa using h.redirects
    · intro url hurl
      obtain ⟨u, hchange⟩ := h.emailChangeUrl url (Option.mem_toList.mp hurl)
      exact ⟨u, checkUrl_eq_ok.mpr hchange, rfl⟩

end Checks

section File

variable {parse : UrlParser} {clients file loaded : List ClientConfig} {c : ClientConfig}

lemma insertAll_cons : Clients.insertAll parse clients (c :: file) = .ok loaded ↔
    c.Valid parse ∧ (∀ c' ∈ clients, c'.id ≠ c.id) ∧
      Clients.insertAll parse (clients ++ [c]) file = .ok loaded := by
  rw [Clients.insertAll, bind_eq_ok]
  by_cases hnew : ∀ c' ∈ clients, c'.id ≠ c.id
  · have hany : (clients.any fun c' => c'.id = c.id) = false := by simpa using hnew
    simp only [hany, Bool.false_eq_true, if_false]
    constructor
    · rintro ⟨u, hc, hrest⟩
      exact ⟨validate_eq_ok.mp hc, hnew, hrest⟩
    · rintro ⟨hc, -, hrest⟩
      exact ⟨(), validate_eq_ok.mpr hc, hrest⟩
  · have hany : (clients.any fun c' => c'.id = c.id) = true := by simpa using hnew
    simp [hany, hnew]

/-- The clients inserted before are kept, and their ids are taken. -/
lemma insertAll_eq_ok : Clients.insertAll parse clients file = .ok loaded ↔
    loaded = clients ++ file ∧ (∀ c ∈ file, c.Valid parse) ∧
      (file.map (·.id)).Nodup ∧ ∀ c ∈ file, ∀ c' ∈ clients, c'.id ≠ c.id := by
  induction file generalizing clients with
  | nil => simp [Clients.insertAll, eq_comm]
  | cons c rest ih =>
    have happend : clients ++ c :: rest = clients ++ [c] ++ rest := by simp
    rw [insertAll_cons, ih, List.map_cons, List.nodup_cons, happend]
    constructor
    · rintro ⟨hc, hnew, hloaded, hrest, hnodup, hold⟩
      refine ⟨hloaded, List.forall_mem_cons.mpr ⟨hc, hrest⟩, ⟨?_, hnodup⟩,
        List.forall_mem_cons.mpr ⟨hnew, ?_⟩⟩
      · intro hmem
        obtain ⟨c', hc', hid⟩ := List.mem_map.mp hmem
        exact hold c' hc' c (by simp) hid.symm
      · intro c' hc' c'' hc''
        exact hold c' hc' c'' (List.mem_append_left _ hc'')
    · rintro ⟨hloaded, hvalid, ⟨hfirst, hnodup⟩, hold⟩
      obtain ⟨hc, hrest⟩ := List.forall_mem_cons.mp hvalid
      obtain ⟨hnew, hold⟩ := List.forall_mem_cons.mp hold
      refine ⟨hc, hnew, hloaded, hrest, hnodup, ?_⟩
      intro c' hc' c'' hc''
      rcases List.mem_append.mp hc'' with hc'' | hc''
      · exact hold c' hc' c'' hc''
      · obtain rfl := List.mem_singleton.mp hc''
        rintro hid
        exact hfirst (hid ▸ List.mem_map_of_mem hc')

/-- The server starts exactly with the files whose clients are valid and have distinct ids. -/
theorem fromFile_eq_ok : Clients.fromFile parse file = .ok loaded ↔
    loaded = file ∧ (∀ c ∈ file, c.Valid parse) ∧ (file.map (·.id)).Nodup := by
  rw [Clients.fromFile, insertAll_eq_ok, List.nil_append]
  simp

end File

/-! ### The origins of browsers -/

section Origins

variable {parse : UrlParser} {c : ClientConfig} {url o : String} {u : Url}

lemma ClientConfig.Valid.page (h : c.Valid parse) (hurl : url ∈ c.pages) :
    ∃ u, Page parse url u := by
  rcases List.mem_append.mp hurl with hurl | hurl
  · rcases List.mem_append.mp hurl with hurl | hurl
    · obtain ⟨u, hpage, -⟩ := h.redirectUris url hurl
      exact ⟨u, hpage⟩
    · obtain rfl := List.mem_singleton.mp hurl
      exact h.magicLinkUrl
  · exact h.emailChangeUrl url (Option.mem_toList.mp hurl)

lemma pageOrigin_eq_some (hparse : parse url = .ok u) :
    ClientConfig.pageOrigin parse url = some o ↔
      (u.scheme = "http" ∨ u.scheme = "https") ∧ originOf u = some o := by
  simp only [ClientConfig.pageOrigin, hparse]
  split_ifs with hscheme
  · have hweb : u.scheme = "http" ∨ u.scheme = "https" := by simpa using hscheme
    exact (and_iff_right hweb).symm
  · have hother : ¬(u.scheme = "http" ∨ u.scheme = "https") := by simpa using hscheme
    simp [hother]

/-- An `http` page is one of this machine. -/
lemma Page.secure (h : Page parse url u) (hweb : u.scheme = "http" ∨ u.scheme = "https") :
    u.scheme = "https" ∨ u.scheme = "http" ∧ u.isLoopback = true := by
  rcases hweb with hhttp | hhttps
  · have hallowed := h.allowed
    have hdot : "http".toList.contains '.' = false := by decide
    rw [Url.isAllowed, hhttp, hdot] at hallowed
    right
    simpa [hhttp] using hallowed
  · exact .inl hhttps

/-- The origins a server lets call it from a browser are those that a client lists, each written as
a browser sends it, and those of its clients' pages on the web, which use `https` or are on this
machine. -/
theorem origins_secure {file clients : List ClientConfig}
    (hload : Clients.fromFile parse file = .ok clients) :
    (∀ o, o ∈ Clients.origins parse clients ↔ ∃ c ∈ file, o ∈ c.allowedOrigins ∨
      ∃ url ∈ c.pages, ∃ u, Page parse url u ∧ (u.scheme = "http" ∨ u.scheme = "https") ∧
        originOf u = some o) ∧
    (∀ c ∈ file, ∀ o ∈ c.allowedOrigins, ∃ u, parse o = .ok u ∧ originOf u = some o) ∧
    ∀ c ∈ file, ∀ url ∈ c.pages, ∃ u, Page parse url u ∧
      ((u.scheme = "http" ∨ u.scheme = "https") →
        u.scheme = "https" ∨ u.scheme = "http" ∧ u.isLoopback = true) := by
  obtain ⟨rfl, hvalid, -⟩ := fromFile_eq_ok.mp hload
  refine ⟨?_, fun c hc => (hvalid c hc).allowedOrigins, ?_⟩
  · intro o
    rw [Clients.origins, List.mem_dedup, List.mem_flatMap]
    refine exists_congr fun c => and_congr_right fun hc => ?_
    rw [ClientConfig.origins, List.mem_append, List.mem_filterMap, or_comm]
    refine or_congr_right (exists_congr fun url => and_congr_right fun hurl => ?_)
    obtain ⟨u, hpage⟩ := (hvalid c hc).page hurl
    rw [pageOrigin_eq_some hpage.parses]
    constructor
    · intro h
      exact ⟨u, hpage, h⟩
    · rintro ⟨u', hpage', h⟩
      obtain rfl : u = u' := Except.ok.inj (hpage.parses.symm.trans hpage'.parses)
      exact h
  · intro c hc url hurl
    obtain ⟨u, hpage⟩ := (hvalid c hc).page hurl
    exact ⟨u, hpage, hpage.secure⟩

/-- What the checks need to know of an `https` URL. -/
def exampleParse : UrlParser := fun url =>
  let rest := url.toList.drop 8
  if url.toList.take 8 = "https://".toList then .ok
    { scheme := "https"
      host := some (String.ofList (rest.takeWhile (· ≠ '/')))
      port := none
      fragment := if '#' ∈ rest then some (String.ofList ((rest.dropWhile (· ≠ '#')).drop 1))
        else none
      text := url }
  else .error "relative URL without a base"

def exampleConfig : ClientConfig where
  id := "my-app"
  name := "My App"
  redirectUris := ["https://app.example.com/auth/callback"]
  magicLinkUrl := "https://app.example.com/auth/magic-link"
  allowedOrigins := ["https://admin.example.com"]

/-- A client with a page on the web and a listed origin. -/
theorem origins_secure_example :
    (∀ o, o ∈ Clients.origins exampleParse [exampleConfig] ↔ ∃ c ∈ [exampleConfig],
      o ∈ c.allowedOrigins ∨ ∃ url ∈ c.pages, ∃ u, Page exampleParse url u ∧
        (u.scheme = "http" ∨ u.scheme = "https") ∧ originOf u = some o) ∧
    (∀ c ∈ [exampleConfig], ∀ o ∈ c.allowedOrigins, ∃ u,
      exampleParse o = .ok u ∧ originOf u = some o) ∧
    ∀ c ∈ [exampleConfig], ∀ url ∈ c.pages, ∃ u, Page exampleParse url u ∧
      ((u.scheme = "http" ∨ u.scheme = "https") →
        u.scheme = "https" ∨ u.scheme = "http" ∧ u.isLoopback = true) :=
  origins_secure (by decide +kernel)

end Origins

end Bauth
