import Bauth.Config.Clients
import Bauth.Form.UrlEncoded
import Bauth.Serial.Consents
import Bauth.Serial.Logins

/-!
# Emailed links

A link in an email is the page of a client with `#token=` and a secret. The app that shows the page
reads the secret from the fragment and sends it back.
-/

namespace Bauth

open Transaction

/-! ### The app -/

/-- What a browser makes of the pages that the checks of the configuration let through. -/
structure Browser (parse : UrlParser) where
  /-- `new URL(url).hash`, if the URL can be parsed. -/
  hash : String → Option String
  /-- A URL that ends in a space or a control character is parsed without it, and may not be one
  with a fragment behind it. -/
  hash_fragment : ∀ {page : String} {u : Url} {fragment : String}, parse page = .ok u →
    u.fragment = none → page.toList.getLast?.all (' ' < ·) = true →
    (∀ c ∈ fragment.toList, c = '=' ∨ c ∈ base64UrlAlphabet) →
    hash (page ++ "#" ++ fragment) = some ("#" ++ fragment)

namespace Sdk

/-- `new URLSearchParams(text)`. -/
def searchParams (D : Form.Utf8Decoder) (text : List Char) : List (String × String) :=
  Form.read D (Form.utf8 (String.ofList (if text.head? = some '?' then text.drop 1 else text)))

/-- `none` for a URL that cannot be parsed. -/
def tokenFromUrl {parse : UrlParser} (B : Browser parse) (D : Form.Utf8Decoder) (url : String) :
    Option (Option String) := do
  let hash ← B.hash url
  return (searchParams D (hash.toList.drop 1)).lookup "token"

end Sdk

section Token

variable {parse : UrlParser} {page token : String} {u : Url}

/-- Checked letter by letter: deciding the statement itself would try every character. -/
lemma forall_of_all {P : Char → Prop} [DecidablePred P] {l : List Char}
    (h : (l.all fun c => decide (P c)) = true) : ∀ c ∈ l, P c :=
  fun c hc => of_decide_eq_true (List.all_eq_true.mp h c hc)

lemma escape_eq_utf8 {s : String} (h : ∀ c ∈ s.toList, c ∈ base64UrlAlphabet) :
    Form.escape s = Form.utf8 s := by
  have hall : ∀ c ∈ base64UrlAlphabet,
      (String.utf8EncodeChar c).flatMap Form.escapeByte = String.utf8EncodeChar c :=
    forall_of_all (by decide +kernel)
  rw [Form.escape, Form.utf8, List.flatMap_assoc]
  generalize s.toList = l at h
  induction l with
  | nil => rfl
  | cons c l ih =>
    obtain ⟨hc, hl⟩ := List.forall_mem_cons.mp h
    rw [List.flatMap_cons, List.flatMap_cons, ih hl, hall c hc]

/-- The fragment of a link is a form with the token. -/
lemma searchParams_token (D : Form.Utf8Decoder) (h : ∀ c ∈ token.toList, c ∈ base64UrlAlphabet) :
    Sdk.searchParams D ("token=".toList ++ token.toList) = [("token", token)] := by
  have hname : ∀ c ∈ "token".toList, c ∈ base64UrlAlphabet := forall_of_all (by decide +kernel)
  have hwrite : Form.utf8 (String.ofList ("token=".toList ++ token.toList)) =
      Form.write [("token", token)] := by
    rw [Form.write, Form.writePair, escape_eq_utf8 hname, escape_eq_utf8 h]
    have hequals : String.utf8EncodeChar '=' = [61] := by decide
    simp [Form.utf8, hequals]
  have hhead : ("token=".toList ++ token.toList).head? ≠ some '?' := by
    simp
  rw [Sdk.searchParams, if_neg hhead, hwrite, Form.read_write]

/-- The app reads the token that the server puts behind the page. -/
lemma tokenFromUrl_linkWith (B : Browser parse) (D : Form.Utf8Decoder) (hparse : parse page = .ok u)
    (hfragment : u.fragment = none) (hend : page.toList.getLast?.all (' ' < ·) = true)
    (htoken : ∀ c ∈ token.toList, c ∈ base64UrlAlphabet) :
    Sdk.tokenFromUrl B D (MagicLink.linkWith page token) = some (some token) := by
  have hlink : MagicLink.linkWith page token = page ++ "#" ++ ("token=" ++ token) := by
    apply String.toList_inj.mp
    simp [MagicLink.linkWith]
  have hplain : ∀ c ∈ ("token=" ++ token).toList, c = '=' ∨ c ∈ base64UrlAlphabet := by
    have hname : ∀ c ∈ "token=".toList, c = '=' ∨ c ∈ base64UrlAlphabet :=
      forall_of_all (by decide +kernel)
    intro c hc
    rw [String.toList_append] at hc
    rcases List.mem_append.mp hc with hc | hc
    · exact hname c hc
    · exact .inr (htoken c hc)
  have hhash := B.hash_fragment hparse hfragment hend hplain
  rw [Sdk.tokenFromUrl, hlink, hhash]
  have hdrop : ("#" ++ ("token=" ++ token)).toList.drop 1 = "token=".toList ++ token.toList := by
    simp
  rw [Option.bind_eq_bind, Option.bind_some, hdrop, searchParams_token D htoken]
  rfl

end Token

/-! ### The server -/

/-- Every client of the server is one of the file it started with, no page of theirs ends in a
space or a control character, and every secret is written in base64url, as random bytes are. -/
structure App.StartedFrom (app : App) (parse : UrlParser) (file : List ClientConfig) : Prop where
  clients : ∃ loaded, Clients.fromFile parse file = .ok loaded ∧
    app.clients = loaded.map ClientConfig.toClient
  pages : ∀ c ∈ file, ∀ url, url = c.magicLinkUrl ∨ url ∈ c.emailChangeUrl →
    url.toList.getLast?.all (' ' < ·) = true
  secrets : ∀ n, ∀ c ∈ (app.secret n).toList, c ∈ base64UrlAlphabet

/-- The page of a link. -/
def Email.link : Email → Option String
  | .magicLink _ _ link _ | .magicSignup _ _ link _ | .confirmEmailChange _ link => some link
  | .confirmationCode .. | .emailChanged .. | .accountDeleted .. => none

@[simp] lemma linkMail_link (client : Client) (userId : Option Uuid)
    (address token code : String) : (linkMail client userId address token code).link =
      some (MagicLink.linkWith client.magicLinkUrl token) := by
  cases userId <;> rfl

/-- The step mails the recipient a link in which the app reads a secret with this hash. -/
def Served.MailsToken {parse : UrlParser} (B : Browser parse) (D : Form.Utf8Decoder) (app : App)
    (q : Served) (recipient : String) (hash : Bytes) : Prop :=
  ∃ m url token, .sent m ∈ q.events ∧ m.recipient = recipient ∧ m.link = some url ∧
    Sdk.tokenFromUrl B D url = some (some token) ∧ app.hash token = hash

/-- The step mails such a link for a change to this address, spelled as the rate limits spell the
address that was asked for. -/
def Served.MailsChangeOf {parse : UrlParser} (B : Browser parse) (D : Form.Utf8Decoder) (app : App)
    (q : Served) (toEmail : String) (hash : Bytes) : Prop :=
  ∃ newEmail, q.request.newEmail = some newEmail ∧ toEmail = app.unicode.normalize newEmail ∧
    q.MailsToken B D app (app.unicode.emailKey newEmail) hash

section Server

variable {parse : UrlParser} {app : App} {file : List ClientConfig} {id url : String}
  {client : Client}

/-- The pages of a client are pages a link can be made of. -/
lemma App.StartedFrom.page (h : app.StartedFrom parse file) (hclient : app.client id = some client)
    (hurl : url = client.magicLinkUrl ∨ url ∈ client.emailChangeUrl) :
    ∃ u, Page parse url u ∧ url.toList.getLast?.all (' ' < ·) = true := by
  obtain ⟨loaded, hloaded, hclients⟩ := h.clients
  obtain ⟨rfl, hvalid, -⟩ := fromFile_eq_ok.mp hloaded
  have hmem := List.mem_of_find?_eq_some hclient
  rw [hclients] at hmem
  obtain ⟨c, hc, rfl⟩ := List.mem_map.mp hmem
  have hend := h.pages c hc url hurl
  rcases hurl with rfl | hchange
  · obtain ⟨u, hpage⟩ := (hvalid c hc).magicLinkUrl
    exact ⟨u, hpage, hend⟩
  · obtain ⟨u, hpage⟩ := (hvalid c hc).emailChangeUrl url hchange
    exact ⟨u, hpage, hend⟩

variable (B : Browser parse) (D : Form.Utf8Decoder) {p : Served}

lemma App.StartedFrom.reads (h : app.StartedFrom parse file) (hclient : app.client id = some client)
    (hurl : url = client.magicLinkUrl ∨ url ∈ client.emailChangeUrl) (n : Draw) :
    Sdk.tokenFromUrl B D (MagicLink.linkWith url (app.generateToken n).plain) =
      some (some (app.generateToken n).plain) := by
  obtain ⟨u, hpage, hend⟩ := h.page hclient hurl
  exact tokenFromUrl_linkWith B D hpage.parses hpage.noFragment hend (h.secrets n)

/-- The links after a step: those from before, and the one it mailed. -/
lemma App.StartedFrom.link (h : app.StartedFrom parse file) (hp : p.Of app)
    (huuid : Function.Injective app.uuid) (hreach : Reachable app p.before) :
    ∀ l ∈ p.after.db.magicLinks,
      (∃ l₀ ∈ p.before.db.magicLinks, l₀.asMailed = l.asMailed) ∨
        ∃ l₀ : MagicLink, p.MailsToken B D app l₀.email l₀.tokenHash ∧
          l₀.asMailed = l.asMailed := by
  by_cases hmail : ∃ ip flowId email, p.request = .requestMagicLink ip flowId email
  · obtain ⟨ip, flowId, email, hrequest⟩ := hmail
    have hout := hp.outcome huuid (hreach.keyed huuid)
    rw [hrequest] at hout
    generalize p.after.db = d', p.response = response, hevents : p.events = events at hout ⊢
    cases hout with
    | requestMagicLink hout =>
      cases hout with
      | @mailed f client userId hf hclient huser i j n hnew =>
        intro l hl
        rcases List.mem_append.mp hl with hl | hl
        · exact .inl ⟨l, hl, rfl⟩
        · obtain rfl := List.mem_singleton.mp hl
          have hsent : .sent (linkMail client userId (app.unicode.normalize email)
              (app.generateToken ⟨p.before.served, j⟩).plain
              (app.plainCode ⟨p.before.served, n⟩)) ∈ p.events := by
            rw [hevents]
            exact List.mem_singleton_self _
          refine .inr ⟨_, ⟨_, _, _, hsent, linkMail_recipient .., linkMail_link .., ?_, rfl⟩, rfl⟩
          exact h.reads B D hclient (.inl rfl) ⟨_, j⟩
      | _ => exact fun l hl => .inl ⟨l, hl, rfl⟩
  · exact fun l hl => .inl (mailed_before hp hmail l hl)

/-- The email changes after a step: those from before, and the one it mailed the link of. -/
lemma App.StartedFrom.change (h : app.StartedFrom parse file) (hp : p.Of app)
    (hids : p.before.db.UniqueIds) : ∀ e ∈ p.after.db.emailChanges,
      (∃ e₀ ∈ p.before.db.emailChanges, e₀.asRequested = e.asRequested) ∨
        ∃ e₀ : EmailChange, p.MailsChangeOf B D app e₀.toEmail e₀.tokenHash ∧
          e₀.asRequested = e.asRequested := by
  by_cases hchange : ∃ ip authorization code newEmail,
      p.request = .changeEmail ip authorization code newEmail
  · obtain ⟨ip, authorization, code, newEmail, hrequest⟩ := hchange
    obtain ⟨a, -, hout⟩ := hp.moveRequested hids hrequest
    generalize p.after.db = d', hevents : p.events = events at hout ⊢
    cases hout with
    | refused => exact fun e he => .inl ⟨e, he, rfl⟩
    | wrong => exact fun e he => .inl ⟨e, he, rfl⟩
    | spent => exact fun e he => .inl ⟨e, he, rfl⟩
    | @mailed user c client page hconsent hvalid hclient hpage i j hnew _ hmail =>
      have hurl : page ∈ client.emailChangeUrl := by
        unfold EmailChange.page at hpage
        split at hpage
        · cases hpage
          assumption
        · cases hpage
      intro e he
      rcases List.mem_append.mp he with he | he
      · exact .inl ⟨e, he, rfl⟩
      · obtain rfl := List.mem_singleton.mp he
        refine .inr ⟨_, ⟨newEmail, by rw [hrequest]; rfl, rfl,
          ⟨_, _, _, hevents ▸ hmail, rfl, rfl, ?_, rfl⟩⟩, rfl⟩
        exact h.reads B D hclient (.inr hurl) ⟨_, j⟩
  · exact fun e he => .inl (requested_before hp hchange e he)

end Server

/-- In every run, each magic link and each email change in the database was mailed, as a link in
which the app reads the secret of the row. The mail of a change goes to its new address, unless the
rate limits spell the address that was asked for another way than the database. -/
theorem links_reach_apps {parse : UrlParser} (B : Browser parse) (D : Form.Utf8Decoder) {app : App}
    {file : List ClientConfig} (hstart : app.StartedFrom parse file)
    (huuid : Function.Injective app.uuid) {clock : Time} {steps : List Served} {s : Server}
    (hrun : Run app { db := {}, served := 0, clock } steps s) :
    (∀ l ∈ s.db.magicLinks, ∃ q ∈ steps, q.MailsToken B D app l.email l.tokenHash) ∧
      ∀ e ∈ s.db.emailChanges, ∃ q ∈ steps, ∃ newEmail, q.request.newEmail = some newEmail ∧
        e.toEmail = app.unicode.normalize newEmail ∧
        q.MailsToken B D app (app.unicode.emailKey newEmail) e.tokenHash ∧
        (app.unicode.agrees newEmail = true → q.MailsToken B D app e.toEmail e.tokenHash) := by
  have hpath := hrun.path (.start app clock)
  constructor
  · intro l hl
    obtain ⟨a, q, b, l₀, rfl, hmails, hsame⟩ := hpath.born (fun s => s.db.magicLinks)
      MagicLink.asMailed (fun p l => p.MailsToken B D app l.email l.tokenHash) rfl
      (fun p hp => hstart.link B D hp.1 huuid hp.2) l hl
    refine ⟨q, by simp, ?_⟩
    have hemail : l₀.email = l.email := by
      have hrow := congrArg MagicLink.email hsame
      exact hrow
    have hhash : l₀.tokenHash = l.tokenHash := by
      have hrow := congrArg MagicLink.tokenHash hsame
      exact hrow
    rw [← hemail, ← hhash]
    exact hmails
  · intro e he
    obtain ⟨a, q, b, e₀, rfl, ⟨newEmail, hrequest, hto, hmails⟩, hsame⟩ := hpath.born
      (fun s => s.db.emailChanges) EmailChange.asRequested
      (fun p e => p.MailsChangeOf B D app e.toEmail e.tokenHash) rfl
      (fun p hp => hstart.change B D hp.1 (hp.2.keyed huuid).uniqueIds) e he
    have hto' : e₀.toEmail = e.toEmail := by
      have hrow := congrArg EmailChange.toEmail hsame
      exact hrow
    have hhash : e₀.tokenHash = e.tokenHash := by
      have hrow := congrArg EmailChange.tokenHash hsame
      exact hrow
    rw [hto'] at hto
    rw [hhash] at hmails
    refine ⟨q, by simp, newEmail, hrequest, hto, hmails, fun hagrees => ?_⟩
    rw [hto, ← (app.unicode.emailKey_eq_normalize_iff newEmail).mpr hagrees]
    exact hmails

section Example

def exampleFile : List ClientConfig := [{ toClient := exampleClient }, { toClient := otherClient }]

lemma dropWhile_fragment {page rest : List Char} (h : '#' ∉ page) :
    (page ++ '#' :: rest).dropWhile (· ≠ '#') = '#' :: rest := by
  rw [List.dropWhile_append_of_pos]
  · simp
  · rintro c hc
    simp
    rintro rfl
    exact h hc

def exampleBrowser : Browser exampleParse where
  hash url := some (String.ofList (url.toList.dropWhile (· ≠ '#')))
  hash_fragment {page u fragment} hparse hfragment _ _ := by
    have hno : '#' ∉ page.toList := by
      unfold exampleParse at hparse
      split_ifs at hparse with hscheme
      cases hparse
      intro hmem
      rw [← List.take_append_drop 8 page.toList, hscheme] at hmem
      rcases List.mem_append.mp hmem with hmem | hmem
      · revert hmem
        decide
      · simp [hmem] at hfragment
    simp only [String.toList_append, List.append_assoc]
    rw [show "#".toList ++ fragment.toList = '#' :: fragment.toList from rfl,
      dropWhile_fragment hno]
    apply congrArg some
    apply String.toList_inj.mp
    simp

lemma exampleApp_startedFrom : exampleApp.StartedFrom exampleParse exampleFile where
  clients := ⟨exampleFile, by decide +kernel, rfl⟩
  pages c hc url hurl := by
    have hpages : ∀ c ∈ exampleFile, ∀ url ∈ c.magicLinkUrl :: c.emailChangeUrl.toList,
        url.toList.getLast?.all (' ' < ·) = true := by
      decide +kernel
    refine hpages c hc url (List.mem_cons.mpr (hurl.imp_right ?_))
    exact Option.mem_toList.mpr
  secrets n c hc := by
    have hletters : 'p' ∈ base64UrlAlphabet ∧ '-' ∈ base64UrlAlphabet ∧
        'i' ∈ base64UrlAlphabet := by
      decide +kernel
    simp only [exampleApp, String.toList_ofList, List.mem_append, List.mem_cons,
      List.mem_replicate] at hc
    rcases hc with ⟨-, rfl⟩ | rfl | ⟨-, rfl⟩
    · exact hletters.1
    · exact hletters.2.1
    · exact hletters.2.2

/-- An account logs in by a link, and asks for a link to move. -/
def exampleMails : List Served × Server :=
  script exampleApp exampleReply Server.empty (exampleMove "cy@x.fr")

/-- The app reads the secret of the change from the link mailed to the new address. -/
theorem links_reach_apps_example :
    (∀ l ∈ exampleMails.2.db.magicLinks, ∃ q ∈ exampleMails.1,
      q.MailsToken exampleBrowser Form.strict exampleApp l.email l.tokenHash) ∧
    ∃ e ∈ exampleMails.2.db.emailChanges, e.toEmail = "cy@x.fr" ∧ ∃ q ∈ exampleMails.1,
      q.MailsToken exampleBrowser Form.strict exampleApp "cy@x.fr" e.tokenHash := by
  have hrun : Run exampleApp { db := {}, served := 0, clock := 0 } exampleMails.1 exampleMails.2 :=
    script_run (s := Server.empty) (by decide)
  obtain ⟨hlinks, hchanges⟩ := links_reach_apps exampleBrowser Form.strict exampleApp_startedFrom
    exampleApp_uuid_injective hrun
  have hmoving : (exampleMails.2.db.emailChanges.any fun e => e.toEmail = "cy@x.fr") = true := by
    decide +kernel
  have hspelled : ∀ p ∈ exampleMails.1, ∀ newEmail ∈ p.request.newEmail,
      exampleApp.unicode.agrees newEmail = true := by
    decide +kernel
  simp only [List.any_eq_true, decide_eq_true_eq] at hmoving
  obtain ⟨e, he, hto⟩ := hmoving
  obtain ⟨q, hq, newEmail, hrequest, -, -, hmail⟩ := hchanges e he
  exact ⟨hlinks, e, he, hto, q, hq, hto ▸ hmail (hspelled q hq newEmail hrequest)⟩

end Example

end Bauth
