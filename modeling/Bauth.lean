import Bauth.Transaction.Program
import Bauth.Transaction.Table
import Bauth.Model.Address
import Bauth.Model.Database
import Bauth.Model.Server
import Bauth.Model.Schema
import Bauth.Queries.Users
import Bauth.Queries.LoginFlows
import Bauth.Queries.MagicLinks
import Bauth.Queries.AuthorizationCodes
import Bauth.Queries.Sessions
import Bauth.Queries.RefreshTokens
import Bauth.Queries.EmailChanges
import Bauth.Queries.Confirmations
import Bauth.Routes.Login
import Bauth.Routes.MagicLink
import Bauth.Routes.OAuth
import Bauth.Routes.Me
import Bauth.Jobs.Purge
import Bauth.Server
import Bauth.Transaction.Alone
import Bauth.Transaction.Sends
import Bauth.Transaction.Log
import Bauth.Concurrent.Flows
import Bauth.Rows.Step
import Bauth.Rows.Sent
import Bauth.Rows.Handlers
import Bauth.Rows.Mails
import Bauth.Alone.Handler
import Bauth.Jobs.Retention
import Bauth.Alone.Refresh
import Bauth.Alone.Served
import Bauth.Alone.Exchange
import Bauth.Alone.Login
import Bauth.Alone.Me
import Bauth.Serial.Refusal
import Bauth.Serial.Script
import Bauth.Alone.Outcome
import Bauth.Serial.Tokens
import Bauth.Serial.Exchanges
import Bauth.Serial.Theft
import Bauth.Serial.Tabs
import Bauth.Serial.Honest
import Bauth.Transition.System
import Bauth.Client.Verifier
import Bauth.Client.Freshness
import Bauth.Concurrent.Exchanges
import Bauth.Concurrent.Links
import Bauth.Concurrent.Death
import Bauth.Concurrent.Purge
import Bauth.Concurrent.Selection
import Bauth.Keys.Agreement
import Bauth.Keys.Lifetime
import Bauth.Keys.Verifiable
import Bauth.Sdk.Overlap
import Bauth.Sdk.Wrappers
import Bauth.Sdk.Wasted
import Bauth.Sdk.InStep
import Bauth.Serial.Budget
import Bauth.Serial.Addresses
import Bauth.Serial.Stale
import Bauth.Serial.Inbox
import Bauth.Serial.Elsewhere
import Bauth.Transaction.References
import Bauth.Transaction.Forest
import Bauth.Transition.History
import Bauth.Serial.Logins
import Bauth.Serial.Integrity
import Bauth.Serial.Erasure
import Bauth.Serial.Coherence
import Bauth.Serial.Trees
import Bauth.Serial.Consents
import Bauth.Transition.Budget
import Bauth.Serial.Kept
import Bauth.Serial.Guesses
import Bauth.Model.ClientIp
import Bauth.Forwarding.Text
import Bauth.Forwarding.Walk
import Bauth.Forwarding.Canonical
import Bauth.Forwarding.Forged
import Bauth.Codes.RandomBelow
import Bauth.Form.UrlEncoded
import Bauth.Json.Text
import Bauth.Wire.Errors
import Bauth.Wire.Token
import Bauth.Wire.Stores
import Bauth.Config.Clients
import Bauth.Wire.Links
import Bauth.Sdk.Pkce
import Bauth.Sdk.TokenExpiry
import Bauth.Client.Bearer
