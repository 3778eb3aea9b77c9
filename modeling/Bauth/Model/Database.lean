import Bauth.Transaction.Program
import Bauth.Transaction.Table

/-!
# The database

One structure per table of the migrations, with the columns some query reads or writes, and the
whole schema `bauth` as a record of tables. A table is the list of its rows in no relevant order.
Token and code hashes are byte strings.
-/

namespace Bauth

open Transaction

/-- A row identifier drawn by `uuidv7()`. -/
abbrev Uuid := ℕ

abbrev Bytes := List UInt8

/-! ### Durations -/

def seconds (n : ℤ) : Time := n * 1000000
def minutes (n : ℤ) : Time := seconds (n * 60)
def hours (n : ℤ) : Time := minutes (n * 60)
def days (n : ℤ) : Time := hours (n * 24)

/-! ### Rows -/

structure User where
  id : Uuid
  email : String
  emailVerifiedAt : Option Time
  disabledAt : Option Time
  createdAt : Time
  updatedAt : Time
  deriving DecidableEq, Repr

structure LoginFlow where
  id : Uuid
  clientId : String
  redirectUri : String
  codeChallenge : String
  state : Option String
  magicLinkRequests : ℕ
  expiresAt : Time
  completedAt : Option Time
  createdAt : Time
  deriving DecidableEq, Repr

structure MagicLink where
  id : Uuid
  flowId : Uuid
  /-- `none`: sent to an address without an account. -/
  userId : Option Uuid
  email : String
  tokenHash : Bytes
  codeHash : Bytes
  codeFailures : ℕ
  expiresAt : Time
  consumedAt : Option Time
  createdAt : Time
  deriving DecidableEq, Repr

structure AuthorizationCode where
  id : Uuid
  codeHash : Bytes
  flowId : Uuid
  userId : Uuid
  expiresAt : Time
  consumedAt : Option Time
  createdAt : Time
  deriving DecidableEq, Repr

structure Session where
  id : Uuid
  userId : Uuid
  clientId : String
  authorizationCodeId : Option Uuid
  expiresAt : Time
  revokedAt : Option Time
  createdAt : Time
  deriving DecidableEq, Repr

structure RefreshToken where
  id : Uuid
  sessionId : Uuid
  /-- The token this one was rotated from, `none` for the first token of a session. -/
  parentId : Option Uuid
  tokenHash : Bytes
  rotatedAt : Option Time
  supersededAt : Option Time
  createdAt : Time
  deriving DecidableEq, Repr

structure EmailChange where
  id : Uuid
  userId : Uuid
  fromEmail : String
  toEmail : String
  tokenHash : Bytes
  expiresAt : Time
  consumedAt : Option Time
  createdAt : Time
  deriving DecidableEq, Repr

structure Confirmation where
  id : Uuid
  userId : Uuid
  sessionId : Uuid
  action : String
  email : String
  codeHash : Bytes
  codeFailures : ℕ
  expiresAt : Time
  consumedAt : Option Time
  createdAt : Time
  deriving DecidableEq, Repr

structure SigningKeyRow where
  id : Uuid
  publicKey : Bytes
  encryptedPrivateKey : Bytes
  activeAt : Time
  retiredAt : Option Time
  deriving DecidableEq, Repr

structure Database where
  users : List User := []
  loginFlows : List LoginFlow := []
  magicLinks : List MagicLink := []
  authorizationCodes : List AuthorizationCode := []
  sessions : List Session := []
  refreshTokens : List RefreshToken := []
  emailChanges : List EmailChange := []
  confirmations : List Confirmation := []
  signingKeys : List SigningKeyRow := []
  deriving DecidableEq, Repr

end Bauth
