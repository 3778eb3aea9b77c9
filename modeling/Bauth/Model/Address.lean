import Mathlib.Data.List.DropRight

/-!
# Email addresses

An address is normalised in two places: `email_key` in Rust and `lower(btrim(…))` in SQL. Both
strip U+0020 only, but Rust's `to_lowercase` is the full Unicode mapping and SQL's `lower` the
simple one, which keeps one code point for each.
-/

namespace Bauth

/-- The Unicode tables the two normalisations read. `lower` is the simple lower-case mapping. -/
structure Unicode where
  lower : Char → Char
  cased : Char → Bool
  caseIgnorable : Char → Bool
  lower_dotted : lower 'İ' = 'i'
  lower_sigma : lower 'Σ' = 'σ'

/-- Strip the spaces around an address, as `trim_matches(' ')` and `btrim` do. -/
def trimSpaces (s : List Char) : List Char :=
  (s.dropWhile (· = ' ')).rdropWhile (· = ' ')

namespace Unicode

variable (u : Unicode)

/-- SQL `lower(btrim(s))`. -/
def normalize (s : String) : String :=
  String.ofList ((trimSpaces s.toList).map u.lower)

/-- The full mapping of one character other than `Σ`. -/
def fullLower (c : Char) : List Char :=
  if c = 'İ' then ['i', '\u0307'] else [u.lower c]

/-- Does a cased character come first, case-ignorable ones skipped? -/
def ignorableThenCased (s : List Char) : Bool :=
  match s.dropWhile u.caseIgnorable with
  | c :: _ => u.cased c
  | [] => false

/-- Is a `Σ` read after `before` (last character first) and followed by `rest` the end of a word? -/
def wordFinal (before rest : List Char) : Bool :=
  u.ignorableThenCased before && !u.ignorableThenCased rest

/-- `str::to_lowercase`, with the characters already read in `before`, last one first. -/
def toLowercaseFrom (before : List Char) : List Char → List Char
  | [] => []
  | c :: rest =>
    (if c = 'Σ' then (if u.wordFinal before rest then ['ς'] else ['σ']) else u.fullLower c) ++
      toLowercaseFrom (c :: before) rest

/-- `rate_limit::email_key`. -/
def emailKey (s : String) : String :=
  String.ofList (u.toLowercaseFrom [] (trimSpaces s.toList))

end Unicode

/-! ### Accepted addresses -/

/-- RFC 5321 limit for a full address. -/
def maxLen : ℕ := 254

/-- `char::is_whitespace`: the characters with the property White_Space. -/
def isWhitespace (c : Char) : Bool :=
  (9 ≤ c.val && c.val ≤ 13) || c.val = 0x20 || c.val = 0x85 || c.val = 0xA0 || c.val = 0x1680 ||
    (0x2000 ≤ c.val && c.val ≤ 0x200A) || c.val = 0x2028 || c.val = 0x2029 || c.val = 0x202F ||
    c.val = 0x205F || c.val = 0x3000

/-- `char::is_control`: the general category Cc. -/
def isControl (c : Char) : Bool :=
  c.val ≤ 0x1F || (0x7F ≤ c.val && c.val ≤ 0x9F)

/-- The bytes UTF-8 takes for a text. -/
def utf8Len (s : List Char) : ℕ := s.foldr (fun c n => c.utf8Size + n) 0

/-- The shape asked of the two sides of the first `@`. -/
def validParts (localPart domain : List Char) : Bool :=
  !localPart.isEmpty && !domain.contains '@' && domain.contains '.' &&
    domain.head? != some '.' && domain.getLast? != some '.'

/-- `email::is_valid`. -/
def isValidEmail (email : String) : Bool :=
  let s := trimSpaces email.toList
  utf8Len s ≤ maxLen && !s.any (fun c => isWhitespace c || isControl c) &&
    match s.dropWhile (· ≠ '@') with
    | _ :: domain => validParts (s.takeWhile (· ≠ '@')) domain
    | [] => false

example : isValidEmail "  Alice+test@Mail.Example.com " = true := by decide
example : isValidEmail "alice@.fr" = false := by decide

namespace Unicode

variable (u : Unicode)

/-! ### When the two normalisations agree -/

/-- No character of the address is mapped apart by the two lower-casings: no `İ`, and no `Σ` at
the end of a word. -/
def agreesFrom (before : List Char) : List Char → Bool
  | [] => true
  | c :: rest =>
    c ≠ 'İ' && !(c = 'Σ' && u.wordFinal before rest) && agreesFrom (c :: before) rest

/-- The addresses on which SQL and Rust agree. -/
def agrees (s : String) : Bool := u.agreesFrom [] (trimSpaces s.toList)

lemma length_toLowercaseFrom (before s : List Char) :
    s.length ≤ (u.toLowercaseFrom before s).length := by
  induction s generalizing before with
  | nil => simp
  | cons c rest ih =>
    have := ih (c :: before)
    simp only [toLowercaseFrom, fullLower, List.length_append, List.length_cons]
    split_ifs <;> simp <;> omega

/-- Rust's lower-casing is the simple mapping exactly when no `İ` and no final `Σ` occurs. -/
lemma toLowercaseFrom_eq_map_iff (before s : List Char) :
    u.toLowercaseFrom before s = s.map u.lower ↔ u.agreesFrom before s = true := by
  induction s generalizing before with
  | nil => simp [toLowercaseFrom, agreesFrom]
  | cons c rest ih =>
    simp only [toLowercaseFrom, agreesFrom, List.map_cons, Bool.and_eq_true, ← ih]
    by_cases hsigma : c = 'Σ'
    · subst hsigma
      by_cases hfinal : u.wordFinal before rest = true
      · simp [hfinal, u.lower_sigma]
      · simp [hfinal, u.lower_sigma]
    · by_cases hdot : c = 'İ'
      · subst hdot
        have hlen := u.length_toLowercaseFrom ('İ' :: before) rest
        have hne : ¬ '\u0307' :: u.toLowercaseFrom ('İ' :: before) rest = rest.map u.lower := by
          intro h
          have := congrArg List.length h
          simp at this
          omega
        simp [fullLower, u.lower_dotted, hne]
      · simp [hsigma, hdot, fullLower]

/-- The rate limit key is the address the database stores exactly when `agrees` holds. -/
theorem emailKey_eq_normalize_iff (s : String) :
    u.emailKey s = u.normalize s ↔ u.agrees s = true := by
  simp [emailKey, normalize, agrees, ← toLowercaseFrom_eq_map_iff, String.ofList_inj]

end Unicode

end Bauth
