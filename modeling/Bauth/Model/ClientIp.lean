import Bauth.Model.Server

/-!
# The end user's address

`ClientIp`: the address of the TCP peer or, behind a trusted proxy, the one `X-Forwarded-For`
leads to. Texts are lists of characters; `IpAddr::from_str` and the `Display` of the address types
are written out as the standard library has them.
-/

namespace Bauth

/-! ### Addresses -/

structure Ipv4Addr where
  a : UInt8
  b : UInt8
  c : UInt8
  d : UInt8
  deriving DecidableEq, Repr

/-- The eight segments of an IPv6 address. -/
structure Ipv6Addr where
  s0 : UInt16
  s1 : UInt16
  s2 : UInt16
  s3 : UInt16
  s4 : UInt16
  s5 : UInt16
  s6 : UInt16
  s7 : UInt16
  deriving DecidableEq, Repr

inductive IpAddr where
  | v4 (ip : Ipv4Addr)
  | v6 (ip : Ipv6Addr)
  deriving DecidableEq, Repr

/-- `u16::from_be_bytes`. -/
def fromBeBytes (hi lo : UInt8) : UInt16 := UInt16.ofNat (hi.toNat * 256 + lo.toNat)

/-- `Ipv4Addr::to_ipv6_mapped`: `::ffff:a.b.c.d`. -/
def Ipv4Addr.toIpv6Mapped (ip : Ipv4Addr) : Ipv6Addr :=
  ⟨0, 0, 0, 0, 0, 0xffff, fromBeBytes ip.a ip.b, fromBeBytes ip.c ip.d⟩

def Ipv6Addr.toIpv4Mapped (ip : Ipv6Addr) : Option Ipv4Addr :=
  if ip.s0 = 0 ∧ ip.s1 = 0 ∧ ip.s2 = 0 ∧ ip.s3 = 0 ∧ ip.s4 = 0 ∧ ip.s5 = 0xffff then
    some ⟨UInt8.ofNat (ip.s6.toNat / 256), UInt8.ofNat ip.s6.toNat,
      UInt8.ofNat (ip.s7.toNat / 256), UInt8.ofNat ip.s7.toNat⟩
  else
    none

def Ipv6Addr.segments (ip : Ipv6Addr) : List UInt16 :=
  [ip.s0, ip.s1, ip.s2, ip.s3, ip.s4, ip.s5, ip.s6, ip.s7]

def Ipv6Addr.ofSegments : List UInt16 → Option Ipv6Addr
  | [s0, s1, s2, s3, s4, s5, s6, s7] => some ⟨s0, s1, s2, s3, s4, s5, s6, s7⟩
  | _ => none

@[simp] lemma Ipv4Addr.toIpv4Mapped_toIpv6Mapped (ip : Ipv4Addr) :
    ip.toIpv6Mapped.toIpv4Mapped = some ip := by
  have hhi (x y : UInt8) : UInt8.ofNat ((fromBeBytes x y).toNat / 256) = x := by
    rw [← UInt8.toNat_inj]
    have hx := x.toNat_lt
    have hy := y.toNat_lt
    simp only [fromBeBytes, UInt16.toNat_ofNat', UInt8.toNat_ofNat']
    omega
  have hlo (x y : UInt8) : UInt8.ofNat (fromBeBytes x y).toNat = y := by
    rw [← UInt8.toNat_inj]
    have hx := x.toNat_lt
    have hy := y.toNat_lt
    simp only [fromBeBytes, UInt16.toNat_ofNat', UInt8.toNat_ofNat']
    omega
  simp [toIpv6Mapped, Ipv6Addr.toIpv4Mapped, hhi, hlo]

/-! ### Writing an address -/

def decimal (n : ℕ) : List Char := Nat.toDigits 10 n

/-- `{:x}`. -/
def hexadecimal (n : ℕ) : List Char := Nat.toDigits 16 n

def Ipv4Addr.display (ip : Ipv4Addr) : List Char :=
  decimal ip.a.toNat ++ '.' :: decimal ip.b.toNat ++ '.' :: decimal ip.c.toNat ++
    '.' :: decimal ip.d.toNat

/-- The start and length of the longest run of zero segments, the first one of that length. The
run being read starts at `current` and is `len` long, and `i` segments have been read. -/
def longestZeroRun (best : ℕ × ℕ) (current len i : ℕ) : List UInt16 → ℕ × ℕ
  | [] => best
  | s :: rest =>
    if s = 0 then
      let start := if len = 0 then i else current
      longestZeroRun (if best.2 < len + 1 then (start, len + 1) else best) start (len + 1) (i + 1)
        rest
    else
      longestZeroRun best current 0 (i + 1) rest

/-- `fmt_subslice`. -/
def displaySegments (chunk : List UInt16) : List Char :=
  List.intercalate [':'] (chunk.map fun s => hexadecimal s.toNat)

def Ipv6Addr.display (ip : Ipv6Addr) : List Char :=
  match ip.toIpv4Mapped with
  | some ip => "::ffff:".toList ++ ip.display
  | none =>
    let zeroes := longestZeroRun (0, 0) 0 0 0 ip.segments
    if 1 < zeroes.2 then
      displaySegments (ip.segments.take zeroes.1) ++ "::".toList ++
        displaySegments (ip.segments.drop (zeroes.1 + zeroes.2))
    else
      displaySegments ip.segments

/-! ### Reading an address -/

/-- What a reader takes from the front of a text: a value and the rest. -/
abbrev Reader (α : Type) := List Char → Option (α × List Char)

/-- `char::to_digit`. -/
def toDigit (radix : ℕ) (c : Char) : Option ℕ :=
  let n :=
    if '0' ≤ c ∧ c ≤ '9' then c.toNat - '0'.toNat
    else if 'a' ≤ c ∧ c ≤ 'z' then c.toNat - 'a'.toNat + 10
    else if 'A' ≤ c ∧ c ≤ 'Z' then c.toNat - 'A'.toNat + 10
    else radix
  if n < radix then some n else none

/-- `read_number`, for numbers below `bound`. -/
def readNumber (radix maxDigits : ℕ) (allowZeroPrefix : Bool) (bound : ℕ) : Reader ℕ := fun s =>
  let digits := (s.takeWhile fun c => (toDigit radix c).isSome).filterMap (toDigit radix)
  let n := digits.foldl (fun n digit => n * radix + digit) 0
  if digits.length = 0 ∨ maxDigits < digits.length then none
  else if !allowZeroPrefix ∧ s.head? = some '0' ∧ 1 < digits.length then none
  else if n < bound then some (n, s.drop digits.length)
  else none

/-- `read_given_char`. -/
def readGivenChar (c : Char) : Reader Unit
  | x :: s => if x = c then some ((), s) else none
  | [] => none

/-- `read_separator`: nothing stands before the first item. -/
def readSeparator {α : Type} (sep : Char) (first : Bool) (inner : Reader α) : Reader α := fun s =>
  if first then inner s
  else do
    let (_, s) ← readGivenChar sep s
    inner s

/-- `read_ipv4_addr`. -/
def readIpv4Addr : Reader Ipv4Addr := fun s => do
  let group (first : Bool) := readSeparator '.' first (readNumber 10 3 false 256)
  let (a, s) ← group true s
  let (b, s) ← group false s
  let (c, s) ← group false s
  let (d, s) ← group false s
  pure (⟨UInt8.ofNat a, UInt8.ofNat b, UInt8.ofNat c, UInt8.ofNat d⟩, s)

/-- `read_groups`: up to `n` groups, whether the last two came from an IPv4 address, and the
rest. -/
def readGroups (first : Bool) (s : List Char) : ℕ → List UInt16 × Bool × List Char
  | 0 => ([], false, s)
  | n + 1 =>
    match (if 0 < n then readSeparator ':' first readIpv4Addr s else none) with
    | some (ip, s) => ([fromBeBytes ip.a ip.b, fromBeBytes ip.c ip.d], true, s)
    | none =>
      match readSeparator ':' first (readNumber 16 4 true 65536) s with
      | some (g, s) =>
        let (groups, ipv4, s) := readGroups false s n
        (UInt16.ofNat g :: groups, ipv4, s)
      | none => ([], false, s)

/-- `read_ipv6_addr`: the groups before `::`, or all eight, then those after it. -/
def readIpv6Addr : Reader Ipv6Addr := fun s => do
  let (head, ipv4, s) := readGroups true s 8
  if head.length = 8 then
    let ip ← Ipv6Addr.ofSegments head
    pure (ip, s)
  else if ipv4 then
    none
  else
    let (_, s) ← readGivenChar ':' s
    let (_, s) ← readGivenChar ':' s
    let (tail, _, s) := readGroups true s (7 - head.length)
    let ip ← Ipv6Addr.ofSegments
      (head ++ List.replicate (8 - head.length - tail.length) 0 ++ tail)
    pure (ip, s)

/-- `IpAddr::from_str`: the whole text is one address. -/
def IpAddr.parse (s : List Char) : Option IpAddr :=
  let ip := match readIpv4Addr s with
    | some (ip, rest) => some (IpAddr.v4 ip, rest)
    | none => (readIpv6Addr s).map fun (ip, rest) => (IpAddr.v6 ip, rest)
  match ip with
  | some (ip, []) => some ip
  | _ => none

/-! ### The client of a request -/

/-- `ClientIp::key`. -/
def IpAddr.key : IpAddr → List Char
  | v4 ip => ip.display
  | v6 ip =>
    match ip.toIpv4Mapped with
    | some ip => ip.display
    -- One IPv6 user usually owns a whole /64: limit the prefix, not each address.
    | none => (Ipv6Addr.mk ip.s0 ip.s1 ip.s2 ip.s3 0 0 0 0).display ++ "/64".toList

/-- `str::trim`. -/
def trim (s : List Char) : List Char := (s.dropWhile isWhitespace).rdropWhile isWhitespace

/-- `parse_trusted_proxies`. -/
def parseTrustedProxies (value : List Char) : Except String (List IpAddr) :=
  (((value.splitOn ',').map trim).filter fun ip => !ip.isEmpty).mapM fun ip =>
    match IpAddr.parse ip with
    | some ip => .ok ip
    | none => .error s!"BAUTH_TRUSTED_PROXIES: `{String.ofList ip}` is not an IP address"

/-- The hops of `X-Forwarded-For`, the closest first; `none` is a hop that is not an address. -/
def hops (forwardedFor : List Char) : List (Option IpAddr) :=
  (((forwardedFor.splitOn ',').map trim).reverse).map IpAddr.parse

/-- The loop of `resolve`. -/
def walk (trusted : List IpAddr) (client : IpAddr) : List (Option IpAddr) → IpAddr
  | some ip :: rest => if trusted.contains ip then walk trusted ip rest else ip
  | none :: _ => client
  | [] => client

/-- `resolve`: walks `X-Forwarded-For` from the closest hop and stops at the first address not
trusted. -/
def resolve (peer : IpAddr) (forwardedFor : List Char) (trusted : List IpAddr) : IpAddr :=
  if trusted.contains peer then walk trusted peer (hops forwardedFor) else peer

/-- The bytes `HeaderValue::to_str` takes: printable ASCII and tab. -/
def visibleAscii (b : UInt8) : Bool := (32 ≤ b && b < 127) || b = 9

/-- `HeaderValue::to_str`. -/
def headerText (value : Bytes) : Option (List Char) :=
  if value.all visibleAscii then some (value.map fun b => Char.ofNat b.toNat) else none

/-- `ClientIp::from_request_parts`, for a peer and the `x-forwarded-for` lines in order. -/
def clientIp (peer : IpAddr) (lines : List Bytes) (trusted : List IpAddr) : IpAddr :=
  resolve peer (List.intercalate [','] (lines.filterMap headerText)) trusted

example : (IpAddr.parse "::ffff:203.0.113.7".toList).map IpAddr.key =
    some "203.0.113.7".toList := by decide +kernel
example : (IpAddr.parse "2001:db8:1:2:aaaa:bbbb:cccc:dddd".toList).map IpAddr.key =
    some "2001:db8:1:2::/64".toList := by decide +kernel

end Bauth
