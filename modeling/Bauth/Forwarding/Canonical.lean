import Bauth.Forwarding.Text
import Bauth.Forwarding.Walk

/-!
# The two forms of an IPv4 address

`ClientIp::key` reads `::ffff:a.b.c.d` as `a.b.c.d`; `resolve` compares addresses as they are
written. A proxy listed in one form and met in the other is not trusted, and the walk stops there.
-/

namespace Bauth

namespace IpAddr

/-- The IPv4 form of an IPv4-mapped address, any other address itself. -/
def canonical : IpAddr → IpAddr
  | v4 ip => v4 ip
  | v6 ip =>
    match ip.toIpv4Mapped with
    | some ip => v4 ip
    | none => v6 ip

@[simp] lemma canonical_mapped (ip : Ipv4Addr) : canonical (v6 ip.toIpv6Mapped) = v4 ip := by
  simp [canonical]

/-- The key of an address does not depend on its form. -/
@[simp] lemma key_canonical (a : IpAddr) : a.canonical.key = a.key := by
  cases a with
  | v4 ip => rfl
  | v6 ip => cases h : ip.toIpv4Mapped <;> simp [canonical, key, h]

end IpAddr

/-- Is `a` in the list, in one form or the other? -/
def TrustedInSomeForm (trusted : List IpAddr) (a : IpAddr) : Prop :=
  a.canonical ∈ trusted.map IpAddr.canonical

instance (trusted : List IpAddr) : DecidablePred (TrustedInSomeForm trusted) :=
  fun a => inferInstanceAs (Decidable (a.canonical ∈ trusted.map IpAddr.canonical))

lemma TrustedInSomeForm.of_mem {trusted : List IpAddr} {a : IpAddr} (h : a ∈ trusted) :
    TrustedInSomeForm trusted a := List.mem_map_of_mem h

lemma leave_canonical (trusted : List IpAddr) (x : IpAddr) (rest : List IpAddr) :
    leave (· ∈ trusted.map IpAddr.canonical) x.canonical (rest.map IpAddr.canonical) =
      (leave (TrustedInSomeForm trusted) x rest).canonical := by
  induction rest generalizing x with
  | nil => rfl
  | cons y rest ih =>
    by_cases hx : TrustedInSomeForm trusted x
    · have hx' : x.canonical ∈ trusted.map IpAddr.canonical := hx
      simp only [List.map_cons, leave, if_pos hx, if_pos hx']
      exact ih y
    · have hx' : x.canonical ∉ trusted.map IpAddr.canonical := hx
      simp only [List.map_cons, leave, if_neg hx, if_neg hx']

/-- Where the first address of the chain that is not listed as written is listed in its other
form, the chain goes on, through addresses listed in some form, to one with the same key. -/
def FormsAgree (trusted chain : List IpAddr) : Prop :=
  ∀ before a after, chain = before ++ a :: after → (∀ x ∈ before, x ∈ trusted) → a ∉ trusted →
    TrustedInSomeForm trusted a → ∀ between b rest, after = between ++ b :: rest →
      (∀ x ∈ between, TrustedInSomeForm trusted x) →
      (TrustedInSomeForm trusted b → rest = []) → b.key = a.key

/-- Read by form or as written, a chain is left under one key exactly when its forms agree. -/
lemma key_leave_iff (trusted : List IpAddr) (x : IpAddr) (rest : List IpAddr) :
    (leave (TrustedInSomeForm trusted) x rest).key = (leave (· ∈ trusted) x rest).key ↔
      FormsAgree trusted (x :: rest) := by
  obtain ⟨before, after, hleft⟩ := leaves_leave (p := (· ∈ trusted)) x rest
  generalize leave (· ∈ trusted) x rest = a at hleft
  have hsome : ∀ z ∈ before, TrustedInSomeForm trusted z :=
    fun z hz => .of_mem (hleft.passed z hz)
  -- the place where the chain is left as written is the only one `FormsAgree` speaks of
  have honly {before' a' after'} (hsplit : x :: rest = before' ++ a' :: after')
      (hpassed : ∀ z ∈ before', z ∈ trusted) (ha' : a' ∉ trusted) : a' = a ∧ after' = after := by
    have h' : Leaves (· ∈ trusted) (x :: rest) before' a' after' :=
      ⟨hsplit, hpassed, fun h => absurd h ha'⟩
    exact (h'.unique hleft).2
  by_cases hgoes : a ∉ trusted ∧ TrustedInSomeForm trusted a ∧ after ≠ []
  · obtain ⟨ha, hform, hafter⟩ := hgoes
    obtain ⟨y, after, rfl⟩ := List.exists_cons_of_ne_nil hafter
    obtain ⟨between, tail, hon⟩ := leaves_leave (p := TrustedInSomeForm trusted) y after
    have hwalk : Leaves (TrustedInSomeForm trusted) (x :: rest) (before ++ a :: between)
        (leave (TrustedInSomeForm trusted) y after) tail := by
      refine ⟨?_, ?_, hon.stops⟩
      · rw [hleft.split, hon.split]
        simp
      · intro z hz
        simp only [List.mem_append, List.mem_cons] at hz
        rcases hz with hz | rfl | hz
        · exact hsome z hz
        · exact hform
        · exact hon.passed z hz
    rw [hwalk.leave_eq]
    constructor
    · intro hkey before' a' after' hsplit hpassed ha' _ between' b tail' hsplit' hpassed' hstops'
      obtain ⟨rfl, rfl⟩ := honly hsplit hpassed ha'
      obtain ⟨-, rfl, -⟩ := hon.unique ⟨hsplit', hpassed', hstops'⟩
      exact hkey
    · intro hagree
      exact hagree before a (y :: after) hleft.split hleft.passed ha hform between _ tail hon.split
        hon.passed hon.stops
  · have hwalk : Leaves (TrustedInSomeForm trusted) (x :: rest) before a after := by
      refine ⟨hleft.split, hsome, fun hform => ?_⟩
      by_cases ha : a ∈ trusted
      · exact hleft.stops ha
      · by_contra hafter
        exact hgoes ⟨ha, hform, hafter⟩
    rw [hwalk.leave_eq]
    refine ⟨fun _ => ?_, fun _ => rfl⟩
    intro before' a' after' hsplit hpassed ha' hform between b tail hsplit' _ _
    obtain ⟨rfl, rfl⟩ := honly hsplit hpassed ha'
    exact absurd ⟨ha', hform, by simp [hsplit']⟩ hgoes

/-- A hop that is an IPv4-mapped address, written in its IPv4 form; any other hop itself. -/
def canonicalHop (hop : List Char) : List Char :=
  match IpAddr.parse (trim hop) with
  | some (.v6 ip) => (ip.toIpv4Mapped.map Ipv4Addr.display).getD hop
  | _ => hop

/-- `X-Forwarded-For` with its IPv4-mapped addresses written in their IPv4 form. -/
def canonicalText (forwardedFor : List Char) : List Char :=
  List.intercalate [','] ((forwardedFor.splitOn ',').map canonicalHop)

lemma parse_canonicalHop (hop : List Char) :
    IpAddr.parse (trim (canonicalHop hop)) =
      (IpAddr.parse (trim hop)).map IpAddr.canonical := by
  unfold canonicalHop
  cases hip : IpAddr.parse (trim hop) with
  | none => simp [hip]
  | some ip =>
    cases ip with
    | v4 ip => simp [hip, IpAddr.canonical]
    | v6 ip =>
      cases hmapped : ip.toIpv4Mapped with
      | none => simp [hip, IpAddr.canonical, hmapped]
      | some ip =>
        have htrim : trim ip.display = ip.display :=
          trim_of_forall fun c hc => (Ipv4Addr.mem_display hc).1
        simp [IpAddr.canonical, hmapped, htrim, IpAddr.parse_display]

lemma splitOn_canonicalHop {hop : List Char} (h : ',' ∉ hop) :
    (canonicalHop hop).splitOn ',' = [canonicalHop hop] := by
  refine List.splitOn_eq_singleton fun hmem => ?_
  unfold canonicalHop at hmem
  split at hmem
  · rename_i ip _
    cases hmapped : ip.toIpv4Mapped with
    | none => exact h (by simpa [hmapped] using hmem)
    | some ip => exact (Ipv4Addr.mem_display (by simpa [hmapped] using hmem)).2 rfl
  · exact h hmem

/-- The addresses of the header are canonicalised one by one. -/
lemma hops_canonicalText (forwardedFor : List Char) :
    hops (canonicalText forwardedFor) =
      (hops forwardedFor).map (Option.map IpAddr.canonical) := by
  have hsplit : (canonicalText forwardedFor).splitOn ',' =
      (forwardedFor.splitOn ',').map canonicalHop := by
    rw [canonicalText, splitOn_intercalate_flatMap (by simp [List.splitOn_ne_nil]),
      List.flatMap_map, List.map_eq_flatMap]
    exact List.flatMap_congr fun hop hhop => splitOn_canonicalHop (not_mem_of_mem_splitOn hhop)
  have hparse : IpAddr.parse ∘ trim ∘ canonicalHop =
      Option.map IpAddr.canonical ∘ IpAddr.parse ∘ trim := by
    funext hop
    simp only [Function.comp_apply, parse_canonicalHop]
  simp only [hops, hsplit, ← List.map_reverse, List.map_map, hparse]

/-- The key of the resolved address is the one found after canonicalising the peer, the hops and
the trusted list exactly when the forms of the chain agree. -/
theorem key_resolve_canonical_iff (peer : IpAddr) (forwardedFor : List Char)
    (trusted : List IpAddr) :
    (resolve peer.canonical (canonicalText forwardedFor) (trusted.map IpAddr.canonical)).key =
        (resolve peer forwardedFor trusted).key ↔
      FormsAgree trusted (peer :: reached (hops forwardedFor)) := by
  rw [resolve_eq_leave, resolve_eq_leave, hops_canonicalText, reached_map, leave_canonical,
    IpAddr.key_canonical]
  exact key_leave_iff trusted peer _

/-- A listed proxy the listener reports in its mapped form is taken for the client. -/
theorem mapped_proxy_untrusted :
    ∃ peer trusted, IpAddr.parse "::ffff:10.0.0.2".toList = some peer ∧
      parseTrustedProxies "10.0.0.2".toList = .ok trusted ∧
      (resolve peer.canonical (canonicalText "198.51.100.1".toList)
        (trusted.map IpAddr.canonical)).key = "198.51.100.1".toList ∧
      (resolve peer "198.51.100.1".toList trusted).key = "10.0.0.2".toList := by
  refine ⟨.v6 (Ipv4Addr.toIpv6Mapped ⟨10, 0, 0, 2⟩), [.v4 ⟨10, 0, 0, 2⟩], ?_, rfl, ?_, ?_⟩
  · decide +kernel
  · decide +kernel
  · decide +kernel

end Bauth
