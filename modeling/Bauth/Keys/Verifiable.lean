import Bauth.Keys.Lifetime
import Bauth.Client.Freshness
import Bauth.Routes.OAuth
import Bauth.Routes.Me

/-!
# A token is verifiable for its whole life

Between an issuer and a verifier stand the reloads of the issuing and of the serving instance, and
the cache of the verifier. A rotated key is published long enough around the time it signs for all
of them.
-/

namespace Bauth

open Transaction Transition

namespace Keys

/-- A served JWKS, with what `DecodingKey::from_jwk` makes of what `jwk` writes. -/
def serve (jwks : List (String × Bytes)) : Verifier.JwkSet :=
  jwks.map fun k => { keyId := some k.1, decodingKey := some k.2 }

lemma mem_pairs_serve {jwks : List (String × Bytes)} {k : String × Bytes} :
    k ∈ (serve jwks).pairs ↔ k ∈ jwks := by
  obtain ⟨kid, key⟩ := k
  rw [Verifier.JwkSet.mem_pairs]
  constructor
  · rintro ⟨jwk, hmem, hkid, hkey⟩
    obtain ⟨k, hk, rfl⟩ := List.mem_map.mp hmem
    obtain rfl := Option.some.inj hkid
    obtain rfl := Option.some.inj hkey
    exact hk
  · exact fun h => ⟨_, List.mem_map_of_mem h, rfl, rfl⟩

/-- A token not expired at `t'` was issued little before. -/
lemma le_of_not_expired {t t' : Time}
    (h : timestamp t' ≤ timestamp (t + accessTokenTtl) + leewaySeconds) : t' ≤ t + hours 1 := by
  have hdiv : ∀ a b : ℤ, a / 1000000 ≤ (b + 900000000) / 1000000 + 30 → a ≤ b + 3600000000 := by
    omega
  exact hdiv t' t h

section Runs

variable {v : Vault} {s : State} {clock t t' : Time} {steps : List Taken} {keys : SigningKeys}

/-- Keys that an instance has were loaded up to an hour before. -/
lemma HasKeys.loaded {u : Time} (h : HasKeys v steps keys u) : ∃ q ∈ steps, ∃ i,
    Taken.LoadsKeys v q i keys ∧ u ≤ q.before.clock + hours 1 ∧ q.before.clock ≤ u := by
  obtain ⟨q, hq, i, hloads, hle, hage⟩ := h
  exact ⟨q, hq, i, hloads, hage, hle⟩

/-- A JWKS has the public keys that were created. -/
lemma HasKeys.genuine {u : Time} (hrun : (system v).Run (empty clock) steps s)
    (h : HasKeys v steps keys u) {kid : String} {key : Bytes} (hmem : (kid, key) ∈ keys.jwks) :
    ∃ id, v.showUuid id = kid ∧ v.publicKey id = key := by
  obtain ⟨q, hq, i, ⟨-, now, -, hload⟩, -⟩ := h
  obtain ⟨l, m, rfl⟩ := List.append_of_mem hq
  obtain ⟨loaded, -, rfl⟩ := load_eq_some hload
  obtain ⟨r, hr, hjwk⟩ := List.mem_map.mp hmem
  obtain ⟨rfl, rfl⟩ := Prod.mk.inj hjwk
  have hgenuine := genuine_of_run hrun.around.1
  exact ⟨r.id, rfl, (hgenuine.rows r (mem_listPublished.mp hr).1).symm⟩

/-- The keys that an instance has within hours of the issue of a token have its key. -/
lemma HasKeys.published {u : Time} {keys' : SigningKeys} {key : LoadedKey}
    (hrun : (system v).Run (empty clock) steps s) (hprompt : Prompt steps)
    (hkeys : HasKeys v steps keys t) (hkey : keys.signingKey t = some key)
    (hrotated : ∃ p ∈ steps, Taken.Publishes p key.kid) (h : HasKeys v steps keys' u)
    (hearly : t ≤ u + hours 2) (hlate : u ≤ t + hours 1) :
    (v.showUuid key.kid, v.publicKey key.kid) ∈ keys'.jwks := by
  obtain ⟨q, hq, j, hloads, hage, hle⟩ := h.loaded
  refine published_around hrun hprompt hkeys hkey hrotated hq hloads ?_ (hle.trans hlate)
  have hhours : hours 2 + hours 1 = hours 3 := by decide
  linarith

/-- A token signed with a rotated key is verifiable until it is expired: its key is in the JWKS that
any instance served up to an hour before, in the keys of every instance, and in the cache of every
verifier that is not stale. -/
theorem token_verifiable {key : LoadedKey} (hrun : (system v).Run (empty clock) steps s)
    (hprompt : Prompt steps) (hkeys : HasKeys v steps keys t)
    (hkey : keys.signingKey t = some key)
    (hrotated : ∃ p ∈ steps, Taken.Publishes p key.kid) (hle : t ≤ t')
    (hexp : timestamp t' ≤ timestamp (t + accessTokenTtl) + leewaySeconds) :
    (∀ u keys', t' - hours 1 ≤ u → u ≤ t' → HasKeys v steps keys' u →
      (v.showUuid key.kid, v.publicKey key.kid) ∈ keys'.jwks) ∧
    (∀ keys', HasKeys v steps keys' t' →
      (keys'.decodingKey (v.showUuid key.kid)).isSome = true) ∧
    ∀ served verifierClock fetches verifier,
      Verifier.system.Run (Verifier.new verifierClock) fetches verifier →
      Verifier.FetchedFrom served fetches →
      (∀ u, t' - hours 1 - Verifier.httpTimeout ≤ u → u ≤ t' →
        ∃ keys', HasKeys v steps keys' u ∧ served u = serve keys'.jwks) →
      verifier.clock ≤ t' → verifier.cache.isStale t' = false →
      ∃ id, v.showUuid id = v.showUuid key.kid ∧
        verifier.cache.get (v.showUuid key.kid) = some (v.publicKey id) := by
  have hlate := le_of_not_expired hexp
  have hpublished : ∀ u keys', t' - hours 2 ≤ u → u ≤ t' → HasKeys v steps keys' u →
      (v.showUuid key.kid, v.publicKey key.kid) ∈ keys'.jwks := by
    intro u keys' hu hu' hkeys'
    refine HasKeys.published hrun hprompt hkeys hkey hrotated hkeys' ?_ (hu'.trans hlate)
    linarith
  have hhours : hours 1 + Verifier.httpTimeout ≤ hours 2 := by decide
  have htimeout : 0 ≤ Verifier.httpTimeout := by decide
  refine ⟨fun u keys' hu hu' hkeys' => ?_, fun keys' hkeys' => ?_, ?_⟩
  · refine hpublished u keys' ?_ hu' hkeys'
    linarith
  · have hmem := hpublished t' keys' (by linarith) le_rfl hkeys'
    rw [SigningKeys.decodingKey, Option.isSome_map, List.find?_isSome]
    exact ⟨_, hmem, decide_eq_true rfl⟩
  · intro served verifierClock fetches verifier hfetches hserved hserve hclock hfresh
    rcases Verifier.cacheFrom_of_run hfetches with hempty | ⟨f, jwks, hlast, hf, hcache⟩
    · rw [hempty] at hfresh
      cases hfresh
    · obtain ⟨l, m, rfl⟩ := List.append_of_mem hf
      obtain ⟨-, htakes, hrest⟩ := hfetches.around
      have hbefore : f.before.clock ≤ t' :=
        ((Verifier.Taken.steps htakes).clock_le.trans (Verifier.Run.clock_le hrest)).trans hclock
      have hage : t' - f.before.clock < Verifier.jwksMaxAge :=
        Verifier.KeyCache.lt_of_fresh hfresh (by rw [hcache]; rfl)
      have hmaxAge : Verifier.jwksMaxAge = hours 1 := by decide
      obtain ⟨-, -, -, hfetched, -⟩ := hlast
      obtain ⟨u, hu, hu', rfl⟩ := hfetched.served hserved hf htakes
      obtain ⟨keys', hkeys', hsame⟩ := hserve u (by linarith) (hu'.trans hbefore)
      have hmem := hpublished u keys' (by linarith) (hu'.trans hbefore) hkeys'
      have hsome : (verifier.cache.get (v.showUuid key.kid)).isSome = true := by
        rw [hcache, hsame]
        exact Verifier.lookup_isSome.mpr ⟨_, mem_pairs_serve.mpr hmem⟩
      obtain ⟨found, hfound⟩ := Option.isSome_iff_exists.mp hsome
      have hmem' : (v.showUuid key.kid, found) ∈ keys'.jwks := by
        refine mem_pairs_serve.mp (Verifier.mem_of_lookup ?_)
        rw [hcache, hsame] at hfound
        exact hfound
      obtain ⟨id, hid, rfl⟩ := hkeys'.genuine hrun hmem'
      exact ⟨id, hid, hfound⟩

end Runs

section Example

def exampleRun : List Taken × State :=
  ((system exampleVault).exec (empty 0) exampleRotation).getD ([], empty 0)

/-- Time passes only between calls. -/
lemma prompt_of_idle {steps : List Taken} (h : ∀ p ∈ steps, (match p.action with
    | .tick _ => p.before.procs.all fun q => (Proc.began q).isNone
    | _ => true) = true) : Prompt steps := by
  intro p hp time haction q hq now hnow
  have hidle := h p hp
  rw [haction, List.all_eq_true] at hidle
  have hnone := hidle q hq
  rw [hnow] at hnone
  cases hnone

/-- The key that rotated in verifies the tokens it signs. -/
theorem token_verifiable_rotated :
    ∃ keys key, HasKeys exampleVault exampleRun.1 keys (days 31) ∧
      keys.signingKey (days 31) = some key ∧
      (keys.decodingKey (exampleVault.showUuid key.kid)).isSome = true := by
  have hexec : (system exampleVault).exec (empty 0) exampleRotation = some exampleRun := rfl
  have hrun : (system exampleVault).Run (empty 0) exampleRun.1 exampleRun.2 :=
    System.exec_run hexec
  have hprompt : Prompt exampleRun.1 := prompt_of_idle (by decide)
  have hcommit : exampleRun.1[14]? = some _ := rfl
  have hrotated : ∃ p ∈ exampleRun.1, Taken.Publishes p 1 :=
    ⟨_, List.mem_of_getElem? hcommit, 1, _, _, _, rfl, rfl, rfl⟩
  have hload : exampleRun.1[18]? = some _ := rfl
  have hkeys : HasKeys exampleVault exampleRun.1 _ (days 31) :=
    ⟨_, List.mem_of_getElem? hload, 2, ⟨rfl, days 31, .inl rfl, rfl⟩, by decide, by decide⟩
  obtain ⟨-, hdecoding, -⟩ := token_verifiable hrun hprompt hkeys rfl hrotated le_rfl (by decide)
  exact ⟨_, _, hkeys, rfl, hdecoding _ hkeys⟩

/-- The key is rotated a month later, but the rotation stays open for a day. An instance loads the
keys every hour, the last time right before the commit, another one right after it. -/
def exampleSlowRotation : List Action :=
  exampleStart ++ [.tick (days 30), .rotateIfDue, .advance 1, .advance 1, .advance 1, .advance 1,
    .advance 1] ++
  (List.range 24).flatMap (fun k => [.tick (days 30 + hours (k + 1)), .ensureAndLoad,
    .advance (k + 2), .advance (k + 2), .advance (k + 2)]) ++
  [.advance 1, .ensureAndLoad, .advance 26, .advance 26]

def exampleSlowRun : List Taken × State :=
  ((system exampleVault).exec (empty 0) exampleSlowRotation).getD ([], empty 0)

set_option maxRecDepth 20000 in
/-- Without the bound on how long a rotation stays open, a token may not be verifiable. -/
theorem token_unverifiable_slow :
    ¬∀ (v : Vault) (clock t t' : Time) (steps : List Taken) (s : State) (keys : SigningKeys)
      (key : LoadedKey), (system v).Run (empty clock) steps s → HasKeys v steps keys t →
        keys.signingKey t = some key → (∃ p ∈ steps, Taken.Publishes p key.kid) → t ≤ t' →
          timestamp t' ≤ timestamp (t + accessTokenTtl) + leewaySeconds →
            ∀ u keys', t' - hours 1 ≤ u → u ≤ t' → HasKeys v steps keys' u →
              (v.showUuid key.kid, v.publicKey key.kid) ∈ keys'.jwks := by
  intro h
  have hexec : (system exampleVault).exec (empty 0) exampleSlowRotation = some exampleSlowRun := rfl
  have hrun : (system exampleVault).Run (empty 0) exampleSlowRun.1 exampleSlowRun.2 :=
    System.exec_run hexec
  have hcommit : exampleSlowRun.1[134]? = some _ := rfl
  have hrotated : ∃ p ∈ exampleSlowRun.1, Taken.Publishes p 1 :=
    ⟨_, List.mem_of_getElem? hcommit, 1, _, _, _, rfl, rfl, rfl⟩
  have hbefore : exampleSlowRun.1[132]? = some _ := rfl
  have hknown : HasKeys exampleVault exampleSlowRun.1 _ (days 31) :=
    ⟨_, List.mem_of_getElem? hbefore, 25, ⟨rfl, days 31, .inl rfl, rfl⟩, by decide, by decide⟩
  have hafter : exampleSlowRun.1[137]? = some _ := rfl
  have hkeys : HasKeys exampleVault exampleSlowRun.1 _ (days 31) :=
    ⟨_, List.mem_of_getElem? hafter, 26, ⟨rfl, days 31, .inl rfl, rfl⟩, by decide, by decide⟩
  have hmem := h exampleVault 0 (days 31) (days 31) _ _ _ _ hrun hkeys rfl hrotated le_rfl
    (by decide) (days 31) _ (by decide) le_rfl hknown
  revert hmem
  decide

end Example

end Keys

end Bauth
