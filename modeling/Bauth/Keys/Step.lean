import Bauth.Keys.SigningKeys

/-!
# What a step of the key processes does

A process inserts a key, commits a rotation, or only goes on. With it come the facts about single
queries that the invariants rest on.
-/

namespace Bauth

open Transaction Transition

namespace Keys

/-- A process goes on without touching the table. -/
inductive Goes (v : Vault) (s : State) : Proc → Proc → Prop
  | start : Goes v s .loading (.querying s.clock)
  | query {now : Time} {keys : SigningKeys} (h : load v s.rows now = some keys) :
      Goes v s (.querying now) (.checking keys now)
  | queryFails {now : Time} : Goes v s (.querying now) .failed
  | found {keys : SigningKeys} {loadedAt : Time} (h : (keys.signingKey s.clock).isSome = true) :
      Goes v s (.checking keys loadedAt) (.loaded keys loadedAt)
  | create {keys : SigningKeys} {loadedAt : Time} (h : keys.signingKey s.clock = none) :
      Goes v s (.checking keys loadedAt) (.inserting (v.newRow s.drawn s.clock))
  | restart : Goes v s .reloading (.requerying s.clock)
  | requery {now : Time} {keys : SigningKeys} (h : load v s.rows now = some keys) :
      Goes v s (.requerying now) (.loaded keys now)
  | requeryFails {now : Time} : Goes v s (.requerying now) .failed
  | skip : Goes v s .starting (.rotated none)
  | lock (h : s.isLocked = false) : Goes v s .starting .locked
  | now : Goes v s .locked (.listing s.clock)
  | decide {now : Time} (h : isDue s.rows now = true) : Goes v s (.listing now) (.due now)
  | decline {now : Time} : Goes v s (.listing now) (.rotated none)
  | publish {now : Time} :
      Goes v s (.due now) (.inserted now (v.newRow s.drawn (now + prepublication)))
  | update {now : Time} {row : SigningKeyRow} : Goes v s (.inserted now row)
      (.retiring now row (toRetire s.rows row.id (now + prepublication)))
  | fail {p : Proc} (h : p.isDone = false) : Goes v s p .failed

/-- What a step does, with what it depends on. -/
inductive Steps (v : Vault) (s : State) : Action → State → Prop
  | tick {time : Time} (h : s.clock ≤ time) : Steps v s (.tick time) { s with clock := time }
  | call {a : Action} (p : Proc) (hp : a = .ensureAndLoad ∧ p = .loading ∨
      a = .rotateIfDue ∧ p = .starting) : Steps v s a { s with procs := s.procs ++ [p] }
  | purge : Steps v s .purge { s with rows := purge s.rows s.clock }
  | go {a : Action} {i : ℕ} {p p' : Proc} (ha : a = .advance i ∨ a = .abort i ∧ p' = .failed)
      (hi : s.procs[i]? = some p) (h : Goes v s p p') {drawn : Uuid}
      (hdrawn : drawn = s.drawn ∧ (∀ row, p' ≠ .inserting row) ∧
        (∀ now row, p' ≠ .inserted now row) ∨ drawn = s.drawn + 1) :
      Steps v s a ({ s with drawn := drawn }.set i p')
  | insert {i : ℕ} {row : SigningKeyRow} (hi : s.procs[i]? = some (.inserting row)) :
      Steps v s (.advance i) ({ s with rows := s.rows ++ [row] }.set i .reloading)
  | commit {i : ℕ} {now : Time} {row : SigningKeyRow} {ids : List Uuid}
      (hi : s.procs[i]? = some (.retiring now row ids)) :
      Steps v s (.advance i)
        ({ s with rows := s.rows.map (retire ids (now + prepublication)) ++ [row] }.set i
          (.rotated (some row.id)))

variable {v : Vault} {s s' : State}

lemma steps_of_advance {i : ℕ} {p : Proc} (hi : s.procs[i]? = some p)
    (h : advance v s i p = some s') : Steps v s (.advance i) s' := by
  have go : ∀ {p'}, Goes v s p p' → (∀ row, p' ≠ .inserting row) →
      (∀ now row, p' ≠ .inserted now row) → Steps v s (.advance i) (s.set i p') :=
    fun hgoes h h' => .go (.inl rfl) hi hgoes (.inl ⟨rfl, h, h'⟩)
  cases p with
  | loading =>
    obtain rfl := Option.some.inj h
    exact go .start nofun nofun
  | querying now =>
    simp only [advance] at h
    split at h
    · rename_i keys hload
      obtain rfl := Option.some.inj h
      exact go (.query hload) nofun nofun
    · obtain rfl := Option.some.inj h
      exact go .queryFails nofun nofun
  | checking keys loadedAt =>
    simp only [advance] at h
    split_ifs at h with hfound
    · obtain rfl := Option.some.inj h
      exact go (.found hfound) nofun nofun
    · obtain rfl := Option.some.inj h
      exact .go (.inl rfl) hi (.create (by simpa using hfound)) (.inr rfl)
  | inserting row =>
    obtain rfl := Option.some.inj h
    exact .insert hi
  | reloading =>
    obtain rfl := Option.some.inj h
    exact go .restart nofun nofun
  | requerying now =>
    simp only [advance] at h
    split at h
    · rename_i keys hload
      obtain rfl := Option.some.inj h
      exact go (.requery hload) nofun nofun
    · obtain rfl := Option.some.inj h
      exact go .requeryFails nofun nofun
  | loaded keys loadedAt => cases h
  | starting =>
    obtain rfl := Option.some.inj h
    by_cases hlocked : s.isLocked = true
    · rw [if_pos hlocked]
      exact go .skip nofun nofun
    · rw [if_neg hlocked]
      exact go (.lock (by simpa using hlocked)) nofun nofun
  | locked =>
    obtain rfl := Option.some.inj h
    exact go .now nofun nofun
  | listing now =>
    obtain rfl := Option.some.inj h
    by_cases hdue : isDue s.rows now = true
    · rw [if_pos hdue]
      exact go (.decide hdue) nofun nofun
    · rw [if_neg hdue]
      exact go .decline nofun nofun
  | due now =>
    obtain rfl := Option.some.inj h
    exact .go (.inl rfl) hi .publish (.inr rfl)
  | inserted now row =>
    obtain rfl := Option.some.inj h
    exact go .update nofun nofun
  | retiring now row ids =>
    obtain rfl := Option.some.inj h
    exact .commit hi
  | rotated kid => cases h
  | failed => cases h

/-- Every step is one of them. -/
lemma steps_of_step {a : Action} (h : step v s a = some s') : Steps v s a s' := by
  cases a with
  | tick time =>
    simp only [step, Option.ite_none_right_eq_some, Option.some.injEq] at h
    obtain ⟨hle, rfl⟩ := h
    exact .tick hle
  | ensureAndLoad =>
    obtain rfl := Option.some.inj h
    exact .call .loading (.inl ⟨rfl, rfl⟩)
  | rotateIfDue =>
    obtain rfl := Option.some.inj h
    exact .call .starting (.inr ⟨rfl, rfl⟩)
  | purge =>
    obtain rfl := Option.some.inj h
    exact .purge
  | advance i =>
    simp only [step] at h
    split at h
    · rename_i p hi
      exact steps_of_advance hi h
    · cases h
  | abort i =>
    simp only [step] at h
    split at h
    · rename_i p hi
      split_ifs at h with hdone
      obtain rfl := Option.some.inj h
      exact .go (.inr ⟨rfl, rfl⟩) hi (.fail (by simpa using hdone)) (.inl ⟨rfl, nofun, nofun⟩)
    · cases h

/-! ### The queries -/

section Queries

variable {rows : List SigningKeyRow} {row : SigningKeyRow} {now t u : Time}

lemma outlasts_iff :
    row.outlasts t = true ↔ ∀ retiredAt, row.retiredAt = some retiredAt → t < retiredAt := by
  rw [SigningKeyRow.outlasts, Option.all_eq_true]
  simp

lemma outlasts_of_none (h : row.retiredAt = none) : row.outlasts t = true := by
  simp [SigningKeyRow.outlasts, h]

lemma outlasts_mono (h : row.outlasts t = true) (hle : u ≤ t) : row.outlasts u = true := by
  rw [outlasts_iff] at h ⊢
  intro retiredAt hr
  exact lt_of_le_of_lt hle (h retiredAt hr)

lemma canSign_iff : row.canSign now = true ↔ row.activeAt ≤ now ∧ row.outlasts now = true := by
  simp [SigningKeyRow.canSign]

lemma mem_listPublished {grace : Time} :
    row ∈ listPublished rows now grace ↔ row ∈ rows ∧ row.outlasts (now - grace) = true := by
  rw [listPublished, newestFirst, List.mem_insertionSort, List.mem_filter]

lemma newestFirst_sorted : (newestFirst rows).Pairwise fun a b => b.activeAt ≤ a.activeAt := by
  have htotal : Std.Total fun a b : SigningKeyRow => b.activeAt ≤ a.activeAt :=
    ⟨fun a b => le_total b.activeAt a.activeAt⟩
  have htrans : IsTrans SigningKeyRow fun a b => b.activeAt ≤ a.activeAt :=
    ⟨fun a b c hab hbc => hbc.trans hab⟩
  exact List.pairwise_insertionSort _ rows

/-- The first key found newest first is the newest. -/
lemma newest_of_find? {p : SigningKeyRow → Bool} {key : SigningKeyRow}
    (hkey : (newestFirst rows).find? p = some key) (hrow : row ∈ rows) (hp : p row = true) :
    row.activeAt ≤ key.activeAt := by
  have hmem : row ∈ newestFirst rows := (List.mem_insertionSort _).mpr hrow
  have hsorted : (newestFirst rows).Pairwise fun a b => b.activeAt ≤ a.activeAt :=
    newestFirst_sorted
  obtain ⟨-, before, after, hsplit, hbefore⟩ := List.find?_eq_some_iff_append.mp hkey
  rw [hsplit] at hmem hsorted
  rcases List.mem_append.mp hmem with hmem | hmem
  · exact absurd hp (by simpa using hbefore row hmem)
  · rcases List.mem_cons.mp hmem with rfl | hmem
    · exact le_rfl
    · exact List.rel_of_pairwise_cons (List.pairwise_append.mp hsorted).2.1 hmem

@[simp] lemma retire_id {ids : List Uuid} : (retire ids t row).id = row.id := by
  unfold retire
  split_ifs <;> rfl

@[simp] lemma retire_activeAt {ids : List Uuid} : (retire ids t row).activeAt = row.activeAt := by
  unfold retire
  split_ifs <;> rfl

@[simp] lemma retire_publicKey {ids : List Uuid} :
    (retire ids t row).publicKey = row.publicKey := by
  unfold retire
  split_ifs <;> rfl

/-- A key that outlasts `u` still does when it is retired later than `u`. -/
lemma outlasts_retire {ids : List Uuid} (h : row.outlasts u = true) (hu : u < t) :
    (retire ids t row).outlasts u = true := by
  unfold retire
  split_ifs
  · exact outlasts_iff.mpr fun retiredAt hr => Option.some.inj hr ▸ hu
  · exact h

/-- The purge keeps a key that outlasts a time not long gone. -/
lemma mem_purge (h : row ∈ rows) (hrow : row.outlasts u = true) (hu : now ≤ u + retention) :
    row ∈ purge rows now := by
  rw [purge, List.mem_filter]
  refine ⟨h, ?_⟩
  rw [Bool.not_eq_true', Option.any_eq_false]
  intro retiredAt hr
  have hlt := outlasts_iff.mp hrow retiredAt hr
  rw [decide_eq_false_iff_not, not_lt]
  exact (sub_le_iff_le_add.mpr hu).trans hlt.le

lemma mem_of_mem_purge (h : row ∈ purge rows now) : row ∈ rows := List.mem_of_mem_filter h

end Queries

/-! ### Loading -/

section Load

variable {rows : List SigningKeyRow} {now : Time}

lemma decryptKey_eq_some {row : SigningKeyRow} {key : LoadedKey} (h : decryptKey v row = some key) :
    key.kid = row.id ∧ key.activeAt = row.activeAt ∧ key.retiredAt = row.retiredAt := by
  simp only [decryptKey, Option.bind_eq_bind, Option.bind_eq_some_iff] at h
  obtain ⟨seed, -, h⟩ := h
  split_ifs at h
  obtain rfl := Option.some.inj h
  exact ⟨rfl, rfl, rfl⟩

lemma decryptKeys_cons {row : SigningKeyRow} {keys : List LoadedKey}
    (h : decryptKeys v (row :: rows) = some keys) :
    ∃ key rest, decryptKey v row = some key ∧ decryptKeys v rows = some rest ∧ keys = key :: rest := by
  simp only [decryptKeys, Option.bind_eq_bind, Option.bind_eq_some_iff, Option.pure_def,
    Option.some.injEq] at h
  obtain ⟨key, hkey, rest, hrest, rfl⟩ := h
  exact ⟨key, rest, hkey, hrest, rfl⟩

lemma mem_of_decryptKeys {keys : List LoadedKey} (h : decryptKeys v rows = some keys)
    {key : LoadedKey} (hkey : key ∈ keys) :
    ∃ row ∈ rows, key.kid = row.id ∧ key.activeAt = row.activeAt ∧ key.retiredAt = row.retiredAt := by
  induction rows generalizing keys with
  | nil =>
    obtain rfl := Option.some.inj h
    simp at hkey
  | cons row rows ih =>
    obtain ⟨first, rest, hfirst, hrest, rfl⟩ := decryptKeys_cons h
    rcases List.mem_cons.mp hkey with rfl | hkey
    · exact ⟨row, by simp, decryptKey_eq_some hfirst⟩
    · obtain ⟨row', hrow', hsame⟩ := ih hrest hkey
      exact ⟨row', List.mem_cons_of_mem _ hrow', hsame⟩

lemma load_eq_some {keys : SigningKeys} (h : load v rows now = some keys) :
    ∃ loaded, decryptKeys v ((listPublished rows now retiredKeyGrace).filter fun row =>
      row.outlasts now) = some loaded ∧
        keys = { keys := loaded, jwks := (listPublished rows now retiredKeyGrace).map (jwk v) } := by
  simp only [load, Option.bind_eq_bind, Option.bind_eq_some_iff, Option.pure_def,
    Option.some.injEq] at h
  obtain ⟨loaded, hloaded, rfl⟩ := h
  exact ⟨loaded, hloaded, rfl⟩

lemma canSign_of_decryptKey {row : SigningKeyRow} {key : LoadedKey} (h : decryptKey v row = some key)
    (t : Time) : key.canSign t = row.canSign t := by
  obtain ⟨-, hactive, hretired⟩ := decryptKey_eq_some h
  rw [LoadedKey.canSign, SigningKeyRow.canSign, SigningKeyRow.outlasts, hactive, hretired]

/-- The first loaded key that signs is the first row that does. -/
lemma find?_of_decryptKeys {keys : List LoadedKey} (h : decryptKeys v rows = some keys) {t : Time}
    {key : LoadedKey} (hkey : keys.find? (fun k => k.canSign t) = some key) :
    ∃ row, rows.find? (fun r => r.canSign t) = some row ∧ row.id = key.kid := by
  induction rows generalizing keys with
  | nil =>
    obtain rfl := Option.some.inj h
    cases hkey
  | cons row rows ih =>
    obtain ⟨first, rest, hfirst, hrest, rfl⟩ := decryptKeys_cons h
    have hsame := canSign_of_decryptKey hfirst t
    rw [List.find?_cons] at hkey ⊢
    cases hsign : first.canSign t with
    | true =>
      rw [hsign] at hkey hsame
      rw [← hsame]
      obtain rfl := Option.some.inj hkey
      exact ⟨row, rfl, (decryptKey_eq_some hfirst).1.symm⟩
    | false =>
      rw [hsign] at hkey hsame
      rw [← hsame]
      exact ih hrest hkey

/-- Every loaded key is one of the table. -/
lemma mem_of_load {keys : SigningKeys} (h : load v rows now = some keys) {key : LoadedKey}
    (hkey : key ∈ keys.keys) :
    ∃ row ∈ rows, key.kid = row.id ∧ key.activeAt = row.activeAt ∧ key.retiredAt = row.retiredAt := by
  obtain ⟨loaded, hloaded, rfl⟩ := load_eq_some h
  obtain ⟨row, hrow, hsame⟩ := mem_of_decryptKeys hloaded hkey
  exact ⟨row, (mem_listPublished.mp (List.mem_of_mem_filter hrow)).1, hsame⟩

end Load

end Keys

end Bauth
