import Bauth.Sdk.Step
import Bauth.Wire.Token

/-!
# Sessions over one string storage

`keyValueStore` keeps the tokens of a session as JSON, under a key of a storage that other sessions
and other code write too. Each session runs as over a store of its own.
-/

namespace Bauth

open Transition

namespace Sdk

/-! ### `keyValueStore` -/

/-- What is set under a key is got, until it is set again or deleted. -/
structure KeyValueStorage (σ : Type) where
  get : σ → String → Option String
  set : σ → String → String → σ
  delete : σ → String → σ
  get_set (s : σ) (key text name : String) :
    get (set s key text) name = if name = key then some text else get s name
  get_delete (s : σ) (key name : String) :
    get (delete s key) name = if name = key then none else get s name

/-- The members that `JSON.stringify` writes: not what is `undefined`. -/
def StoredTokens.members (tokens : StoredTokens) : List (List Char × Json.Scalar) :=
  ("accessToken".toList, .string tokens.accessToken.toList) ::
    ("refreshToken".toList, .string tokens.refreshToken.toList) ::
      match tokens.expiresAt with
      | some time => [("expiresAt".toList, .integer time)]
      | none => []

/-- The tokens as the object they are. -/
def StoredTokens.toValue (tokens : StoredTokens) : Json.Value :=
  .object (tokens.members.map fun m => (Json.units m.1, m.2.value))

/-- The `StoredTokens` that a value is. -/
def storedTokensOf (value : Json.Value) : Option StoredTokens := do
  return {
    accessToken := ← textProperty "accessToken" value
    refreshToken := ← textProperty "refreshToken" value
    expiresAt := integerProperty "expiresAt" value }

namespace KeyValueStorage

variable {σ : Type} (S : KeyValueStorage σ) (key : String)

/-- `read`: what doesn't parse is missing, and so is `null`. -/
def read (s : σ) : Option Json.Value := do
  match Json.parse (← S.get s key).toList with
  | some .null => none
  | value => value

def write (s : σ) : Option StoredTokens → σ
  | none => S.delete s key
  | some tokens => S.set s key (String.ofList (Json.writeObject tokens.members))

/-- The tokens under a key. -/
def tokens (s : σ) : Option StoredTokens := (S.read key s).bind storedTokensOf

end KeyValueStorage

/-- Something else writes the storage. -/
inductive StorageOp where
  | set (key text : String)
  | delete (key : String)

def StorageOp.key : StorageOp → String
  | set key _ => key
  | delete key => key

def StorageOp.run {σ : Type} (S : KeyValueStorage σ) (s : σ) : StorageOp → σ
  | set key text => S.set s key text
  | delete key => S.delete s key

/-! ### Sessions over a storage -/

/-- What an action writes to the store. -/
def State.written (s : State) : Action → Option (Option StoredTokens)
  | .perform i =>
    match s.threads[i]? with
    | some (.await (.write value) _) => some value
    | _ => none
  | .taskWrite t =>
    match s.tasks[t]? with
    | some (.writing value _) => some value
    | _ => none
  | _ => none

/-- A storage and the sessions over it. What the state of a session has as its store is not looked
at. -/
structure Device (σ ι : Type) where
  storage : σ
  sessions : ι → State

namespace Device

variable {σ ι : Type} [DecidableEq ι] (S : KeyValueStorage σ) (keys : ι → String) (o : ι → Options)

/-- A session takes a step, or something else writes under another key. -/
inductive Action where
  | session (i : ι) (a : Sdk.Action)
  | elsewhere (op : StorageOp) (h : ∀ i, keys i ≠ op.key)

/-- Session `i` as it sees its store. -/
def session (d : Device σ ι) (i : ι) : State :=
  { d.sessions i with store := S.tokens (keys i) d.storage }

def step (d : Device σ ι) : Action keys → Option (Device σ ι)
  | .session i a => do
    let s := d.session S keys i
    let s' ← Sdk.step (o i) s a
    let storage :=
      match s.written a with
      | some value => S.write (keys i) d.storage value
      | none => d.storage
    return { storage, sessions := Function.update d.sessions i s' }
  | .elsewhere op _ => some { d with storage := op.run S d.storage }

def system : System (Device σ ι) (Action keys) := ⟨step S keys o⟩

/-- The action of session `i`, if it is one. -/
def Action.of (i : ι) : Action keys → Option Sdk.Action
  | .session j a => if j = i then some a else none
  | .elsewhere _ _ => none

end Device

/-! ### What is written is read -/

section Read

variable {σ : Type} (S : KeyValueStorage σ) {s : σ} {key name : String}

/-- Tokens are read back with everything they have. -/
lemma storedTokensOf_toValue (tokens : StoredTokens) :
    storedTokensOf tokens.toValue = some tokens := by
  obtain ⟨access, refresh, expiresAt⟩ := tokens
  have hnames : ((StoredTokens.members ⟨access, refresh, expiresAt⟩).map Prod.fst).Nodup := by
    cases expiresAt with
    | none => simp [StoredTokens.members]
    | some time => simp [StoredTokens.members]
  have haccess := textProperty_of_mem "accessToken" access
    (by simp [StoredTokens.members]) hnames
  have hrefresh := textProperty_of_mem "refreshToken" refresh
    (by simp [StoredTokens.members]) hnames
  have hexpiry : integerProperty "expiresAt"
      (StoredTokens.toValue ⟨access, refresh, expiresAt⟩) = expiresAt := by
    rw [integerProperty, StoredTokens.toValue]
    cases expiresAt with
    | none => rw [Json.property_of_notMem (by simp [StoredTokens.members])]
    | some time =>
      rw [Json.property_of_mem (v := .integer time) (by simp [StoredTokens.members]) hnames]
      simp [Json.Scalar.value]
  rw [← StoredTokens.toValue] at haccess hrefresh
  simp [storedTokensOf, haccess, hrefresh, hexpiry]

lemma read_set (text : String) :
    S.read name (S.set s key text) =
      if name = key then S.read name (S.set s name text) else S.read name s := by
  by_cases hname : name = key
  · rw [if_pos hname, hname]
  · rw [if_neg hname, KeyValueStorage.read, S.get_set, if_neg hname, KeyValueStorage.read]

lemma read_delete :
    S.read name (S.delete s key) = if name = key then none else S.read name s := by
  rw [KeyValueStorage.read, S.get_delete]
  by_cases hname : name = key
  · rw [if_pos hname, if_pos hname]
    rfl
  · rw [if_neg hname, if_neg hname, KeyValueStorage.read]

/-- A write of a store under one key is read under this key only. -/
lemma read_write (value : Option StoredTokens) :
    S.read name (S.write key s value) =
      if name = key then value.map StoredTokens.toValue else S.read name s := by
  cases value with
  | none => exact read_delete S
  | some tokens =>
    rw [KeyValueStorage.write, read_set]
    congr 1
    have hne : tokens.members ≠ [] := List.cons_ne_nil _ _
    rw [KeyValueStorage.read, S.get_set, if_pos rfl]
    simp only [Option.bind_eq_bind, Option.bind_some, String.toList_ofList, Json.parse_text hne]
    rfl

lemma read_run (op : StorageOp) (h : name ≠ op.key) :
    S.read name (op.run S s) = S.read name s := by
  cases op with
  | set key text =>
    rw [StorageOp.run, read_set]
    exact if_neg h
  | delete key =>
    rw [StorageOp.run, read_delete]
    exact if_neg h

lemma tokens_of_read {value : Option StoredTokens}
    (h : S.read key s = value.map StoredTokens.toValue) : S.tokens key s = value := by
  rw [KeyValueStorage.tokens, h]
  cases value with
  | none => rfl
  | some tokens => exact storedTokensOf_toValue tokens

end Read

/-! ### Each session on its own -/

/-- A call that waits for a refresh writes nothing. -/
lemma State.Calls.written {s : State} {i : ℕ} {m : Option ℕ}
    {k : Except Error (Option String) → Async awaits Outcome} (h : s.Calls i k m) :
    s.written (.perform i) = none := by
  cases m with
  | none =>
    have hi : s.threads[i]? = some (.await .refresh k) := h
    simp only [State.written, hi]
  | some m =>
    have hi : s.threads[i]? = some (.await (.refreshOnce m) k) := h
    simp only [State.written, hi]

/-- The store changes by what is written only. -/
lemma Steps.store_written {o : Options} {s s' : State} {a : Action} (h : Steps o s a s') :
    s'.store = (s.written a).getD s.store := by
  cases h with
  | @go _ i op k ha hi hwrite hop r ms =>
    have hnone : s.written a = none := by
      cases a with
      | perform j =>
        obtain rfl := Option.some.inj ha
        simp only [State.written, hi]
        cases op with
        | write value => exact absurd rfl (hwrite value rfl)
        | _ => rfl
      | taskWrite t => cases ha
      | _ => rfl
    rw [hnone]
    rfl
  | write hi =>
    simp only [State.written, hi]
    rfl
  | taskWrite ht =>
    simp only [State.written, ht]
    rfl
  | joined hi =>
    rw [hi.written]
    rfl
  | started hi =>
    rw [hi.written]
    rfl
  | resolved hi ht =>
    simp only [State.written, hi]
    rfl
  | _ => rfl

namespace Device

variable {σ ι : Type} {S : KeyValueStorage σ} {keys : ι → String} {o : ι → Options}
  {d d' : Device σ ι} {i : ι}

/-- Under the key of session `i` are tokens, or nothing. -/
def Holds (S : KeyValueStorage σ) (keys : ι → String) (d : Device σ ι) (i : ι) : Prop :=
  S.read (keys i) d.storage = (d.session S keys i).store.map StoredTokens.toValue

lemma holds_of_read {value : Option StoredTokens}
    (h : S.read (keys i) d.storage = value.map StoredTokens.toValue) :
    Holds S keys d i ∧ d.session S keys i = { d.sessions i with store := value } := by
  have hview : d.session S keys i = { d.sessions i with store := value } := by
    rw [session, tokens_of_read S h]
  exact ⟨by rw [Holds, hview, h], hview⟩

/-- A session sees what its last step made of its state. -/
lemma session_own {s : State} (hi : d.sessions i = s)
    (hread : S.read (keys i) d.storage = s.store.map StoredTokens.toValue) :
    Holds S keys d i ∧ d.session S keys i = s := by
  obtain ⟨hholds, hview⟩ := holds_of_read hread
  refine ⟨hholds, ?_⟩
  rw [hview, hi]

/-- A session sees the same after a step that is not its own. -/
lemma session_frame (h : Holds S keys d i) (hi : d'.sessions i = d.sessions i)
    (hread : S.read (keys i) d'.storage = S.read (keys i) d.storage) :
    Holds S keys d' i ∧ d'.session S keys i = d.session S keys i := by
  obtain ⟨hholds, hview⟩ := holds_of_read (hread.trans h)
  refine ⟨hholds, ?_⟩
  rw [hview, hi, session]

variable [DecidableEq ι]

/-- A step of a session writes under its own key only. -/
lemma step_session {j : ι} {a : Sdk.Action} (hstep : step S keys o d (.session j a) = some d') :
    ∃ s', Sdk.step (o j) (d.session S keys j) a = some s' ∧
      d'.sessions = Function.update d.sessions j s' ∧
      ∀ name, S.read name d'.storage =
        if name = keys j then
          (((d.session S keys j).written a).map fun value => value.map StoredTokens.toValue).getD
            (S.read name d.storage)
        else S.read name d.storage := by
  obtain ⟨s', hs', hd'⟩ := Option.bind_eq_some_iff.mp hstep
  obtain rfl := Option.some.inj hd'
  refine ⟨s', hs', rfl, ?_⟩
  intro name
  cases (d.session S keys j).written a with
  | none => exact (ite_self _).symm
  | some value => exact read_write S value

/-- A step of the device is one of the session it is of, and none of the others. -/
lemma step_refines (hkeys : Function.Injective keys) {a : Action keys} (h : Holds S keys d i)
    (hstep : step S keys o d a = some d') :
    Holds S keys d' i ∧
      (∀ b, a.of keys i = some b →
        Sdk.step (o i) (d.session S keys i) b = some (d'.session S keys i)) ∧
      (a.of keys i = none → d'.session S keys i = d.session S keys i) := by
  cases a with
  | elsewhere op hop =>
    obtain rfl := Option.some.inj hstep
    have hframe : Holds S keys { d with storage := op.run S d.storage } i ∧
        ({ d with storage := op.run S d.storage } : Device σ ι).session S keys i =
          d.session S keys i :=
      session_frame h rfl (read_run S op (hop i))
    refine ⟨hframe.1, ?_, fun _ => hframe.2⟩
    intro b hb
    cases hb
  | session j a =>
    obtain ⟨s', hs', hsessions, hread⟩ := step_session hstep
    by_cases hji : j = i
    · subst hji
      have hown : Holds S keys d' j ∧ d'.session S keys j = s' := by
        refine session_own (by rw [hsessions, Function.update_self]) ?_
        -- what it wrote is what its store is now
        rw [hread, if_pos rfl, (steps_of_step hs').store_written]
        cases (d.session S keys j).written a with
        | none => exact h
        | some value => rfl
      have hof : (Action.session j a : Action keys).of keys j = some a := if_pos rfl
      rw [hof, hown.2]
      refine ⟨hown.1, ?_, fun hnone => by cases hnone⟩
      intro b hb
      rw [← Option.some.inj hb]
      exact hs'
    · have hne : i ≠ j := fun hij => hji hij.symm
      have hof : (Action.session j a : Action keys).of keys i = none := if_neg hji
      have hframe : Holds S keys d' i ∧ d'.session S keys i = d.session S keys i := by
        refine session_frame h ?_ ?_
        · rw [hsessions, Function.update_of_ne hne]
        · rw [hread, if_neg fun hkey => hne (hkeys hkey)]
      rw [hof]
      refine ⟨hframe.1, ?_, fun _ => hframe.2⟩
      intro b hb
      cases hb

end Device

/-- Sessions that keep their tokens under different keys of one storage, with other code that
writes other keys, run each as over a store of its own: it takes the same actions, and under its
key is what this store has. -/
theorem stores_refine {σ ι : Type} [DecidableEq ι] {S : KeyValueStorage σ} {keys : ι → String}
    {o : ι → Options} (hkeys : Function.Injective keys) {d₀ d : Device σ ι}
    {m : List (Transition.Step (Device σ ι) (Device.Action keys))}
    (hrun : (Device.system S keys o).Run d₀ m d) (i : ι) {store : Option StoredTokens}
    (hread : S.read (keys i) d₀.storage = store.map StoredTokens.toValue) :
    ∃ steps s, (system (o i)).Run { d₀.sessions i with store } steps s ∧
      steps.map Transition.Step.action = m.filterMap (fun p => p.action.of keys i) ∧
      s = { d.sessions i with store := s.store } ∧
      S.read (keys i) d.storage = s.store.map StoredTokens.toValue := by
  obtain ⟨hstart, hview⟩ := Device.holds_of_read hread
  rw [← hview]
  have hrefines : Device.Holds S keys d i ∧ ∃ steps,
      (system (o i)).Run (d₀.session S keys i) steps (d.session S keys i) ∧
        steps.map Transition.Step.action = m.filterMap fun p => p.action.of keys i := by
    induction hrun with
    | nil => exact ⟨hstart, [], .nil, rfl⟩
    | @snoc m p h hp ih =>
      obtain ⟨hbefore, steps, hsteps, hactions⟩ := ih
      obtain ⟨hafter, hown, hother⟩ := Device.step_refines hkeys hbefore hp
      refine ⟨hafter, ?_⟩
      rw [List.filterMap_append, ← hactions]
      cases hof : p.action.of keys i with
      | none =>
        refine ⟨steps, ?_, ?_⟩
        · rw [hother hof]
          exact hsteps
        · simp [hof]
      | some b =>
        refine ⟨steps ++ [⟨p.before.session S keys i, b, p.after.session S keys i⟩], ?_, ?_⟩
        · exact hsteps.snoc (hown b hof)
        · simp [hof]
  obtain ⟨hholds, steps, hsteps, hactions⟩ := hrefines
  exact ⟨steps, _, hsteps, hactions, rfl, hholds⟩

def memoryStorage : KeyValueStorage (String → Option String) where
  get s key := s key
  set s key text := Function.update s key (some text)
  delete s key := Function.update s key none
  get_set s key text name := Function.update_apply s key (some text) name
  get_delete s key name := Function.update_apply s key none name

def exampleKeys (i : Bool) : String := if i then "bauth_tokens" else "tokens"

/-- Two sessions just created; one of them finds tokens under its key. -/
def exampleDevice : Device (String → Option String) Bool where
  storage := memoryStorage.write "bauth_tokens" (fun _ => none) (some ⟨"a", "r", none⟩)
  sessions _ := createSession 0 none

/-- One saves new tokens, and the theme of a page is kept beside them. -/
def exampleActions : List (Device.Action exampleKeys) :=
  [.session true (.call (.save ⟨"b", "s", 900⟩)), .session true (.perform 0),
    .elsewhere (.set "theme" "dark") (by decide), .session true (.perform 0)]

/-- A session saves tokens while the page sets a key of its own. -/
theorem stores_refine_example :
    ∃ m d, (Device.system memoryStorage exampleKeys fun _ => ⟨30000, fun _ => none⟩).Run
        exampleDevice m d ∧ m.map Transition.Step.action = exampleActions ∧
      ∃ steps s,
        (system ⟨30000, fun _ => none⟩).Run (createSession 0 (some ⟨"a", "r", none⟩)) steps s ∧
        steps.map Transition.Step.action = m.filterMap (fun p => p.action.of exampleKeys true) ∧
        s = { d.sessions true with store := s.store } ∧
        memoryStorage.read (exampleKeys true) d.storage = s.store.map StoredTokens.toValue := by
  obtain ⟨⟨m, d⟩, hexec⟩ : ∃ r, (Device.system memoryStorage exampleKeys
      fun _ => ⟨30000, fun _ => none⟩).exec exampleDevice exampleActions = some r := ⟨_, rfl⟩
  have hkeys : Function.Injective exampleKeys := by decide
  have hread : memoryStorage.read (exampleKeys true) exampleDevice.storage =
      Option.map StoredTokens.toValue (some ⟨"a", "r", none⟩) := by
    rw [exampleDevice, exampleKeys, if_pos rfl, read_write, if_pos rfl]
  have hrun := System.exec_run hexec
  exact ⟨m, d, hrun, System.exec_actions hexec, stores_refine hkeys hrun true hread⟩

end Sdk

end Bauth
