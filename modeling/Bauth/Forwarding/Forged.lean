import Bauth.Forwarding.Text
import Bauth.Forwarding.Walk

/-!
# Forging `X-Forwarded-For` through trusted proxies

A client writes any lines of its own; each trusted proxy on the way appends the address it was
reached from. A line with a byte outside visible ASCII is not read at all, with what a proxy
appended to it: there the client's other lines are believed.
-/

namespace Bauth

/-! ### The hops of the header, line by line -/

/-- The hops of one line, the closest first; none when it is not visible ASCII. -/
def lineHops (line : Bytes) : List (Option IpAddr) := ((headerText line).map hops).getD []

def headerHops (lines : List Bytes) : List (Option IpAddr) := lines.reverse.flatMap lineHops

@[simp] lemma headerHops_append_singleton (lines : List Bytes) (line : Bytes) :
    headerHops (lines ++ [line]) = lineHops line ++ headerHops lines := by
  simp [headerHops]

lemma hops_intercalate {texts : List (List Char)} (h : texts ≠ []) :
    hops (List.intercalate [','] texts) = texts.reverse.flatMap hops := by
  change _ = texts.reverse.flatMap fun s => hops s
  simp only [hops, splitOn_intercalate_flatMap h, List.map_flatMap, List.reverse_flatMap,
    List.map_reverse, Function.comp_def]

lemma headerHops_eq (lines : List Bytes) :
    headerHops lines = (lines.filterMap headerText).reverse.flatMap hops := by
  induction lines using List.reverseRecOn with
  | nil => rfl
  | append_singleton lines line ih =>
    rw [headerHops_append_singleton, ih, lineHops]
    cases htext : headerText line <;> simp [List.filterMap_append, htext]

/-- Only the lines that are visible ASCII matter, and only up to the first hop that is no
address. -/
theorem clientIp_eq_leave (peer : IpAddr) (lines : List Bytes) (trusted : List IpAddr) :
    clientIp peer lines trusted = leave (· ∈ trusted) peer (reached (headerHops lines)) := by
  rw [clientIp, resolve_eq_leave, headerHops_eq]
  by_cases h : lines.filterMap headerText = []
  · have hempty : reached (hops (List.intercalate [','] [])) = [] := by decide +kernel
    rw [h, hempty]
    rfl
  · rw [hops_intercalate h]

/-! ### What a proxy does to the header -/

/-- What a trusted proxy does with a request: it writes `entry`, on a line of its own or after a
comma on the last line. -/
structure Forward where
  proxy : IpAddr
  entry : Bytes
  newLine : Bool

def Forward.append (f : Forward) (lines : List Bytes) : List Bytes :=
  match f.newLine, lines.getLast? with
  | false, some line => lines.dropLast ++ [line ++ 44 :: f.entry]
  | _, _ => lines ++ [f.entry]

/-- The lines the server gets. -/
def forwarded (lines : List Bytes) (path : List Forward) : List Bytes :=
  path.foldl (fun lines f => f.append lines) lines

/-- The bytes are the text of an address, spaces around it or not. -/
structure Names (entry : Bytes) (peer : IpAddr) : Prop where
  text : ∃ s, headerText entry = some s ∧ ',' ∉ s ∧ IpAddr.parse (trim s) = some peer

/-- Every proxy of the path is trusted and writes the address it was reached from. -/
def Honest (trusted : List IpAddr) (peer : IpAddr) : List Forward → Prop
  | [] => True
  | f :: path => Names f.entry peer ∧ f.proxy ∈ trusted ∧ Honest trusted f.proxy path

/-- The address the server is reached from. -/
def lastPeer (peer : IpAddr) : List Forward → IpAddr
  | [] => peer
  | f :: path => lastPeer f.proxy path

/-! ### Which entries are read -/

lemma headerText_append (line rest : Bytes) :
    headerText (line ++ rest) =
      (headerText line).bind fun s => (headerText rest).map fun t => s ++ t := by
  by_cases hline : line.all visibleAscii = true
  · by_cases hrest : rest.all visibleAscii = true
    · simp [headerText, hline, hrest]
    · simp [headerText, hline, hrest]
  · simp [headerText, hline]

lemma Names.lineHops {entry : Bytes} {peer : IpAddr} (h : Names entry peer) :
    lineHops entry = [some peer] := by
  obtain ⟨s, hs, hcomma, hip⟩ := h
  simp [Bauth.lineHops, hs, hops, List.splitOn_eq_singleton hcomma, hip]

/-- After a comma the address stands at the end of the line, if the line can be read. -/
lemma Names.lineHops_append {entry line : Bytes} {peer : IpAddr} (h : Names entry peer) :
    Bauth.lineHops (line ++ 44 :: entry) =
      if (headerText line).isSome then some peer :: Bauth.lineHops line else [] := by
  obtain ⟨s, hs, hcomma, hip⟩ := h
  have hentry : headerText (44 :: entry) = some (',' :: s) := by
    have hcommaText : headerText [44] = some [','] := by decide +kernel
    have := headerText_append [44] entry
    simpa [hcommaText, hs] using this
  cases hline : headerText line with
  | none => simp [Bauth.lineHops, headerText_append, hline]
  | some t =>
    simp [Bauth.lineHops, headerText_append, hline, hentry, hops, List.splitOn_append_cons_self,
      List.splitOn_eq_singleton hcomma, hip]

/-- Can the last line be read? With no line there is nothing to spoil the entry. -/
def lastLineRead (lines : List Bytes) : Bool :=
  lines.getLast?.all fun line => (headerText line).isSome

/-- Is what `f` writes read? -/
def Forward.read (f : Forward) (lines : List Bytes) : Bool := f.newLine || lastLineRead lines

lemma Forward.append_nil (f : Forward) : f.append [] = [f.entry] := by
  simp [Forward.append]

lemma Forward.append_concat (f : Forward) (lines : List Bytes) (line : Bytes) :
    f.append (lines ++ [line]) =
      if f.newLine then lines ++ [line] ++ [f.entry]
      else lines ++ [line ++ 44 :: f.entry] := by
  cases hnew : f.newLine <;> simp [Forward.append, hnew]

/-- One proxy adds its entry in front of the hops, or changes nothing. -/
lemma headerHops_append {f : Forward} {peer : IpAddr} (h : Names f.entry peer)
    (lines : List Bytes) :
    headerHops (f.append lines) =
      if f.read lines then some peer :: headerHops lines else headerHops lines := by
  cases lines using List.reverseRecOn with
  | nil => simp [Forward.append_nil, Forward.read, lastLineRead, headerHops, h.lineHops]
  | append_singleton lines line =>
    rw [Forward.append_concat]
    cases hnew : f.newLine with
    | true => simp [Forward.read, hnew, h.lineHops, - List.append_assoc]
    | false =>
      have hbase : lineHops line = ((headerText line).map hops).getD [] := rfl
      cases hline : headerText line <;>
        simp [Forward.read, lastLineRead, hnew, hline, h.lineHops_append, hbase]

/-! ### What the server resolves to -/

section Path

variable {trusted : List IpAddr} {client : IpAddr}

lemma lastPeer_trusted {f : Forward} {path : List Forward} {peer : IpAddr}
    (h : Honest trusted peer (f :: path)) : lastPeer peer (f :: path) ∈ trusted := by
  induction path generalizing f peer with
  | nil => exact h.2.1
  | cons g path ih => exact ih h.2.2

/-- Proxies reached from trusted proxies write trusted addresses only. -/
lemma headerHops_forwarded {path : List Forward} {peer : IpAddr} (h : Honest trusted peer path)
    (hpeer : peer ∈ trusted) (lines : List Bytes) :
    ∃ entries : List IpAddr, (∀ a ∈ entries, a ∈ trusted) ∧
      headerHops (forwarded lines path) = entries.map some ++ headerHops lines := by
  induction path generalizing peer lines with
  | nil => exact ⟨[], by simp, rfl⟩
  | cons f path ih =>
    obtain ⟨hnames, hproxy, hrest⟩ := h
    obtain ⟨entries, hentries, hhops⟩ := ih hrest hproxy (f.append lines)
    by_cases hread : f.read lines = true
    · refine ⟨entries ++ [peer], ?_, ?_⟩
      · simpa [or_imp, forall_and, hpeer] using hentries
      · have : forwarded lines (f :: path) = forwarded (f.append lines) path := rfl
        rw [this, hhops, headerHops_append hnames, if_pos hread]
        simp
    · refine ⟨entries, hentries, ?_⟩
      have : forwarded lines (f :: path) = forwarded (f.append lines) path := rfl
      rw [this, hhops, headerHops_append hnames, if_neg hread]

lemma reached_map_some_append (entries : List IpAddr) (l : List (Option IpAddr)) :
    reached (entries.map some ++ l) = entries ++ reached l := by
  induction entries with
  | nil => rfl
  | cons a entries ih => simp [reached, ih]

/-- Some trusted addresses of the chain lead to `client`. -/
def LeadsTo (trusted : List IpAddr) (client : IpAddr) (chain : List IpAddr) : Prop :=
  ∃ between after, chain = between ++ client :: after ∧ ∀ z ∈ between, z ∈ trusted

/-- From a trusted peer the walk ends at an untrusted address exactly when trusted ones lead
there. -/
lemma leave_eq_iff {x a : IpAddr} (hx : x ∈ trusted) (ha : a ∉ trusted) (rest : List IpAddr) :
    leave (· ∈ trusted) x rest = a ↔ LeadsTo trusted a rest := by
  constructor
  · rintro rfl
    obtain ⟨before, after, hsplit, hpassed, -⟩ := leaves_leave (p := (· ∈ trusted)) x rest
    cases before with
    | nil =>
      simp only [List.nil_append, List.cons.injEq] at hsplit
      exact absurd (hsplit.1 ▸ hx) ha
    | cons b before =>
      simp only [List.cons_append, List.cons.injEq] at hsplit
      exact ⟨before, after, hsplit.2, fun z hz => hpassed z (List.mem_cons_of_mem _ hz)⟩
  · rintro ⟨between, after, rfl, hbetween⟩
    have hleft : Leaves (· ∈ trusted) (x :: (between ++ a :: after)) (x :: between) a after :=
      ⟨rfl, by simpa [hx] using hbetween, fun h => absurd h ha⟩
    exact hleft.leave_eq

lemma leadsTo_append {entries : List IpAddr} (hentries : ∀ a ∈ entries, a ∈ trusted)
    (hclient : client ∉ trusted) (chain : List IpAddr) :
    LeadsTo trusted client (entries ++ chain) ↔ LeadsTo trusted client chain := by
  constructor
  · rintro ⟨between, after, hsplit, hbetween⟩
    induction entries generalizing between with
    | nil => exact ⟨between, after, hsplit, hbetween⟩
    | cons a entries ih =>
      cases between with
      | nil =>
        simp only [List.cons_append, List.nil_append, List.cons.injEq] at hsplit
        exact absurd (hsplit.1 ▸ hentries a (by simp)) hclient
      | cons b between =>
        simp only [List.cons_append, List.cons.injEq] at hsplit
        exact ih (fun z hz => hentries z (List.mem_cons_of_mem _ hz)) between hsplit.2
          fun z hz => hbetween z (List.mem_cons_of_mem _ hz)
  · rintro ⟨between, after, rfl, hbetween⟩
    refine ⟨entries ++ between, after, by simp, ?_⟩
    intro z hz
    rcases List.mem_append.mp hz with hz | hz
    · exact hentries z hz
    · exact hbetween z hz

/-- The first proxy's entry can be read, or there is no proxy, or the client's own lines name it
behind trusted addresses, as proxies would. -/
def EntryRead (trusted : List IpAddr) (client : IpAddr) (lines : List Bytes) :
    List Forward → Prop
  | [] => True
  | f :: _ => f.read lines = true ∨ LeadsTo trusted client (reached (headerHops lines))

/-- The server resolves an untrusted client behind honest proxies to its address exactly when the
first proxy's entry is on a line that can be read, or the client's own lines tell the truth. -/
theorem clientIp_forwarded_iff {path : List Forward} {lines : List Bytes}
    (hclient : client ∉ trusted) (hpath : Honest trusted client path) :
    clientIp (lastPeer client path) (forwarded lines path) trusted = client ↔
      EntryRead trusted client lines path := by
  rw [clientIp_eq_leave]
  cases path with
  | nil =>
    have hstays : leave (· ∈ trusted) client (reached (headerHops lines)) = client := by
      cases reached (headerHops lines) <;> simp [leave, hclient]
    simpa [EntryRead, lastPeer, forwarded] using hstays
  | cons f path =>
    rw [leave_eq_iff (lastPeer_trusted hpath) hclient]
    obtain ⟨hnames, hproxy, hrest⟩ := hpath
    obtain ⟨entries, hentries, hhops⟩ := headerHops_forwarded hrest hproxy (f.append lines)
    have hforwarded : forwarded lines (f :: path) = forwarded (f.append lines) path := rfl
    rw [hforwarded, hhops, reached_map_some_append, headerHops_append hnames,
      leadsTo_append hentries hclient]
    by_cases hread : f.read lines = true
    · simp only [EntryRead, hread, if_true, true_or, iff_true]
      exact ⟨[], _, rfl, by simp⟩
    · simp only [EntryRead, hread, Bool.false_eq_true, if_false, false_or]

end Path

/-- Two proxies, one writing after a comma and one on a new line. -/
def examplePath : List Forward :=
  [⟨.v4 ⟨10, 0, 0, 2⟩, asBytes " 198.51.100.1", false⟩, ⟨.v4 ⟨10, 0, 0, 3⟩, asBytes "10.0.0.2", true⟩]

/-- An entry written as text, checked by evaluation. -/
def namesText (entry : Bytes) (peer : IpAddr) : Bool :=
  (headerText entry).any fun s => !s.contains ',' && IpAddr.parse (trim s) = some peer

lemma Names.of_text {entry : Bytes} {peer : IpAddr} (h : namesText entry peer = true) :
    Names entry peer := by
  obtain ⟨s, hs, hcheck⟩ := (Option.any_eq_true _ _).mp h
  simp only [Bool.and_eq_true, Bool.not_eq_true', List.contains_eq_mem, decide_eq_false_iff_not,
    decide_eq_true_eq] at hcheck
  exact ⟨s, hs, hcheck.1, hcheck.2⟩

lemma examplePath_honest :
    Honest [.v4 ⟨10, 0, 0, 2⟩, .v4 ⟨10, 0, 0, 3⟩] (.v4 ⟨198, 51, 100, 1⟩) examplePath := by
  refine ⟨.of_text ?_, by decide, .of_text ?_, by decide, trivial⟩
  · decide +kernel
  · decide +kernel

/-- Behind two honest proxies, what the client writes in front changes nothing. -/
theorem clientIp_forwarded_iff_visible :
    clientIp (.v4 ⟨10, 0, 0, 3⟩) (forwarded [asBytes "203.0.113.9", asBytes "nope"] examplePath)
        [.v4 ⟨10, 0, 0, 2⟩, .v4 ⟨10, 0, 0, 3⟩] = .v4 ⟨198, 51, 100, 1⟩ := by
  have hclient : IpAddr.v4 ⟨198, 51, 100, 1⟩ ∉
      [IpAddr.v4 ⟨10, 0, 0, 2⟩, IpAddr.v4 ⟨10, 0, 0, 3⟩] := by decide
  refine (clientIp_forwarded_iff hclient examplePath_honest).mpr (Or.inl ?_)
  decide +kernel

/-- A client behind two honest proxies is taken for the address its first line names, because its
last line is not ASCII. -/
theorem forged_client :
    ∃ client path lines, client ∉ [IpAddr.v4 ⟨10, 0, 0, 2⟩, IpAddr.v4 ⟨10, 0, 0, 3⟩] ∧
      Honest [.v4 ⟨10, 0, 0, 2⟩, .v4 ⟨10, 0, 0, 3⟩] client path ∧
      client = .v4 ⟨198, 51, 100, 1⟩ ∧
      clientIp (lastPeer client path) (forwarded lines path)
        [.v4 ⟨10, 0, 0, 2⟩, .v4 ⟨10, 0, 0, 3⟩] = .v4 ⟨203, 0, 113, 9⟩ := by
  refine ⟨.v4 ⟨198, 51, 100, 1⟩, examplePath, [asBytes "203.0.113.9", [0xff]], by decide,
    examplePath_honest, rfl, ?_⟩
  decide +kernel

end Bauth
