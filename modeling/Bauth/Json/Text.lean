import Bauth.Json.Write

/-!
# Reading JSON as it was written

A text that reaches its reader character by character gives back the strings that were written, as
UTF-16 code units.
-/

namespace Json

/-- The UTF-16 code units of a text. -/
def units (s : List Char) : List ℕ := s.flatMap codeUnits

@[simp] lemma units_nil : units [] = [] := rfl

@[simp] lemma units_cons (c : Char) (s : List Char) : units (c :: s) = codeUnits c ++ units s := rfl

/-! ### Texts of different code units -/

lemma codeUnits_low {c : Char} (h : c.toNat < 0x10000) : codeUnits c = [c.toNat] := if_pos h

lemma codeUnits_high {c : Char} (h : ¬c.toNat < 0x10000) :
    codeUnits c = [0xD800 + (c.toNat - 0x10000) / 0x400, 0xDC00 + (c.toNat - 0x10000) % 0x400] :=
  if_neg h

/-- A character is no surrogate. -/
lemma toNat_range (c : Char) : c.toNat < 0xD800 ∨ 0xDFFF < c.toNat ∧ c.toNat < 0x110000 := c.valid

lemma char_eq_of_toNat {c d : Char} (h : c.toNat = d.toNat) : c = d :=
  Char.ext (UInt32.toNat_inj.mp h)

/-- The code units of a text tell the text. -/
lemma units_injective : Function.Injective units := by
  intro s
  induction s with
  | nil =>
    intro t h
    cases t with
    | nil => rfl
    | cons d t =>
      rw [units_nil, units_cons] at h
      by_cases hd : d.toNat < 0x10000
      · simp [codeUnits_low hd] at h
      · simp [codeUnits_high hd] at h
  | cons c s ih =>
    intro t h
    cases t with
    | nil =>
      rw [units_nil, units_cons] at h
      by_cases hc : c.toNat < 0x10000
      · simp [codeUnits_low hc] at h
      · simp [codeUnits_high hc] at h
    | cons d t =>
      rw [units_cons, units_cons] at h
      have hc' := toNat_range c
      have hd' := toNat_range d
      by_cases hc : c.toNat < 0x10000
      · by_cases hd : d.toNat < 0x10000
        · simp only [codeUnits_low hc, codeUnits_low hd, List.cons_append, List.nil_append,
            List.cons.injEq] at h
          rw [char_eq_of_toNat h.1, ih h.2]
        · simp only [codeUnits_low hc, codeUnits_high hd, List.cons_append, List.nil_append,
            List.cons.injEq] at h
          omega
      · by_cases hd : d.toNat < 0x10000
        · simp only [codeUnits_high hc, codeUnits_low hd, List.cons_append, List.nil_append,
            List.cons.injEq] at h
          omega
        · simp only [codeUnits_high hc, codeUnits_high hd, List.cons_append, List.nil_append,
            List.cons.injEq] at h
          have hsame : c.toNat = d.toNat := by omega
          rw [char_eq_of_toNat hsame, ih h.2.2]

/-- The text of these code units, unless a surrogate is on its own. -/
def ofUnits : List ℕ → Option (List Char)
  | [] => some []
  | [u] => if u < 0xD800 ∨ 0xDFFF < u then some [Char.ofNat u] else none
  | u :: v :: rest =>
    if u < 0xD800 ∨ 0xDFFF < u then (ofUnits (v :: rest)).map (Char.ofNat u :: ·)
    else if u < 0xDC00 ∧ 0xDC00 ≤ v ∧ v ≤ 0xDFFF then
      (ofUnits rest).map (Char.ofNat (0x10000 + (u - 0xD800) * 0x400 + (v - 0xDC00)) :: ·)
    else none

lemma ofUnits_cons {u : ℕ} (hu : u < 0xD800 ∨ 0xDFFF < u) (rest : List ℕ) :
    ofUnits (u :: rest) = (ofUnits rest).map (Char.ofNat u :: ·) := by
  cases rest with
  | nil => exact if_pos hu
  | cons v rest => rw [ofUnits, if_pos hu]

/-- A text is read back from its code units. -/
theorem ofUnits_units (s : List Char) : ofUnits (units s) = some s := by
  induction s with
  | nil => rfl
  | cons c s ih =>
    have hc := toNat_range c
    rw [units_cons]
    by_cases hlow : c.toNat < 0x10000
    · rw [codeUnits_low hlow, List.singleton_append, ofUnits_cons (by omega), ih, Option.map_some,
        Char.ofNat_toNat]
    · have hpair : 0x10000 + (0xD800 + (c.toNat - 0x10000) / 0x400 - 0xD800) * 0x400 +
          (0xDC00 + (c.toNat - 0x10000) % 0x400 - 0xDC00) = c.toNat := by
        omega
      rw [codeUnits_high hlow, List.cons_append, List.singleton_append, ofUnits,
        if_neg (by omega), if_pos (by omega), ih, Option.map_some, hpair, Char.ofNat_toNat]

/-! ### Strings -/

/-- A character that a string has as it is. -/
lemma adds_char {c : Char} (hc : 0x20 ≤ c.toNat) (hquote : c ≠ '"') (hslash : c ≠ '\\') :
    Adds (codeUnits c) [c] := by
  intro rest
  rw [List.singleton_append, parseChars]
  · rw [if_neg (by simp [hslash, hc])]
    cases parseChars rest <;> rfl
  all_goals simp [hquote, hslash]

/-- An escaped character is read as itself. -/
lemma adds_escaped (c : Char) : Adds (codeUnits c) (escape c) := by
  have hlow : ∀ {n}, c.toNat = n → n < 128 → codeUnits c = [n] := by
    rintro _ rfl h
    exact codeUnits_low (by omega)
  unfold escape
  split_ifs with h₁ h₂ h₃ h₄ h₅ h₆ h₇ h₈
  · rw [h₁]
    exact adds_unescape (by decide)
  · rw [h₂]
    exact adds_unescape (by decide)
  · rw [hlow h₃ (by decide)]
    exact adds_unescape (by decide)
  · rw [hlow h₄ (by decide)]
    exact adds_unescape (by decide)
  · rw [hlow h₅ (by decide)]
    exact adds_unescape (by decide)
  · rw [hlow h₆ (by decide)]
    exact adds_unescape (by decide)
  · rw [hlow h₇ (by decide)]
    exact adds_unescape (by decide)
  · have hhex : ∀ n < 32, hexUnit '0' '0' (hexChar (n / 16)) (hexChar (n % 16)) = some n := by
      decide
    rw [hlow rfl (by omega)]
    exact adds_hex (hhex c.toNat h₈)
  · exact adds_char (by omega) h₁ h₂

lemma adds_text (s : List Char) : Adds (units s) (s.flatMap escape) := by
  induction s with
  | nil => exact .nil
  | cons c s ih =>
    rw [List.flatMap_cons, units_cons]
    exact (adds_escaped c).append ih

/-- A string that was written is read up to its closing quote. -/
lemma parseChars_text (s rest : List Char) :
    parseChars (s.flatMap escape ++ '"' :: rest) = some (units s, rest) := by
  rw [adds_text s ('"' :: rest), parseChars]
  simp

/-! ### Objects -/

/-- What is read of a scalar. -/
def Scalar.value : Scalar → Value
  | string s => .string (units s)
  | integer n => .number n

lemma parseValue_text (fuel : ℕ) (v : Scalar) {text : List Char} (htext : EndsNumber text) :
    parseValue (fuel + 1) (v.write ++ text) = some (v.value, text) := by
  cases v with
  | string s =>
    have hopen : (Scalar.string s).write ++ text = '"' :: (s.flatMap escape ++ '"' :: text) := by
      simp [Scalar.write, writeString]
    rw [hopen, parseValue, skipWhitespace_cons (by decide)]
    simp only [parseChars_text, Option.bind_eq_bind, Option.bind_some]
    rfl
  | integer n =>
    have hread := parseValue_integer fuel n htext
    rw [latin1_writeInt] at hread
    exact hread

/-- One member, and what follows it. -/
lemma parseMembers_text_step (fuel : ℕ) (m : List Char × Scalar) {c : Char}
    (hc : c = ',' ∨ c = '}') (text : List Char) :
    parseMembers (fuel + 2) (writeString m.1 ++ ':' :: m.2.write ++ c :: text) =
      if c = ',' then
        (parseMembers (fuel + 1) text).map fun p => ((units m.1, m.2.value) :: p.1, p.2)
      else some ([(units m.1, m.2.value)], text) := by
  have htext : writeString m.1 ++ ':' :: m.2.write ++ c :: text =
      '"' :: (m.1.flatMap escape ++ '"' :: ':' :: (m.2.write ++ c :: text)) := by
    simp [writeString]
  rw [htext, parseMembers, skipWhitespace_cons (by decide)]
  simp only [parseChars_text, Option.bind_eq_bind, Option.bind_some]
  rw [skipWhitespace_cons (by decide)]
  simp only [parseValue_text fuel m.2 ⟨c, text, rfl, hc⟩, Option.bind_some]
  rcases hc with rfl | rfl
  · rw [skipWhitespace_cons (by decide), if_pos rfl]
    show (parseMembers (fuel + 1) text).bind
      (fun p => some ((units m.1, m.2.value) :: p.1, p.2)) = _
    cases parseMembers (fuel + 1) text <;> rfl
  · rw [skipWhitespace_cons (by decide)]
    rfl

lemma parseMembers_text {members : List (List Char × Scalar)} (hne : members ≠ []) {fuel : ℕ}
    (hfuel : members.length ≤ fuel) (rest : List Char) :
    parseMembers (fuel + 1) (writeMembers members ++ rest) =
      some (members.map fun m => (units m.1, m.2.value), rest) := by
  induction members generalizing fuel with
  | nil => exact absurd rfl hne
  | cons m members ih =>
    cases fuel with
    | zero => cases hfuel
    | succ fuel =>
      cases members with
      | nil =>
        have htext : writeMembers [m] ++ rest =
            writeString m.1 ++ ':' :: m.2.write ++ '}' :: rest := by
          simp [writeMembers]
        rw [htext, parseMembers_text_step fuel m (.inr rfl), if_neg (by decide)]
        rfl
      | cons m' members =>
        have htext : writeMembers (m :: m' :: members) ++ rest =
            writeString m.1 ++ ':' :: m.2.write ++ ',' ::
              (writeMembers (m' :: members) ++ rest) := by
          simp [writeMembers]
        have hrest := ih (List.cons_ne_nil _ _) (Nat.le_of_succ_le_succ hfuel)
        rw [htext, parseMembers_text_step fuel m (.inl rfl), if_pos rfl, hrest]
        rfl

/-- An object that was written is read back. -/
theorem parse_text {members : List (List Char × Scalar)} (hne : members ≠ []) :
    parse (writeObject members) =
      some (.object (members.map fun m => (units m.1, m.2.value))) := by
  have hlength := length_writeMembers members
  -- a member starts with the quote of its name
  obtain ⟨text, hcons⟩ : ∃ text, writeMembers members = '"' :: text := by
    cases members with
    | nil => exact absurd rfl hne
    | cons m members =>
      cases members with
      | nil => exact ⟨_, by rw [writeMembers, writeString, List.cons_append, List.cons_append,
          List.cons_append]⟩
      | cons m' rest => exact ⟨_, by rw [writeMembers, writeString, List.cons_append,
          List.cons_append, List.cons_append]⟩
  have hmembers : ∀ fuel, members.length ≤ fuel → parseMembers (fuel + 1) ('"' :: text) =
      some (members.map fun m => (units m.1, m.2.value), []) := by
    intro fuel hfuel
    have hread := parseMembers_text hne hfuel []
    rwa [List.append_nil, hcons] at hread
  have hvalue : ∀ fuel, parseValue (fuel + 1) ('{' :: '"' :: text) =
      (parseMembers fuel ('"' :: text)).bind fun p => some (.object p.1, p.2) := fun _ => rfl
  rw [hcons, List.length_cons] at hlength
  rw [writeObject, hcons, parse, List.length_cons, hvalue, List.length_cons, hmembers _ hlength]
  rfl

/-- The property of an object whose names differ. -/
lemma property_of_mem {members : List (List Char × Scalar)} {name : String} {v : Scalar}
    (hmem : (name.toList, v) ∈ members) (hnames : (members.map Prod.fst).Nodup) :
    (Value.object (members.map fun m => (units m.1, m.2.value))).property name = some v.value := by
  rw [Value.property, ← List.map_reverse, List.find?_map, Option.map_map]
  have hfind : members.reverse.find? (fun m => decide (units m.1 = units name.toList)) =
      some (name.toList, v) := by
    have hnodup : (members.reverse.map Prod.fst).Nodup := by
      rw [List.map_reverse]
      exact List.nodup_reverse.mpr hnames
    have hmem' := List.mem_reverse.mpr hmem
    generalize members.reverse = l at hnodup hmem'
    induction l with
    | nil => cases hmem'
    | cons m l ih =>
      rw [List.map_cons, List.nodup_cons] at hnodup
      by_cases hm : units m.1 = units name.toList
      · rw [List.find?_cons_of_pos (by simpa using hm)]
        rcases List.mem_cons.mp hmem' with hsame | hlater
        · rw [hsame]
        · refine absurd (List.mem_map_of_mem (f := Prod.fst) hlater) ?_
          rw [← units_injective hm]
          exact hnodup.1
      · rw [List.find?_cons_of_neg (by simpa using hm)]
        rcases List.mem_cons.mp hmem' with rfl | hlater
        · exact absurd rfl hm
        · exact ih hnodup.2 hlater
  exact congrArg (Option.map fun m => m.2.value) hfind

/-- A property that no member has. -/
lemma property_of_notMem {members : List (List Char × Scalar)} {name : String}
    (hname : name.toList ∉ members.map Prod.fst) :
    (Value.object (members.map fun m => (units m.1, m.2.value))).property name = none := by
  rw [Value.property, Option.map_eq_none_iff, List.find?_eq_none]
  intro m hm
  obtain ⟨m₀, hm₀, rfl⟩ := List.mem_map.mp (List.mem_reverse.mp hm)
  simp only [decide_eq_true_eq]
  intro hsame
  exact hname (units_injective hsame ▸ List.mem_map_of_mem hm₀)

end Json
