import Bauth.Json.Parse
import Mathlib.Data.List.TakeDrop
import Mathlib.Data.Nat.Digits.Lemmas
import Mathlib.Tactic.Ring

/-!
# Writing JSON

An object of strings and integers as `serde_json` writes it, without white space. Its UTF-8 bytes,
each read as one character, are still an object with the same members: the characters of a string
that are not ASCII come back as several, and nothing else changes.
-/

namespace Json

/-! ### One character for each byte -/

/-- The UTF-8 bytes of a text, each read as one character. -/
def latin1 (text : List Char) : List Char := (text.flatMap String.utf8EncodeChar).map Char.ofUInt8

/-- The same bytes as numbers. -/
def byteUnits (text : List Char) : List ℕ := (text.flatMap String.utf8EncodeChar).map UInt8.toNat

@[simp] lemma latin1_nil : latin1 [] = [] := rfl

@[simp] lemma latin1_append (s t : List Char) : latin1 (s ++ t) = latin1 s ++ latin1 t := by
  simp [latin1]

@[simp] lemma byteUnits_append (s t : List Char) : byteUnits (s ++ t) = byteUnits s ++ byteUnits t := by
  simp [byteUnits]

lemma toNat_ofUInt8 (a : UInt8) : (Char.ofUInt8 a).toNat = a.toNat := UInt8.toNat_toUInt32 a

lemma utf8EncodeChar_ascii {c : Char} (h : c.toNat < 128) :
    String.utf8EncodeChar c = [UInt8.ofNat c.toNat] := by
  have hc : c.val.toNat ≤ 0x7f := Nat.le_of_lt_succ h
  rw [String.utf8EncodeChar, if_pos hc]
  rfl

lemma latin1_ascii {c : Char} (h : c.toNat < 128) (text : List Char) :
    latin1 (c :: text) = c :: latin1 text := by
  have hc : Char.ofUInt8 (UInt8.ofNat c.toNat) = c := by
    refine Char.toNat_inj.mp ?_
    rw [toNat_ofUInt8, UInt8.toNat_ofNat']
    exact Nat.mod_eq_of_lt (by omega)
  simp only [latin1, List.flatMap_cons, utf8EncodeChar_ascii h, List.map_cons, hc,
    List.singleton_append]

/-- The characters for the bytes of a character that a string may have as it is are such too. -/
lemma latin1_raw {c : Char} (hc : 0x20 ≤ c.toNat) (hquote : c ≠ '"') (hslash : c ≠ '\\') :
    ∀ x ∈ latin1 [c], 0x20 ≤ x.toNat ∧ x.toNat < 256 ∧ x ≠ '"' ∧ x ≠ '\\' := by
  by_cases hascii : c.toNat < 128
  · rw [latin1_ascii hascii, latin1_nil]
    simp only [List.mem_singleton, forall_eq]
    exact ⟨hc, by omega, hquote, hslash⟩
  · -- the bytes of other characters are 128 at least
    have hbytes : ∀ b ∈ String.utf8EncodeChar c, 128 ≤ b.toNat := by
      have hc' : ¬c.val.toNat ≤ 0x7f := by
        intro hle
        exact hascii (Nat.lt_succ_of_le hle)
      rw [String.utf8EncodeChar, if_neg hc']
      split_ifs <;> simp [UInt8.toNat_ofNat'] <;> omega
    intro x hx
    simp only [latin1, List.flatMap_cons, List.flatMap_nil, List.append_nil, List.mem_map] at hx
    obtain ⟨b, hb, rfl⟩ := hx
    have hle := hbytes b hb
    have hlt := b.toNat_lt
    rw [toNat_ofUInt8]
    refine ⟨by omega, hlt, ?_, ?_⟩
    all_goals
      intro heq
      have hnat := congrArg Char.toNat heq
      rw [toNat_ofUInt8] at hnat
      have hsmall : b.toNat < 128 := by
        rw [hnat]
        decide
      omega

/-! ### Strings -/

def hexChar (n : ℕ) : Char := "0123456789abcdef".toList.getD n '0'

/-- A character in a string. -/
def escape (c : Char) : List Char :=
  if c = '"' then ['\\', '"']
  else if c = '\\' then ['\\', '\\']
  else if c.toNat = 8 then ['\\', 'b']
  else if c.toNat = 9 then ['\\', 't']
  else if c.toNat = 10 then ['\\', 'n']
  else if c.toNat = 12 then ['\\', 'f']
  else if c.toNat = 13 then ['\\', 'r']
  else if c.toNat < 0x20 then ['\\', 'u', '0', '0', hexChar (c.toNat / 16), hexChar (c.toNat % 16)]
  else [c]

def writeString (s : List Char) : List Char := '"' :: s.flatMap escape ++ ['"']

/-- What follows a text that adds `units` to a string. -/
def Adds (units : List ℕ) (text : List Char) : Prop :=
  ∀ rest, parseChars (text ++ rest) = (parseChars rest).map fun p => (units ++ p.1, p.2)

lemma Adds.nil : Adds [] [] := fun rest => by simp

lemma Adds.append {units units' : List ℕ} {text text' : List Char} (h : Adds units text)
    (h' : Adds units' text') : Adds (units ++ units') (text ++ text') := by
  intro rest
  rw [List.append_assoc, h, h', Option.map_map]
  simp [Function.comp_def]

/-- A character that a string may have as it is. -/
lemma adds_raw {c : Char} (hc : 0x20 ≤ c.toNat) (hlt : c.toNat < 0x10000) (hquote : c ≠ '"')
    (hslash : c ≠ '\\') : Adds [c.toNat] [c] := by
  intro rest
  rw [List.singleton_append, parseChars]
  · rw [if_neg (by simp [hslash, hc])]
    cases parseChars rest <;> simp [codeUnits, hlt]
  all_goals simp [hquote, hslash]

lemma adds_raws {l : List Char} (h : ∀ x ∈ l, 0x20 ≤ x.toNat ∧ x.toNat < 256 ∧ x ≠ '"' ∧ x ≠ '\\') :
    Adds (l.map Char.toNat) l := by
  induction l with
  | nil => exact .nil
  | cons c l ih =>
    obtain ⟨hc, hlt, hquote, hslash⟩ := h c List.mem_cons_self
    exact (adds_raw hc (by omega) hquote hslash).append
      (ih fun x hx => h x (List.mem_cons_of_mem c hx))

/-- An escape of two characters. -/
lemma adds_unescape {c : Char} {n : ℕ} (hc : unescape c = some n) : Adds [n] ['\\', c] := by
  intro rest
  have hu : c ≠ 'u' := by
    rintro rfl
    have hnone : unescape 'u' = none := by decide
    cases hnone.symm.trans hc
  show parseChars ('\\' :: c :: rest) = _
  rw [parseChars]
  · rw [hc]
    cases parseChars rest <;> rfl
  all_goals simp [hu]

lemma adds_hex {a b c d : Char} {n : ℕ} (h : hexUnit a b c d = some n) :
    Adds [n] ['\\', 'u', a, b, c, d] := by
  intro rest
  show parseChars ('\\' :: 'u' :: a :: b :: c :: d :: rest) = _
  rw [parseChars, h]
  cases parseChars rest <;> rfl

/-- A character of a string is read as its bytes. -/
lemma adds_escape (c : Char) : Adds (byteUnits [c]) (latin1 (escape c)) := by
  have hbytes : ∀ {n}, c.toNat = n → n < 128 → byteUnits [c] = [n] := by
    rintro _ rfl h
    simp only [byteUnits, List.flatMap_cons, List.flatMap_nil, List.append_nil,
      utf8EncodeChar_ascii h, List.map_cons, List.map_nil, UInt8.toNat_ofNat']
    rw [Nat.mod_eq_of_lt (by omega)]
  have hpair : ∀ {x : Char}, x.toNat < 128 → latin1 ['\\', x] = ['\\', x] := fun h => by
    rw [latin1_ascii (by decide), latin1_ascii h, latin1_nil]
  unfold escape
  split_ifs with h₁ h₂ h₃ h₄ h₅ h₆ h₇ h₈
  · rw [h₁, hpair (by decide)]
    exact adds_unescape (by decide)
  · rw [h₂, hpair (by decide)]
    exact adds_unescape (by decide)
  · rw [hbytes h₃ (by decide), hpair (by decide)]
    exact adds_unescape (by decide)
  · rw [hbytes h₄ (by decide), hpair (by decide)]
    exact adds_unescape (by decide)
  · rw [hbytes h₅ (by decide), hpair (by decide)]
    exact adds_unescape (by decide)
  · rw [hbytes h₆ (by decide), hpair (by decide)]
    exact adds_unescape (by decide)
  · rw [hbytes h₇ (by decide), hpair (by decide)]
    exact adds_unescape (by decide)
  · have hhex : ∀ n < 32, hexUnit '0' '0' (hexChar (n / 16)) (hexChar (n % 16)) = some n ∧
        latin1 ['\\', 'u', '0', '0', hexChar (n / 16), hexChar (n % 16)] =
          ['\\', 'u', '0', '0', hexChar (n / 16), hexChar (n % 16)] := by
      decide
    obtain ⟨hunit, htext⟩ := hhex c.toNat h₈
    rw [hbytes rfl (by omega), htext]
    exact adds_hex hunit
  · have hunits : byteUnits [c] = (latin1 [c]).map Char.toNat := by
      simp only [byteUnits, latin1, List.map_map]
      exact List.map_congr_left fun b _ => (toNat_ofUInt8 b).symm
    rw [hunits]
    exact adds_raws (latin1_raw (by omega) h₁ h₂)

lemma adds_escapes (s : List Char) : Adds (byteUnits s) (latin1 (s.flatMap escape)) := by
  induction s with
  | nil => exact .nil
  | cons c s ih =>
    rw [List.flatMap_cons, latin1_append, ← List.singleton_append, byteUnits_append]
    exact (adds_escape c).append ih

/-- A string that was written is read up to its closing quote. -/
lemma parseChars_write (s rest : List Char) :
    parseChars (latin1 (s.flatMap escape) ++ '"' :: rest) = some (byteUnits s, rest) := by
  rw [adds_escapes s ('"' :: rest), parseChars]
  simp

/-! ### Integers -/

def digitChar (d : ℕ) : Char := Char.ofNat (48 + d)

def writeNat (n : ℕ) : List Char :=
  if n = 0 then ['0'] else ((Nat.digits 10 n).map digitChar).reverse

def writeInt : ℤ → List Char
  | .ofNat n => writeNat n
  | .negSucc n => '-' :: writeNat (n + 1)

lemma isDigit_digitChar : ∀ d < 10, (digitChar d).isDigit = true ∧ (digitChar d).toNat = 48 + d := by
  decide

/-- The digits of a number make it up. -/
lemma digitsValue_reverse {l : List ℕ} (h : ∀ d ∈ l, d < 10) :
    digitsValue (l.map digitChar).reverse = Nat.ofDigits 10 l := by
  rw [digitsValue, List.foldl_reverse]
  induction l with
  | nil => rfl
  | cons d l ih =>
    have hd := (isDigit_digitChar d (h d List.mem_cons_self)).2
    rw [List.map_cons, List.foldr_cons, ih fun d' hd' => h d' (List.mem_cons_of_mem d hd'), hd,
      Nat.ofDigits_cons, Nat.add_sub_cancel_left, Nat.add_comm]

/-- What may follow an integer that was written. -/
def EndsNumber (text : List Char) : Prop := ∃ c rest, text = c :: rest ∧ (c = ',' ∨ c = '}')

lemma span_digits {digits text : List Char} (h : ∀ c ∈ digits, c.isDigit = true)
    (htext : EndsNumber text) : (digits ++ text).span Char.isDigit = (digits, text) := by
  obtain ⟨c, rest, rfl, hc⟩ := htext
  have hnot : c.isDigit = false := by
    rcases hc with rfl | rfl <;> decide
  rw [List.span_eq_takeWhile_dropWhile, List.takeWhile_append_of_pos h,
    List.dropWhile_append_of_pos h]
  simp [hnot]

lemma parseInteger_write (n : ℕ) {text : List Char} (htext : EndsNumber text) :
    parseInteger (writeNat n ++ text) = some (n, text) := by
  by_cases hn : n = 0
  · subst hn
    rfl
  · rw [writeNat, if_neg hn]
    have hlt : ∀ d ∈ Nat.digits 10 n, d < 10 := fun d hd => Nat.digits_lt_base (by decide) hd
    have hne : Nat.digits 10 n ≠ [] := Nat.digits_ne_nil_iff_ne_zero.mpr hn
    have hdigits : ∀ c ∈ ((Nat.digits 10 n).map digitChar).reverse, c.isDigit = true := by
      intro c hc
      obtain ⟨d, hd, rfl⟩ := List.mem_map.mp (List.mem_reverse.mp hc)
      exact (isDigit_digitChar d (hlt d hd)).1
    -- the first digit is the last one of the list, which is not zero
    obtain ⟨init, d, hsplit⟩ : ∃ init d, Nat.digits 10 n = init ++ [d] :=
      ⟨_, _, (List.dropLast_append_getLast hne).symm⟩
    have hd : d ≠ 0 := by
      have hlast := Nat.getLast_digit_ne_zero 10 hn
      simpa [hsplit] using hlast
    have hhead : ((Nat.digits 10 n).map digitChar).reverse =
        digitChar d :: (init.map digitChar).reverse := by
      simp [hsplit]
    have hzero : digitChar d ≠ '0' := by
      have hd10 : d < 10 := hlt d (by simp [hsplit])
      have hall : ∀ d < 10, d ≠ 0 → digitChar d ≠ '0' := by decide
      exact hall d hd10 hd
    have hspan := span_digits hdigits htext
    have hvalue := digitsValue_reverse hlt
    rw [Nat.ofDigits_digits] at hvalue
    rw [hhead] at hspan hvalue ⊢
    rw [List.cons_append] at hspan ⊢
    rw [parseInteger]
    · rw [hspan]
      simp only [hvalue]
    · simp [hzero]

lemma parseUnsigned_write (n : ℕ) {text : List Char} (htext : EndsNumber text) :
    parseUnsigned (writeNat n ++ text) = some ((n : ℚ), text) := by
  have hfraction : parseFraction text = some (0, text) := by
    obtain ⟨c, rest, rfl, hc⟩ := htext
    rcases hc with rfl | rfl <;> rfl
  have hexponent : parseExponent text = some (0, text) := by
    obtain ⟨c, rest, rfl, hc⟩ := htext
    rcases hc with rfl | rfl <;> rfl
  simp [parseUnsigned, parseInteger_write n htext, hfraction, hexponent]

lemma isDigit_of_mem_writeNat {n : ℕ} {c : Char} (hc : c ∈ writeNat n) : c.isDigit = true := by
  rw [writeNat] at hc
  split_ifs at hc with hn
  · rw [List.mem_singleton.mp hc]
    rfl
  · obtain ⟨d, hd, rfl⟩ := List.mem_map.mp (List.mem_reverse.mp hc)
    exact (isDigit_digitChar d (Nat.digits_lt_base (by decide) hd)).1

lemma exists_cons_writeNat (n : ℕ) : ∃ c rest, writeNat n = c :: rest ∧ c.isDigit = true := by
  have hne : writeNat n ≠ [] := by
    rw [writeNat]
    split_ifs with hn
    · simp
    · simpa using Nat.digits_ne_nil_iff_ne_zero.mpr hn
  obtain ⟨c, rest, hcons⟩ := List.exists_cons_of_ne_nil hne
  exact ⟨c, rest, hcons, isDigit_of_mem_writeNat (hcons ▸ List.mem_cons_self)⟩

lemma parseNumber_write (n : ℤ) {text : List Char} (htext : EndsNumber text) :
    parseNumber (writeInt n ++ text) = some ((n : ℚ), text) := by
  cases n with
  | ofNat n =>
    obtain ⟨c, rest, hcons, hc⟩ := exists_cons_writeNat n
    have hminus : c ≠ '-' := by
      rintro rfl
      cases hc
    have hunsigned := parseUnsigned_write n htext
    simp only [writeInt, hcons, List.cons_append] at hunsigned ⊢
    rw [parseNumber]
    · simpa using hunsigned
    · simp [hminus]
  | negSucc n =>
    simp only [writeInt, List.cons_append, parseNumber, parseUnsigned_write (n + 1) htext,
      Int.cast_negSucc]
    simp

/-! ### Objects -/

inductive Scalar where
  | string (s : List Char)
  | integer (n : ℤ)

def Scalar.write : Scalar → List Char
  | string s => writeString s
  | integer n => writeInt n

/-- What is read of it, one character for each byte. -/
def Scalar.read : Scalar → Value
  | string s => .string (byteUnits s)
  | integer n => .number n

def writeMembers : List (List Char × Scalar) → List Char
  | [] => ['}']
  | [m] => writeString m.1 ++ ':' :: m.2.write ++ ['}']
  | m :: m' :: rest => writeString m.1 ++ ':' :: m.2.write ++ ',' :: writeMembers (m' :: rest)

def writeObject (members : List (List Char × Scalar)) : List Char := '{' :: writeMembers members

lemma latin1_writeString (s : List Char) :
    latin1 (writeString s) = '"' :: latin1 (s.flatMap escape) ++ ['"'] := by
  rw [writeString, latin1_append, latin1_ascii (by decide), latin1_ascii (by decide), latin1_nil]

lemma latin1_of_ascii {text : List Char} (h : ∀ c ∈ text, c.toNat < 128) : latin1 text = text := by
  induction text with
  | nil => rfl
  | cons c text ih =>
    rw [latin1_ascii (h c List.mem_cons_self), ih fun x hx => h x (List.mem_cons_of_mem c hx)]

lemma latin1_writeInt (n : ℤ) : latin1 (writeInt n) = writeInt n := by
  have hnat : ∀ n, ∀ c ∈ writeNat n, c.toNat < 128 := by
    intro n c hc
    have hdigit := isDigit_of_mem_writeNat hc
    simp only [Char.isDigit, Bool.and_eq_true, decide_eq_true_eq] at hdigit
    have hle : c.toNat ≤ 57 := hdigit.2
    omega
  refine latin1_of_ascii ?_
  cases n with
  | ofNat n => exact hnat n
  | negSucc n =>
    rw [writeInt]
    exact List.forall_mem_cons.mpr ⟨by decide, hnat (n + 1)⟩

/-- Text that starts with no white space. -/
lemma skipWhitespace_cons {c : Char} (h : isWhitespace c = false) (text : List Char) :
    skipWhitespace (c :: text) = c :: text := by
  simp [skipWhitespace, h]

lemma parseValue_string (fuel : ℕ) (s rest : List Char) :
    parseValue (fuel + 1) (latin1 (writeString s) ++ rest) = some (.string (byteUnits s), rest) := by
  have htext : latin1 (writeString s) ++ rest = '"' :: (latin1 (s.flatMap escape) ++ '"' :: rest) := by
    rw [latin1_writeString]
    simp
  rw [htext, parseValue, skipWhitespace_cons (by decide)]
  simp only [parseChars_write, Option.bind_eq_bind, Option.bind_some]
  rfl

/-- What starts with a digit or a sign is a number. -/
lemma parseValue_number {c : Char} (hc : c.isDigit = true ∨ c = '-') (fuel : ℕ) (text : List Char) :
    parseValue (fuel + 1) (c :: text) = do
      let (n, rest) ← parseNumber (c :: text)
      return (.number n, rest) := by
  have hnot : ∀ x, x.isDigit = false → x ≠ '-' → c ≠ x := by
    rintro x hx hminus rfl
    rcases hc with hc | rfl
    · cases hc.symm.trans hx
    · exact hminus rfl
  have hspace : isWhitespace c = false := by
    simp only [isWhitespace, Bool.or_eq_false_iff, decide_eq_false_iff_not]
    exact ⟨⟨⟨hnot _ rfl (by decide), hnot _ rfl (by decide)⟩, hnot _ rfl (by decide)⟩,
      hnot _ rfl (by decide)⟩
  rw [parseValue, skipWhitespace_cons hspace]
  split
  all_goals first
    | rfl
    | (rename_i heq
       exact absurd (List.cons.inj heq).1 (hnot _ rfl (by decide)))

lemma parseValue_integer (fuel : ℕ) (n : ℤ) {text : List Char} (htext : EndsNumber text) :
    parseValue (fuel + 1) (latin1 (writeInt n) ++ text) = some (.number n, text) := by
  have hnumber := parseNumber_write n htext
  rw [latin1_writeInt]
  obtain ⟨c, rest, hcons, hc⟩ : ∃ c rest, writeInt n = c :: rest ∧ (c.isDigit = true ∨ c = '-') := by
    cases n with
    | ofNat n =>
      obtain ⟨c, rest, hcons, hc⟩ := exists_cons_writeNat n
      exact ⟨c, rest, hcons, .inl hc⟩
    | negSucc n => exact ⟨'-', _, rfl, .inr rfl⟩
  rw [hcons, List.cons_append] at hnumber ⊢
  rw [parseValue_number hc, hnumber]
  rfl

lemma parseValue_write (fuel : ℕ) (v : Scalar) {text : List Char} (htext : EndsNumber text) :
    parseValue (fuel + 1) (latin1 v.write ++ text) = some (v.read, text) := by
  cases v with
  | string s => exact parseValue_string fuel s text
  | integer n => exact parseValue_integer fuel n htext

/-- One member, and what follows it. -/
lemma parseMembers_step (fuel : ℕ) (m : List Char × Scalar) {c : Char} (hc : c = ',' ∨ c = '}')
    (text : List Char) :
    parseMembers (fuel + 2) (latin1 (writeString m.1 ++ ':' :: m.2.write) ++ c :: text) =
      if c = ',' then
        (parseMembers (fuel + 1) text).map fun p => ((byteUnits m.1, m.2.read) :: p.1, p.2)
      else some ([(byteUnits m.1, m.2.read)], text) := by
  have htext : latin1 (writeString m.1 ++ ':' :: m.2.write) ++ c :: text =
      '"' :: (latin1 (m.1.flatMap escape) ++ '"' :: ':' :: (latin1 m.2.write ++ c :: text)) := by
    rw [latin1_append, latin1_writeString, latin1_ascii (by decide)]
    simp
  rw [htext, parseMembers, skipWhitespace_cons (by decide)]
  simp only [parseChars_write, Option.bind_eq_bind, Option.bind_some]
  rw [skipWhitespace_cons (by decide)]
  simp only [parseValue_write fuel m.2 ⟨c, text, rfl, hc⟩, Option.bind_some]
  rcases hc with rfl | rfl
  · rw [skipWhitespace_cons (by decide), if_pos rfl]
    show (parseMembers (fuel + 1) text).bind
      (fun p => some ((byteUnits m.1, m.2.read) :: p.1, p.2)) = _
    cases parseMembers (fuel + 1) text <;> rfl
  · rw [skipWhitespace_cons (by decide)]
    rfl

/-- The members of an object that was written. -/
lemma parseMembers_write {members : List (List Char × Scalar)} (hne : members ≠ []) {fuel : ℕ}
    (hfuel : members.length ≤ fuel) (rest : List Char) :
    parseMembers (fuel + 1) (latin1 (writeMembers members) ++ rest) =
      some (members.map fun m => (byteUnits m.1, m.2.read), rest) := by
  induction members generalizing fuel with
  | nil => exact absurd rfl hne
  | cons m members ih =>
    cases fuel with
    | zero => cases hfuel
    | succ fuel =>
      cases members with
      | nil =>
        have htext : latin1 (writeMembers [m]) ++ rest =
            latin1 (writeString m.1 ++ ':' :: m.2.write) ++ '}' :: rest := by
          rw [writeMembers, latin1_append, latin1_ascii (c := '}') (by decide), List.append_assoc]
          rfl
        rw [htext, parseMembers_step fuel m (.inr rfl), if_neg (by decide)]
        rfl
      | cons m' members =>
        have htext : latin1 (writeMembers (m :: m' :: members)) ++ rest =
            latin1 (writeString m.1 ++ ':' :: m.2.write) ++
              ',' :: (latin1 (writeMembers (m' :: members)) ++ rest) := by
          rw [writeMembers, latin1_append, latin1_ascii (c := ',') (by decide), List.append_assoc]
          rfl
        have hrest := ih (List.cons_ne_nil _ _) (Nat.le_of_succ_le_succ hfuel)
        rw [htext, parseMembers_step fuel m (.inl rfl), if_pos rfl, hrest]
        rfl

lemma length_latin1 (text : List Char) : text.length ≤ (latin1 text).length := by
  induction text with
  | nil => exact le_rfl
  | cons c text ih =>
    have hc : 0 < (latin1 [c]).length := by
      simp [latin1, Char.utf8Size_pos]
    rw [← List.singleton_append, latin1_append, List.length_append, List.length_append]
    exact Nat.add_le_add hc ih

lemma length_writeMembers (members : List (List Char × Scalar)) :
    members.length ≤ (writeMembers members).length := by
  fun_induction writeMembers members with
  | case1 => exact Nat.zero_le _
  | case2 m =>
    simp only [List.length_append, List.length_cons]
    omega
  | case3 m m' rest ih =>
    simp only [List.length_append, List.length_cons] at ih ⊢
    omega

/-- An object that was written is read back, each string byte by byte. -/
theorem parse_write {members : List (List Char × Scalar)} (hne : members ≠ []) :
    parse (latin1 (writeObject members)) =
      some (.object (members.map fun m => (byteUnits m.1, m.2.read))) := by
  have hlength := (length_writeMembers members).trans (length_latin1 _)
  have hopen : latin1 (writeObject members) = '{' :: latin1 (writeMembers members) := by
    rw [writeObject, latin1_ascii (by decide)]
  -- a member starts with the quote of its name
  obtain ⟨text, hcons⟩ : ∃ text, latin1 (writeMembers members) = '"' :: text := by
    match members, hne with
    | [m], _ =>
      exact ⟨_, by rw [writeMembers, writeString, List.cons_append, List.cons_append, List.cons_append,
        latin1_ascii (by decide)]⟩
    | m :: m' :: rest, _ =>
      exact ⟨_, by rw [writeMembers, writeString, List.cons_append, List.cons_append, List.cons_append,
        latin1_ascii (by decide)]⟩
  have hmembers : ∀ fuel, members.length ≤ fuel → parseMembers (fuel + 1) ('"' :: text) =
      some (members.map fun m => (byteUnits m.1, m.2.read), []) := by
    intro fuel hfuel
    have hread := parseMembers_write hne hfuel []
    rwa [List.append_nil, hcons] at hread
  have hvalue : ∀ fuel, parseValue (fuel + 1) ('{' :: '"' :: text) =
      (parseMembers fuel ('"' :: text)).bind fun p => some (.object p.1, p.2) := fun _ => rfl
  rw [hcons, List.length_cons] at hlength
  rw [hopen, hcons, parse, List.length_cons, hvalue, List.length_cons, hmembers _ hlength]
  rfl

end Json
