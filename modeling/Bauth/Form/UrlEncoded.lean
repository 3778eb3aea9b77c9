import Mathlib.Data.List.Basic
import Mathlib.Tactic.Common

/-!
# `application/x-www-form-urlencoded`

Pairs of texts are written with `&` and `=` between them, each as its UTF-8 bytes with all but a few
bytes escaped. Reading splits at `&`, then at the first `=`, and undoes the escapes; what is not an
escape is read as it is.
-/

namespace Form

/-- The UTF-8 bytes of a text. -/
def utf8 (s : String) : List UInt8 := s.toList.flatMap String.utf8EncodeChar

/-- A decoder of bytes that reads back what is valid, whatever it makes of the rest. -/
structure Utf8Decoder where
  decode : List UInt8 → String
  decode_utf8 : ∀ s, decode (utf8 s) = s

/-! ### Writing -/

/-- A byte that is written as the character it stands for. -/
def isPlain (b : UInt8) : Bool :=
  (48 ≤ b && b ≤ 57) || (65 ≤ b && b ≤ 90) || (97 ≤ b && b ≤ 122) ||
    b = 42 || b = 45 || b = 46 || b = 95

/-- The digits, then the capitals. -/
def hexDigit (n : ℕ) : UInt8 := UInt8.ofNat (if n < 10 then 48 + n else 55 + n)

/-- A space is written as `+`, the others as they are or behind a `%`. -/
def escapeByte (b : UInt8) : List UInt8 :=
  if b = 32 then [43]
  else if isPlain b then [b]
  else [37, hexDigit (b.toNat / 16), hexDigit (b.toNat % 16)]

def escape (s : String) : List UInt8 := (utf8 s).flatMap escapeByte

/-- The two sides of a `=`. -/
def writePair (p : String × String) : List UInt8 := escape p.1 ++ 61 :: escape p.2

/-- The pairs between `&`. -/
def write : List (String × String) → List UInt8
  | [] => []
  | [p] => writePair p
  | p :: p' :: rest => writePair p ++ 38 :: write (p' :: rest)

/-! ### Reading -/

def hexValue (b : UInt8) : Option ℕ :=
  if 48 ≤ b && b ≤ 57 then some (b.toNat - 48)
  else if 65 ≤ b && b ≤ 70 then some (b.toNat - 55)
  else if 97 ≤ b && b ≤ 102 then some (b.toNat - 87)
  else none

/-- The byte that an escape stands for. -/
def hexByte (a b : UInt8) : Option UInt8 := do
  return UInt8.ofNat ((← hexValue a) * 16 + (← hexValue b))

/-- A `%` that no two digits follow is itself. -/
def unescape : List UInt8 → List UInt8
  | [] => []
  | 43 :: rest => 32 :: unescape rest
  | 37 :: a :: b :: rest =>
    match hexByte a b with
    | some byte => byte :: unescape rest
    | none => 37 :: unescape (a :: b :: rest)
  | b :: rest => b :: unescape rest

/-- The pieces between the separators. -/
def splitAt (sep : UInt8) : List UInt8 → List (List UInt8)
  | [] => [[]]
  | c :: rest =>
    if c = sep then [] :: splitAt sep rest
    else match splitAt sep rest with
      | [] => [[c]]
      | piece :: pieces => (c :: piece) :: pieces

/-- The name and the value, `""` where there is no `=`. -/
def readPair (D : Utf8Decoder) (piece : List UInt8) : String × String :=
  (D.decode (unescape (piece.takeWhile (· ≠ 61))),
    D.decode (unescape ((piece.dropWhile (· ≠ 61)).drop 1)))

/-- The pairs of a body. -/
def read (D : Utf8Decoder) (body : List UInt8) : List (String × String) :=
  ((splitAt 38 body).filter fun piece => !piece.isEmpty).map (readPair D)

/-! ### What is written is read back -/

lemma hexByte_escape (b : UInt8) :
    hexByte (hexDigit (b.toNat / 16)) (hexDigit (b.toNat % 16)) = some b := by
  have hall : ∀ n < 256, hexByte (hexDigit (n / 16)) (hexDigit (n % 16)) =
      some (UInt8.ofNat n) := by
    decide +kernel
  rw [hall b.toNat b.toNat_lt, UInt8.ofNat_toNat]

/-- A plain byte is neither a separator nor the start of an escape. -/
lemma plain_cases (b : UInt8) (h : isPlain b = true) : b ≠ 43 ∧ b ≠ 37 ∧ b ≠ 38 ∧ b ≠ 61 := by
  refine ⟨?_, ?_, ?_, ?_⟩ <;> rintro rfl <;> simp [isPlain] at h

lemma hexDigit_plain {n : ℕ} (hn : n < 16) : hexDigit n ≠ 38 ∧ hexDigit n ≠ 61 := by
  have hall : ∀ n < 16, hexDigit n ≠ 38 ∧ hexDigit n ≠ 61 := by decide
  exact hall n hn

/-- An escaped text has no separators. -/
lemma escape_plain (s : String) : ∀ c ∈ escape s, c ≠ 38 ∧ c ≠ 61 := by
  intro c hc
  obtain ⟨b, -, hb⟩ := List.mem_flatMap.mp hc
  unfold escapeByte at hb
  split_ifs at hb with hspace hplain
  · rw [List.mem_singleton.mp hb]
    decide
  · rw [List.mem_singleton.mp hb]
    exact (plain_cases b hplain).2.2
  · simp only [List.mem_cons, List.not_mem_nil, or_false] at hb
    have hlt := b.toNat_lt
    rcases hb with rfl | rfl | rfl
    · decide
    · exact hexDigit_plain (by omega)
    · exact hexDigit_plain (by omega)

/-- An escaped byte is read as the byte. -/
lemma unescape_escapeByte (b : UInt8) (rest : List UInt8) :
    unescape (escapeByte b ++ rest) = b :: unescape rest := by
  unfold escapeByte
  split_ifs with hspace hplain
  · rw [hspace, List.singleton_append, unescape]
  · obtain ⟨hplus, hpercent, -⟩ := plain_cases b hplain
    rw [List.singleton_append, unescape]
    · exact hplus
    · intro a b' rest' hb
      exact absurd hb hpercent
  · rw [List.cons_append, List.cons_append, List.cons_append, List.nil_append, unescape,
      hexByte_escape]

lemma unescape_escape (s : String) : unescape (escape s) = utf8 s := by
  have hbytes : ∀ bytes : List UInt8, unescape (bytes.flatMap escapeByte) = bytes := by
    intro bytes
    induction bytes with
    | nil => rfl
    | cons b bytes ih => rw [List.flatMap_cons, unescape_escapeByte, ih]
  exact hbytes _

lemma readPair_writePair (D : Utf8Decoder) (p : String × String) :
    readPair D (writePair p) = p := by
  have hname : ∀ c ∈ escape p.1, (decide (c ≠ 61)) = true := fun c hc => by
    simpa using (escape_plain p.1 c hc).2
  have htake : (writePair p).takeWhile (· ≠ 61) = escape p.1 := by
    rw [writePair, List.takeWhile_append_of_pos hname]
    simp
  have hdrop : (writePair p).dropWhile (· ≠ 61) = 61 :: escape p.2 := by
    rw [writePair, List.dropWhile_append_of_pos hname]
    simp
  rw [readPair, htake, hdrop, List.drop_one, List.tail_cons, unescape_escape, unescape_escape,
    D.decode_utf8, D.decode_utf8]

/-- A piece without separators, and what follows its separator. -/
lemma splitAt_append {sep : UInt8} {piece : List UInt8} (h : ∀ c ∈ piece, c ≠ sep)
    (rest : List UInt8) : splitAt sep (piece ++ sep :: rest) = piece :: splitAt sep rest := by
  induction piece with
  | nil => rw [List.nil_append, splitAt, if_pos rfl]
  | cons c piece ih =>
    rw [List.cons_append, splitAt, if_neg (h c List.mem_cons_self),
      ih fun x hx => h x (List.mem_cons_of_mem c hx)]

lemma splitAt_single {sep : UInt8} {piece : List UInt8} (h : ∀ c ∈ piece, c ≠ sep) :
    splitAt sep piece = [piece] := by
  induction piece with
  | nil => rfl
  | cons c piece ih =>
    rw [splitAt, if_neg (h c List.mem_cons_self), ih fun x hx => h x (List.mem_cons_of_mem c hx)]

lemma writePair_plain (p : String × String) : ∀ c ∈ writePair p, c ≠ 38 := by
  intro c hc
  rcases List.mem_append.mp hc with hc | hc
  · exact (escape_plain p.1 c hc).1
  · rcases List.mem_cons.mp hc with rfl | hc
    · decide
    · exact (escape_plain p.2 c hc).1

lemma splitAt_write {pairs : List (String × String)} (hne : pairs ≠ []) :
    splitAt 38 (write pairs) = pairs.map writePair := by
  fun_induction write pairs with
  | case1 => exact absurd rfl hne
  | case2 p => rw [splitAt_single (writePair_plain p), List.map_singleton]
  | case3 p p' rest ih =>
    rw [splitAt_append (writePair_plain p), ih (List.cons_ne_nil _ _),
      List.map_cons (a := p)]

/-- What is written is read back, whatever the texts are. -/
theorem read_write (D : Utf8Decoder) (pairs : List (String × String)) :
    read D (write pairs) = pairs := by
  by_cases hne : pairs = []
  · rw [hne]
    rfl
  · have hkept : (pairs.map writePair).filter (fun piece => !piece.isEmpty) =
        pairs.map writePair := by
      refine List.filter_eq_self.mpr fun piece hpiece => ?_
      obtain ⟨p, -, rfl⟩ := List.mem_map.mp hpiece
      simp [writePair]
    rw [read, splitAt_write hne, hkept, List.map_map]
    exact (List.map_congr_left fun p _ => readPair_writePair D p).trans (List.map_id pairs)

/-! ### A decoder -/

/-- Reads valid bytes, and nothing else. -/
def strict : Utf8Decoder where
  decode bytes := (bytes.toByteArray.utf8Decode?.map fun s => String.ofList s.toList).getD ""
  decode_utf8 s := by
    have hbytes : (utf8 s).toByteArray = s.toList.utf8Encode := by
      rw [utf8, List.utf8Encode]
    rw [hbytes, List.utf8Decode?_utf8Encode]
    simp

end Form
