import Bauth.Model.ClientIp

/-!
# Reading back what is written

A header value is split where its parts were joined, and an IPv4 address is read back from its
text.
-/

namespace Bauth

/-! ### Splitting what was joined -/

section Split

variable {α : Type} [DecidableEq α] {sep : α}

lemma splitOn_intercalate_flatMap {parts : List (List α)} (h : parts ≠ []) :
    (List.intercalate [sep] parts).splitOn sep = parts.flatMap fun part => part.splitOn sep := by
  induction parts with
  | nil => exact absurd rfl h
  | cons part rest ih =>
    cases rest with
    | nil => simp
    | cons next rest =>
      have hjoin : List.intercalate [sep] (part :: next :: rest) =
          part ++ sep :: List.intercalate [sep] (next :: rest) := by
        simp [List.intercalate]
      rw [hjoin, List.splitOn_append_cons_self, ih (by simp)]
      rfl

lemma not_mem_of_mem_splitOn {s part : List α} (h : part ∈ s.splitOn sep) : sep ∉ part := by
  induction s generalizing part with
  | nil =>
    obtain rfl : part = [] := by simpa using h
    simp
  | cons x s ih =>
    rw [List.splitOn_cons_eq_if_modifyHead] at h
    by_cases hx : x = sep
    · simp only [hx, beq_self_eq_true, if_true, List.mem_cons] at h
      rcases h with rfl | h
      · simp
      · exact ih h
    · obtain ⟨head, tail, hs⟩ := List.exists_cons_of_ne_nil (List.splitOn_ne_nil sep s)
      simp only [beq_eq_false_iff_ne.mpr hx, Bool.false_eq_true, if_false, hs, List.modifyHead_cons,
        List.mem_cons] at h
      rcases h with rfl | h
      · have hhead : sep ∉ head := ih (by simp [hs])
        simp [hhead, Ne.symm hx]
      · exact ih (by simp [hs, h])

end Split

/-! ### The text of an IPv4 address -/

/-- A text that goes on with no decimal digit. -/
def EndsNumber (rest : List Char) : Prop := ∀ c, rest.head? = some c → toDigit 10 c = none

/-- What `readNumber` asks of the digits it takes, for one octet. -/
def octetReads (n : ℕ) : Bool :=
  let digits := decimal n
  digits.all (fun c => (toDigit 10 c).isSome && !isWhitespace c && c ≠ ',') &&
    ((digits.filterMap (toDigit 10)).foldl (fun n digit => n * 10 + digit) 0 = n) &&
    ((digits.filterMap (toDigit 10)).length = digits.length) &&
    digits.length ≠ 0 && digits.length ≤ 3 && (digits.head? ≠ some '0' || digits.length = 1)

lemma octetReads_of_lt {n : ℕ} (h : n < 256) : octetReads n = true := by
  have hall : ∀ n ∈ List.range 256, octetReads n = true := by decide +kernel
  exact hall n (List.mem_range.mpr h)

lemma readNumber_decimal (x : UInt8) {rest : List Char} (hrest : EndsNumber rest) :
    readNumber 10 3 false 256 (decimal x.toNat ++ rest) = some (x.toNat, rest) := by
  have h : x.toNat < 256 := x.toNat_lt
  have hreads := octetReads_of_lt h
  generalize x.toNat = n at h hreads ⊢
  simp only [octetReads, Bool.and_eq_true, decide_eq_true_eq, List.all_eq_true, Bool.or_eq_true,
    Bool.not_eq_true'] at hreads
  obtain ⟨⟨⟨⟨⟨hdigits, hvalue⟩, hlen⟩, hne⟩, hle⟩, hzero⟩ := hreads
  have hstop : rest.takeWhile (fun c => (toDigit 10 c).isSome) = [] := by
    cases rest with
    | nil => rfl
    | cons c rest => simp [hrest c rfl]
  have htake : (decimal n ++ rest).takeWhile (fun c => (toDigit 10 c).isSome) = decimal n := by
    rw [List.takeWhile_append_of_pos fun c hc => (hdigits c hc).1.1, hstop, List.append_nil]
  have hhead : (decimal n ++ rest).head? = (decimal n).head? := by
    cases hd : decimal n with
    | nil => simp [hd] at hne
    | cons c digits => rfl
  have hlead : ¬ ((decimal n).head? = some '0' ∧ 1 < (decimal n).length) := by
    rintro ⟨hfirst, hmany⟩
    rcases hzero with hzero | hzero
    · exact hzero hfirst
    · omega
  simp only [readNumber, htake, hvalue, hlen, hhead]
  rw [if_neg (by omega), if_neg (by simpa using hlead), if_pos h, List.drop_left]

lemma endsNumber_dot (rest : List Char) : EndsNumber ('.' :: rest) := by
  intro c hc
  obtain rfl : '.' = c := by simpa using hc
  decide

lemma readIpv4Addr_display (ip : Ipv4Addr) {rest : List Char} (hrest : EndsNumber rest) :
    readIpv4Addr (ip.display ++ rest) = some (ip, rest) := by
  have htext : ip.display ++ rest = decimal ip.a.toNat ++ '.' :: (decimal ip.b.toNat ++ '.' ::
      (decimal ip.c.toNat ++ '.' :: (decimal ip.d.toNat ++ rest))) := by
    simp [Ipv4Addr.display]
  simp [htext, readIpv4Addr, readSeparator, readGivenChar, readNumber_decimal, endsNumber_dot,
    hrest]

/-- An IPv4 address is read back from its text. -/
theorem IpAddr.parse_display (ip : Ipv4Addr) : IpAddr.parse ip.display = some (.v4 ip) := by
  have hend : EndsNumber [] := by simp [EndsNumber]
  have hread := readIpv4Addr_display ip hend
  rw [List.append_nil] at hread
  simp [IpAddr.parse, hread]

/-- The characters of the text: no space around it and no comma in it. -/
lemma Ipv4Addr.mem_display {ip : Ipv4Addr} {c : Char} (h : c ∈ ip.display) :
    isWhitespace c = false ∧ c ≠ ',' := by
  have hdecimal (x : UInt8) (hc : c ∈ decimal x.toNat) : isWhitespace c = false ∧ c ≠ ',' := by
    have hreads := octetReads_of_lt x.toNat_lt
    simp only [octetReads, Bool.and_eq_true, List.all_eq_true, Bool.not_eq_true',
      decide_eq_true_eq] at hreads
    have hdigit := hreads.1.1.1.1.1 c hc
    exact ⟨hdigit.1.2, hdigit.2⟩
  simp only [display, List.mem_append, List.mem_cons] at h
  rcases h with ((h | rfl | h) | rfl | h) | rfl | h
  · exact hdecimal _ h
  · decide
  · exact hdecimal _ h
  · decide
  · exact hdecimal _ h
  · decide
  · exact hdecimal _ h

lemma trim_of_forall {s : List Char} (h : ∀ c ∈ s, isWhitespace c = false) : trim s = s := by
  have hdrop : s.dropWhile isWhitespace = s := by
    cases s with
    | nil => rfl
    | cons c s => simp [h c (by simp)]
  rw [trim, hdrop, List.rdropWhile_eq_self_iff]
  intro hs
  simp [h _ (List.getLast_mem hs)]

end Bauth
