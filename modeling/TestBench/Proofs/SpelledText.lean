import Mathlib.Data.List.Basic
import TestBench.Json.Value

/-!
Texts and numbers are read as they were written. The bytes of a character lead
back to it, a text in quotes to its characters, and the digits of a number to
the number, provided that no part of a number follows them.
-/
namespace TestBench

namespace Utf8

theorem decodeFrom_cons (pending : Option Pending) (b : UInt8) (rest : Bytes) :
    decodeFrom pending (b :: rest) =
      (step pending b.toNat).1 ++ decodeFrom (step pending b.toNat).2 rest := by
  cases pending <;> rfl

/-- The last byte that is due completes the character. -/
theorem decodeFrom_last {bits low high b : Nat} (rest : Bytes) (hb : b < 0x100) (hlow : low ≤ b)
    (hhigh : b ≤ high) : decodeFrom (some ⟨bits, 1, low, high⟩) (UInt8.ofNat b :: rest) =
      some (Char.ofNat (bits * 64 + (b - 0x80))) :: decodeFrom none rest := by
  have hstep : step (some ⟨bits, 1, low, high⟩) b =
      ([some (Char.ofNat (bits * 64 + (b - 0x80)))], none) := by
    rw [step]
    exact if_pos ⟨hlow, hhigh⟩
  rw [decodeFrom_cons, UInt8.toNat_ofNat_of_lt' hb, hstep]
  rfl

/-- Any other byte that is due adds six bits. -/
theorem decodeFrom_due {bits due low high b : Nat} (rest : Bytes) (hb : b < 0x100) (hlow : low ≤ b)
    (hhigh : b ≤ high) (hdue : 1 < due) :
    decodeFrom (some ⟨bits, due, low, high⟩) (UInt8.ofNat b :: rest) =
      decodeFrom (some ⟨bits * 64 + (b - 0x80), due - 1, 0x80, 0xBF⟩) rest := by
  have hstep : step (some ⟨bits, due, low, high⟩) b =
      ([], some ⟨bits * 64 + (b - 0x80), due - 1, 0x80, 0xBF⟩) := by
    rw [step]
    simp only [hlow, hhigh, and_self, if_true]
    exact if_neg (Nat.not_le_of_lt hdue)
  rw [decodeFrom_cons, UInt8.toNat_ofNat_of_lt' hb, hstep]
  rfl

theorem decodeFrom_lead {p : Pending} {b : Nat} (rest : Bytes) (hb : b < 0x100)
    (h : lead b = .more p) :
    decodeFrom none (UInt8.ofNat b :: rest) = decodeFrom (some p) rest := by
  rw [decodeFrom_cons, UInt8.toNat_ofNat_of_lt' hb, step, begin, h]
  rfl

/-- The first of three bytes, and the range that it leaves to the second. -/
theorem lead_of_three {v : Nat} (hlow : 0x7ff < v) (hhigh : v ≤ 0xffff)
    (hvalid : v < 0xD800 ∨ 0xDFFF < v) : ∃ low high,
      lead (v / 4096 % 16 + 224) = .more ⟨v / 4096, 2, low, high⟩ ∧
        low ≤ v / 64 % 64 + 128 ∧ v / 64 % 64 + 128 ≤ high := by
  have hbits : v / 4096 % 16 + 224 - 0xE0 = v / 4096 := by omega
  unfold lead
  rw [if_neg (by omega), if_neg (by omega), if_neg (by omega)]
  by_cases hfirst : v / 4096 % 16 + 224 = 0xE0
  · rw [if_pos hfirst]
    exact ⟨0xA0, 0xBF, by rw [show v / 4096 = 0 by omega], by omega, by omega⟩
  rw [if_neg hfirst]
  by_cases hsurrogate : v / 4096 % 16 + 224 = 0xED
  · rw [if_pos hsurrogate]
    exact ⟨0x80, 0x9F, by rw [show v / 4096 = 0xD by omega], by omega, by omega⟩
  rw [if_neg hsurrogate, if_pos (by omega), hbits]
  exact ⟨0x80, 0xBF, rfl, by omega, by omega⟩

/-- The first of four bytes, and the range that it leaves to the second. -/
theorem lead_of_four {v : Nat} (hlow : 0xffff < v) (hhigh : v < 0x110000) : ∃ low high,
    lead (v / 262144 % 8 + 240) = .more ⟨v / 262144, 3, low, high⟩ ∧
      low ≤ v / 4096 % 64 + 128 ∧ v / 4096 % 64 + 128 ≤ high := by
  have hbits : v / 262144 % 8 + 240 - 0xF0 = v / 262144 := by omega
  unfold lead
  rw [if_neg (by omega), if_neg (by omega), if_neg (by omega), if_neg (by omega),
    if_neg (by omega), if_neg (by omega)]
  by_cases hfirst : v / 262144 % 8 + 240 = 0xF0
  · rw [if_pos hfirst]
    exact ⟨0x90, 0xBF, by rw [show v / 262144 = 0 by omega], by omega, by omega⟩
  rw [if_neg hfirst]
  by_cases hmiddle : v / 262144 % 8 + 240 < 0xF4
  · rw [if_pos hmiddle, hbits]
    exact ⟨0x80, 0xBF, rfl, by omega, by omega⟩
  · rw [if_neg hmiddle, if_pos (by omega)]
    exact ⟨0x80, 0x8F, by rw [show v / 262144 = 4 by omega], by omega, by omega⟩

theorem decodeFrom_utf8EncodeChar (c : Char) (rest : Bytes) :
    decodeFrom none (String.utf8EncodeChar c ++ rest) = some c :: decodeFrom none rest := by
  have hvalid : c.val.toNat < 0xD800 ∨ 0xDFFF < c.val.toNat ∧ c.val.toNat < 0x110000 := c.valid
  have hc : Char.ofNat c.val.toNat = c := Char.ofNat_toNat c
  simp only [String.utf8EncodeChar]
  generalize c.val.toNat = v at *
  split
  · next hone =>
    have hlead : lead v = .ascii (Char.ofNat v) := if_pos (by omega)
    rw [List.singleton_append, decodeFrom_cons, UInt8.toNat_ofNat_of_lt' (show v < 256 by omega),
      step, begin, hlead, hc]
    rfl
  split
  · next hone htwo =>
    have hlead : lead (v / 64 % 32 + 192) = .more ⟨v / 64, 1, 0x80, 0xBF⟩ := by
      unfold lead
      have hbits : v / 64 % 32 + 192 - 0xC0 = v / 64 := by omega
      rw [if_neg (by omega), if_neg (by omega), if_pos (by omega), hbits]
    rw [List.cons_append, List.singleton_append, decodeFrom_lead _ (by omega) hlead,
      decodeFrom_last _ (by omega) (by omega) (by omega),
      show v / 64 * 64 + (v % 64 + 128 - 0x80) = v by omega, hc]
  split
  · next hone htwo hthree =>
    obtain ⟨low, high, hlead, hlow, hhigh⟩ := lead_of_three (v := v) (by omega) hthree (by omega)
    rw [List.cons_append, List.cons_append, List.singleton_append,
      decodeFrom_lead _ (by omega) hlead, decodeFrom_due _ (by omega) hlow hhigh (by omega),
      decodeFrom_last _ (by omega) (by omega) (by omega),
      show (v / 4096 * 64 + (v / 64 % 64 + 128 - 0x80)) * 64 + (v % 64 + 128 - 0x80) = v by omega,
      hc]
  · next hone htwo hthree =>
    obtain ⟨low, high, hlead, hlow, hhigh⟩ := lead_of_four (v := v) (by omega) (by omega)
    rw [List.cons_append, List.cons_append, List.cons_append, List.singleton_append,
      decodeFrom_lead _ (by omega) hlead, decodeFrom_due _ (by omega) hlow hhigh (by omega),
      decodeFrom_due _ (by omega) (by omega) (by omega) (by omega),
      decodeFrom_last _ (by omega) (by omega) (by omega),
      show ((v / 262144 * 64 + (v / 4096 % 64 + 128 - 0x80)) * 64 + (v / 64 % 64 + 128 - 0x80)) * 64
        + (v % 64 + 128 - 0x80) = v by omega, hc]

/-- Characters are read back as they were written. -/
theorem decode_encode (cs : List Char) : decode (encode cs) = cs.map some := by
  induction cs with
  | nil => rfl
  | cons c rest ih =>
    rw [encode, List.flatMap_cons, decode, decodeFrom_utf8EncodeChar, List.map_cons, ← ih]
    rfl

end Utf8

namespace JsonValue

theorem hexDigit?_hexDigit {n : Nat} (h : n < 16) :
    hexDigit? (some (Escaped.hexDigit n)) = some n := by
  have hall : ∀ n, n < 16 → hexDigit? (some (Escaped.hexDigit n)) = some n := by decide
  exact hall n h

theorem readPieces_short {c d : Char} (hu : c ≠ 'u') (h : unescape? c = some d) (rest : Input) :
    readPieces (some '\\' :: some c :: rest) =
      (readPieces rest).map fun read => (.char d :: read.1, read.2) := by
  rw [readPieces]
  · rw [h]
    simp only [Option.bind_eq_bind, Option.bind_some]
    cases readPieces rest <;> rfl
  · exact fun _ _ _ _ _ _ hc => hu hc

theorem readPieces_unit {n : Nat} (h : n < 32) (rest : Input) :
    readPieces ([some '\\', some 'u', some '0', some '0', some (Escaped.hexDigit (n / 16)),
        some (Escaped.hexDigit (n % 16))] ++ rest) =
      (readPieces rest).map fun read => (.char (Char.ofNat n) :: read.1, read.2) := by
  have hhigh := hexDigit?_hexDigit (show n / 16 < 16 by omega)
  have hlow := hexDigit?_hexDigit (show n % 16 < 16 by omega)
  have hzero : hexDigit? (some '0') = some 0 := by decide
  have hunit : pieceOfUnit ((0 * 16 + 0) * 256 + (n / 16 * 16 + n % 16)) =
      .char (Char.ofNat n) := by
    rw [show (0 * 16 + 0) * 256 + (n / 16 * 16 + n % 16) = n by omega, pieceOfUnit]
    have hleading : isLeading n = false := by
      simp only [isLeading, Bool.and_eq_false_iff, decide_eq_false_iff_not]
      omega
    have htrailing : isTrailing n = false := by
      simp only [isTrailing, Bool.and_eq_false_iff, decide_eq_false_iff_not]
      omega
    rw [hleading, htrailing]
    rfl
  change (do
    let unit := ((← hexDigit? (some '0')) * 16 + (← hexDigit? (some '0'))) * 256
      + ((← hexDigit? (some (Escaped.hexDigit (n / 16)))) * 16
        + (← hexDigit? (some (Escaped.hexDigit (n % 16)))))
    let read ← readPieces rest
    return (pieceOfUnit unit :: read.1, read.2)) = _
  rw [hhigh, hlow, hzero]
  simp only [Option.bind_eq_bind, Option.bind_some, hunit]
  cases readPieces rest <;> rfl

theorem readPieces_plain {c : Char} (hquote : c ≠ '"') (hslash : c ≠ '\\') (h : ¬ c.toNat < 32)
    (rest : Input) : readPieces (some c :: rest) =
      (readPieces rest).map fun read => (.char c :: read.1, read.2) := by
  rw [readPieces]
  · rw [if_neg h]
    simp only [Option.bind_eq_bind]
    cases readPieces rest <;> rfl
  · exact hquote
  · exact fun _ _ _ _ _ _ heq => absurd heq hslash
  · exact fun _ _ _ heq => absurd heq hslash
  · exact hslash

/-- One more character in front of the pieces that are read. -/
theorem readPieces_escapeChar (c : Char) (rest : Input) :
    readPieces ((Escaped.escapeChar c).map some ++ rest) =
      (readPieces rest).map fun read => (.char c :: read.1, read.2) := by
  unfold Escaped.escapeChar
  split
  · next h =>
    subst h
    exact readPieces_short (by decide) rfl rest
  split
  · next h =>
    subst h
    exact readPieces_short (by decide) rfl rest
  split
  · next h =>
    subst h
    exact readPieces_short (by decide) rfl rest
  split
  · next h =>
    subst h
    exact readPieces_short (by decide) rfl rest
  split
  · next h =>
    subst h
    exact readPieces_short (by decide) rfl rest
  split
  · next h =>
    subst h
    exact readPieces_short (by decide) rfl rest
  split
  · next h =>
    subst h
    exact readPieces_short (by decide) rfl rest
  split
  · next h =>
    have hunit := readPieces_unit h rest
    rwa [Char.ofNat_toNat] at hunit
  · next hquote hslash _ _ _ _ _ h => exact readPieces_plain hquote hslash h rest

/-- The pieces of a text in quotes are its characters. -/
theorem readPieces_encode (cs : List Char) (rest : Input) :
    readPieces ((cs.flatMap Escaped.escapeChar ++ ['"']).map some ++ rest) =
      some (cs.map .char, rest) := by
  induction cs with
  | nil => rfl
  | cons c more ih =>
    rw [List.flatMap_cons, List.append_assoc, List.map_append, List.append_assoc,
      readPieces_escapeChar, ih]
    rfl

theorem join_char (cs : List Char) : join (cs.map .char) = some cs := by
  induction cs with
  | nil => rfl
  | cons c rest ih =>
    rw [List.map_cons, join, ih]
    rfl

theorem textOfPieces_char (s : String) : textOfPieces (s.toList.map .char) = some s := by
  rw [textOfPieces, join_char, Option.map_some, String.ofList_toList]

section Numbers

theorem isDigit_eq (c : Char) : isDigit (some c) = c.isDigit := by
  rw [Bool.eq_iff_iff, Char.isDigit_iff_toNat]
  simp only [isDigit, Bool.and_eq_true, decide_eq_true_eq]
  rfl

theorem isDigit_toDigits {n : Nat} : ∀ d ∈ (Nat.toDigits 10 n).map some, isDigit d = true := by
  intro d hd
  obtain ⟨c, hc, rfl⟩ := List.mem_map.1 hd
  rw [isDigit_eq]
  exact Nat.isDigit_of_mem_toDigits (by decide) (by decide) hc

theorem decimal_toDigits (n : Nat) : decimal ((Nat.toDigits 10 n).map some) = n := by
  induction n using Nat.strongRecOn with
  | _ n ih =>
    have hlast : ∀ d, d < 10 → digitValue (some d.digitChar) = d := fun d hd =>
      Nat.toNat_digitChar_sub_48_of_lt_ten hd
    rw [Nat.toDigits_eq_if (by decide)]
    split
    · next hlt =>
      change 10 * 0 + digitValue (some n.digitChar) = n
      rw [hlast n hlt]
      omega
    · next hge =>
      have hrest := ih (n / 10) (by omega)
      rw [decimal] at hrest
      rw [decimal, List.map_append, List.foldl_append, hrest]
      change 10 * (n / 10) + digitValue (some (n % 10).digitChar) = n
      rw [hlast _ (by omega)]
      omega

/-- Only zero begins with the digit zero. -/
theorem head?_toDigits {n : Nat} (h : (Nat.toDigits 10 n).head? = some '0') : n = 0 := by
  induction n using Nat.strongRecOn with
  | _ n ih =>
    rw [Nat.toDigits_eq_if (by decide)] at h
    split at h
    · simpa using h
    · next hge =>
      rw [List.head?_append_of_ne_nil _ Nat.toDigits_ne_nil] at h
      have hzero := ih (n / 10) (by omega) h
      omega

/-- What stands ahead does not go on with a number. -/
def Ends (rest : Input) : Prop :=
  ∀ c, rest.head? = some (some c) → c.isDigit = false ∧ c ≠ '.' ∧ c ≠ 'e' ∧ c ≠ 'E'

theorem readWhole_toDigits (n : Nat) {rest : Input} (h : Ends rest) :
    readWhole ((Nat.toDigits 10 n).map some ++ rest) = some (n, rest) := by
  have hrest : rest.takeWhile isDigit = [] ∧ rest.dropWhile isDigit = rest := by
    cases rest with
    | nil => exact ⟨rfl, rfl⟩
    | cons d more =>
      have hd : isDigit d = false := by
        cases d with
        | none => rfl
        | some c =>
          rw [isDigit_eq]
          exact (h c rfl).1
      simp [hd]
  have htake : ((Nat.toDigits 10 n).map some ++ rest).takeWhile isDigit =
      (Nat.toDigits 10 n).map some := by
    rw [List.takeWhile_append_of_pos isDigit_toDigits, hrest.1, List.append_nil]
  have hdrop : ((Nat.toDigits 10 n).map some ++ rest).dropWhile isDigit = rest := by
    rw [List.dropWhile_append_of_pos isDigit_toDigits, hrest.2]
  have hdigits : readDigits ((Nat.toDigits 10 n).map some ++ rest) =
      some ((Nat.toDigits 10 n).map some, rest) := by
    rw [readDigits, htake, hdrop]
    cases hnil : (Nat.toDigits 10 n).map some with
    | nil => exact absurd (List.map_eq_nil_iff.1 hnil) Nat.toDigits_ne_nil
    | cons d more => rfl
  have hzero : ¬ (((Nat.toDigits 10 n).map some).head? = some (some '0') ∧
      1 < ((Nat.toDigits 10 n).map some).length) := by
    rintro ⟨hhead, hlength⟩
    rw [List.head?_map] at hhead
    obtain ⟨c, hc, heq⟩ := Option.map_eq_some_iff.1 hhead
    obtain rfl := Option.some.inj heq
    obtain rfl := head?_toDigits hc
    simp at hlength
  rw [readWhole, hdigits]
  simp only [Option.bind_eq_bind, Option.bind_some]
  rw [if_neg hzero, decimal_toDigits]
  rfl

theorem readNumber_toDigits (negative : Bool) {n : Nat} (hn : negative = true → n ≠ 0)
    {rest : Input} (h : Ends rest) :
    readNumber negative ((Nat.toDigits 10 n).map some ++ rest) =
      some (integer (if negative then -n else n), rest) := by
  have hfraction : skipFraction rest = some (false, rest) := by
    unfold skipFraction
    split
    · exact absurd rfl (h '.' rfl).2.1
    · rfl
  have hexponent : skipExponent rest = some (false, rest) := by
    unfold skipExponent
    split
    · next e more =>
      obtain ⟨_, _, hlower, hupper⟩ := h e rfl
      rw [if_neg (by simp [hlower, hupper])]
    · rfl
  have hzero : (negative && n == 0) = false := by
    cases negative with
    | false => rfl
    | true => simpa using hn rfl
  rw [readNumber, readWhole_toDigits n h]
  simp only [Option.bind_eq_bind, Option.bind_some, hfraction, hexponent, hzero]
  rfl

end Numbers

end JsonValue

end TestBench
