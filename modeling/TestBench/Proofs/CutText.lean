import Mathlib.Data.List.TakeWhile
import TestBench.Proofs.SpelledText

/-!
What bytes spell when they are a part of something longer. Complete characters
are spelled independently of what follows them. A text that is cut off spells
the characters before the cut and at most one ill-formed unit, and only the
four blank bytes spell nothing but blanks.
-/
namespace TestBench

namespace Utf8

theorem decode_encode_append (cs : List Char) (more : Bytes) :
    decode (encode cs ++ more) = cs.map some ++ decode more := by
  induction cs with
  | nil => rfl
  | cons c rest ih =>
    rw [encode, List.flatMap_cons, List.append_assoc, decode, decodeFrom_utf8EncodeChar,
      List.map_cons, List.cons_append]
    exact congrArg (some c :: ·) ih

section Cuts

/-- Decoding the first bytes writes some units and leaves a state to go on from. -/
theorem decodeFrom_append (pending : Option Pending) (bytes : Bytes) :
    ∃ units pending', ∀ more,
      decodeFrom pending (bytes ++ more) = units ++ decodeFrom pending' more := by
  induction bytes generalizing pending with
  | nil => exact ⟨[], pending, fun more => rfl⟩
  | cons b rest ih =>
    obtain ⟨units, pending', hunits⟩ := ih (step pending b.toNat).2
    refine ⟨(step pending b.toNat).1 ++ units, pending', fun more => ?_⟩
    rw [List.cons_append, decodeFrom_cons, hunits, List.append_assoc]

theorem begin_ne (b : Nat) : (begin b).1 ≠ [] ∨ (begin b).2 ≠ none := by
  unfold begin
  cases lead b <;> simp

theorem step_ne (pending : Option Pending) (b : Nat) :
    (step pending b).1 ≠ [] ∨ (step pending b).2 ≠ none := by
  cases pending with
  | none => exact begin_ne b
  | some p =>
    rw [step]
    split
    · split <;> simp
    · exact Or.inl (List.cons_ne_nil _ _)

/-- Every byte leads to a unit, and so does what is pending. -/
theorem decodeFrom_ne_nil {pending : Option Pending} {bytes : Bytes}
    (h : bytes ≠ [] ∨ pending ≠ none) : decodeFrom pending bytes ≠ [] := by
  induction bytes generalizing pending with
  | nil =>
    cases pending with
    | none => exact absurd h (by simp)
    | some p => exact List.cons_ne_nil _ _
  | cons b rest ih =>
    rw [decodeFrom_cons]
    rcases step_ne pending b.toNat with hunits | hpending
    · exact List.append_ne_nil_of_left_ne_nil hunits _
    · exact List.append_ne_nil_of_right_ne_nil _ (ih (Or.inr hpending))

/-- The first bytes of a character, but not all of them, spell at most one ill-formed unit. -/
theorem decode_of_char_cut {c : Char} {cut more : Bytes}
    (h : cut ++ more = String.utf8EncodeChar c) (hmore : more ≠ []) :
    decode cut = [] ∨ decode cut = [none] := by
  obtain ⟨units, pending, hunits⟩ := decodeFrom_append none cut
  have hwhole : units ++ decodeFrom pending more = [some c] := by
    rw [← hunits, h, ← List.append_nil (String.utf8EncodeChar c), decodeFrom_utf8EncodeChar]
    rfl
  have hrest : decodeFrom pending more ≠ [] := decodeFrom_ne_nil (Or.inl hmore)
  have hnil : units = [] := by
    rcases List.append_eq_singleton_iff.1 hwhole with ⟨hunits, _⟩ | ⟨_, hnone⟩
    · exact hunits
    · exact absurd hnone hrest
  have hcut := hunits []
  rw [List.append_nil, hnil, List.nil_append] at hcut
  rw [decode, hcut]
  cases pending with
  | none => exact Or.inl rfl
  | some p => exact Or.inr rfl

/-- A cut of two texts in a row is within the first or behind it. -/
theorem cut_append {first second cut more : Bytes} (h : cut ++ more = first ++ second) :
    (∃ last, last ≠ [] ∧ cut ++ last = first) ∨
      ∃ cut', cut = first ++ cut' ∧ cut' ++ more = second := by
  rcases List.append_eq_append_iff.1 h with ⟨last, rfl, rfl⟩ | ⟨cut', rfl, rfl⟩
  · by_cases hlast : last = []
    · subst hlast
      exact Or.inr ⟨[], by rw [List.append_nil, List.append_nil], rfl⟩
    · exact Or.inl ⟨last, hlast, rfl⟩
  · exact Or.inr ⟨cut', rfl, rfl⟩

/-- Bytes that break off before the end of a text spell a part of it. -/
theorem decode_of_cut {cs : List Char} {cut more : Bytes} (h : cut ++ more = encode cs)
    (hmore : more ≠ []) : ∃ before after : List Char, cs = before ++ after ∧ after ≠ [] ∧
      (decode cut = before.map some ∨ decode cut = before.map some ++ [none]) := by
  induction cs generalizing cut with
  | nil => exact absurd (List.append_eq_nil_iff.1 h).2 hmore
  | cons c rest ih =>
    rcases cut_append h with ⟨last, hlast, hchar⟩ | ⟨cut', rfl, hrest⟩
    · exact ⟨[], c :: rest, rfl, List.cons_ne_nil c rest, decode_of_char_cut hchar hlast⟩
    · obtain ⟨before, after, rfl, hafter, hcut⟩ := ih hrest
      refine ⟨c :: before, after, rfl, hafter, ?_⟩
      rw [decode, decodeFrom_utf8EncodeChar]
      exact hcut.imp (congrArg (some c :: ·)) (congrArg (some c :: ·))

end Cuts

section Blanks

/-- What the bytes that are still due make of the bits so far is no ASCII character. -/
def Pending.IsWide (p : Pending) : Prop :=
  0x80 ≤ p.bits * 64 + (p.low - 0x80) ∨ 2 ≤ p.due ∧ 2 ≤ p.bits * 64 + (p.low - 0x80)

theorem lead_isWide {b : Nat} {p : Pending} (h : lead b = .more p) : p.IsWide := by
  unfold lead at h
  unfold Pending.IsWide
  repeat' split at h
  all_goals first
    | rw [← Lead.more.inj h]
      simp only
      omega
    | cases h

/-- A character that no single byte spells is none of the blanks. -/
theorem isBlank_ofNat {n : Nat} (h : 0x80 ≤ n) :
    JsonValue.isBlank (some (Char.ofNat n)) = false := by
  by_cases hvalid : n.isValidChar
  · have hn : (Char.ofNat n).toNat = n := by
      rw [Char.ofNat, dif_pos hvalid]
      rfl
    have hne : ∀ c : Char, c.toNat < 0x80 → (Char.ofNat n == c) = false := by
      intro c hc
      refine beq_eq_false_iff_ne.2 fun heq => ?_
      rw [heq] at hn
      omega
    simp only [JsonValue.isBlank, hne ' ' (by decide), hne '\n' (by decide), hne '\t' (by decide),
      hne '\r' (by decide), Bool.or_self]
  · have hzero : Char.ofNat n = '\x00' := dif_neg hvalid
    rw [hzero]
    rfl

/-- What a character of several bytes leads to is no blank, if it is a character at all. -/
theorem exists_not_blank {p : Pending} (h : p.IsWide) (bytes : Bytes) :
    ∃ u ∈ decodeFrom (some p) bytes, JsonValue.isBlank u = false := by
  induction bytes generalizing p with
  | nil => exact ⟨none, List.mem_singleton_self none, rfl⟩
  | cons b rest ih =>
    rw [decodeFrom_cons, step]
    split
    · next hrange =>
      obtain ⟨hlow, hhigh⟩ := hrange
      have hwide : 0x80 ≤ p.bits * 64 + (b.toNat - 0x80) ∨
          2 ≤ p.due ∧ 2 ≤ p.bits * 64 + (b.toNat - 0x80) := by
        unfold Pending.IsWide at h
        omega
      split
      · next hdue =>
        exact ⟨_, List.mem_append_left _ (List.mem_singleton_self _), isBlank_ofNat (by omega)⟩
      · obtain ⟨u, hu, hblank⟩ := ih (p := ⟨p.bits * 64 + (b.toNat - 0x80), p.due - 1, 0x80, 0xBF⟩)
          (Or.inl (by simp only; omega))
        exact ⟨u, List.mem_append_right _ hu, hblank⟩
    · exact ⟨none, List.mem_append_left _ List.mem_cons_self, rfl⟩

end Blanks

end Utf8

namespace JsonValue

/-- The bytes that may stand around a value. -/
def blanks : Bytes := [0x20, 0x0A, 0x09, 0x0D]

theorem skipBlanks_eq_nil_iff {cs : Input} : skipBlanks cs = [] ↔ ∀ u ∈ cs, isBlank u = true :=
  List.dropWhile_eq_nil_iff

theorem lead_of_blank {b : UInt8} (h : b ∈ blanks) :
    Utf8.lead b.toNat = .ascii (Char.ofNat b.toNat) := by
  have hall : blanks.all (·.toNat < 0x80) = true := rfl
  exact if_pos (by simpa using List.all_eq_true.1 hall b h)

theorem isBlank_of_lead {b : UInt8} {c : Char} (h : Utf8.lead b.toNat = .ascii c) :
    isBlank (some c) = true ↔ b ∈ blanks := by
  have hall : ∀ n < 0x80, isBlank (some (Char.ofNat n)) = true ↔ UInt8.ofNat n ∈ blanks := by
    decide
  by_cases hb : b.toNat < 0x80
  · obtain rfl : Char.ofNat b.toNat = c := Utf8.Lead.ascii.inj ((if_pos hb).symm.trans h)
    rw [hall b.toNat hb, UInt8.ofNat_toNat]
  · rw [Utf8.lead, if_neg hb] at h
    repeat' split at h
    all_goals cases h

/-- Only blank bytes spell nothing but blanks. -/
theorem skipBlanks_decode (bytes : Bytes) :
    skipBlanks (Utf8.decode bytes) = [] ↔ ∀ b ∈ bytes, b ∈ blanks := by
  rw [skipBlanks_eq_nil_iff]
  induction bytes with
  | nil => simp [Utf8.decode, Utf8.decodeFrom]
  | cons b rest ih =>
    rw [Utf8.decode, Utf8.decodeFrom_cons, Utf8.step, Utf8.begin, List.forall_mem_cons, ← ih]
    cases hlead : Utf8.lead b.toNat with
    | ascii c =>
      rw [List.singleton_append, List.forall_mem_cons, isBlank_of_lead hlead]
      rfl
    | ill =>
      refine ⟨fun h => absurd (h none List.mem_cons_self) (by decide), fun h => ?_⟩
      cases hlead.symm.trans (lead_of_blank h.1)
    | more p =>
      refine ⟨fun h => ?_, fun h => ?_⟩
      · obtain ⟨u, hu, hblank⟩ := Utf8.exists_not_blank (Utf8.lead_isWide hlead) rest
        cases (h u hu).symm.trans hblank
      · cases hlead.symm.trans (lead_of_blank h.1)

end JsonValue

end TestBench
