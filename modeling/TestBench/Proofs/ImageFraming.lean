import TestBench.Proofs.CutText
import TestBench.Proofs.ImageRoundTrip
import TestBench.Proofs.ReadAhead

/-!
The bytes of an image frame it. Nothing that breaks off before their end is an
image, and behind them only blanks can stand. Both follow from what the body is
as a text: an object, which has no end before its last brace, and nothing of
what follows belongs to it.
-/
namespace TestBench

namespace JsonValue

section Framing

variable {cs : List Char} {v : JsonValue} {limit : Nat}
  (hobject : ∃ inside, cs = '{' :: inside) (hread : read limit (cs.map some) = some (v, []))

include hobject hread

theorem read_append {limit' : Nat} (hlimit : limit ≤ limit') (more : Input) :
    read limit' (cs.map some ++ more) = some (v, more) := by
  obtain ⟨inside, rfl⟩ := hobject
  exact (read_local limit hread).2 (Or.inr ⟨_, skipBlanks_of_not_blank rfl _⟩) limit' hlimit more

/-- Behind an object stand blanks or nothing. -/
theorem ofBytes?_append (hlimit : limit ≤ cs.length + 1) (more : Bytes) :
    ofBytes? (Utf8.encode cs ++ more) =
      if skipBlanks (Utf8.decode more) = [] then some v else none := by
  have hlength : limit ≤ (cs.map some ++ Utf8.decode more).length + 1 := by
    rw [List.length_append, List.length_map]
    omega
  have hmore := read_append hobject hread hlength (Utf8.decode more)
  rw [ofBytes?, Utf8.decode_encode_append]
  simp only [hmore]

/-- A part of an object is nothing. -/
theorem ofBytes?_cut {cut more : Bytes} (hcut : cut ++ more = Utf8.encode cs) (hmore : more ≠ []) :
    ofBytes? cut = none := by
  obtain ⟨before, after, hsplit, hafter, hdecode⟩ := Utf8.decode_of_cut hcut hmore
  cases hvalue : read ((Utf8.decode cut).length + 1) (Utf8.decode cut) with
  | none => rw [ofBytes?, hvalue]
  | some found =>
  obtain ⟨value, rest⟩ := found
  obtain ⟨hconsumes, hlocal⟩ := read_local _ hvalue
  rw [ofBytes?, hvalue]
  simp only
  rw [if_neg]
  intro hblank
  obtain ⟨most, hmost, hmost'⟩ : ∃ most, limit ≤ most ∧ (Utf8.decode cut).length + 1 ≤ most :=
    ⟨max limit _, Nat.le_max_left _ _, Nat.le_max_right _ _⟩
  rcases hdecode with hdecode | hdecode
  · rw [hdecode] at hconsumes hlocal hmost'
    obtain ⟨c, before, rfl⟩ := List.exists_cons_of_ne_nil
      (fun h => hconsumes.ne_nil (List.map_eq_nil_iff.2 h))
    obtain ⟨inside, hinside⟩ := hobject
    obtain rfl : c = '{' := (List.cons.inj (hsplit.symm.trans hinside)).1
    have hwhole := hlocal (Or.inr ⟨_, skipBlanks_of_not_blank rfl _⟩) most hmost' (after.map some)
    have hgiven := read_append ⟨inside, hinside⟩ hread hmost []
    rw [List.append_nil, hsplit, List.map_append, hwhole] at hgiven
    have hnil := (Prod.mk.inj (Option.some.inj hgiven)).2
    exact hafter (List.map_eq_nil_iff.1 (List.append_eq_nil_iff.1 hnil).2)
  · rw [hdecode] at hconsumes
    cases skipBlanks_eq_nil_iff.1 hblank none hconsumes.none_mem

end Framing

end JsonValue

namespace Image

theorem print_ofImage (image : Image) : ∃ inside, image.body = '{' :: inside := ⟨_, rfl⟩

/-- The limit that an image's body needs is within the one that its bytes allow. -/
theorem read_body (image : Image) : ∃ limit, limit ≤ image.body.length + 1 ∧
    JsonValue.read limit (image.body.map some) = some (Body.ofImage image, []) := by
  have husable := Body.ofImage_usable image
  have hsize := JsonValue.size_le_spell (Body.ofImage image) [] husable
  have hread := JsonValue.read_spell (Body.ofImage image) (image.body.length + 1) [] [] husable
    (by rw [body, JsonValue.print]; simp only [List.length_nil] at hsize; omega)
    (fun c hc => by cases hc)
  rw [List.append_nil] at hread
  exact ⟨_, Nat.le_refl _, hread⟩

/-- Behind the header the body decides. -/
theorem decode_header (rest : Bytes) : decode (header ++ rest) =
    match (JsonValue.ofBytes? rest).bind Body.image? with
    | some image => .ok image
    | none => .error .malformed := rfl

/-- A part of the header is not recognized as one. -/
theorem decode_of_header_cut {cut last : Bytes} (h : cut ++ last = header) (hlast : last ≠ []) :
    decode cut = .error .badMagic := by
  rw [decode]
  split
  · next hmagic =>
    obtain ⟨rest, rfl⟩ := List.isPrefixOf_iff_prefix.1 hmagic
    rw [List.append_assoc] at h
    have hrest : rest ++ last = [version] := List.append_cancel_left h
    have hnil : rest = [] := by
      rcases List.append_eq_singleton_iff.1 hrest with ⟨hnil, -⟩ | ⟨-, hnil⟩
      · exact hnil
      · exact absurd hnil hlast
    rw [hnil, List.append_nil, List.drop_length]
  · rfl

/-- The bytes of an image lead back to it, no part of them is an image, and they can be
followed by blanks only. -/
theorem decode_framed (image : Image) (h : image.fits = true) : ∃ bytes,
    image.encode? = some bytes ∧ decode bytes = .ok image ∧
      (∀ cut, cut <+: bytes → cut ≠ bytes → ∃ defect, decode cut = .error defect) ∧
      ∀ more found, decode (bytes ++ more) = .ok found ↔
        (∀ b ∈ more, b ∈ JsonValue.blanks) ∧ found = image := by
  have hencode : image.encode? = some image.bytes := if_pos h
  refine ⟨image.bytes, hencode, decode_encode? hencode, ?_, ?_⟩
  · rintro cut ⟨more, hcut⟩ hne
    have hmore : more ≠ [] := by
      rintro rfl
      exact hne (List.append_nil cut ▸ hcut)
    rcases Utf8.cut_append hcut with ⟨last, hlast, hheader⟩ | ⟨cut, rfl, hbody⟩
    · exact ⟨.badMagic, decode_of_header_cut hheader hlast⟩
    · obtain ⟨limit, -, hread⟩ := read_body image
      rw [decode_header, JsonValue.ofBytes?_cut (print_ofImage image) hread hbody hmore]
      exact ⟨.malformed, rfl⟩
  · intro more found
    obtain ⟨limit, hlimit, hread⟩ := read_body image
    rw [bytes, List.append_assoc, decode_header,
      JsonValue.ofBytes?_append (print_ofImage image) hread hlimit]
    by_cases hblank : ∀ b ∈ more, b ∈ JsonValue.blanks
    · rw [if_pos ((JsonValue.skipBlanks_decode more).2 hblank), Option.bind_some,
        Body.image?_ofImage h]
      exact ⟨fun heq => ⟨hblank, (Except.ok.inj heq).symm⟩, fun heq => congrArg _ heq.2.symm⟩
    · rw [if_neg (mt (JsonValue.skipBlanks_decode more).1 hblank)]
      refine ⟨fun heq => ?_, fun heq => absurd heq.1 hblank⟩
      cases heq

/-- An image with a text of escaped and wide characters, the least number, and a method that
returns nothing from inside a loop. -/
def notesImage : Image :=
  ⟨"Notes", ["Ink"], [⟨"Note", ["Fixture"],
    [⟨"title", .constant (.text "\"né\\€\x01\n😀\"")⟩,
      ⟨"least", .constant (.integer ⟨-0x8000000000000000, by decide, by decide⟩)⟩],
    [⟨"wait", 1, 2, [], [.while (.unary .not (.local 0)) [.cond (.field 1)
      [.return none] [.setLocal 1 (.callStatic ⟨"Ink", "Pen", "dry"⟩ [.local 0])]]], 7⟩]⟩]⟩

theorem decode_framed_notes : notesImage.fits = true ∧ ∃ bytes,
    notesImage.encode? = some bytes ∧ decode bytes = .ok notesImage ∧
      (∃ defect, decode bytes.dropLast = .error defect) ∧
      decode (bytes ++ [0x0D, 0x0A]) = .ok notesImage ∧
      ∀ found, decode (bytes ++ [0x20, 0x7D]) ≠ .ok found := by
  have hfits : notesImage.fits = true := by decide
  obtain ⟨bytes, hencode, hdecode, hcut, hmore⟩ := decode_framed notesImage hfits
  refine ⟨hfits, bytes, hencode, hdecode, hcut _ (List.dropLast_prefix bytes) ?_, ?_, ?_⟩
  · intro heq
    have hlength := congrArg List.length heq
    rw [List.length_dropLast] at hlength
    have hnil : bytes = [] := List.eq_nil_of_length_eq_zero (by omega)
    subst hnil
    cases hdecode
  · exact (hmore _ _).2 ⟨by simp [JsonValue.blanks], rfl⟩
  · exact fun found hfound => absurd ((hmore _ _).1 hfound).1 (by simp [JsonValue.blanks])

end Image

end TestBench
