import TestBench.Source.Grammar

/-!
Invariants of reading. A property of cursors that reading on, leaving a construct
and changing the depth keep is kept by every production, and the faults that
productions give up with have a property of their own, which may rest on the
invariant. What a production reads has a property if its parts have theirs; the
rules here follow the ways in which productions are put together.
-/
namespace TestBench.Source

/-- What holds of the cursor is kept by all that productions do to it, given what holds of the
faults that they report. -/
structure Cursor.Invariant (inv : Cursor → Prop) (faulty : Spanned SyntaxFault → Prop) : Prop where
  advance : ∀ {c}, inv c → inv c.advance
  atDepth : ∀ {c}, inv c → ∀ depth, inv { c with depth }
  recover : ∀ {c fault}, inv c → faulty fault → ∀ size, inv (c.recover size fault)
  atPeek : ∀ {c}, inv c → ∀ fault, faulty ⟨fault, c.peek.span⟩

theorem Cursor.depth_advance (c : Cursor) : c.advance.depth = c.depth := by
  unfold advance
  split
  · rfl
  · split <;> rfl

namespace Production

variable {α β σ : Type}

theorem bind_run (p : Production α) (next : α → Production β) (c : Cursor) :
    (p >>= next) c = match p c with
      | (.ok a, d) => next a d
      | (.error e, d) => (.error e, d) := by
  change ExceptT.bindCont next (p c).1 (p c).2 = _
  rcases p c with ⟨_ | a, d⟩ <;> rfl

/-- Items, if there are any, up to a closing parenthesis: so arguments and parameters are read. -/
def untilParen (p : Production α) : Production (List α) := do
  let found ← if ← isNext (.punctuation .rightParen) then pure [] else commaSeparated p
  punctuation .rightParen
  return found

/-- The invariant is kept, and what is read and the fault that reading ends with are as they
should. -/
def Keeps (inv : Cursor → Prop) (faulty : Spanned SyntaxFault → Prop) (p : Production α)
    (P : α → Prop) : Prop :=
  ∀ c r d, p c = (r, d) → inv c →
    inv d ∧ (∀ a, r = .ok a → P a) ∧ ∀ fault, r = .error fault → faulty fault

namespace Keeps

variable {inv : Cursor → Prop} {faulty : Spanned SyntaxFault → Prop} {p : Production α}
  {P Q : α → Prop} {R : β → Prop}

theorem mono (h : Keeps inv faulty p P) (hPQ : ∀ a, P a → Q a) : Keeps inv faulty p Q := by
  intro c r d hrun hc
  obtain ⟨hd, hP, hfaulty⟩ := h c r d hrun hc
  exact ⟨hd, fun a ha => hPQ a (hP a ha), hfaulty⟩

theorem pure {a : α} (h : P a) : Keeps inv faulty (pure a) P := by
  intro c r d hrun hc
  obtain ⟨rfl, rfl⟩ := Prod.mk.inj hrun
  exact ⟨hc, fun b hb => Except.ok.inj hb ▸ h, fun _ hfault => nomatch hfault⟩

/-- A production that fails where it stands. -/
theorem failing (h : ∀ c, inv c → ∃ fault, faulty fault ∧ p c = (.error fault, c)) :
    Keeps inv faulty p P := by
  intro c r d hrun hc
  obtain ⟨fault, hfaulty, hfault⟩ := h c hc
  obtain ⟨rfl, rfl⟩ := Prod.mk.inj (hfault.symm.trans hrun)
  exact ⟨hc, nofun, fun other hother => Except.error.inj hother ▸ hfaulty⟩

theorem fail {fault : SyntaxFault} {span : Span} (h : faulty ⟨fault, span⟩) :
    Keeps inv faulty (fail fault span : Production α) P :=
  failing fun _ _ => ⟨_, h, rfl⟩

theorem bind {next : α → Production β} (h : Keeps inv faulty p P)
    (hnext : ∀ a, P a → Keeps inv faulty (next a) R) : Keeps inv faulty (p >>= next) R := by
  intro c r d hrun hc
  rw [bind_run] at hrun
  cases hp : p c with
  | mk found between =>
    obtain ⟨hbetween, hP, hfaulty⟩ := h c found between hp hc
    rw [hp] at hrun
    cases found with
    | error e =>
      obtain ⟨rfl, rfl⟩ := Prod.mk.inj hrun
      exact ⟨hbetween, nofun,
        fun fault hfault => hfaulty fault (congrArg _ (Except.error.inj hfault))⟩
    | ok a => exact hnext a (hP a rfl) between r d hrun hbetween

theorem map {f : α → β} (h : Keeps inv faulty p P) (hf : ∀ a, P a → R (f a)) :
    Keeps inv faulty (f <$> p) R := h.bind fun a ha => .pure (hf a ha)

theorem get : Keeps inv faulty (get : Production Cursor) inv := by
  intro c r d hrun hc
  obtain ⟨rfl, rfl⟩ := Prod.mk.inj hrun
  exact ⟨hc, fun a ha => Except.ok.inj ha ▸ hc, fun _ hfault => nomatch hfault⟩

theorem ite {q : Production α} {condition : Prop} [Decidable condition] (h : Keeps inv faulty p P)
    (hq : Keeps inv faulty q P) : Keeps inv faulty (if condition then p else q) P := by
  split
  · exact h
  · exact hq

theorem isNext (kind : TokenKind) : Keeps inv faulty (isNext kind) fun _ => True :=
  get.bind fun _ _ => .pure trivial

section Steps

variable (hinv : Cursor.Invariant inv faulty)

include hinv

theorem advance : Keeps inv faulty (modify (·.advance) : Production PUnit) fun _ => True := by
  intro c r d hrun hc
  obtain ⟨rfl, rfl⟩ := Prod.mk.inj hrun
  exact ⟨hinv.advance hc, fun _ _ => trivial, fun _ hfault => nomatch hfault⟩

theorem unexpected (what : Expectation) :
    Keeps inv faulty (unexpected what : Production α) P :=
  failing fun _ hc => ⟨_, hinv.atPeek hc _, rfl⟩

/-- A production that runs another at some depth and restores the depth. -/
theorem atDepth {q : Production α} (h : Keeps inv faulty p P)
    (hq : ∀ c, (∃ fault, q c = (.error ⟨fault, c.peek.span⟩, c)) ∨ ∃ before after,
      q c = ((p { c with depth := before }).1,
        { (p { c with depth := before }).2 with depth := after })) : Keeps inv faulty q P := by
  intro c r d hrun hc
  rcases hq c with ⟨fault, hfault⟩ | ⟨before, after, hinner⟩
  · obtain ⟨rfl, rfl⟩ := Prod.mk.inj (hfault.symm.trans hrun)
    exact ⟨hc, nofun,
      fun other hother => Except.error.inj hother ▸ hinv.atPeek hc fault⟩
  · obtain ⟨rfl, rfl⟩ := Prod.mk.inj (hinner.symm.trans hrun)
    obtain ⟨hd, hread⟩ := h { c with depth := before } _ _ rfl (hinv.atDepth hc before)
    exact ⟨hinv.atDepth hd after, hread⟩

theorem inside (h : Keeps inv faulty p P) : Keeps inv faulty (inside p) P := by
  refine atDepth hinv h fun c => ?_
  unfold Production.inside
  split
  · exact Or.inr ⟨c.depth + 1, _, rfl⟩
  · exact Or.inl ⟨_, rfl⟩

theorem keepingDepth (h : Keeps inv faulty p P) : Keeps inv faulty (keepingDepth p) P :=
  atDepth hinv h fun c => Or.inr ⟨c.depth, c.depth, rfl⟩

theorem enter : Keeps inv faulty enter fun _ => True := by
  refine atDepth hinv (pure (a := ()) trivial) fun c => ?_
  unfold Production.enter
  split
  · exact Or.inr ⟨c.depth, c.depth + 1, rfl⟩
  · exact Or.inl ⟨_, rfl⟩

theorem further {below : Option Level} {q : Level → Production α}
    (h : ∀ l ∈ below, Keeps inv faulty (q l) P) : Keeps inv faulty (further below q) P := by
  cases below with
  | none => exact failing fun c hc => ⟨_, hinv.atPeek hc _, rfl⟩
  | some l => exact inside hinv (h l rfl)

theorem accept (kind : TokenKind) : Keeps inv faulty (accept kind) fun _ => True :=
  (isNext kind).bind fun _ _ =>
    .ite ((advance hinv).bind fun _ _ => .pure trivial) (.pure trivial)

theorem expect (what : Expectation) (kind : TokenKind) :
    Keeps inv faulty (expect what kind) fun _ => True :=
  (accept hinv kind).bind fun _ _ => .ite (.pure trivial) (unexpected hinv what)

theorem keyword (word : Keyword) : Keeps inv faulty (keyword word) fun _ => True :=
  expect hinv _ _

theorem punctuation (sign : Punctuation) :
    Keeps inv faulty (punctuation sign) fun _ => True := expect hinv _ _

theorem commaSeparated (h : Keeps inv faulty p P) :
    Keeps inv faulty (commaSeparated p) fun as => ∀ a ∈ as, P a := by
  have hall : ∀ limit, Keeps inv faulty (commaSeparatedUpTo p limit) fun as => ∀ a ∈ as, P a := by
    intro limit
    induction limit with
    | zero => exact h.bind fun a ha => .pure (by simpa using ha)
    | succ limit ih =>
      refine h.bind fun a ha => (accept hinv _).bind fun _ _ => ite ?_ ?_
      · exact ih.bind fun as has => .pure (List.forall_mem_cons.2 ⟨ha, has⟩)
      · exact .pure (by simpa using ha)
  exact fun c r d hrun => hall c.ahead.length c r d hrun

theorem untilParen (h : Keeps inv faulty p P) :
    Keeps inv faulty (untilParen p) fun as => ∀ a ∈ as, P a := by
  have hclose : ∀ as : List α, (∀ a ∈ as, P a) →
      Keeps inv faulty (do Production.punctuation .rightParen; return as) fun as =>
        ∀ a ∈ as, P a :=
    fun as has => (punctuation hinv _).bind fun _ _ => .pure has
  refine (isNext _).bind fun _ _ => .ite ?_ ((commaSeparated hinv h).bind hclose)
  exact bind (.pure (List.forall_mem_nil P)) hclose

/-- Whatever faults there are, what is collected is what the items that were read make of it. -/
theorem recoveringUpTo {stop : Cursor → Bool} {item : σ → Production σ} {I : σ → Prop}
    (h : ∀ s, I s → Keeps inv faulty (item s) I) (limit : Nat) {s : σ} {c : Cursor} (hs : I s)
    (hc : inv c) : I (recoveringUpTo stop item limit s c).1 ∧
      inv (recoveringUpTo stop item limit s c).2 := by
  induction limit generalizing s c with
  | zero => exact ⟨hs, hc⟩
  | succ limit ih =>
    rw [Production.recoveringUpTo]
    split
    · exact ⟨hs, hc⟩
    cases hitem : item s c with
    | mk found after =>
      obtain ⟨hafter, hfound, hfaulty⟩ := h s hs c found after hitem hc
      cases found with
      | ok s' => exact ih (hfound s' rfl) hafter
      | error fault => exact ih hs (hinv.recover hafter (hfaulty fault rfl) _)

theorem recovering {stop : Cursor → Bool} {item : σ → Production σ} {I : σ → Prop}
    (h : ∀ s, I s → Keeps inv faulty (item s) I) {s : σ} (hs : I s) :
    Keeps inv faulty (recovering stop item s) I := by
  intro c r d hrun hc
  obtain ⟨rfl, rfl⟩ := Prod.mk.inj hrun
  obtain ⟨hI, hd⟩ := recoveringUpTo hinv h c.ahead.length hs hc
  exact ⟨hd, fun a ha => Except.ok.inj ha ▸ hI, fun _ hfault => nomatch hfault⟩

end Steps

end Keeps

end Production

end TestBench.Source
