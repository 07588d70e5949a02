import TestBench.Proofs.GrammarInvariants
import TestBench.Proofs.GrammarRules

/-!
Reading goes on. No production goes back or past the end of the file, and none
reports more faults than it reads tokens; one that has read something has one
token to spare for the fault that it may itself be left with. So each turn of a
loop, in which a fault is reported and what is wrong is skipped, reads a token
for every fault reported in it, and at least one.
-/
namespace TestBench.Source

/-- The tokens end with the end of the file, which is nowhere else. -/
def EndsOnce (tokens : List Token) : Prop :=
  ∃ before last, tokens = before ++ [last] ∧ last.node = .endOfFile ∧
    ∀ t ∈ before, t.node ≠ .endOfFile

/-- What is left after other tokens than the end of the file still ends with it. -/
theorem EndsOnce.tail {t : Token} {rest : List Token} (h : EndsOnce (t :: rest))
    (ht : t.node ≠ .endOfFile) : EndsOnce rest := by
  obtain ⟨before, last, heq, hlast, hbefore⟩ := h
  cases before with
  | nil =>
    obtain ⟨rfl, -⟩ := List.cons.inj heq
    exact absurd hlast ht
  | cons u before =>
    obtain ⟨-, rfl⟩ := List.cons.inj heq
    exact ⟨before, last, rfl, hlast, fun u hu => hbefore u (List.mem_cons_of_mem _ hu)⟩

namespace Cursor

/-- What reading has to spend and what it has spent: the tokens ahead and the faults reported. -/
def charge (c : Cursor) : Nat := c.ahead.length + c.faults.length

/-- Reading from the one cursor can lead to the other: some tokens were read, not past the end of
the file, and no more faults reported than tokens were read. -/
structure Leads (c d : Cursor) : Prop where
  ahead : d.ahead <:+ c.ahead
  ends : EndsOnce c.ahead → EndsOnce d.ahead
  faults : c.faults.length ≤ d.faults.length
  charge : d.charge ≤ c.charge

/-- If a token was read, one of them is not spent on a fault. -/
structure Pays (c d : Cursor) : Prop extends c.Leads d where
  spare : d.ahead.length < c.ahead.length → d.charge < c.charge

variable {c d e : Cursor}

theorem Leads.length_le (h : c.Leads d) : d.ahead.length ≤ c.ahead.length := h.ahead.length_le

theorem Leads.trans (h : c.Leads d) (h' : d.Leads e) : c.Leads e :=
  ⟨h'.ahead.trans h.ahead, fun hc => h'.ends (h.ends hc), Nat.le_trans h.faults h'.faults,
    Nat.le_trans h'.charge h.charge⟩

theorem Pays.refl (c : Cursor) : c.Pays c :=
  ⟨⟨List.suffix_refl _, fun hc => hc, Nat.le_refl _, Nat.le_refl _⟩,
    fun hlt => absurd hlt (Nat.lt_irrefl _)⟩

theorem Leads.refl (c : Cursor) : c.Leads c := (Pays.refl c).toLeads

theorem Pays.trans (h : c.Pays d) (h' : d.Pays e) : c.Pays e := by
  refine ⟨h.toLeads.trans h'.toLeads, fun hlt => ?_⟩
  have hfirst := h.charge
  have hsecond := h'.charge
  by_cases hread : d.ahead.length < c.ahead.length
  · have hspare := h.spare hread
    omega
  · have hspare := h'.spare (by omega)
    omega

/-- Once a token is read that is not spent, the rest may spend all that it reads. -/
theorem Pays.trans_leads (h : c.Pays d) (hread : d.ahead.length < c.ahead.length)
    (h' : d.Leads e) : c.Pays e := by
  refine ⟨h.toLeads.trans h', fun _ => ?_⟩
  have hspare := h.spare hread
  have hrest := h'.charge
  omega

/-- Reading tokens without a fault. -/
theorem Pays.of_read (hahead : d.ahead <:+ c.ahead) (hends : EndsOnce c.ahead → EndsOnce d.ahead)
    (hfaults : d.faults = c.faults) : c.Pays d := by
  have hlength := hahead.length_le
  refine ⟨⟨hahead, hends, ?_, ?_⟩, fun hlt => ?_⟩
  · exact Nat.le_of_eq (congrArg List.length hfaults.symm)
  · rw [charge, charge, hfaults]
    omega
  · rw [charge, charge, hfaults]
    omega

theorem atDepth_leads {depth : Nat} (h : { c with depth }.Leads d) (depth' : Nat) :
    c.Leads { d with depth := depth' } := ⟨h.ahead, h.ends, h.faults, h.charge⟩

theorem atDepth_pays {depth : Nat} (h : { c with depth }.Pays d) (depth' : Nat) :
    c.Pays { d with depth := depth' } := ⟨atDepth_leads h.toLeads depth', h.spare⟩

section Advance

theorem advance_pays (c : Cursor) : c.Pays c.advance := by
  unfold advance
  split
  · exact .refl c
  · next t rest hahead =>
    split
    · exact .refl c
    · next hend =>
      refine .of_read ?_ ?_ rfl
      · rw [hahead]
        exact List.suffix_cons t rest
      · rw [hahead]
        exact fun hc => hc.tail hend

/-- The next token is read, unless it is the end of the file. -/
theorem length_advance (h : c.kind ≠ .endOfFile) :
    c.advance.ahead.length + 1 = c.ahead.length := by
  unfold kind peek at h
  unfold advance
  cases hahead : c.ahead with
  | nil =>
    rw [hahead] at h
    exact absurd rfl h
  | cons t rest =>
    rw [hahead] at h
    have hend : t.node ≠ .endOfFile := h
    simp only [hend, if_false, List.length_cons]

end Advance

section Synchronize

/-- Skipping ends behind a semicolon, or before a token where reading resumes, such as the end of
the file. What is skipped before is neither. -/
def SkipsTo (c d : Cursor) : Prop :=
  ∃ plain, (∀ t ∈ plain, isBoundary t.node = false ∧ t.node ≠ .punctuation .semicolon) ∧
    (c.ahead = plain ++ d.ahead ∧ isBoundary d.kind = true ∨
      ∃ last, c.ahead = plain ++ last :: d.ahead ∧ last.node = .punctuation .semicolon)

theorem SkipsTo.cons {t : Token} {rest : List Token} (ht : isBoundary t.node = false)
    (hsemicolon : t.node ≠ .punctuation .semicolon) (hc : c.ahead = t :: rest)
    (h : { c with ahead := rest, last := t.span }.SkipsTo d) : c.SkipsTo d := by
  obtain ⟨plain, hplain, hends⟩ := h
  refine ⟨t :: plain, List.forall_mem_cons.2 ⟨⟨ht, hsemicolon⟩, hplain⟩, ?_⟩
  rcases hends with ⟨hrest, hboundary⟩ | ⟨last, hrest, hlast⟩
  · exact Or.inl ⟨hc.trans (congrArg (List.cons t) hrest), hboundary⟩
  · exact Or.inr ⟨last, hc.trans (congrArg (List.cons t) hrest), hlast⟩

theorem synchronize_skipsTo (c : Cursor) : c.SkipsTo c.synchronize := by
  obtain ⟨ahead, last, depth, faults⟩ := c
  induction ahead generalizing last with
  | nil => exact ⟨[], List.forall_mem_nil _, Or.inl ⟨rfl, rfl⟩⟩
  | cons t rest ih =>
    simp only [synchronize, synchronizeFrom]
    by_cases hsemicolon : t.node = .punctuation .semicolon
    · rw [if_pos hsemicolon]
      exact ⟨[], List.forall_mem_nil _, Or.inr ⟨t, rfl, hsemicolon⟩⟩
    rw [if_neg hsemicolon]
    by_cases hboundary : isBoundary t.node = true
    · rw [if_pos hboundary]
      exact ⟨[], List.forall_mem_nil _, Or.inl ⟨rfl, hboundary⟩⟩
    · rw [if_neg hboundary]
      exact .cons (by simpa using hboundary) hsemicolon rfl (ih t.span)

theorem SkipsTo.suffix (h : c.SkipsTo d) : d.ahead <:+ c.ahead := by
  obtain ⟨plain, -, ⟨hahead, -⟩ | ⟨last, hahead, -⟩⟩ := h
  · exact ⟨plain, hahead.symm⟩
  · exact ⟨plain ++ [last], by rw [hahead, List.append_assoc, List.singleton_append]⟩

/-- The end of the file is not skipped. -/
theorem SkipsTo.ends (h : c.SkipsTo d) (hc : EndsOnce c.ahead) : EndsOnce d.ahead := by
  have hbehind : ∀ (skipped rest : List Token), (∀ t ∈ skipped, t.node ≠ .endOfFile) →
      EndsOnce (skipped ++ rest) → EndsOnce rest := by
    intro skipped rest hskipped hends
    induction skipped with
    | nil => exact hends
    | cons t skipped ih =>
      obtain ⟨ht, hmore⟩ := List.forall_mem_cons.1 hskipped
      exact ih hmore (EndsOnce.tail hends ht)
  obtain ⟨plain, hplain, hends⟩ := h
  have hno : ∀ t ∈ plain, t.node ≠ .endOfFile := by
    intro t ht hend
    have hboundary := (hplain t ht).1
    rw [hend] at hboundary
    exact Bool.false_ne_true hboundary.symm
  rcases hends with ⟨hahead, -⟩ | ⟨last, hahead, hlast⟩
  · exact hbehind plain d.ahead hno (hahead ▸ hc)
  · refine (hbehind plain (last :: d.ahead) hno (hahead ▸ hc)).tail ?_
    rw [hlast]
    exact nofun

theorem synchronize_pays (c : Cursor) : c.Pays c.synchronize :=
  .of_read c.synchronize_skipsTo.suffix c.synchronize_skipsTo.ends rfl

theorem kind_congr (h : d.ahead = c.ahead) : d.kind = c.kind := by
  unfold kind peek
  rw [h]
  cases c.ahead <;> rfl

/-- After a fault, a token has been read for it, even if the item that it is in has read none. -/
theorem Pays.recover (h : c.Pays d) (hc : c.atEnd = false) (fault : Spanned SyntaxFault) :
    c.Leads (d.recover c.ahead.length fault) ∧
      (d.recover c.ahead.length fault).ahead.length < c.ahead.length := by
  have hskip : (d.report fault).Pays (d.report fault).synchronize :=
    (d.report fault).synchronize_pays
  unfold Cursor.recover
  dsimp only
  generalize (d.report fault).synchronize = next at hskip ⊢
  have hahead : next.ahead <:+ c.ahead := hskip.ahead.trans h.ahead
  have hends : EndsOnce c.ahead → EndsOnce next.ahead := fun hc => hskip.ends (h.ends hc)
  have hreport : (d.report fault).charge = d.charge + 1 := by
    rw [charge, charge, report]
    simp only [List.length_append, List.length_singleton]
    omega
  have hfaults : c.faults.length + 1 ≤ next.faults.length := by
    have hfirst := h.faults
    have hsecond : (d.faults ++ [fault]).length ≤ next.faults.length := hskip.faults
    rw [List.length_append, List.length_singleton] at hsecond
    omega
  have hcharge := hskip.charge
  have hpaid := h.charge
  by_cases hstuck : next.ahead.length = c.ahead.length
  · -- Nothing was read, so that the next token is skipped.
    have hsame : next.ahead = c.ahead := hahead.eq_of_length hstuck
    have hkind : next.kind ≠ .endOfFile := by
      rw [kind_congr hsame]
      simpa [atEnd] using hc
    have hstep := next.length_advance hkind
    have hadvance := next.advance_pays
    have hspare := hadvance.spare (by omega)
    have hmore := hadvance.faults
    rw [if_pos hstuck]
    refine ⟨⟨hadvance.ahead.trans hahead, fun hc => hadvance.ends (hends hc), ?_, ?_⟩, ?_⟩
    · omega
    · omega
    · omega
  · have hless := hahead.length_le
    have hlt : next.ahead.length < c.ahead.length := by omega
    rw [if_neg hstuck]
    refine ⟨⟨hahead, hends, ?_, ?_⟩, hlt⟩
    · omega
    · -- The fault is paid by a token of the item, or else by one that was skipped.
      by_cases hread : d.ahead.length < c.ahead.length
      · have hspare := h.spare hread
        omega
      · have hdlength := h.ahead.length_le
        have hreportAhead : (d.report fault).ahead.length = d.ahead.length := rfl
        have hspare := hskip.spare (by omega)
        omega

end Synchronize

end Cursor

namespace Production

variable {α β σ : Type} {c : Cursor} {p : Production α}

/-- Whatever becomes of it, the production only goes on. -/
def LeadsFrom (c : Cursor) (p : Production α) : Prop := c.Leads (p c).2

/-- The same, and it has a token to spare if it reads any. -/
def PaysFrom (c : Cursor) (p : Production α) : Prop := c.Pays (p c).2

/-- The same, and it reads at least one token if it does not fail. -/
structure ConsumesFrom (c : Cursor) (p : Production α) : Prop where
  pays : p.PaysFrom c
  consumes : ∀ a, (p c).1 = .ok a → (p c).2.ahead.length < c.ahead.length

theorem PaysFrom.leads (h : PaysFrom c p) : LeadsFrom c p := h.toLeads

theorem ConsumesFrom.leads (h : ConsumesFrom c p) : LeadsFrom c p := h.pays.leads

theorem LeadsFrom.of_run (h : LeadsFrom c p) {d : Cursor} {result : Except (Spanned SyntaxFault) α}
    (hp : p c = (result, d)) : c.Leads d := by
  rwa [LeadsFrom, hp] at h

theorem ConsumesFrom.of_run (h : ConsumesFrom c p) {a : α} {d : Cursor} (hp : p c = (.ok a, d)) :
    d.ahead.length < c.ahead.length := by
  have hread := h.consumes a (by rw [hp])
  rwa [hp] at hread

section Rules

variable {next : α → Production β}

/-- A production in sequence goes as far as its parts do one after the other. -/
theorem bind_trans {R : Cursor → Cursor → Prop} (htrans : ∀ {c d e}, R c d → R d e → R c e)
    (h : R c (p c).2) (hnext : ∀ a d, R d (next a d).2) : R c ((p >>= next) c).2 := by
  rw [bind_run]
  rcases hp : p c with ⟨_ | a, d⟩
  · rw [hp] at h
    exact h
  · rw [hp] at h
    exact htrans h (hnext a d)

theorem LeadsFrom.bind (h : LeadsFrom c p) (hnext : ∀ a d, LeadsFrom d (next a)) :
    LeadsFrom c (p >>= next) := bind_trans Cursor.Leads.trans h hnext

theorem PaysFrom.bind (h : PaysFrom c p) (hnext : ∀ a d, PaysFrom d (next a)) :
    PaysFrom c (p >>= next) := bind_trans Cursor.Pays.trans h hnext

/-- A sequence is judged by what it does where its first part does not fail. -/
theorem PaysFrom.bind_run (h : PaysFrom c p)
    (hnext : ∀ a d, p c = (.ok a, d) → c.Pays d → c.Pays (next a d).2 ∧
      ∀ b, (next a d).1 = .ok b → (next a d).2.ahead.length < c.ahead.length) :
    ConsumesFrom c (p >>= next) := by
  unfold PaysFrom at h
  rcases hp : p c with ⟨fault | a, d⟩
  · have hrun : (p >>= next) c = (.error fault, d) := by rw [Production.bind_run, hp]
    rw [hp] at h
    refine ⟨?_, fun b hb => ?_⟩
    · rw [PaysFrom, hrun]
      exact h
    · rw [hrun] at hb
      cases hb
  · have hrun : (p >>= next) c = next a d := by rw [Production.bind_run, hp]
    rw [hp] at h
    obtain ⟨hpays, hread⟩ := hnext a d hp h
    refine ⟨?_, fun b hb => ?_⟩
    · rw [PaysFrom, hrun]
      exact hpays
    · rw [hrun] at hb ⊢
      exact hread b hb

/-- What reads a token first may be followed by anything that goes on. -/
theorem ConsumesFrom.bind (h : ConsumesFrom c p) (hnext : ∀ a d, LeadsFrom d (next a)) :
    ConsumesFrom c (p >>= next) := by
  refine h.pays.bind_run fun a d hp hpays => ?_
  have hread := h.of_run hp
  refine ⟨hpays.trans_leads hread (hnext a d), fun b _ => ?_⟩
  exact Nat.lt_of_le_of_lt (hnext a d).length_le hread

/-- What may read nothing can be followed by what reads a token. -/
theorem PaysFrom.bind_consumes (h : PaysFrom c p) (hnext : ∀ a d, ConsumesFrom d (next a)) :
    ConsumesFrom c (p >>= next) := by
  refine h.bind_run fun a d _ hpays => ⟨hpays.trans (hnext a d).pays, fun b hb => ?_⟩
  exact Nat.lt_of_lt_of_le ((hnext a d).consumes b hb) hpays.length_le

theorem LeadsFrom.pure (a : α) : LeadsFrom c (pure a) := .refl c

theorem PaysFrom.pure (a : α) : PaysFrom c (pure a) := .refl c

/-- A production that fails where it stands. -/
theorem ConsumesFrom.failing (h : ∃ fault, p c = (.error fault, c)) : ConsumesFrom c p := by
  obtain ⟨fault, hrun⟩ := h
  refine ⟨?_, fun a ha => ?_⟩
  · rw [PaysFrom, hrun]
    exact .refl c
  · rw [hrun] at ha
    cases ha

theorem ConsumesFrom.fail (fault : SyntaxFault) (span : Span) :
    ConsumesFrom c (fail fault span : Production α) := .failing ⟨_, rfl⟩

theorem ConsumesFrom.unexpected (what : Expectation) :
    ConsumesFrom c (unexpected what : Production α) := .failing ⟨_, rfl⟩

variable {look : Cursor → Production β}

theorem LeadsFrom.get_bind (h : LeadsFrom c (look c)) : LeadsFrom c (get >>= look) := h

theorem PaysFrom.get_bind (h : PaysFrom c (look c)) : PaysFrom c (get >>= look) := h

theorem ConsumesFrom.get_bind (h : ConsumesFrom c (look c)) : ConsumesFrom c (get >>= look) :=
  ⟨h.pays, h.consumes⟩

theorem ConsumesFrom.advance (h : c.kind ≠ .endOfFile) :
    ConsumesFrom c (modify (·.advance) : Production PUnit) := by
  have hstep := c.length_advance h
  refine ⟨c.advance_pays, fun _ _ => ?_⟩
  change c.advance.ahead.length < c.ahead.length
  omega

/-- The next token is read where it has been seen. -/
theorem ConsumesFrom.advance_bind {kind : TokenKind} {next : PUnit → Production β}
    (hkind : c.kind = kind) (hend : kind ≠ .endOfFile) (h : ∀ d, LeadsFrom d (next ⟨⟩)) :
    ConsumesFrom c (modify (·.advance) >>= next) :=
  (ConsumesFrom.advance (by rwa [hkind])).bind fun _ d => h d

theorem LeadsFrom.ite {q : Production α} {condition : Prop} [Decidable condition]
    (h : LeadsFrom c p) (hq : LeadsFrom c q) : LeadsFrom c (if condition then p else q) := by
  split
  · exact h
  · exact hq

theorem PaysFrom.ite {q : Production α} {condition : Prop} [Decidable condition]
    (h : PaysFrom c p) (hq : PaysFrom c q) : PaysFrom c (if condition then p else q) := by
  split
  · exact h
  · exact hq

theorem isNext_run (kind : TokenKind) (c : Cursor) :
    isNext kind c = (.ok (decide (c.kind = kind)), c) := rfl

theorem accept_run (kind : TokenKind) (c : Cursor) : accept kind c =
    if c.kind = kind then (.ok true, c.advance) else (.ok false, c) := by
  rw [accept, bind_run, isNext_run]
  by_cases hkind : c.kind = kind
  · rw [if_pos hkind]
    simp only [hkind, decide_true, if_true]
    rfl
  · rw [if_neg hkind]
    simp only [hkind, decide_false]
    rfl

theorem PaysFrom.isNext (kind : TokenKind) : PaysFrom c (isNext kind) := .refl c

theorem PaysFrom.accept (kind : TokenKind) : PaysFrom c (accept kind) := by
  rw [PaysFrom, accept_run]
  split
  · exact c.advance_pays
  · exact .refl c

theorem ConsumesFrom.expect (what : Expectation) {kind : TokenKind} (hend : kind ≠ .endOfFile) :
    ConsumesFrom c (expect what kind) := by
  by_cases hkind : c.kind = kind
  · have hrun : Production.expect what kind c = (.ok (), c.advance) := by
      rw [Production.expect, bind_run, accept_run, if_pos hkind]
      rfl
    have hstep := c.length_advance (by rwa [hkind])
    refine ⟨?_, fun _ _ => ?_⟩
    · rw [PaysFrom, hrun]
      exact c.advance_pays
    · rw [hrun]
      change c.advance.ahead.length < c.ahead.length
      omega
  · refine .failing ⟨⟨.expected what c.kind, c.peek.span⟩, ?_⟩
    rw [Production.expect, bind_run, accept_run, if_neg hkind]
    rfl

theorem ConsumesFrom.keyword (word : Keyword) : ConsumesFrom c (keyword word) := .expect _ nofun

theorem ConsumesFrom.punctuation (sign : Punctuation) : ConsumesFrom c (punctuation sign) :=
  .expect _ nofun

theorem LeadsFrom.spanFrom (first : Span) : LeadsFrom c (spanFrom first) := .refl c

theorem ConsumesFrom.inside (h : ∀ d, ConsumesFrom d p) : ConsumesFrom c (inside p) := by
  by_cases hdepth : c.depth < maxNesting
  · have hrun := inside_run p hdepth
    obtain ⟨hpays, hconsumes⟩ := h { c with depth := c.depth + 1 }
    refine ⟨?_, fun a ha => ?_⟩
    · rw [PaysFrom, hrun]
      exact Cursor.atDepth_pays hpays _
    · rw [hrun] at ha ⊢
      exact hconsumes a ha
  · exact .failing ⟨_, if_neg hdepth⟩

theorem ConsumesFrom.keepingDepth (h : ConsumesFrom c p) : ConsumesFrom c (keepingDepth p) := by
  have hpays : { c with depth := c.depth }.Pays (p c).2 := h.pays
  exact ⟨Cursor.atDepth_pays hpays c.depth, h.consumes⟩

theorem LeadsFrom.enter : LeadsFrom c enter := by
  have hhere : { c with depth := c.depth }.Leads c := .refl c
  unfold LeadsFrom Production.enter
  split
  · exact Cursor.atDepth_leads hhere (c.depth + 1)
  · exact .refl c

theorem ConsumesFrom.further {below : Option Level} {q : Level → Production α}
    (h : ∀ l ∈ below, ∀ d, ConsumesFrom d (q l)) : ConsumesFrom c (further below q) := by
  cases below with
  | none => exact .failing ⟨_, rfl⟩
  | some l => exact .inside (h l rfl)

theorem ConsumesFrom.commaSeparatedUpTo (h : ∀ d, ConsumesFrom d p) (limit : Nat) (c : Cursor) :
    ConsumesFrom c (commaSeparatedUpTo p limit) := by
  induction limit generalizing c with
  | zero => exact (h c).bind fun _ _ => .pure _
  | succ limit ih =>
    refine (h c).bind fun _ d => (PaysFrom.accept _).leads.bind fun found e => .ite ?_ (.pure _)
    exact (ih e).leads.bind fun _ _ => .pure _

theorem ConsumesFrom.commaSeparated (h : ∀ d, ConsumesFrom d p) :
    ConsumesFrom c (commaSeparated p) := by
  obtain ⟨hpays, hconsumes⟩ := commaSeparatedUpTo h c.ahead.length c
  exact ⟨hpays, hconsumes⟩

section Turns

variable {stop : Cursor → Bool} {item : σ → Production σ}

/-- A turn reads at least one token, be the item read or left. -/
theorem turn_leads (hitem : ∀ s c, ConsumesFrom c (item s)) (s : σ) (hc : c.atEnd = false) :
    c.Leads (turn item s c).2 ∧ (turn item s c).2.ahead.length < c.ahead.length := by
  obtain ⟨hpays, hconsumes⟩ := hitem s c
  unfold PaysFrom at hpays
  unfold turn
  rcases hrun : item s c with ⟨fault | s', d⟩
  · rw [hrun] at hpays
    exact hpays.recover hc fault
  · rw [hrun] at hpays hconsumes
    exact ⟨hpays.toLeads, hconsumes s' rfl⟩

theorem recoveringUpTo_leads (hitem : ∀ s c, ConsumesFrom c (item s))
    (hstop : ∀ c, stop c = false → c.atEnd = false) (limit : Nat) (s : σ) (c : Cursor) :
    c.Leads (recoveringUpTo stop item limit s c).2 := by
  refine (turns_recoveringUpTo stop item limit s c).keep (P := fun _ d => c.Leads d) ?_ (.refl c)
  intro s d hd hleads
  exact hleads.trans (turn_leads hitem s (hstop d hd)).1

theorem LeadsFrom.recovering (hitem : ∀ s c, ConsumesFrom c (item s))
    (hstop : ∀ c, stop c = false → c.atEnd = false) (s : σ) :
    LeadsFrom c (recovering stop item s) :=
  recoveringUpTo_leads hitem hstop c.ahead.length s c

/-- With as many turns as there are tokens ahead, the loop comes to its stop. -/
theorem recoveringUpTo_stops (hitem : ∀ s c, ConsumesFrom c (item s))
    (hstop : ∀ c, stop c = false → c.atEnd = false) {limit : Nat} {s : σ} {c : Cursor}
    (h : c.ahead.length ≤ limit) : stop (recoveringUpTo stop item limit s c).2 = true := by
  induction limit generalizing s c with
  | zero =>
    have hnone : c.ahead = [] := List.length_eq_zero_iff.1 (Nat.le_zero.1 h)
    have hend : c.kind = .endOfFile := by
      unfold Cursor.kind Cursor.peek
      rw [hnone]
      rfl
    change stop c = true
    cases hrunning : stop c with
    | true => rfl
    | false =>
      have hc := hstop c hrunning
      rw [Cursor.atEnd, hend] at hc
      exact absurd hc (by decide)
  | succ limit ih =>
    rw [recoveringUpTo_succ]
    by_cases hrunning : stop c = true
    · rw [if_pos hrunning]
      exact hrunning
    · rw [if_neg hrunning]
      have hread := (turn_leads hitem s (hstop c (by simpa using hrunning))).2
      exact ih (by omega)

end Turns

end Rules

end Production

end TestBench.Source
