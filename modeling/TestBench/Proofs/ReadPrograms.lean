import TestBench.Proofs.ReadStatements

/-!
Programs that are spelled are read. A member and a declaration show by their
first token what they are, after their attributes if they have any. What was
read at some point and the declarations that are left make up the program
throughout, and there is at most one namespace among them.
-/
namespace TestBench.Source

open Production

namespace Member

def bare : Member → Member
  | field f => field f.bare
  | method m => method m.bare

theorem fields_bare (members : List Member) :
    (members.filterMap field?).map Field.bare = (members.map bare).filterMap field? := by
  induction members with
  | nil => rfl
  | cons m rest ih => cases m <;> simpa [List.filterMap_cons, field?, bare] using ih

theorem methods_bare (members : List Member) :
    (members.filterMap method?).map Method.bare = (members.map bare).filterMap method? := by
  induction members with
  | nil => rfl
  | cons m rest ih => cases m <;> simpa [List.filterMap_cons, method?, bare] using ih

end Member

theorem bareName_eq {α : Type} {a b : Spanned α} (h : a.node = b.node) :
    bareName a = bareName b := by
  rw [bareName, bareName, h]

namespace ClassDecl

variable {c : ClassDecl} {e : Expr}

theorem own_mem_expressions {a : Attribute} (ha : a ∈ c.attributes) (he : e ∈ a.arguments) :
    e ∈ c.expressions :=
  List.mem_append_left _ (List.mem_append_left _ (List.mem_flatMap.2 ⟨a, ha, he⟩))

theorem value_mem_expressions {f : Field} (hf : f ∈ c.fields) : f.value ∈ c.expressions :=
  List.mem_append_left _ (List.mem_append_right _ (List.mem_map_of_mem hf))

theorem argument_mem_expressions {m : Method} {a : Attribute} (hm : m ∈ c.methods)
    (ha : a ∈ m.attributes) (he : e ∈ a.arguments) : e ∈ c.expressions :=
  List.mem_append_right _ (List.mem_flatMap.2 ⟨m, hm, List.mem_flatMap.2 ⟨a, ha, he⟩⟩)

end ClassDecl

/-- What was read and the declarations that are left make up the program. -/
structure Program.Completes (p q : Program) (left : List Declaration) : Prop where
  space : q.space.toList.map bareName ++ (left.filterMap Declaration.space?).map bareName =
    p.space.toList.map bareName
  uses : q.uses.map bareName ++ (left.filterMap Declaration.use?).map bareName =
    p.uses.map bareName
  classes : q.classes.map ClassDecl.bare ++ (left.filterMap Declaration.type?).map ClassDecl.bare =
    p.classes.map ClassDecl.bare

namespace Program.Completes

variable {p q : Program} {left : List Declaration}

theorem bare_eq (h : p.Completes q []) : q.bare = p.bare := by
  obtain ⟨hspace, huses, hclasses⟩ := h
  simp only [List.filterMap_nil, List.map_nil, List.append_nil] at hspace huses hclasses
  rw [Program.bare, Program.bare, huses, hclasses]
  congr 1
  cases hq : q.space <;> cases hp : p.space <;> simp_all

/-- There is no second namespace. -/
theorem space_eq_none {name : Spanned QualifiedName} (h : p.Completes q (.space name :: left)) :
    q.space = none := by
  have hlength := congrArg List.length h.space
  cases hq : q.space with
  | none => rfl
  | some found =>
    cases hp : p.space <;> simp [hq, hp, Declaration.space?] at hlength

theorem addSpace {name found : Spanned QualifiedName} (hnode : found.node = name.node)
    (h : p.Completes q (.space name :: left)) :
    p.Completes { q with space := some found } left := by
  obtain ⟨hspace, huses, hclasses⟩ := h
  refine ⟨?_, huses, hclasses⟩
  rw [Program.Completes.space_eq_none ⟨hspace, huses, hclasses⟩] at hspace
  rw [← hspace]
  simp [Declaration.space?, bareName_eq hnode]

theorem addUse {name found : Spanned QualifiedName} (hnode : found.node = name.node)
    (h : p.Completes q (.use name :: left)) :
    p.Completes { q with uses := q.uses ++ [found] } left := by
  obtain ⟨hspace, huses, hclasses⟩ := h
  refine ⟨hspace, ?_, hclasses⟩
  rw [← huses]
  simp [Declaration.use?, bareName_eq hnode]

theorem addClass {decl found : ClassDecl} (hbare : found.bare = decl.bare)
    (h : p.Completes q (.type decl :: left)) :
    p.Completes { q with classes := q.classes ++ [found] } left := by
  obtain ⟨hspace, huses, hclasses⟩ := h
  refine ⟨hspace, huses, ?_⟩
  rw [← hclasses]
  simp [Declaration.type?, hbare]

end Program.Completes

/-- The production reads the statements in their braces at this depth. -/
def Production.GivesBackAll (p : Production (List Stmt)) (body : List Stmt) (depth : Nat) : Prop :=
  ∀ inner rest, Stmt.AllSpelled body inner → Gives p (braced inner ++ rest) depth
    (fun found => found.map Stmt.bare = body.map Stmt.bare) rest

namespace Production.Gives

variable {rest : List TokenKind} {depth : Nat} {l : Level} {below : Option Level}

theorem attributeItem {a : Attribute} {ks : List TokenKind} (hspelled : a.Spelled ks)
    (harguments : ∀ e ∈ a.arguments, l.expression.GivesBack e depth) (hrest : Leaves rest) :
    Gives (attributeItem l) (ks ++ rest) depth (·.bare = a.bare) rest := by
  rcases hspelled with ⟨rfl, hnone⟩ | rfl
  · refine (qualifiedName a.name hrest.dot).bind fun n hn =>
      (accept_other hrest.leftParen).bind fun found hfound => ?_
    rw [hfound]
    refine (pure (A := (· = [])) rfl).bind fun args hargs => (spanFrom _).bind fun _ _ => .pure ?_
    rw [Attribute.bare, Attribute.bare, hn, hargs, hnone]
  · rw [parenthesized, List.append_assoc, List.cons_append, List.append_assoc]
    refine (qualifiedName a.name (by simp)).bind fun n hn =>
      (accept (by simp)).bind fun found hfound => ?_
    rw [hfound]
    refine (arguments harguments).bind fun args hargs => (spanFrom _).bind fun _ _ => .pure ?_
    rw [Attribute.bare, Attribute.bare, hn, hargs]

theorem attributes {as : List Attribute} {ks : List TokenKind} (hspelled : AttributesSpelled as ks)
    (harguments : ∀ a ∈ as, ∀ e ∈ a.arguments, l.expression.GivesBack e depth)
    (hrest : rest.headD .endOfFile ≠ .punctuation .leftBracket) :
    Gives (attributes l) (ks ++ rest) depth (fun found => found.map Attribute.bare =
      as.map Attribute.bare) rest := by
  obtain ⟨lists, rfl, hspelled⟩ := hspelled
  have hall : ∀ (limit : Nat) (lists : List (List Attribute)) (ks : List TokenKind),
      ks.length ≤ limit → Sequence (fun list ks => ∃ inner, Listed Attribute.Spelled list inner ∧
        ks = bracketed inner) lists ks →
      (∀ list ∈ lists, ∀ a ∈ list, ∀ e ∈ a.arguments, l.expression.GivesBack e depth) →
      Gives (attributes.lists l limit) (ks ++ rest) depth (fun found => found.map Attribute.bare =
        lists.flatten.map Attribute.bare) rest := by
    intro limit
    induction limit with
    | zero =>
      intro lists ks hlimit hspelled _
      obtain rfl := List.eq_nil_of_length_eq_zero (Nat.le_zero.1 hlimit)
      cases lists with
      | nil => exact .pure rfl
      | cons list more =>
        obtain ⟨_, later, ⟨inner, -, rfl⟩, -, hks⟩ := hspelled
        cases hks
    | succ limit ih =>
      intro lists ks hlimit hspelled hlists
      cases lists with
      | nil =>
        obtain rfl : ks = [] := hspelled
        refine (accept_other hrest).bind fun found hfound => ?_
        rw [hfound]
        exact .pure rfl
      | cons list more =>
        obtain ⟨_, later, ⟨inner, hlist, rfl⟩, hlater, rfl⟩ := hspelled
        obtain ⟨hfirst, hmore⟩ := List.forall_mem_cons.1 hlists
        rw [List.length_append, bracketed, List.length_cons, List.length_append] at hlimit
        simp only [bracketed, List.cons_append, List.append_assoc]
        refine (accept (by simp)).bind fun found hfound => ?_
        rw [hfound]
        refine (commaSeparated (by simp) hlist fun a ha first later hspelled hlater =>
          attributeItem hspelled (hfirst a ha) (Ends.leaves ?_)).bind fun read hread =>
            (punctuation _).bind fun _ _ => (ih more later (by omega) hlater hmore).bind
              fun found hfound => .pure ?_
        · rcases hlater with rfl | hcomma
          · exact ⟨.rightBracket, rfl, by simp, by simp⟩
          · exact ⟨.comma, hcomma, by simp, by simp⟩
        · rw [List.map_append, hread, hfound, List.flatten_cons, List.map_append]
  refine get_bind fun c hc => ?_
  refine hall c.ahead.length lists ks ?_ hspelled fun list hlist a ha =>
    harguments a (List.mem_flatten.2 ⟨list, hlist, ha⟩)
  rw [hc.length, List.length_append]
  omega

theorem parameters (ps : List (Spanned String)) :
    Gives parameters (parenthesized (parameterKinds ps) ++ rest) depth
      (fun found => found.map bareName = ps.map bareName) rest := by
  rw [parenthesized, List.cons_append, List.append_assoc]
  refine (punctuation _).bind fun _ _ => listedUntilParen (parameters_listed ps) ?_ ?_
  · rintro p _ later rfl
    simp
  · rintro p _ _ later rfl _
    exact (identifier p.node).mono fun s hs => bareName_eq hs

theorem directive (word : Keyword) (n : QualifiedName) :
    Gives (directive word) (Declaration.directiveKinds word n ++ rest) depth (·.node = n) rest := by
  rw [Declaration.directiveKinds, List.cons_append, List.append_assoc]
  exact get_bind fun c hc => (keyword word).bind fun _ _ =>
    (qualifiedName n (by simp)).bind fun name hname => (punctuation _).bind fun _ _ =>
      (spanFrom _).bind fun _ _ => .pure hname

section

variable {reading : Expr → Prop} {executing : List Stmt → Prop}
  (hexpression : ∀ e, reading e → l.expression.GivesBack e 0)

include hexpression

theorem field {f : Field} (hvalue : reading f.value) :
    Gives (member l below) (f.kinds ++ rest) 0 (fun m => m.bare = (Member.field f).bare) rest := by
  have hnone : AttributesSpelled [] [] := ⟨[], rfl, rfl⟩
  have hattributes : Gives (Source.attributes l) (f.kinds ++ rest) 0 (· = []) (f.kinds ++ rest) :=
    (attributes hnone (by simp) (by simp)).mono fun found hfound => List.map_eq_nil_iff.1 hfound
  refine get_bind fun c hc => hattributes.bind fun attrs hattrs => get_bind fun d hd => ?_
  have hkind : d.kind = .keyword .let := hd.kind_eq
  rw [hkind, hattrs, Field.kinds]
  simp only [List.cons_append, List.append_assoc]
  refine (advance (by simp)).bind fun _ _ => (identifier f.name).bind fun name hname =>
    (assigned (hexpression _ hvalue) _).bind fun value hread => (spanFrom _).bind fun _ _ =>
      .pure ?_
  rw [Member.bare, Member.bare, Field.bare, Field.bare, hname, hread]

variable (hblock : ∀ body, executing body → (Source.block below).GivesBackAll body 0)

include hblock

theorem method {m : Method} {ks : List TokenKind} (hspelled : m.Spelled ks)
    (hattributes : ∀ a ∈ m.attributes, ∀ e ∈ a.arguments, reading e) (hbody : executing m.body) :
    Gives (member l below) (ks ++ rest) 0 (fun found => found.bare = (Member.method m).bare)
      rest := by
  obtain ⟨lists, body, hlists, hinner, rfl⟩ := hspelled
  rw [List.append_assoc]
  refine get_bind fun c hc => (attributes hlists (fun a ha e he =>
    hexpression e (hattributes a ha e he)) (by simp)).bind fun attrs hattrs =>
      get_bind fun d hd => ?_
  have hkind : d.kind = .keyword .fn := hd.kind_eq
  rw [hkind]
  simp only [List.cons_append, List.append_assoc]
  refine (advance (by simp)).bind fun _ _ => (identifier m.name.node).bind fun name hname =>
    (parameters m.parameters).bind fun params hparams =>
      (hblock m.body hbody body rest hinner).bind fun found hfound => (spanFrom _).bind fun _ _ =>
        .pure ?_
  rw [Member.bare, Member.bare, Method.bare, Method.bare, hattrs, bareName_eq hname, hparams,
    hfound]

theorem classDecl {decl : ClassDecl} {ks : List TokenKind} (hspelled : decl.Spelled ks)
    (hexpressions : ∀ e ∈ decl.expressions, reading e)
    (hbodies : ∀ m ∈ decl.methods, executing m.body) :
    Gives (classDecl l below) (ks ++ rest) 0 (·.bare = decl.bare) rest := by
  obtain ⟨lists, members, body, hlists, hfields, hmethods, hmembers, rfl⟩ := hspelled
  have hmember : ∀ m ∈ members, ∀ first later, m.Spelled first →
      later.headD .endOfFile ≠ .keyword .else →
      Gives (Source.member l below) (first ++ later) 0 (·.bare = m.bare) later := by
    intro m hm first later hfirst _
    cases m with
    | field f =>
      have hf : f ∈ decl.fields := hfields ▸ List.mem_filterMap.2 ⟨_, hm, rfl⟩
      rw [Member.Spelled] at hfirst
      rw [hfirst]
      exact field hexpression (hexpressions _ (ClassDecl.value_mem_expressions hf))
    | method m =>
      have hm : m ∈ decl.methods := hmethods ▸ List.mem_filterMap.2 ⟨_, hm, rfl⟩
      exact method hexpression hblock hfirst (fun a ha e he =>
        hexpressions e (ClassDecl.argument_mem_expressions hm ha he)) (hbodies m hm)
  simp only [List.cons_append, List.append_assoc, braced]
  refine get_bind fun c hc => (attributes hlists (fun a ha e he =>
    hexpression e (hexpressions e (ClassDecl.own_mem_expressions ha he))) (by simp)).bind
      fun attrs hattrs => (keyword _).bind fun _ _ => (identifier _).bind fun name hname =>
        (punctuation _).bind fun _ _ => ?_
  refine (recovering rfl hmembers (fun m first h => h.opens) hmember).bind fun read hread =>
    (punctuation _).bind fun _ _ => (spanFrom _).bind fun _ _ => .pure ?_
  rw [ClassDecl.bare, ClassDecl.bare, hattrs, bareName_eq hname, Member.fields_bare,
    Member.methods_bare, hread, ← Member.fields_bare, ← Member.methods_bare, hfields, hmethods]

theorem declaration {p q : Program} {d : Declaration} {left : List Declaration}
    {ks : List TokenKind} (hspelled : d.Spelled ks) (hq : p.Completes q (d :: left))
    (hd : ∀ decl, d.type? = some decl → (∀ e ∈ decl.expressions, reading e) ∧
      ∀ m ∈ decl.methods, executing m.body) :
    Gives (Source.declaration l below q) (ks ++ rest) 0 (p.Completes · left) rest := by
  refine get_bind fun c hc => ?_
  cases d with
  | space name =>
    have hkind : c.kind = .keyword .namespace := by
      rw [hc.kind_eq, hspelled]
      rfl
    rw [hkind, hspelled]
    refine (directive .namespace name.node).bind fun found hfound => ?_
    rw [hq.space_eq_none]
    exact .pure (hq.addSpace hfound)
  | use name =>
    have hkind : c.kind = .keyword .use := by
      rw [hc.kind_eq, hspelled]
      rfl
    rw [hkind, hspelled]
    exact (directive .use name.node).bind fun found hfound => .pure (hq.addUse hfound)
  | type decl =>
    obtain ⟨hexpressions, hbodies⟩ := hd decl rfl
    have hmade : Gives (do
        return { q with classes := q.classes ++ [← Source.classDecl l below] })
        (ks ++ rest) 0 (p.Completes · left) rest :=
      (classDecl hexpression hblock hspelled hexpressions hbodies).bind fun found hfound =>
        .pure (hq.addClass hfound)
    have hkind : c.kind = .keyword .classDecl ∨ c.kind = .punctuation .leftBracket := by
      obtain ⟨lists, members, body, hlists, -, -, -, rfl⟩ := hspelled
      rw [hc.kind_eq]
      rcases hlists.head with rfl | ⟨more, rfl⟩
      · exact Or.inl rfl
      · exact Or.inr rfl
    rcases hkind with hkind | hkind
    · rw [hkind]
      exact hmade
    · rw [hkind]
      exact hmade

end

end Production.Gives

section

variable {l : Level} {below : Option Level} {reading : Expr → Prop} {executing : List Stmt → Prop}
  {p : Program} (hexpression : ∀ e, reading e → l.expression.GivesBack e 0)
  (hblock : ∀ body, executing body → (block below).GivesBackAll body 0)

include hexpression hblock

/-- All declarations are read, up to the end of the file. -/
theorem declarations_read : ∀ (limit : Nat) (left : List Declaration) (ks : List TokenKind)
    (q : Program) (c : Cursor), ks.length ≤ limit → Sequence Declaration.Spelled left ks →
    c.At (ks ++ [.endOfFile]) 0 → p.Completes q left →
    (∀ decl ∈ left.filterMap Declaration.type?, (∀ e ∈ decl.expressions, reading e) ∧
      ∀ m ∈ decl.methods, executing m.body) →
    ∃ found d, recoveringUpTo Cursor.atEnd (declaration l below) limit q c = (found, d) ∧
      found.bare = p.bare ∧ d.faults = [] := by
  intro limit left ks
  induction left generalizing limit ks with
  | nil =>
    intro q c _ hspelled hc hq _
    obtain rfl : ks = [] := hspelled
    have hstop : c.atEnd = true := decide_eq_true hc.kind_eq
    exact ⟨q, c, recoveringUpTo_stop hstop limit, hq.bare_eq, hc.faults⟩
  | cons d left ih =>
    intro q c hlimit hspelled hc hq hclasses
    obtain ⟨first, later, hfirst, hlater, rfl⟩ := hspelled
    obtain ⟨kind, more, rfl, hbegins⟩ := hfirst.opens
    have hstop : c.atEnd = false := by
      refine decide_eq_false fun hend => ?_
      have hkind : kind = .endOfFile := hc.kind_eq.symm.trans hend
      rw [hkind] at hbegins
      cases hbegins
    rw [List.length_append, List.length_cons] at hlimit
    obtain ⟨room, rfl⟩ : ∃ room, limit = room + 1 := ⟨limit - 1, by omega⟩
    rw [List.append_assoc] at hc
    obtain ⟨q', e, hrun, hq', he⟩ := Gives.declaration hexpression hblock hfirst hq
      (fun decl hdecl => hclasses decl (List.mem_filterMap.2 ⟨d, List.mem_cons_self, hdecl⟩)) c hc
    have hleft : ∀ decl ∈ left.filterMap Declaration.type?, (∀ e ∈ decl.expressions, reading e) ∧
        ∀ m ∈ decl.methods, executing m.body := by
      intro decl hdecl
      obtain ⟨x, hx, htype⟩ := List.mem_filterMap.1 hdecl
      exact hclasses decl (List.mem_filterMap.2 ⟨x, List.mem_cons_of_mem d hx, htype⟩)
    obtain ⟨found, f, hfound, hbare, hfaults⟩ := ih room later q' e (by omega) hlater he hq' hleft
    exact ⟨found, f, (recoveringUpTo_item hstop hrun room).trans hfound, hbare, hfaults⟩

end

namespace Program

variable {p : Program}

/-- However a program is spelled, reading gives it back, if its operators are grouped as they bind
and nothing leads too far in. -/
theorem ofTokens_of_spelled
    (hexpressions : ∀ e ∈ p.expressions, e.Grouped ∧ e.levels ≤ maxNesting)
    (hbodies : ∀ body ∈ p.bodies, Stmt.AllGrouped body ∧ 1 + Stmt.levelsOfAll body ≤ maxNesting) :
    (∀ ladders, p.Spelled (p.kinds ladders)) ∧
      ∀ (tokens : List Token) (ks : List TokenKind), p.Spelled ks →
        tokens.map (·.node) = ks ++ [.endOfFile] →
          ∃ q, ofTokens tokens = .ok q ∧ q.bare = p.bare := by
  refine ⟨fun ladders => p.kinds_spelled ladders, fun tokens ks hspelled htokens => ?_⟩
  have hexpression : ∀ e : Expr, e.Grouped ∧ e.levels ≤ maxNesting →
      (Level.over (some (Level.withRoom (maxNesting - 1)))).expression.GivesBack e 0 :=
    fun e he => Level.givesBack (m := maxNesting) he.1 he.2 (by omega)
  have hblock : ∀ body, Stmt.AllGrouped body ∧ 1 + Stmt.levelsOfAll body ≤ maxNesting →
      (block (some (Level.withRoom (maxNesting - 1)))).GivesBackAll body 0 := by
    intro body hbody inner rest hinner
    exact Stmt.block_reads (Stmt.readAll body) hinner hbody.1 (by omega) (by rw [maxNesting]) rest
  obtain ⟨declarations, hdeclared, hspelled⟩ := hspelled
  have hclasses : ∀ decl ∈ declarations.filterMap Declaration.type?,
      (∀ e ∈ decl.expressions, e.Grouped ∧ e.levels ≤ maxNesting) ∧
        ∀ m ∈ decl.methods, Stmt.AllGrouped m.body ∧ 1 + Stmt.levelsOfAll m.body ≤ maxNesting := by
    intro decl hdecl
    rw [hdeclared.classes] at hdecl
    exact ⟨fun e he => hexpressions e (List.mem_flatMap.2 ⟨decl, hdecl, he⟩), fun m hm =>
      hbodies m.body (List.mem_flatMap.2 ⟨decl, hdecl, List.mem_map_of_mem hm⟩)⟩
  have hcompletes : p.Completes empty declarations := by
    constructor
    · rw [hdeclared.space]
      rfl
    · rw [hdeclared.uses]
      rfl
    · rw [hdeclared.classes]
      rfl
  have hlength : ks.length ≤ tokens.length := by
    have htotal := congrArg List.length htokens
    rw [List.length_map, List.length_append, List.length_singleton] at htotal
    omega
  obtain ⟨q, d, hrun, hbare, hfaults⟩ := declarations_read hexpression hblock tokens.length
    declarations ks empty (Cursor.start tokens) hlength hspelled ⟨htokens, rfl, rfl⟩ hcompletes
      hclasses
  refine ⟨q, ?_, hbare⟩
  unfold ofTokens
  simp only [hrun, hfaults]
  rfl

end Program

/-- A class with a sum as the value of a field, and a method that goes on after `else` with another
conditional. -/
def stairs : Program :=
  let nowhere := Span.empty 0
  let product : Expr := .binary nowhere .mul (.constant nowhere (.integer .zero))
    (.paren nowhere (.binary nowhere .or (.name nowhere "x") (.constant nowhere (.boolean true))))
  let field : Field :=
    ⟨nowhere, "x", .binary nowhere .add (.unary nowhere .neg (.name nowhere "y")) product⟩
  let step : Stmt := .ifThen nowhere (.name nowhere "x")
    [.expr nowhere (.call nowhere ⟨⟨"Assert", ["Fail"]⟩, nowhere⟩ [.constant nowhere (.text "")])]
  let method : Method := ⟨nowhere, [⟨nowhere, ⟨"Test", []⟩, []⟩], ⟨"f", nowhere⟩, [],
    [.ifElse nowhere (.name nowhere "y") [.return nowhere none] [step]]⟩
  ⟨some ⟨⟨"a", []⟩, nowhere⟩, [], [⟨nowhere, [], ⟨"A", nowhere⟩, [field], [method]⟩]⟩

theorem ofTokens_of_spelled_stairs :
    ∃ q, Program.ofTokens ((stairs.kinds true ++ [TokenKind.endOfFile]).map mark) = .ok q ∧
      q.bare = stairs.bare := by
  have hexpressions : ∀ e ∈ stairs.expressions, e.Grouped ∧ e.levels ≤ maxNesting := by
    simp [stairs, Program.expressions, ClassDecl.expressions, Expr.Grouped, Expr.Binds,
      Expr.precedence?, Expr.levels, Expr.chainLength, BinaryOp.precedence, BinaryOp.sign,
      Operator.precedence?, maxNesting]
  have hbodies : ∀ body ∈ stairs.bodies,
      Stmt.AllGrouped body ∧ 1 + Stmt.levelsOfAll body ≤ maxNesting := by
    simp [stairs, Program.bodies, Stmt.AllGrouped, Stmt.Grouped, Stmt.levelsOfAll, Stmt.levels,
      Expr.Grouped, Expr.AllGrouped, Expr.levels, Expr.levelsOfAll, maxNesting]
  obtain ⟨hstandard, hread⟩ := Program.ofTokens_of_spelled hexpressions hbodies
  exact hread _ (stairs.kinds true) (hstandard true) (by simp [mark, Function.comp_def])

end TestBench.Source
