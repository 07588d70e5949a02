import TestBench.Proofs.AcceptedSpellings
import TestBench.Proofs.LaidProductions

/-!
How accepted programs are laid out. The span of a class or method begins at its
attributes, that of an attribute at its name, which is why it may be followed by
parentheses without arguments. All tokens before the end of a file belong to the
trees of its declarations.
-/
namespace TestBench.Source

open Token (InOrder)
open SyntaxTree (AllLaidOut tokens listed inParens)

namespace Program

/-- The trees of the program are laid out on the tokens. -/
def LaidOn (p : Program) (ts : List Token) : Prop := ∃ trees, p.HasTrees trees ∧ AllLaidOut trees ts

variable {p q : Program} {before ts : List Token}

/-- Another declaration was read. -/
theorem LaidOn.concat {d : Declaration} (hp : p.LaidOn before)
    (hd : ∃ tree, d.HasTree tree ∧ tree.LaidOut ts)
    (h : ∀ declarations, p.DeclaredAs declarations → q.DeclaredAs (declarations ++ [d])) :
    q.LaidOn (before ++ ts) := by
  obtain ⟨trees, ⟨declarations, hdeclared, hhave⟩, hall⟩ := hp
  obtain ⟨tree, htree, hlaid⟩ := hd
  exact ⟨trees ++ [tree], ⟨declarations ++ [d], h declarations hdeclared,
    List.rel_append hhave (.cons htree .nil)⟩,
    hall.append (SyntaxTree.allLaidOut_singleton.2 hlaid)⟩

end Program

theorem AttributeTrees.eq_nil {attributes : List Attribute} {trees : List SyntaxTree}
    (h : AttributeTrees attributes trees) (hnone : attributes = []) : trees = [] := by
  cases h with
  | nil => rfl
  | list hfound _ _ => exact absurd (List.append_eq_nil_iff.1 hnone).1 hfound

namespace Production.LaysAt

theorem directive {c : Cursor} (word : Keyword) : LaysAt c (directive word) fun name ts =>
    (directiveTree word name).LaidOut ts := by
  refine get_bind (.ordered ((keyword _).bind fun _ _ => qualifiedName.bind fun name _ =>
    (punctuation _).bind fun _ m => (spanned (Spanned.mk name.node) _).mono ?_))
  intro space none hmade sign hsign hsemicolon ts hts hname first hfirst hword hin
  obtain ⟨rfl, rfl⟩ := hmade
  refine (hfirst.trans (hts.trans (hsign.trans (.refl m)))).node hin (List.cons_ne_nil _ _) ?_
  rw [List.append_nil, Declaration.directiveKinds, tokens, List.map_cons, List.map_append]
  exact .cons hword (.append hname.2 (SyntaxTree.allLaidOut_singleton.2 hsemicolon))

section

variable {c : Cursor} {l : Level} {below : Option Level} (hl : l.Lays)

include hl

theorem attributeItem : LaysAt c (attributeItem l) fun a ts =>
    ∃ tree, a.HasTree tree ∧ tree.LaidOut ts := by
  refine .ordered (qualifiedName.bind fun name _ => (accept (by simp)).bind fun found d => ?_)
  have hmade : ∀ (args : List Expr) d, LaysAt d (do
      return ⟨← Production.spanFrom name.span, name.node, args⟩) fun (a : Attribute) ts =>
        ts = [] ∧ a = ⟨name.span.merge d.last, name.node, args⟩ :=
    fun args d => spanned (Attribute.mk · name.node args) _
  cases found with
  | true =>
    refine (arguments (hl.binary 1)).bind fun args m => (hmade args m).mono ?_
    intro a none hitem ts hts hargs paren hparen hopen first hfirst hname hin
    obtain ⟨rfl, rfl⟩ := hitem
    have hpasses := hfirst.trans (hparen.trans (hts.trans (.refl m)))
    refine ⟨_, ⟨inParens (listed (Expr.treesOfAll args)), Or.inr rfl, rfl⟩,
      hpasses.covers hin hname.1, hname.2.append (.cons (hopen.1 rfl) ?_)⟩
    rwa [List.append_nil]
  | false =>
    refine (given []).bind fun args m => (hmade args m).mono ?_
    intro a none hitem none' hkept hnone paren hparen hopen first hfirst hname hin
    obtain ⟨rfl, rfl⟩ := hitem
    obtain ⟨rfl, rfl⟩ := hnone
    obtain rfl := hopen.2 rfl
    have hpasses := hfirst.trans (hparen.trans (hkept.trans (.refl m)))
    exact ⟨_, ⟨[], Or.inl ⟨rfl, rfl⟩, rfl⟩, hpasses.covers hin hname.1, hname.2.append .nil⟩

theorem attributes : LaysAt c (attributes l) fun as ts =>
    ∃ trees, AttributeTrees as trees ∧ AllLaidOut trees ts := by
  have hlists : ∀ limit d, LaysAt d (attributes.lists l limit) fun as ts =>
      ∃ trees, AttributeTrees as trees ∧ AllLaidOut trees ts := by
    intro limit
    induction limit with
    | zero => exact fun d => .pure ⟨[], .nil, .nil⟩
    | succ limit ih =>
      intro d
      refine (accept (by simp)).bind fun found m => ?_
      cases found with
      | false =>
        refine .pure ?_
        intro bracket _ hopen
        obtain rfl := hopen.2 rfl
        exact ⟨[], .nil, .nil⟩
      | true =>
        refine (commaSeparated fun _ => attributeItem hl).bind fun list _ =>
          (punctuation _).bind fun _ m' => (ih m').bind fun more _ => .pure ?_
        intro later _ hmore bracket _ hclose inner _ hlist first _ hopen
        obtain ⟨trees, htrees, hlaid⟩ := hmore
        obtain ⟨hne, items, hitems, hinner⟩ := hlist
        refine ⟨_, .list hne hitems htrees, ?_⟩
        have hbracketed := AllLaidOut.append (.cons (hopen.1 rfl)
          (hinner.append (SyntaxTree.allLaidOut_singleton.2 hclose))) hlaid
        rw [List.append_nil]
        rwa [List.append_assoc, List.append_assoc] at hbracketed
  exact get_bind (hlists c.ahead.length c)

variable (hbelow : ∀ l ∈ below, l.Lays)

include hbelow

theorem member :
    LaysAt c (member l below) fun m ts => ∃ tree, m.HasTree tree ∧ tree.LaidOut ts := by
  refine get_bind (.ordered ((attributes hl).bind fun attrs d => get_bind ?_))
  split
  · next hkind =>
    dsimp only
    split
    · exact failing rfl
    next hhead =>
      have hnone : attrs = [] :=
        List.head?_eq_none_iff.1 (Option.eq_none_iff_forall_ne_some.2 hhead)
      refine (advance_of hkind nofun).bind fun _ _ => identifier.bind fun name _ =>
        (assigned (hl.binary 1) _).bind fun value m =>
          (spanned (fun span => Member.field ⟨span, name.node, value⟩) _).mono ?_
      intro s none hmade ts hts hvalue word hword hname first hfirst hlet front hfront hattrs hin
      obtain ⟨rfl, rfl⟩ := hmade
      obtain ⟨trees, htrees, hlaid⟩ := hattrs
      rw [htrees.eq_nil hnone, AllLaidOut] at hlaid
      subst hlaid
      obtain ⟨t, rfl, ht⟩ := SyntaxTree.allLaidOut_singleton.1 hname.2
      have hpasses := hfront.trans (hfirst.trans (hword.trans (hts.trans (.refl m))))
      refine ⟨_, rfl, hpasses.node hin (List.cons_ne_nil _ _) ?_⟩
      rw [List.nil_append, List.append_nil]
      exact .cons hlet (.cons ⟨t, rfl, ht⟩ hvalue)
  · next hkind =>
    refine (advance_of hkind nofun).bind fun _ _ => identifier.bind fun name _ =>
      parameters.bind fun params _ => (lays_block hbelow).bind fun body m =>
        (spanned (fun span => Member.method ⟨span, attrs, name, params, body⟩) _).mono ?_
    intro s none hmade ts hts hbody inner hinner hparams word hword hname first hfirst hfn
      front hfront hattrs hin
    obtain ⟨rfl, rfl⟩ := hmade
    obtain ⟨trees, htrees, hlaid⟩ := hattrs
    obtain ⟨body, hbody, hstatements⟩ := hbody
    have hpasses := hfront.trans (hfirst.trans (hword.trans (hinner.trans (hts.trans (.refl m)))))
    refine ⟨_, ⟨trees, body, htrees, hbody, rfl⟩, hpasses.node hin (by simp) (hlaid.append ?_)⟩
    rw [List.append_nil]
    exact .cons hfn (.cons hname (.append hparams hstatements))
  · exact .unexpected _

theorem classDecl : LaysAt c (classDecl l below) fun decl ts =>
    ∃ tree, decl.HasTree tree ∧ tree.LaidOut ts := by
  refine get_bind (.ordered ((attributes hl).bind fun attrs _ => (keyword _).bind fun _ _ =>
    identifier.bind fun name _ => (punctuation _).bind fun _ _ => ?_))
  refine (recovering fun _ => member hl hbelow).bind fun read _ =>
    (punctuation _).bind fun _ m => (spanned (fun span => (⟨span, attrs, name,
      read.reverse.filterMap Member.field?, read.reverse.filterMap Member.method?⟩ : ClassDecl))
      _).mono ?_
  intro s none hmade close hclose hbraceClose ts hts hread opening hopening hbrace word hword hname
    first hfirst hclass front hfront hattrs hin
  obtain ⟨rfl, rfl⟩ := hmade
  obtain ⟨trees, htrees, hlaid⟩ := hattrs
  obtain ⟨body, hmembers, hinner⟩ := hread
  have hpasses := hfront.trans (hfirst.trans (hword.trans (hopening.trans (hts.trans
    (hclose.trans (.refl m))))))
  refine ⟨_, ⟨trees, read.reverse, body, htrees, rfl, rfl, hmembers, rfl⟩,
    hpasses.node hin (by simp) (hlaid.append ?_)⟩
  rw [List.append_nil]
  exact .cons hclass (.cons hname (.cons hbrace
    (hinner.append (SyntaxTree.allLaidOut_singleton.2 hbraceClose))))

theorem declaration (p : Program) : LaysAt c (declaration l below p) fun q ts =>
    ts ≠ [] ∧ ∀ before, p.LaidOn before → q.LaidOn (before ++ ts) := by
  refine get_bind ?_
  have hclass : LaysAt c (do
      return { p with classes := p.classes ++ [← Source.classDecl l below] }) fun q ts =>
        ts ≠ [] ∧ ∀ before, p.LaidOn before → q.LaidOn (before ++ ts) := by
    refine (classDecl hl hbelow).bind fun decl _ => .pure ?_
    intro ts _ hdecl
    rw [List.append_nil]
    have hne : ts ≠ [] := hdecl.elim fun _ h => h.2.ne_nil
    exact ⟨hne, fun before hp => hp.concat (d := .type decl) hdecl fun _ h => h.concat_type decl⟩
  split
  · refine (directive _).bind fun space _ => ?_
    split
    · exact .fail _ _
    · next hspace =>
      refine .pure ?_
      intro ts _ hlaid
      rw [List.append_nil]
      exact ⟨hlaid.ne_nil, fun before hp => hp.concat (d := .space space) ⟨_, rfl, hlaid⟩
        fun _ h => h.concat_space hspace⟩
  · refine (directive _).bind fun name _ => .pure ?_
    intro ts _ hlaid
    rw [List.append_nil]
    exact ⟨hlaid.ne_nil, fun before hp => hp.concat (d := .use name) ⟨_, rfl, hlaid⟩
      fun _ h => h.concat_use name⟩
  · exact hclass
  · exact hclass
  · exact .unexpected _

end

end Production.LaysAt

namespace Program

/-- An accepted program is laid out on what stands before the end of the tokens, if these are in
order. -/
theorem laidOn_of_ofTokens {read : List Token} {last : Token} {p : Program}
    (hread : ∀ t ∈ read, t.node ≠ .endOfFile) (hlast : last.node = .endOfFile)
    (hin : InOrder (read ++ [last])) (h : ofTokens (read ++ [last]) = .ok p) : p.LaidOn read := by
  have hl : (Level.over (some (Level.withRoom (maxNesting - 1)))).Lays :=
    Level.withRoom_lays maxNesting
  have hbelow : ∀ l ∈ some (Level.withRoom (maxNesting - 1)), l.Lays := by
    intro l hfound
    exact Option.some.inj hfound ▸ Level.withRoom_lays (maxNesting - 1)
  have hempty : empty.LaidOn [] := ⟨[], ⟨[], ⟨rfl, rfl, rfl⟩, .nil⟩, .nil⟩
  obtain ⟨d, hrun, hnone⟩ := run_of_ofTokens h
  obtain ⟨reported, hfaults, hlays⟩ := Production.LaysAt.recoveringUpTo
    (fun p _ => Production.LaysAt.declaration hl hbelow p) (read ++ [last]).length hrun
  obtain ⟨ts, hpasses, hI⟩ := hlays (hfaults.symm.trans hnone)
  obtain ⟨hlaid, hdone⟩ := hI hin
  have hsplit : read ++ [last] = ts ++ d.ahead := hpasses.ahead
  have hrest : ∀ t ∈ d.ahead.head?, t.node = .endOfFile := by
    intro t ht
    rcases hdone with hstop | hlimit
    · have hnext : d.peek = t := by
        rw [Cursor.peek, List.headD_eq_head?_getD, ht, Option.getD_some]
      rw [← hnext]
      exact of_decide_eq_true hstop
    · rw [hsplit, List.length_append] at hlimit
      rw [List.eq_nil_of_length_eq_zero (by omega : d.ahead.length = 0)] at ht
      cases ht
  rw [← read_of_end hsplit hread hlast hpasses.goesOn hrest]
  exact hlaid [] hempty

end Program

end TestBench.Source
