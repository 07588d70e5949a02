import TestBench.Proofs.LoweredCode
import TestBench.Proofs.PlacedSpans

/-!
Where the faults of names are. A fault in code is where the code mentions or
declares a name, and what repeats the name of an earlier parameter, member or
type is reported where it stands. So each fault in the files of a unit has a
span from the tree of the file that it is reported in, also if the types that a
file declares are repeated in others.
-/
namespace TestBench.Compile

open Source (Expr Stmt)

/-- The faults are at some of the spans. -/
def FaultsAt (spans : List Span) (faults : Faults) : Prop := ∀ f ∈ faults, f.span ∈ spans

section Lists

variable {α : Type} {spans more : List Span} {faults later : Faults}

theorem faultsAt_nil (spans : List Span) : FaultsAt spans [] := fun _ hf => nomatch hf

theorem faultsAt_one {span : Span} (fault : ScopeFault) (h : span ∈ spans) :
    FaultsAt spans [⟨fault, span⟩] := by
  intro f hf
  rwa [List.mem_singleton.1 hf]

theorem FaultsAt.mono (h : FaultsAt spans faults) (hsub : spans ⊆ more) : FaultsAt more faults :=
  fun f hf => hsub (h f hf)

theorem FaultsAt.both (h : FaultsAt spans faults) (hlater : FaultsAt spans later) :
    FaultsAt spans (faults ++ later) :=
  List.forall_mem_append.2 ⟨h, hlater⟩

theorem FaultsAt.append (h : FaultsAt spans faults) (hlater : FaultsAt more later) :
    FaultsAt (spans ++ more) (faults ++ later) :=
  (h.mono (List.subset_append_left _ _)).both (hlater.mono (List.subset_append_right _ _))

theorem faultsAt_flatMap {f : α → List Span} {g : α → Faults} {xs : List α}
    (h : ∀ x ∈ xs, FaultsAt (f x) (g x)) : FaultsAt (xs.flatMap f) (xs.flatMap g) := by
  intro fault hfault
  obtain ⟨x, hx, hfault⟩ := List.mem_flatMap.1 hfault
  exact List.mem_flatMap.2 ⟨x, hx, h x hx fault hfault⟩

/-- A repetition is reported where the later of the two is. -/
theorem distinct_faultsAt (what : Declared) (name : α → Spanned String) (seen : List String)
    (xs : List α) : FaultsAt (xs.map fun x => (name x).span) (distinct what name seen xs).2 := by
  induction xs generalizing seen with
  | nil => exact faultsAt_nil _
  | cons x rest ih =>
    rw [distinct, List.map_cons]
    split
    · exact List.forall_mem_cons.2 ⟨List.mem_cons_self, (ih _).mono (List.subset_cons_self _ _)⟩
    · exact (ih _).mono (List.subset_cons_self _ _)

end Lists

theorem checked_faultsAt (callee : Spanned String) (expected found : Nat) (code : Code.Expr) :
    FaultsAt [callee.span] (checked callee expected found code).2 := by
  unfold checked
  split
  · exact faultsAt_nil _
  · exact faultsAt_one _ (List.mem_singleton_self _)

namespace Site

variable {site : Site}

theorem staticCall_faultsAt (callee : Spanned QualifiedName) (qualifier : QualifiedName)
    (args : List Code.Expr) : FaultsAt [callee.span] (site.staticCall callee qualifier args).2 := by
  unfold staticCall
  split
  · exact faultsAt_one _ (List.mem_singleton_self _)
  split
  · exact faultsAt_one _ (List.mem_singleton_self _)
  · exact checked_faultsAt ⟨callee.node.written, callee.span⟩ _ _ _

theorem call_faultsAt (callee : Spanned QualifiedName) (args : List Code.Expr) :
    FaultsAt [callee.span] (site.call callee args).2 := by
  rw [call_eq]
  split
  · exact checked_faultsAt ⟨callee.node.written, callee.span⟩ _ _ _
  split
  · exact checked_faultsAt ⟨callee.node.written, callee.span⟩ _ _ _
  split
  · exact staticCall_faultsAt callee _ args
  · exact faultsAt_one _ (List.mem_singleton_self _)

mutual

theorem expr_faultsAt (locals : List String) : ∀ e : Expr,
    FaultsAt e.spans (site.expr locals e).2
  | .constant .. => faultsAt_nil _
  | .name span name => by
    rw [expr]
    split
    · exact faultsAt_nil _
    · exact faultsAt_nil _
    · exact faultsAt_one _ List.mem_cons_self
  | .unary _ _ operand => (expr_faultsAt locals operand).mono (List.subset_cons_self _ _)
  | .binary _ _ left right =>
    ((expr_faultsAt locals left).append (expr_faultsAt locals right)).mono
      (List.subset_cons_self _ _)
  | .call _ callee arguments => by
    have hcallee : FaultsAt (callee.span :: Expr.spansOfAll arguments)
        (site.call callee (site.exprs locals arguments).1).2 :=
      (call_faultsAt callee _).mono (List.cons_subset_cons _ (List.nil_subset _))
    have harguments := (exprs_faultsAt locals arguments).mono
      (List.subset_cons_self callee.span _)
    exact (harguments.both hcallee).mono (List.subset_cons_self _ _)
  | .paren _ inner => (expr_faultsAt locals inner).mono (List.subset_cons_self _ _)

theorem exprs_faultsAt (locals : List String) : ∀ es : List Expr,
    FaultsAt (Expr.spansOfAll es) (site.exprs locals es).2
  | [] => faultsAt_nil _
  | e :: rest => (expr_faultsAt locals e).append (exprs_faultsAt locals rest)

end

mutual

theorem stmt_faultsAt : ∀ (locals : List String) (s : Stmt),
    FaultsAt s.spans (site.stmt locals s).faults
  | locals, .bind span name value => by
    have hvalue := (site.expr_faultsAt locals value).mono (List.subset_cons_self span _)
    rw [stmt]
    dsimp only
    split
    · exact hvalue.both (faultsAt_one _ List.mem_cons_self)
    · exact hvalue
  | locals, .assign span target value => by
    have hvalue := (site.expr_faultsAt locals value).mono (List.subset_cons_self span _)
    rw [stmt]
    dsimp only
    split
    · exact hvalue
    · exact hvalue
    · exact hvalue.both (faultsAt_one _ List.mem_cons_self)
  | _, .return _ none => faultsAt_nil _
  | locals, .return span (some value) =>
    (site.expr_faultsAt locals value).mono (List.subset_cons_self span _)
  | locals, .ifThen span condition body | locals, .while span condition body =>
    ((site.expr_faultsAt locals condition).append (block_faultsAt locals body)).mono
      (List.subset_cons_self span _)
  | locals, .ifElse span condition body otherwise => by
    have hall := (site.expr_faultsAt locals condition).append
      ((block_faultsAt locals body).append
        (block_faultsAt (site.block locals body).locals otherwise))
    have hfaults : (site.stmt locals (.ifElse span condition body otherwise)).faults =
        (site.expr locals condition).2 ++ ((site.block locals body).faults ++
          (site.block (site.block locals body).locals otherwise).faults) := List.append_assoc ..
    rw [hfaults]
    exact hall.mono (List.subset_cons_self span _)
  | locals, .expr span value =>
    (site.expr_faultsAt locals value).mono (List.subset_cons_self span _)

theorem block_faultsAt : ∀ (locals : List String) (body : List Stmt),
    FaultsAt (Stmt.spansOfAll body) (site.block locals body).faults
  | _, [] => faultsAt_nil _
  | locals, s :: rest =>
    (stmt_faultsAt locals s).append (block_faultsAt (site.stmt locals s).locals rest)

end

theorem method_faultsAt (m : Source.Method) : FaultsAt m.spans (site.method m).2 := by
  have hparameters : FaultsAt (m.parameters.map (·.span)) (parameterFaults m) :=
    distinct_faultsAt _ _ _ _
  have hall := hparameters.append (site.block_faultsAt (m.parameters.map (·.node)) m.body)
  exact hall.mono fun _ hs =>
    List.mem_cons_of_mem _ (List.mem_cons_of_mem _ (List.mem_append_right _ hs))

end Site

theorem memberSpans_subset {c : Source.ClassDecl} :
    c.fields.flatMap (·.spans) ++ c.methods.flatMap (·.spans) ⊆ c.spans := fun _ hs =>
  List.mem_cons_of_mem _ (List.mem_cons_of_mem _ (List.mem_append_right _ hs))

theorem lowerType_faultsAt (scope : Scope) (t : OwnType) :
    FaultsAt t.decl.spans (lowerType scope t).2 := by
  have hfields : FaultsAt (t.decl.fields.flatMap (·.spans))
      ((t.decl.fields.map (Site.field ⟨scope, t.origin.program, t⟩)).flatMap (·.2)) := by
    rw [List.flatMap_map]
    exact faultsAt_flatMap fun f _ =>
      (Site.expr_faultsAt [] f.value).mono (List.subset_cons_self _ _)
  have hmethods : FaultsAt (t.decl.methods.flatMap (·.spans))
      ((t.decl.methods.map (Site.method ⟨scope, t.origin.program, t⟩)).flatMap (·.2)) := by
    rw [List.flatMap_map]
    exact faultsAt_flatMap fun m _ => Site.method_faultsAt m
  exact (hfields.append hmethods).mono memberSpans_subset

theorem OwnType.ofClass_faultsAt (origin : ParsedFile) (c : Source.ClassDecl) :
    FaultsAt c.spans (ofClass origin c).2 := by
  have hfields : FaultsAt (c.fields.flatMap (·.spans))
      (distinct .field (fun f : Source.Field => ⟨f.name, f.span⟩) [] c.fields).2 := by
    refine (distinct_faultsAt _ _ _ _).mono fun s hs => ?_
    obtain ⟨f, hf, rfl⟩ := List.mem_map.1 hs
    exact List.mem_flatMap.2 ⟨f, hf, List.mem_cons_self⟩
  have hmethods : FaultsAt (c.methods.flatMap (·.spans))
      (distinct .method Source.Method.name [] c.methods).2 := by
    refine (distinct_faultsAt _ _ _ _).mono fun s hs => ?_
    obtain ⟨m, hm, rfl⟩ := List.mem_map.1 hs
    exact List.mem_flatMap.2 ⟨m, hm, List.mem_cons_of_mem _ List.mem_cons_self⟩
  exact (hfields.append hmethods).mono memberSpans_subset

section Files

variable {origin : ParsedFile} {known : List OwnType} {files : List ParsedFile}

theorem ownTypesFrom_faultsAt (origin : ParsedFile) (known : List OwnType)
    (classes : List Source.ClassDecl) :
    FaultsAt (classes.flatMap (·.spans)) (ownTypesFrom origin known classes).2 := by
  induction classes generalizing known with
  | nil => exact faultsAt_nil _
  | cons c rest ih =>
    rw [ownTypesFrom, List.flatMap_cons]
    dsimp only
    split
    · have hname : c.name.span ∈ c.spans := List.mem_cons_of_mem _ List.mem_cons_self
      exact (faultsAt_one _ hname).append (ih known)
    · exact (OwnType.ofClass_faultsAt origin c).append (ih _)

/-- The types of a unit are declared by classes of its files, and each is kept with the file. -/
theorem mem_ownTypesFrom {classes : List Source.ClassDecl} {t : OwnType}
    (ht : t ∈ (ownTypesFrom origin known classes).1) :
    t ∈ known ∨ ∃ c ∈ classes, t = (OwnType.ofClass origin c).1 := by
  induction classes generalizing known with
  | nil => exact Or.inl ht
  | cons c rest ih =>
    rw [ownTypesFrom] at ht
    dsimp only at ht
    split at ht
    · rcases ih ht with hknown | ⟨d, hd, h⟩
      · exact Or.inl hknown
      · exact Or.inr ⟨d, List.mem_cons_of_mem _ hd, h⟩
    · rcases ih ht with hknown | ⟨d, hd, h⟩
      · rcases List.mem_append.1 hknown with hknown | hnew
        · exact Or.inl hknown
        · exact Or.inr ⟨c, List.mem_cons_self, List.mem_singleton.1 hnew⟩
      · exact Or.inr ⟨d, List.mem_cons_of_mem _ hd, h⟩

theorem mem_ownTypes {t : OwnType} (ht : t ∈ (ownTypes known files).1) :
    t ∈ known ∨ ∃ f ∈ files, ∃ c ∈ f.program.classes, t = (OwnType.ofClass f c).1 := by
  induction files generalizing known with
  | nil => exact Or.inl ht
  | cons f rest ih =>
    rcases @ih (ownTypesFrom f known f.program.classes).1 ht with hfrom | ⟨g, hg, h⟩
    · exact (mem_ownTypesFrom hfrom).imp_right fun h => ⟨f, List.mem_cons_self, h⟩
    · exact Or.inr ⟨g, List.mem_cons_of_mem _ hg, h⟩

/-- The diagnostic is about one of the files, at a span of its tree. -/
def AboutTree (files : List ParsedFile) (d : FileDiagnostic) : Prop :=
  ∃ f ∈ files, d.file = f.file ∧ d.diagnostic.span ∈ f.program.spans

theorem classSpans_subset {f : ParsedFile} :
    f.program.classes.flatMap (·.spans) ⊆ f.program.spans :=
  fun _ hs => List.mem_append_right _ (List.mem_append_right _ hs)

theorem aboutTree_of_faultsAt {f : ParsedFile} {faults : Faults} (hf : f ∈ files)
    (h : FaultsAt (f.program.classes.flatMap (·.spans)) faults) :
    ∀ d ∈ faults.map (⟨f.file, ScopeFault.diagnostic ·⟩), AboutTree files d := by
  intro d hd
  obtain ⟨fault, hfault, rfl⟩ := List.mem_map.1 hd
  exact ⟨f, hf, rfl, classSpans_subset (h fault hfault)⟩

theorem ownTypes_aboutTree (known : List OwnType) (files : List ParsedFile) :
    ∀ d ∈ (ownTypes known files).2, AboutTree files d := by
  induction files generalizing known with
  | nil => exact fun d hd => nomatch hd
  | cons f rest ih =>
    refine List.forall_mem_append.2 ⟨?_, fun d hd => ?_⟩
    · exact aboutTree_of_faultsAt List.mem_cons_self (ownTypesFrom_faultsAt f known _)
    · obtain ⟨g, hg, h⟩ := ih (ownTypesFrom f known f.program.classes).1 d hd
      exact ⟨g, List.mem_cons_of_mem _ hg, h⟩

/-- Whatever is wrong in files that parsed, it is reported about one of them. -/
theorem lowerFiles_aboutTree {unitName : String} {references : List String}
    {interfaces : List Image} {ds : List FileDiagnostic}
    (h : lowerFiles unitName references files interfaces = .error ds) :
    ∀ d ∈ ds, AboutTree files d := by
  unfold lowerFiles at h
  dsimp only at h
  split at h
  · cases h
  · rw [← Except.error.inj h]
    refine List.forall_mem_append.2 ⟨ownTypes_aboutTree [] files, fun d hd => ?_⟩
    obtain ⟨lowered, hlowered, hd⟩ := List.mem_flatMap.1 hd
    obtain ⟨t, ht, rfl⟩ := List.mem_map.1 hlowered
    rcases mem_ownTypes ht with hnone | ⟨f, hf, c, hc, rfl⟩
    · cases hnone
    · refine aboutTree_of_faultsAt hf ((lowerType_faultsAt _ _).mono fun s hs => ?_) d hd
      exact List.mem_flatMap.2 ⟨c, hc, hs⟩

end Files

end TestBench.Compile
