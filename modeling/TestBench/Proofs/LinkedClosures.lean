import TestBench.Proofs.LoadedImages
import TestBench.Proofs.MachineSafety
import TestBench.Proofs.PassStates
import TestBench.Sandbox.Resolvers

/-!
Linked closures. A unit is compiled against the images that a pass has decoded
for its references, and what it is compiled against stays in the pass, because
names that the pass has an image for are skipped. The exception is a binary
reference with the name of a unit that is still being visited: its image is
replaced when that unit is emitted. Calls of other units agree with the closure
always, and calls through such a reference as far as the new image has the same
methods.
-/
namespace TestBench

/-- The names of the binary images that a unit refers to. -/
def SourceUnit.binaryNames (u : SourceUnit) : List String :=
  u.references.filterMap fun
    | .unit _ => none
    | .binary path => some (binaryName path)

namespace Materialize

/-- A unit that was compiled and the names of the units that it was compiled inside. -/
structure CompiledUnit where
  unit : SourceUnit
  ancestors : List String
  image : Image

namespace CompiledUnit

/-- The unit has a binary reference with the name of a unit that it was compiled inside. -/
def ReadsAncestor (e : CompiledUnit) (name : String) : Prop :=
  name ∈ e.ancestors ∧ name ∈ e.unit.binaryNames

instance (e : CompiledUnit) (name : String) : Decidable (e.ReadsAncestor name) :=
  inferInstanceAs (Decidable (_ ∧ _))

end CompiledUnit

mutual

/-- The units that a visit compiles, in their order. -/
def compiled (files : Files) : SourceUnit → List String → Pass → List CompiledUnit
  | .mk name sources references, stack, p =>
    if !Image.isValidName name || stack.contains name then []
    else
      compiledAll files references (stack ++ [name]) p ++
        match visitAll files references (stack ++ [name]) p with
        | (.ok (), q) =>
          match compile (.mk name sources references) (interfaces q.decoded references) with
          | .ok image => [⟨.mk name sources references, stack, image⟩]
          | .error _ => []
        | (.error _, _) => []

def compiledAll (files : Files) : List Reference → List String → Pass → List CompiledUnit
  | [], _, _ => []
  | r :: rest, stack, p =>
    compiledReference files r stack p ++
      match visitReference files r stack p with
      | (.ok (), q) => compiledAll files rest stack q
      | (.error _, _) => []

def compiledReference (files : Files) : Reference → List String → Pass → List CompiledUnit
  | .unit u, stack, p => if p.images.contains u.name then [] else compiled files u stack p
  | .binary _, _, _ => []

end

/-- The units that are compiled for the closure of a unit, the unit itself last. -/
def compiledUnits (files : Files) (store : Store) (u : SourceUnit) : List CompiledUnit :=
  compiled files u [] (.start store)

namespace Pass

/-- A pass has an image of the unit, which has the method with as many parameters. -/
def Offers (p : Pass) (target : Code.Target) (count : Nat) : Prop :=
  ∃ image, p.decoded.get? target.unit = some image ∧
    image.Declares target.typeName target.method count

end Pass

namespace CompiledUnit

/-- What holds of a compiled unit from then on: its image is kept, and so are the methods that it
calls, but for units around it. -/
structure Linked (e : CompiledUnit) (q : Pass) : Prop where
  fresh : e.unit.name ∉ e.ancestors
  held : q.decoded.get? e.unit.name = some e.image
  offered : ∀ call ∈ e.image.staticCalls, call.1.unit ∉ e.ancestors → q.Offers call.1 call.2

/-- Calls go to the unit itself or to its references, and to a unit that it was compiled inside
only through a binary reference. -/
structure Sound (e : CompiledUnit) : Prop where
  named : ∀ call ∈ e.image.staticCalls,
    call.1.unit = e.unit.name ∨ call.1.unit ∈ e.image.references
  ancestor : ∀ call ∈ e.image.staticCalls, call.1.unit ∈ e.ancestors →
    e.ReadsAncestor call.1.unit

variable {e : CompiledUnit} {p q : Pass}

theorem Linked.keeps (h : e.Linked p)
    (hkeeps : ∀ name image, name ∉ e.ancestors → p.decoded.get? name = some image →
      q.decoded.get? name = some image) : e.Linked q := by
  refine ⟨h.fresh, hkeeps _ _ h.fresh h.held, ?_⟩
  intro call hcall houtside
  obtain ⟨image, himage, hdeclares⟩ := h.offered call hcall houtside
  exact ⟨image, hkeeps _ _ houtside himage, hdeclares⟩

theorem Linked.grows (h : e.Linked p) (hgrows : p.Grows q) : e.Linked q :=
  h.keeps fun name image _ => hgrows name image

/-- The image of a unit that is still being visited can be replaced. -/
theorem Linked.keepsBut {name : String} (h : e.Linked p) (hname : name ∈ e.ancestors)
    (hkeeps : p.KeepsBut name q) : e.Linked q :=
  h.keeps fun other image houtside => hkeeps other image fun heq => houtside (heq ▸ hname)

end CompiledUnit

section Emitted

variable {u : SourceUnit} {stack : List String} {p q : Pass} {image : Image}

/-- A call of another unit is to the image that is decoded for one of the references. -/
theorem call_decoded (hp : p.Consistent)
    (hcompile : compile u (interfaces p.decoded u.references) = .ok image)
    {call : Code.Target × Nat} (hcall : call ∈ image.staticCalls) (hother : call.1.unit ≠ u.name) :
    p.Offers call.1 call.2 ∧ ∃ r ∈ u.references, r.name = call.1.unit := by
  obtain ⟨files, _, haccepted⟩ := Compile.accepted_of_compile hcompile
  have hreaches := haccepted.image_wellFormed.reaches call hcall
  rcases hreaches with ⟨hself, _⟩ | ⟨_, i, hi, hname, hdeclares⟩
  · exact absurd (hself.trans haccepted.name_eq) hother
  · obtain ⟨r, hr, hdecoded⟩ := mem_interfaces hi
    have heq : r.name = call.1.unit := (hp.name_eq _ _ hdecoded).symm.trans hname
    exact ⟨⟨i, heq ▸ hdecoded, hdeclares⟩, r, hr, heq⟩

theorem emitted_linked (hp : p.Consistent) (hfresh : u.name ∉ stack)
    (hcompile : compile u (interfaces p.decoded u.references) = .ok image)
    (hkeeps : p.KeepsBut u.name q) (hheld : q.decoded.get? u.name = some image) :
    CompiledUnit.Linked ⟨u, stack, image⟩ q := by
  refine ⟨hfresh, hheld, ?_⟩
  intro call hcall _
  by_cases hself : call.1.unit = u.name
  · obtain ⟨files, _, haccepted⟩ := Compile.accepted_of_compile hcompile
    rcases haccepted.image_wellFormed.reaches call hcall with ⟨_, hdeclares⟩ | ⟨hother, _⟩
    · exact ⟨image, hself ▸ hheld, hdeclares⟩
    · exact absurd (hself.trans haccepted.name_eq.symm) hother
  · obtain ⟨⟨i, hdecoded, hdeclares⟩, _⟩ := call_decoded hp hcompile hcall hself
    exact ⟨i, hkeeps _ _ hself hdecoded, hdeclares⟩

theorem emitted_sound (hp : p.Consistent) (hfresh : u.name ∉ stack)
    (hunits : ∀ v, .unit v ∈ u.references → v.name ∉ stack)
    (hcompile : compile u (interfaces p.decoded u.references) = .ok image) :
    CompiledUnit.Sound ⟨u, stack, image⟩ := by
  refine ⟨?_, ?_⟩
  · intro call hcall
    by_cases hself : call.1.unit = u.name
    · exact Or.inl hself
    · obtain ⟨_, r, hr, hname⟩ := call_decoded hp hcompile hcall hself
      obtain ⟨files, _, haccepted⟩ := Compile.accepted_of_compile hcompile
      have hmem : call.1.unit ∈ image.references := by
        rw [haccepted.image_eq]
        exact Compile.mem_withoutRepeats.2 (List.mem_map.2 ⟨r, hr, hname⟩)
      exact Or.inr hmem
  · intro call hcall hancestor
    have hother : call.1.unit ≠ u.name := fun heq => hfresh (heq ▸ hancestor)
    obtain ⟨_, r, hr, hname⟩ := call_decoded hp hcompile hcall hother
    refine ⟨hancestor, ?_⟩
    cases r with
    | unit v =>
      have hunit : v.name = call.1.unit := hname
      exact absurd (hunit ▸ hancestor) (hunits v hr)
    | binary path => exact List.mem_filterMap.2 ⟨_, hr, congrArg some hname⟩

end Emitted

/-- What a successful walk leaves: a consistent pass in which all units that it compiled are
linked, and these were compiled inside the stack and inside each other. -/
structure Walked (stack : List String) (units : List CompiledUnit) (q : Pass) : Prop where
  consistent : q.Consistent
  linked : ∀ e ∈ units, e.Linked q
  sound : ∀ e ∈ units, e.Sound
  inside : ∀ e ∈ units, ∀ name ∈ stack, name ∈ e.ancestors
  known : ∀ e ∈ units, ∀ name ∈ e.ancestors, name ∈ stack ∨ ∃ a ∈ units, a.unit.name = name

namespace Walked

variable {stack : List String} {units later : List CompiledUnit} {p q : Pass}

theorem nil (hp : p.Consistent) : Walked stack [] p := by
  refine ⟨hp, ?_, ?_, ?_, ?_⟩
  all_goals
    intro e he
    cases he

theorem append (h : Walked stack units p) (hlater : Walked stack later q) (hgrows : p.Grows q) :
    Walked stack (units ++ later) q := by
  refine ⟨hlater.consistent, ?_, ?_, ?_, ?_⟩
  · intro e he
    rcases List.mem_append.1 he with he | he
    · exact (h.linked e he).grows hgrows
    · exact hlater.linked e he
  · intro e he
    exact (List.mem_append.1 he).elim (h.sound e) (hlater.sound e)
  · intro e he
    exact (List.mem_append.1 he).elim (h.inside e) (hlater.inside e)
  · intro e he name hname
    rcases List.mem_append.1 he with he | he
    · refine (h.known e he name hname).imp_right ?_
      rintro ⟨a, ha, heq⟩
      exact ⟨a, List.mem_append_left _ ha, heq⟩
    · refine (hlater.known e he name hname).imp_right ?_
      rintro ⟨a, ha, heq⟩
      exact ⟨a, List.mem_append_right _ ha, heq⟩

/-- A unit that is emitted joins those that were compiled inside it. -/
theorem emitted {u : SourceUnit} (h : Walked (stack ++ [u.name]) units p)
    (hfresh : u.name ∉ stack) (hunits : ∀ v, .unit v ∈ u.references → v.name ∉ stack)
    {image : Image} (hcompile : compile u (interfaces p.decoded u.references) = .ok image)
    (hq : q.Consistent) (hkeeps : p.KeepsBut u.name q)
    (hheld : q.decoded.get? u.name = some image) :
    Walked stack (units ++ [⟨u, stack, image⟩]) q := by
  have hown : ∀ e ∈ units, u.name ∈ e.ancestors := fun e he =>
    h.inside e he _ (List.mem_append_right _ List.mem_cons_self)
  refine ⟨hq, ?_, ?_, ?_, ?_⟩
  · intro e he
    rcases List.mem_append.1 he with he | he
    · exact (h.linked e he).keepsBut (hown e he) hkeeps
    · rw [List.mem_singleton.1 he]
      exact emitted_linked h.consistent hfresh hcompile hkeeps hheld
  · intro e he
    rcases List.mem_append.1 he with he | he
    · exact h.sound e he
    · rw [List.mem_singleton.1 he]
      exact emitted_sound h.consistent hfresh hunits hcompile
  · intro e he name hname
    rcases List.mem_append.1 he with he | he
    · exact h.inside e he name (List.mem_append_left _ hname)
    · rw [List.mem_singleton.1 he]
      exact hname
  · intro e he name hname
    rcases List.mem_append.1 he with he | he
    · rcases h.known e he name hname with hstack | ⟨a, ha, heq⟩
      · rcases List.mem_append.1 hstack with hstack | hself
        · exact Or.inl hstack
        · refine Or.inr ⟨_, List.mem_append_right _ List.mem_cons_self, ?_⟩
          exact (List.mem_singleton.1 hself).symm
      · exact Or.inr ⟨a, List.mem_append_left _ ha, heq⟩
    · rw [List.mem_singleton.1 he] at hname
      exact Or.inl hname

end Walked

theorem compiled_eq {files : Files} {u : SourceUnit} {stack : List String} {p q : Pass}
    {image : Image} (hvalid : Image.isValidName u.name = true) (hfresh : u.name ∉ stack)
    (hall : visitAll files u.references (stack ++ [u.name]) p = (.ok (), q))
    (hcompile : compile u (interfaces q.decoded u.references) = .ok image) :
    compiled files u stack p =
      compiledAll files u.references (stack ++ [u.name]) p ++ [⟨u, stack, image⟩] := by
  obtain ⟨name, sources, references⟩ := u
  rw [compiled]
  simp only [SourceUnit.name, SourceUnit.references] at hvalid hfresh hall hcompile ⊢
  rw [if_neg (by simp [hvalid, hfresh]), hall]
  simp only [hcompile]

mutual

theorem visit_walks {files : Files} : ∀ (u : SourceUnit) {stack : List String} {p q : Pass},
    p.Consistent → visit files u stack p = (.ok (), q) →
      Walked stack (compiled files u stack p) q ∧ p.KeepsBut u.name q
  | .mk name sources references, stack, p, q, hp, h => by
    obtain ⟨hvalid, hfresh, r, hall, hemit⟩ := visit_eq_ok h
    obtain ⟨hwalked, hgrows, hunits⟩ := visitAll_walks references hp hall
    obtain ⟨image, hcompile, hq, hkeeps, hheld⟩ := emit_keeps hwalked.consistent hemit
    rw [compiled_eq hvalid hfresh hall hcompile]
    refine ⟨hwalked.emitted hfresh ?_ hcompile hq hkeeps hheld, ?_⟩
    · exact fun v hv hstack => hunits v hv (List.mem_append_left _ hstack)
    · exact fun other found hne hfound => hkeeps other found hne (hgrows other found hfound)

theorem visitAll_walks {files : Files} : ∀ (references : List Reference) {stack : List String}
    {p q : Pass}, p.Consistent → visitAll files references stack p = (.ok (), q) →
      Walked stack (compiledAll files references stack p) q ∧ p.Grows q ∧
        ∀ v, .unit v ∈ references → v.name ∉ stack
  | [], stack, p, q, hp, h => by
    rw [visitAll] at h
    obtain rfl := (Prod.mk.inj h).2
    exact ⟨Walked.nil hp, fun _ _ hfound => hfound, fun _ hv => by cases hv⟩
  | r :: rest, stack, p, q, hp, h => by
    obtain ⟨between, hfirst, hrest⟩ := visitAll_cons_eq_ok h
    obtain ⟨hwalked, hgrows, hunit⟩ := visitReference_walks r hp hfirst
    obtain ⟨hlater, hlaterGrows, hunits⟩ := visitAll_walks rest hwalked.consistent hrest
    rw [compiledAll, hfirst]
    refine ⟨hwalked.append hlater hlaterGrows, hgrows.trans hlaterGrows, ?_⟩
    intro v hv
    rcases List.mem_cons.1 hv with heq | hv
    · exact hunit v heq.symm
    · exact hunits v hv

theorem visitReference_walks {files : Files} : ∀ (r : Reference) {stack : List String}
    {p q : Pass}, p.Consistent → visitReference files r stack p = (.ok (), q) →
      Walked stack (compiledReference files r stack p) q ∧ p.Grows q ∧
        ∀ v, r = .unit v → v.name ∉ stack
  | .unit u, stack, p, q, hp, h => by
    obtain ⟨hfresh, ⟨hdone, rfl⟩ | ⟨hnew, hvisit⟩⟩ := visitReference_unit_eq_ok h
    · rw [compiledReference, if_pos hdone]
      exact ⟨Walked.nil hp, fun _ _ hfound => hfound, fun v hv => Reference.unit.inj hv ▸ hfresh⟩
    · obtain ⟨hwalked, hkeeps⟩ := visit_walks u hp hvisit
      rw [compiledReference, if_neg (by simp [hnew])]
      exact ⟨hwalked, hkeeps.grows (hp.decoded_eq_none hnew),
        fun v hv => Reference.unit.inj hv ▸ hfresh⟩
  | .binary path, stack, p, q, hp, h => by
    rw [compiledReference]
    have hunit : ∀ v, Reference.binary path = .unit v → v.name ∉ stack := fun v hv => by cases hv
    rcases visitReference_binary_eq_ok h with ⟨_, rfl⟩ | ⟨hnew, hadd⟩
    · exact ⟨Walked.nil hp, fun _ _ hfound => hfound, hunit⟩
    · obtain ⟨hq, hkeeps⟩ := addBinary_keeps hp hadd
      exact ⟨Walked.nil hq, hkeeps.grows (hp.decoded_eq_none hnew), hunit⟩

end

theorem Pass.Consistent.holds {q : Pass} (hq : q.Consistent) (entry : String) {name : String}
    {image : Image} (h : q.decoded.get? name = some image) :
    Closure.Holds ⟨entry, q.images⟩ name image := hq.bytes name image h

theorem Pass.Consistent.offers {q : Pass} (hq : q.Consistent) (entry : String)
    {target : Code.Target} {count : Nat} (h : q.Offers target count) :
    Closure.Offers ⟨entry, q.images⟩ target count := by
  obtain ⟨image, himage, hdeclares⟩ := h
  exact ⟨image, hq.holds entry himage, hdeclares⟩

theorem materialize_eq_ok {order : Order} {files : Files} {store after : Store} {u : SourceUnit}
    {closure : Closure} (h : materialize order files store u = (.ok closure, after)) :
    ∃ q, visit files u [] (.start store) = (.ok (), q) ∧ closure = ⟨u.name, q.images⟩ := by
  unfold materialize at h
  split at h
  · cases h
  · next q hvisit =>
    split at h
    · cases h
    · exact ⟨q, hvisit, (Except.ok.inj (Prod.mk.inj h).1).symm⟩

end Materialize

namespace Resolver

/-- Names are resolved to the images that the closure holds under them. -/
def Serves (r : Resolver) (closure : Closure) : Prop :=
  ∀ name image, r.resolve name = .ok image → closure.Holds name image

theorem decode_of_decoded {name : String} {bytes : Bytes} {image : Image}
    (h : decoded name bytes = .ok image) : Image.decode bytes = .ok image := by
  unfold decoded at h
  split at h
  · cases h
  · next found hfound =>
    split at h
    · rw [hfound, Except.ok.inj h]
    · cases h

/-- Files that still have the bytes of the closure are read as its images. -/
theorem ofClosure_serves {files : Files} {directory : String} {closure : Closure}
    (hfiles : ∀ name stored, closure.get? name = some stored →
      files.read (Path.join directory (Image.fileName name)) = .ok stored.bytes) :
    (ofClosure files directory closure).Serves closure := by
  intro name image h
  unfold resolve at h
  split at h
  · simp only [ofClosure] at h
    split at h
    · cases h
    · next stored hstored =>
      rw [readAt, hfiles name stored hstored] at h
      simp only [bind, Except.bind] at h
      split at h
      · exact ⟨stored, hstored, decode_of_decoded h⟩
      · cases h
  · cases h

end Resolver

namespace Machine

/-- A call on a fresh instance finds its type and a method with as many parameters. -/
def Finds (m : Machine) (target : Code.Target) (count : Nat) : Prop :=
  ∃ t, m.typeDecl target.unit target.typeName = .ok t ∧ ∀ fields, ∃ method,
    m.methodFor ⟨target.unit, target.typeName, fields⟩ target.method count = .ok method

theorem finds_iff {m : Machine} {target : Code.Target} {count : Nat} :
    m.Finds target count ↔ m.Offers target count := by
  constructor
  · rintro ⟨_, _, hmethod⟩
    obtain ⟨method, hfound⟩ := hmethod []
    obtain ⟨t, ht, hname, harity⟩ := methodFor_eq_ok.1 hfound
    obtain ⟨image, himage, htype⟩ := typeDecl_eq_ok.1 ht
    exact ⟨image, himage, t, htype, method, hname, harity⟩
  · rintro ⟨image, himage, t, htype, method, hname, harity⟩
    have ht : m.typeDecl target.unit target.typeName = .ok t :=
      typeDecl_eq_ok.2 ⟨image, himage, htype⟩
    exact ⟨t, ht, fun _ => ⟨method, methodFor_eq_ok.2 ⟨t, ht, hname, harity⟩⟩⟩

/-- What a machine offers of the units that it has loaded is what the closure offers. -/
theorem offers_iff {m : Machine} {closure : Closure} {r : Resolver} {entry : String} {depth : Nat}
    (hr : r.Serves closure) (hload : load entry r depth = .ok m) {target : Code.Target}
    {count : Nat} (hloaded : ∃ image, m.image? target.unit = some image) :
    m.Offers target count ↔ closure.Offers target count := by
  obtain ⟨image, himage⟩ := hloaded
  have hholds : closure.Holds target.unit image := hr _ _ (load_resolves hload himage)
  constructor
  · rintro ⟨found, hfound, hdeclares⟩
    obtain rfl := Option.some.inj (himage.symm.trans hfound)
    exact ⟨image, hholds, hdeclares⟩
  · rintro ⟨found, hfound, hdeclares⟩
    obtain rfl := hholds.unique hfound
    exact ⟨image, himage, hdeclares⟩

end Machine

namespace Materialize.Walked

variable {units : List CompiledUnit} {q : Pass} {e : CompiledUnit} {call : Code.Target × Nat}

theorem holds {stack : List String} (h : Walked stack units q) (entry : String) (he : e ∈ units) :
    Closure.Holds ⟨entry, q.images⟩ e.unit.name e.image :=
  h.consistent.holds entry (h.linked e he).held

theorem offers {stack : List String} (h : Walked stack units q) (entry : String) (he : e ∈ units)
    (hcall : call ∈ e.image.staticCalls) (hreads : ¬ e.ReadsAncestor call.1.unit) :
    Closure.Offers ⟨entry, q.images⟩ call.1 call.2 := by
  have houtside : call.1.unit ∉ e.ancestors := fun hancestor =>
    hreads ((h.sound e he).ancestor call hcall hancestor)
  exact h.consistent.offers entry ((h.linked e he).offered call hcall houtside)

/-- What a unit calls through a binary reference is replaced by the image of the unit that it was
compiled inside, so this image decides whether the call is offered. -/
theorem offers_ancestor_iff {stack : List String} (h : Walked stack units q) (entry : String)
    {a : CompiledUnit} (ha : a ∈ units) (hname : call.1.unit = a.unit.name) :
    Closure.Offers ⟨entry, q.images⟩ call.1 call.2 ↔
      a.image.Declares call.1.typeName call.1.method call.2 := by
  have hholds : Closure.Holds ⟨entry, q.images⟩ call.1.unit a.image := hname ▸ h.holds entry ha
  constructor
  · rintro ⟨image, himage, hdeclares⟩
    exact himage.unique hholds ▸ hdeclares
  · exact fun hdeclares => ⟨a.image, hholds, hdeclares⟩

theorem linked_iff (h : Walked [] units q) (entry : String) :
    (∀ e ∈ units, ∀ call ∈ e.image.staticCalls,
        Closure.Offers ⟨entry, q.images⟩ call.1 call.2) ↔
      ∀ e ∈ units, ∀ a ∈ units, e.ReadsAncestor a.unit.name →
        ∀ call ∈ e.image.staticCalls, call.1.unit = a.unit.name →
          a.image.Declares call.1.typeName call.1.method call.2 := by
  constructor
  · intro hall e he a ha _ call hcall hname
    exact (h.offers_ancestor_iff entry ha hname).1 (hall e he call hcall)
  · intro hall e he call hcall
    by_cases hreads : e.ReadsAncestor call.1.unit
    · rcases h.known e he _ hreads.1 with hstack | ⟨a, ha, hname⟩
      · cases hstack
      · have hdeclares := hall e he a ha (hname ▸ hreads) call hcall hname.symm
        exact (h.offers_ancestor_iff entry ha hname.symm).2 hdeclares
    · exact h.offers entry he hcall hreads

/-- A machine that has loaded a unit of the closure has loaded what the unit calls. -/
theorem finds_iff {stack : List String} (h : Walked stack units q) {entry main : String}
    (he : e ∈ units) (hcall : call ∈ e.image.staticCalls) {r : Resolver} {depth : Nat} {m : Machine}
    (hr : r.Serves ⟨entry, q.images⟩) (hload : Machine.load main r depth = .ok m)
    (hloaded : ∃ image, m.image? e.unit.name = some image) :
    m.Finds call.1 call.2 ↔ Closure.Offers ⟨entry, q.images⟩ call.1 call.2 := by
  obtain ⟨image, himage⟩ := hloaded
  obtain rfl := (hr _ _ (Machine.load_resolves hload himage)).unique (h.holds entry he)
  rw [Machine.finds_iff, Machine.offers_iff hr hload]
  rcases (h.sound e he).named call hcall with hself | hreference
  · exact ⟨e.image, hself ▸ himage⟩
  · exact Machine.load_closed hload himage hreference

end Materialize.Walked

open Materialize (compiledUnits) in
/-- The units of a closure are linked to what they were compiled against. Only an image named like a
unit around them can lack the methods that they call. -/
theorem materialize_linked {order : Materialize.Order} {files : Files} {store after : Store}
    {u : SourceUnit} {closure : Closure}
    (h : materialize order files store u = (.ok closure, after)) :
    (∀ e ∈ compiledUnits files store u, closure.Holds e.unit.name e.image) ∧
    (∀ e ∈ compiledUnits files store u, ∀ call ∈ e.image.staticCalls,
      ¬ e.ReadsAncestor call.1.unit → closure.Offers call.1 call.2) ∧
    ((∀ e ∈ compiledUnits files store u, ∀ call ∈ e.image.staticCalls,
        closure.Offers call.1 call.2) ↔
      ∀ e ∈ compiledUnits files store u, ∀ a ∈ compiledUnits files store u,
        e.ReadsAncestor a.unit.name → ∀ call ∈ e.image.staticCalls, call.1.unit = a.unit.name →
          a.image.Declares call.1.typeName call.1.method call.2) ∧
    ∀ e ∈ compiledUnits files store u, ∀ call ∈ e.image.staticCalls,
      ∀ (r : Resolver) main depth m, r.Serves closure → Machine.load main r depth = .ok m →
        (∃ image, m.image? e.unit.name = some image) →
          (m.Finds call.1 call.2 ↔ closure.Offers call.1 call.2) := by
  obtain ⟨q, hvisit, rfl⟩ := Materialize.materialize_eq_ok h
  obtain ⟨hwalked, _⟩ :=
    Materialize.visit_walks u (Materialize.Pass.consistent_start store) hvisit
  refine ⟨?_, ?_, hwalked.linked_iff u.name, ?_⟩
  · exact fun e he => hwalked.holds u.name he
  · exact fun e he call hcall hreads => hwalked.offers u.name he hcall hreads
  · exact fun e he call hcall r main depth m hr hload hloaded =>
      hwalked.finds_iff he hcall hr hload hloaded

/-- A unit that refers to another one, which calls the older image that the store has under the
name of the first. -/
def outerUnit : SourceUnit :=
  .mk "App" [⟨"m.tdl", "class M \x7b fn go() \x7b return L.g(); \x7d \x7d"⟩] [
    .unit (.mk "Lib" [⟨"l.tdl", "class L \x7b fn g() \x7b return A.f(); \x7d \x7d"⟩] [
      .binary "old/App.tdi"])]

def olderImage : Image := ⟨"App", [], [⟨"A", [], [], [⟨"f", 0, 0, [], [], 1⟩]⟩]⟩

def olderStore : Store := Store.empty.add (.ofBytes "App" olderImage.bytes)

theorem outerUnit_materializes : ∃ closure after,
    materialize .sorted .fresh olderStore outerUnit = (.ok closure, after) := by
  have hok : (materialize .sorted .fresh olderStore outerUnit).1.isOk = true := by decide +kernel
  cases hrun : materialize .sorted .fresh olderStore outerUnit with
  | mk result after =>
    rw [hrun] at hok
    cases result with
    | error e => cases hok
    | ok closure => exact ⟨closure, after, rfl⟩

open Materialize (compiledUnits) in
theorem materialize_linked_outer : ∃ closure after,
    materialize .sorted .fresh olderStore outerUnit = (.ok closure, after) ∧
    (∃ e ∈ compiledUnits .fresh olderStore outerUnit, ∃ call ∈ e.image.staticCalls,
      closure.Offers call.1 call.2) ∧
    ∃ e ∈ compiledUnits .fresh olderStore outerUnit, ∃ call ∈ e.image.staticCalls,
      ¬ closure.Offers call.1 call.2 := by
  obtain ⟨closure, after, hrun⟩ := outerUnit_materializes
  obtain ⟨_, hoffers, hlinked, _⟩ := materialize_linked hrun
  refine ⟨closure, after, hrun, ?_, ?_⟩
  · have hcall : ∃ e ∈ compiledUnits .fresh olderStore outerUnit,
        ∃ call ∈ e.image.staticCalls, ¬ e.ReadsAncestor call.1.unit := by decide +kernel
    obtain ⟨e, he, call, hcall, hreads⟩ := hcall
    exact ⟨e, he, call, hcall, hoffers e he call hcall hreads⟩
  · by_contra hnone
    have hall : ∀ e ∈ compiledUnits .fresh olderStore outerUnit,
        ∀ call ∈ e.image.staticCalls, closure.Offers call.1 call.2 := by
      intro e he call hcall
      by_contra hnot
      exact hnone ⟨e, he, call, hcall, hnot⟩
    exact absurd (hlinked.1 hall) (by decide +kernel)

end TestBench
