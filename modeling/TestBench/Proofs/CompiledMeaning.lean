import Mathlib.Data.List.Find
import TestBench.Proofs.LoweringMeaning
import TestBench.Proofs.WellFormedImages

/-!
Compiled units run as their source means. The classes of a unit and the types of
its image correspond, so the machine finds for each name the lowered form of
what the source has under it. Calls then agree at every amount of fuel and every
depth, by induction on the fuel: a call with one more unit runs a body whose own
calls agree already.
-/
namespace TestBench

namespace Compile

open Direct (World Activation Bindings)
open Machine (Simulates Value)
open Source (declaredIn)

/-- The class that a type was declared by. -/
def OwnType.declaring (t : OwnType) : Direct.Class := ⟨t.origin.program, t.decl⟩

namespace Accepted

variable {unitName : String} {references : List String} {files : List ParsedFile}
  {interfaces : List Image} {image : Image}

variable (h : Accepted unitName references files interfaces image)

theorem machine_eq (m : Machine) : (World.ofFiles unitName files interfaces m).machine = m := rfl

theorem classes_eq (m : Machine) : (World.ofFiles unitName files interfaces m).classes =
    (declaredTypes files).map OwnType.declaring := by
  simp only [World.ofFiles, declaredTypes, List.map_flatMap, List.map_map]
  rfl

theorem declaring_fullName {t : OwnType} (ht : t ∈ declaredTypes files) :
    t.declaring.fullName = t.fullName := by
  obtain ⟨f, _, c, _, rfl⟩ := mem_declaredTypes.1 ht
  rfl

include h

theorem scope_eq (m : Machine) :
    (World.ofFiles unitName files interfaces m).scope = .ofFiles unitName files interfaces :=
  congrArg (fun types => (⟨unitName, types, interfaces⟩ : Scope)) h.scope_types

theorem class?_eq (m : Machine) {t : OwnType} (ht : t ∈ declaredTypes files) :
    (World.ofFiles unitName files interfaces m).class? t.fullName = some t.declaring := by
  have hnames : ∀ own ∈ declaredTypes files,
      (own.declaring.fullName == t.fullName) = (own.fullName == t.fullName) :=
    fun own hown => by rw [declaring_fullName hown]
  rw [World.class?, classes_eq, List.find?_map, Function.comp_def, List.find?_congr hnames,
    h.find?_fullName ht]
  rfl

omit h in
theorem own_of_arity? {fullName method : String}
    (harity : ((Scope.ofFiles unitName files interfaces).arity? unitName fullName method).isSome) :
    ∃ t ∈ declaredTypes files, t.fullName = fullName := by
  obtain ⟨arity, harity⟩ := Option.isSome_iff_exists.1 harity
  have hown : unitName = (Scope.ofFiles unitName files interfaces).unitName := rfl
  rw [Scope.arity?, if_pos hown] at harity
  obtain ⟨t, ht, _⟩ := Option.bind_eq_some_iff.1 harity
  exact ⟨t, List.mem_of_find?_eq_some ht, by simpa using List.find?_some ht⟩

theorem site_isOf {t : OwnType} (ht : t ∈ declaredTypes files) :
    (t.site (.ofFiles unitName files interfaces)).IsOf t.declaring where
  program_eq := rfl
  fields_eq := h.fields_eq ht
  fields_nodup := OwnType.field_names_nodup (h.ofClass_faults ht).1
  arity?_eq name := by
    obtain ⟨hfaults, heq⟩ := h.ofClass_faults ht
    have harity := OwnType.ofClass_arity? hfaults name
    rwa [heq] at harity

/-- A machine that has loaded the image finds the lowered type under the name of the class. -/
theorem typeDecl_eq {m : Machine} (hm : m.image? unitName = some image) {t : OwnType}
    (ht : t ∈ declaredTypes files) : m.typeDecl unitName t.declaring.fullName =
      .ok (lowerType (.ofFiles unitName files interfaces) t).1 := by
  refine Machine.typeDecl_eq_ok.2 ⟨image, hm, ?_⟩
  rw [declaring_fullName ht, h.type?_eq, h.find?_fullName ht]
  rfl

omit h in
/-- The slots of a method at its start hold its arguments, and nothing from there on. -/
theorem initialLocals_eq {site : Site} {m : Source.Method} (hm : (site.method m).2 = [])
    {args : List Value} (hlength : (m.parameters.map (·.node)).length = args.length) :
    Machine.initialLocals (site.method m).1 args =
      (m.parameters.map (·.node) ++ declaredIn m.body).map
        (Direct.bound (m.parameters.map (·.node)) args) := by
  have hnodup := List.nodup_append.1 (Site.method_nodup hm)
  have hrest : (declaredIn m.body).map (Direct.bound (m.parameters.map (·.node)) args) =
      List.replicate (declaredIn m.body).length .nothing := by
    rw [List.map_eq_replicate_iff]
    intro name hname
    exact Direct.bound_of_not_mem (fun hmem => hnodup.2.2 name hmem name hname rfl) args
  rw [List.map_append, Direct.map_bound hnodup.1 hlength, hrest, Machine.initialLocals,
    Site.method_locals_eq hm]
  rw [List.length_map] at hlength
  congr 2
  change max _ m.parameters.length - args.length = _
  omega

omit h in
theorem mem_classes {m : Machine} {c : Direct.Class} :
    c ∈ (World.ofFiles unitName files interfaces m).classes ↔
      ∃ t ∈ declaredTypes files, t.declaring = c := by
  rw [classes_eq, List.mem_map]

/-- With so much fuel the classes of the files run as the machine runs their types. -/
structure Alike (m : Machine) (unitName : String) (w : World) (fuel : Nat) : Prop where
  call : ∀ depth, ∀ c ∈ w.classes, ∀ name args,
    Simulates (c.instanceOf unitName) (w.call fuel depth c name args)
      (m.callMethod fuel depth name args)
  construct : ∀ depth, ∀ c ∈ w.classes, m.construct fuel depth unitName c.fullName =
    (w.construct fuel depth c).map fun result => result.map (c.instanceOf unitName)

omit h in
/-- A call on a fresh instance, when instances are made alike and their methods run alike. -/
theorem freshCall_eq {c : Direct.Class} (target : Code.Target)
    {make : Option (Except Machine.Fault Bindings)}
    {make' : String → String → Option (Except Machine.Fault Machine.Instance)}
    {run : String → List Value → Machine.Run Bindings Value}
    {run' : String → List Value → Machine.Run Machine.Instance Value}
    (hmake : make' target.unit target.typeName =
      make.map fun result => result.map (c.instanceOf unitName))
    (hrun : ∀ name args, Simulates (c.instanceOf unitName) (run name args) (run' name args))
    (args : List Value) :
    Machine.staticCall make' run' target args = World.freshCall make run target args := by
  unfold Machine.staticCall World.freshCall
  rw [hmake]
  rcases make with _ | fault | fields
  · rfl
  · rfl
  change Option.bind (run' target.method args (c.instanceOf unitName fields)) _ =
    Option.bind (run target.method args fields) _
  rw [hrun target.method args fields]
  cases run target.method args fields <;> rfl

theorem agree {m : Machine} {fuel : Nat} {t : OwnType} (ht : t ∈ declaredTypes files)
    (halike : Alike m unitName (World.ofFiles unitName files interfaces m) fuel) (depth : Nat) :
    let w := World.ofFiles unitName files interfaces m
    Agree (t.site (.ofFiles unitName files interfaces)) t.declaring
      ⟨w.call fuel depth t.declaring,
        w.otherCall (w.construct fuel depth) (w.call fuel depth) fuel depth t.declaring⟩
      ⟨m.callMethod fuel depth,
        Machine.staticCall (m.construct fuel depth) (m.callMethod fuel depth)⟩ := by
  intro w
  have hscope : w.scope = .ofFiles unitName files interfaces := h.scope_eq m
  refine ⟨halike.call depth _ (mem_classes.2 ⟨t, ht, rfl⟩), ?_⟩
  intro qualifier unit fullName method args hresolve harity
  have hresolve' : w.scope.resolve? t.declaring.program qualifier.written =
      some (unit, fullName) := by
    rw [hscope]
    exact hresolve
  change _ = World.otherCall w _ _ _ _ _ _ _ _
  rw [World.otherCall, hresolve', hscope]
  by_cases hunit : unit = unitName
  · subst hunit
    obtain ⟨d, hd, hfullName⟩ := own_of_arity? harity
    have hclass : w.class? fullName = some d.declaring := hfullName ▸ h.class?_eq m hd
    have hmem : d.declaring ∈ w.classes := mem_classes.2 ⟨d, hd, rfl⟩
    have hmake := halike.construct depth d.declaring hmem
    rw [declaring_fullName hd, hfullName] at hmake
    simp only [hclass]
    rw [if_pos (show unit = (Scope.ofFiles unit files interfaces).unitName from rfl)]
    exact freshCall_eq ⟨unit, fullName, method⟩ hmake (halike.call depth d.declaring hmem) args
  · exact (if_neg hunit).symm

/-- The body of a method runs alike from its arguments. -/
theorem body_eq {t : OwnType} (ht : t ∈ declaredTypes files) {method : Source.Method}
    (hmethod : method ∈ t.decl.methods) {calls : Direct.Calls} {calls' : Machine.Calls}
    (hcalls : Agree (t.site (.ofFiles unitName files interfaces)) t.declaring calls calls')
    {args : List Value} (hlength : (method.parameters.map (·.node)).length = args.length)
    (fuel : Nat) (fields : Bindings) :
    let lowered := ((t.site (.ofFiles unitName files interfaces)).method method).1
    let parameters := method.parameters.map (·.node)
    Machine.execAll calls' fuel lowered.body
        ⟨t.declaring.instanceOf unitName fields, Machine.initialLocals lowered args⟩ =
      (Direct.execAll t.declaring calls fuel parameters method.body
        ⟨fields, Direct.bound parameters args⟩).map fun out =>
          (out.1, t.declaring.frameOf unitName (parameters ++ declaredIn method.body) out.2) := by
  intro lowered parameters
  have hfaults := (lowerType_faults (h.bodies t ht)).2 method hmethod
  have hblock := (List.append_eq_nil_iff.1 hfaults).2
  have hlocals := Site.method_locals hfaults
  have hmatch := Site.block_match (h.site_isOf ht) hcalls (Site.method_nodup hfaults) fuel
    parameters method.body hblock (hlocals ▸ List.prefix_refl _)
  rw [initialLocals_eq hfaults hlength]
  exact hmatch ⟨fields, Direct.bound parameters args⟩

theorem call_alike {m : Machine} (hm : m.image? unitName = some image) {fuel : Nat}
    (halike : Alike m unitName (World.ofFiles unitName files interfaces m) fuel) (depth : Nat)
    {t : OwnType} (ht : t ∈ declaredTypes files) (name : String) (args : List Value) :
    Simulates (t.declaring.instanceOf unitName)
      ((World.ofFiles unitName files interfaces m).call (fuel + 1) depth t.declaring name args)
      (m.callMethod (fuel + 1) depth name args) := by
  intro fields
  have hfor := Machine.methodFor_eq (x := t.declaring.instanceOf unitName fields)
    (h.typeDecl_eq hm ht) name args.length
  rw [lowerType_method?] at hfor
  rw [World.call, Machine.callMethod, machine_eq]
  beta_reduce
  by_cases hdepth : m.maxCallDepth ≤ depth
  · rw [if_pos hdepth, if_pos hdepth]
    rfl
  rw [if_neg hdepth, if_neg hdepth, hfor]
  cases hfind : t.decl.methods.find? (·.name.node == name) with
  | none =>
    have hnone : t.declaring.method? name = none := hfind
    rw [hnone]
    rfl
  | some method =>
    have hsome : t.declaring.method? name = some method := hfind
    rw [hsome]
    simp only [Option.map_some]
    by_cases hlength : (method.parameters.map (·.node)).length = args.length
    · have harity : ((t.site (.ofFiles unitName files interfaces)).method method).1.arity =
          args.length := by rwa [List.length_map] at hlength
      have hbody := h.body_eq ht (List.mem_of_find?_eq_some hfind) (h.agree ht halike (depth + 1))
        hlength fuel fields
      simp only [harity, hlength, if_true]
      rw [hbody]
      generalize Direct.execAll _ _ _ _ _ _ = outcome
      rcases outcome with _ | ⟨_ | v, a⟩ <;> rfl
    · have harity : ((t.site (.ofFiles unitName files interfaces)).method method).1.arity ≠
          args.length := by rwa [List.length_map] at hlength
      simp only [harity, hlength, if_false]
      rw [List.length_map]
      rfl

theorem construct_alike {m : Machine} (hm : m.image? unitName = some image) {fuel : Nat}
    (halike : Alike m unitName (World.ofFiles unitName files interfaces m) fuel) (depth : Nat)
    {t : OwnType} (ht : t ∈ declaredTypes files) :
    m.construct (fuel + 1) depth unitName t.declaring.fullName =
      ((World.ofFiles unitName files interfaces m).construct (fuel + 1) depth t.declaring).map
        fun result => result.map (t.declaring.instanceOf unitName) := by
  have hset := Site.setFields_match (h.site_isOf ht) (h.agree ht halike (depth + 1)) []
    t.decl.fields rfl (lowerType_faults (h.bodies t ht)).1 ⟨Direct.blank, Direct.blank⟩
  have hblank : t.declaring.frameOf (t.site (.ofFiles unitName files interfaces)).scope.unitName []
      ⟨Direct.blank, Direct.blank⟩ =
      ⟨⟨unitName, t.declaring.fullName, List.replicate t.decl.fields.length .nothing⟩, []⟩ := by
    simp [Direct.Class.frameOf, Direct.Class.instanceOf, Direct.Class.fieldNames,
      OwnType.declaring, OwnType.site, Scope.ofFiles, Direct.blank, Function.comp_def,
      List.map_const']
  rw [hblank, List.length_nil] at hset
  rw [World.construct, Machine.construct, h.typeDecl_eq hm ht, lowerType_eq]
  simp only [List.length_map]
  rw [hset, show t.declaring.decl.fields = t.decl.fields from rfl]
  generalize Direct.setFields _ _ _ _ = outcome
  rcases outcome with _ | ⟨_ | v, a⟩ <;> rfl

/-- Whatever fuel there is, both ways to run the unit give the same. -/
theorem alike {m : Machine} (hm : m.image? unitName = some image) (fuel : Nat) :
    Alike m unitName (World.ofFiles unitName files interfaces m) fuel := by
  induction fuel with
  | zero =>
    refine ⟨fun depth c hc name args => ?_, fun depth c hc => ?_⟩
    · rw [World.call, Machine.callMethod]
      exact Simulates.outOfFuel
    · rw [World.construct, Machine.construct]
      rfl
  | succ fuel ih =>
    refine ⟨fun depth c hc name args => ?_, fun depth c hc => ?_⟩
    · obtain ⟨t, ht, rfl⟩ := mem_classes.1 hc
      exact h.call_alike hm ih depth ht name args
    · obtain ⟨t, ht, rfl⟩ := mem_classes.1 hc
      exact h.construct_alike hm ih depth ht

end Accepted

end Compile

/-- Every call and every new instance on a machine with the image of a unit gives what the source of
the unit gives, and leaves the same fields. -/
theorem compile_meaning {u : SourceUnit} {interfaces : List Image} {image : Image}
    {files : List ParsedFile} (hfiles : u.parse = .ok files)
    (h : compile u interfaces = .ok image) {m : Machine} (hm : m.image? u.name = some image)
    (fuel depth : Nat) :
    let w := Direct.World.ofFiles u.name files interfaces m
    ∀ c ∈ w.classes,
      (∀ name args values, values.length = c.fieldNames.length →
        m.callMethod fuel depth name args ⟨u.name, c.fullName, values⟩ =
          (w.call fuel depth c name args (Direct.bound c.fieldNames values)).map fun out =>
            (out.1, c.instanceOf u.name out.2)) ∧
      m.construct fuel depth u.name c.fullName =
        (w.construct fuel depth c).map fun result => result.map (c.instanceOf u.name) := by
  intro w c hc
  obtain ⟨other, hother, haccepted⟩ := Compile.accepted_of_compile h
  obtain rfl : files = other := Except.ok.inj (hfiles.symm.trans hother)
  have halike := haccepted.alike hm fuel
  refine ⟨fun name args values hlength => ?_, halike.construct depth c hc⟩
  obtain ⟨t, ht, rfl⟩ := Compile.Accepted.mem_classes.1 hc
  have hvalues := Direct.map_bound (haccepted.site_isOf ht).fields_nodup hlength.symm
  have hcall := halike.call depth _ hc name args (Direct.bound t.declaring.fieldNames values)
  rwa [Direct.Class.instanceOf, hvalues] at hcall

theorem shopUnit_classes {files : List ParsedFile} (hfiles : shopUnit.parse = .ok files)
    (m : Machine) : ∃ c ∈ (Direct.World.ofFiles "Shop" files [booksImage] m).classes,
      c.fieldNames = ["all"] := by
  have hnames : (shopUnit.parse.toOption.map fun files => files.flatMap fun f =>
      f.program.classes.map fun c => c.fields.map (·.name)) = some [["all"]] := by decide +kernel
  rw [hfiles] at hnames
  have hall : (files.flatMap fun f => f.program.classes.map fun c => c.fields.map (·.name)) =
      [["all"]] := Option.some.inj hnames
  have hmem := hall ▸ List.mem_cons_self (a := ["all"]) (l := [])
  obtain ⟨f, hf, hmem⟩ := List.mem_flatMap.1 hmem
  obtain ⟨c, hc, hfields⟩ := List.mem_map.1 hmem
  exact ⟨⟨f.program, c⟩, List.mem_flatMap.2 ⟨f, hf, List.mem_map_of_mem hc⟩, hfields⟩

/-- Both ways to run a method of the unit, on an instance whose field holds five. -/
theorem compile_meaning_shop : ∃ files image, ∃ m : Machine,
    shopUnit.parse = .ok files ∧ compile shopUnit [booksImage] = .ok image ∧
      m.image? "Shop" = some image ∧ m.image? "Books" = some booksImage ∧
      let w := Direct.World.ofFiles "Shop" files [booksImage] m
      ∃ c ∈ w.classes, c.fieldNames = ["all"] ∧ ∀ five two : Word,
        m.callMethod 9 0 "add" [.integer two] ⟨"Shop", c.fullName, [.integer five]⟩ =
          (w.call 9 0 c "add" [.integer two] (Direct.bound ["all"] [.integer five])).map fun out =>
            (out.1, c.instanceOf "Shop" out.2) := by
  obtain ⟨image, hcompile⟩ := shopUnit_compiles
  obtain ⟨files, hfiles, _⟩ := Compile.accepted_of_compile hcompile
  let m : Machine := ⟨"Shop", [("Shop", image), ("Books", booksImage)], Machine.defaultCallDepth⟩
  obtain ⟨c, hc, hfields⟩ := shopUnit_classes hfiles m
  refine ⟨files, image, m, hfiles, hcompile, rfl, rfl, c, hc, hfields, fun five two => ?_⟩
  have hcall := (compile_meaning hfiles hcompile (m := m) rfl 9 0 c hc).1 "add" [.integer two]
    [.integer five] (by rw [hfields]; rfl)
  rwa [hfields] at hcall

end TestBench
