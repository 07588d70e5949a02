import TestBench.Image.Codec
import TestBench.Proofs.SpelledValues

/-!
Images are read as they were written. Each record and each form leads from its
value back to itself, with limits that the size of the value bounds, and an
image whose sizes fit is therefore what its bytes decode to.
-/
namespace TestBench.Image

open JsonValue (Usable ItemsUsable sizeItems)

theorem mapM_map {α β γ : Type} {f : β → Option γ} {k : α → β} {g : α → γ} {xs : List α}
    (h : ∀ x ∈ xs, f (k x) = some (g x)) : (xs.map k).mapM f = some (xs.map g) := by
  induction xs with
  | nil => rfl
  | cons x rest ih =>
    have hrest := ih fun y hy => h y (List.mem_cons_of_mem _ hy)
    rw [List.map_cons, List.mapM_cons, h x List.mem_cons_self, hrest]
    rfl

namespace Body

section Leaves

theorem filter_key {members : List (String × JsonValue)} (hnodup : (members.map (·.1)).Nodup)
    {m : String × JsonValue} (hm : m ∈ members) : members.filter (·.1 == m.1) = [m] := by
  induction members with
  | nil => cases hm
  | cons first rest ih =>
    obtain ⟨hnew, hrest⟩ := List.nodup_cons.1 hnodup
    rcases List.mem_cons.1 hm with rfl | hm
    · have hothers : rest.filter (·.1 == m.1) = [] := by
        rw [List.filter_eq_nil_iff]
        intro other hother heq
        exact hnew (List.mem_map.2 ⟨other, hother, by simpa using heq⟩)
      simp [hothers]
    · have hne : first.1 ≠ m.1 := fun heq => hnew (List.mem_map.2 ⟨m, hm, heq.symm⟩)
      rw [List.filter_cons_of_neg (by simpa using hne), ih hrest hm]

/-- A record with distinct keys gives its values in order. -/
theorem record?_object {keys : List String} {members : List (String × JsonValue)}
    (hkeys : members.map (·.1) = keys) (hnodup : keys.Nodup) :
    record? keys (.object members) = some (members.map (·.2)) := by
  subst hkeys
  rw [record?]
  refine mapM_map fun m hm => ?_
  rw [filter_key hnodup hm]

theorem nat?_integer {n : Int} (hlow : 0 ≤ n) (hhigh : n < (sizeLimit : Int)) :
    nat? (.integer n) = some n.toNat := by
  rw [nat?, integer?]
  simp only [Option.bind_eq_bind, Option.bind_some]
  rw [if_pos ⟨hlow, hhigh⟩]

theorem nat?_ofNat {n : Nat} (h : sizeFits n = true) : nat? (ofNat n) = some n := by
  have hlt : n < sizeLimit := by rwa [sizeFits, decide_eq_true_iff] at h
  have hread := nat?_integer (Int.natCast_nonneg n) (Int.ofNat_lt.2 hlt)
  rwa [Int.toNat_natCast] at hread

theorem texts?_ofStrings (names : List String) : texts? (ofStrings names) = some names := by
  have hnames : (names.map JsonValue.text).mapM text? = some (names.map id) :=
    mapM_map fun _ _ => rfl
  rw [List.map_id] at hnames
  rw [texts?, ofStrings, array?]
  simpa using hnames

theorem named?_unary (op : UnaryOp) :
    named? UnaryOp.all unaryName (.text (unaryName op)) = some op := by
  cases op <;> rfl

theorem named?_binary (op : BinaryOp) :
    named? BinaryOp.all binaryName (.text (binaryName op)) = some op := by
  cases op <;> rfl

theorem named?_builtin (b : Builtin) :
    named? Builtin.all builtinName (.text (builtinName b)) = some b := by
  cases b <;> rfl

theorem constant?_ofConstant (c : Constant) : constant? (ofConstant c) = some c := by
  cases c with
  | integer n =>
    change Option.map Constant.integer (Word.ofInt? n.val) = _
    rw [Word.ofInt?_val]
    rfl
  | boolean b => rfl
  | text s => rfl

end Leaves

section Expressions

/-- The values of the arguments of a call. -/
def exprsOf? (limit : Nat) (v : JsonValue) : Option (List Code.Expr) := do
  (← array? v).mapM (expr? limit)

variable (limit : Nat)

theorem expr?_const (v : JsonValue) :
    expr? (limit + 1) (tagged "Const" v) = Code.Expr.constant <$> constant? v := rfl

theorem expr?_local (v : JsonValue) :
    expr? (limit + 1) (tagged "Local" v) = Code.Expr.local <$> nat? v := rfl

theorem expr?_field (v : JsonValue) :
    expr? (limit + 1) (tagged "Field" v) = Code.Expr.field <$> nat? v := rfl

theorem expr?_unary (op e : JsonValue) :
    expr? (limit + 1) (tagged "Unary" (.array [op, e])) = (do
      return .unary (← named? UnaryOp.all unaryName op) (← expr? limit e)) := rfl

theorem expr?_binary (l op r : JsonValue) :
    expr? (limit + 1) (tagged "Binary" (.array [l, op, r])) = (do
      return .binary (← expr? limit l) (← named? BinaryOp.all binaryName op)
        (← expr? limit r)) := rfl

theorem expr?_callSelf (v : JsonValue) : expr? (limit + 1) (tagged "CallSelf" v) = (do
    match ← record? ["method", "args"] v with
    | [method, args] => return .callSelf (← text? method) (← exprsOf? limit args)
    | _ => none) := rfl

theorem expr?_callStatic (v : JsonValue) : expr? (limit + 1) (tagged "CallStatic" v) = (do
    match ← record? ["unit", "type_name", "method", "args"] v with
    | [unit, typeName, method, args] =>
      return .callStatic ⟨← text? unit, ← text? typeName, ← text? method⟩ (← exprsOf? limit args)
    | _ => none) := rfl

theorem expr?_intrinsic (v : JsonValue) : expr? (limit + 1) (tagged "Intrinsic" v) = (do
    match ← record? ["intrinsic", "args"] v with
    | [builtin, args] =>
      return .assertion (← named? Builtin.all builtinName builtin) (← exprsOf? limit args)
    | _ => none) := rfl

mutual

/-- An expression is read back with any limit that its value does not exceed. -/
theorem expr?_ofExpr : ∀ (e : Code.Expr) (limit : Nat), exprFits e = true →
    (ofExpr e).size ≤ limit → expr? limit (ofExpr e) = some e
  | e, 0, _, hsize => by
    have hpos := (ofExpr e).size_pos
    omega
  | .constant c, limit + 1, _, _ => by
    rw [ofExpr, expr?_const, constant?_ofConstant]
    rfl
  | .local slot, limit + 1, h, _ => by
    rw [exprFits] at h
    rw [ofExpr, expr?_local, nat?_ofNat h]
    rfl
  | .field index, limit + 1, h, _ => by
    rw [exprFits] at h
    rw [ofExpr, expr?_field, nat?_ofNat h]
    rfl
  | .unary op operand, limit + 1, h, hsize => by
    rw [exprFits] at h
    simp only [ofExpr, tagged, JsonValue.size, JsonValue.sizeMembers, sizeItems] at hsize
    have hoperand := expr?_ofExpr operand limit h (by omega)
    rw [ofExpr, expr?_unary, named?_unary, hoperand]
    rfl
  | .binary left op right, limit + 1, h, hsize => by
    rw [exprFits, Bool.and_eq_true] at h
    simp only [ofExpr, tagged, JsonValue.size, JsonValue.sizeMembers, sizeItems] at hsize
    have hleft := expr?_ofExpr left limit h.1 (by omega)
    have hright := expr?_ofExpr right limit h.2 (by omega)
    rw [ofExpr, expr?_binary, hleft, named?_binary, hright]
    rfl
  | .callSelf method arguments, limit + 1, h, hsize => by
    rw [exprFits] at h
    simp only [ofExpr, tagged, JsonValue.size, JsonValue.sizeMembers] at hsize
    have hargs := exprs?_ofExprs arguments limit h (by omega)
    have hrecord : record? ["method", "args"] (.object [("method", .text method),
        ("args", .array (ofExprs arguments))]) =
      some [.text method, .array (ofExprs arguments)] := record?_object rfl (by decide)
    rw [ofExpr, expr?_callSelf, hrecord]
    simp only [text?, exprsOf?, array?, Option.bind_eq_bind, Option.bind_some, hargs]
    rfl
  | .callStatic target arguments, limit + 1, h, hsize => by
    rw [exprFits] at h
    simp only [ofExpr, tagged, JsonValue.size, JsonValue.sizeMembers] at hsize
    have hargs := exprs?_ofExprs arguments limit h (by omega)
    have hrecord : record? ["unit", "type_name", "method", "args"] (.object
        [("unit", .text target.unit), ("type_name", .text target.typeName),
          ("method", .text target.method), ("args", .array (ofExprs arguments))]) =
      some [.text target.unit, .text target.typeName, .text target.method,
        .array (ofExprs arguments)] := record?_object rfl (by decide)
    rw [ofExpr, expr?_callStatic, hrecord]
    simp only [text?, exprsOf?, array?, Option.bind_eq_bind, Option.bind_some, hargs]
    rfl
  | .assertion builtin arguments, limit + 1, h, hsize => by
    rw [exprFits] at h
    simp only [ofExpr, tagged, JsonValue.size, JsonValue.sizeMembers] at hsize
    have hargs := exprs?_ofExprs arguments limit h (by omega)
    have hrecord : record? ["intrinsic", "args"] (.object
        [("intrinsic", .text (builtinName builtin)), ("args", .array (ofExprs arguments))]) =
      some [.text (builtinName builtin), .array (ofExprs arguments)] :=
        record?_object rfl (by decide)
    rw [ofExpr, expr?_intrinsic, hrecord]
    simp only [named?_builtin, exprsOf?, array?, Option.bind_eq_bind, Option.bind_some, hargs]
    rfl

theorem exprs?_ofExprs : ∀ (es : List Code.Expr) (limit : Nat), exprsFit es = true →
    sizeItems (ofExprs es) ≤ limit → (ofExprs es).mapM (expr? limit) = some es
  | [], _, _, _ => rfl
  | e :: rest, limit, h, hsize => by
    rw [exprsFit, Bool.and_eq_true] at h
    rw [ofExprs, sizeItems] at hsize
    have hhere := expr?_ofExpr e limit h.1 (by omega)
    have hlater := exprs?_ofExprs rest limit h.2 (by omega)
    rw [ofExprs, List.mapM_cons, hhere, hlater]
    rfl

end

theorem exprOf?_ofExpr {e : Code.Expr} (h : exprFits e = true) : exprOf? (ofExpr e) = some e :=
  expr?_ofExpr e _ h (Nat.le_refl _)

end Expressions

section Statements

/-- The values of the statements of a block. -/
def blockOf? (limit : Nat) (v : JsonValue) : Option (List Code.Stmt) := do
  (← array? v).mapM (stmt? limit)

variable (limit : Nat)

theorem stmt?_setLocal (slot value : JsonValue) :
    stmt? (limit + 1) (tagged "SetLocal" (.array [slot, value])) = (do
      return .setLocal (← nat? slot) (← exprOf? value)) := rfl

theorem stmt?_setField (index value : JsonValue) :
    stmt? (limit + 1) (tagged "SetField" (.array [index, value])) = (do
      return .setField (← nat? index) (← exprOf? value)) := rfl

theorem stmt?_return (v : JsonValue) :
    stmt? (limit + 1) (tagged "Return" v) = Code.Stmt.return <$> option? v := rfl

theorem stmt?_if (v : JsonValue) : stmt? (limit + 1) (tagged "If" v) = (do
    match ← record? ["condition", "then_body", "else_body"] v with
    | [condition, body, otherwise] =>
      return .cond (← exprOf? condition) (← blockOf? limit body) (← blockOf? limit otherwise)
    | _ => none) := rfl

theorem stmt?_while (v : JsonValue) : stmt? (limit + 1) (tagged "While" v) = (do
    match ← record? ["condition", "body"] v with
    | [condition, body] => return .while (← exprOf? condition) (← blockOf? limit body)
    | _ => none) := rfl

theorem stmt?_expr (v : JsonValue) :
    stmt? (limit + 1) (tagged "Expr" v) = Code.Stmt.expr <$> exprOf? v := rfl

theorem option?_ofOption {value : Option Code.Expr} (h : value.all exprFits = true) :
    option? (ofOption value) = some value := by
  cases value with
  | none => rfl
  | some e =>
    have hread := exprOf?_ofExpr (e := e) h
    have hform : option? (ofExpr e) = some <$> exprOf? (ofExpr e) := by
      cases e <;> rfl
    rw [ofOption, hform, hread]
    rfl

mutual

theorem stmt?_ofStmt : ∀ (s : Code.Stmt) (limit : Nat), stmtFits s = true →
    (ofStmt s).size ≤ limit → stmt? limit (ofStmt s) = some s
  | s, 0, _, hsize => by
    have hpos := (ofStmt s).size_pos
    omega
  | .setLocal slot value, limit + 1, h, _ => by
    rw [stmtFits, Bool.and_eq_true] at h
    rw [ofStmt, stmt?_setLocal, nat?_ofNat h.1, exprOf?_ofExpr h.2]
    rfl
  | .setField index value, limit + 1, h, _ => by
    rw [stmtFits, Bool.and_eq_true] at h
    rw [ofStmt, stmt?_setField, nat?_ofNat h.1, exprOf?_ofExpr h.2]
    rfl
  | .return value, limit + 1, h, _ => by
    rw [stmtFits] at h
    rw [ofStmt, stmt?_return, option?_ofOption h]
    rfl
  | .cond condition body otherwise, limit + 1, h, hsize => by
    rw [stmtFits, Bool.and_eq_true, Bool.and_eq_true] at h
    simp only [ofStmt, tagged, JsonValue.size, JsonValue.sizeMembers] at hsize
    have hbody := stmts?_ofStmts body limit h.1.2 (by omega)
    have hotherwise := stmts?_ofStmts otherwise limit h.2 (by omega)
    have hrecord : record? ["condition", "then_body", "else_body"] (.object
        [("condition", ofExpr condition), ("then_body", .array (ofStmts body)),
          ("else_body", .array (ofStmts otherwise))]) =
      some [ofExpr condition, .array (ofStmts body), .array (ofStmts otherwise)] :=
        record?_object rfl (by decide)
    rw [ofStmt, stmt?_if, hrecord]
    simp only [exprOf?_ofExpr h.1.1, blockOf?, array?, Option.bind_eq_bind, Option.bind_some,
      hbody, hotherwise]
    rfl
  | .while condition body, limit + 1, h, hsize => by
    rw [stmtFits, Bool.and_eq_true] at h
    simp only [ofStmt, tagged, JsonValue.size, JsonValue.sizeMembers] at hsize
    have hbody := stmts?_ofStmts body limit h.2 (by omega)
    have hrecord : record? ["condition", "body"] (.object
        [("condition", ofExpr condition), ("body", .array (ofStmts body))]) =
      some [ofExpr condition, .array (ofStmts body)] := record?_object rfl (by decide)
    rw [ofStmt, stmt?_while, hrecord]
    simp only [exprOf?_ofExpr h.1, blockOf?, array?, Option.bind_eq_bind, Option.bind_some, hbody]
    rfl
  | .expr value, limit + 1, h, _ => by
    rw [stmtFits] at h
    rw [ofStmt, stmt?_expr, exprOf?_ofExpr h]
    rfl

theorem stmts?_ofStmts : ∀ (ss : List Code.Stmt) (limit : Nat), stmtsFit ss = true →
    sizeItems (ofStmts ss) ≤ limit → (ofStmts ss).mapM (stmt? limit) = some ss
  | [], _, _, _ => rfl
  | s :: rest, limit, h, hsize => by
    rw [stmtsFit, Bool.and_eq_true] at h
    rw [ofStmts, sizeItems] at hsize
    have hhere := stmt?_ofStmt s limit h.1 (by omega)
    have hlater := stmts?_ofStmts rest limit h.2 (by omega)
    rw [ofStmts, List.mapM_cons, hhere, hlater]
    rfl

end

end Statements

section Records

theorem field?_ofField {f : Field} (h : exprFits f.init = true) : field? (ofField f) = some f := by
  have hrecord : record? ["name", "init"] (ofField f) = some [.text f.name, ofExpr f.init] :=
    record?_object rfl (by decide)
  rw [field?, hrecord]
  simp only [text?, exprOf?_ofExpr h, Option.bind_eq_bind, Option.bind_some]
  rfl

theorem method?_eq {v name arity slots attributes body line : JsonValue}
    (h : record? ["name", "arity", "locals", "attributes", "body", "line"] v =
      some [name, arity, slots, attributes, body, line]) : method? v = (do
        return ⟨← text? name, ← nat? arity, ← nat? slots, ← texts? attributes, ← stmtsOf? body,
          ← nat? line⟩) := by
  rw [method?, h]
  rfl

theorem method?_ofMethod {m : Method} (h : methodFits m = true) :
    method? (ofMethod m) = some m := by
  simp only [methodFits, Bool.and_eq_true] at h
  obtain ⟨⟨⟨harity, hlocals⟩, hline⟩, hbody⟩ := h
  have hrecord : record? ["name", "arity", "locals", "attributes", "body", "line"] (ofMethod m) =
      some [.text m.name, ofNat m.arity, ofNat m.locals, ofStrings m.attributes,
        .array (ofStmts m.body), ofNat m.line] := record?_object rfl (by decide)
  have hstmts : stmtsOf? (.array (ofStmts m.body)) = some m.body := by
    have hsize : sizeItems (ofStmts m.body) ≤ (JsonValue.array (ofStmts m.body)).size := by
      rw [JsonValue.size]
      omega
    rw [stmtsOf?, array?, Option.bind_eq_bind, Option.bind_some]
    exact stmts?_ofStmts m.body _ hbody hsize
  rw [method?_eq hrecord, nat?_ofNat harity, nat?_ofNat hlocals, texts?_ofStrings, hstmts,
    nat?_ofNat hline]
  rfl

theorem type?_ofType {t : TypeDecl} (hfields : t.fields.all (exprFits ·.init) = true)
    (hmethods : t.methods.all methodFits = true) : type? (ofType t) = some t := by
  have hrecord : record? ["full_name", "attributes", "fields", "methods"] (ofType t) =
      some [.text t.fullName, ofStrings t.attributes, .array (t.fields.map ofField),
        .array (t.methods.map ofMethod)] := record?_object rfl (by decide)
  have hfields' := mapM_map (f := field?) (k := ofField) (g := id) fun f hf =>
    field?_ofField (List.all_eq_true.1 hfields f hf)
  have hmethods' := mapM_map (f := method?) (k := ofMethod) (g := id) fun m hm =>
    method?_ofMethod (List.all_eq_true.1 hmethods m hm)
  rw [List.map_id] at hfields' hmethods'
  rw [type?, hrecord]
  simp only [text?, texts?_ofStrings, array?, hfields', hmethods', Option.bind_eq_bind,
    Option.bind_some]
  rfl

theorem image?_ofImage {image : Image} (h : image.fits = true) :
    image? (ofImage image) = some image := by
  have hrecord : record? ["name", "references", "types"] (ofImage image) =
      some [.text image.name, ofStrings image.references, .array (image.types.map ofType)] :=
    record?_object rfl (by decide)
  have htypes : (image.types.map ofType).mapM type? = some (image.types.map id) := by
    refine mapM_map fun t ht => ?_
    have ht' := List.all_eq_true.1 h t ht
    rw [Bool.and_eq_true] at ht'
    exact type?_ofType ht'.1 ht'.2
  rw [List.map_id] at htypes
  rw [image?, hrecord]
  simp only [text?, texts?_ofStrings, array?, htypes, Option.bind_eq_bind, Option.bind_some]
  rfl

end Records

section Spelling

theorem itemsUsable_iff {items : List JsonValue} :
    ItemsUsable items ↔ ∀ item ∈ items, item.Usable := by
  induction items with
  | nil => simp [ItemsUsable]
  | cons item rest ih => simp [ItemsUsable, ih]

theorem ofConstant_usable (c : Constant) : (ofConstant c).Usable := by
  cases c <;> exact ⟨trivial, trivial⟩

mutual

theorem ofExpr_usable : ∀ e : Code.Expr, (ofExpr e).Usable
  | .constant c => ⟨ofConstant_usable c, trivial⟩
  | .local _ => ⟨trivial, trivial⟩
  | .field _ => ⟨trivial, trivial⟩
  | .unary _ operand => ⟨⟨trivial, ofExpr_usable operand, trivial⟩, trivial⟩
  | .binary left _ right => ⟨⟨ofExpr_usable left, trivial, ofExpr_usable right, trivial⟩, trivial⟩
  | .callSelf _ arguments => ⟨⟨trivial, ofExprs_usable arguments, trivial⟩, trivial⟩
  | .callStatic _ arguments =>
    ⟨⟨trivial, trivial, trivial, ofExprs_usable arguments, trivial⟩, trivial⟩
  | .assertion _ arguments => ⟨⟨trivial, ofExprs_usable arguments, trivial⟩, trivial⟩

theorem ofExprs_usable : ∀ es : List Code.Expr, ItemsUsable (ofExprs es)
  | [] => trivial
  | e :: rest => ⟨ofExpr_usable e, ofExprs_usable rest⟩

end

mutual

theorem ofStmt_usable : ∀ s : Code.Stmt, (ofStmt s).Usable
  | .setLocal _ value => ⟨⟨trivial, ofExpr_usable value, trivial⟩, trivial⟩
  | .setField _ value => ⟨⟨trivial, ofExpr_usable value, trivial⟩, trivial⟩
  | .return none => ⟨trivial, trivial⟩
  | .return (some value) => ⟨ofExpr_usable value, trivial⟩
  | .cond condition body otherwise =>
    ⟨⟨ofExpr_usable condition, ofStmts_usable body, ofStmts_usable otherwise, trivial⟩, trivial⟩
  | .while condition body => ⟨⟨ofExpr_usable condition, ofStmts_usable body, trivial⟩, trivial⟩
  | .expr value => ⟨ofExpr_usable value, trivial⟩

theorem ofStmts_usable : ∀ ss : List Code.Stmt, ItemsUsable (ofStmts ss)
  | [] => trivial
  | s :: rest => ⟨ofStmt_usable s, ofStmts_usable rest⟩

end

theorem ofStrings_usable (names : List String) : (ofStrings names).Usable := by
  refine itemsUsable_iff.2 fun item hitem => ?_
  obtain ⟨name, _, rfl⟩ := List.mem_map.1 hitem
  exact trivial

theorem ofField_usable (f : Field) : (ofField f).Usable :=
  ⟨trivial, ofExpr_usable f.init, trivial⟩

theorem ofMethod_usable (m : Method) : (ofMethod m).Usable :=
  ⟨trivial, trivial, trivial, ofStrings_usable _, ofStmts_usable m.body, trivial, trivial⟩

theorem ofType_usable (t : TypeDecl) : (ofType t).Usable := by
  refine ⟨trivial, ofStrings_usable _, itemsUsable_iff.2 ?_, itemsUsable_iff.2 ?_, trivial⟩
  · intro item hitem
    obtain ⟨f, _, rfl⟩ := List.mem_map.1 hitem
    exact ofField_usable f
  · intro item hitem
    obtain ⟨m, _, rfl⟩ := List.mem_map.1 hitem
    exact ofMethod_usable m

theorem ofImage_usable (image : Image) : (ofImage image).Usable := by
  refine ⟨trivial, ofStrings_usable _, itemsUsable_iff.2 fun item hitem => ?_, trivial⟩
  obtain ⟨t, _, rfl⟩ := List.mem_map.1 hitem
  exact ofType_usable t

end Spelling

end Body

/-- The bytes of an image, if it has any, are decoded to the image. -/
theorem decode_encode? {image : Image} {bytes : Bytes} (h : image.encode? = some bytes) :
    decode bytes = .ok image := by
  unfold encode? at h
  split at h
  · next hfits =>
    obtain rfl := Option.some.inj h
    have hvalue := JsonValue.ofBytes?_print (Body.ofImage_usable image)
    have hrest : image.bytes.drop magic.length = version :: Utf8.encode image.body := rfl
    have hmagic : magic.isPrefixOf image.bytes = true := rfl
    rw [decode, if_pos hmagic, hrest]
    simp only [if_true]
    rw [show Utf8.encode image.body = Utf8.encode (Body.ofImage image).print from rfl, hvalue,
      Option.bind_some, Body.image?_ofImage hfits]
  · cases h

end TestBench.Image
