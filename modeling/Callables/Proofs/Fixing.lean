import Callables.Release
import Callables.Proofs.Relocation

namespace Callables
namespace Relocation

def stay : Relocation where
  place := id
  mono h := h

def Fixes (ρ : Relocation) (values : List Value) : Prop := ∀ v ∈ values, ρ.value v = v

variable {ρ : Relocation}

@[simp] theorem fixes_nil : ρ.Fixes [] := by simp [Fixes]

@[simp] theorem fixes_cons {v : Value} {values : List Value} :
    ρ.Fixes (v :: values) ↔ ρ.value v = v ∧ ρ.Fixes values := by
  simp [Fixes]

@[simp] theorem fixes_append {values values' : List Value} :
    ρ.Fixes (values ++ values') ↔ ρ.Fixes values ∧ ρ.Fixes values' := by
  simp only [Fixes, List.mem_append, or_imp, forall_and]

namespace Fixes

theorem values {values : List Value} (h : ρ.Fixes values) : values.map ρ.value = values :=
  (List.map_congr_left h).trans (List.map_id _)

theorem pairs {κ : Type} {pairs : List (κ × Value)} (h : ρ.Fixes (pairs.map Prod.snd)) :
    pairs.map (fun e => (e.1, ρ.value e.2)) = pairs := by
  refine (List.map_congr_left fun e he => ?_).trans (List.map_id _)
  rw [h e.2 (List.mem_map_of_mem he)]
  rfl

theorem optional {value : Option Value} (h : ρ.Fixes value.toList) :
    value.map ρ.value = value := by
  cases value with
  | none => rfl
  | some v => exact congrArg some (h v (by simp))

theorem reference {r : Option Ref} (h : ∀ p, r = some p → ρ.value (.object p) = .object p) :
    r.map ρ.place = r := by
  cases r with
  | none => rfl
  | some p => exact congrArg some (Value.object.inj (h p rfl))

theorem dict {d : Dict Value} (h : ρ.Fixes d.values) : d.map ρ.value = d :=
  congrArg Dict.mk h.pairs

theorem keywords {keywords : Keywords} (h : ρ.Fixes keywords.values) :
    ρ.keywords keywords = keywords :=
  h.pairs

mutual

theorem expr : (e : Expr Text Value) → ρ.Fixes e.constants → ρ.expr e = e
  | .constant value, h => by
    rw [Relocation.expr, h value (by simp [Expr.constants])]
  | .parameter _, _ | .argument _, _ | .cell _, _ | .global _, _ | .parameters, _
  | .collectedPositional, _ | .collectedKeywords, _ | .globals, _ | .function, _ | .codeName, _
  | .depth, _ | .raise _ _, _ => by
    rw [Relocation.expr]
  | .tuple items, h => by
    rw [Relocation.expr, exprs items h]
  | .sequence steps, h => by
    rw [Relocation.expr, exprs steps h]
  | .call callee args keywords, h => by
    simp only [Expr.constants, fixes_append] at h
    rw [Relocation.expr, expr callee h.1.1, exprs args h.1.2, namedExprs keywords h.2]
  | .callMethod receiver name args keywords, h => by
    simp only [Expr.constants, fixes_append] at h
    rw [Relocation.expr, expr receiver h.1.1, exprs args h.1.2, namedExprs keywords h.2]
  | .getAttribute target name, h => by
    rw [Relocation.expr, expr target h]
  | .setAttribute target name value, h => by
    simp only [Expr.constants, fixes_append] at h
    rw [Relocation.expr, expr target h.1, expr value h.2]
  | .attempt body, h => by
    rw [Relocation.expr, expr body h]
  | .add left right, h => by
    simp only [Expr.constants, fixes_append] at h
    rw [Relocation.expr, expr left h.1, expr right h.2]
  | .ifPositive condition yes no, h => by
    simp only [Expr.constants, fixes_append] at h
    rw [Relocation.expr, expr condition h.1.1, expr yes h.1.2, expr no h.2]

theorem exprs : (es : List (Expr Text Value)) → ρ.Fixes (Expr.constantsAll es) → ρ.exprs es = es
  | [], _ => by
    rw [Relocation.exprs]
  | e :: rest, h => by
    simp only [Expr.constantsAll, fixes_append] at h
    rw [Relocation.exprs, expr e h.1, exprs rest h.2]

theorem namedExprs : (es : List (Text × Expr Text Value)) →
    ρ.Fixes (Expr.constantsNamed es) → ρ.namedExprs es = es
  | [], _ => by
    rw [Relocation.namedExprs]
  | (name, e) :: rest, h => by
    simp only [Expr.constantsNamed, fixes_append] at h
    rw [Relocation.namedExprs, expr e h.1, namedExprs rest h.2]

end

theorem metadata {m : Metadata} (h : ρ.Fixes m.references) : ρ.metadata m = m := by
  simp only [Metadata.references, List.cons_append, fixes_cons, fixes_append] at h
  obtain ⟨doc, ⟨module, objects⟩, globals, closure⟩ := h
  have object {r : Option Ref}
      (listed : r ∈ [m.code, m.defaults, m.keywordDefaults, m.annotations, m.attributes]) :
      r.map ρ.place = r :=
    reference fun p hp => objects _ (List.mem_filterMap.mpr ⟨r, listed, by rw [hp]; rfl⟩)
  have closed : m.closure.map ρ.place = m.closure :=
    reference fun p hp => closure _ (by rw [hp]; exact List.mem_singleton_self _)
  rw [Relocation.metadata, doc, module.optional, object (by simp), object (by simp),
    object (by simp), object (by simp), object (by simp), globals, closed]

theorem function {f : Function} (h : ρ.Fixes (Object.function f).references) :
    ρ.function f = f := by
  simp only [Object.references, Function.commonReferences, fixes_append] at h
  obtain ⟨⟨receiver, module⟩, own⟩ := h
  have kind : ρ.kind f.kind = f.kind := by
    obtain ⟨_, _, _, _, _, kind⟩ := f
    cases kind with
    | builtin => rfl
    | defined m => exact congrArg FunctionKind.defined (metadata own)
    | native m => exact congrArg FunctionKind.native (metadata own)
    | method wrapped => exact congrArg FunctionKind.method (fixes_cons.mp own).1
  rw [Relocation.function, receiver.optional, module.optional, kind]

theorem object {o : Object} (h : ρ.Fixes o.references) : ρ.object o = o := by
  cases o with
  | tuple items => exact congrArg Object.tuple h.values
  | dict entries => exact congrArg Object.dict h.dict
  | module name names =>
    exact congrArg (Object.module name) (Value.object.inj (fixes_cons.mp h).1)
  | code c =>
    have body : ρ.code c = c := by rw [Relocation.code, expr c.body h]
    exact congrArg Object.code body
  | ofClass type attributes => exact congrArg (Object.ofClass type) h.dict
  | closure => rfl
  | function f => exact congrArg Object.function h.function

end Fixes

theorem fixes_stay (values : List Value) : stay.Fixes values := by
  intro v _
  cases v <;> rfl

@[simp] theorem stay_value (v : Value) : stay.value v = v := by cases v <;> rfl

@[simp] theorem stay_values (values : List Value) : values.map stay.value = values :=
  (fixes_stay values).values

@[simp] theorem stay_option (v : Option Value) : v.map stay.value = v := by cases v <;> simp

@[simp] theorem stay_keywords (k : Keywords) : stay.keywords k = k := (fixes_stay _).keywords

@[simp] theorem stay_function (f : Function) : stay.function f = f := (fixes_stay _).function

@[simp] theorem stay_object (o : Object) : stay.object o = o := (fixes_stay _).object

@[simp] theorem stay_expr (e : Expr Text Value) : stay.expr e = e := Fixes.expr e (fixes_stay _)

theorem stay_result (result : Except CallError Value) : result.map stay.value = result := by
  cases result <;> simp [Except.map]

@[simp] theorem stay_view (view : ArgsView) : stay.view view = view := by
  simp [Relocation.view]

@[simp] theorem stay_delivery {c : Convention} (delivery : Delivery c) :
    stay.delivery delivery = delivery := by
  cases delivery with
  | noArgs | single | varArgs | fast | fastKeywords => simp [Relocation.delivery]
  | varArgsKeywords lead args keywords =>
    have entries : keywords.map (Dict.map stay.value) = keywords := by
      cases keywords with
      | none => rfl
      | some entries => exact congrArg some (fixes_stay entries.values).dict
    simp [Relocation.delivery, entries]

@[simp] theorem stay_frame (frame : Frame) : stay.frame frame = frame := by
  simp [Relocation.frame, Relocation.code]

@[simp] theorem stay_move (move : Move) : stay.move move = move := by
  cases move <;> simp [Relocation.move]

theorem stay_relocated (rt : Runtime) : stay.Relocated rt rt := by
  refine ⟨rfl, fun id => ?_, fun r => ?_, fun _ => rfl, rfl, rfl, rfl⟩
  · cases rt.types.get? id with
    | none => rfl
    | some t =>
      have attributes : stay.typeInfo t = t := by
        rw [Relocation.typeInfo, (fixes_stay t.attributes.values).dict]
      exact congrArg some attributes.symm
  · change rt.heap.get? r = _
    cases rt.heap.get? r <;> simp

end Relocation
end Callables
