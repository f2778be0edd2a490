import Callables.Dispatch
import Callables.Proofs.Naturality

namespace Callables

/-- Other places, in the same order. -/
structure Relocation where
  place : Ref → Ref
  mono : ∀ {a b}, a < b → place a < place b

namespace Relocation

variable (ρ : Relocation)

theorem lt_iff {a b : Ref} : ρ.place a < ρ.place b ↔ a < b := by
  refine ⟨fun h => ?_, ρ.mono⟩
  rcases Nat.lt_trichotomy a b with hlt | rfl | hgt
  · exact hlt
  · exact absurd h (Nat.lt_irrefl _)
  · exact absurd h (Nat.lt_asymm (ρ.mono hgt))

theorem place_inj {a b : Ref} : ρ.place a = ρ.place b ↔ a = b := by
  refine ⟨fun h => ?_, fun h => h ▸ rfl⟩
  rcases Nat.lt_trichotomy a b with hlt | rfl | hgt
  · exact absurd h (Nat.ne_of_lt (ρ.mono hlt))
  · rfl
  · exact absurd h (Nat.ne_of_gt (ρ.mono hgt))

def value : Value → Value
  | .object r => .object (ρ.place r)
  | v => v

def keywords (keywords : Keywords) : Keywords := keywords.map fun k => (k.1, ρ.value k.2)

def metadata (m : Metadata) : Metadata :=
  { m with
    doc := ρ.value m.doc
    module := m.module.map ρ.value
    code := m.code.map ρ.place
    defaults := m.defaults.map ρ.place
    keywordDefaults := m.keywordDefaults.map ρ.place
    annotations := m.annotations.map ρ.place
    attributes := m.attributes.map ρ.place
    globals := ρ.value m.globals
    closure := m.closure.map ρ.place }

def kind : FunctionKind → FunctionKind
  | .builtin => .builtin
  | .defined metadata => .defined (ρ.metadata metadata)
  | .native metadata => .native (ρ.metadata metadata)
  | .method wrapped => .method (ρ.value wrapped)

def function (f : Function) : Function :=
  { f with
    receiver := f.receiver.map ρ.value
    module := f.module.map ρ.value
    kind := ρ.kind f.kind }

mutual

def expr : Expr Text Value → Expr Text Value
  | .constant value => .constant (ρ.value value)
  | .parameter name => .parameter name
  | .argument index => .argument index
  | .cell index => .cell index
  | .global name => .global name
  | .parameters => .parameters
  | .collectedPositional => .collectedPositional
  | .collectedKeywords => .collectedKeywords
  | .globals => .globals
  | .function => .function
  | .codeName => .codeName
  | .depth => .depth
  | .tuple items => .tuple (exprs items)
  | .sequence steps => .sequence (exprs steps)
  | .call callee args keywords => .call (expr callee) (exprs args) (namedExprs keywords)
  | .callMethod receiver name args keywords =>
    .callMethod (expr receiver) name (exprs args) (namedExprs keywords)
  | .getAttribute target name => .getAttribute (expr target) name
  | .setAttribute target name value => .setAttribute (expr target) name (expr value)
  | .raise kind message => .raise kind message
  | .attempt body => .attempt (expr body)
  | .add left right => .add (expr left) (expr right)
  | .ifPositive condition yes no => .ifPositive (expr condition) (expr yes) (expr no)

def exprs : List (Expr Text Value) → List (Expr Text Value)
  | [] => []
  | e :: rest => expr e :: exprs rest

def namedExprs : List (Text × Expr Text Value) → List (Text × Expr Text Value)
  | [] => []
  | (name, e) :: rest => (name, expr e) :: namedExprs rest

end

def code (c : Code) : Code := { c with body := ρ.expr c.body }

def object : Object → Object
  | .tuple items => .tuple (items.map ρ.value)
  | .dict entries => .dict (entries.map ρ.value)
  | .module name names => .module name (ρ.place names)
  | .code c => .code (ρ.code c)
  | .ofClass type attributes => .ofClass type (attributes.map ρ.value)
  | .closure c => .closure c
  | .function f => .function (ρ.function f)

def move : Move → Move
  | .take values => .take (values.map ρ.value)
  | .letGo values passed => .letGo (values.map ρ.value) (passed.map ρ.value)
  | .create o => .create (ρ.object o)
  | .change old new => .change (ρ.object old) (ρ.object new)

def typeInfo (t : TypeInfo) : TypeInfo := { t with attributes := t.attributes.map ρ.value }

def view (view : ArgsView) : ArgsView := { view with values := view.values.map ρ.value }

def delivery : {c : Convention} → Delivery c → Delivery c
  | _, .noArgs lead => .noArgs (ρ.value lead)
  | _, .single lead arg => .single (ρ.value lead) (ρ.value arg)
  | _, .varArgs lead args => .varArgs (ρ.value lead) (args.map ρ.value)
  | _, .varArgsKeywords lead args keywords =>
    .varArgsKeywords (ρ.value lead) (args.map ρ.value) (keywords.map (Dict.map ρ.value))
  | _, .fast lead args => .fast (ρ.value lead) (args.map ρ.value)
  | _, .fastKeywords lead view => .fastKeywords (ρ.value lead) (ρ.view view)

def hostCall (call : HostCall) : HostCall where
  function := ρ.value call.function
  name := call.name
  code := ρ.code call.code
  bound := call.bound.map ρ.value
  snapshot := call.snapshot.map ρ.value

def frame (frame : Frame) : Frame where
  function := ρ.value frame.function
  code := ρ.code frame.code
  parameters := frame.parameters.map ρ.value
  positional := frame.positional.map ρ.value
  keywords := frame.keywords.map ρ.value

/-- Two runtimes that differ only by the places of their objects. What the ledgers say is left
aside, for it matters only at the end of a step. -/
structure Relocated (rt rt' : Runtime) : Prop where
  config : rt'.config = rt.config
  types : ∀ id, rt'.types.get? id = (rt.types.get? id).map ρ.typeInfo
  heap : ∀ r, rt'.heap.get? (ρ.place r) = (rt.heap.get? r).map ρ.object
  next : ∀ n, ρ.place (rt.heap.nextRef + n) = rt'.heap.nextRef + n
  thread : rt'.thread = rt.thread
  nextText : rt'.nextText = rt.nextText
  nextEntry : rt'.nextEntry = rt.nextEntry

section Fields

variable (f : Function)

@[simp] theorem function_entry : (ρ.function f).entry = f.entry := (rfl)

@[simp] theorem function_owner : (ρ.function f).owner = f.owner := (rfl)

@[simp] theorem function_receiver : (ρ.function f).receiver = f.receiver.map ρ.value := (rfl)

@[simp] theorem function_module : (ρ.function f).module = f.module.map ρ.value := (rfl)

@[simp] theorem metadata_qualname (m : Metadata) : (ρ.metadata m).qualname = m.qualname := (rfl)

@[simp] theorem metadata_code (m : Metadata) : (ρ.metadata m).code = m.code.map ρ.place := (rfl)

@[simp] theorem metadata_defaults (m : Metadata) :
    (ρ.metadata m).defaults = m.defaults.map ρ.place := (rfl)

@[simp] theorem metadata_keywordDefaults (m : Metadata) :
    (ρ.metadata m).keywordDefaults = m.keywordDefaults.map ρ.place := (rfl)

@[simp] theorem code_parameters (c : Code) : (ρ.code c).parameters = c.parameters := (rfl)

@[simp] theorem function_isBound : (ρ.function f).isBound = f.isBound := by
  simp [Function.isBound]

@[simp] theorem function_metadata? : (ρ.function f).metadata? = f.metadata?.map ρ.metadata := by
  obtain ⟨_, _, _, _, _, kind⟩ := f
  cases kind <;> rfl

@[simp] theorem function_wrapped? : (ρ.function f).wrapped? = f.wrapped?.map ρ.value := by
  obtain ⟨_, _, _, _, _, kind⟩ := f
  cases kind <;> rfl

@[simp] theorem function_isMethod : (ρ.function f).isMethod = f.isMethod := by
  simp [Function.isMethod]

@[simp] theorem function_isHost : (ρ.function f).isHost = f.isHost := by
  obtain ⟨_, _, _, _, _, kind⟩ := f
  cases kind <;> rfl

@[simp] theorem object_typeId (o : Object) : (ρ.object o).typeId = o.typeId := by
  cases o with
  | function f => cases hk : f.kind <;> simp [object, Object.typeId, function, kind, hk] <;> rfl
  | tuple | dict | module | code | ofClass | closure => rfl

@[simp] theorem object_function? (o : Object) :
    (ρ.object o).function? = o.function?.map ρ.function := by
  cases o <;> rfl

@[simp] theorem object_dict? (o : Object) :
    (ρ.object o).dict? = o.dict?.map (Dict.map ρ.value) := by
  cases o <;> rfl

@[simp] theorem object_tuple? (o : Object) :
    (ρ.object o).tuple? = o.tuple?.map (List.map ρ.value) := by
  cases o <;> rfl

@[simp] theorem object_code? (o : Object) : (ρ.object o).code? = o.code?.map ρ.code := by
  cases o <;> rfl

@[simp] theorem value_asInt? (v : Value) : (ρ.value v).asInt? = v.asInt? := by
  cases v <;> rfl

@[simp] theorem value_asText? (v : Value) : (ρ.value v).asText? = v.asText? := by
  cases v <;> rfl

theorem value_getD (v : Option Value) :
    ρ.value (v.getD .none) = (v.map ρ.value).getD .none := by
  cases v <;> rfl

theorem value_valueOf (r : Option Ref) :
    ρ.value (Metadata.valueOf r) = Metadata.valueOf (r.map ρ.place) := by
  cases r <;> rfl

@[simp] theorem keywords_values (k : Keywords) :
    (ρ.keywords k).values = k.values.map ρ.value := by
  simp [keywords, Keywords.values]

theorem keywords_byName (k : Keywords) :
    (ρ.keywords k).byName = k.byName.map fun e => (e.1, ρ.value e.2) := by
  simp [keywords, Keywords.byName]

theorem view_ofCall (args : List Value) (k : Keywords) :
    ArgsView.ofCall (args.map ρ.value) (ρ.keywords k) = ρ.view (.ofCall args k) := by
  simp [ArgsView.ofCall, view, keywords, Keywords.values]

@[simp] theorem view_positional (v : ArgsView) :
    (ρ.view v).positional = v.positional.map ρ.value := by
  simp [view, ArgsView.positional, ArgsView.positionalCount]

@[simp] theorem view_keywordValues (v : ArgsView) :
    (ρ.view v).keywordValues = v.keywordValues.map ρ.value := by
  simp [view, ArgsView.keywordValues, ArgsView.positionalCount]

@[simp] theorem view_keywords (v : ArgsView) : (ρ.view v).keywords = ρ.keywords v.keywords := by
  simp only [ArgsView.keywords, view_keywordValues, keywords]
  exact List.zip_map_right ..

theorem delivery_make (name : String) (lead : Value) (args : List Value) (k : Keywords)
    (c : Convention) :
    Delivery.make name (ρ.value lead) (args.map ρ.value) (ρ.keywords k) c =
      (Delivery.make name lead args k c).map ρ.delivery := by
  have empty : (ρ.keywords k).isEmpty = k.isEmpty := by simp [keywords]
  unfold Delivery.make
  rw [empty]
  split
  · rfl
  · cases c with
    | noArgs =>
      cases args with
      | nil => rfl
      | cons => simp [Except.map]
    | single =>
      match args with
      | [] => rfl
      | [_] => rfl
      | _ :: _ :: _ => simp [Except.map]
    | varArgs | fast => rfl
    | varArgsKeywords =>
      simp only [Except.map, delivery, keywords_byName, Dict.ofList_map]
      split <;> rfl
    | fastKeywords => simp [Except.map, delivery, view_ofCall]

theorem entry_accept (entry : Entry) (lead : Value) (args : List Value) (k : Keywords) :
    entry.accept (ρ.value lead) (args.map ρ.value) (ρ.keywords k) =
      (entry.accept lead args k).map ρ.delivery := by
  unfold Entry.accept
  cases entry.validate with
  | error e => rfl
  | ok c => exact ρ.delivery_make ..

end Fields

namespace Relocated

variable {ρ} {rt rt' : Runtime}

theorem object? (h : ρ.Relocated rt rt') (v : Value) :
    rt'.heap.object? (ρ.value v) = (rt.heap.object? v).map ρ.object := by
  cases v with
  | object r => exact h.heap r
  | none | bool | int | float | text | type => rfl

theorem function? (h : ρ.Relocated rt rt') (v : Value) :
    rt'.heap.function? (ρ.value v) = (rt.heap.function? v).map ρ.function := by
  simp only [Heap.function?, h.object?]
  cases rt.heap.object? v <;> simp

theorem dict? (h : ρ.Relocated rt rt') (v : Value) :
    rt'.heap.dict? (ρ.value v) = (rt.heap.dict? v).map (Dict.map ρ.value) := by
  simp only [Heap.dict?, h.object?]
  cases rt.heap.object? v <;> simp

theorem tuple? (h : ρ.Relocated rt rt') (v : Value) :
    rt'.heap.tuple? (ρ.value v) = (rt.heap.tuple? v).map (List.map ρ.value) := by
  simp only [Heap.tuple?, h.object?]
  cases rt.heap.object? v <;> simp

theorem code? (h : ρ.Relocated rt rt') (v : Value) :
    rt'.heap.code? (ρ.value v) = (rt.heap.code? v).map ρ.code := by
  simp only [Heap.code?, h.object?]
  cases rt.heap.object? v <;> simp

theorem itemsAt (h : ρ.Relocated rt rt') (r : Option Ref) :
    rt'.heap.itemsAt (r.map ρ.place) = (rt.heap.itemsAt r).map ρ.value := by
  cases r with
  | none => rfl
  | some r =>
    have ht := h.tuple? (.object r)
    simp only [Relocation.value] at ht
    simp only [Heap.itemsAt, Option.map_some, Option.bind_some, ht]
    cases rt.heap.tuple? (.object r) <;> rfl

theorem entriesAt (h : ρ.Relocated rt rt') (r : Option Ref) :
    rt'.heap.entriesAt (r.map ρ.place) = (rt.heap.entriesAt r).map ρ.value := by
  cases r with
  | none => rfl
  | some r =>
    have hd := h.dict? (.object r)
    simp only [Relocation.value] at hd
    simp only [Heap.entriesAt, Option.map_some, Option.bind_some, hd]
    cases rt.heap.dict? (.object r) <;> rfl

theorem info (h : ρ.Relocated rt rt') (id : TypeId) :
    rt'.types.info id = ρ.typeInfo (rt.types.info id) := by
  unfold Types.info
  rw [h.types, h.types]
  cases rt.types.get? id with
  | some t => rfl
  | none => cases rt.types.get? .object <;> rfl

theorem hasFlag (h : ρ.Relocated rt rt') (id : TypeId) (flag : TypeFlags) :
    rt'.types.hasFlag id flag = rt.types.hasFlag id flag := by
  rw [Types.hasFlag, h.info]
  rfl

theorem isSubtype (h : ρ.Relocated rt rt') (sub super : TypeId) :
    rt'.types.isSubtype sub super = rt.types.isSubtype sub super := by
  rw [Types.isSubtype, h.info]
  rfl

theorem lookup (h : ρ.Relocated rt rt') (id : TypeId) (name : String) :
    rt'.types.lookup id name = (rt.types.lookup id name).map ρ.value := by
  have each : (fun t => (rt'.types.info t).attributes.get? name) =
      Option.map ρ.value ∘ fun t => (rt.types.info t).attributes.get? name := by
    funext t
    rw [h.info]
    exact Dict.get?_map ..
  unfold Types.lookup
  rw [h.info, List.map_findSome?, each]
  rfl

theorem get?_modifyAttributes (h : ρ.Relocated rt rt') (id other : TypeId)
    {f g : Dict Value → Dict Value} (same : ∀ d, g (d.map ρ.value) = (f d).map ρ.value) :
    (rt'.types.modifyAttributes id g).get? other =
      ((rt.types.modifyAttributes id f).get? other).map ρ.typeInfo := by
  simp only [Types.modifyAttributes, Registry.get?_modify, h.types]
  split
  · cases rt.types.get? other <;> simp [typeInfo, same]
  · rfl

theorem typeIdOf (h : ρ.Relocated rt rt') (v : Value) :
    rt'.typeIdOf (ρ.value v) = rt.typeIdOf v := by
  cases v with
  | object r =>
    simp only [Relocation.value, Runtime.typeIdOf, h.heap]
    cases rt.heap.get? r <;> simp
  | none | bool | int | float | text | type => rfl

theorem typeOf (h : ρ.Relocated rt rt') (v : Value) :
    rt'.typeOf (ρ.value v) = ρ.typeInfo (rt.typeOf v) := by
  rw [Runtime.typeOf, h.typeIdOf, h.info]
  rfl

theorem typeName (h : ρ.Relocated rt rt') (v : Value) :
    rt'.typeName (ρ.value v) = rt.typeName v := by
  simp only [Runtime.typeName, h.typeOf]
  rfl

theorem baseFunction? (h : ρ.Relocated rt rt') (v : Value) :
    rt'.baseFunction? (ρ.value v) = (rt.baseFunction? v).map ρ.function := by
  simp only [Runtime.baseFunction?, h.typeOf, h.function?]
  change (if (rt.typeOf v).flags.has .baseFunction = true then _ else _) = _
  split <;> rfl

theorem innermostAt (h : ρ.Relocated rt rt') (r : Ref) :
    rt'.heap.innermostAt (ρ.place r) = ρ.value (rt.heap.innermostAt r) := by
  induction r using Nat.strongRecOn with
  | ind r ih =>
    have wrapped : (rt'.heap.function? (.object (ρ.place r))).bind Function.wrapped? =
        ((rt.heap.function? (.object r)).bind Function.wrapped?).map ρ.value := by
      have hf := h.function? (.object r)
      simp only [Relocation.value] at hf
      rw [hf]
      cases rt.heap.function? (.object r) <;> simp
    rw [Heap.innermostAt.eq_def rt'.heap, Heap.innermostAt.eq_def rt.heap, wrapped]
    cases (rt.heap.function? (.object r)).bind Function.wrapped? with
    | none => rfl
    | some v =>
      cases v with
      | object inner =>
        simp only [Relocation.value, Option.map_some, ρ.lt_iff]
        split
        · rename_i hlt
          exact ih inner hlt
        · rfl
      | none | bool | int | float | text | type => rfl

theorem conforms (h : ρ.Relocated rt rt') (entry : Entry) (owner : TypeId) (receiver : Value) :
    rt'.conforms entry owner (ρ.value receiver) = rt.conforms entry owner receiver := by
  have hi : rt'.isInstance (ρ.value receiver) owner = rt.isInstance receiver owner := by
    simp only [Runtime.isInstance, h.typeOf]
    rfl
  unfold Runtime.conforms
  rw [hi]
  cases receiver with
  | type id => simp [Relocation.value, h.isSubtype]
  | none | bool | int | float | text | object => rfl

theorem checkSelf (h : ρ.Relocated rt rt') (entry : Entry) (owner : TypeId) (receiver : Value) :
    rt'.checkSelf entry owner (ρ.value receiver) = rt.checkSelf entry owner receiver := by
  simp only [Runtime.checkSelf, h.conforms, h.typeName, h.info]
  rfl

theorem innermost (h : ρ.Relocated rt rt') (v : Value) :
    rt'.heap.innermost (ρ.value v) = ρ.value (rt.heap.innermost v) := by
  cases v with
  | object r => exact h.innermostAt r
  | none | bool | int | float | text | type => rfl

theorem bindsOnAccess (h : ρ.Relocated rt rt') (v : Value) :
    rt'.bindsOnAccess (ρ.value v) = rt.bindsOnAccess v := by
  simp only [Runtime.bindsOnAccess, h.typeOf]
  rfl

theorem noAttribute (h : ρ.Relocated rt rt') (v : Value) (name : String) :
    rt'.noAttribute (ρ.value v) name = rt.noAttribute v name := by
  simp only [Runtime.noAttribute, h.typeName]

theorem ownAttributes? (h : ρ.Relocated rt rt') (v : Value) :
    rt'.ownAttributes? (ρ.value v) = (rt.ownAttributes? v).map (Dict.map ρ.value) := by
  simp only [Runtime.ownAttributes?, h.object?]
  cases rt.heap.object? v with
  | none => rfl
  | some o => cases o <;> rfl

theorem moduleNames? (h : ρ.Relocated rt rt') (v : Value) :
    rt'.moduleNames? (ρ.value v) = (rt.moduleNames? v).map ρ.place := by
  simp only [Runtime.moduleNames?, h.object?]
  cases rt.heap.object? v with
  | none => rfl
  | some o => cases o <;> rfl

theorem accessOf (h : ρ.Relocated rt rt') (v : Value) :
    rt'.accessOf (ρ.value v) = ((rt.accessOf v).1.map ρ.value, (rt.accessOf v).2) := by
  have id := congrArg TypeInfo.id (h.typeOf v)
  cases v with
  | type type => rfl
  | none | bool | int | float | text | object => exact congrArg (Prod.mk _) id

theorem ownQualname (h : ρ.Relocated rt rt') (f : Function) :
    rt'.ownQualname (ρ.function f) = rt.ownQualname f := by
  have label (v : Value) : rt'.ownerLabel (ρ.value v) = rt.ownerLabel v := by
    have named := h.typeName v
    cases v with
    | type id => simp only [Relocation.value, Runtime.ownerLabel, h.info]; rfl
    | none | bool | int | float | text | object => exact named
  have displayed : rt'.displayReceiver? (ρ.function f) =
      (rt.displayReceiver? f).map ρ.value := by
    simp only [Runtime.displayReceiver?, function_receiver]
    cases f.receiver with
    | none => rfl
    | some v =>
      simp only [Option.map_some, Option.filter_some, h.typeIdOf]
      split <;> rfl
  simp only [Runtime.ownQualname, function_metadata?, displayed]
  cases f.metadata? with
  | some m => rfl
  | none =>
    cases rt.displayReceiver? f with
    | none => rfl
    | some v => simp [label]

theorem wrapper (h : ρ.Relocated rt rt') (callable receiver : Value) :
    rt'.wrapper (ρ.value callable) (ρ.value receiver) =
      (rt.wrapper callable receiver).map ρ.function := by
  simp only [Runtime.wrapper, h.baseFunction?]
  cases rt.baseFunction? callable with
  | none => rfl
  | some f =>
    simp only [Option.map_some, function_owner, function_entry, function_isBound, h.checkSelf]
    have made : (if f.isBound = true then
          (pure (Runtime.genericWrapper (ρ.value callable) (ρ.value receiver)
            (ρ.function f).module) : Except CallError Function)
        else pure (Runtime.directWrapper (ρ.value callable) (ρ.function f) (ρ.value receiver))) =
        (if f.isBound = true then
          (pure (Runtime.genericWrapper callable receiver f.module) : Except CallError Function)
        else pure (Runtime.directWrapper callable f receiver)).map ρ.function := by
      split <;> rfl
    rw [made]
    cases f.owner with
    | none => rfl
    | some owner =>
      dsimp only
      cases rt.checkSelf f.entry owner receiver <;> rfl

theorem bindingReceiver? (h : ρ.Relocated rt rt') (callable : Value) (accessor : Option Value)
    (accessingClass : Option TypeId) :
    rt'.bindingReceiver? (ρ.value callable) (accessor.map ρ.value) accessingClass =
      (rt.bindingReceiver? callable accessor accessingClass).map ρ.value := by
  simp only [Runtime.bindingReceiver?, h.baseFunction?]
  cases rt.baseFunction? callable with
  | none => rfl
  | some f =>
    simp only [Option.map_some, function_isBound, function_entry, function_module,
      Option.isNone_map]
    by_cases hb : f.isBound = true
    · rw [if_pos hb, if_pos hb]
      rfl
    · rw [if_neg hb, if_neg hb]
      by_cases hs : (f.entry.flags.has .static && f.module.isNone) = true
      · rw [if_pos hs, if_pos hs]
        rfl
      · rw [if_neg hs, if_neg hs]
        by_cases hc : f.entry.flags.has .onClass = true
        · rw [if_pos hc, if_pos hc]
          cases accessingClass with
          | some id => rfl
          | none =>
            cases accessor with
            | none => rfl
            | some v => exact congrArg (fun t => some (Value.type t.id)) (h.typeOf v)
        · rw [if_neg hc, if_neg hc]

theorem unboundMethod? (h : ρ.Relocated rt rt') (receiver : Value) (name : String) :
    rt'.unboundMethod? (ρ.value receiver) name =
      (rt.unboundMethod? receiver name).map ρ.value := by
  have hidden : (rt'.ownAttributes? (ρ.value receiver)).any (·.contains name) =
      (rt.ownAttributes? receiver).any (·.contains name) := by
    rw [h.ownAttributes?]
    cases rt.ownAttributes? receiver <;> simp
  have type : (rt'.typeOf (ρ.value receiver)).id = (rt.typeOf receiver).id := by
    rw [h.typeOf]
    rfl
  unfold Runtime.unboundMethod?
  rw [hidden, type, h.lookup]
  cases (rt.ownAttributes? receiver).any (·.contains name) with
  | true => rfl
  | false =>
    cases rt.types.lookup (rt.typeOf receiver).id name with
    | none => rfl
    | some attr =>
      dsimp only [Option.map_some, Option.bind_eq_bind, Option.bind_some]
      rw [h.bindsOnAccess, h.baseFunction?]
      cases rt.bindsOnAccess attr with
      | false => rfl
      | true =>
        cases rt.baseFunction? attr with
        | none => rfl
        | some f =>
          dsimp only [Option.map_some, Option.bind_some]
          rw [function_isBound, function_entry]
          cases f.isBound with
          | true => rfl
          | false =>
            cases f.entry.flags.has .static || f.entry.flags.has .onClass with
            | true => rfl
            | false => cases f.entry.flags.has .passFunction && !f.entry.flags.has .host <;> rfl

theorem checkReceiver (h : ρ.Relocated rt rt') (f : Function) (args : List Value) :
    rt'.checkReceiver (ρ.function f) (args.map ρ.value) = rt.checkReceiver f args := by
  simp only [Runtime.checkReceiver, function_owner, function_receiver, function_entry, h.info]
  cases f.owner with
  | none => rfl
  | some owner =>
    cases f.receiver with
    | some receiver => rfl
    | none =>
      cases args with
      | nil => rfl
      | cons first rest => exact h.checkSelf ..

theorem leadingArgument (callable : Value) (f : Function) (args : List Value) :
    Runtime.leadingArgument (ρ.value callable) (ρ.function f) (args.map ρ.value) =
      (ρ.value (Runtime.leadingArgument callable f args).1,
        (Runtime.leadingArgument callable f args).2.map ρ.value) := by
  simp only [Runtime.leadingArgument, function_entry, function_receiver, function_owner]
  by_cases hp : f.entry.flags.has .passFunction = true
  · rw [if_pos hp, if_pos hp]
  · rw [if_neg hp, if_neg hp]
    cases f.receiver with
    | some receiver => rfl
    | none =>
      cases args with
      | nil => rfl
      | cons first rest =>
        cases f.owner.isSome && !f.entry.flags.has .keepSelf <;> rfl

theorem deliver (h : ρ.Relocated rt rt') (callable : Value) (f : Function) (args : List Value)
    (k : Keywords) :
    rt'.deliver (ρ.value callable) (ρ.function f) (args.map ρ.value) (ρ.keywords k) =
      (rt.deliver callable f args k).map ρ.delivery := by
  simp only [Runtime.deliver, h.checkReceiver, leadingArgument]
  cases rt.checkReceiver f args with
  | error e => rfl
  | ok _ => exact ρ.entry_accept ..

theorem metadata? (h : ρ.Relocated rt rt') (v : Value) :
    (rt'.heap.function? (ρ.value v)).bind Function.metadata? =
      ((rt.heap.function? v).bind Function.metadata?).map ρ.metadata := by
  rw [h.function?]
  cases rt.heap.function? v <;> simp

theorem codeAt (h : ρ.Relocated rt rt') (r : Option Ref) :
    ((r.map ρ.place).bind fun r => rt'.heap.code? (.object r)) =
      (r.bind fun r => rt.heap.code? (.object r)).map ρ.code := by
  cases r with
  | none => rfl
  | some r => exact h.code? (.object r)

theorem hostCall (h : ρ.Relocated rt rt') (lead : Value) (view : ArgsView) :
    rt'.hostCall (ρ.value lead) (ρ.view view) = (rt.hostCall lead view).map ρ.hostCall := by
  have wrapper : (rt'.heap.function? (ρ.value lead)).filter Function.isMethod =
      ((rt.heap.function? lead).filter Function.isMethod).map ρ.function := by
    rw [h.function?]
    cases rt.heap.function? lead with
    | none => rfl
    | some f =>
      simp only [Option.map_some, Option.filter_some, function_isMethod]
      split <;> rfl
  unfold Runtime.hostCall
  simp only [wrapper, view_positional, view_keywords, keywords_byName]
  generalize (rt.heap.function? lead).filter Function.isMethod = outer
  have function : ((outer.map ρ.function).bind Function.wrapped?).getD (ρ.value lead) =
      ρ.value ((outer.bind Function.wrapped?).getD lead) := by
    cases outer with
    | none => rfl
    | some w => cases hw : w.wrapped? <;> simp [hw]
  have positional : ((outer.map ρ.function).bind Function.receiver).toList ++
      view.positional.map ρ.value =
        ((outer.bind Function.receiver).toList ++ view.positional).map ρ.value := by
    cases outer with
    | none => rfl
    | some w => cases hr : w.receiver <;> simp [hr]
  rw [function, positional, h.metadata?]
  cases (rt.heap.function? ((outer.bind Function.wrapped?).getD lead)).bind
      Function.metadata? with
  | none => rfl
  | some m =>
    simp only [Option.map_some, metadata_code, metadata_qualname, metadata_defaults,
      metadata_keywordDefaults, h.codeAt, h.itemsAt, h.entriesAt]
    cases m.code.bind fun r => rt.heap.code? (.object r) with
    | none => rfl
    | some c =>
      have bound := c.parameters.bind_map ρ.value m.qualname.content
        ⟨rt.heap.itemsAt m.defaults, rt.heap.entriesAt m.keywordDefaults⟩
        ((outer.bind Function.receiver).toList ++ view.positional) view.keywords.byName
      simp only [Option.map_some, code_parameters]
      rw [Defaults.map] at bound
      simp only [bound]
      cases c.parameters.bind m.qualname.content
          ⟨rt.heap.itemsAt m.defaults, rt.heap.entriesAt m.keywordDefaults⟩
          ((outer.bind Function.receiver).toList ++ view.positional) view.keywords.byName with
      | error e => rfl
      | ok bound =>
        have snapshot : [m.code.map ρ.place, m.keywordDefaults.map ρ.place,
            m.defaults.map ρ.place].filterMap (·.map Value.object) =
            ([m.code, m.keywordDefaults, m.defaults].filterMap (·.map Value.object)).map
              ρ.value := by
          cases m.code <;> cases m.keywordDefaults <;> cases m.defaults <;> rfl
        simp only [Functor.map, Except.map, Relocation.hostCall, snapshot]

end Relocated

end Relocation
end Callables
