import Callables.Proofs.Readings
import Callables.Proofs.Relocation

namespace Callables

namespace Relocation

variable (ρ : Relocation)

def reading : Reading → Reading
  | .failure cause => .failure cause
  | .value v => .value (ρ.value v)
  | .text content => .text content
  | .wrapper w => .wrapper (ρ.function w)
  | .dict r field => .dict (ρ.place r) field

def assignment : Assignment → Assignment
  | .failure cause => .failure cause
  | .object r new => .object (ρ.place r) (ρ.object new)
  | .entry place => .entry (ρ.place place)
  | .dict r => .dict (ρ.place r)
  | .type id => .type id

theorem metadata_at? (m : Metadata) (field : MetadataField) :
    (ρ.metadata m).at? field = (m.at? field).map ρ.value := by
  have place (r : Option Ref) :
      (r.map ρ.place).map Value.object = (r.map Value.object).map ρ.value := by
    cases r <;> rfl
  cases field with
  | name | qualname | doc | module => rfl
  | code | defaults | keywordDefaults | annotations | attributes => exact place _

theorem function_withMetadata (f : Function) (m : Metadata) :
    ρ.function (f.withMetadata m) = (ρ.function f).withMetadata (ρ.metadata m) := by
  obtain ⟨_, _, _, _, _, kind⟩ := f
  cases kind <;> rfl

theorem metadata_withDict (m : Metadata) (field : MetadataField) (dict : Ref) :
    ρ.metadata (m.withDict field dict) = (ρ.metadata m).withDict field (ρ.place dict) := by
  cases field <;> rfl

theorem function_fieldReading (f : Function) (r : Ref) (m : Metadata) (field : MetadataField) :
    (ρ.function f).fieldReading (ρ.place r) (ρ.metadata m) field =
      ρ.reading (f.fieldReading r m field) := by
  unfold Function.fieldReading
  rw [ρ.metadata_at?]
  cases m.at? field with
  | some v => rfl
  | none =>
    cases field with
    | module => exact congrArg Reading.value (ρ.value_getD f.module).symm
    | name | qualname | doc | code | defaults | keywordDefaults | annotations | attributes => rfl

namespace Relocated

variable {ρ : Relocation} {rt rt' : Runtime}

section Readings

theorem ownReading (h : ρ.Relocated rt rt') (r : Ref) (m : Metadata) (name : String) :
    rt'.ownReading (ρ.place r) (ρ.metadata m) name = ρ.reading (rt.ownReading r m name) := by
  have missing : rt'.noAttribute (.object (ρ.place r)) name =
      rt.noAttribute (.object r) name := h.noAttribute (.object r) name
  have entries : rt'.heap.entriesAt (ρ.metadata m).attributes =
      (rt.heap.entriesAt m.attributes).map ρ.value := h.entriesAt m.attributes
  unfold Runtime.ownReading
  rw [entries, missing, Dict.get?_map]
  cases (rt.heap.entriesAt m.attributes).get? name <;> rfl

theorem ownerReading (h : ρ.Relocated rt rt') (v : Value) (f : Function) (name : String) :
    rt'.ownerReading (ρ.value v) (ρ.function f) name = ρ.reading (rt.ownerReading v f name) := by
  unfold Runtime.ownerReading
  rw [function_owner, h.noAttribute]
  cases f.owner <;> rfl

theorem metadataReading (h : ρ.Relocated rt rt') (r : Ref) (f : Function) (m : Metadata)
    (name : String) :
    rt'.metadataReading (ρ.place r) (ρ.function f) (ρ.metadata m) name =
      ρ.reading (rt.metadataReading r f m name) := by
  have own := h.ownReading r m name
  have owner := h.ownerReading (.object r) f name
  unfold Runtime.metadataReading
  rw [function_isHost, function_receiver]
  cases SpecialAttribute.named? name with
  | none => exact own
  | some special =>
    dsimp only
    cases special.field? with
    | some field =>
      dsimp only
      split
      · exact own
      · exact ρ.function_fieldReading f r m field
    | none =>
      cases special with
      | owner => exact owner
      | receiver =>
        cases f.isHost with
        | true => exact own
        | false => exact congrArg Reading.value (ρ.value_getD f.receiver).symm
      | globals =>
        cases f.isHost with
        | true => rfl
        | false => exact own
      | closure =>
        cases f.isHost with
        | true => exact congrArg Reading.value (ρ.value_valueOf m.closure).symm
        | false => exact own
      | name | qualname | doc | module | wrapped | attributes | code | defaults | keywordDefaults
      | annotations => exact own

theorem bareReading (h : ρ.Relocated rt rt') (r : Ref) (f : Function) (name : String) :
    rt'.bareReading (ρ.place r) (ρ.function f) name = ρ.reading (rt.bareReading r f name) := by
  have missing : rt'.noAttribute (.object (ρ.place r)) name =
      rt.noAttribute (.object r) name := h.noAttribute (.object r) name
  have owner := h.ownerReading (.object r) f name
  unfold Runtime.bareReading
  rw [missing, function_entry, function_module, function_receiver, h.ownQualname]
  cases SpecialAttribute.named? name with
  | none => rfl
  | some special =>
    cases special with
    | owner => exact owner
    | doc => cases f.entry.doc <;> rfl
    | module => exact congrArg Reading.value (ρ.value_getD f.module).symm
    | receiver => exact congrArg Reading.value (ρ.value_getD f.receiver).symm
    | name | qualname | wrapped | attributes | code | defaults | keywordDefaults | annotations
    | globals | closure => rfl

theorem functionReading (h : ρ.Relocated rt rt') (r : Ref) (f : Function) (name : String) :
    rt'.functionReading (ρ.place r) (ρ.function f) name =
      ρ.reading (rt.functionReading r f name) := by
  unfold Runtime.functionReading
  rw [function_metadata?]
  cases f.metadata? with
  | some m => exact h.metadataReading r f m name
  | none => exact h.bareReading r f name

theorem bindingReading (h : ρ.Relocated rt rt') (callable : Value) (accessor : Option Value)
    (accessingClass : Option TypeId) :
    rt'.bindingReading (ρ.value callable) (accessor.map ρ.value) accessingClass =
      ρ.reading (rt.bindingReading callable accessor accessingClass) := by
  unfold Runtime.bindingReading
  rw [h.bindingReceiver?]
  cases rt.bindingReceiver? callable accessor accessingClass with
  | none => rfl
  | some receiver =>
    dsimp only [Option.map_some]
    rw [h.wrapper]
    cases rt.wrapper callable receiver <;> rfl

theorem classReading (h : ρ.Relocated rt rt') (v : Value) (name : String) :
    rt'.classReading (ρ.value v) name = ρ.reading (rt.classReading v name) := by
  unfold Runtime.classReading
  rw [h.accessOf, h.lookup, h.noAttribute]
  cases rt.types.lookup (rt.accessOf v).2 name with
  | none => rfl
  | some attr =>
    dsimp only [Option.map_some]
    rw [h.bindsOnAccess]
    split
    · exact h.bindingReading _ _ _
    · rfl

theorem objectReading (h : ρ.Relocated rt rt') (v : Value) (name : String) :
    rt'.objectReading (ρ.value v) name = ρ.reading (rt.objectReading v name) := by
  unfold Runtime.objectReading
  rw [h.moduleNames?, h.ownAttributes?, h.noAttribute]
  cases rt.moduleNames? v with
  | some names =>
    have entries : rt'.heap.entriesAt (some (ρ.place names)) =
        (rt.heap.entriesAt (some names)).map ρ.value := h.entriesAt (some names)
    dsimp only [Option.map_some]
    rw [entries, Dict.get?_map]
    cases (rt.heap.entriesAt (some names)).get? name <;> rfl
  | none =>
    have own : ((rt.ownAttributes? v).map (Dict.map ρ.value)).bind (·.get? name) =
        ((rt.ownAttributes? v).bind (·.get? name)).map ρ.value := by
      cases rt.ownAttributes? v <;> simp
    dsimp only [Option.map_none]
    rw [own]
    cases (rt.ownAttributes? v).bind (·.get? name) with
    | none => exact h.classReading v name
    | some value => rfl

theorem directReading (h : ρ.Relocated rt rt') (v : Value) (name : String) :
    rt'.directReading (ρ.value v) name = ρ.reading (rt.directReading v name) := by
  have object := h.objectReading v name
  unfold Runtime.directReading
  rw [h.baseFunction?]
  cases v with
  | object r =>
    cases rt.baseFunction? (.object r) with
    | none => exact object
    | some f => exact h.functionReading r f name
  | none | bool | int | float | text | type => exact object

/-- What a read comes to goes along with the objects. -/
theorem reading (h : ρ.Relocated rt rt') (v : Value) (name : String) :
    rt'.reading (ρ.value v) name = ρ.reading (rt.reading v name) := by
  have direct := h.directReading v name
  have inner := h.directReading (rt.heap.innermost v) name
  unfold Runtime.reading
  rw [h.baseFunction?, h.innermost]
  cases rt.baseFunction? v with
  | none => exact direct
  | some f =>
    dsimp only [Option.map_some]
    rw [function_wrapped?, function_receiver]
    cases f.wrapped? with
    | none => exact direct
    | some wrapped =>
      dsimp only [Option.map_some]
      cases SpecialAttribute.named? name with
      | none => exact inner
      | some special =>
        cases special with
        | receiver => exact congrArg Reading.value (ρ.value_getD f.receiver).symm
        | wrapped => rfl
        | owner => exact h.ownerReading v f name
        | name | qualname | doc | module | attributes | code | defaults | keywordDefaults
        | annotations | globals | closure => exact inner

end Readings

section Assignments

variable {m : Metadata} {field : MetadataField} {value : Value}

theorem cells (h : ρ.Relocated rt rt') (m : Metadata) :
    (rt'.heap.itemsAt (ρ.metadata m).closure).length = (rt.heap.itemsAt m.closure).length := by
  have items : rt'.heap.itemsAt (ρ.metadata m).closure =
      (rt.heap.itemsAt m.closure).map ρ.value := h.itemsAt m.closure
  rw [items, List.length_map]

theorem fits (h : ρ.Relocated rt rt') (m : Metadata) (value : Value) (field : MetadataField) :
    field.fits rt'.heap (ρ.metadata m) (ρ.value value) = field.fits rt.heap m value := by
  have absent : (ρ.value value).isNone = value.isNone := by cases value <;> rfl
  cases field with
  | name | qualname => simp [MetadataField.fits]
  | doc | module => rfl
  | code =>
    simp only [MetadataField.fits, h.code?, h.cells]
    cases rt.heap.code? value <;> rfl
  | defaults => simp [MetadataField.fits, absent, h.tuple?]
  | keywordDefaults | annotations => simp [MetadataField.fits, absent, h.dict?]
  | attributes => simp [MetadataField.fits, h.dict?]

theorem fault (h : ρ.Relocated rt rt') (m : Metadata) (name : String) (value : Value)
    (field : MetadataField) :
    field.fault rt'.heap (ρ.metadata m) name (ρ.value value) =
      field.fault rt.heap m name value := by
  cases field with
  | code =>
    simp only [MetadataField.fault, h.code?, h.cells]
    cases rt.heap.code? value <;> rfl
  | name | qualname | doc | module | defaults | keywordDefaults | annotations | attributes => rfl

theorem set? (h : ρ.Relocated rt rt') (m : Metadata) (field : MetadataField) (value : Value) :
    (ρ.metadata m).set? rt'.heap field (ρ.value value) =
      (m.set? rt.heap field value).map ρ.metadata := by
  have place (seen : Bool) : (if seen then (ρ.value value).asObject? else none) =
      (if seen then value.asObject? else none).map ρ.place := by
    cases seen with
    | false => rfl
    | true => cases value <;> rfl
  cases field with
  | name | qualname =>
    simp only [Metadata.set?, value_asText?]
    cases value.asText? <;> rfl
  | doc | module => rfl
  | code =>
    simp only [Metadata.set?, h.code?, Option.isSome_map, place]
    cases if (rt.heap.code? value).isSome then value.asObject? else none <;> rfl
  | attributes =>
    simp only [Metadata.set?, h.dict?, Option.isSome_map, place]
    cases if (rt.heap.dict? value).isSome then value.asObject? else none <;> rfl
  | defaults =>
    simp only [Metadata.set?, h.tuple?, Option.isSome_map, place]
    rfl
  | keywordDefaults | annotations =>
    simp only [Metadata.set?, h.dict?, Option.isSome_map, place]
    rfl

theorem assign (h : ρ.Relocated rt rt') (f : Function) (m : Metadata) (special : SpecialAttribute)
    (name : String) (value : Value) :
    (ρ.function f).assign rt'.heap (ρ.metadata m) special name (ρ.value value) =
      (f.assign rt.heap m special name value).map ρ.metadata := by
  unfold Function.assign
  cases special.field? with
  | none => rfl
  | some field =>
    dsimp only
    rw [function_isHost, h.fits, h.set?, h.fault]
    split
    · rfl
    · cases field.fits rt.heap m value with
      | false => rfl
      | true => cases m.set? rt.heap field value <;> rfl

theorem functionAssignment (h : ρ.Relocated rt rt') (r : Ref) (f : Function) (name : String)
    (value : Value) :
    rt'.functionAssignment (ρ.place r) (ρ.function f) name (ρ.value value) =
      ρ.assignment (rt.functionAssignment r f name value) := by
  have missing : rt'.noAttribute (.object (ρ.place r)) name =
      rt.noAttribute (.object r) name := h.noAttribute (.object r) name
  unfold Runtime.functionAssignment
  rw [missing, function_metadata?]
  cases SpecialAttribute.named? name with
  | none =>
    cases f.metadata? with
    | none => rfl
    | some m =>
      obtain ⟨_, _, _, _, _, _, _, _, attributes, _, _⟩ := m
      cases attributes <;> rfl
  | some special =>
    cases f.metadata? with
    | none => cases special <;> rfl
    | some m =>
      dsimp only [Option.map_some]
      unfold Runtime.specialAssignment
      rw [h.assign]
      cases f.assign rt.heap m special name value with
      | error cause => rfl
      | ok m' =>
        exact congrArg (Assignment.object (ρ.place r) <| Object.function ·)
          (ρ.function_withMetadata f m').symm

/-- What an assignment comes to goes along with the objects. -/
theorem assignment (h : ρ.Relocated rt rt') (v : Value) (name : String) (value : Value) :
    rt'.assignment (ρ.value v) name (ρ.value value) =
      ρ.assignment (rt.assignment v name value) := by
  unfold Runtime.assignment
  rw [h.baseFunction?, h.noAttribute]
  cases v with
  | object r =>
    cases rt.baseFunction? (.object r) with
    | some f => exact h.functionAssignment r f name value
    | none =>
      dsimp only [Option.map_none, Relocation.value]
      rw [h.heap]
      cases rt.heap.get? r with
      | none => rfl
      | some o =>
        cases o with
        | ofClass type attributes =>
          exact congrArg (Assignment.object (ρ.place r) <| Object.ofClass type ·)
            (Dict.set_map ρ.value attributes name value)
        | tuple | dict | module | code | closure | function => rfl
  | type id =>
    have label : (rt'.types.info id).name = (rt.types.info id).name := by
      rw [h.info]
      rfl
    cases rt.baseFunction? (.type id) <;>
    · dsimp only [Option.map_none, Option.map_some, Relocation.value]
      rw [h.hasFlag, label]
      split <;> rfl
  | none | bool | int | float | text => rfl

end Assignments

end Relocated
end Relocation
end Callables
