import Callables.Proofs.Formation
import Callables.Proofs.Releases

namespace Callables

namespace Metadata

/-- The fields of metadata that refer to values. -/
inductive Holds (m : Metadata) : Value → Prop
  | doc : m.Holds m.doc
  | module {v} (here : m.module = some v) : m.Holds v
  | code {r} (here : m.code = some r) : m.Holds (.object r)
  | defaults {r} (here : m.defaults = some r) : m.Holds (.object r)
  | keywordDefaults {r} (here : m.keywordDefaults = some r) : m.Holds (.object r)
  | annotations {r} (here : m.annotations = some r) : m.Holds (.object r)
  | attributes {r} (here : m.attributes = some r) : m.Holds (.object r)
  | globals : m.Holds m.globals
  | closure {r} (here : m.closure = some r) : m.Holds (.object r)

theorem holds_iff {m : Metadata} {v : Value} : m.Holds v ↔ v ∈ m.references := by
  simp only [references, List.mem_append, List.mem_cons, List.mem_filterMap, Option.mem_toList,
    Option.map_eq_some_iff, List.not_mem_nil, or_false, exists_eq_or_imp, exists_eq_left]
  constructor
  · intro held
    cases held <;> simp_all
  · intro referred
    rcases referred with ((rfl | here) | ⟨_, here, rfl⟩ | ⟨_, here, rfl⟩ | ⟨_, here, rfl⟩ |
      ⟨_, here, rfl⟩ | ⟨_, here, rfl⟩) | rfl | ⟨_, here, rfl⟩
    · exact .doc
    · exact .module here
    · exact .code here
    · exact .defaults here
    · exact .keywordDefaults here
    · exact .annotations here
    · exact .attributes here
    · exact .globals
    · exact .closure here

end Metadata

namespace Object

/-- What an object refers to: items, entries or attributes, the names of a module, the constants of
code; of a callable receiver, module, metadata and, if it is a wrapper, what it wraps. -/
inductive Holds : Object → Value → Prop
  | item {items v} (here : v ∈ items) : Holds (.tuple items) v
  | entry {entries v} (here : v ∈ entries.values) : Holds (.dict entries) v
  | names {name names} : Holds (.module name names) (.object names)
  | constant {c v} (here : v ∈ c.body.constants) : Holds (.code c) v
  | attribute {type attributes v} (here : v ∈ attributes.values) :
    Holds (.ofClass type attributes) v
  | receiver {f v} (here : f.receiver = some v) : Holds (.function f) v
  | module {f v} (here : f.module = some v) : Holds (.function f) v
  | metadata {f m v} (here : f.metadata? = some m) (held : m.Holds v) : Holds (.function f) v
  | wrapped {f v} (here : f.wrapped? = some v) : Holds (.function f) v

theorem holds_function_iff {f : Function} {v : Value} :
    (Object.function f).Holds v ↔ v ∈ (Object.function f).references := by
  obtain ⟨entry, receiver, module, owner, watchers, kind⟩ := f
  simp only [references, Function.commonReferences, List.mem_append, Option.mem_toList]
  constructor
  · intro held
    cases held with
    | receiver here => exact .inl (.inl here)
    | module here => exact .inl (.inr here)
    | metadata here held =>
      rw [Function.ownReferences_of_metadata here]
      exact .inr (Metadata.holds_iff.mp held)
    | wrapped here =>
      rw [Function.ownReferences_of_wrapped here]
      exact .inr (List.mem_singleton.mpr rfl)
  · intro referred
    rcases referred with (here | here) | own
    · exact .receiver here
    · exact .module here
    · cases kind with
      | builtin => cases own
      | defined m | native m => exact .metadata rfl (Metadata.holds_iff.mpr own)
      | method wrapped => exact .wrapped (congrArg some (List.mem_singleton.mp own).symm)

theorem holds_iff {o : Object} {v : Value} : o.Holds v ↔ v ∈ o.references := by
  cases o with
  | function f => exact holds_function_iff
  | tuple items => exact ⟨fun | .item here => here, .item⟩
  | dict entries => exact ⟨fun | .entry here => here, .entry⟩
  | code c => exact ⟨fun | .constant here => here, .constant⟩
  | ofClass type attributes => exact ⟨fun | .attribute here => here, .attribute⟩
  | module name names =>
    exact ⟨fun | .names => List.mem_singleton.mpr rfl,
      fun here => List.mem_singleton.mp here ▸ .names⟩
  | closure c =>
    refine iff_of_false (fun held => ?_) List.not_mem_nil
    cases held

end Object

namespace Registry

variable {α : Type}

def Distinct (r : Registry α) : Prop := (r.entries.map Prod.fst).Nodup

theorem Distinct.modify {r : Registry α} (h : r.Distinct) (id : TypeId) (f : α → α) :
    (r.modify id f).Distinct := by
  have same : (r.modify id f).entries.map Prod.fst = r.entries.map Prod.fst := by
    simp only [Registry.modify, List.map_map]
    refine List.map_congr_left fun e _ => ?_
    simp only [Function.comp_apply]
    split <;> rfl
  unfold Distinct
  rw [same]
  exact h

theorem Distinct.register {r : Registry α} (h : r.Distinct) (id : TypeId) (a : α) :
    (r.register id a).Distinct := by
  unfold Registry.register
  split
  · exact h.modify id _
  · rename_i absent
    have fresh : id ∉ r.entries.map Prod.fst := by simpa [contains] using absent
    have moved := (List.perm_append_singleton id (r.entries.map Prod.fst)).nodup_iff
    simpa [Distinct] using moved.mpr (List.nodup_cons.mpr ⟨fresh, h⟩)

theorem Distinct.get?_of_mem {r : Registry α} (h : r.Distinct) {id : TypeId} {a : α}
    (known : (id, a) ∈ r.entries) : r.get? id = some a := by
  obtain ⟨entries, next⟩ := r
  unfold get?
  induction entries with
  | nil => cases known
  | cons e rest ih =>
    obtain ⟨apart, distinct⟩ := List.nodup_cons.mp h
    rw [List.find?_cons]
    rcases List.mem_cons.mp known with rfl | later
    · simp
    · have other : e.1 ≠ id := fun same => apart (List.mem_map.mpr ⟨(id, a), later, same.symm⟩)
      rw [beq_false_of_ne other]
      exact ih distinct later

end Registry

namespace Runtime

theorem Step.distinct {rt rt' : Runtime} (step : rt.Step rt') (h : rt.types.Distinct) :
    rt'.types.Distinct := by
  cases step with
  | change change =>
    cases change with
    | quiet _ types | allocate _ _ _ types | replace _ _ _ _ _ _ _ types => exact types ▸ h
    | setAttribute id _ _ _ types | eraseAttribute id _ _ types =>
      exact types ▸ h.modify id _
    | addFlags id _ _ types => exact Types.addFlags_eq types ▸ h.modify id _
  | create name _ _ _ types =>
    obtain ⟨bases, ancestors, -, -, -, same⟩ := Types.create_cases types
    have allocated : Registry.Distinct { rt.types with nextId := rt.types.nextId.next } := h
    exact same ▸ allocated.register _ _
  | release _ _ _ types => exact types ▸ h

end Runtime

namespace Session

variable {s : Session}

theorem Reachable.distinct (h : s.Reachable) : s.runtime.types.Distinct := by
  induction h with
  | start config entries =>
    have builtin : Types.initial.Distinct := by
      unfold Registry.Distinct
      decide
    exact builtin
  | step before operation room label ih =>
    have steps := (before.sound.step operation room label).2
    generalize (Session.step _ operation label).2.runtime = rt at steps
    induction steps with
    | refl => exact ih
    | tail _ step ih => exact step.distinct ih

/-- Something refers to a value: a name of the program, an attribute of a type, or an object. -/
inductive Refers (s : Session) (v : Value) : Prop
  | name (here : v ∈ s.kept.values)
  | typeAttribute {id info} (known : s.runtime.types.get? id = some info)
      (here : v ∈ info.attributes.values)
  | object {place o} (found : s.runtime.heap.get? place = some o) (held : o.Holds v)

theorem Sound.knows (sound : s.Sound) {v : Value} (refers : s.Refers v) : s.runtime.Knows v := by
  cases refers with
  | name here => exact sound.kept v here
  | typeAttribute known here => exact sound.runtime.attributes known v here
  | object found held =>
    exact (sound.runtime.live found).references v (Object.holds_iff.mp held)

theorem refers_of_get?_settle {before : Session}
    (distinct : (s.settle before).runtime.types.Distinct) {r : Ref} {o : Object}
    (found : (s.settle before).runtime.heap.get? r = some o) :
    (s.settle before).Refers (.object r) := by
  rcases Heap.referred_of_get?_sweep found with root | ⟨place, holder, there, here⟩
  · rcases List.mem_append.mp root with kept | own
    · exact .name kept
    · obtain ⟨⟨id, info⟩, known, here⟩ := List.mem_flatMap.mp own
      exact .typeAttribute (distinct.get?_of_mem known) here
  · exact .object there (Object.holds_iff.mpr here)

/-- Between steps the heap is made up of all that something refers to. -/
theorem Reachable.live_iff (h : s.Reachable) (r : Ref) :
    (∃ o, s.runtime.heap.get? r = some o) ↔ s.Refers (.object r) := by
  constructor
  · intro live
    induction h with
    | start config entries =>
      obtain ⟨o, found⟩ := live
      exact absurd found (by simp [Session.start, Runtime.start, Heap.get?, Heap.empty])
    | @step s before operation room label ih =>
      have distinct := (before.step operation room label).distinct
      rcases s.step_cases operation label with ⟨-, same⟩ | ⟨after, -, -, settled⟩
      · rw [same] at live ⊢
        exact ih live
      · rw [settled] at live distinct ⊢
        obtain ⟨o, found⟩ := live
        exact refers_of_get?_settle distinct found
  · exact fun refers => h.sound.knows refers

end Session
end Callables
