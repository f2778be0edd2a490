import Callables.Proofs.Formation
import Callables.Proofs.Tables

namespace Callables

inductive Target
  | type (id : TypeId)
  | module (module : Value)

namespace Target

open Activity

def register : Target → List Entry → Activity Nat
  | type id, table => addTableToType id table
  | module m, table => addTableToModule m table

def names? (rt : Runtime) : Target → Option (Dict Value)
  | type id => (rt.types.get? id).map TypeInfo.attributes
  | module m => (rt.moduleNames? m).bind fun names => rt.heap.dict? (.object names)

def isModule : Target → Bool
  | type _ => false
  | module _ => true

def receiver? : Target → Option Value
  | type _ => none
  | module m => some m

def owner? : Target → Option TypeId
  | type id => some id
  | module _ => none

def module? (rt : Runtime) : Target → Option Value
  | type _ => none
  | module m =>
    match rt.heap.object? m with
    | some (.module name _) => some (.text name)
    | _ => none

def callable (rt : Runtime) (target : Target) (e : Entry) (metadata : Metadata) : Function where
  entry := e
  receiver := if e.flags.has .static then none else target.receiver?
  module := target.module? rt
  owner := if e.flags.has .static then none else target.owner?
  watchers := []
  kind := .native metadata

def Made (rt rt' : Runtime) (target : Target) (e : Entry) (v : Value) : Prop :=
  ∃ r metadata, v = .object r ∧ rt.heap.size ≤ r ∧ metadata.name.content = e.name ∧
    rt'.heap.get? r = some (.function (target.callable rt e metadata))

/-- Why an entry may not stand in a table. -/
inductive Objects (config : Config) : Target → Entry → CallError → Prop
  | onClass {m : Value} {e : Entry} (bindsToClass : e.flags.has .onClass = true) :
      Objects config (.module m) e
        (.invalidEntry e.name "CLASS is not valid for module-level functions")
  | flags {target : Target} {e : Entry} {cause : CallError} (checked : config.checkFlags = true)
      (bindable : target.isModule = true → e.flags.has .onClass = false)
      (invalid : e.validate = .error cause) : Objects config target e cause

/-- The entries that are not skipped, as far as the first to which there is an objection. -/
def FirstObjection (config : Config) (target : Target) (table : List Entry) (cause : CallError) :
    Prop :=
  ∃ before e rest, table.filter (!Table.isSkipped ·) = before ++ e :: rest ∧
    (∀ x ∈ before, ∀ cause', ¬ Objects config target x cause') ∧ Objects config target e cause

end Target

namespace Table

variable {config : Config} {target : Target}

theorem check_eq (onModule : Bool) (e : Entry) :
    check config onModule e =
      if onModule && e.flags.has .onClass then
        .error (.invalidEntry e.name "CLASS is not valid for module-level functions")
      else if config.checkFlags then e.validate.map fun _ => () else .ok () := by
  unfold check
  cases onModule && e.flags.has .onClass with
  | true => rfl
  | false =>
    cases config.checkFlags with
    | true => cases e.validate <;> rfl
    | false => rfl

/-- The check of an entry finds just the objections to it. -/
theorem check_eq_error_iff {e : Entry} {cause : CallError} :
    check config target.isModule e = .error cause ↔ target.Objects config e cause := by
  rw [check_eq]
  constructor
  · intro h
    split at h
    · rename_i bindsToClass
      obtain ⟨isModule, bindsToClass⟩ := Bool.and_eq_true_iff.mp bindsToClass
      cases target with
      | type id => cases isModule
      | module m =>
        cases h
        exact .onClass bindsToClass
    · rename_i bindable
      split at h
      · rename_i checked
        cases hv : e.validate with
        | ok c => simp [hv, Except.map] at h
        | error cause' =>
          obtain rfl : cause' = cause := by simpa [hv, Except.map] using h
          exact .flags checked (by simpa using bindable) hv
      · cases h
  · intro objects
    cases objects with
    | onClass bindsToClass => simp [Target.isModule, bindsToClass]
    | flags checked bindable invalid =>
      rw [if_neg (by simpa using bindable), if_pos checked, invalid]
      rfl

theorem forM_cases (config : Config) (target : Target) (entries : List Entry) :
    match entries.forM (check config target.isModule) with
    | .error cause => ∃ before e rest, entries = before ++ e :: rest ∧
        (∀ x ∈ before, ∀ cause', ¬ target.Objects config x cause') ∧
        target.Objects config e cause
    | .ok _ => ∀ e ∈ entries, ∀ cause, ¬ target.Objects config e cause := by
  induction entries with
  | nil => simp [pure, Except.pure]
  | cons e rest ih =>
    have head : (e :: rest).forM (check config target.isModule) =
        check config target.isModule e >>= fun _ => rest.forM (check config target.isModule) := rfl
    rw [head]
    cases hc : check config target.isModule e with
    | error cause => exact ⟨[], e, rest, rfl, by simp, check_eq_error_iff.mp hc⟩
    | ok u =>
      have passes (cause : CallError) : ¬ target.Objects config e cause := by
        rw [← check_eq_error_iff, hc]
        simp
      change match rest.forM (check config target.isModule) with
        | .error cause => _
        | .ok _ => _
      cases hr : rest.forM (check config target.isModule) with
      | error cause =>
        rw [hr] at ih
        obtain ⟨before, found, after, rfl, passed, objects⟩ := ih
        refine ⟨e :: before, found, after, rfl, ?_, objects⟩
        intro x hx
        rcases List.mem_cons.mp hx with rfl | hx
        · exact passes
        · exact passed x hx
      | ok u' =>
        rw [hr] at ih
        intro x hx
        rcases List.mem_cons.mp hx with rfl | hx
        · exact passes
        · exact ih x hx

end Table

/-- What registering leaves as it is: the settings, and all objects but dicts. -/
structure Runtime.Retains (rt rt' : Runtime) : Prop where
  config : rt'.config = rt.config
  size : rt.heap.size ≤ rt'.heap.size
  kept : ∀ {r o}, rt.heap.get? r = some o → o.dict? = none → rt'.heap.get? r = some o

namespace Runtime.Retains

theorem refl (rt : Runtime) : rt.Retains rt := ⟨rfl, Nat.le_refl _, fun ho _ => ho⟩

theorem trans {a b c : Runtime} (h : a.Retains b) (h' : b.Retains c) : a.Retains c :=
  ⟨h'.config.trans h.config, Nat.le_trans h.size h'.size,
    fun ho hd => h'.kept (h.kept ho hd) hd⟩

end Runtime.Retains

namespace Activity

variable (rt : Runtime)

/-- A native function is made at the next place, and nothing else happens. -/
theorem run_newNativeFunction (e : Entry) (receiver module : Option Value)
    (owner : Option TypeId) :
    ∃ metadata rt', (newNativeFunction e receiver module owner).run rt =
        (.ok (.object rt.heap.nextRef), rt') ∧ metadata.name.content = e.name ∧
      rt'.config = rt.config ∧ rt'.types = rt.types ∧ rt'.heap = rt.heap.push (.function
        { entry := e, receiver, module, owner, watchers := [], kind := .native metadata }) := by
  have made (qualname : Option String) :
      ∃ metadata rt', (do
          let name ← text e.name
          let qualname ← textOr qualname name
          let doc ← optionalText e.doc
          let metadata : Metadata := {
            name, qualname, doc
            module := none, code := none, defaults := none, keywordDefaults := none
            annotations := none, attributes := none, globals := .none, closure := none }
          allocate (.function {
            entry := e, receiver, module, owner, watchers := [],
            kind := .native metadata }) : Activity Value).run rt =
        (.ok (.object rt.heap.nextRef), rt') ∧ metadata.name.content = e.name ∧
      rt'.config = rt.config ∧ rt'.types = rt.types ∧ rt'.heap = rt.heap.push (.function
        { entry := e, receiver, module, owner, watchers := [], kind := .native metadata }) := by
    cases qualname <;> cases e.doc <;> exact ⟨_, _, rfl, rfl, rfl, rfl, rfl⟩
  exact made (rt.nativeQualname? e.name receiver owner)

end Activity

namespace Target

open Activity

variable {rt rt₀ : Runtime} {target : Target} {names : Dict Value}

def add (rt₀ : Runtime) : Target → Nat → Entry → Activity Nat
  | type id, added, e => addToType id added e
  | module m, added, e =>
    match rt₀.heap.object? m with
    | some (.module name dict) => addToModule m name dict added e
    | _ => pure added

theorem module_of_names? {m : Value} (h : (module m).names? rt = some names) :
    ∃ name dict, rt.heap.object? m = some (.module name dict) ∧
      rt.heap.get? dict = some (.dict names) := by
  obtain ⟨dict, hm, hd⟩ := Option.bind_eq_some_iff.mp h
  obtain ⟨o, ho, hn⟩ := Option.bind_eq_some_iff.mp hd
  obtain rfl := Object.dict?_eq_some.mp hn
  unfold Runtime.moduleNames? at hm
  split at hm
  · rename_i name dict' found
    obtain rfl := Option.some.inj hm
    exact ⟨name, dict', found, ho⟩
  · cases hm

theorem names?_of_module {m : Value} {name : Text} {dict : Ref}
    (found : rt.heap.object? m = some (.module name dict))
    (entries : rt.heap.get? dict = some (.dict names)) : (module m).names? rt = some names := by
  have hm : rt.moduleNames? m = some dict := by simp [Runtime.moduleNames?, found]
  have hd : rt.heap.dict? (.object dict) = some names := by
    simp [Heap.dict?, Heap.object?, entries, Object.dict?]
  simp [names?, hm, hd]

theorem object?_of_retains {v : Value} {o : Object} (retains : rt₀.Retains rt)
    (found : rt₀.heap.object? v = some o) (plain : o.dict? = none) :
    rt.heap.object? v = some o := by
  cases v with
  | object r => exact retains.kept found plain
  | _ => cases found

/-- A table is refused as a whole, or its entries are registered one after the other. -/
theorem run_register (found : target.names? rt = some names) (table : List Entry) :
    (target.register table).run rt =
      match Table.validate rt.config target.isModule table with
      | .error cause => (.error cause, rt)
      | .ok _ => (table.foldlM (target.add rt) 0).run rt := by
  have validated (onModule : Bool) (rest : Activity Nat) :
      (ofExcept (Table.validate rt.config onModule table) >>= fun _ => rest).run rt =
        match Table.validate rt.config onModule table with
        | .error cause => (.error cause, rt)
        | .ok _ => rest.run rt := by
    cases Table.validate rt.config onModule table <;> rfl
  cases target with
  | type id => exact validated false _
  | module m =>
    obtain ⟨name, dict, hm, -⟩ := module_of_names? found
    have run : (register (module m) table).run rt =
        (ofExcept (Table.validate rt.config true table) >>= fun _ =>
          table.foldlM (addToModule m name dict) 0).run rt := by
      simp only [register, addTableToModule, run_get, hm]
    rw [run, validated]
    have same : add rt (module m) = addToModule m name dict := by
      funext added e
      simp [add, hm]
    rw [same]
    rfl

def put (rt₀ : Runtime) : Target → Entry → Value → Activity Unit
  | type id, e, callable => setTypeAttribute id e.name callable
  | module m, e, callable =>
    match rt₀.heap.object? m with
    | some (.module _ dict) => setInDict dict e.name callable
    | _ => pure ()

/-- An entry that is skipped, or in whose way another one is, is passed over. -/
theorem run_add (before : (target.names? rt₀).isSome = true) (retains : rt₀.Retains rt)
    (found : target.names? rt = some names) (added : Nat) (e : Entry) :
    (target.add rt₀ added e).run rt =
      if !Table.isSkipped e && (Table.replaces e || !names.contains e.name) then
        (newNativeFunction e (if e.flags.has .static then none else target.receiver?)
          (target.module? rt₀) (if e.flags.has .static then none else target.owner?) >>=
            fun callable => target.put rt₀ e callable >>= fun _ => pure (added + 1)).run rt
      else (.ok added, rt) := by
  -- the test of the loop, and that of the statement
  have test : (names.contains e.name && !e.flags.has .coexist) =
      !(Table.replaces e || !names.contains e.name) := by
    unfold Table.replaces
    cases names.contains e.name <;> cases e.flags.has .coexist <;> rfl
  cases target with
  | type id =>
    obtain ⟨t, ht, rfl⟩ := Option.map_eq_some_iff.mp found
    have here : (rt.types.info id).attributes = t.attributes := by simp [Types.info, ht]
    simp only [add, addToType]
    cases skipped : Table.isSkipped e with
    | true => rfl
    | false =>
      rw [if_neg (by simp), run_get, here, test]
      cases Table.replaces e || !t.attributes.contains e.name with
      | false => rfl
      | true => cases e.flags.has .static <;> rfl
  | module m =>
    obtain ⟨names₀, found₀⟩ := Option.isSome_iff_exists.mp before
    obtain ⟨name, dict, hm, -⟩ := module_of_names? found₀
    obtain ⟨name', dict', hm', hd⟩ := module_of_names? found
    obtain ⟨rfl, rfl⟩ : name' = name ∧ dict' = dict := by
      simpa [hm'] using object?_of_retains retains hm rfl
    have here : rt.heap.entriesAt (some dict') = names := by
      simp [Heap.entriesAt, Heap.dict?, Heap.object?, hd, Object.dict?]
    simp only [add, put, hm, addToModule]
    cases skipped : Table.isSkipped e with
    | true => rfl
    | false =>
      rw [if_neg (by simp), run_get, here, test]
      cases Table.replaces e || !names.contains e.name with
      | false => rfl
      | true =>
        simp only [module?, hm]
        cases e.flags.has .static <;> rfl

/-- A registered entry is found under its name, and everything else is as it was. -/
theorem run_put (before : (target.names? rt₀).isSome = true) (retains : rt₀.Retains rt)
    (found : target.names? rt = some names) (e : Entry) (v : Value) :
    ∃ rt', (target.put rt₀ e v).run rt = (.ok (), rt') ∧ rt.Retains rt' ∧
      target.names? rt' = some (names.set e.name v) := by
  cases target with
  | type id =>
    obtain ⟨t, ht, rfl⟩ := Option.map_eq_some_iff.mp found
    refine ⟨_, rfl, ⟨rfl, Nat.le_refl _, fun ho _ => ho⟩, ?_⟩
    simp [names?, Types.modifyAttributes, Registry.get?_modify, ht]
  | module m =>
    obtain ⟨names₀, found₀⟩ := Option.isSome_iff_exists.mp before
    obtain ⟨name, dict, hm, -⟩ := module_of_names? found₀
    obtain ⟨name', dict', hm', hd⟩ := module_of_names? found
    obtain ⟨rfl, rfl⟩ : name' = name ∧ dict' = dict := by
      simpa [hm'] using object?_of_retains retains hm rfl
    have stored : (setInDict dict' e.name v).run rt = (.ok (), { rt with
        heap := rt.heap.set dict' (.dict (names.set e.name v))
        ledger := rt.ledger.push (.change (.dict names) (.dict (names.set e.name v))) }) := by
      unfold setInDict store
      rw [run_get, hd]
      dsimp only
      rw [run_get, hd]
      rfl
    have retained : rt.Retains { rt with
        heap := rt.heap.set dict' (.dict (names.set e.name v))
        ledger := rt.ledger.push (.change (.dict names) (.dict (names.set e.name v))) } := by
      refine ⟨rfl, by simp [Heap.size, Heap.set], ?_⟩
      intro r o ho plain
      have other : r ≠ dict' := by
        rintro rfl
        obtain rfl := Option.some.inj (hd.symm.trans ho)
        cases plain
      exact (Heap.get?_set_of_ne _ _ other).trans ho
    simp only [put, hm]
    refine ⟨_, stored, retained, ?_⟩
    exact names?_of_module (object?_of_retains retained hm' rfl)
      (Heap.get?_set_self _ (Heap.lt_size_of_get? hd))

/-- Registering an entry makes its callable and puts it under its name. -/
theorem run_add_registered {e : Entry} (before : (target.names? rt₀).isSome = true)
    (retains : rt₀.Retains rt) (found : target.names? rt = some names)
    (registers : (!Table.isSkipped e && (Table.replaces e || !names.contains e.name)) = true)
    (added : Nat) :
    ∃ rt' v, (target.add rt₀ added e).run rt = (.ok (added + 1), rt') ∧ rt.Retains rt' ∧
      target.names? rt' = some (names.set e.name v) ∧ target.Made rt₀ rt' e v := by
  obtain ⟨metadata, rt₁, made, name, config, types, heap⟩ := run_newNativeFunction rt e
    (if e.flags.has .static then none else target.receiver?) (target.module? rt₀)
    (if e.flags.has .static then none else target.owner?)
  have retains₁ : rt.Retains rt₁ := by
    refine ⟨config, by simp [heap, Heap.size, Heap.push], ?_⟩
    intro r o ho _
    rw [heap]
    exact Heap.get?_push_of_some _ ho
  have here : rt₁.heap.get? rt.heap.nextRef =
      some (.function (target.callable rt₀ e metadata)) := by
    rw [heap, Heap.get?_push, if_pos rfl]
    rfl
  have found₁ : target.names? rt₁ = some names := by
    cases target with
    | type id => simpa [names?, types] using found
    | module m =>
      obtain ⟨_, _, hm, hd⟩ := module_of_names? found
      exact names?_of_module (object?_of_retains retains₁ hm rfl)
        (heap ▸ Heap.get?_push_of_some _ hd)
  obtain ⟨rt₂, put, retains₂, found₂⟩ :=
    run_put before (retains.trans retains₁) found₁ e (.object rt.heap.nextRef)
  refine ⟨rt₂, _, ?_, retains₁.trans retains₂, found₂,
    _, metadata, rfl, retains.size, name, retains₂.kept here rfl⟩
  rw [run_add before retains found, if_pos registers, run_bind, made]
  dsimp only
  rw [run_bind, put]
  rfl

theorem Made.retained {rt' : Runtime} {e : Entry} {v : Value} (made : target.Made rt₀ rt e v)
    (retains : rt.Retains rt') : target.Made rt₀ rt' e v := by
  obtain ⟨r, metadata, rfl, fresh, name, here⟩ := made
  exact ⟨r, metadata, rfl, fresh, name, retains.kept here rfl⟩

/-- What names stand for after a table is registered: for the callable of the entry that the table
as a whole gives to the name, and otherwise for what they stood for. -/
def Settled (rt rt' : Runtime) (target : Target) (before after : Dict Value)
    (table : List Entry) (name : String) : Prop :=
  match Table.winner? before table name with
  | some e => ∃ v, after.get? name = some v ∧ target.Made rt rt' e v
  | none => after.get? name = before.get? name

theorem Settled.contains {before after : Dict Value} {table : List Entry} {name : String}
    (settled : Settled rt₀ rt target before after table name) :
    after.contains name = Table.provides before table name := by
  unfold Settled at settled
  rw [Table.provides_eq, Dict.contains_eq_isSome, Dict.contains_eq_isSome]
  cases hw : Table.winner? before table name with
  | none =>
    rw [hw] at settled
    simp [settled]
  | some e =>
    rw [hw] at settled
    obtain ⟨v, hv, -⟩ := settled
    simp [hv]

/-- A table settles every name. Each entry settles its own, given that those before it did. -/
theorem run_adds {before : Dict Value} (found : target.names? rt = some before)
    (table : List Entry) :
    ∃ rt' after, (table.foldlM (target.add rt) 0).run rt = (.ok (Table.count before table), rt') ∧
      rt.Retains rt' ∧ target.names? rt' = some after ∧
      ∀ name, Settled rt rt' target before after table name := by
  have isThere : (target.names? rt).isSome = true := by simp [found]
  induction table using List.reverseRecOn with
  | nil => exact ⟨rt, before, rfl, .refl rt, found,
    fun name => by simp [Settled, Table.winner?, Table.named]⟩
  | append_singleton table e ih =>
    obtain ⟨rt₁, names, run, retains, here, settled⟩ := ih
    have test : (!Table.isSkipped e && (Table.replaces e || !names.contains e.name)) =
        Table.registers before table e := by
      rw [(settled e.name).contains]
      rfl
    have step : ((table ++ [e]).foldlM (target.add rt) 0).run rt =
        (target.add rt (Table.count before table) e).run rt₁ := by
      rw [List.foldlM_append, run_bind, run]
      simp
    rw [step, Table.count_append]
    cases registers : Table.registers before table e with
    | false =>
      rw [run_add isThere retains here, test, registers]
      refine ⟨rt₁, names, rfl, retains, here, fun name => ?_⟩
      unfold Settled
      rw [Table.winner?_append, if_neg (by simp [registers])]
      exact settled name
    | true =>
      obtain ⟨rt₂, v, added, retains₁, here₁, made⟩ := run_add_registered isThere retains here
        (test.trans registers) (Table.count before table)
      refine ⟨rt₂, names.set e.name v, added, retains.trans retains₁, here₁, fun name => ?_⟩
      unfold Settled
      rw [Table.winner?_append]
      by_cases mine : name = e.name
      · subst mine
        rw [if_pos ⟨registers, rfl⟩]
        exact ⟨v, Dict.get?_set_self .., made⟩
      · rw [if_neg (by simp [mine]), Dict.get?_set_of_ne _ _ mine]
        have earlier := settled name
        unfold Settled at earlier
        cases hw : Table.winner? before table name with
        | none =>
          rw [hw] at earlier
          exact earlier
        | some e' =>
          rw [hw] at earlier
          obtain ⟨v', hv', made'⟩ := earlier
          exact ⟨v', hv', made'.retained retains₁⟩

structure Registered (rt rt' : Runtime) (target : Target) (before after : Dict Value)
    (table : List Entry) (added : Nat) : Prop where
  accepted : ∀ e ∈ table, Table.isSkipped e = false → ∀ cause, ¬ Objects rt.config target e cause
  names : target.names? rt' = some after
  settled : ∀ name, Settled rt rt' target before after table name
  counted : added = Table.count before table
  /-- Registering the table again replaces what asks to be replaced, and nothing else. -/
  again : ∃ rt'' after', (target.register table).run rt' =
      (.ok (table.countP fun e => !Table.isSkipped e && Table.replaces e), rt'') ∧
    target.names? rt'' = some after' ∧
    ∀ name, (∀ e ∈ Table.named table name, Table.replaces e = false) →
      after'.get? name = after.get? name

/-- A table is registered as a whole or not at all. It is refused at the first entry to which
there is an objection, and then nothing has happened. Otherwise each name stands for what the table
as a whole says about it. -/
theorem registered_as_whole {before : Dict Value} (found : target.names? rt = some before)
    (table : List Entry) :
    match (target.register table).run rt with
    | (.error cause, rt') => rt' = rt ∧ target.FirstObjection rt.config table cause
    | (.ok added, rt') => ∃ after, Registered rt rt' target before after table added := by
  have validated := Table.forM_cases rt.config target (table.filter (!Table.isSkipped ·))
  rw [run_register found]
  unfold Table.validate
  cases hv : (table.filter (!Table.isSkipped ·)).forM (Table.check rt.config target.isModule) with
  | error cause =>
    rw [hv] at validated
    exact ⟨rfl, validated⟩
  | ok u =>
    rw [hv] at validated
    obtain ⟨rt', after, run, retains, here, settled⟩ := run_adds found table
    obtain ⟨rt'', after', run', -, here', settled'⟩ := run_adds here table
    have provided (name : String) (h : Table.named table name ≠ []) :
        after.contains name = true := by
      rw [(settled name).contains]
      simp [Table.provides, h]
    dsimp only
    rw [run]
    refine ⟨after, fun e he kept => validated e (by simp [he, kept]), here, settled, rfl,
      rt'', after', ?_, here', fun name keeps => ?_⟩
    · rw [run_register here, Table.validate, retains.config, hv,
        ← Table.count_of_provided provided]
      exact run'
    · have unchanged := settled' name
      rw [Settled, Table.winner?_of_provided provided keeps] at unchanged
      exact unchanged

/-- A table that names `m` three times, and `n` in an entry that is skipped. -/
def repetitive : List Entry := [
  ⟨2, "m", .fast, .record, .fast, none, false⟩,
  ⟨3, "m", .fast, .record, EntryFlags.fast.join .coexist, none, false⟩,
  ⟨4, "n", .fast, .record, .custom, none, false⟩,
  ⟨5, "m", .fast, .record, .fast, none, false⟩]

/-- The second `m` takes the place of the first one, and the third one is passed over. -/
theorem registered_repetitive :
    ∃ rt' after, ((Target.type .int).register repetitive).run (.start .standard) = (.ok 2, rt') ∧
      Registered (.start .standard) rt' (.type .int) .empty after repetitive 2 := by
  have here : (Target.type .int).names? (.start .standard) = some .empty := rfl
  have registered (table : List Entry) {added : Nat} {rt' : Runtime}
      (run : ((Target.type .int).register table).run (.start .standard) = (.ok added, rt')) :
      ∃ after, Registered (.start .standard) rt' (.type .int) .empty after table added := by
    have whole := registered_as_whole here table
    rw [run] at whole
    exact whole
  have added : (((Target.type .int).register repetitive).run (.start .standard)).1 = .ok 2 := by
    decide +kernel
  rcases run : ((Target.type .int).register repetitive).run (.start .standard) with ⟨result, rt'⟩
  rw [run] at added
  obtain rfl : result = .ok 2 := added
  obtain ⟨after, settled⟩ := registered repetitive run
  exact ⟨rt', after, rfl, settled⟩

end Target
end Callables
