import Callables.Proofs.Attributes
import Callables.Proofs.Editing
import Callables.Table

namespace Callables.Activity

variable {rt : Runtime}

theorem makes_setInDict (dict : Ref) (name : String) (value : Value) :
    Makes (setInDict dict name value) := by
  intro rt
  unfold setInDict
  rw [run_get]
  split
  · rename_i found
    exact makes_storeDict found _
  · exact Runtime.making.refl _

theorem makes_eraseInDict (dict : Ref) (name : String) :
    Makes (eraseInDict dict name) := by
  intro rt
  unfold eraseInDict
  rw [run_get]
  split
  · rename_i entries found
    -- the note before the removal does not touch the heap
    let noted : Runtime :=
      { rt with ledger := rt.ledger.push (.take (entries.get? name).toList) }
    have there : noted.heap.get? dict = some (.dict entries) := found
    have stored : Runtime.making.Leads noted
        ((store dict (.dict (entries.erase name))).run noted).2 :=
      makes_storeDict there _
    let old := entries.get? name
    let rest : Unit → Activity (Option Value) := fun _ => do
      note (.letGo old.toList old)
      return old
    have led : Runtime.making.Leads noted
        ((store dict (.dict (entries.erase name)) >>= rest).run noted).2 :=
      leads_bind stored fun _ => (makes_note _).bind fun _ => follows_pure _
    exact Runtime.making.trans (makes_note _ rt) led
  · exact Runtime.making.refl _

theorem makes_modifyAttributes (type : TypeId) (f : Dict Value → Dict Value) :
    Makes (modify fun rt => { rt with types := rt.types.modifyAttributes type f }) :=
  fun _ => ⟨⟨.refl, .of_found [] (List.append_nil _).symm id, Types.grows_modifyAttributes ..⟩, rfl⟩

theorem makes_setTypeAttribute (type : TypeId) (name : String) (value : Value) :
    Makes (setTypeAttribute type name value) :=
  follows_get fun _ => (makes_modifyAttributes _ _).bind fun _ => (makes_note _).bind fun _ =>
    makes_note _

theorem makes_eraseTypeAttribute (type : TypeId) (name : String) :
    Makes (eraseTypeAttribute type name) :=
  follows_get fun _ => (makes_modifyAttributes _ _).bind fun _ => (makes_note _).bind fun _ =>
    follows_pure _

/-- A wrapper is made bound, and with an entry of its own kind or that of what it stands for. -/
theorem new_of_wrapper {callable receiver : Value} {w : Function}
    (made : rt.wrapper callable receiver = .ok w) : w.New rt.heap := by
  rcases Runtime.wrapper_cases made with ⟨_, rfl, _⟩ | ⟨f, hf, _, _, rfl⟩
  · exact Function.new_of_no_metadata rfl rfl (fun _ => rfl) fun _ _ => .inl rfl
  · refine Function.new_of_no_metadata rfl rfl (fun _ => rfl) ?_
    rintro _ ⟨⟩
    exact .inr ⟨f, Runtime.function?_of_baseFunction? hf, rfl⟩

theorem makes_bindMethod (callable receiver : Value) :
    Makes (bindMethod callable receiver) := by
  intro rt
  unfold bindMethod
  rw [run_get]
  cases made : rt.wrapper callable receiver with
  | error e => exact Runtime.making.refl _
  | ok w => exact makes_allocateFunction (new_of_wrapper made)

theorem makes_bindOnAccess (callable : Value) (accessor : Option Value)
    (accessingClass : Option TypeId) :
    Makes (bindOnAccess callable accessor accessingClass) := by
  refine follows_get fun rt => ?_
  split
  · exact makes_bindMethod _ _
  · exact follows_pure _

theorem makes_newModule (name : String) : Makes (newModule name) := by
  refine (makes_text name).bind fun t => ?_
  intro rt
  rw [run_get]
  -- the dict comes first, so that it is there when the module is made
  let dict : Object := .dict (Dict.empty.set "__name__" (.text t))
  have made : (discard (allocate dict)).run rt = (.ok (), ((allocate dict).run rt).2) := rfl
  have there : ((allocate dict).run rt).2.heap.get? rt.heap.nextRef = some dict :=
    (Heap.get?_push ..).trans (if_pos rfl)
  have first : Runtime.making.Leads rt ((discard (allocate dict)).run rt).2 :=
    (makes_allocate rfl (by simp [dict])).discard rt
  refine leads_bind_of first fun _ s run => ?_
  obtain rfl := congrArg Prod.snd (made.symm.trans run)
  exact makes_allocateNew (Object.new_module there)

theorem makes_textOr (content : Option String) (other : Text) :
    Makes (textOr content other) := by
  cases content with
  | some content => exact makes_text content
  | none => exact follows_pure other

theorem makes_optionalText (content : Option String) : Makes (optionalText content) := by
  cases content with
  | some content => exact (makes_text content).bind fun _ => follows_pure _
  | none => exact follows_pure _

theorem makes_newBuiltinFunction (entry : Entry) (receiver module : Option Value) :
    Makes (newBuiltinFunction entry receiver module) :=
  fun _ => makes_allocateFunction
    (Function.new_of_no_metadata rfl rfl (fun isMethod => by cases isMethod) fun _ h => by cases h)

theorem makes_newNativeFunction (entry : Entry) (receiver module : Option Value)
    (owner : Option TypeId) : Makes (newNativeFunction entry receiver module owner) := by
  refine (makes_text _).bind fun _ => follows_get fun _ => (makes_textOr _ _).bind fun _ =>
    (makes_optionalText _).bind fun _ => fun rt => makes_allocateFunction ?_
  refine ⟨rfl, fun h => ?_, fun _ h => ?_, ?_, ?_, ?_⟩
  · cases h
  · cases h
  · rintro _ ⟨⟩
    constructor <;> rintro _ ⟨⟩
  · rintro ⟨⟩
  · rintro - _ ⟨⟩
    rfl

theorem makes_newNativeMethod (entry : Entry) (receiver module : Option Value)
    (owner : Option TypeId) : Makes (newNativeMethod entry receiver module owner) := by
  unfold newNativeMethod
  split
  · exact follows_get fun _ => (follows_ofExcept _).bind fun _ => makes_newNativeFunction _ _ _ _
  · exact (follows_pure ()).bind fun _ => makes_newNativeFunction _ _ _ _

/-- Code and closure of a new host-language function have to be there. -/
theorem makes_newHostFunction {code : Ref} {c : Code} (coded : rt.heap.get? code = some (.code c))
    (globals : Value) (qualname : Option String) {closure : Option Ref}
    (closed : ∀ r, closure = some r → ∃ items, rt.heap.get? r = some (.tuple items)) :
    Runtime.making.Leads rt ((newHostFunction code c globals qualname closure).run rt).2 := by
  unfold newHostFunction
  rw [run_get]
  split
  · exact Runtime.making.refl _
  · rename_i names _
    dsimp only
    split
    · exact Runtime.making.refl _
    · rename_i cells
      have new (t : Text) : Function.New rt.heap
          ⟨.hostFunction, none, names.get? "__name__", none, [],
            .defined ⟨c.name, t, (c.doc.map Value.text).getD .none, none, some code, none, none,
              none, none, globals, closure⟩⟩ := by
        refine ⟨rfl, fun h => ?_, fun _ h => ?_, ?_, ?_, ?_⟩
        · cases h
        · cases h
        · rintro _ ⟨⟩
          refine ⟨?_, ?_, ?_, ?_, ?_, closed⟩
          · rintro _ ⟨⟩
            exact ⟨c, coded⟩
          all_goals rintro _ ⟨⟩
        · rintro - _ ⟨⟩
          exact ⟨code, c, rfl, coded, Decidable.not_not.mp cells⟩
        · rintro ⟨⟩
      cases qualname with
      | none => exact makes_allocateFunction (new c.qualname)
      | some content =>
        let named : Runtime := { rt with nextText := rt.nextText + 1 }
        have here : Function.New named.heap _ := new ⟨rt.nextText, content⟩
        exact Runtime.making.trans (makes_text content rt) (makes_allocateFunction here)

theorem makes_newTable (entries : List Entry) : Makes (newTable entries) :=
  follows_mapM (fun _ => makes_entryIdent.bind fun _ => follows_pure _) entries

theorem makes_addToType (type : TypeId) (added : Nat) (entry : Entry) :
    Makes (addToType type added entry) := by
  unfold addToType
  split
  · exact (follows_pure _)
  · refine follows_get fun rt => ?_
    dsimp only
    split
    · exact follows_pure _
    · exact (makes_newNativeMethod _ _ _ _).bind fun _ =>
        (makes_setTypeAttribute _ _ _).bind fun _ => follows_pure _

theorem makes_addTableToType (type : TypeId) (table : List Entry) :
    Makes (addTableToType type table) :=
  follows_get fun _ => (follows_ofExcept _).bind fun _ =>
    follows_foldlM (makes_addToType type) table 0

theorem makes_addToModule (module : Value) (name : Text) (names : Ref) (added : Nat)
    (entry : Entry) : Makes (addToModule module name names added entry) := by
  unfold addToModule
  split
  · exact follows_pure _
  · refine follows_get fun rt => ?_
    dsimp only
    split
    · exact follows_pure _
    · exact (makes_newNativeFunction _ _ _ _).bind fun _ =>
        (makes_setInDict _ _ _).bind fun _ => follows_pure _

theorem makes_addTableToModule (module : Value) (table : List Entry) :
    Makes (addTableToModule module table) := by
  refine follows_get fun rt => ?_
  split
  · exact (follows_ofExcept _).bind fun _ => follows_foldlM (makes_addToModule _ _ _) table 0
  · exact follows_throw _

end Callables.Activity
