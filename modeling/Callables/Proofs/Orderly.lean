import Callables.Proofs.Formation

namespace Callables

/-- What of an object neither edits nor watchers change. -/
def Object.outline (o : Object) : Object :=
  match o.core with
  | .function f => .function { f with watchers := [] }
  | core => core

namespace Object

variable {o o' : Object}

theorem outline_of_core (same : o'.core = o.core) : o'.outline = o.outline := by
  simp [outline, same]

theorem code_of_outline {c : Code} (same : o.outline = (Object.code c).outline) : o = .code c := by
  cases o <;> simp_all [outline, core]

theorem tuple_of_outline {items : List Value} (same : o.outline = (Object.tuple items).outline) :
    o = .tuple items := by
  cases o <;> simp_all [outline, core]

theorem dict_of_outline {entries : Dict Value}
    (same : o.outline = (Object.dict entries).outline) : ∃ entries', o = .dict entries' := by
  cases o <;> simp_all [outline, core]

theorem function_of_outline {f : Function} (same : o.outline = (Object.function f).outline) :
    ∃ g, o = .function g ∧ g.entry = f.entry := by
  cases o <;> simp_all [outline, core]

end Object

namespace Heap

/-- What is at a place of one heap is at that place of another one too, in outline. -/
def Carries (h h' : Heap) (r : Ref) : Prop :=
  ∀ o, h.get? r = some o → ∃ o', h'.get? r = some o' ∧ o'.outline = o.outline

theorem Builds.carries {h h' : Heap} (builds : h.Builds h') (r : Ref) : h.Carries h' r := by
  intro o ho
  obtain ⟨o', ho', same⟩ := builds.old ho
  exact ⟨o', ho', Object.outline_of_core same⟩

/-- A mark that is added to a function does not show in outline. -/
theorem carries_watched {h : Heap} {place : Ref} {f : Function}
    (found : h.get? place = some (.function f)) (mark : Int) (r : Ref) :
    h.Carries (h.set place (.function (f.watched mark))) r := by
  intro o ho
  by_cases hr : r = place
  · subst hr
    obtain rfl := Option.some.inj (found.symm.trans ho)
    exact ⟨_, get?_set_self _ (lt_size_of_get? found), rfl⟩
  · exact ⟨o, (get?_set_of_ne h _ hr).trans ho, rfl⟩

theorem carries_sweep {h : Heap} {roots : List Value} {place : Ref} {holder : Object}
    (kept : (h.sweep roots).heap.get? place = some holder) {r : Ref}
    (refers : .object r ∈ holder.references) : h.Carries (h.sweep roots).heap r :=
  fun o ho => ⟨o, get?_sweep ho (.inr ⟨place, holder, kept, refers⟩), rfl⟩

end Heap

namespace Metadata

variable {m m' : Metadata} {h h' : Heap}

theorem mem_references_of_at? {field : MetadataField} {r : Ref}
    (held : m.at? field = some (.object r)) : .object r ∈ m.references := by
  cases field <;> simp_all [at?, references]

theorem mem_references_of_closure {r : Ref} (held : m.closure = some r) :
    .object r ∈ m.references := by
  simp [references, held]

/-- Sorted metadata stays so while what it refers to is carried along. -/
theorem Sorted.carry (sorted : m.Sorted h)
    (carries : ∀ r, .object r ∈ m.references → h.Carries h' r) : m.Sorted h' := by
  have dict (field : MetadataField) {r : Ref} (held : m.at? field = some (.object r))
      (there : ∃ d, h.get? r = some (.dict d)) : ∃ d, h'.get? r = some (.dict d) := by
    obtain ⟨d, hd⟩ := there
    obtain ⟨o, ho, same⟩ := carries r (mem_references_of_at? held) _ hd
    obtain ⟨d', rfl⟩ := Object.dict_of_outline same
    exact ⟨d', ho⟩
  have tuple {r : Ref} (held : .object r ∈ m.references)
      (there : ∃ items, h.get? r = some (.tuple items)) :
      ∃ items, h'.get? r = some (.tuple items) := by
    obtain ⟨items, hi⟩ := there
    obtain ⟨o, ho, same⟩ := carries r held _ hi
    exact ⟨items, Object.tuple_of_outline same ▸ ho⟩
  constructor
  · intro r hr
    obtain ⟨c, hc⟩ := sorted.code r hr
    have held : m.at? .code = some (.object r) := by simp [at?, hr]
    obtain ⟨o, ho, same⟩ := carries r (mem_references_of_at? held) _ hc
    exact ⟨c, Object.code_of_outline same ▸ ho⟩
  · intro r hr
    have held : m.at? .defaults = some (.object r) := by simp [at?, hr]
    exact tuple (mem_references_of_at? held) (sorted.defaults r hr)
  · intro r hr
    exact dict .keywordDefaults (by simp [at?, hr]) (sorted.keywordDefaults r hr)
  · intro r hr
    exact dict .annotations (by simp [at?, hr]) (sorted.annotations r hr)
  · intro r hr
    exact dict .attributes (by simp [at?, hr]) (sorted.attributes r hr)
  · intro r hr
    exact tuple (mem_references_of_closure hr) (sorted.closure r hr)

/-- What a field of a sort takes refers to an object of that sort. -/
theorem get?_of_wanted {α : Type} {view : Object → Option α} {value : Value} {r : Ref}
    (wanted : (if ((h.object? value).bind view).isSome then value.asObject? else none) = some r) :
    ∃ o a, h.get? r = some o ∧ view o = some a := by
  split at wanted
  · rename_i seen
    cases value with
    | object place =>
      cases wanted
      obtain ⟨a, ha⟩ := Option.isSome_iff_exists.mp seen
      obtain ⟨o, ho, ha⟩ := Option.bind_eq_some_iff.mp ha
      exact ⟨o, a, ho, ha⟩
    | _ => cases wanted
  · cases wanted

theorem Sorted.set? (sorted : m.Sorted h) {field : MetadataField} {value : Value}
    (set : m.set? h field value = some m') : m'.Sorted h := by
  have dict {r : Ref}
      (taken : (if (h.dict? value).isSome then value.asObject? else none) = some r) :
      ∃ d, h.get? r = some (.dict d) := by
    obtain ⟨o, d, ho, view⟩ := get?_of_wanted taken
    exact ⟨d, Object.dict?_eq_some.mp view ▸ ho⟩
  cases field with
  | name | qualname =>
    obtain ⟨_, -, rfl⟩ := Option.map_eq_some_iff.mp set
    exact { sorted with }
  | doc | module =>
    obtain rfl := Option.some.inj set
    exact { sorted with }
  | code =>
    obtain ⟨r, taken, rfl⟩ := Option.map_eq_some_iff.mp set
    refine { sorted with code := ?_ }
    rintro _ ⟨⟩
    obtain ⟨o, c, ho, view⟩ := get?_of_wanted taken
    exact ⟨c, Object.code?_eq_some.mp view ▸ ho⟩
  | defaults =>
    obtain rfl := Option.some.inj set
    refine { sorted with defaults := fun r taken => ?_ }
    obtain ⟨o, items, ho, view⟩ := get?_of_wanted taken
    exact ⟨items, Object.tuple?_eq_some.mp view ▸ ho⟩
  | keywordDefaults =>
    obtain rfl := Option.some.inj set
    exact { sorted with keywordDefaults := fun _ taken => dict taken }
  | annotations =>
    obtain rfl := Option.some.inj set
    exact { sorted with annotations := fun _ taken => dict taken }
  | attributes =>
    obtain ⟨r, taken, rfl⟩ := Option.map_eq_some_iff.mp set
    refine { sorted with attributes := ?_ }
    rintro _ ⟨⟩
    exact dict taken

end Metadata

namespace Function

variable {liberty : Liberty} {h h' : Heap} {f : Function}

structure Orderly (liberty : Liberty) (h : Heap) (f : Function) : Prop where
  lent : f.Lent h
  sorted : ∀ m, f.metadata? = some m → m.Sorted h
  matched : liberty.covers f = false → f.Matched h

theorem New.orderly (new : f.New h) : f.Orderly liberty h :=
  ⟨new.lent, new.sorted, fun _ => new.matched⟩

theorem Lent.carry (lent : f.Lent h)
    (carries : ∀ r, .object r ∈ f.ownReferences → h.Carries h' r) : f.Lent h' := by
  intro v hv
  rcases lent v hv with own | ⟨g, hg, same⟩
  · exact .inl own
  · obtain ⟨r, rfl, hr⟩ := Heap.get?_of_function? hg
    obtain ⟨o, ho, outline⟩ := carries r (by simp [ownReferences_of_wrapped hv]) _ hr
    obtain ⟨g', rfl, same'⟩ := Object.function_of_outline outline
    exact .inr ⟨g', Heap.function?_of_get? ho, same.trans same'.symm⟩

/-- A sorted closure that is carried along has the same cells. -/
theorem itemsAt_carry {m : Metadata} (sorted : m.Sorted h)
    (carries : ∀ r, .object r ∈ m.references → h.Carries h' r) :
    h'.itemsAt m.closure = h.itemsAt m.closure := by
  cases hr : m.closure with
  | none => rfl
  | some r =>
    obtain ⟨items, hi⟩ := sorted.closure r hr
    obtain ⟨o, ho, outline⟩ := carries r (Metadata.mem_references_of_closure hr) _ hi
    obtain rfl := Object.tuple_of_outline outline
    simp [Heap.itemsAt, Heap.tuple?, Heap.object?, ho, hi]

theorem Matched.carry (matched : f.Matched h)
    (sorted : ∀ m, f.metadata? = some m → m.Sorted h)
    (carries : ∀ r, .object r ∈ f.ownReferences → h.Carries h' r) : f.Matched h' := by
  refine ⟨fun host m hm => ?_, matched.native⟩
  rw [ownReferences_of_metadata hm] at carries
  obtain ⟨r, c, hr, hc, cells⟩ := matched.host host m hm
  have held : m.at? .code = some (.object r) := by simp [Metadata.at?, hr]
  obtain ⟨o, ho, outline⟩ := carries r (Metadata.mem_references_of_at? held) _ hc
  obtain rfl := Object.code_of_outline outline
  exact ⟨r, c, hr, ho, itemsAt_carry (sorted m hm) carries ▸ cells⟩

theorem Orderly.carry (orderly : f.Orderly liberty h)
    (carries : ∀ r, .object r ∈ f.ownReferences → h.Carries h' r) : f.Orderly liberty h' := by
  refine ⟨orderly.lent.carry carries, fun m hm => ?_, fun covered => ?_⟩
  · exact (orderly.sorted m hm).carry (ownReferences_of_metadata hm ▸ carries)
  · exact (orderly.matched covered).carry orderly.sorted carries

theorem metadata?_withMetadata {m : Metadata} (hm : f.metadata? = some m) (m' : Metadata) :
    (f.withMetadata m').metadata? = some m' := by
  unfold metadata? at hm
  cases hk : f.kind <;> simp_all [withMetadata, metadata?, FunctionKind.withMetadata,
    FunctionKind.metadata?]

theorem isHost_withMetadata (f : Function) (m : Metadata) :
    (f.withMetadata m).isHost = f.isHost := by
  unfold isHost withMetadata
  cases f.kind <;> rfl

theorem wrapped?_withMetadata (f : Function) (m : Metadata) :
    (f.withMetadata m).wrapped? = f.wrapped? :=
  FunctionKind.wrapped?_withMetadata f.kind m

end Function

/-- The code that a field takes is the one of which it was asked. -/
theorem Metadata.code_of_set? {h : Heap} {m m' : Metadata} {value : Value} {c : Code}
    (set : m.set? h .code value = some m') (coded : h.code? value = some c) :
    ∃ r, m'.code = some r ∧ h.get? r = some (.code c) := by
  obtain ⟨r, taken, rfl⟩ := Option.map_eq_some_iff.mp set
  rw [coded] at taken
  cases value with
  | object place =>
    cases taken
    obtain ⟨o, ho, view⟩ := Option.bind_eq_some_iff.mp coded
    exact ⟨r, rfl, Object.code?_eq_some.mp view ▸ ho⟩
  | _ => cases taken

/-- A field is set of a function that matches its code, and new code fits the closure. -/
theorem Function.Matched.set? {h : Heap} {f : Function} {m m' : Metadata} {field : MetadataField}
    {value : Value} (matched : f.Matched h) (held : f.metadata? = some m)
    (set : m.set? h field value = some m')
    (fits : field = .code → f.isHost = true ∧
      ∃ c, h.code? value = some c ∧ c.freeVariables.length = (h.itemsAt m.closure).length) :
    (f.withMetadata m').Matched h := by
  have same := Metadata.sameBut_of_set? set
  constructor
  case host =>
    rw [f.isHost_withMetadata, Function.metadata?_withMetadata held]
    rintro host _ ⟨⟩
    rw [same.closure]
    by_cases code : field = .code
    · subst code
      obtain ⟨-, c, coded, cells⟩ := fits rfl
      obtain ⟨r, hr, hc⟩ := Metadata.code_of_set? set coded
      exact ⟨r, c, hr, hc, cells.symm⟩
    · obtain ⟨r, c, hr, hc, cells⟩ := matched.host host m held
      exact ⟨r, c, (same.code (Ne.symm code)).trans hr, hc, cells⟩
  case native =>
    rw [f.isHost_withMetadata, Function.metadata?_withMetadata held]
    rintro native _ ⟨⟩
    by_cases code : field = .code
    · rw [(fits code).1] at native
      cases native
    · exact (same.code (Ne.symm code)).trans (matched.native native m held)

theorem Liberty.covers_withMetadata (liberty : Liberty) (f : Function) (m : Metadata) :
    liberty.covers (f.withMetadata m) = liberty.covers f := by
  cases liberty with
  | natives => exact congrArg Bool.not (f.isHost_withMetadata m)
  | nobody | everybody => rfl

theorem Liberty.covers_watched (liberty : Liberty) (f : Function) (mark : Int) :
    liberty.covers (f.watched mark) = liberty.covers f := by
  cases liberty <;> rfl

namespace Heap

variable {liberty : Liberty} {h h' : Heap}

def Orderly (liberty : Liberty) (h : Heap) : Prop :=
  ∀ r f, h.get? r = some (.function f) → f.Orderly liberty h

/-- A field of metadata is set; new code fits the closure where that matters. -/
theorem orderly_metadata {f : Function} {m m' : Metadata} {field : MetadataField} {value : Value}
    (orderly : f.Orderly liberty h) (held : f.metadata? = some m)
    (set : m.set? h field value = some m')
    (fits : field = .code → liberty.covers f = false → f.isHost = true ∧
      ∃ c, h.code? value = some c ∧ c.freeVariables.length = (h.itemsAt m.closure).length) :
    (f.withMetadata m').Orderly liberty h := by
  constructor
  case lent =>
    intro v hv
    rw [f.wrapped?_withMetadata] at hv
    exact orderly.lent v hv
  case sorted =>
    rw [Function.metadata?_withMetadata held]
    rintro _ ⟨⟩
    exact (orderly.sorted m held).set? set
  case matched =>
    rw [liberty.covers_withMetadata]
    exact fun covered => (orderly.matched covered).set? held set fun code => fits code covered

theorem Orderly.elsewhere (all : h.Orderly liberty) {r : Ref} {o : Object}
    (carries : ∀ place, h.Carries (h.set r o) place)
    (there : ∀ f, o = .function f → f.Orderly liberty h) : (h.set r o).Orderly liberty := by
  intro place f hf
  by_cases hr : place = r
  · subst hr
    have inside : place < h.size := by
      have := lt_size_of_get? hf
      simpa [Heap.size, Heap.set] using this
    rw [get?_set_self o inside] at hf
    exact (there f (Option.some.inj hf)).carry fun r _ => carries r
  · rw [get?_set_of_ne h o hr] at hf
    exact (all place f hf).carry fun r _ => carries r

theorem Edit.orderly (edit : Edit liberty h h') (all : h.Orderly liberty) :
    h'.Orderly liberty := by
  have carries := edit.builds.carries
  cases edit with
  | push new =>
    intro r f hf
    rw [get?_push] at hf
    split at hf
    · exact (new.function f (Option.some.inj hf)).orderly.carry fun r _ => carries r
    · exact (all r f hf).carry fun r _ => carries r
  | entries | attributes =>
    refine all.elsewhere carries fun f he => ?_
    cases he
  | metadata found held set fits =>
    refine all.elsewhere carries ?_
    rintro _ ⟨⟩
    exact orderly_metadata (all _ _ found) held set fits

theorem Edits.orderly (edits : Edits liberty h h') (all : h.Orderly liberty) :
    h'.Orderly liberty := by
  induction edits with
  | refl => exact all
  | tail _ edit ih => exact edit.orderly ih

theorem Orderly.watched (all : h.Orderly liberty) {r : Ref} {f : Function}
    (found : h.get? r = some (.function f)) (mark : Int) :
    (h.set r (.function (f.watched mark))).Orderly liberty := by
  refine all.elsewhere (carries_watched found mark) ?_
  rintro _ ⟨⟩
  obtain ⟨lent, sorted, matched⟩ := all r f found
  refine ⟨lent, sorted, fun covered => ?_⟩
  have matched := matched (liberty.covers_watched f mark ▸ covered)
  exact ⟨matched.host, matched.native⟩

theorem Orderly.sweep (all : h.Orderly liberty) (roots : List Value) :
    (h.sweep roots).heap.Orderly liberty := by
  intro r f hf
  refine (all r f ((h.sweep_fair roots).kept hf)).carry fun place refers => ?_
  exact carries_sweep hf (List.mem_append_right _ refers)

end Heap

namespace Session

variable {liberty : Liberty}

/-- The sessions that come about while code is exchanged without a look at the closure at most for
functions that `liberty` covers. -/
inductive Reached (liberty : Liberty) : Session → Prop
  | start (config : Config) (entries : Dict Entry) : Reached liberty (start config entries)
  | step {s : Session} (before : Reached liberty s) (operation : Operation)
      (room : s.hasRoomFor operation = true)
      (allowed : (s.overridden? operation).all liberty.covers = true) (label : Option String) :
      Reached liberty (s.step operation label).2

theorem Reached.reachable {s : Session} (h : s.Reached liberty) : s.Reachable := by
  induction h with
  | start config entries => exact .start config entries
  | step _ operation room _ label ih => exact .step ih operation room label

/-- Where everybody is covered, all sessions come about. -/
theorem Reachable.reached {s : Session} (h : s.Reachable) : s.Reached .everybody := by
  induction h with
  | start config entries => exact .start config entries
  | step _ operation room label ih =>
    exact .step ih operation room (overridden_everybody _ operation) label

theorem run_orderly {s : Session} (all : s.runtime.heap.Orderly liberty) (operation : Operation)
    (allowed : (s.overridden? operation).all liberty.covers = true) :
    (operation.run.run s).2.runtime.heap.Orderly liberty := by
  rcases s.run_editing operation allowed with
    ⟨-, edits, -⟩ | ⟨_, _, s', f, -, -, ⟨edits, -⟩, here, -, stored⟩
  · exact edits.orderly all
  · rw [stored]
    exact (edits.orderly all).watched here _

theorem step_orderly {s : Session} (all : s.runtime.heap.Orderly liberty) (operation : Operation)
    (allowed : (s.overridden? operation).all liberty.covers = true) (label : Option String) :
    (s.step operation label).2.runtime.heap.Orderly liberty := by
  rcases s.step_cases operation label with ⟨-, same⟩ | ⟨after, heap, -, settled⟩
  · rw [same]
    exact all
  · rw [settled]
    have orderly : after.runtime.heap.Orderly liberty := heap ▸ run_orderly all operation allowed
    exact orderly.sweep after.roots

theorem Reached.orderly {s : Session} (h : s.Reached liberty) :
    s.runtime.heap.Orderly liberty := by
  induction h with
  | start config entries =>
    intro r f hf
    simp [Session.start, Runtime.start, Heap.get?, Heap.empty] at hf
  | step _ operation _ allowed label ih => exact step_orderly ih operation allowed label

end Session

namespace Runtime

/-- The runtimes between the steps of such sessions and in the midst of one, as long as nothing is
released. -/
def Occurs (liberty : Liberty) (rt : Runtime) : Prop :=
  ∃ s : Session, s.Reached liberty ∧ s.runtime.Changes rt ∧
    s.runtime.heap.Edits liberty rt.heap

namespace Occurs

variable {liberty : Liberty} {rt : Runtime}

theorem of_session {s : Session} (h : s.Reached liberty) : s.runtime.Occurs liberty :=
  ⟨s, h, .refl, .refl⟩

theorem arises (h : rt.Occurs liberty) : rt.Arises := by
  obtain ⟨s, hs, changes, edits⟩ := h
  exact ⟨s, hs.reachable, changes, edits.builds⟩

theorem sound (h : rt.Occurs liberty) : rt.Sound := h.arises.sound

theorem orderly (h : rt.Occurs liberty) : rt.heap.Orderly liberty := by
  obtain ⟨s, hs, -, edits⟩ := h
  exact edits.orderly hs.orderly

theorem run {α : Type} {P : Runtime → α → Prop} {a : Activity α} (h : rt.Occurs liberty)
    (safe : Activity.Safe P rt a) (edits : Activity.EditsHeap a) :
    (a.run rt).2.Occurs liberty := by
  obtain ⟨s, hs, changes, edited⟩ := h
  exact ⟨s, hs, changes.trans safe.changes, edited.trans ((edits rt).heap.free liberty)⟩

end Occurs
end Runtime
end Callables
