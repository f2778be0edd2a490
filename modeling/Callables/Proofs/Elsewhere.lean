import Callables.Proofs.Lookups
import Callables.Proofs.Resemblance

namespace Callables

/-- The same but for the entries of the dictionary at one place. -/
structure Runtime.SameBut (place : Ref) (rt rt' : Runtime) : Prop where
  types : rt'.types = rt.types
  nextText : rt'.nextText = rt.nextText
  size : rt'.heap.size = rt.heap.size
  others : ∀ {r}, r ≠ place → rt'.heap.get? r = rt.heap.get? r
  dictionary : ∃ o o', rt.heap.get? place = some o ∧ rt'.heap.get? place = some o' ∧
    o'.core = o.core ∧ o.function? = none

namespace Runtime.SameBut

variable {place : Ref} {rt rt' : Runtime}

theorem alike (h : rt.SameBut place rt') (v : Value) : rt.Alike rt' v := by
  cases v with
  | object r =>
    by_cases hr : r = place
    · subst hr
      obtain ⟨o, o', ho, ho', same, -⟩ := h.dictionary
      simp only [Runtime.Alike, Heap.object?, ho, ho', Option.map_some, same]
    · simp only [Runtime.Alike, Heap.object?, h.others hr]
  | none | bool | int | float | text | type => rfl

theorem resembles (h : rt.SameBut place rt') : rt.Resembles rt' :=
  ⟨h.types, fun _ _ => h.alike _, fun _ _ => h.alike _, fun _ => h.alike _⟩

theorem function? (h : rt.SameBut place rt') (v : Value) :
    rt'.heap.function? v = rt.heap.function? v := by
  cases v with
  | object r =>
    by_cases hr : r = place
    · subst hr
      obtain ⟨o, o', ho, ho', same, plain⟩ := h.dictionary
      have plain' := Object.function?_of_core same plain
      simp [Heap.function?, Heap.object?, ho, ho', plain, plain']
    · simp [Heap.function?, Heap.object?, h.others hr]
  | none | bool | int | float | text | type => rfl

theorem baseFunction? (h : rt.SameBut place rt') (v : Value) :
    rt'.baseFunction? v = rt.baseFunction? v := by
  unfold Runtime.baseFunction?
  rw [h.resembles.typeOf (h.alike v), h.function?]

/-- What has attributes of its own in the dictionary would share it. -/
theorem ownAttributes? (h : rt.SameBut place rt') {v : Value}
    (other : rt.directPlace? v ≠ some place) : rt'.ownAttributes? v = rt.ownAttributes? v := by
  by_cases hv : v = .object place
  · subst hv
    obtain ⟨o, o', ho, ho', same, -⟩ := h.dictionary
    simp only [Runtime.directPlace?, ho, Option.bind_some] at other
    simp only [Runtime.ownAttributes?, Heap.object?, ho, ho']
    cases o <;> cases o' <;> simp_all [Object.core, Object.attributePlace?]
  · cases v with
    | object r =>
      have there : rt'.heap.get? r = rt.heap.get? r := h.others fun hr => hv (hr ▸ rfl)
      simp only [Runtime.ownAttributes?, Heap.object?, there]
    | none | bool | int | float | text | type => rfl

theorem entriesAt (h : rt.SameBut place rt') {dict : Option Ref} (other : dict ≠ some place) :
    rt'.heap.entriesAt dict = rt.heap.entriesAt dict := by
  cases dict with
  | none => rfl
  | some r => simp [Heap.entriesAt, Heap.dict?, Heap.object?, h.others fun hr => other (hr ▸ rfl)]

/-- Whoever does not share the dictionary answers the same. -/
theorem reading (h : rt.SameBut place rt') (sound : rt.Sound) {v : Value}
    (other : rt.attributePlace? v ≠ some place) (name : String) :
    rt'.reading v name = rt.reading v name :=
  h.resembles.reading_of_innermost sound (h.alike v)
    (h.resembles.directReading (h.alike _) (h.baseFunction? _) (h.ownAttributes? other)
      (congrArg (·.get? name) (h.entriesAt other)))

theorem push (h : rt.SameBut place rt') (o : Object) {rt₁ rt₁' : Runtime}
    (types : rt₁.types = rt.types) (types' : rt₁'.types = rt'.types)
    (heap : rt₁.heap = rt.heap.push o) (heap' : rt₁'.heap = rt'.heap.push o)
    (text : rt₁.nextText = rt.nextText) (text' : rt₁'.nextText = rt'.nextText) :
    rt₁.SameBut place rt₁' := by
  have next : rt'.heap.nextRef = rt.heap.nextRef := h.size
  refine ⟨by rw [types, types', h.types], by rw [text, text', h.nextText], ?_, ?_, ?_⟩
  · have size := h.size
    simpa [heap, heap', Heap.size, Heap.push] using size
  · intro r hr
    rw [heap, heap', Heap.get?_push, Heap.get?_push, next, h.others hr]
  · obtain ⟨d, d', hd, hd', contents⟩ := h.dictionary
    exact ⟨d, d', heap ▸ Heap.get?_push_of_some _ hd, heap' ▸ Heap.get?_push_of_some _ hd',
      contents⟩

theorem set (h : rt.SameBut place rt') {r : Ref} {old : Object}
    (found : rt.heap.get? r = some old) (hr : r ≠ place) (o : Object) {rt₁ rt₁' : Runtime}
    (types : rt₁.types = rt.types) (types' : rt₁'.types = rt'.types)
    (heap : rt₁.heap = rt.heap.set r o) (heap' : rt₁'.heap = rt'.heap.set r o)
    (text : rt₁.nextText = rt.nextText) (text' : rt₁'.nextText = rt'.nextText) :
    rt₁.SameBut place rt₁' := by
  have inside := Heap.lt_size_of_get? found
  refine ⟨by rw [types, types', h.types], by rw [text, text', h.nextText], ?_, ?_, ?_⟩
  · have size := h.size
    simpa [heap, heap', Heap.size, Heap.set] using size
  · intro x hx
    rw [heap, heap']
    by_cases same : x = r
    · subst same
      rw [Heap.get?_set_self _ inside, Heap.get?_set_self _ (h.size ▸ inside)]
    · rw [Heap.get?_set_of_ne _ _ same, Heap.get?_set_of_ne _ _ same, h.others hx]
  · obtain ⟨d, d', hd, hd', contents⟩ := h.dictionary
    refine ⟨d, d', ?_, ?_, contents⟩
    · rw [heap, Heap.get?_set_of_ne _ _ (Ne.symm hr), hd]
    · rw [heap', Heap.get?_set_of_ne _ _ (Ne.symm hr), hd']

end Runtime.SameBut

namespace Activity

variable {α β : Type} {place : Ref} {rt rt' : Runtime}

/-- Two activities, each in its own one of two runtimes that differ in a single dictionary, that end
the same and leave the same elsewhere. -/
structure Abreast (place : Ref) (rt rt' : Runtime) (a b : Activity α) : Prop where
  result : (b.run rt').1 = (a.run rt).1
  after : (a.run rt).2.SameBut place (b.run rt').2

theorem abreast_pure (h : rt.SameBut place rt') (v : α) :
    Abreast place rt rt' (pure v) (pure v) :=
  ⟨rfl, h⟩

theorem abreast_throw (h : rt.SameBut place rt') (e : CallError) :
    Abreast place rt rt' (throw e : Activity α) (throw e) :=
  ⟨rfl, h⟩

theorem Abreast.bind {a b : Activity α} {f g : α → Activity β} (h : Abreast place rt rt' a b)
    (hf : ∀ v s s', s.SameBut place s' → Abreast place s s' (f v) (g v)) :
    Abreast place rt rt' (a >>= f) (b >>= g) := by
  obtain ⟨result, after⟩ := h
  rcases ha : a.run rt with ⟨ra, s⟩
  rcases hb : b.run rt' with ⟨rb, s'⟩
  rw [ha, hb] at result after
  obtain rfl : rb = ra := result
  cases rb with
  | error e => exact ⟨by simp only [run_bind, ha, hb], by simpa only [run_bind, ha, hb] using after⟩
  | ok v =>
    obtain ⟨result', after'⟩ := hf v s s' after
    exact ⟨by simpa only [run_bind, ha, hb] using result',
      by simpa only [run_bind, ha, hb] using after'⟩

theorem Abreast.get {f g : Runtime → Activity β} (h : Abreast place rt rt' (f rt) (g rt')) :
    Abreast place rt rt' (MonadState.get >>= f) (MonadState.get >>= g) :=
  ⟨h.result, h.after⟩

theorem abreast_text (h : rt.SameBut place rt') (content : String) :
    Abreast place rt rt' (text content) (text content) := by
  refine ⟨?_, ?_⟩
  · change Except.ok (Text.mk rt'.nextText content) = Except.ok (Text.mk rt.nextText content)
    rw [h.nextText]
  · exact ⟨h.types, congrArg (· + 1) h.nextText, h.size, h.others, h.dictionary⟩

theorem abreast_allocate (h : rt.SameBut place rt') (o : Object) :
    Abreast place rt rt' (allocate o) (allocate o) := by
  refine ⟨?_, h.push o rfl rfl rfl rfl rfl rfl⟩
  change Except.ok (Value.object rt'.heap.nextRef) = Except.ok (Value.object rt.heap.nextRef)
  rw [show rt'.heap.nextRef = rt.heap.nextRef from h.size]

theorem abreast_store (h : rt.SameBut place rt') {r : Ref} (hr : r ≠ place) (o : Object) :
    Abreast place rt rt' (store r o) (store r o) := by
  apply Abreast.get
  rw [h.others hr]
  cases found : rt.heap.get? r with
  | none => exact abreast_pure h ()
  | some old => exact ⟨rfl, h.set found hr o rfl rfl rfl rfl rfl rfl⟩

theorem run_modifyMetadata_plain {r : Ref} {o : Object} (found : rt.heap.get? r = some o)
    (plain : o.function? = none) (change : Metadata → Metadata) :
    (modifyMetadata r change).run rt = (.ok (), rt) := by
  unfold modifyMetadata
  rw [run_get, found]
  cases o with
  | function f => cases plain
  | _ => rfl

theorem abreast_modifyMetadata (h : rt.SameBut place rt') (r : Ref)
    (change : Metadata → Metadata) :
    Abreast place rt rt' (modifyMetadata r change) (modifyMetadata r change) := by
  by_cases hr : r = place
  · subst hr
    obtain ⟨o, o', ho, ho', same, plain⟩ := h.dictionary
    have run := run_modifyMetadata_plain ho plain change
    have run' := run_modifyMetadata_plain ho' (Object.function?_of_core same plain) change
    exact ⟨by rw [run, run'], by rw [run, run']; exact h⟩
  · apply Abreast.get
    rw [h.others hr]
    split
    · split
      · exact abreast_store h hr _
      · exact abreast_pure h ()
    · exact abreast_pure h ()

theorem abreast_dictFor (h : rt.SameBut place rt') (r : Ref) (field : Option Ref)
    (set : Ref → Metadata → Metadata) :
    Abreast place rt rt' (dictFor r field set) (dictFor r field set) := by
  cases field with
  | some dict => exact abreast_pure h dict
  | none =>
    apply Abreast.get
    rw [show rt'.heap.nextRef = rt.heap.nextRef from h.size]
    apply Abreast.bind ((abreast_allocate h (.dict .empty)).bind fun _ _ _ h => abreast_pure h ())
    intro _ _ _ h
    exact (abreast_modifyMetadata h r _).bind fun _ _ _ h => abreast_pure h _

/-- What a read comes to does the same on both sides. -/
theorem abreast_reading (h : rt.SameBut place rt') (reading : Reading) :
    Abreast place rt rt' reading.run reading.run := by
  cases reading with
  | failure cause => exact abreast_throw h cause
  | value v => exact abreast_pure h v
  | text content => exact (abreast_text h content).bind fun _ _ _ h => abreast_pure h _
  | wrapper w => exact abreast_allocate h _
  | dict r field => exact (abreast_dictFor h r none _).bind fun _ _ _ h => abreast_pure h _

/-- Reading an attribute of whoever does not share the dictionary is the same in both. -/
theorem abreast_getAttribute (sound : rt.Sound) (h : rt.SameBut place rt') {v : Value}
    (other : rt.attributePlace? v ≠ some place) (name : String) :
    Abreast place rt rt' (getAttribute v name) (getAttribute v name) := by
  obtain ⟨result, after⟩ := abreast_reading h (rt.reading v name)
  have left : (getAttribute v name).run rt = _ := run_getAttribute v name
  have right : (getAttribute v name).run rt' = _ := run_getAttribute v name
  rw [h.reading sound other] at right
  exact ⟨by rw [left, right]; exact result, by rw [left, right]; exact after⟩

end Activity
end Callables
