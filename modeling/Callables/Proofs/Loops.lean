import Callables.Proofs.Assignments
import Callables.Proofs.Shown

namespace Callables

namespace Heap

variable {h h' : Heap} {r : Ref}

/-- Values show the same as before, apart from an object that has changed. -/
theorem shown_of_change (same : ∀ s, s ≠ r → h'.get? s = h.get? s) {v : Value}
    (other : v ≠ .object r) : h'.shown v = h.shown v := by
  cases v with
  | object s =>
    have there : h'.get? s = h.get? s := same s fun here => other (by rw [here])
    simp only [shown, object?, there]
  | none | bool | int | float | text | type => rfl

/-- All chains end again if only one object has changed and nothing that it shows now led to it. -/
theorem wellFounded_of_change (ends : WellFounded h.ShownIn)
    (same : ∀ s, s ≠ r → h'.get? s = h.get? s)
    (free : ∀ c ∈ h'.shown (.object r), ¬ Relation.ReflTransGen h.ShownIn (.object r) c) :
    WellFounded h'.ShownIn := by
  have before {u c : Value} (other : c ≠ .object r) (shown : h'.ShownIn u c) : h.ShownIn u c := by
    rwa [ShownIn, ← shown_of_change same other]
  -- what does not lead to the object shows the same values all the way down
  have apart : ∀ c, ¬ Relation.ReflTransGen h.ShownIn (.object r) c → Acc h'.ShownIn c := by
    intro c
    induction c using ends.induction with
    | _ c ih =>
      intro away
      have other : c ≠ .object r := fun here => away (here ▸ .refl)
      exact .intro c fun u shown => ih u (before other shown) fun path =>
        away (path.tail (before other shown))
  have changed : Acc h'.ShownIn (.object r) := .intro _ fun c shown => apart c (free c shown)
  refine ⟨fun v => ?_⟩
  induction v using ends.induction with
  | _ v ih =>
    by_cases here : v = .object r
    · exact here ▸ changed
    · exact .intro v fun u shown => ih u (before here shown)

/-- What led to an object still does when only that has changed, unless it showed itself. -/
theorem path_of_change (same : ∀ s, s ≠ r → h'.get? s = h.get? s)
    (apart : ¬ h.Inside (.object r) (.object r)) {v : Value}
    (path : Relation.ReflTransGen h.ShownIn (.object r) v) :
    Relation.ReflTransGen h'.ShownIn (.object r) v := by
  induction path with
  | refl => exact .refl
  | @tail b c before step ih =>
    have other : c ≠ .object r := by
      rintro rfl
      exact apart (.tail' before step)
    refine ih.tail ?_
    rwa [ShownIn, shown_of_change same other]

end Heap

namespace Runtime

variable {rt rt' : Runtime}

/-- From one state to the next a dict gets a value that is the dict itself or shows it somewhere. -/
def Closes (rt rt' : Runtime) : Prop :=
  ∃ r old entries, rt.heap.get? r = some (.dict old) ∧ rt'.heap.get? r = some (.dict entries) ∧
    ∃ v ∈ entries.values, Relation.ReflTransGen rt.heap.ShownIn (.object r) v

def HasTexts (rt : Runtime) : Prop := ∀ v, (rt.repr? v).isSome = true

theorem hasTexts_iff : rt.HasTexts ↔ WellFounded rt.heap.ShownIn :=
  (forall_congr' fun _ => isSome_repr?_iff).trans ⟨WellFounded.intro, WellFounded.apply⟩

theorem Sound.knows_shown (sound : rt.Sound) {u v : Value} (shown : rt.heap.ShownIn u v) :
    rt.Knows u := by
  obtain ⟨r, o, rfl, here, held⟩ := Heap.shownIn_iff.mp shown
  exact (sound.live here).references u (o.shown_subset_references held)

/-- Nothing that is shown leads to a place without an object. -/
theorem Sound.not_path_of_free (sound : rt.Sound) {r : Ref} (free : rt.heap.get? r = none)
    {v : Value} (known : rt.Knows v) : ¬ Relation.ReflTransGen rt.heap.ShownIn (.object r) v := by
  intro path
  have there : rt.Knows (.object r) := by
    rcases Relation.ReflTransGen.cases_head path with rfl | ⟨u, shown, -⟩
    · exact known
    · exact sound.knows_shown shown
  obtain ⟨o, found⟩ := there
  rw [free] at found
  cases found

/-- A step that makes no dict show itself takes the text from no value. -/
theorem Step.wellFounded (step : rt.Step rt') (sound : rt.Sound)
    (ends : WellFounded rt.heap.ShownIn) (straight : ¬ rt.Closes rt') :
    WellFounded rt'.heap.ShownIn := by
  rcases step.heap_cases with fewer | ⟨o, new, heap⟩ | ⟨r, old, new, here, becomes, heap⟩
  · refine Subrelation.wf (fun {u v} shown => ?_) ends
    obtain ⟨r, o, rfl, here, held⟩ := Heap.shownIn_iff.mp shown
    exact Heap.shownIn_of_get? (fewer r o here) held
  · -- a new object is not yet shown anywhere
    refine Heap.wellFounded_of_change (r := rt.heap.nextRef) ends (fun s other => ?_) ?_
    · rw [heap, Heap.get?_push, if_neg other]
    · intro c shown
      have held : c ∈ o.shown := by
        simpa [heap, Heap.shown, Heap.object?, Heap.get?_push] using shown
      have known := new.references c (o.shown_subset_references held)
      exact sound.not_path_of_free rt.heap.get?_nextRef known
  · have there : rt'.heap.get? r = some new := by
      rw [heap, Heap.get?_set_self new (Heap.lt_size_of_get? here)]
    refine Heap.wellFounded_of_change (r := r) ends (fun s other => ?_) ?_
    · rw [heap, Heap.get?_set_of_ne _ new other]
    · intro c shown
      have held : c ∈ new.shown := by simpa [Heap.shown, Heap.object?, there] using shown
      rcases becomes.shown with ⟨entries, entries', rfl, rfl⟩ | same
      · exact fun path => straight ⟨r, entries, entries', here, there, c, held, path⟩
      · exact Heap.not_path_of_shown (ends.apply _) (Heap.shownIn_of_get? here (same ▸ held))

theorem Step.not_wellFounded (step : rt.Step rt') (ends : WellFounded rt.heap.ShownIn)
    (closes : rt.Closes rt') : ¬ WellFounded rt'.heap.ShownIn := by
  intro ends'
  obtain ⟨r, old, entries, here, there, v, held, path⟩ := closes
  -- the dict has other entries than before: with these ones it would have shown itself already
  have changed : rt.heap.get? r ≠ some (.dict entries) := fun same =>
    Heap.not_path_of_shown (ends.apply _) (Heap.shownIn_of_get? same held) path
  have same : ∀ s, s ≠ r → rt'.heap.get? s = rt.heap.get? s := by
    rcases step.heap_cases with fewer | ⟨o, new, heap⟩ | ⟨r', old', new, here', becomes, heap⟩
    · exact absurd (fewer r _ there) changed
    · rw [heap, Heap.get?_push_of_some o here] at there
      exact absurd (here.trans there) changed
    · by_cases place : r = r'
      · subst place
        exact fun s other => by rw [heap, Heap.get?_set_of_ne _ new other]
      · rw [heap, Heap.get?_set_of_ne _ new place] at there
        exact absurd there changed
  have path' := Heap.path_of_change same (Heap.not_inside_self (ends.apply _)) path
  exact Heap.not_path_of_shown (ends'.apply _) (Heap.shownIn_of_get? there held) path'

/-- As long as every value has a text, only a step that makes a dict show itself changes that. -/
theorem Step.hasTexts_iff (step : rt.Step rt') (sound : rt.Sound) (texts : rt.HasTexts) :
    rt'.HasTexts ↔ ¬ rt.Closes rt' := by
  have ends := Runtime.hasTexts_iff.mp texts
  refine ⟨fun texts' closes => ?_, fun straight => ?_⟩
  · exact step.not_wellFounded ends closes (Runtime.hasTexts_iff.mp texts')
  · exact Runtime.hasTexts_iff.mpr (step.wellFounded sound ends straight)

section Update

variable {dict : Ref} {entries : Dict Value} {name : String} {value : Value}

/-- The update of a dict with a known value is one step. -/
theorem Sound.step_setInDict (sound : rt.Sound) (found : rt.heap.get? dict = some (.dict entries))
    (known : rt.Knows value) : rt.Step ((Activity.setInDict dict name value).run rt).2 := by
  rw [Activity.run_setInDict found]
  refine .change (.replace dict _ _ found (.dict entries (entries.set name value)) ?_ rfl rfl rfl)
  refine .dict fun v held => ?_
  rcases Dict.mem_values_set held with rfl | old
  · exact known
  · exact (sound.live found).references v old

/-- The update of a dict makes one show itself exactly if the value leads to the dict. -/
theorem closes_setInDict_iff (ends : WellFounded rt.heap.ShownIn)
    (found : rt.heap.get? dict = some (.dict entries)) :
    rt.Closes ((Activity.setInDict dict name value).run rt).2 ↔
      Relation.ReflTransGen rt.heap.ShownIn (.object dict) value := by
  have straight {r : Ref} {old : Dict Value} (here : rt.heap.get? r = some (.dict old)) {v : Value}
      (held : v ∈ old.values) : ¬ Relation.ReflTransGen rt.heap.ShownIn (.object r) v :=
    Heap.not_path_of_shown (ends.apply _) (Heap.shownIn_of_get? here held)
  rw [Activity.run_setInDict found]
  constructor
  · rintro ⟨r, old, entries', here, there, v, held, path⟩
    by_cases place : r = dict
    · subst place
      have updated : some (Object.dict (entries.set name value)) = some (.dict entries') :=
        (Heap.get?_set_self _ (Heap.lt_size_of_get? found)).symm.trans there
      cases updated
      rcases Dict.mem_values_set held with rfl | before
      · exact path
      · exact absurd path (straight found before)
    · have same : rt.heap.get? r = some (.dict entries') :=
        (Heap.get?_set_of_ne _ _ place).symm.trans there
      exact absurd path (straight same held)
  · exact fun path => ⟨dict, entries, entries.set name value, found,
      Heap.get?_set_self _ (Heap.lt_size_of_get? found), value,
      Dict.mem_values_of_get? (Dict.get?_set_self entries name value), path⟩

end Update

theorem hasTexts_start (config : Config) : (start config).HasTexts := by
  refine hasTexts_iff.mpr ⟨fun v => .intro v fun u shown => ?_⟩
  obtain ⟨r, o, -, here, -⟩ := Heap.shownIn_iff.mp shown
  simp [start, Heap.get?, Heap.empty] at here

/-- Every value has a text, or an earlier step has made a dict show itself. -/
def TextsTraced (rt : Runtime) : Prop :=
  rt.HasTexts ∨ ∃ a b, Reachable a ∧ a.HasTexts ∧ a.Step b ∧ a.Closes b ∧ b.Reaches rt

theorem Step.textsTraced (step : rt.Step rt') (h : rt.Reachable) (traced : rt.TextsTraced) :
    rt'.TextsTraced := by
  rcases traced with texts | ⟨a, b, before, texts, first, closes, later⟩
  · by_cases closes : rt.Closes rt'
    · exact .inr ⟨rt, rt', h, texts, step, closes, .refl⟩
    · exact .inl ((step.hasTexts_iff h.sound texts).mpr closes)
  · exact .inr ⟨a, b, before, texts, first, closes, later.tail step⟩

theorem Reaches.textsTraced (reaches : rt.Reaches rt') (h : rt.Reachable)
    (traced : rt.TextsTraced) : rt'.TextsTraced := by
  induction reaches with
  | refl => exact traced
  | tail before step ih => exact step.textsTraced (h.reaches before) ih

end Runtime

theorem Session.Reachable.textsTraced {s : Session} (h : s.Reachable) : s.runtime.TextsTraced := by
  induction h with
  | start config entries => exact .inl (Runtime.hasTexts_start config)
  | step before operation room label ih =>
    exact (before.sound.step operation room label).2.textsTraced (.of_session before) ih

namespace Runtime

variable {rt : Runtime}

/-- Which values have a text, in three ways. -/
structure TextEnds (rt : Runtime) (v : Value) : Prop where
  /-- The text is what comes out at any depth at which something does. -/
  text : ∀ text, rt.repr? v = some text ↔ ∃ depth, rt.display depth v = some text
  /-- There is one exactly if no endless chain of values that are shown in each other starts at the
  value. -/
  chains : (rt.repr? v).isSome = true ↔ ¬ ∃ chain : ℕ → Value, chain 0 = v ∧
    ∀ n, rt.heap.ShownIn (chain (n + 1)) (chain n)
  /-- There is one exactly if the value leads to no dict that shows itself: tuples and bound
  wrappers alone never do. -/
  dicts : (rt.repr? v).isSome = true ↔ ∀ r entries, rt.heap.get? r = some (.dict entries) →
    Relation.ReflTransGen rt.heap.ShownIn (.object r) v →
      ¬ rt.heap.Inside (.object r) (.object r)

structure TextsEnd (rt : Runtime) : Prop where
  values : ∀ v, rt.TextEnds v
  /-- If there is a value without a text, a step made a dict show itself, and before that all values
  had texts. -/
  traced : rt.TextsTraced
  step : ∀ rt', rt.Step rt' → rt.HasTexts → (rt'.HasTexts ↔ ¬ rt.Closes rt')
  /-- An update of a dict leaves all values their texts exactly if the new value does not lead to
  the dict. -/
  update : ∀ dict entries name value, rt.heap.get? dict = some (.dict entries) → rt.Knows value →
    rt.HasTexts → (((Activity.setInDict dict name value).run rt).2.HasTexts ↔
      ¬ Relation.ReflTransGen rt.heap.ShownIn (.object dict) value)

theorem textEnds (layered : rt.heap.Layered) (v : Value) : rt.TextEnds v where
  text _ := repr?_eq_some_iff
  chains := by
    rw [isSome_repr?_iff, ← not_acc_iff_exists_descending_chain, not_not]
  dicts := by
    constructor
    · intro there r entries _ path
      exact Heap.not_inside_self (Heap.acc_of_reflTransGen (isSome_repr?_iff.mp there) path)
    · intro straight
      by_contra none
      obtain ⟨u, path, loop⟩ := exists_loop_of_repr? (Option.not_isSome_iff_eq_none.mp none)
      obtain ⟨r, entries, here, path', loop'⟩ := Heap.exists_dict_of_loop layered loop
      exact straight r entries here (path'.trans path) loop'

/-- The texts of values end, unless a dict has come to show itself by an update with a value that
leads to it. -/
theorem Reachable.texts_end (h : rt.Reachable) : rt.TextsEnd where
  values := textEnds h.layered
  traced := by
    obtain ⟨s, hs, reaches⟩ := h
    exact reaches.textsTraced (.of_session hs) hs.textsTraced
  step _ step texts := step.hasTexts_iff h.sound texts
  update dict entries name value found known texts := by
    rw [(h.sound.step_setInDict found known).hasTexts_iff h.sound texts,
      closes_setInDict_iff (hasTexts_iff.mp texts) found]

end Runtime

namespace Session

def looped : Session :=
  (start .standard .empty).run [
    (.make (.dict []), some "d"),
    (.setEntry (.kept "d") "k" (.kept "d"), none)]

theorem looped_reachable : looped.Reachable :=
  (Reachable.start _ _).run (by decide +kernel)

end Session

namespace Runtime

theorem looped_texts_end :
    Session.looped.runtime.Reachable ∧ Session.looped.runtime.repr? (.object 0) = none ∧
      ∃ chain : ℕ → Value, chain 0 = .object 0 ∧
        ∀ n, Session.looped.runtime.heap.ShownIn (chain (n + 1)) (chain n) := by
  have reachable := Reachable.of_session Session.looped_reachable
  have none : Session.looped.runtime.repr? (.object 0) = none := by decide +kernel
  refine ⟨reachable, none, ?_⟩
  by_contra straight
  have there := (reachable.texts_end.values (.object 0)).chains.mpr straight
  rw [none] at there
  cases there

/-- A dict can come to show itself, and then it has no text. -/
theorem texts_endless :
    (¬ ∀ (rt : Runtime) (v : Value), rt.Reachable → rt.Knows v →
      ¬ ∃ chain : ℕ → Value, chain 0 = v ∧ ∀ n, rt.heap.ShownIn (chain (n + 1)) (chain n)) ∧
    ¬ ∀ (rt : Runtime) (v : Value), rt.Reachable → rt.Knows v → (rt.repr? v).isSome = true := by
  have reachable := Reachable.of_session Session.looped_reachable
  have known : Session.looped.runtime.Knows (.object 0) :=
    (knows_object_iff _).mpr (by decide +kernel)
  have textless : ¬ (Session.looped.runtime.repr? (.object 0)).isSome = true := by decide +kernel
  refine ⟨fun straight => textless ?_, fun texts => textless (texts _ _ reachable known)⟩
  exact (textEnds reachable.layered (.object 0)).chains.mpr (straight _ _ reachable known)

end Runtime
end Callables
