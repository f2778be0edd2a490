import Mathlib.Order.WellFounded
import Callables.Display
import Callables.Proofs.Ages

namespace Callables

namespace Object

def shown : Object → List Value
  | .tuple items => items
  | .dict entries => entries.values
  | .function f => if f.isMethod then f.receiver.toList else []
  | _ => []

/-- What is shown in an object is part of it for good, unless the object is a dict. -/
theorem shown_cases (o : Object) {v : Value} (held : v ∈ o.shown) :
    (∃ entries, o = .dict entries) ∨ v ∈ o.parts := by
  cases o with
  | dict entries => exact .inl ⟨entries, rfl⟩
  | tuple => exact .inr held
  | function f =>
    simp only [shown] at held
    split at held
    · exact .inr (List.mem_append_left _ held)
    · cases held
  | module | code | ofClass | closure => cases held

theorem shown_subset_references (o : Object) {v : Value} (held : v ∈ o.shown) :
    v ∈ o.references := by
  rcases o.shown_cases held with ⟨entries, rfl⟩ | part
  · exact held
  · exact parts_subset_references v part

theorem Becomes.shown {o o' : Object} (h : o.Becomes o') :
    (∃ entries entries', o = .dict entries ∧ o' = .dict entries') ∨ o'.shown = o.shown := by
  cases h with
  | same | ofClass => exact .inr rfl
  | dict entries entries' => exact .inl ⟨entries, entries', rfl, rfl⟩
  | @function f g alike =>
    have bound : g.isMethod = f.isMethod := by
      rw [Function.isMethod, alike.wrapped, Function.isMethod]
    exact .inr (by simp only [Object.shown, bound, alike.receiver])

end Object

namespace Heap

def shown (h : Heap) (v : Value) : List Value := ((h.object? v).map Object.shown).getD []

/-- A value is shown in the text of another one. -/
def ShownIn (h : Heap) (u v : Value) : Prop := u ∈ h.shown v

/-- A value is shown somewhere inside the text of another one. -/
abbrev Inside (h : Heap) : Value → Value → Prop := Relation.TransGen h.ShownIn

variable {h : Heap} {u v : Value}

theorem shownIn_iff :
    h.ShownIn u v ↔ ∃ r o, v = .object r ∧ h.get? r = some o ∧ u ∈ o.shown := by
  unfold ShownIn shown
  cases v with
  | object r =>
    cases found : h.get? r with
    | none => simp [object?, found]
    | some o => simp [object?, found]
  | none | bool | int | float | text | type => simp [object?]

theorem shownIn_of_get? {r : Ref} {o : Object} (here : h.get? r = some o) (held : u ∈ o.shown) :
    h.ShownIn u (.object r) :=
  shownIn_iff.mpr ⟨r, o, rfl, here, held⟩

end Heap

section Options

variable {α β : Type} {f g : α → Option β} {xs : List α}

theorem mapM_eq_none_iff : xs.mapM f = none ↔ ∃ x ∈ xs, f x = none := by
  induction xs with
  | nil => simp
  | cons x xs ih =>
    rw [List.mapM_cons]
    cases hx : f x with
    | none => simp [hx]
    | some y => cases hxs : xs.mapM f <;> simp_all

/-- A traversal by steps that do no less comes to the same. -/
theorem mapM_eq_some_of_forall {ys : List β} (more : ∀ x ∈ xs, ∀ y, f x = some y → g x = some y)
    (made : xs.mapM f = some ys) : xs.mapM g = some ys := by
  induction xs generalizing ys with
  | nil => exact made
  | cons x xs ih =>
    rw [List.mapM_cons] at made ⊢
    obtain ⟨y, hx, rest⟩ := Option.bind_eq_some_iff.mp made
    obtain ⟨zs, hxs, same⟩ := Option.bind_eq_some_iff.mp rest
    rw [more x List.mem_cons_self y hx, ih (fun z hz => more z (List.mem_cons_of_mem _ hz)) hxs]
    exact same

/-- A traversal of pairs that keeps their keys is one of their values. -/
theorem mapM_pairs {κ : Type} (entries : List (κ × α)) :
    (entries.mapM fun e => (f e.2).map fun y => (e.1, y)) =
      ((entries.map Prod.snd).mapM f).map fun ys => (entries.map Prod.fst).zip ys := by
  induction entries with
  | nil => rfl
  | cons e rest ih =>
    simp only [List.map_cons, List.mapM_cons, ih]
    cases f e.2 with
    | none => rfl
    | some y => cases (rest.map Prod.snd).mapM f <;> rfl

end Options

namespace Runtime

variable {rt : Runtime} {u v : Value}

/-- The text of a value is made from the texts of what it shows, in the same way at every depth. -/
theorem exists_display_succ (rt : Runtime) (v : Value) :
    ∃ compose : List String → String, ∀ depth,
      rt.display (depth + 1) v = ((rt.heap.shown v).mapM (rt.display depth)).map compose := by
  have plain (text : String) (bare : rt.heap.shown v = [])
      (made : ∀ depth, rt.display (depth + 1) v = some text) :
      ∃ compose : List String → String, ∀ depth,
        rt.display (depth + 1) v = ((rt.heap.shown v).mapM (rt.display depth)).map compose :=
    ⟨fun _ => text, fun depth => by rw [made, bare]; rfl⟩
  cases v with
  | none | bool | int | float | text | type => exact plain _ rfl fun _ => rfl
  | object r =>
    have shown : rt.heap.shown (.object r) = ((rt.heap.get? r).map Object.shown).getD [] := rfl
    cases found : rt.heap.get? r with
    | none =>
      rw [found] at shown
      exact plain _ shown fun _ => by rw [display, found]
    | some o =>
      rw [found] at shown
      cases o with
      | tuple items =>
        refine ⟨tupleText, fun depth => ?_⟩
        rw [shown, display, found]
        rfl
      | dict entries =>
        refine ⟨fun ys => dictText ((entries.entries.map Prod.fst).zip ys), fun depth => ?_⟩
        rw [shown, display, found]
        simp only [mapM_pairs, Option.map_map]
        rfl
      | module | code | ofClass | closure => exact plain _ shown fun _ => by rw [display, found]
      | function f =>
        obtain ⟨entry, receiver, module, owner, watchers, kind⟩ := f
        cases kind with
        | builtin | defined | native => exact plain _ shown fun _ => by rw [display, found]
        | method wrapped =>
          cases receiver with
          | none => exact plain _ shown fun _ => by rw [display, found]
          | some receiver =>
            let f : Function := ⟨entry, some receiver, module, owner, watchers, .method wrapped⟩
            let compose (texts : List String) : String :=
              let text := texts.headD ""
              s!"<bound method {rt.qualname f} of {text}>"
            refine ⟨compose, fun depth => ?_⟩
            have one : rt.heap.shown (.object r) = [receiver] := shown
            rw [one, display, found]
            cases made : rt.display depth receiver <;> simp [made, f, compose]

/-- A value has no text within a depth if it shows one that has none within a depth less. -/
theorem display_succ_eq_none_iff {depth : Nat} :
    rt.display (depth + 1) v = none ↔ ∃ u, rt.heap.ShownIn u v ∧ rt.display depth u = none := by
  obtain ⟨compose, made⟩ := rt.exists_display_succ v
  rw [made, Option.map_eq_none_iff, mapM_eq_none_iff]
  rfl

/-- A text within a depth is the text within any greater depth. -/
theorem display_mono {depth depth' : Nat} (le : depth ≤ depth') {text : String}
    (made : rt.display depth v = some text) : rt.display depth' v = some text := by
  induction depth generalizing depth' v text with
  | zero => cases made
  | succ depth ih =>
    obtain ⟨depth', rfl⟩ : ∃ rest, depth' = rest + 1 := ⟨depth' - 1, by omega⟩
    obtain ⟨compose, step⟩ := rt.exists_display_succ v
    rw [step] at made ⊢
    obtain ⟨texts, inner, rfl⟩ := Option.map_eq_some_iff.mp made
    rw [mapM_eq_some_of_forall (fun u _ text' here => ih (by omega) here) inner]
    rfl

/-- A value with a text leads to no endless chain of values. -/
theorem acc_of_display {depth : Nat} {text : String} (made : rt.display depth v = some text) :
    Acc rt.heap.ShownIn v := by
  induction depth generalizing v text with
  | zero => cases made
  | succ depth ih =>
    refine .intro v fun u here => ?_
    cases inner : rt.display depth u with
    | some text' => exact ih inner
    | none =>
      have failed := display_succ_eq_none_iff.mpr ⟨u, here, inner⟩
      rw [made] at failed
      cases failed

/-- A chain of values that is longer than the heap comes to a value that shows itself. `seen` are
places that it has passed. -/
theorem exists_loop_of_display {depth : Nat} {seen : List Ref} (failed : rt.display depth v = none)
    (distinct : seen.Nodup)
    (passed : ∀ r ∈ seen, r < rt.heap.size ∧ rt.heap.Inside v (.object r))
    (long : rt.heap.size < depth + seen.length) :
    ∃ u, Relation.ReflTransGen rt.heap.ShownIn u v ∧ rt.heap.Inside u u := by
  induction depth generalizing v seen with
  | zero =>
    have few : seen.length ≤ (List.range rt.heap.size).length :=
      distinct.length_le_of_subset fun r hr => List.mem_range.mpr (passed r hr).1
    rw [List.length_range] at few
    omega
  | succ depth ih =>
    obtain ⟨u, step, deeper⟩ := display_succ_eq_none_iff.mp failed
    obtain ⟨r, o, rfl, here, -⟩ := Heap.shownIn_iff.mp step
    by_cases again : r ∈ seen
    · exact ⟨.object r, .refl, (passed r again).2⟩
    · obtain ⟨w, path, loop⟩ := ih deeper (List.nodup_cons.mpr ⟨again, distinct⟩) (by
          intro s hs
          rcases List.mem_cons.mp hs with rfl | earlier
          · exact ⟨Heap.lt_size_of_get? here, .single step⟩
          · exact ⟨(passed s earlier).1, .head step (passed s earlier).2⟩)
        (by rw [List.length_cons]; omega)
      exact ⟨w, path.tail step, loop⟩

end Runtime

namespace Heap

variable {h : Heap} {u v w : Value}

/-- What is inside a value that leads to no endless chain leads to none. -/
theorem acc_of_reflTransGen (acc : Acc h.ShownIn v)
    (path : Relation.ReflTransGen h.ShownIn u v) : Acc h.ShownIn u := by
  rcases Relation.reflTransGen_iff_eq_or_transGen.mp path with rfl | inside
  · exact acc
  · exact acc.inv_of_transGen inside

theorem not_inside_self (acc : Acc h.ShownIn v) : ¬ h.Inside v v := by
  induction acc.transGen with
  | intro v _ ih => exact fun self => ih v self (acc.inv_of_transGen self) self

theorem not_path_of_shown (acc : Acc h.ShownIn v) (shown : h.ShownIn u v) :
    ¬ Relation.ReflTransGen h.ShownIn v u :=
  fun path => not_inside_self acc (.tail' path shown)

theorem object_of_inside (inside : h.Inside u v) : ∃ r, v = .object r := by
  obtain ⟨_, -, last⟩ := Relation.TransGen.tail'_iff.mp inside
  obtain ⟨r, -, same, -⟩ := shownIn_iff.mp last
  exact ⟨r, same⟩

/-- What is inside a value is older, unless there is a dict on the way. -/
theorem exists_dict_of_inside (layered : h.Layered) (inside : h.Inside u v) :
    (∃ r entries, h.get? r = some (.dict entries) ∧ h.Inside u (.object r) ∧
      Relation.ReflTransGen h.ShownIn (.object r) v) ∨
    ∀ s r, u = .object s → v = .object r → s < r := by
  have last {b c : Value} (step : h.ShownIn b c) :
      (∃ r entries, c = .object r ∧ h.get? r = some (.dict entries)) ∨
        ∀ s r, b = .object s → c = .object r → s < r := by
    obtain ⟨r, o, rfl, here, held⟩ := shownIn_iff.mp step
    rcases o.shown_cases held with ⟨entries, rfl⟩ | part
    · exact .inl ⟨r, entries, rfl, here⟩
    · refine .inr ?_
      rintro s _ rfl ⟨⟩
      exact layered r o here s part
  induction inside with
  | single step =>
    rcases last step with ⟨r, entries, rfl, here⟩ | older
    · exact .inl ⟨r, entries, here, .single step, .refl⟩
    · exact .inr older
  | @tail b c before step ih =>
    rcases last step with ⟨r, entries, rfl, here⟩ | older
    · exact .inl ⟨r, entries, here, before.tail step, .refl⟩
    · rcases ih with ⟨r, entries, here, inner, path⟩ | younger
      · exact .inl ⟨r, entries, here, inner, path.tail step⟩
      · obtain ⟨t, rfl⟩ := object_of_inside before
        exact .inr fun s r hs hr => Nat.lt_trans (younger s t hs rfl) (older t r rfl hr)

/-- A value that shows itself does so by way of a dict. -/
theorem exists_dict_of_loop (layered : h.Layered) (loop : h.Inside v v) :
    ∃ r entries, h.get? r = some (.dict entries) ∧
      Relation.ReflTransGen h.ShownIn (.object r) v ∧ h.Inside (.object r) (.object r) := by
  rcases exists_dict_of_inside layered loop with ⟨r, entries, here, inside, path⟩ | older
  · exact ⟨r, entries, here, path, .trans_right path inside⟩
  · obtain ⟨r, rfl⟩ := object_of_inside loop
    exact absurd (older r r rfl rfl) (Nat.lt_irrefl r)

end Heap

namespace Runtime

variable {rt : Runtime} {v : Value}

/-- A value without a text leads to one that shows itself. -/
theorem exists_loop_of_repr? (none : rt.repr? v = none) :
    ∃ u, Relation.ReflTransGen rt.heap.ShownIn u v ∧ rt.heap.Inside u u :=
  exists_loop_of_display none List.nodup_nil (fun _ => nofun) (Nat.lt_succ_self _)

/-- There is a text exactly if every chain of values that are shown in each other ends. -/
theorem isSome_repr?_iff : (rt.repr? v).isSome = true ↔ Acc rt.heap.ShownIn v := by
  constructor
  · intro there
    obtain ⟨text, made⟩ := Option.isSome_iff_exists.mp there
    exact acc_of_display made
  · intro acc
    by_contra none
    obtain ⟨u, path, loop⟩ := exists_loop_of_repr? (Option.not_isSome_iff_eq_none.mp none)
    exact Heap.not_inside_self (Heap.acc_of_reflTransGen acc path) loop

/-- The depth at which the text is looked for is deep enough. -/
theorem repr?_eq_some_iff {text : String} :
    rt.repr? v = some text ↔ ∃ depth, rt.display depth v = some text := by
  constructor
  · exact fun made => ⟨_, made⟩
  · rintro ⟨depth, made⟩
    have there := isSome_repr?_iff.mpr (acc_of_display made)
    obtain ⟨text', made'⟩ := Option.isSome_iff_exists.mp there
    have deep := display_mono (Nat.le_max_left depth (rt.heap.size + 1)) made
    have deep' := display_mono (Nat.le_max_right depth (rt.heap.size + 1)) made'
    rw [made', ← deep', deep]

end Runtime
end Callables
