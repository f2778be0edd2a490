import Callables.Proofs.Destinations
import Callables.Proofs.HostCalls

namespace Callables

def given {α : Type} (pairs : List (String × α)) (name : String) : List α :=
  (pairs.filter (·.1 = name)).map Prod.snd

section Given

variable {α : Type}

theorem given_append (pairs more : List (String × α)) (name : String) :
    given (pairs ++ more) name = given pairs name ++ given more name := by
  simp [given]

theorem given_singleton (pair : String × α) (name : String) :
    given [pair] name = if pair.1 = name then [pair.2] else [] := by
  by_cases same : pair.1 = name <;> simp [given, same]

theorem given_entries {d : Dict α} (distinct : d.keys.Nodup) (name : String) :
    given d.entries name = (d.get? name).toList := by
  obtain ⟨entries⟩ := d
  induction entries with
  | nil => rfl
  | cons entry rest ih =>
    obtain ⟨new, distinct⟩ := List.nodup_cons.mp distinct
    have later := ih distinct
    by_cases same : entry.1 = name
    · have absent : ∀ e ∈ rest, ¬ e.1 = name := fun e he heq =>
        new (List.mem_map.mpr ⟨e, he, heq.trans same.symm⟩)
      have none : rest.filter (·.1 = name) = [] := by simpa using absent
      simp [given, Dict.get?, same, none]
    · simpa [given, Dict.get?, same] using later

/-- A dict made of pairs keeps the last value of each name. -/
theorem get?_ofList (pairs : List (String × α)) (name : String) :
    (Dict.ofList pairs).get? name = (given pairs name).getLast? := by
  induction pairs using List.reverseRecOn with
  | nil => rfl
  | append_singleton pairs pair ih =>
    rw [Dict.ofList_append_singleton, given_append, given_singleton]
    by_cases same : pair.1 = name
    · subst same
      simp [Dict.get?_set_self]
    · simp [Dict.get?_set_of_ne _ _ (Ne.symm same), same, ih]

theorem nodup_keys_ofList (pairs : List (String × α)) : (Dict.ofList pairs).keys.Nodup := by
  rw [← Dict.ofHistory_settings]
  exact Dict.nodup_keys_ofHistory

end Given

namespace Parameters

variable (p : Parameters)

/-- The local that a keyword is for: a positional parameter, or a keyword-only one, whose place
among the locals is another than its index. -/
theorem indexOf?_cases {name : String} {i : Nat} (found : p.indexOf? name = some i) :
    i < p.positional ∧ p.locals[i]? = some name ∨
      ∃ j, j < p.keywordOnly ∧ i = p.positional + j ∧
        p.locals[p.keywordOnlyStart + j]? = some name := by
  unfold indexOf? at found
  split at found
  · rename_i j there
    obtain rfl := Option.some.inj found
    obtain ⟨inside, here, -⟩ := List.findIdx?_eq_some_iff_getElem.mp there
    rw [List.length_take] at inside
    refine .inl ⟨by omega, ?_⟩
    rw [List.getElem_take] at here
    rw [List.getElem?_eq_getElem (by omega), eq_of_beq here]
  · obtain ⟨j, there, rfl⟩ := Option.map_eq_some_iff.mp found
    obtain ⟨inside, here, -⟩ := List.findIdx?_eq_some_iff_getElem.mp there
    rw [List.length_take, List.length_drop] at inside
    refine .inr ⟨j, by omega, rfl, ?_⟩
    rw [List.getElem_take, List.getElem_drop] at here
    rw [List.getElem?_eq_getElem (by omega), eq_of_beq here]

theorem indexOf?_lt_size {name : String} {i : Nat} (found : p.indexOf? name = some i) :
    i < p.size := by
  unfold size
  rcases p.indexOf?_cases found with ⟨hi, -⟩ | ⟨j, hj, rfl, -⟩ <;> omega

theorem indexOf?_inj {name other : String} {i : Nat} (found : p.indexOf? name = some i)
    (same : p.indexOf? other = some i) : name = other := by
  rcases p.indexOf?_cases found with ⟨hi, here⟩ | ⟨j, hj, rfl, here⟩ <;>
    rcases p.indexOf?_cases same with ⟨hi', there⟩ | ⟨k, hk, place, there⟩
  · exact Option.some.inj (here.symm.trans there)
  · omega
  · omega
  · obtain rfl : j = k := by omega
    exact Option.some.inj (here.symm.trans there)

end Parameters

namespace Binding

variable {α : Type} {p : Parameters} {function : String} {keywords : List (String × α)}
  {start filled : Partial α}

/-- What placing keywords one by one has come to. -/
structure Placed (p : Parameters) (start : Partial α) (keywords : List (String × α))
    (filled : Partial α) : Prop where
  size : filled.slots.length = start.slots.length
  /-- A parameter takes one keyword at most. -/
  slot : ∀ name i, p.indexOf? name = some i →
    given keywords name = [] ∧ filled.slots[i]? = start.slots[i]? ∨
      ∃ value, given keywords name = [value] ∧ filled.slots[i]? = some (some value)
  /-- Of the others the last one is kept. -/
  extra : ∀ name, p.indexOf? name = none →
    filled.extra.get? name = (given keywords name).getLast?.or (start.extra.get? name)
  /-- There are others only if they are collected. -/
  collected : ∀ name, p.indexOf? name = none → given keywords name ≠ [] →
    p.collectsKeywords = true

namespace Placed

variable {keyword : String × α}

/-- One more keyword that is for a parameter: its slot was free. -/
theorem fill (placed : Placed p start keywords filled) {j : Nat}
    (target : p.indexOf? keyword.1 = some j) (inside : j < filled.slots.length)
    (free : ∀ value, filled.slots[j]? ≠ some (some value)) :
    Placed p start (keywords ++ [keyword])
      { filled with slots := filled.slots.set j (some keyword.2) } := by
  have other {name : String} (h : p.indexOf? name = none) : ¬ keyword.1 = name := by
    rintro rfl
    cases h.symm.trans target
  refine ⟨by simp [placed.size], fun name i hi => ?_, fun name h => ?_, fun name h => ?_⟩
  · rw [given_append, given_singleton]
    by_cases same : keyword.1 = name
    · subst same
      obtain rfl := Option.some.inj (target.symm.trans hi)
      -- Had an earlier keyword filled the slot, it would not be free.
      rcases placed.slot _ _ target with ⟨first, -⟩ | ⟨value, -, full⟩
      · refine .inr ⟨keyword.2, by simp [first], ?_⟩
        dsimp only
        rw [List.getElem?_set_self inside]
      · exact absurd full (free value)
    · have apart : j ≠ i := fun he => same (p.indexOf?_inj target (he ▸ hi))
      simpa [same, List.getElem?_set_ne apart] using placed.slot name i hi
  · simpa [given_append, given_singleton, other h] using placed.extra name h
  · simpa [given_append, given_singleton, other h] using placed.collected name h

/-- One more keyword that is collected: it takes the place of an earlier one of its name. -/
theorem collect (placed : Placed p start keywords filled) (target : p.indexOf? keyword.1 = none)
    (collects : p.collectsKeywords = true) :
    Placed p start (keywords ++ [keyword])
      { filled with extra := filled.extra.set keyword.1 keyword.2 } := by
  refine ⟨placed.size, fun name i hi => ?_, fun name h => ?_, fun _ _ _ => collects⟩
  · have other : ¬ keyword.1 = name := by
      rintro rfl
      cases hi.symm.trans target
    simpa [given_append, given_singleton, other] using placed.slot name i hi
  · rw [given_append, given_singleton]
    by_cases same : keyword.1 = name
    · subst same
      simp [Dict.get?_set_self]
    · simpa [same, Dict.get?_set_of_ne _ _ (Ne.symm same)] using placed.extra name h

theorem step {next : Partial α} (fits : start.slots.length = p.size)
    (placed : Placed p start keywords filled)
    (ok : placeKeyword function p filled keyword = .ok next) :
    Placed p start (keywords ++ [keyword]) next := by
  unfold placeKeyword at ok
  cases target : p.indexOf? keyword.1 with
  | some j =>
    rw [target] at ok
    dsimp only at ok
    have inside : j < filled.slots.length := by
      rw [placed.size, fits]
      exact p.indexOf?_lt_size target
    split at ok
    · cases ok
    · rename_i free
      obtain rfl := Except.ok.inj ok
      exact placed.fill target inside free
  | none =>
    rw [target] at ok
    dsimp only at ok
    split at ok
    · rename_i collects
      obtain rfl := Except.ok.inj ok
      exact placed.collect target collects
    · cases ok

end Placed

theorem placed_foldlM (fits : start.slots.length = p.size)
    (ok : keywords.foldlM (placeKeyword function p) start = .ok filled) :
    Placed p start keywords filled := by
  -- From the end: the last keyword meets what the others have come to.
  induction keywords using List.reverseRecOn generalizing filled with
  | nil =>
    obtain rfl := Except.ok.inj ok
    exact ⟨rfl, fun _ _ _ => .inl ⟨rfl, rfl⟩, fun _ _ => rfl, fun _ _ h => absurd rfl h⟩
  | append_singleton keywords keyword ih =>
    rw [List.foldlM_append] at ok
    cases before : keywords.foldlM (placeKeyword function p) start with
    | error e =>
      rw [before] at ok
      cases ok
    | ok middle =>
      rw [before] at ok
      change [keyword].foldlM (placeKeyword function p) middle = _ at ok
      rw [List.foldlM_cons] at ok
      cases last : placeKeyword function p middle keyword with
      | error e =>
        rw [last] at ok
        cases ok
      | ok next =>
        rw [last] at ok
        obtain rfl := Except.ok.inj ok
        exact (ih before).step fits last

theorem length_place (p : Parameters) (args : List α) : (place p args).length = p.size := by
  simp only [place, Parameters.size, List.length_append, List.length_map, List.length_take,
    List.length_replicate]
  omega

end Binding

/-- What an accepted call binds of its keywords: a parameter gets the only value that is given for
it, and the dict of the others keeps the last value of each name. -/
theorem Parameters.given_of_bind {α : Type} {p : Parameters} {function : String}
    {defaults : Defaults α} {args : List α} {keywords : List (String × α)} {bound : Bound α}
    (ok : p.bind function defaults args keywords = .ok bound) {name : String}
    (some_given : given keywords name ≠ []) :
    (∀ i, p.indexOf? name = some i →
      ∃ value, given keywords name = [value] ∧ bound.parameters[i]? = some value) ∧
    (p.indexOf? name = none →
      (bound.keywords.bind (·.get? name)) = (given keywords name).getLast?) := by
  obtain ⟨-, filled, values, folded, completed, rfl⟩ := (p.bind_eq_ok_iff ..).mp ok
  have placed := Binding.placed_foldlM (Binding.length_place p args) folded
  constructor
  · intro i target
    rcases placed.slot name i target with ⟨nothing, -⟩ | ⟨value, only, full⟩
    · exact absurd nothing some_given
    · have at_i := congrArg (·[i]?) (Binding.mapM_eq_ok_iff.mp completed)
      simp only [List.getElem?_map, List.getElem?_zipIdx, full, Option.map_some, Nat.zero_add,
        Binding.complete] at at_i
      obtain ⟨v, there, same⟩ := Option.map_eq_some_iff.mp at_i.symm
      obtain rfl := Except.ok.inj same
      exact ⟨v, only, there⟩
  · intro other
    have kept := placed.extra name other
    rw [Dict.get?_empty, Option.or_none] at kept
    rw [if_pos (placed.collected name other some_given)]
    exact kept

namespace Recipient

def received : Recipient → String → List Value
  | .native _ delivery, name => given delivery.keywords name
  | .body host, name =>
    match host.code.parameters.indexOf? name with
    | some i => host.bound.parameters[i]?.toList
    | none => (host.bound.keywords.bind (·.get? name)).toList
  | .closure _ _ keywords, name => given keywords.byName name

def collects : Recipient → String → Bool
  | @native c _ _, _ => c = .varArgsKeywords
  | .body host, name => (host.code.parameters.indexOf? name).isNone
  | .closure .., _ => false

/-- Under every name that is given the recipient gets all values, in order, or the last one if it
gets them in a dict. -/
def Receives (r : Recipient) (keywords : Keywords) : Prop :=
  ∀ name, given keywords.byName name ≠ [] →
    r.received name =
      if r.collects name then (given keywords.byName name).getLast?.toList
      else given keywords.byName name

theorem receives_body {rt : Runtime} {lead : Value} {view : ArgsView} {host : HostCall}
    (ok : rt.hostCall lead view = .ok host) : (body host).Receives view.keywords := by
  intro name some_given
  obtain ⟨defaults, args, bound⟩ := Runtime.exists_bind_of_hostCall ok
  obtain ⟨parameter, other⟩ := Parameters.given_of_bind bound some_given
  cases target : host.code.parameters.indexOf? name with
  | some i =>
    obtain ⟨value, only, there⟩ := parameter i target
    simp [received, collects, target, only, there]
  | none => simp [received, collects, target, other target]

theorem receives_native {c : Convention} (native : Native c) {name : String} {lead : Value}
    {args : List Value} {keywords : Keywords} {delivery : Delivery c}
    (made : Delivery.make name lead args keywords c = .ok delivery) :
    (Recipient.native native delivery).Receives keywords := by
  have carries := Delivery.carries_of_make made
  obtain ⟨-, packed⟩ := Delivery.make_eq_ok_iff.mp made
  intro keyword some_given
  have named : c.acceptsKeywords = true := by
    by_contra refuses
    have none := carries.unnamed (by simpa using refuses)
    subst none
    exact some_given rfl
  cases c with
  | noArgs | single | varArgs | fast => cases named
  | varArgsKeywords =>
    obtain rfl := Option.some.inj packed
    have there : keywords.isEmpty = false := by
      cases keywords with
      | nil => exact absurd rfl some_given
      | cons => rfl
    simp only [received, collects, there, Delivery.keywords]
    simp [given_entries (nodup_keys_ofList _), get?_ofList]
  | fastKeywords =>
    obtain rfl := Option.some.inj packed
    have splits := carries.view _ rfl
    simp [received, collects, Delivery.keywords, splits.keywords]

end Recipient

namespace Runtime

variable {rt : Runtime}

/-- An error that ends a call on its way: the arguments or the callee are no good, the entry is none
that can be called, or there is no level left. -/
def Obstructs (e : CallError) : Prop :=
  e.kind = .typeError ∨ e.kind = .systemError ∨ e.kind = .recursionError

theorem obstructs_of_checkReceiver {f : Function} {args : List Value} {e : CallError}
    (refused : rt.checkReceiver f args = .error e) : Obstructs e := by
  unfold checkReceiver at refused
  split at refused
  · split at refused
    · exact .inl (Except.error.inj refused ▸ rfl)
    · unfold checkSelf at refused
      split at refused
      · cases refused
      · exact .inl (Except.error.inj refused ▸ rfl)
  · cases refused

theorem obstructs_of_check {name : String} {args : List Value} {keywords : Keywords}
    {c : Convention} {e : CallError} (refused : Delivery.check name args keywords c = .error e) :
    Obstructs e := by
  unfold Delivery.check at refused
  split at refused
  · exact .inl (Except.error.inj refused ▸ rfl)
  · split at refused
    · split at refused
      · exact .inl (Except.error.inj refused ▸ rfl)
      · cases refused
    · split at refused
      · exact .inl (Except.error.inj refused ▸ rfl)
      · cases refused
    · cases refused

/-- A call is refused for its receiver, its flags or its arguments. -/
theorem obstructs_of_deliver {callee : Value} {f : Function} {args : List Value}
    {keywords : Keywords} {e : CallError}
    (refused : rt.deliver callee f args keywords = .error e) : Obstructs e := by
  rw [deliver_eq, accept_eq] at refused
  split at refused
  · rename_i received
    exact Except.error.inj refused ▸ obstructs_of_checkReceiver received
  · split at refused
    · rename_i invalid
      obtain rfl := Except.error.inj refused
      exact .inr (.inl (Entry.badCallFlags_of_validate invalid ▸ rfl))
    · rcases Delivery.make_cases f.entry.name (leadingArgument callee f args).1
        (leadingArgument callee f args).2 keywords f.entry.convention with
        ⟨e', checked, made⟩ | ⟨delivery, -, -, made⟩
      · rw [made] at refused
        exact Except.error.inj refused ▸ obstructs_of_check checked
      · rw [made] at refused
        cases refused

theorem obstructs_of_hostCall {lead : Value} {view : ArgsView} {e : CallError}
    (failed : rt.hostCall lead view = .error e) : Obstructs e := by
  unfold hostCall at failed
  dsimp only at failed
  split at failed
  · exact .inr (.inl (Except.error.inj failed ▸ rfl))
  · split at failed
    · exact .inl (Except.error.inj failed ▸ rfl)
    · split at failed
      · exact .inl (Except.error.inj failed ▸ rfl)
      · cases failed

/-- What the way of a call comes to: an obstacle, or a recipient that gets the keywords. -/
def Settles (keywords : Keywords) : Except CallError Recipient → Prop
  | .error e => Obstructs e
  | .ok r => r.Receives keywords

theorem settles_handOver {next : Passing} {name : String} {lead : Value} {args : List Value}
    {keywords : Keywords}
    (passes : ∀ callee args keywords, Settles keywords (next callee args keywords))
    {c : Convention} (native : Native c) {delivery : Delivery c}
    (made : Delivery.make name lead args keywords c = .ok delivery) :
    Settles keywords (rt.handOver next native delivery) := by
  have carries := Delivery.carries_of_make made
  cases native with
  | boundMethod =>
    cases delivery with
    | fastKeywords lead view =>
      have splits := carries.view view rfl
      dsimp only [handOver]
      split
      · exact splits.keywords ▸ passes _ _ _
      · exact .inr (.inl rfl)
  | hostFunction =>
    cases delivery with
    | fastKeywords lead view =>
      have splits := carries.view view rfl
      dsimp only [handOver]
      cases bound : rt.hostCall lead view with
      | error e => exact obstructs_of_hostCall bound
      | ok host => exact splits.keywords ▸ Recipient.receives_body bound
  | lead | fail | depth | pair | callArgument | pack | packKeywords | record | count | refuse
  | apply | receiver | countdown | recordKeywords | applyKeywords | attempt =>
    exact Recipient.receives_native _ made

theorem settles_direct {pass : Option Passing} {callee : Value} {args : List Value}
    {keywords : Keywords}
    (passes : ∀ next, pass = some next → ∀ callee args keywords,
      Settles keywords (next callee args keywords)) :
    Settles keywords (rt.direct pass callee args keywords) := by
  cases found : rt.baseFunction? callee with
  | none =>
    unfold direct
    rw [found]
    dsimp only
    split
    · exact fun name _ => rfl
    · exact .inl rfl
  | some f =>
    cases accepted : rt.deliver callee f args keywords with
    | error e =>
      rw [direct_of_refused found accepted]
      exact obstructs_of_deliver accepted
    | ok delivery =>
      obtain ⟨-, made⟩ := deliver_ok accepted
      cases pass with
      | none =>
        rw [direct_none found accepted]
        exact .inr (.inr rfl)
      | some next =>
        rw [direct_some found accepted]
        exact settles_handOver (passes next rfl) _ made

theorem settles_destination (rt : Runtime) (room : Nat) (callee : Value) (args : List Value)
    (keywords : Keywords) : Settles keywords (rt.destination room callee args keywords) := by
  induction room generalizing callee args keywords with
  | zero => exact settles_direct fun _ h => by cases h
  | succ room ih =>
    refine settles_direct ?_
    rintro _ ⟨⟩
    exact ih

/-- No value that is given under a repeated name is lost: the call is refused with a type error
before anything runs, or what it is for gets all values of every name. -/
def KeepsKeywords (rt : Runtime) (callee : Value) (args : List Value) (keywords : Keywords) :
    Prop :=
  (∃ e, rt.destination rt.thread.room callee args keywords = .error e ∧ e.isTypeError = true) ∨
    ∃ r, rt.destination rt.thread.room callee args keywords = .ok r ∧
      ∀ name, given keywords.byName name ≠ [] → r.received name = given keywords.byName name

end Runtime

namespace Recipient

/-- All values arrive if no repeated name is collected in a dict. -/
theorem Receives.all_iff {r : Recipient} {keywords : Keywords} (receives : r.Receives keywords) :
    (∀ name, given keywords.byName name ≠ [] → r.received name = given keywords.byName name) ↔
      ∀ name, 2 ≤ (given keywords.byName name).length → r.collects name = false := by
  constructor
  · intro all name repeated
    have there : given keywords.byName name ≠ [] := by
      intro none
      simp [none] at repeated
    have kept := receives name there
    rw [all name there] at kept
    by_contra collects
    rw [if_pos (by simpa using collects)] at kept
    have one := congrArg List.length kept
    have last : (given keywords.byName name).getLast?.toList.length ≤ 1 :=
      Option.length_toList_le
    omega
  · intro plain name there
    rw [receives name there]
    cases collects : r.collects name with
    | false => rfl
    | true =>
      have single : (given keywords.byName name).length < 2 := by
        by_contra many
        exact nomatch (plain name (by omega)).symm.trans collects
      match h : given keywords.byName name, there, single with
      | [value], _, _ => rfl

end Recipient

namespace Runtime

/-- What becomes of repeated keywords. A call does what its destination does. Either there is an
obstacle on the way, and nothing runs; or the destination gets under every name all values that are
given, in order, except that of several values that it collects in a dict it gets the last one. So
no value is lost exactly if the obstacle is a type error or no repeated name is collected in a
dict. -/
theorem repeated_keywords (rt : Runtime) (callee : Value) (args : List Value)
    (keywords : Keywords) :
    Activity.Ends rt (Activity.call callee args keywords)
        (rt.destination rt.thread.room callee args keywords) ∧
      Settles keywords (rt.destination rt.thread.room callee args keywords) ∧
      (rt.KeepsKeywords callee args keywords ↔
        (∀ e, rt.destination rt.thread.room callee args keywords = .error e →
          e.kind = .typeError) ∧
        ∀ r, rt.destination rt.thread.room callee args keywords = .ok r →
          ∀ name, 2 ≤ (given keywords.byName name).length → r.collects name = false) := by
  -- The last part needs only what the destination gets, and not how the call comes there.
  have settles := settles_destination rt rt.thread.room callee args keywords
  refine ⟨Activity.call_ends rt callee args keywords, settles, ?_⟩
  unfold KeepsKeywords
  cases goal : rt.destination rt.thread.room callee args keywords with
  | error e => simp [CallError.isTypeError]
  | ok r =>
    rw [goal] at settles
    simpa using Recipient.Receives.all_iff settles

end Runtime

namespace Session

/-- A program that has made a function with the parameters `**extra`, native functions of both
conventions with keywords, and a wrapper of a wrapper of one of them. -/
def collecting : Session :=
  (start .standard .empty).run [
    (.newCode ⟨"f", none, none, (Parameters.ofNames []).withKeywordCollector "extra", [],
      .collectedKeywords⟩, some "code"),
    (.newHostFunction (.kept "code") (.dict []) none none, some "f"),
    (.define "m" ⟨"m", .varArgsKeywords, .packKeywords, .join .varArgs .keywords, none, false⟩,
      none),
    (.newNativeFunction "m" none none none, some "m"),
    (.define "n" ⟨"n", .fastKeywords, .recordKeywords, .join .fast .keywords, none, false⟩, none),
    (.newNativeFunction "n" none none none, some "n"),
    (.bindMethod (.kept "n") (.int 7), some "inner"),
    (.bindMethod (.kept "inner") (.int 8), some "outer")]

theorem collecting_reachable : collecting.Reachable :=
  (Reachable.start _ _).run (by decide +kernel)

end Session

namespace Runtime

def twice : Keywords := [(⟨100, "k"⟩, .int 1), (⟨101, "k"⟩, .int 2)]

/-- Through two wrappers both values arrive. -/
theorem repeated_keywords_wrapped :
    Session.collecting.runtime.KeepsKeywords (.object 6) [] twice := by
  let contiguous : Recipient → Bool
    | @Recipient.native c _ _ => c = .fastKeywords
    | _ => false
  have reached : (Session.collecting.runtime.destination Session.collecting.runtime.thread.room
      (.object 6) [] twice).toOption.any contiguous = true := by
    decide +kernel
  obtain ⟨r, goes, plain⟩ := (Option.any_eq_true ..).mp reached
  refine (repeated_keywords Session.collecting.runtime (.object 6) [] twice).2.2.mpr
    ⟨fun e stops => ?_, fun r' goes' name _ => ?_⟩
  · rw [stops] at goes
    cases goes
  · rw [goes'] at goes
    obtain rfl := Option.some.inj goes
    cases r' with
    | native native delivery =>
      obtain rfl := of_decide_eq_true plain
      rfl
    | body | closure => cases plain

theorem not_keepsKeywords_of_received {rt : Runtime} {callee : Value} {args : List Value}
    {keywords : Keywords} {name : String} {values : List Value}
    (gets : (rt.destination rt.thread.room callee args keywords).toOption.map (·.received name) =
      some values) (there : given keywords.byName name ≠ [])
    (lost : values ≠ given keywords.byName name) : ¬ rt.KeepsKeywords callee args keywords := by
  obtain ⟨r, goes, rfl⟩ := Option.map_eq_some_iff.mp gets
  rintro (⟨e, stops, -⟩ | ⟨r', goes', all⟩)
  · rw [stops] at goes
    cases goes
  · rw [goes'] at goes
    obtain rfl := Option.some.inj goes
    exact lost (all name there)

/-- The first of two values is lost where keywords are collected in a dict: by a function with
`**extra`, whose body answers a dict with the last value, and by a native entry. -/
theorem keywords_lost :
    Session.collecting.Reachable ∧
      (¬ Session.collecting.runtime.KeepsKeywords (.object 2) [] twice ∧
        ¬ Session.collecting.runtime.KeepsKeywords (.object 3) [] twice) ∧
      let ran := (Activity.call (.object 2) [] twice).run Session.collecting.runtime
      ran.1.toOption.bind ran.2.heap.dict? = some ⟨[("k", .int 2)]⟩ := by
  have there : given twice.byName "k" ≠ [] := by decide
  have last : [Value.int 2] ≠ given twice.byName "k" := by decide
  exact ⟨Session.collecting_reachable,
    ⟨not_keepsKeywords_of_received (by decide +kernel) there last,
      not_keepsKeywords_of_received (by decide +kernel) there last⟩, by decide +kernel⟩

end Runtime
end Callables
