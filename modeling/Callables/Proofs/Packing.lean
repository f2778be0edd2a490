import Callables.Proofs.FlagChecks
import Callables.Proofs.Histories
import Callables.Proofs.Levels

namespace Callables

namespace Dict

variable {α : Type}

theorem ofList_append_singleton (pairs : List (String × α)) (pair : String × α) :
    ofList (pairs ++ [pair]) = (ofList pairs).set pair.1 pair.2 := by
  simp [ofList, List.foldl_append]

/-- Pairs with distinct keys are the entries of their dict. -/
theorem entries_ofList_of_nodup {pairs : List (String × α)}
    (distinct : (pairs.map Prod.fst).Nodup) : (ofList pairs).entries = pairs := by
  induction pairs using List.reverseRecOn with
  | nil => rfl
  | append_singleton pairs pair ih =>
    rw [List.map_append, List.map_singleton, List.nodup_append] at distinct
    have entries := ih distinct.1
    have absent : ¬ (ofList pairs).contains pair.1 = true := by
      rw [contains_iff_mem_keys, keys, entries]
      exact fun there => distinct.2.2 _ there _ (List.mem_singleton_self _) rfl
    rw [ofList_append_singleton, set, if_neg absent, entries]

end Dict

namespace ArgsView

def push (view : ArgsView) (keyword : Text × Value) : ArgsView where
  values := view.values ++ [keyword.2]
  names := view.names ++ [keyword.1]

theorem foldl_push (view : ArgsView) (keywords : Keywords) :
    keywords.foldl push view =
      ⟨view.values ++ keywords.values, view.names ++ keywords.map Prod.fst⟩ := by
  induction keywords generalizing view with
  | nil => simp [Keywords.values]
  | cons keyword rest ih => simp [ih, push, Keywords.values]

/-- A view splits its array into positional values and keyword values, one for each name. -/
structure Splits (view : ArgsView) (args : List Value) (keywords : Keywords) : Prop where
  array : view.values = args ++ keywords.values
  positional : view.positional = args
  keywordValues : view.keywordValues = keywords.values
  names : view.names = keywords.map Prod.fst
  keywords : view.keywords = keywords

theorem splits_ofCall (args : List Value) (keywords : Keywords) :
    (ofCall args keywords).Splits args keywords where
  array := rfl
  positional := positional_ofCall args keywords
  keywordValues := by simp [ofCall, keywordValues, positionalCount, Keywords.values]
  names := rfl
  keywords := keywords_ofCall args keywords

end ArgsView

namespace Delivery

variable {c : Convention}

def lead : Delivery c → Value
  | .noArgs lead | .single lead _ | .varArgs lead _ | .varArgsKeywords lead _ _ | .fast lead _
  | .fastKeywords lead _ => lead

def positional : Delivery c → List Value
  | .noArgs _ => []
  | .single _ arg => [arg]
  | .varArgs _ args | .varArgsKeywords _ args _ | .fast _ args => args
  | .fastKeywords _ view => view.positional

def keywords : Delivery c → List (String × Value)
  | .varArgsKeywords _ _ (some entries) => entries.entries
  | .fastKeywords _ view => view.keywords.byName
  | _ => []

def view? : Delivery c → Option ArgsView
  | .fastKeywords _ view => some view
  | _ => none

def check (name : String) (args : List Value) (keywords : Keywords) (c : Convention) :
    Except CallError Unit :=
  if !keywords.isEmpty && !c.acceptsKeywords then .error (.noKeywordArguments name)
  else
    match c with
    | .noArgs =>
      if args.length ≠ 0 then .error (.takesNoArguments name args.length) else .ok ()
    | .single =>
      if args.length ≠ 1 then .error (.takesOneArgument name args.length) else .ok ()
    | _ => .ok ()

/-- Packs arguments as a convention wants them, whatever their number; there is no result where one
is read that is not there. -/
def pack? (lead : Value) (args : List Value) (keywords : Keywords) :
    (c : Convention) → Option (Delivery c)
  | .noArgs => some (.noArgs lead)
  | .single => args[0]?.map (.single lead)
  | .varArgs => some (.varArgs lead args)
  | .varArgsKeywords =>
    some (.varArgsKeywords lead args
      (if keywords.isEmpty then none else some (Dict.ofList keywords.byName)))
  | .fast => some (.fast lead args)
  | .fastKeywords => some (.fastKeywords lead (keywords.foldl ArgsView.push ⟨args, []⟩))

/-- What passes the check can be packed, and that is what is handed over; what does not pass is
refused. -/
theorem make_cases (name : String) (lead : Value) (args : List Value) (keywords : Keywords)
    (c : Convention) :
    (∃ e, check name args keywords c = .error e ∧ make name lead args keywords c = .error e) ∨
      ∃ delivery, check name args keywords c = .ok () ∧
        pack? lead args keywords c = some delivery ∧
        make name lead args keywords c = .ok delivery := by
  unfold check make
  by_cases unnamed : (!keywords.isEmpty && !c.acceptsKeywords) = true
  · rw [if_pos unnamed, if_pos unnamed]
    exact .inl ⟨_, rfl, rfl⟩
  · rw [if_neg unnamed, if_neg unnamed]
    cases c with
    | noArgs =>
      cases args with
      | nil => exact .inr ⟨_, rfl, rfl, rfl⟩
      | cons => exact .inl ⟨_, rfl, rfl⟩
    | single =>
      match args with
      | [_] => exact .inr ⟨_, rfl, rfl, rfl⟩
      | [] | _ :: _ :: _ => exact .inl ⟨_, rfl, rfl⟩
    | varArgs | varArgsKeywords | fast => exact .inr ⟨_, rfl, rfl, rfl⟩
    | fastKeywords =>
      refine .inr ⟨_, rfl, rfl, ?_⟩
      rw [ArgsView.foldl_push]
      rfl

variable {name : String} {lead : Value} {args : List Value} {keywords : Keywords}
  {delivery : Delivery c}

theorem make_eq_ok_iff :
    make name lead args keywords c = .ok delivery ↔
      check name args keywords c = .ok () ∧ pack? lead args keywords c = some delivery := by
  rcases make_cases name lead args keywords c with ⟨_, refused, made⟩ | ⟨_, passes, there, made⟩
  · simp [refused, made]
  · simp [passes, there, made]

/-- What a call has to hand over arrives, and nothing else. -/
structure Carries (delivery : Delivery c) (lead : Value) (args : List Value)
    (keywords : Keywords) : Prop where
  lead : delivery.lead = lead
  /-- Complete and in order. -/
  positional : delivery.positional = args
  /-- Each pair once and in order. -/
  named : (keywords.byName.map Prod.fst).Nodup → delivery.keywords = keywords.byName
  view : ∀ view, delivery.view? = some view → view.Splits args keywords
  unnamed : c.acceptsKeywords = false → keywords = []
  noArgs : c = .noArgs → args = []
  single : c = .single → ∃ arg, args = [arg]

theorem carries_of_make (made : make name lead args keywords c = .ok delivery) :
    delivery.Carries lead args keywords := by
  obtain ⟨passes, packed⟩ := make_eq_ok_iff.mp made
  unfold check at passes
  split at passes
  · cases passes
  · rename_i taken
    have unnamed : c.acceptsKeywords = false → keywords = [] := by
      intro refuses
      simpa [refuses] using taken
    -- Without keywords there is nothing that could be lost.
    have plain (refuses : c.acceptsKeywords = false) : [] = keywords.byName := by
      rw [unnamed refuses]
      rfl
    cases c with
    | noArgs =>
      cases args with
      | cons => cases passes
      | nil =>
        obtain rfl := Option.some.inj packed
        exact ⟨rfl, rfl, fun _ => plain rfl, nofun, unnamed, fun _ => rfl, nofun⟩
    | single =>
      match args, passes with
      | [arg], _ =>
        obtain rfl := Option.some.inj packed
        exact ⟨rfl, rfl, fun _ => plain rfl, nofun, unnamed, nofun, fun _ => ⟨arg, rfl⟩⟩
    | varArgs | fast =>
      obtain rfl := Option.some.inj packed
      exact ⟨rfl, rfl, fun _ => plain rfl, nofun, unnamed, nofun, nofun⟩
    | varArgsKeywords =>
      obtain rfl := Option.some.inj packed
      refine ⟨rfl, rfl, fun distinct => ?_, nofun, unnamed, nofun, nofun⟩
      cases keywords with
      | nil => rfl
      | cons => exact Dict.entries_ofList_of_nodup distinct
    | fastKeywords =>
      obtain rfl := Option.some.inj packed
      have splits : (keywords.foldl ArgsView.push ⟨args, []⟩).Splits args keywords := by
        rw [ArgsView.foldl_push]
        exact ArgsView.splits_ofCall args keywords
      refine ⟨rfl, splits.positional, fun _ => congrArg Keywords.byName splits.keywords, ?_,
        unnamed, nofun, nofun⟩
      rintro _ ⟨⟩
      exact splits

end Delivery

structure Dispatch.Delivers (d : Dispatch) (delivery : Delivery d.function.entry.convention) :
    Prop where
  /-- An entry that asks for the function leads with the callable. -/
  function : d.function.entry.flags.has .passFunction = true →
    delivery.lead = d.callable ∧ delivery.positional = d.args
  bound : d.function.entry.flags.has .passFunction = false → ∀ receiver,
    d.function.receiver = some receiver →
      delivery.lead = receiver ∧ delivery.positional = d.args
  /-- A function with an owner class leads with its first argument. -/
  sliced : d.function.entry.flags.has .passFunction = false → d.function.receiver = none →
    d.function.owner.isSome = true → d.function.entry.flags.has .keepSelf = false →
      delivery.lead :: delivery.positional = d.args
  plain : d.function.entry.flags.has .passFunction = false → d.function.receiver = none →
    d.function.owner = none ∨ d.function.entry.flags.has .keepSelf = true →
      delivery.lead = .none ∧ delivery.positional = d.args
  carries : delivery.Carries delivery.lead delivery.positional d.keywords
  /-- Packing reads no argument that is not there. -/
  packed : Delivery.pack? delivery.lead delivery.positional d.keywords
    d.function.entry.convention = some delivery

namespace Runtime

variable {callable : Value} {f : Function} {args : List Value}

theorem leadingArgument_of_passes (passes : f.entry.flags.has .passFunction = true) :
    leadingArgument callable f args = (callable, args) :=
  if_pos passes

section

variable (called : f.entry.flags.has .passFunction = false)
include called

theorem leadingArgument_of_receiver {receiver : Value} (bound : f.receiver = some receiver) :
    leadingArgument callable f args = (receiver, args) := by
  simp only [leadingArgument, called, bound, Bool.false_eq_true, if_false]

variable (unbound : f.receiver = none)
include unbound

theorem leadingArgument_of_owner {first : Value} {rest : List Value}
    (owned : f.owner.isSome = true) (slices : f.entry.flags.has .keepSelf = false) :
    leadingArgument callable f (first :: rest) = (first, rest) := by
  simp only [leadingArgument, called, unbound, owned, slices, Bool.not_false, Bool.and_self,
    if_true, Bool.false_eq_true, if_false]

theorem leadingArgument_of_whole
    (whole : f.owner = none ∨ f.entry.flags.has .keepSelf = true) :
    leadingArgument callable f args = (.none, args) := by
  have unsliced : (f.owner.isSome && !f.entry.flags.has .keepSelf) = false := by
    rcases whole with unowned | keeps
    · simp [unowned]
    · simp [keeps]
  cases args <;>
    simp only [leadingArgument, called, unbound, unsliced, Bool.false_eq_true, if_false]

end

end Runtime

namespace Dispatch

variable {d : Dispatch}

/-- A dispatch with an owner class and no receiver has an argument to lead with. -/
theorem exists_first (checked : d.runtime.checkReceiver d.function d.args = .ok ())
    (unbound : d.function.receiver = none) (owned : d.function.owner.isSome = true) :
    ∃ first rest, d.args = first :: rest := by
  obtain ⟨owner, ho⟩ := Option.isSome_iff_exists.mp owned
  unfold Runtime.checkReceiver at checked
  rw [ho, unbound] at checked
  cases args : d.args with
  | nil =>
    rw [args] at checked
    cases checked
  | cons first rest => exact ⟨first, rest, rfl⟩

theorem delivers {delivery : Delivery d.function.entry.convention}
    (accepted : d.delivery = .ok delivery) : d.Delivers delivery := by
  obtain ⟨checked, made⟩ := Runtime.deliver_ok accepted
  obtain ⟨-, packed⟩ := Delivery.make_eq_ok_iff.mp made
  have carries := Delivery.carries_of_make made
  have leads : (delivery.lead, delivery.positional) =
      Runtime.leadingArgument d.callable d.function d.args :=
    Prod.ext carries.lead carries.positional
  rw [← leads] at carries packed
  refine ⟨fun passes => ?_, fun called receiver bound => ?_, fun called unbound owned slices => ?_,
    fun called unbound whole => ?_, carries, packed⟩
  · exact Prod.mk.inj (leads.trans (Runtime.leadingArgument_of_passes passes))
  · exact Prod.mk.inj (leads.trans (Runtime.leadingArgument_of_receiver called bound))
  · -- The check of the receiver has seen the argument that leads.
    obtain ⟨first, rest, args⟩ := exists_first checked unbound owned
    rw [args, Runtime.leadingArgument_of_owner called unbound owned slices] at leads
    obtain ⟨lead, positional⟩ := Prod.mk.inj leads
    rw [args, lead, positional]
  · exact Prod.mk.inj (leads.trans (Runtime.leadingArgument_of_whole called unbound whole))

/-- A dispatch delivers exactly the arguments of the call. A call of a function is a dispatch
with its arguments. Its entry point runs if the dispatch is accepted and there is room, on what is
delivered: the leading argument and the positional arguments behind it are those of the call,
together with the callable or its receiver where the flags say so; all keywords arrive, each once;
and the convention has a place for what it is handed. Otherwise the entry point does not run. -/
theorem arguments_arrive :
    (∀ (rt : Runtime) (callee : Value) (f : Function) (args : List Value) (keywords : Keywords),
      rt.baseFunction? callee = some f →
        (Activity.call callee args keywords).run rt =
          Dispatch.run ⟨rt, callee, f, args, keywords⟩) ∧
    ∀ d : Dispatch,
      (∀ delivery, d.delivery = .ok delivery → d.Delivers delivery ∧
        (d.runtime.thread.hasRoom = true →
          d.run = (Activity.around d.function.entry.opening d.function.entry.closing
            (Activity.runNative Activity.call d.function.entry.native delivery)).run d.runtime) ∧
        (d.runtime.thread.hasRoom = false →
          d.run = (.error (.recursionLimit d.function.entry.name d.runtime.thread.limit),
            d.runtime))) ∧
      ∀ e, d.delivery = .error e → d.run = (.error e, d.runtime.rejecting) := by
  refine ⟨fun rt callee f args keywords found => ?_, fun d => ⟨fun delivery accepted => ?_, ?_⟩⟩
  · rw [Activity.call_eq, Activity.run_callWith found]
    rfl
  · exact ⟨delivers accepted,
      fun room => Activity.run_dispatchWith_entered accepted room Activity.call,
      run_limited accepted⟩
  · exact fun e refused => run_refused refused

end Dispatch

namespace Session

def owned : Session :=
  (start .standard .empty).run [
    (.define "m" ⟨"m", .fastKeywords, .recordKeywords, .join .fast .keywords, none, false⟩, none),
    (.newNativeFunction "m" none none (some (.builtin "int")), some "f")]

end Session

namespace Dispatch

/-- The first argument leads; the others and the keyword arrive behind it. -/
theorem arguments_arrive_owned :
    ∃ f, Session.owned.runtime.baseFunction? (.object 0) = some f ∧
      ∃ delivery : Delivery f.entry.convention,
        Dispatch.delivery ⟨Session.owned.runtime, .object 0, f, [.int 1, .int 2],
          [(⟨7, "k"⟩, .int 3)]⟩ = .ok delivery ∧
        delivery.lead = .int 1 ∧ delivery.positional = [.int 2] ∧
        delivery.keywords = [("k", .int 3)] := by
  have facts : (Session.owned.runtime.baseFunction? (.object 0)).any (fun f =>
      f.receiver.isNone && f.owner.isSome && !f.entry.flags.has .passFunction &&
        !f.entry.flags.has .keepSelf && (Dispatch.delivery ⟨Session.owned.runtime, .object 0, f,
          [.int 1, .int 2], [(⟨7, "k"⟩, .int 3)]⟩).isOk) = true := by
    decide +kernel
  obtain ⟨f, found, facts⟩ := (Option.any_eq_true ..).mp facts
  simp only [Bool.and_eq_true, Bool.not_eq_true', Option.isNone_iff_eq_none] at facts
  obtain ⟨⟨⟨⟨unbound, owned⟩, called⟩, slices⟩, accepted⟩ := facts
  cases ok : Dispatch.delivery ⟨Session.owned.runtime, .object 0, f, [.int 1, .int 2],
      [(⟨7, "k"⟩, .int 3)]⟩ with
  | error e =>
    rw [ok] at accepted
    cases accepted
  | ok delivery =>
    have delivers := ((arguments_arrive.2 _).1 delivery ok).1
    obtain ⟨lead, positional⟩ := List.cons.inj (delivers.sliced called unbound owned slices)
    exact ⟨f, found, delivery, ok, lead, positional,
      delivers.carries.named (by simp [Keywords.byName])⟩

end Dispatch
end Callables
