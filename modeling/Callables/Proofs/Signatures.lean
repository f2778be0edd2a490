import Callables.Parameters
import Mathlib.Data.List.Nodup

namespace Callables

/-- The names of a parameter list as they are declared. -/
structure Signature where
  positional : List String
  rest : Option String
  keywordOnly : List (List String)
  extra : Option String
  distinct : (positional ++ rest.toList ++ keywordOnly.flatten ++ extra.toList).Nodup
  few_positional : positional.length < Parameters.countLimit
  few_keywordOnly : keywordOnly.flatten.length < Parameters.countLimit

namespace Parameters

/-- Appending groups of keyword-only parameters is appending all their names at once. -/
theorem foldl_withKeywordOnly (groups : List (List String)) (p : Parameters)
    (few : p.keywordOnly < countLimit) :
    groups.foldl withKeywordOnly p =
      { p with
        keywordOnly := (p.keywordOnly + groups.flatten.length) % countLimit
        locals := p.locals ++ groups.flatten } := by
  induction groups generalizing p with
  | nil => simp [Nat.mod_eq_of_lt few]
  | cons group rest ih =>
    rw [List.foldl_cons, ih _ (Nat.mod_lt _ (by decide))]
    simp [withKeywordOnly, Nat.add_assoc]

end Parameters

namespace Signature

variable (s : Signature)

def names : List String := s.positional ++ s.keywordOnly.flatten

def parameters : Parameters :=
  let positional := Parameters.ofNames s.positional
  let collecting := s.rest.elim positional positional.withPositionalCollector
  let named := s.keywordOnly.foldl Parameters.withKeywordOnly collecting
  s.extra.elim named named.withKeywordCollector

/-- What the layout comes to: the counts are exact, and every group has its place. -/
theorem parameters_eq :
    s.parameters = {
      positional := s.positional.length
      keywordOnly := s.keywordOnly.flatten.length
      collectsPositional := s.rest.isSome
      collectsKeywords := s.extra.isSome
      locals := s.positional ++ s.rest.toList ++ s.keywordOnly.flatten ++ s.extra.toList } := by
  have hp := Nat.mod_eq_of_lt s.few_positional
  have hk := Nat.mod_eq_of_lt s.few_keywordOnly
  simp only [parameters]
  rw [Parameters.foldl_withKeywordOnly]
  · cases s.rest <;> cases s.extra <;>
      simp [Parameters.ofNames, Parameters.withPositionalCollector,
        Parameters.withKeywordCollector, hp] <;>
      simpa using hk
  · cases s.rest <;> exact Nat.mod_lt 0 (by decide)

@[simp] theorem parameters_positional : s.parameters.positional = s.positional.length := by
  rw [parameters_eq]

@[simp] theorem parameters_keywordOnly :
    s.parameters.keywordOnly = s.keywordOnly.flatten.length := by
  rw [parameters_eq]

@[simp] theorem parameters_collectsPositional :
    s.parameters.collectsPositional = s.rest.isSome := by
  rw [parameters_eq]

@[simp] theorem parameters_collectsKeywords :
    s.parameters.collectsKeywords = s.extra.isSome := by
  rw [parameters_eq]

theorem length_names :
    s.names.length = s.positional.length + s.keywordOnly.flatten.length := by
  simp only [names, List.length_append]

theorem names_nodup : s.names.Nodup := by
  have distinct := s.distinct
  simp only [List.nodup_append, List.mem_append] at distinct
  simp only [names, List.nodup_append]
  exact ⟨distinct.1.1.1, distinct.1.2.1, fun a ha b hb => distinct.1.2.2 a (.inl ha) b hb⟩

theorem take_locals : s.parameters.locals.take s.positional.length = s.positional := by
  simp [parameters_eq, List.append_assoc]

/-- The keyword-only names follow the name that collects positional arguments. -/
theorem take_drop_locals :
    (s.parameters.locals.drop s.parameters.keywordOnlyStart).take s.keywordOnly.flatten.length =
      s.keywordOnly.flatten := by
  have start : s.parameters.keywordOnlyStart = (s.positional ++ s.rest.toList).length := by
    cases h : s.rest <;> simp [Parameters.keywordOnlyStart, h]
  rw [start, parameters_eq, List.append_assoc _ _ s.extra.toList, List.drop_left,
    List.take_left]

theorem indexOf?_parameters (name : String) :
    s.parameters.indexOf? name = s.names.findIdx? (· == name) := by
  rw [Parameters.indexOf?, parameters_positional, parameters_keywordOnly, take_locals,
    take_drop_locals, names, List.findIdx?_append]
  cases s.positional.findIdx? (· == name) with
  | none => cases s.keywordOnly.flatten.findIdx? (· == name) <;> simp [Nat.add_comm]
  | some i => rfl

theorem indexOf?_eq_some_iff {name : String} {i : Nat} :
    s.parameters.indexOf? name = some i ↔ s.names[i]? = some name := by
  rw [indexOf?_parameters, List.findIdx?_eq_some_iff_getElem]
  constructor
  · rintro ⟨hi, here, -⟩
    rw [List.getElem?_eq_getElem hi, eq_of_beq here]
  · intro h
    obtain ⟨hi, rfl⟩ := List.getElem?_eq_some_iff.mp h
    refine ⟨hi, beq_self_eq_true _, fun j hj => ?_⟩
    simp [s.names_nodup.getElem_inj_iff, Nat.ne_of_lt hj]

theorem indexOf?_eq_none_iff {name : String} :
    s.parameters.indexOf? name = none ↔ name ∉ s.names := by
  rw [indexOf?_parameters, List.findIdx?_eq_none_iff]
  constructor
  · intro h hn
    simpa using h name hn
  · intro h x hx
    exact beq_false_of_ne fun hxn => h (hxn ▸ hx)

theorem nameAt_parameters {i : Nat} {name : String} (h : s.names[i]? = some name) :
    s.parameters.nameAt i = name := by
  have local_eq : s.parameters.locals =
      s.positional ++ s.rest.toList ++ s.keywordOnly.flatten ++ s.extra.toList := by
    rw [parameters_eq]
  unfold Parameters.nameAt
  rw [parameters_positional, parameters_collectsPositional, local_eq]
  by_cases hi : i < s.positional.length
  · rw [names, List.getElem?_append_left hi] at h
    simp only [hi, if_true, List.append_assoc, List.getElem?_append_left hi, h, Option.getD_some]
  · rw [names, List.getElem?_append_right (by omega)] at h
    have hk : i - s.positional.length < s.keywordOnly.flatten.length :=
      (List.getElem?_eq_some_iff.mp h).1
    have offset : (s.positional ++ s.rest.toList).length =
        s.positional.length + if s.rest.isSome then 1 else 0 := by
      cases s.rest <;> simp
    have place : i + (if s.rest.isSome then 1 else 0) - (s.positional ++ s.rest.toList).length =
        i - s.positional.length := by omega
    simp only [hi, if_false]
    rw [List.getElem?_append_left (by rw [List.length_append]; omega),
      List.getElem?_append_right (by omega), place, h]
    rfl

end Signature
end Callables
