import Callables.Object

namespace Callables

structure Heap where
  cells : Array (Option Object)

namespace Heap

def empty : Heap := ⟨#[]⟩

def size (h : Heap) : Nat := h.cells.size

def get? (h : Heap) (r : Ref) : Option Object := (h.cells[r]?).join

def nextRef (h : Heap) : Ref := h.cells.size

def push (h : Heap) (o : Object) : Heap := ⟨h.cells.push (some o)⟩

def set (h : Heap) (r : Ref) (o : Object) : Heap := ⟨h.cells.setIfInBounds r (some o)⟩

def free (h : Heap) (r : Ref) : Heap := ⟨h.cells.setIfInBounds r none⟩

theorem lt_size_of_get? {h : Heap} {r : Ref} {o : Object} (found : h.get? r = some o) :
    r < h.size :=
  (Array.getElem?_eq_some_iff.mp (Option.join_eq_some_iff.mp found)).1

theorem get?_nextRef (h : Heap) : h.get? h.nextRef = none := by
  simp [get?, nextRef]

theorem get?_push (h : Heap) (o : Object) (r : Ref) :
    (h.push o).get? r = if r = h.nextRef then some o else h.get? r := by
  by_cases hr : r = h.cells.size
  · subst hr
    simp [get?, push, nextRef]
  · simp [get?, push, nextRef, Array.getElem?_push, hr]

@[simp] theorem nextRef_push (h : Heap) (o : Object) : (h.push o).nextRef = h.nextRef + 1 := by
  simp [nextRef, push]

@[simp] theorem nextRef_set (h : Heap) (r : Ref) (o : Object) :
    (h.set r o).nextRef = h.nextRef := by
  simp [nextRef, set]

theorem get?_push_of_some {h : Heap} {r : Ref} {old : Object} (o : Object)
    (found : h.get? r = some old) : (h.push o).get? r = some old := by
  rw [get?_push, if_neg, found]
  rintro rfl
  rw [get?_nextRef] at found
  cases found

theorem get?_set_of_ne (h : Heap) {r other : Ref} (o : Object) (hr : other ≠ r) :
    (h.set r o).get? other = h.get? other := by
  simp [get?, set, Array.getElem?_setIfInBounds_ne (Ne.symm hr)]

theorem get?_set_self {h : Heap} {r : Ref} (o : Object) (inside : r < h.size) :
    (h.set r o).get? r = some o := by
  have : r < h.cells.size := inside
  simp [get?, set, this]

theorem get?_free_of_ne (h : Heap) {r other : Ref} (hr : other ≠ r) :
    (h.free r).get? other = h.get? other := by
  simp [get?, free, Array.getElem?_setIfInBounds_ne (Ne.symm hr)]

theorem get?_free_self (h : Heap) (r : Ref) : (h.free r).get? r = none := by
  by_cases inside : r < h.cells.size <;> simp [get?, free, inside]

def object? (h : Heap) : Value → Option Object
  | .object r => h.get? r
  | _ => none

def tuple? (h : Heap) (v : Value) : Option (List Value) := (h.object? v).bind Object.tuple?

def dict? (h : Heap) (v : Value) : Option (Dict Value) := (h.object? v).bind Object.dict?

def code? (h : Heap) (v : Value) : Option Code := (h.object? v).bind Object.code?

def function? (h : Heap) (v : Value) : Option Function := (h.object? v).bind Object.function?

def itemsAt (h : Heap) (r : Option Ref) : List Value :=
  (r.bind fun r => h.tuple? (.object r)).getD []

def entriesAt (h : Heap) (r : Option Ref) : Dict Value :=
  (r.bind fun r => h.dict? (.object r)).getD Dict.empty

end Heap
end Callables
