import Ecma.Proofs.Run.Store

/-! Throwing an error: all that it leaves is a new object with a message. Runs that throw errors of
one kind in the same state differ in nothing but that message. -/

namespace Ecma

namespace Heap

/-- What is done to a new object may as well be done before it is added. -/
theorem modify_push_next (h : Heap) (data : ObjectData) (f : ObjectData → ObjectData) :
    (h.push data).modify h.next f = h.push (f data) := by
  simp only [push, modify, next, mk.injEq]
  refine Array.ext_getElem? fun i => ?_
  simp only [Array.getElem?_modify, Array.getElem?_push]
  split
  · next heq => simp [← heq]
  · next hne => simp [Ne.symm hne]

end Heap

namespace Cause

/-- The error object that a cause throws. -/
def object (cause : Cause) : ObjectData where
  prototype := some (Intrinsic.errorPrototype cause.kind)
  kind := .error
  properties := [("message", .data (.ofText cause.message) true false true)]

end Cause

namespace Eval

variable {α β : Type} {s : State}

/-- A property that is put on a new object. -/
theorem put_push {data data' : ObjectData} {key : PropertyKey} {d : Descriptor}
    (h : data.define key d = some data') :
    put s.heap.next key d { s with heap := s.heap.push data } =
      .ok () { s with heap := s.heap.push data' } := by
  simp [put, define, tryObject, discard, Functor.discard, Functor.mapConst, EStateM.map,
    s.heap.get_push_next data, h, Heap.modify_push_next]

theorem raise_apply (cause : Cause) (s : State) :
    (raise cause : Eval α) s =
      .error (.thrown (.object s.heap.next)) { s with heap := s.heap.push cause.object } := by
  let bare : ObjectData :=
    { prototype := some (Intrinsic.errorPrototype cause.kind), kind := .error }
  have halloc : alloc bare s = .ok s.heap.next { s with heap := s.heap.push bare } := rfl
  have hdefine : bare.define "message" (.hidden (.ofText cause.message)) = some cause.object := rfl
  simp only [raise, createError, newObject, bind, EStateM.bind, halloc, put_push hdefine, pure,
    EStateM.pure, throwValue, throw, throwThe, MonadExceptOf.throw, EStateM.throw, bare]

/-- Nothing comes after an error. -/
theorem raise_bind (cause : Cause) (f : α → Eval β) (s : State) :
    (raise cause >>= f) s = raise cause s := by
  rw [raise_apply]
  change EStateM.bind (raise cause) f s = _
  simp only [EStateM.bind, raise_apply]

theorem fault_eq_error (f : Fault) (s : State) :
    ∃ e s', (fault f : Eval α) s = .error e s' :=
  ⟨_, _, raise_apply (.fault f) { s with incidents := .fault f :: s.incidents }⟩

end Eval

end Ecma
