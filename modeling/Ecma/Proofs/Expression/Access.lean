import Ecma.Eval.Call
import Ecma.Proofs.Run.Raise
import Ecma.Proofs.Text.Encoding
import Ecma.Realm

/-! Access by a name and by a computed string. Wherever a property access may stand, `o.name` does
what `o["name"]` does, up to the message of an error. The one exception is the target of a plain
assignment: after undefined or null a name is an error at once, and a computed key only when the
value to be assigned is there. -/

namespace Ecma

/-! ### Outcomes up to messages -/

/-- The object with another text as its message. -/
def ObjectData.withMessage (o : ObjectData) (message : Units) : ObjectData :=
  { o with
    properties := replace "message" (.data (.string message) true false true) o.properties }

/-- Outcomes that are the same, or that throw one error object with different messages in states
that are the same otherwise. -/
inductive AgreeButMessage {α : Type} :
    EStateM.Result Abrupt State α → EStateM.Result Abrupt State α → Prop
  | same (r : EStateM.Result Abrupt State α) : AgreeButMessage r r
  | thrown (o : ObjectRef) (s : State) (message : Units) (kind : (s.heap.get o).kind = .error) :
    AgreeButMessage (.error (.thrown (.object o)) s)
      (.error (.thrown (.object o)) { s with heap := s.heap.modify o (·.withMessage message) })

namespace AgreeButMessage

variable {α β : Type} {s : State}

/-- Errors of one kind that are thrown in one state. -/
theorem raise {c c' : Cause} (h : c'.kind = c.kind) (s : State) :
    AgreeButMessage ((Eval.raise c : Eval α) s) (Eval.raise c' s) := by
  have hmessage : c'.object = c.object.withMessage (Units.ofString c'.message) := by
    rw [Cause.object, h]
    rfl
  rw [Eval.raise_apply, Eval.raise_apply, hmessage,
    ← s.heap.modify_push_next c.object (·.withMessage _)]
  exact .thrown s.heap.next { s with heap := s.heap.push c.object } _
    (congrArg ObjectData.kind (s.heap.get_push_next c.object))

/-- A step that is the same comes before. -/
theorem bind {x : Eval α} {f f' : α → Eval β} (h : ∀ a t, AgreeButMessage (f a t) (f' a t)) :
    AgreeButMessage ((x >>= f) s) ((x >>= f') s) := by
  change AgreeButMessage (EStateM.bind x f s) (EStateM.bind x f' s)
  unfold EStateM.bind
  cases x s with
  | ok a t => exact h a t
  | error e t => exact .same _

end AgreeButMessage

/-! ### Positions -/

namespace Expr

/-- The expression `object.name`. -/
def dotted (object : Expr) (name : String) : Expr :=
  .member object (.dot name)

/-- The expression `object["name"]`. -/
def bracketed (object : Expr) (name : String) : Expr :=
  .member object (.computed (.literal (.string name)))

end Expr

/-- Where a property access may stand. -/
inductive AccessPosition where
  | read
  | callee (args : List Expr)
  | assigned (op : AssignOp) (value : Expr)
  | updated (op : UpdateOp) (first : Bool)
  | deleted

namespace AccessPosition

/-- The expression with an access at the position. -/
def expr : AccessPosition → Expr → Expr
  | read, e => e
  | callee args, e => .call e args
  | assigned op value, e => .assign op e value
  | updated op first, e => .update op first e
  | deleted, e => .delete e

/-- The access is the target of a plain assignment. -/
def isTarget : AccessPosition → Bool
  | assigned .assign _ => true
  | _ => false

/-- The expression with `object.name` at the position. -/
def withName (p : AccessPosition) (object : Expr) (name : String) : Expr :=
  p.expr (object.dotted name)

/-- The expression with `object["name"]` at the position. -/
def withString (p : AccessPosition) (object : Expr) (name : String) : Expr :=
  p.expr (object.bracketed name)

end AccessPosition

/-! ### References -/

namespace Engine

open Eval (raise)

variable {α : Type} {eng : Engine} {object : Expr} {name : String} {scope : ScopeRef} {s t : State}
  {base : Value} {p : Primitive} {k k' : Reference → Eval α} {fuel : Nat}

/-- A name after undefined or null is an error at once; after other values it is a property. -/
theorem reference_dotted_bind (k : Reference → Eval α) :
    (eng.reference (.dotted object name) scope >>= k) s =
      match eng.expr object scope s with
      | .ok base t =>
        if base.isNullish then raise (.readOf base.text name) t
        else k (.property base name base) t
      | .error e t => .error e t := by
  change EStateM.bind (EStateM.bind (eng.expr object scope) _) k s = _
  simp only [EStateM.bind]
  cases eng.expr object scope s with
  | error e t => rfl
  | ok base t =>
    by_cases hnullish : base.isNullish = true
    · simp only [if_pos hnullish, Eval.raise_bind, Eval.raise_apply]
    · simp only [if_neg hnullish]
      rfl

/-- The value of a string literal, where the evaluator has fuel for the object of an access. -/
theorem expr_string (h : (ofFuel fuel).expr object scope s = .ok base t) :
    (ofFuel fuel).expr (.literal (.string name)) scope t = .ok (.string name) t := by
  cases fuel with
  | zero => cases h
  | succ fuel => rfl

/-- A string in brackets is a property of any value. -/
theorem reference_bracketed_bind (k : Reference → Eval α) :
    ((ofFuel fuel).reference (.bracketed object name) scope >>= k) s =
      match (ofFuel fuel).expr object scope s with
      | .ok base t => k (.property base name base) t
      | .error e t => .error e t := by
  change EStateM.bind (EStateM.bind ((ofFuel fuel).expr object scope) _) k s = _
  simp only [EStateM.bind]
  cases h : (ofFuel fuel).expr object scope s with
  | error e t => rfl
  | ok base t =>
    have hkey : (ofFuel fuel).memberKey (.computed (.literal (.string name))) scope t =
        .ok (.string name) t := by
      change EStateM.bind ((ofFuel fuel).expr _ scope) _ t = _
      simp only [EStateM.bind, expr_string h]
      rfl
    have hbind (f : PropertyKey → Eval Reference) :
        ((ofFuel fuel).memberKey (.computed (.literal (.string name))) scope >>= f) t =
          f (.string name) t := by
      change EStateM.bind _ f t = _
      simp only [EStateM.bind, hkey]
    cases hnullish : base.isNullish <;> simp [hnullish, hbind, pure, EStateM.pure]

/-- What goes on from a reference comes to the same in both forms, if it gives up with a type error
what is after undefined or null. -/
theorem agree_reference (hsame : ∀ r t, AgreeButMessage (k r t) (k' r t))
    (hnullish : ∀ p t, p.isNullish = true → ∃ c, c.kind = .type ∧
      k' (.property (.primitive p) name (.primitive p)) t = raise c t) :
    AgreeButMessage (((ofFuel fuel).reference (.dotted object name) scope >>= k) s)
      (((ofFuel fuel).reference (.bracketed object name) scope >>= k') s) := by
  rw [reference_dotted_bind, reference_bracketed_bind]
  cases (ofFuel fuel).expr object scope s with
  | error e t => exact .same _
  | ok base t =>
    dsimp only
    split
    · next hbase =>
      cases base with
      | object o => cases hbase
      | primitive p =>
        obtain ⟨c, hc, hk⟩ := hnullish p t hbase
        rw [hk]
        exact .raise (by exact hc) t
    · exact hsame _ t

theorem getValue_nullish (hp : p.isNullish = true) (this : Value) :
    eng.getValue (.property (.primitive p) name this) = raise (.readOf p.text name) := by
  have htext : (name : PropertyKey).text = name := Units.text_ofString name
  change eng.getOfPrimitive p name = _
  unfold getOfPrimitive
  rw [if_pos hp, htext]

/-- Where the value of the place is read first, that is the error. -/
theorem agree_read {k k' : Reference → Value → Eval α}
    (hsame : ∀ r v t, AgreeButMessage (k r v t) (k' r v t)) :
    AgreeButMessage
      (((ofFuel fuel).reference (.dotted object name) scope >>= fun r => do
        let v ← (ofFuel fuel).getValue r
        k r v) s)
      (((ofFuel fuel).reference (.bracketed object name) scope >>= fun r => do
        let v ← (ofFuel fuel).getValue r
        k' r v) s) := by
  refine agree_reference (fun r t => .bind (hsame r)) fun p t hp => ⟨.readOf p.text name, rfl, ?_⟩
  rw [getValue_nullish hp, Eval.raise_bind]

/-! ### Positions -/

theorem agree_callee (args : List Expr) :
    AgreeButMessage ((ofFuel fuel).callExpression (.dotted object name) args scope s)
      ((ofFuel fuel).callExpression (.bracketed object name) args scope s) := by
  simp only [callExpression, callee, Expr.isReference, Expr.dotted, Expr.bracketed, if_true,
    bind_assoc, pure_bind]
  refine agree_read fun r f t => .bind fun args t => ?_
  cases f with
  | primitive p =>
    exact .raise (by rfl) t
  | object o =>
    refine .bind fun callable t => ?_
    split
    · exact .same _
    · exact .raise (by rfl) t

theorem agree_updated (op : UpdateOp) (first : Bool) :
    AgreeButMessage ((ofFuel fuel).updateExpression op first (.dotted object name) scope s)
      ((ofFuel fuel).updateExpression op first (.bracketed object name) scope s) := by
  unfold updateExpression
  exact agree_read fun _ _ _ => .same _

/-- Deletion converts the object first, which undefined and null do not allow. -/
theorem agree_deleted :
    AgreeButMessage ((ofFuel fuel).deleteMember (.dotted object name) scope s)
      ((ofFuel fuel).deleteMember (.bracketed object name) scope s) := by
  refine agree_reference (fun _ _ => .same _) fun p t hp => ⟨.nullishToObject, rfl, ?_⟩
  simp only [toObject, if_pos hp, Eval.raise_bind]

theorem agree_assigned (op : AssignOp) (value : Expr) (hop : op ≠ .assign) :
    AgreeButMessage ((ofFuel fuel).assignExpression op (.dotted object name) value scope s)
      ((ofFuel fuel).assignExpression op (.bracketed object name) value scope s) := by
  unfold assignExpression
  cases op with
  | assign => exact absurd rfl hop
  | _ => exact agree_read fun _ _ _ => .same _

/-- The place is not read first by a plain assignment: the value comes before the error. -/
theorem putValue_nullish (hp : p.isNullish = true) (this v : Value) :
    eng.putValue (.property (.primitive p) name this) v = raise (.setOf p.text name) := by
  have htext : (name : PropertyKey).text = name := Units.text_ofString name
  funext t
  change eng.setProperty (.primitive p) name this v _ t = _
  rw [setProperty, if_pos hp, htext]

theorem assign_dotted (value : Expr) (h : eng.expr object scope s = .ok base t)
    (hbase : base.isNullish = true) :
    eng.assignExpression .assign (.dotted object name) value scope s =
      raise (.readOf base.text name) t := by
  unfold assignExpression
  rw [reference_dotted_bind, h]
  simp only [if_pos hbase]

theorem assign_bracketed (value : Expr) (h : (ofFuel fuel).expr object scope s = .ok base t)
    (hbase : base.isNullish = true) :
    (ofFuel fuel).assignExpression .assign (.bracketed object name) value scope s =
      (do let _ ← (ofFuel fuel).named value scope ""; raise (.setOf base.text name)) t := by
  unfold assignExpression
  rw [reference_bracketed_bind, h]
  cases base with
  | object o => cases hbase
  | primitive p =>
    have hput (v : Value) :
        ((ofFuel fuel).putValue (.property (.primitive p) name (.primitive p)) v >>= fun _ =>
          pure v) = raise (.setOf p.text name) := by
      rw [putValue_nullish hbase]
      exact funext fun u => Eval.raise_bind _ _ u
    change ((ofFuel fuel).named value scope "" >>= fun v =>
      (ofFuel fuel).putValue (.property (.primitive p) name (.primitive p)) v >>= fun _ =>
        pure v) t = _
    simp only [hput]
    rfl

theorem agree_target (value : Expr)
    (h : ∀ base t, (ofFuel fuel).expr object scope s = .ok base t → base.isNullish = false) :
    AgreeButMessage
      ((ofFuel fuel).assignExpression .assign (.dotted object name) value scope s)
      ((ofFuel fuel).assignExpression .assign (.bracketed object name) value scope s) := by
  unfold assignExpression
  rw [reference_dotted_bind, reference_bracketed_bind]
  cases hobject : (ofFuel fuel).expr object scope s with
  | error e t => exact .same _
  | ok base t =>
    simp only [h base t hobject, Bool.false_eq_true, if_false]
    exact .same _

/-! ### The two forms of access -/

/-- In every position but the target of a plain assignment, and there after every base but undefined
and null, an access by a name does what the access by a string does, up to the message of an error.
As the target of a plain assignment to what is undefined or null, the name is a type error before
the value is computed, and the string after that. -/
theorem access_by_name (fuel : Nat) (object : Expr) (name : String) (scope : ScopeRef)
    (s : State) :
    (∀ p : AccessPosition,
      (p.isTarget = true → ∀ base t,
        (ofFuel fuel).expr object scope s = .ok base t → base.isNullish = false) →
      AgreeButMessage ((ofFuel fuel).evaluate (p.withName object name) scope s)
        ((ofFuel fuel).evaluate (p.withString object name) scope s)) ∧
    ∀ value base t, (ofFuel fuel).expr object scope s = .ok base t → base.isNullish = true →
      (ofFuel fuel).evaluate
          ((AccessPosition.assigned .assign value).withName object name) scope s =
        raise (.readOf base.text name) t ∧
      (ofFuel fuel).evaluate
          ((AccessPosition.assigned .assign value).withString object name) scope s =
        (do let _ ← (ofFuel fuel).named value scope ""; raise (.setOf base.text name)) t := by
  refine ⟨fun p hp => ?_, fun value base t h hbase =>
    ⟨assign_dotted value h hbase, assign_bracketed value h hbase⟩⟩
  cases p with
  | read =>
    exact agree_reference (fun _ _ => .same _) fun base t hbase =>
      ⟨.readOf base.text name, rfl, by rw [getValue_nullish hbase]⟩
  | callee args => exact agree_callee args
  | assigned op value =>
    by_cases hop : op = .assign
    · subst hop
      exact agree_target value (hp rfl)
    · exact agree_assigned op value hop
  | updated op first => exact agree_updated op first
  | deleted => exact agree_deleted

end Engine

namespace AgreeButMessage

/-- The prototype of the object that is thrown. -/
def thrownPrototype : EStateM.Result Abrupt State Value → Option ObjectRef
  | .error (.thrown (.object o)) t => (t.heap.get o).prototype
  | _ => none

theorem thrownPrototype_eq {r r' : EStateM.Result Abrupt State Value} (h : AgreeButMessage r r') :
    thrownPrototype r = thrownPrototype r' := by
  cases h with
  | same => rfl
  | thrown o s message =>
    obtain hget | ⟨-, hget⟩ := s.heap.get_modify_cases o (·.withMessage message) o
    · simp only [thrownPrototype, hget]
    · simp only [thrownPrototype, hget]
      rfl

end AgreeButMessage

namespace Engine

/-- `null.x = y`, where there is no `y`, is a type error, and `null["x"] = y` a reference error. -/
theorem access_by_name_target :
    ¬∀ (fuel : Nat) (p : AccessPosition) (object : Expr) (name : String) (scope : ScopeRef)
      (s : State),
      AgreeButMessage ((ofFuel fuel).evaluate (p.withName object name) scope s)
        ((ofFuel fuel).evaluate (p.withString object name) scope s) := by
  intro h
  have heq := (h 2 (.assigned .assign (.identifier "y")) (.literal .null) "x" ⟨0⟩
    State.initial).thrownPrototype_eq
  revert heq
  decide +kernel

end Engine

end Ecma
