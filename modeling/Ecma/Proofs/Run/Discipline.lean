import Ecma.Eval.Function
import Ecma.Proofs.Object.Accessor
import Ecma.Proofs.Syntax.Place

/-! Disciplines: properties of evaluations that are kept when evaluations are put together, and that
every single step on the heap has. Operations on values and built-in functions are put together from
such steps and from calls, so they keep every discipline that calls keep. What is known of the state
may grow from step to step; among it are the functions that an accessor may be made of. -/

namespace Ecma

/-- An evaluation ends abruptly, but not as only statements do. -/
class Abrupt.Plain (e : Abrupt) : Prop where
  ne_escaped : ∀ ending, e ≠ .escaped ending

instance (v : Value) : (Abrupt.thrown v).Plain := ⟨nofun⟩

instance : Abrupt.exhausted.Plain := ⟨nofun⟩

/-- A property of an evaluation in a state of which something is known, and of the values that it
may end with. -/
structure Discipline where
  /-- What may be known of a state. -/
  World : Type
  Later : World → World → Prop
  /-- An object is known to be a function. -/
  Callable : World → ObjectRef → Prop
  callable_later : ∀ {w w' : World} {f : ObjectRef}, Later w w' → Callable w f → Callable w' f
  Holds : {α : Type} → World → Eval α → (α → World → Prop) → Prop
  pure : ∀ {α : Type} {w : World} {a : α} {Q : α → World → Prop}, (∀ w', Later w w' → Q a w') →
    Holds w (pure a) Q
  throw : ∀ {α : Type} {w : World} {e : Abrupt} [e.Plain] {Q : α → World → Prop},
    Holds w (throw e) Q
  bind : ∀ {α β : Type} {w : World} {x : Eval α} {f : α → Eval β} {P : α → World → Prop}
    {Q : β → World → Prop}, Holds w x P → (∀ a w', Later w w' → P a w' → Holds w' (f a) Q) →
    Holds w (x >>= f) Q
  catching : ∀ {α : Type} {w : World} {x : Eval α} {handler : Value → Eval α}
    {Q : α → World → Prop}, Holds w x Q → (∀ v w', Holds w' (handler v) Q) →
    Holds w (Eval.catching x handler) Q
  heap : ∀ {α : Type} {w : World} (f : Heap → α), Holds w (Eval.heap f) fun _ _ => True
  isCallable : ∀ {w : World} (f : ObjectRef),
    Holds w (Eval.heap (·.isCallable f)) fun b w' => b = true → Callable w' f
  scopes : ∀ {α : Type} {w : World} (f : Scopes → α), Holds w (Eval.scopes f) fun _ _ => True
  isStrict : ∀ {w : World}, Holds w Eval.isStrict fun _ _ => True
  /-- Functions come from scripts. -/
  newObject : ∀ {w : World} {prototype : Option ObjectRef} {kind : ObjectKind},
    (∀ f, kind ≠ .function f) → Holds w (Eval.newObject prototype kind) fun _ _ => True
  define : ∀ {w : World} (o : ObjectRef) (key : PropertyKey) (d : Descriptor) [d.Coherent],
    d.Usable (Callable w) → Holds w (Eval.define o key d) fun _ _ => True
  delete : ∀ {w : World} (o : ObjectRef) (key : PropertyKey),
    Holds w (Eval.delete o key) fun _ _ => True
  preventExtensions : ∀ {w : World} (o : ObjectRef),
    Holds w (Eval.preventExtensions o) fun _ _ => True
  setPrototype : ∀ {w : World} (o : ObjectRef) (prototype : Option ObjectRef),
    Holds w (Eval.setPrototype o prototype) fun _ _ => True
  newSymbol : ∀ {w : World} (description : Option Units),
    Holds w (Eval.newSymbol description) fun _ _ => True
  write : ∀ {w : World} (text : String), Holds w (Eval.write text) fun _ _ => True
  /-- A function that is read from text of its own sees the global scope. -/
  instantiate : ∀ {w : World} {p : Program} {f : FunctionDef} (name : Units),
    Place.Has ⟨p, []⟩ (.function f false false) →
    Holds w (Eval.atSite ⟨p, []⟩ (Eval.instantiateFunction f Intrinsic.globalScope name))
      fun _ _ => True

variable {α β : Type} {δ : Discipline} {x : Eval α}

/-- An evaluation that keeps a discipline, whatever it ends with. -/
class Eval.Obeys (δ : Discipline) (x : Eval α) : Prop where
  holds : ∀ w, δ.Holds w x fun _ _ => True

/-- What is known of a value stays known. -/
def Discipline.Lasts (δ : Discipline) (P : α → δ.World → Prop) : Prop :=
  ∀ a w w', δ.Later w w' → P a w → P a w'

namespace Discipline.Holds

variable {w : δ.World} {P : α → δ.World → Prop} {Q : β → δ.World → Prop}

/-- A step of which nothing but its value is used. -/
theorem skip [hx : x.Obeys δ] {f : α → Eval β} (hf : ∀ a w', δ.Holds w' (f a) Q) :
    δ.Holds w (x >>= f) Q :=
  δ.bind (hx.holds w) fun a w' _ _ => hf a w'

/-- Nothing need be known of a value. -/
theorem any (hx : δ.Holds w x P) : δ.Holds w x fun _ _ => True := by
  rw [← bind_pure x]
  exact δ.bind hx fun _ _ _ _ => δ.pure fun _ _ => trivial

theorem mapM {xs : List α} {f : α → Eval β} (hQ : δ.Lasts Q)
    (h : ∀ a ∈ xs, ∀ w, δ.Holds w (f a) Q) :
    δ.Holds w (xs.mapM f) fun bs w' => ∀ b ∈ bs, Q b w' := by
  induction xs generalizing w with
  | nil => exact δ.pure fun _ _ => nofun
  | cons a rest ih =>
    rw [List.mapM_cons]
    refine δ.bind (h a (by simp) w) fun b w₁ _ hb => ?_
    refine δ.bind (ih fun a ha => h a (by simp [ha])) fun bs w₂ hw₂ hbs => ?_
    refine δ.pure fun w₃ hw₃ c hc => hQ c w₂ w₃ hw₃ ?_
    rcases List.mem_cons.mp hc with rfl | hc
    · exact hQ c w₁ w₂ hw₂ hb
    · exact hbs c hc

/-- Each step of a repetition may use what is known of its value from the start. -/
theorem each {xs : List α} {f : α → Eval PUnit} (hP : δ.Lasts P) (hxs : ∀ a ∈ xs, P a w)
    (h : ∀ a w, P a w → δ.Holds w (f a) fun _ _ => True) :
    δ.Holds w (xs.forM f) fun _ _ => True := by
  induction xs generalizing w with
  | nil => exact δ.pure fun _ _ => trivial
  | cons a rest ih =>
    refine δ.bind (h a w (hxs a (by simp))) fun _ w' hw' _ => ih fun b hb => ?_
    exact hP b w w' hw' (hxs b (by simp [hb]))

end Discipline.Holds

namespace Eval

/-! ### Putting evaluations together -/

theorem Obeys.bind {f : α → Eval β} [x.Obeys δ] (hf : ∀ a, (f a).Obeys δ) : (x >>= f).Obeys δ :=
  ⟨fun _ => .skip fun a => (hf a).holds⟩

/-- What is known of a value may be used after it. -/
theorem Obeys.bindWhere {f : α → Eval β} {P : α → δ.World → Prop} (hx : ∀ w, δ.Holds w x P)
    (hf : ∀ a w, P a w → δ.Holds w (f a) fun _ _ => True) : (x >>= f).Obeys δ :=
  ⟨fun w => δ.bind (hx w) fun a w' _ ha => hf a w' ha⟩

instance (a : α) : (pure a : Eval α).Obeys δ :=
  ⟨fun _ => δ.pure fun _ _ => trivial⟩

instance (e : Abrupt) [e.Plain] : (throw e : Eval α).Obeys δ :=
  ⟨fun _ => δ.throw⟩

instance {f : α → Eval β} [x.Obeys δ] [hf : ∀ a, (f a).Obeys δ] : (x >>= f).Obeys δ :=
  .bind hf

instance {f : α → β} [x.Obeys δ] : (f <$> x).Obeys δ := by
  rw [map_eq_pure_bind]
  infer_instance

instance [x.Obeys δ] : (discard x : Eval PUnit).Obeys δ :=
  inferInstanceAs ((Function.const α PUnit.unit <$> x).Obeys δ)

instance {b : Prop} [Decidable b] {y : Eval α} [x.Obeys δ] [y.Obeys δ] :
    (if b then x else y).Obeys δ := by
  split <;> infer_instance

instance {handler : Value → Eval α} [hx : x.Obeys δ] [h : ∀ v, (handler v).Obeys δ] :
    (catching x handler).Obeys δ :=
  ⟨fun w => δ.catching (hx.holds w) fun v => (h v).holds⟩

instance [x.Obeys δ] : (attempt x).Obeys δ := by unfold attempt; infer_instance

instance {xs : List α} {f : α → Eval PUnit} [h : ∀ a, (f a).Obeys δ] : (xs.forM f).Obeys δ :=
  ⟨fun _ => .each (P := fun _ _ => True) (fun _ _ _ _ h => h) (fun _ _ => trivial)
    fun a w _ => (h a).holds w⟩

instance {xs : List α} {f : α → Eval β} [h : ∀ a, (f a).Obeys δ] : (xs.mapM f).Obeys δ where
  holds w := by
    have hall : δ.Holds w (xs.mapM f) fun bs _ => ∀ b ∈ bs, True :=
      .mapM (fun _ _ _ _ h => h) fun a _ => (h a).holds
    simpa using hall

instance {a : Option α} {f : α → Eval PUnit} [h : ∀ a, (f a).Obeys δ] : (a.forM f).Obeys δ := by
  cases a with
  | none => exact inferInstanceAs (Obeys δ (Pure.pure PUnit.unit))
  | some a => exact h a

instance {a : Option α} {f : α → Eval β} [h : ∀ a, (f a).Obeys δ] : (a.mapM f).Obeys δ := by
  cases a with
  | none => exact inferInstanceAs (Obeys δ (Pure.pure none))
  | some a => exact inferInstanceAs (Obeys δ (some <$> f a))

/-! ### Steps -/

instance (f : Heap → α) : (heap f).Obeys δ := ⟨fun _ => δ.heap f⟩

instance (f : Scopes → α) : (scopes f).Obeys δ := ⟨fun _ => δ.scopes f⟩

instance : isStrict.Obeys δ := ⟨fun _ => δ.isStrict⟩

instance (prototype : Option ObjectRef) : (newObject prototype .ordinary).Obeys δ :=
  ⟨fun _ => δ.newObject nofun⟩

instance (prototype : Option ObjectRef) : (newObject prototype .error).Obeys δ :=
  ⟨fun _ => δ.newObject nofun⟩

instance (prototype : Option ObjectRef) : (newObject prototype .arguments).Obeys δ :=
  ⟨fun _ => δ.newObject nofun⟩

instance (prototype : Option ObjectRef) (p : Primitive) :
    (newObject prototype (.wrapping p)).Obeys δ :=
  ⟨fun _ => δ.newObject fun _ hf => by cases p <;> cases hf⟩

instance : newOrdinary.Obeys δ := by unfold newOrdinary; infer_instance

instance (o : ObjectRef) (key : PropertyKey) (d : Descriptor) [d.IsPlain] :
    (define o key d).Obeys δ :=
  ⟨fun _ => δ.define o key d Descriptor.IsPlain.usable⟩

instance (o : ObjectRef) (key : PropertyKey) (d : Descriptor) [d.IsPlain] :
    (put o key d).Obeys δ := by
  unfold put; infer_instance

instance (o : ObjectRef) (key : PropertyKey) : (delete o key).Obeys δ :=
  ⟨fun _ => δ.delete o key⟩

instance (o : ObjectRef) : (preventExtensions o).Obeys δ := ⟨fun _ => δ.preventExtensions o⟩

instance (o : ObjectRef) (prototype : Option ObjectRef) : (setPrototype o prototype).Obeys δ :=
  ⟨fun _ => δ.setPrototype o prototype⟩

instance (kind : ErrorKind) (message : String) : (createError kind message).Obeys δ := by
  unfold createError; infer_instance

instance (v : Value) : (throwValue v : Eval α).Obeys δ := ⟨fun _ => δ.throw⟩

end Eval

theorem Discipline.Holds.raise {w : δ.World} {cause : Cause} {Q : α → δ.World → Prop} :
    δ.Holds w (Eval.raise cause : Eval α) Q :=
  .skip fun _ _ => δ.throw

namespace Eval

instance (cause : Cause) : (raise cause : Eval α).Obeys δ := ⟨fun _ => .raise⟩

instance (r : Except ConversionError α) : (converted r).Obeys δ := by
  cases r with
  | ok a => exact inferInstanceAs (Obeys δ (Pure.pure a))
  | error e => exact inferInstanceAs (Obeys δ (raise _))

instance (description : Option Units) : (newSymbol description).Obeys δ :=
  ⟨fun _ => δ.newSymbol description⟩

instance (text : String) : (write text).Obeys δ := ⟨fun _ => δ.write text⟩

end Eval

/-- An engine whose calls keep a discipline. -/
class Engine.Obeys (δ : Discipline) (eng : Engine) : Prop where
  call : ∀ f this args, (eng.call f this args).Obeys δ
  construct : ∀ f args target, (eng.construct f args target).Obeys δ

end Ecma
