import Ecma.Builtin.Run
import Ecma.Eval.Statement

/-! Which objects data refer to. Data are known from some size of the heap on if every object that
they mention is there by then. -/

namespace Ecma

/-- Data of this type may refer to objects. -/
class Mentions (α : Type) where
  mentions : α → ObjectRef → Prop

/-- Data of this type refer to no object. -/
class Unlinked (α : Type) extends Mentions α where
  mentions _ _ := False
  none : ∀ a o, ¬mentions a o := by exact fun _ _ h => h

/-- Every object that `a` mentions is among the first `n` or one of those that are always there. -/
def Within {α : Type} [Mentions α] (n : Nat) (a : α) : Prop :=
  ∀ o, Mentions.mentions a o → o.index < n ∨ o.index ≤ Intrinsic.globalObject.index

/-- One size of the heap comes after another one. -/
class Later (n : outParam Nat) (m : Nat) : Prop where
  le : n ≤ m

theorem Later.refl (n : Nat) : Later n n :=
  ⟨Nat.le_refl n⟩

theorem Later.trans {n m k : Nat} (h₁ : Later n m) (h₂ : Later m k) : Later n k :=
  ⟨Nat.le_trans h₁.le h₂.le⟩

/-- Whether references are tracked, and which objects none may lead to. -/
structure Tracking where
  on : Prop
  hidden : ObjectRef → Prop
  hidden_gt : ∀ o, hidden o → Intrinsic.globalObject.index < o.index

namespace Tracking

/-- No references are tracked. -/
def off : Tracking := ⟨False, fun _ => False, fun _ => False.elim⟩

/-- References are tracked; no object is hidden. -/
def full : Tracking := ⟨True, fun _ => False, fun _ => False.elim⟩

/-- Every object that `a` mentions is among the first `n` or always there, and none is hidden. -/
def Within {α : Type} [Mentions α] (t : Tracking) (n : Nat) (a : α) : Prop :=
  ∀ o, Mentions.mentions a o →
    (o.index < n ∨ o.index ≤ Intrinsic.globalObject.index) ∧ ¬t.hidden o

end Tracking

/-- If references are tracked, every object that `a` mentions is there from `n` on, and is not
hidden. -/
class Known (tracked : Tracking) (n : Nat) {α : Type} [Mentions α] (a : α) : Prop where
  within : tracked.on → tracked.Within n a

/-- A size of the heap from `n` on. -/
abbrev Size (n : Nat) := { m : Nat // n ≤ m }

/-- Data that are known from `n` on. -/
structure Given (tracked : Tracking) (n : Nat) (α : Type) [Mentions α] where
  data : α
  known : Known tracked n data

section

variable {α β : Type} [Mentions α] [Mentions β] {n m : Nat} {tracked : Tracking} {a : α}

instance (m : Size n) : Later n m.val := ⟨m.property⟩

instance (a : Given tracked n α) : Known tracked n a.data := a.known

theorem Within.mono (h : Within n a) (hle : n ≤ m) : Within m a :=
  fun o ho => (h o ho).imp_left fun hlt => Nat.lt_of_lt_of_le hlt hle

namespace Tracking

theorem Within.mono (h : tracked.Within n a) (hle : n ≤ m) : tracked.Within m a :=
  fun o ho => (h o ho).imp_left fun hthere =>
    hthere.imp_left fun hlt => Nat.lt_of_lt_of_le hlt hle

theorem Within.of_unlinked {α : Type} [Unlinked α] {a : α} : tracked.Within n a :=
  fun o ho => absurd ho (Unlinked.none a o)

theorem Within.there (h : tracked.Within n a) : Ecma.Within n a :=
  fun o ho => (h o ho).1

end Tracking

theorem Within.full (h : Within n a) : Tracking.full.Within n a :=
  fun o ho => ⟨h o ho, id⟩

instance Known.later [hm : Later n m] [h : Known tracked n a] : Known tracked m a :=
  ⟨fun ht => (h.within ht).mono hm.le⟩

instance {α : Type} [Unlinked α] {a : α} : Known tracked n a :=
  ⟨fun _ => .of_unlinked⟩

/-- What is mentioned by something known is known. -/
theorem Known.of_mentions {b : β} (h : Known tracked n a)
    (hb : ∀ o, Mentions.mentions b o → Mentions.mentions a o) : Known tracked n b :=
  ⟨fun ht o ho => h.within ht o (hb o ho)⟩

end

/-! ### Data without references -/

instance : Unlinked PUnit := {}
instance : Unlinked Bool := {}
instance : Unlinked Nat := {}
instance : Unlinked Int := {}
instance : Unlinked String := {}
instance : Unlinked Number := {}
instance : Unlinked Units := {}
instance : Unlinked Symbol := {}
instance : Unlinked Primitive := {}
instance : Unlinked Numeric := {}
instance : Unlinked PropertyKey := {}
instance : Unlinked PrivateName := {}
instance : Unlinked ScopeRef := {}
instance : Unlinked Site := {}
instance : Unlinked BindingError := {}
instance : Unlinked Expr := {}
instance : Unlinked PropertyDef := {}
instance : Unlinked FunctionDef := {}
instance : Unlinked ClassElement := {}
instance : Unlinked Declarator := {}
instance : Unlinked SwitchCase := {}

/-! ### Containers -/

section

variable {α β : Type} [Mentions α] [Mentions β] {n : Nat} {tracked : Tracking} {a : α} {b : β}

instance : Mentions (Option α) := ⟨fun x o => ∃ a ∈ x, Mentions.mentions a o⟩

instance : Mentions (List α) := ⟨fun xs o => ∃ a ∈ xs, Mentions.mentions a o⟩

instance : Mentions (α × β) :=
  ⟨fun x o => Mentions.mentions x.1 o ∨ Mentions.mentions x.2 o⟩

instance : Mentions (Except α β) :=
  ⟨fun x o => match x with
    | .ok b => Mentions.mentions b o
    | .error a => Mentions.mentions a o⟩

instance : Mentions (Turn α β) :=
  ⟨fun x o => match x with
    | .again a => Mentions.mentions a o
    | .done b => Mentions.mentions b o⟩

instance {α : Type} [Unlinked α] : Unlinked (Option α) where
  toMentions := inferInstance
  none := fun _ o ⟨a, _, h⟩ => Unlinked.none a o h

instance {α : Type} [Unlinked α] : Unlinked (List α) where
  toMentions := inferInstance
  none := fun _ o ⟨a, _, h⟩ => Unlinked.none a o h

instance {α β : Type} [Unlinked α] [Unlinked β] : Unlinked (α × β) where
  toMentions := inferInstance
  none := fun x o h => h.elim (Unlinked.none x.1 o) (Unlinked.none x.2 o)

instance : Known tracked n (none : Option α) :=
  ⟨fun _ _ ⟨_, ha, _⟩ => by cases ha⟩

instance [h : Known tracked n a] : Known tracked n (some a) :=
  h.of_mentions fun _ ⟨_, hb, hm⟩ => by cases hb; exact hm

theorem Known.of_some (h : Known tracked n (some a)) : Known tracked n a :=
  h.of_mentions fun _ hm => ⟨a, rfl, hm⟩

instance {x : Option α} [hx : Known tracked n x] [ha : Known tracked n a] :
    Known tracked n (x.getD a) := by
  cases x with
  | none => exact ha
  | some b => exact hx.of_some

instance {x y : Option α} [hx : Known tracked n x] [hy : Known tracked n y] :
    Known tracked n (x <|> y) := by
  cases x with
  | none => exact hy
  | some a => exact hx

instance {x : Option α} {f : α → β} [hx : Known tracked n x]
    [hf : ∀ a : Given tracked n α, Known tracked n (f a.data)] : Known tracked n (x.map f) := by
  cases x with
  | none => exact inferInstanceAs (Known tracked n none)
  | some a =>
    have := hf ⟨a, hx.of_some⟩
    exact inferInstanceAs (Known tracked n (some (f a)))

instance {x : Option α} {f : α → Option β} [hx : Known tracked n x]
    [hf : ∀ a : Given tracked n α, Known tracked n (f a.data)] : Known tracked n (x.bind f) := by
  cases x with
  | none => exact inferInstanceAs (Known tracked n none)
  | some a => exact hf ⟨a, hx.of_some⟩

instance {x : Option α} {test : α → Bool} [hx : Known tracked n x] :
    Known tracked n (x.filter test) :=
  hx.of_mentions fun _ ⟨b, hb, hm⟩ => ⟨b, (Option.mem_filter_iff.mp hb).1, hm⟩

instance : Known tracked n ([] : List α) :=
  ⟨fun _ _ ⟨_, ha, _⟩ => by cases ha⟩

instance {xs : List α} [ha : Known tracked n a] [hxs : Known tracked n xs] :
    Known tracked n (a :: xs) := by
  refine ⟨fun ht o ⟨b, hb, hm⟩ => ?_⟩
  rcases List.mem_cons.mp hb with rfl | hb
  · exact ha.within ht o hm
  · exact hxs.within ht o ⟨b, hb, hm⟩

theorem Known.of_mem {xs : List α} (h : Known tracked n xs) (ha : a ∈ xs) : Known tracked n a :=
  h.of_mentions fun _ hm => ⟨a, ha, hm⟩

instance {xs ys : List α} [hxs : Known tracked n xs] [hys : Known tracked n ys] :
    Known tracked n (xs ++ ys) := by
  refine ⟨fun ht o ⟨b, hb, hm⟩ => ?_⟩
  rcases List.mem_append.mp hb with hb | hb
  · exact hxs.within ht o ⟨b, hb, hm⟩
  · exact hys.within ht o ⟨b, hb, hm⟩

theorem Known.of_subset {xs ys : List α} (h : Known tracked n ys) (hsub : xs ⊆ ys) :
    Known tracked n xs :=
  h.of_mentions fun _ ⟨b, hb, hm⟩ => ⟨b, hsub hb, hm⟩

instance {xs : List α} [h : Known tracked n xs] : Known tracked n xs.tail :=
  h.of_subset (List.tail_sublist xs).subset

instance {xs : List α} [h : Known tracked n xs] : Known tracked n xs.dropLast :=
  h.of_subset (List.dropLast_subset xs)

instance {xs : List α} [h : Known tracked n xs] : Known tracked n xs.getLast? :=
  h.of_mentions fun _ ⟨b, hb, hm⟩ => ⟨b, List.mem_of_getLast? hb, hm⟩

instance {xs : List α} [h : Known tracked n xs] : Known tracked n xs.zipIdx := by
  refine h.of_mentions fun _ ⟨b, hb, hm⟩ => ?_
  have hfst : b.1 ∈ xs := by
    have := List.mem_map_of_mem (f := Prod.fst) hb
    rwa [List.zipIdx_map_fst] at this
  exact ⟨b.1, hfst, hm.resolve_right id⟩

instance {xs : List α} {i : Nat} [hxs : Known tracked n xs] [ha : Known tracked n a] :
    Known tracked n (xs.getD i a) := by
  rw [List.getD_eq_getElem?_getD]
  cases hget : xs[i]? with
  | none => exact ha
  | some b => exact hxs.of_mem (List.mem_of_getElem? hget)

instance {xs : List (Option α)} [h : Known tracked n xs] : Known tracked n (xs.filterMap id) := by
  refine h.of_mentions fun _ ⟨b, hb, hm⟩ => ?_
  obtain ⟨x, hx, heq⟩ := List.mem_filterMap.mp hb
  exact ⟨x, hx, b, heq, hm⟩

theorem Known.of_lookup {κ : Type} [BEq κ] [LawfulBEq κ] [Mentions κ] {xs : List (κ × α)} {k : κ}
    (h : Known tracked n xs) : Known tracked n (xs.lookup k) := by
  refine h.of_mentions fun _ ⟨b, hb, hm⟩ => ⟨(k, b), ?_, .inr hm⟩
  obtain ⟨l, r, rfl, -⟩ := List.lookup_eq_some_iff.mp hb
  simp

instance [ha : Known tracked n a] [hb : Known tracked n b] : Known tracked n (a, b) :=
  ⟨fun ht o hm => hm.elim (ha.within ht o) (hb.within ht o)⟩

instance [hb : Known tracked n b] : Known tracked n (Except.ok b : Except α β) := ⟨hb.within⟩

instance [ha : Known tracked n a] : Known tracked n (Except.error a : Except α β) := ⟨ha.within⟩

instance [ha : Known tracked n a] : Known tracked n (Turn.again a : Turn α β) := ⟨ha.within⟩

instance [hb : Known tracked n b] : Known tracked n (Turn.done b : Turn α β) := ⟨hb.within⟩

theorem Known.ok (h : Known tracked n (Except.ok b : Except α β)) : Known tracked n b := ⟨h.within⟩

theorem Known.error (h : Known tracked n (Except.error a : Except α β)) : Known tracked n a :=
  ⟨h.within⟩

theorem Known.again (h : Known tracked n (Turn.again a : Turn α β)) : Known tracked n a :=
  ⟨h.within⟩

theorem Known.done (h : Known tracked n (Turn.done b : Turn α β)) : Known tracked n b := ⟨h.within⟩

theorem Known.fst {x : α × β} (h : Known tracked n x) : Known tracked n x.1 :=
  h.of_mentions fun _ => .inl

theorem Known.snd {x : α × β} (h : Known tracked n x) : Known tracked n x.2 :=
  h.of_mentions fun _ => .inr

end

/-! ### Values and properties -/

instance : Mentions ObjectRef := ⟨fun o p => o = p⟩

instance : Mentions Value :=
  ⟨fun v o => match v with
    | .object p => p = o
    | .primitive _ => False⟩

instance : Mentions Property :=
  ⟨fun p o => match p with
    | .data v _ _ _ => Mentions.mentions v o
    | .accessor get set _ _ => Mentions.mentions (get, set) o⟩

instance : Mentions Descriptor := ⟨fun d o => Mentions.mentions (d.value, d.get, d.set) o⟩

instance : Mentions PrivateElement :=
  ⟨fun e o => match e with
    | .method f => f = o
    | .accessor get set => Mentions.mentions (get, set) o⟩

/-! ### Objects and scopes -/

instance : Mentions ScriptFunction :=
  ⟨fun f o => Mentions.mentions (f.homeObject, f.privateMethods) o⟩

instance : Mentions ObjectKind :=
  ⟨fun kind o => match kind with
    | .function f => Mentions.mentions f o
    | _ => False⟩

instance : Mentions ObjectData :=
  ⟨fun data o =>
    Mentions.mentions (data.prototype, data.properties, data.kind, data.privateElements) o⟩

instance : Mentions Binding := ⟨fun b o => Mentions.mentions b.value o⟩

instance : Mentions FunctionScope :=
  ⟨fun f o => Mentions.mentions (f.this, f.function, f.newTarget) o⟩

instance : Mentions Environment := ⟨fun e o => Mentions.mentions (e.bindings, e.function) o⟩

/-! ### Results of evaluations -/

instance : Mentions Completion :=
  ⟨fun c o => match c with
    | .normal v => Mentions.mentions v o
    | .returned v => Mentions.mentions v o
    | .broke _ v => Mentions.mentions v o
    | .continued _ v => Mentions.mentions v o⟩

instance : Mentions Reference :=
  ⟨fun r o => match r with
    | .property base _ this => Mentions.mentions (base, this) o
    | .privateMember base _ => Mentions.mentions base o
    | _ => False⟩

instance : Mentions Abrupt :=
  ⟨fun e o => match e with
    | .thrown v => Mentions.mentions v o
    | .escaped ending => Mentions.mentions ending o
    | .exhausted => False⟩

instance : Mentions ClassPrivates := ⟨fun p o => Mentions.mentions (p.instances, p.statics) o⟩

instance : Mentions Invocation :=
  ⟨fun call o => Mentions.mentions (call.this, call.args, call.newTarget) o⟩

section

variable {n : Nat} {tracked : Tracking} {v w : Value} {o : ObjectRef}

/-! ### Fixed places -/

theorem Known.of_le (h : o.index ≤ Intrinsic.globalObject.index) : Known tracked n o := by
  refine ⟨fun _ p ho => ?_⟩
  cases ho
  exact ⟨.inr h, fun hhidden => Nat.not_lt.mpr h (tracked.hidden_gt o hhidden)⟩

instance : Known tracked n Intrinsic.objectPrototype := .of_le (by decide)

instance : Known tracked n Intrinsic.functionPrototype := .of_le (by decide)

instance : Known tracked n Intrinsic.throwTypeError := .of_le (by decide)

instance : Known tracked n Intrinsic.globalObject := .of_le (by decide)

instance {kind : ErrorKind} : Known tracked n (Intrinsic.errorPrototype kind) :=
  .of_le (by cases kind <;> decide)

instance {p : Primitive} : Known tracked n (Intrinsic.wrapperPrototype p) :=
  .of_le (by cases p <;> exact Nat.le_of_ble_eq_true rfl)

/-! ### Parts of values and properties -/

theorem Known.not_hidden (h : Known tracked n o) (ht : tracked.on) : ¬tracked.hidden o :=
  (h.within ht o rfl).2

instance [h : Known tracked n o] : Known tracked n (Value.object o) := ⟨h.within⟩

instance [h : Known tracked n (Value.object o)] : Known tracked n o := ⟨h.within⟩

instance {x : Primitive} : Known tracked n (Value.primitive x) := ⟨fun _ _ hm => hm.elim⟩

instance {text : String} : Known tracked n (Value.ofText text) :=
  inferInstanceAs (Known tracked n (Value.primitive _))

instance {l : Literal} : Known tracked n l.value := by
  cases l <;> exact inferInstanceAs (Known tracked n (Value.primitive _))

instance : Known tracked n Abrupt.exhausted := ⟨fun _ _ hm => hm.elim⟩

instance [h : Known tracked n v] : Known tracked n (Abrupt.thrown v) := ⟨h.within⟩

instance {x : Option ObjectRef} [h : Known tracked n x] : Known tracked n (Value.ofObject? x) := by
  cases x with
  | none => exact inferInstanceAs (Known tracked n Value.null)
  | some o => exact ⟨h.of_some.within⟩

instance [h : Known tracked n v] : Known tracked n v.object? := by
  cases v with
  | primitive x => exact inferInstanceAs (Known tracked n none)
  | object o => exact inferInstanceAs (Known tracked n (some o))

section

variable {writable enumerable configurable : Bool}

instance [h : Known tracked n v] :
    Known tracked n (Property.data v writable enumerable configurable) := ⟨h.within⟩

instance [hv : Known tracked n v] [hw : Known tracked n w] :
    Known tracked n (Property.accessor v w enumerable configurable) :=
  Known.of_mentions (a := (v, w)) inferInstance fun _ => id

theorem Known.value (h : Known tracked n (Property.data v writable enumerable configurable)) :
    Known tracked n v :=
  ⟨h.within⟩

theorem Known.getter (h : Known tracked n (Property.accessor v w enumerable configurable)) :
    Known tracked n v :=
  h.of_mentions fun _ => .inl

theorem Known.setter (h : Known tracked n (Property.accessor v w enumerable configurable)) :
    Known tracked n w :=
  h.of_mentions fun _ => .inr

end

instance {value get set : Option Value} {writable enumerable configurable : Option Bool}
    [Known tracked n value] [Known tracked n get] [Known tracked n set] :
    Known tracked n (Descriptor.mk value writable get set enumerable configurable) :=
  Known.of_mentions (a := (value, get, set)) inferInstance fun _ => id

instance {writable enumerable configurable : Bool} [Known tracked n v] :
    Known tracked n (Descriptor.data v writable enumerable configurable) :=
  inferInstanceAs (Known tracked n (Descriptor.mk ..))

instance {enumerable configurable : Bool} [Known tracked n v] [Known tracked n w] :
    Known tracked n (Descriptor.accessor v w enumerable configurable) :=
  inferInstanceAs (Known tracked n (Descriptor.mk ..))

instance [Known tracked n v] : Known tracked n (Descriptor.plain v) :=
  inferInstanceAs (Known tracked n (Descriptor.data ..))

instance [Known tracked n v] : Known tracked n (Descriptor.hidden v) :=
  inferInstanceAs (Known tracked n (Descriptor.data ..))

instance {p : Property} [hp : Known tracked n p] : Known tracked n (Descriptor.ofProperty p) := by
  cases p with
  | data v writable enumerable configurable =>
    have := hp.value
    exact inferInstanceAs (Known tracked n (Descriptor.data ..))
  | accessor get set enumerable configurable =>
    have := hp.getter
    have := hp.setter
    exact inferInstanceAs (Known tracked n (Descriptor.accessor ..))

section

variable {d : Descriptor} {current : Property}

theorem Known.value? (h : Known tracked n d) : Known tracked n d.value :=
  h.of_mentions fun _ => .inl

theorem Known.getter? (h : Known tracked n d) : Known tracked n d.get :=
  h.of_mentions fun _ hm => .inr (.inl hm)

theorem Known.setter? (h : Known tracked n d) : Known tracked n d.set :=
  h.of_mentions fun _ hm => .inr (.inr hm)

instance [hd : Known tracked n d] : Known tracked n d.fields := by
  refine hd.of_mentions fun o ⟨entry, hentry, hm⟩ => ?_
  replace hm : Mentions.mentions entry.2 o := hm.resolve_left id
  obtain ⟨⟨name, field⟩, hfield, heq⟩ := List.mem_filterMap.mp hentry
  obtain ⟨v, rfl, rfl⟩ := Option.map_eq_some_iff.mp heq
  simp only [List.mem_cons, List.not_mem_nil, or_false, Prod.mk.injEq] at hfield
  have hflag {flag : Option Bool} (h : some v = flag.map Value.boolean) : False := by
    obtain ⟨b, -, rfl⟩ := Option.map_eq_some_iff.mp h.symm
    exact hm
  rcases hfield with ⟨-, h⟩ | ⟨-, h⟩ | ⟨-, h⟩ | ⟨-, h⟩ | ⟨-, h⟩ | ⟨-, h⟩
  · exact .inl ⟨v, h.symm, hm⟩
  · exact (hflag h).elim
  · exact .inr (.inl ⟨v, h.symm, hm⟩)
  · exact .inr (.inr ⟨v, h.symm, hm⟩)
  · exact (hflag h).elim
  · exact (hflag h).elim

instance [hd : Known tracked n d] : Known tracked n d.complete := by
  have := hd.value?
  have := hd.getter?
  have := hd.setter?
  unfold Descriptor.complete
  dsimp only
  split <;> infer_instance

instance [hd : Known tracked n d] [hp : Known tracked n current] :
    Known tracked n (d.update current) := by
  have := hd.value?
  have := hd.getter?
  have := hd.setter?
  unfold Descriptor.update
  cases current with
  | data v writable enumerable configurable =>
    have := hp.value
    dsimp only
    split <;> infer_instance
  | accessor get set enumerable configurable =>
    have := hp.getter
    have := hp.setter
    dsimp only
    split <;> infer_instance

end

/-! ### Parts of objects -/

section

variable {data : ObjectData} {key : PropertyKey}

instance {code : FunctionCode} {scope : ScopeRef} {site : Site} {strict : Bool}
    {home : Option ObjectRef} {kind : Option ConstructorKind} {source : Option String}
    {methods : List (PrivateName × PrivateElement)} [Known tracked n home]
    [Known tracked n methods] :
    Known tracked n (ScriptFunction.mk code scope site strict home kind source methods) :=
  Known.of_mentions (a := (home, methods)) inferInstance fun _ => id

instance {f : ScriptFunction} [h : Known tracked n f] : Known tracked n f.homeObject :=
  h.of_mentions fun _ => .inl

instance {f : ScriptFunction} [h : Known tracked n f] : Known tracked n f.privateMethods :=
  h.of_mentions fun _ => .inr

instance {f : ScriptFunction} [h : Known tracked n f] : Known tracked n (ObjectKind.function f) :=
  ⟨h.within⟩

theorem Known.script {f : ScriptFunction} (h : Known tracked n (ObjectKind.function f)) :
    Known tracked n f :=
  ⟨h.within⟩

instance : Known tracked n ObjectKind.ordinary := ⟨fun _ _ hm => hm.elim⟩

instance : Known tracked n ObjectKind.error := ⟨fun _ _ hm => hm.elim⟩

instance : Known tracked n ObjectKind.arguments := ⟨fun _ _ hm => hm.elim⟩

instance {p : Primitive} : Known tracked n (ObjectKind.wrapping p) :=
  ⟨fun _ _ hm => by cases p <;> exact hm.elim⟩

instance {prototype : Option ObjectRef} {extensible : Bool}
    {properties : List (PropertyKey × Property)} {kind : ObjectKind}
    {privates : List (PrivateName × PrivateElement)} [Known tracked n prototype]
    [Known tracked n properties] [Known tracked n kind] [Known tracked n privates] :
    Known tracked n (ObjectData.mk prototype extensible properties kind privates) :=
  Known.of_mentions (a := (prototype, properties, kind, privates)) inferInstance fun _ => id

instance [h : Known tracked n data] : Known tracked n data.prototype :=
  h.of_mentions fun _ => .inl

instance [h : Known tracked n data] : Known tracked n data.properties :=
  h.of_mentions fun _ hm => .inr (.inl hm)

instance [h : Known tracked n data] : Known tracked n data.kind :=
  h.of_mentions fun _ hm => .inr (.inr (.inl hm))

instance [h : Known tracked n data] : Known tracked n data.privateElements :=
  h.of_mentions fun _ hm => .inr (.inr (.inr hm))

instance {s : Units} : Known tracked n (s.property? key) := by
  unfold Units.property?
  split
  · exact inferInstanceAs (Known tracked n (some (Property.data ..)))
  · split
    · exact inferInstanceAs (Known tracked n (some (Property.data ..)))
    · exact inferInstanceAs (Known tracked n none)

instance : Known tracked n (data.exoticProperty? key) := by
  unfold ObjectData.exoticProperty?
  split <;> infer_instance

instance [h : Known tracked n data] : Known tracked n (data.getOwn? key) := by
  have : Known tracked n (data.properties.lookup key) := .of_lookup inferInstance
  unfold ObjectData.getOwn?
  infer_instance

instance {p : Property} {properties : List (PropertyKey × Property)} [hp : Known tracked n p]
    [h : Known tracked n properties] : Known tracked n (ObjectData.replace key p properties) := by
  refine ⟨fun ht o ⟨entry, hentry, hm⟩ => ?_⟩
  obtain ⟨old, hold, rfl⟩ := List.mem_map.mp hentry
  split at hm
  · exact hp.within ht o (hm.resolve_left id)
  · exact h.within ht o ⟨old, hold, hm⟩

instance {d : Descriptor} [h : Known tracked n data] [hd : Known tracked n d] :
    Known tracked n (data.define key d) := by
  unfold ObjectData.define
  have hown : Known tracked n (data.getOwn? key) := inferInstance
  split
  · split <;> infer_instance
  · next current heq =>
    rw [heq] at hown
    have := hown.of_some
    split
    · split <;> infer_instance
    · infer_instance

instance [h : Known tracked n data] : Known tracked n (data.delete key) := by
  have : Known tracked n (data.properties.filter (·.1 ≠ key)) :=
    Known.of_subset inferInstance (List.filter_sublist.subset)
  unfold ObjectData.delete
  split
  · infer_instance
  · split <;> infer_instance

instance {name : PrivateName} [Known tracked n data] :
    Known tracked n (data.privateElement? name) :=
  .of_lookup inferInstance

end

/-! ### Parts of scopes -/

section

variable {e : Environment} {name : String}

instance {this : Option Value} {newTarget : Option ObjectRef} [Known tracked n this]
    [Known tracked n o] [Known tracked n newTarget] :
    Known tracked n (FunctionScope.mk this o newTarget) :=
  Known.of_mentions (a := (this, o, newTarget)) inferInstance fun _ => id

instance {f : FunctionScope} [h : Known tracked n f] : Known tracked n f.this :=
  h.of_mentions fun _ => .inl

instance {f : FunctionScope} [h : Known tracked n f] : Known tracked n f.function :=
  h.of_mentions fun _ hm => .inr (.inl hm)

instance {f : FunctionScope} [h : Known tracked n f] : Known tracked n f.newTarget :=
  h.of_mentions fun _ hm => .inr (.inr hm)

instance {bindings : List (String × Binding)} {parent : Option ScopeRef}
    {function : Option FunctionScope} {privateNames : List (String × PrivateName)}
    [Known tracked n bindings] [Known tracked n function] :
    Known tracked n (Environment.mk bindings parent function privateNames) :=
  Known.of_mentions (a := (bindings, function)) inferInstance fun _ => id

instance [h : Known tracked n e] : Known tracked n e.bindings :=
  h.of_mentions fun _ => .inl

instance [h : Known tracked n e] : Known tracked n e.function :=
  h.of_mentions fun _ => .inr

instance {kind : BindingKind} {value : Option Value} [h : Known tracked n value] :
    Known tracked n (Binding.mk kind value) :=
  ⟨h.within⟩

instance {b : Binding} {bindings : List (String × Binding)} [hb : Known tracked n b]
    [h : Known tracked n bindings] : Known tracked n (Environment.put name b bindings) := by
  induction bindings generalizing n with
  | nil => exact inferInstanceAs (Known tracked n [(name, b)])
  | cons entry rest ih =>
    have : Known tracked n entry := h.of_mem List.mem_cons_self
    have : Known tracked n rest := h.of_subset (List.subset_cons_self entry rest)
    unfold Environment.put
    split <;> infer_instance

instance {kind : BindingKind} [Known tracked n e] : Known tracked n (e.declare name kind) := by
  have : Known tracked n (if kind = .var then some Value.undefined else none) := by
    split <;> infer_instance
  unfold Environment.declare
  infer_instance

instance {kind : BindingKind} [Known tracked n e] : Known tracked n (e.declareNew name kind) := by
  unfold Environment.declareNew
  split <;> infer_instance

instance [Known tracked n e] [Known tracked n v] : Known tracked n (e.initialise name v) := by
  unfold Environment.initialise
  split <;> infer_instance

instance [h : Known tracked n e] : Known tracked n (e.get name) := by
  have hfound : Known tracked n (e.bindings.lookup name) := .of_lookup inferInstance
  unfold Environment.get
  split
  · infer_instance
  · infer_instance
  · next heq =>
    rw [heq] at hfound
    have : Known tracked n _ := Known.of_some ⟨hfound.of_some.within⟩
    infer_instance

instance {strict : Bool} [Known tracked n e] [Known tracked n v] :
    Known tracked n (e.set name v strict) := by
  unfold Environment.set
  split
  · infer_instance
  · infer_instance
  · infer_instance
  · split <;> infer_instance
  · infer_instance

instance [Known tracked n e] : Known tracked n e.copy := by
  unfold Environment.copy
  infer_instance

instance {bindings : List (String × VarKind)} [he : Known tracked n e] :
    Known tracked n (e.declareLexical bindings) := by
  unfold Environment.declareLexical
  induction bindings generalizing e with
  | nil => exact he
  | cons _ rest ih => exact ih

instance {params : List String} {args : List Value} [he : Known tracked n e]
    [hargs : Known tracked n args] : Known tracked n (e.bindParameters params args) := by
  induction params generalizing e args with
  | nil => exact he
  | cons param rest ih =>
    have : Known tracked n (args.headD .undefined) := by
      cases args with
      | nil => exact inferInstanceAs (Known tracked n Value.undefined)
      | cons v args => exact hargs.of_mem List.mem_cons_self
    exact ih

instance {names : List String} [he : Known tracked n e] : Known tracked n (e.declareVars names) := by
  unfold Environment.declareVars
  induction names generalizing e with
  | nil => exact he
  | cons _ rest ih => exact ih

end

/-! ### Parts of references and completions -/

section

variable {key : PropertyKey} {name : PrivateName} {label : Option String} {x : Option Value}

instance {scope : ScopeRef} {name : String} : Known tracked n (Reference.binding scope name) :=
  ⟨fun _ _ hm => hm.elim⟩

instance {name : String} : Known tracked n (Reference.global name) := ⟨fun _ _ hm => hm.elim⟩

instance {name : String} : Known tracked n (Reference.unresolvable name) :=
  ⟨fun _ _ hm => hm.elim⟩

instance [Known tracked n v] [Known tracked n w] : Known tracked n (Reference.property v key w) :=
  Known.of_mentions (a := (v, w)) inferInstance fun _ => id

instance [h : Known tracked n v] : Known tracked n (Reference.privateMember v name) := ⟨h.within⟩

theorem Known.base (h : Known tracked n (Reference.property v key w)) : Known tracked n v :=
  h.of_mentions fun _ => .inl

theorem Known.this (h : Known tracked n (Reference.property v key w)) : Known tracked n w :=
  h.of_mentions fun _ => .inr

theorem Known.privateBase (h : Known tracked n (Reference.privateMember v name)) :
    Known tracked n v :=
  ⟨h.within⟩

instance {r : Reference} [h : Known tracked n r] : Known tracked n r.thisValue := by
  cases r with
  | property base key this => exact h.this
  | privateMember base name => exact h.privateBase
  | _ => exact inferInstanceAs (Known tracked n Value.undefined)

instance [h : Known tracked n x] : Known tracked n (Completion.normal x) := ⟨h.within⟩

instance [h : Known tracked n v] : Known tracked n (Completion.returned v) := ⟨h.within⟩

instance [h : Known tracked n x] : Known tracked n (Completion.broke label x) := ⟨h.within⟩

instance [h : Known tracked n x] : Known tracked n (Completion.continued label x) := ⟨h.within⟩

theorem Known.normal (h : Known tracked n (Completion.normal x)) : Known tracked n x := ⟨h.within⟩

theorem Known.returned (h : Known tracked n (Completion.returned v)) : Known tracked n v :=
  ⟨h.within⟩

theorem Known.broke (h : Known tracked n (Completion.broke label x)) : Known tracked n x :=
  ⟨h.within⟩

theorem Known.continued (h : Known tracked n (Completion.continued label x)) : Known tracked n x :=
  ⟨h.within⟩

instance {c : Completion} [hc : Known tracked n c] [Known tracked n x] :
    Known tracked n (c.withDefault x) := by
  cases c with
  | normal y =>
    have := hc.normal
    exact inferInstanceAs (Known tracked n (Completion.normal _))
  | returned v => exact hc
  | broke label y =>
    have := hc.broke
    exact inferInstanceAs (Known tracked n (Completion.broke label _))
  | continued label y =>
    have := hc.continued
    exact inferInstanceAs (Known tracked n (Completion.continued label _))

instance {c : Completion} {labels : List String} [hc : Known tracked n c] [Known tracked n v] :
    Known tracked n (c.afterBody labels v) := by
  unfold Completion.afterBody
  split
  · have := hc.normal
    infer_instance
  · have := hc.continued
    split <;> infer_instance
  · have := hc.broke
    infer_instance
  · have := hc.broke
    infer_instance
  · infer_instance

instance {c : Completion} {label : String} [hc : Known tracked n c] :
    Known tracked n (c.leaveLabel label) := by
  unfold Completion.leaveLabel
  split
  · have := hc.broke
    split <;> infer_instance
  · exact hc

instance {c : Completion} [hc : Known tracked n c] : Known tracked n c.leaveSwitch := by
  unfold Completion.leaveSwitch
  split
  · have := hc.broke
    infer_instance
  · exact hc

end

/-! ### Parts of classes and calls -/

section

variable {name : PrivateName} {kind : MethodKind}

instance [h : Known tracked n o] : Known tracked n (PrivateElement.method o) := ⟨h.within⟩

instance {get set : Option ObjectRef} [Known tracked n get] [Known tracked n set] :
    Known tracked n (PrivateElement.accessor get set) :=
  Known.of_mentions (a := (get, set)) inferInstance fun _ => id

theorem Known.method (h : Known tracked n (PrivateElement.method o)) : Known tracked n o :=
  ⟨h.within⟩

theorem Known.privateGetter {get set : Option ObjectRef}
    (h : Known tracked n (PrivateElement.accessor get set)) : Known tracked n get :=
  h.of_mentions fun _ => .inl

theorem Known.privateSetter {get set : Option ObjectRef}
    (h : Known tracked n (PrivateElement.accessor get set)) : Known tracked n set :=
  h.of_mentions fun _ => .inr

instance [Known tracked n o] : Known tracked n (kind.privateElement o) := by
  cases kind <;> (unfold MethodKind.privateElement; infer_instance)

instance {enumerable : Bool} [Known tracked n o] : Known tracked n (kind.descriptor o enumerable) := by
  cases kind <;> (unfold MethodKind.descriptor; infer_instance)

instance {e e' : PrivateElement} [he : Known tracked n e] [he' : Known tracked n e'] :
    Known tracked n (e.merge? e') := by
  unfold PrivateElement.merge?
  split
  · have := he.privateGetter
    have := he.privateSetter
    have := he'.privateGetter
    have := he'.privateSetter
    infer_instance
  · infer_instance

instance {e : PrivateElement} {elements : List (PrivateName × PrivateElement)}
    [he : Known tracked n e] [h : Known tracked n elements] :
    Known tracked n (PrivateElement.add name e elements) := by
  induction elements generalizing n with
  | nil => exact inferInstanceAs (Known tracked n [(name, e)])
  | cons entry rest ih =>
    obtain ⟨other, existing⟩ := entry
    have : Known tracked n existing := (h.of_mem List.mem_cons_self).snd
    have : Known tracked n rest := h.of_subset (List.subset_cons_self _ rest)
    have hmerged : Known tracked n (existing.merge? e) := inferInstance
    unfold PrivateElement.add
    split
    · split
      · next heq =>
        rw [heq] at hmerged
        have := hmerged.of_some
        infer_instance
      · infer_instance
    · infer_instance

instance {instances statics : List (PrivateName × PrivateElement)} [Known tracked n instances]
    [Known tracked n statics] : Known tracked n (ClassPrivates.mk instances statics) :=
  Known.of_mentions (a := (instances, statics)) inferInstance fun _ => id

instance {p : ClassPrivates} [h : Known tracked n p] : Known tracked n p.instances :=
  h.of_mentions fun _ => .inl

instance {p : ClassPrivates} [h : Known tracked n p] : Known tracked n p.statics :=
  h.of_mentions fun _ => .inr

instance {p : ClassPrivates} {isStatic : Bool} {e : PrivateElement} [Known tracked n p]
    [Known tracked n e] : Known tracked n (p.add isStatic name e) := by
  unfold ClassPrivates.add
  split <;> infer_instance

instance {args : List Value} {newTarget : Option ObjectRef} [Known tracked n v]
    [Known tracked n args] [Known tracked n newTarget] :
    Known tracked n (Invocation.mk v args newTarget) :=
  Known.of_mentions (a := (v, args, newTarget)) inferInstance fun _ => id

section

variable {call : Invocation} [h : Known tracked n call]

instance : Known tracked n call.this := h.of_mentions fun _ => .inl

instance : Known tracked n call.args := h.of_mentions fun _ hm => .inr (.inl hm)

instance : Known tracked n call.newTarget := h.of_mentions fun _ hm => .inr (.inr hm)

instance {i : Nat} : Known tracked n (call.arg i) := by
  unfold Invocation.arg; infer_instance

end

end

end

end Ecma
