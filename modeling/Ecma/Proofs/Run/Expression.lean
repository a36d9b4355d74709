import Ecma.Proofs.Run.Jump
import Ecma.Proofs.Run.Operation
import Ecma.Proofs.Run.Privates

/-! Expressions are safe in a scope for the place that they stand at: what they denote, classes, and
the values of all expressions. -/

namespace Ecma

/-- An engine whose ways back are safe: calls always, code in a scope for the place it stands at. A
statement may give the names that it declares their first values. -/
class Engine.Sound [Vigil] (eng : Engine) : Prop where
  call : ∀ f this args, (eng.call f this args).Tame
  construct : ∀ f args target, (eng.construct f args target).Tame
  expr : ∀ {st : State} {scope : ScopeRef} {l : Site} {e : Expr}, st.Runs scope l →
    l.place.Has (.expr e) → (eng.expr e scope).Safe st fun _ _ => True
  statement : ∀ {st : State} {scope : ScopeRef} {l : Site} {t : Stmt} (labels : List String),
    st.Runs scope l → l.place.Has (.statement t) → st.scopes.Pending scope t.lexicalNames →
    (eng.statement t scope labels).SafeBut (scope.names {name | name ∈ t.lexicalNames}) st
      fun _ _ => True
  jumps : eng.Jumps
  settled : eng.Abides .settled

namespace Engine

variable [Vigil] {eng : Engine} [heng : eng.Sound]

instance (f : ObjectRef) (this : Value) (args : List Value) : (eng.call f this args).Tame :=
  heng.call f this args

instance (f : ObjectRef) (args : List Value) (target : ObjectRef) :
    (eng.construct f args target).Tame :=
  heng.construct f args target

instance : eng.Obeys .tame :=
  ⟨fun f this args => ⟨fun _ => (heng.call f this args).safe⟩,
    fun f args target => ⟨fun _ => (heng.construct f args target).safe⟩⟩

omit heng in
instance (o : ObjectRef) (key : PropertyKey) (d : Descriptor) [d.Coherent] :
    (defineOrThrow o key d).Tame := by
  unfold defineOrThrow; infer_instance

end Engine

instance (kind : MethodKind) (f : ObjectRef) (enumerable : Bool) :
    (kind.descriptor f enumerable).Coherent := by
  cases kind with
  | method => exact inferInstanceAs (Descriptor.data _ _ _ _).Coherent
  | getter => exact ⟨fun h => by cases h⟩
  | setter => exact ⟨fun h => by cases h⟩

/-- Every operator of assignment is plain, logical or one of two operands. -/
theorem AssignOp.isSome_binaryOp? {op : AssignOp} (hplain : op = .assign → False)
    (hlogical : op.logicalOp? = none) : op.binaryOp?.isSome = true := by
  cases op with
  | assign => exact (hplain rfl).elim
  | logicalAndAssign => cases hlogical
  | logicalOrAssign => cases hlogical
  | _ => rfl

namespace Eval

variable [Vigil]

/-- The scope that an assignment stores is the one that it has read. -/
instance (q : ScopeRef) (name : String) (value : Value) (strict : Bool) :
    (assignBinding q name value strict).Tame := by
  refine ⟨fun st s hs hsound => ?_⟩
  have hrun : assignBinding q name value strict s =
      (match (s.scopes.get q).set name value strict with
        | .ok e => modifyScope q fun _ => e
        | .error e => raiseBinding name e : Eval Unit) s := rfl
  rw [hrun]
  cases heq : (s.scopes.get q).set name value strict with
  | ok e =>
    exact leads_modifyScope_empty hsound (Environment.extends_set heq)
      (Environment.steady_set heq)
  | error e => exact Tame.safe st s hs hsound

end Eval

namespace Engine

open Eval (Tame Safe)

variable [Vigil] {eng : Engine} [heng : eng.Sound] {st : State} {scope : ScopeRef} {l : Site}

/-! ### Reading and assigning places -/

instance (place : Reference) (value : Value) : (eng.putValue place value).Tame := by
  refine .bind fun strict => ?_
  cases place <;> infer_instance

/-! ### Keys and places -/

theorem safe_computedKey {e : Expr} (hscope : st.Runs scope l) (he : l.place.Has (.expr e)) :
    (eng.computedKey e scope).Safe st fun _ _ => True :=
  .after (heng.expr hscope he) fun _ => Tame.safe st

theorem safe_propertyKey {name : PropertyName} (hscope : st.Runs scope l)
    (h : l.place.Has (.name name)) : (eng.propertyKey name scope).Safe st fun _ _ => True := by
  cases name with
  | computed e => exact safe_computedKey hscope (h.part (by simp))
  | _ => exact .pure fun _ _ => trivial

theorem safe_memberKey {key : MemberKey} (hscope : st.Runs scope l) (h : l.place.Has (.key key))
    (hp : key.isPrivate = false) : (eng.memberKey key scope).Safe st fun _ _ => True := by
  cases key with
  | dot name => exact .pure fun _ _ => trivial
  | computed e => exact safe_computedKey hscope (h.part (by simp))
  | privateName name => cases hp

/-- The name is one of a class around the code, so the search finds it. -/
theorem safe_privateReference {object : Expr} {name : String} (hscope : st.Runs scope l)
    (ho : l.place.Has (.expr object)) (hname : l.place.Has (.key (.privateName name))) :
    (eng.privateReference object name scope).Safe st fun _ _ => True := by
  refine .after (heng.expr hscope ho) fun base => .scopes fun st' hst hsound => ?_
  obtain ⟨frame, n, -, -, hn⟩ := (hscope.mono hst).hosts.findPrivateName? hsound.scopes hname
  rw [hn]
  exact Tame.safe st'

theorem safe_memberReference {object : Expr} {key : MemberKey} (hscope : st.Runs scope l)
    (ho : l.place.Has (.expr object)) (hk : l.place.Has (.key key))
    (hp : key.isPrivate = false) :
    (eng.memberReference object key scope).Safe st fun place _ =>
      ∃ base key this, place = .property base key this := by
  refine .after (heng.expr hscope ho) fun base => ?_
  have hrest : (do return .property base (← eng.memberKey key scope) base : Eval Reference).Safe st
      fun place _ => ∃ base key this, place = .property base key this :=
    .after (safe_memberKey hscope hk hp) fun k => .pure fun _ _ => ⟨base, k, base, rfl⟩
  dsimp only
  split
  · split
    · exact .skip fun _ => hrest
    · exact hrest
  · exact hrest

/-- Code that may use `super.name` runs in a call whose function has a home object. -/
theorem safe_homeObject? (hscope : st.Runs scope l)
    (hs : l.place.rights.superProperty = true) :
    (homeObject? scope).Safe st fun home _ => home.isSome = true := by
  refine .scopes fun st' hst hsound => ?_
  obtain ⟨_, found, code, hfound, hcalls⟩ := (hscope.mono hst).hosts.inCall (.inl hs)
  obtain ⟨f, callee, hfunction, hcallee, -, hhome, -⟩ := hcalls.function
  rw [hfound.findFunction?, Option.bind_some, hfunction]
  refine .of_ok fun s hs' hsound' => ⟨_, s, rfl, .refl _ _, hsound'.toSound, rfl, ?_⟩
  obtain ⟨callee', hcallee', elements, rfl⟩ := hs'.functions _ callee hcallee
  change ((s.heap.scriptFunction? f.function).bind ScriptFunction.homeObject).isSome = true
  rw [hcallee']
  exact hhome hs

theorem safe_superReference {key : MemberKey} (hscope : st.Runs scope l)
    (hs : l.place.rights.superProperty = true) (hk : l.place.Has (.key key))
    (hp : key.isPrivate = false) :
    (eng.superReference key scope).Safe st fun _ _ => True := by
  refine .skip fun this => .after (safe_memberKey hscope hk hp) fun k => ?_
  refine .bind (safe_homeObject? hscope hs) fun home st' _ hhome => ?_
  obtain ⟨home, rfl⟩ := Option.isSome_iff_exists.mp hhome
  exact Tame.safe st'

/-- An expression of an accepted script that denotes a place has one. -/
theorem safe_reference {e : Expr} (hscope : st.Runs scope l) (he : l.place.Has (.expr e))
    (href : e.isReference = true) : (eng.reference e scope).Safe st fun _ _ => True := by
  cases e with
  | identifier name => exact Tame.safe (x := Eval.resolve name scope) st
  | member object key =>
    have ho : l.place.Has (.expr object) := he.part (by simp)
    have hk : l.place.Has (.key key) := he.part (by simp)
    cases key with
    | dot name => exact (safe_memberReference hscope ho hk rfl).any
    | computed e => exact (safe_memberReference hscope ho hk rfl).any
    | privateName name => exact safe_privateReference hscope ho hk
  | superMember key =>
    cases he.legal with
    | superMember hs _ hp => exact safe_superReference hscope hs (he.part (by simp)) hp
  | _ => cases href

/-! ### Classes -/

theorem safe_heritage {c : ClassDef} (hscope : st.Runs scope l)
    (h : ∀ e ∈ c.heritage, l.place.Has (.expr e)) :
    (eng.heritage c scope).Safe st fun _ _ => True := by
  unfold heritage
  split
  · exact Tame.safe st
  · next e heq =>
    have := heng.settled
    have hvalue : (eng.expr e scope).Obeys .settled := inferInstance
    rw [hvalue.settled.onEscape_eq]
    refine .after (heng.expr hscope (h e heq)) fun v => ?_
    split
    · exact Tame.safe st
    · exact Tame.safe st
    · refine .skip fun constructor => ?_
      split
      · refine .skip fun prototype => ?_
        split <;> exact Tame.safe st
      · exact Tame.safe st

/-- A private element has a name: its class has declared it. -/
theorem safe_defineElement {m : ClassElement} {constructor prototype : ObjectRef}
    {p : ScopeRef} {names : List String} {privates : ClassPrivates} (hscope : st.Runs scope l)
    (hinside : st.Inside p scope names) (hm : l.place.Has (.element m))
    (hname : ∀ name ∈ m.privateName?, name ∈ names) :
    (eng.defineElement scope constructor prototype privates m).Safe st fun privates' _ =>
      m.Adds (fun name => (st.scopes.get scope).privateNames.lookup name) privates privates' := by
  cases m with
  | publicElement key kind f isStatic =>
    refine .after (Eval.safe_createMethod hscope.stands (hm.part (by simp))) fun o => ?_
    have := heng.settled
    have hvalue : (eng.propertyKey key scope).Obeys .settled := inferInstance
    rw [hvalue.settled.onEscape_eq]
    refine .after (safe_propertyKey hscope (hm.part (by simp))) fun key => ?_
    exact .skip fun _ => .skip fun _ => .pure fun _ _ => rfl
  | privateElement spelling kind f isStatic =>
    refine .after (Eval.safe_createMethod hscope.stands (hm.part (by simp))) fun o =>
      .scopes fun st' hst _ => ?_
    have hlt := Scopes.lt_of_parent hinside.parent
    obtain ⟨name, hlookup⟩ := Option.isSome_iff_exists.mp
      (hinside.isSome_lookup_iff.mpr (hname spelling rfl))
    rw [(hst.environments scope hlt).privateNames, hlookup]
    exact .skip fun _ => .pure fun _ _ => ⟨name, o, hlookup, rfl⟩

/-- All private elements of a class are gathered under their names. -/
theorem safe_defineElements {c : ClassDef} {constructor prototype : ObjectRef} {p : ScopeRef}
    (hsound : st.Sound) (hscope : st.Runs scope l)
    (hinside : st.Inside p scope (distinctNames c.privateNames))
    (helements : ∀ m ∈ c.elements, l.place.Has (.element m))
    (hagrees : c.declarations.Pairwise Grammar.PrivateDeclaration.Agrees) :
    (c.elements.foldlM (eng.defineElement scope constructor prototype) {}).Safe st
      fun privates _ => privates.Gathers
        (fun name => (st.scopes.get scope).privateNames.lookup name) c.declarations := by
  refine .foldlM (fun before (privates : ClassPrivates) => privates.Gathers
    (fun name => (st.scopes.get scope).privateNames.lookup name)
    (before.filterMap ClassElement.declaration?)) (fun before m after privates heq hbefore => ?_)
    ClassPrivates.gathers_empty
  have hm : m ∈ c.elements := by simp [heq]
  refine (safe_defineElement hscope hinside (helements m hm) fun name hname =>
    mem_distinctNames.mpr (List.mem_filterMap.mpr ⟨m, hm, hname⟩)).conseq
      fun privates' _ _ hadds => ?_
  refine hadds.gathers hbefore ?_ (hsound.names.injective scope)
  rw [ClassDef.declarations, heq, List.append_cons, List.filterMap_append] at hagrees
  exact (List.pairwise_append.mp hagrees).1

/-- The name of a class gets its value at the end, in a scope of its own. -/
theorem leads_initialiseClass {inner : ScopeRef} {c : ClassDef} {o : ObjectRef} (hst : st.Sound)
    (hpending : st.scopes.Pending inner c.name.toList) :
    Eval.LeadsBut inner.all st (fun o' st' => o' = o ∧ st'.heap = st.heap) ((do
      c.name.forM fun name => Eval.initialise inner name (.object o)
      return o : Eval ObjectRef) st) := by
  cases hname : c.name with
  | none => exact ⟨.refl _ _, hst, rfl, rfl⟩
  | some own =>
    obtain ⟨kind, hown⟩ := hpending.finds own (by simp [hname])
    have hsafe := (Eval.safe_initialise hown (.object o)) st (.refl _ st) hst
    obtain ⟨hprecedes, hsound, -⟩ := hsafe
    exact ⟨hprecedes.mono ScopeRef.names_subset_all, hsound, rfl, rfl⟩

/-- A class gives its constructor the private names that it declares, in a scope of its own. -/
theorem safe_evaluateClass {c : ClassDef} {name : String} (hscope : st.Runs scope l)
    (hc : l.place.Has (.classDef c)) :
    (eng.evaluateClass c scope name).Safe st fun o st' => c.Equips scope st o st' := by
  refine Eval.SafeBut.bindScope (fun s hs => Eval.safe_classScope (hscope.hosts.mono hs.toGrows))
    fun inner st' hst hlacks ⟨hinside, hpending, hunused⟩ =>
      .widen (?_ : Eval.SafeBut inner.all _ _ _) Set.subset_union_right
  have houter := hscope.mono hst
  have hheritage := houter.enterClass (a := .heritage c) rfl hinside
  have hbody := houter.enterClass (a := .classBody c) rfl hinside
  refine .after (.within houter.site (safe_heritage hheritage fun e he => hc.heritage he))
    fun (prototypeParent, parent) => ?_
  let st₀ : State := { st' with site := l.enter (.classBody c) inner }
  refine .withinWhere (P := fun o s => c.Equips scope st o s) houter.site ?_ fun _ _ _ h =>
    ⟨h.equips⟩
  refine .skip fun prototype => .bind (Eval.safe_createClass hbody.stands hc)
    fun o s₁ hs₁ ⟨f, hf⟩ s₂ hs₂ hsound₂ => ?_
  have hlater₂ : st₀.Precedes s₂ := hs₁.trans hs₂
  have hinside₂ := hinside.mono hlater₂.toGrows
  have hagrees : c.declarations.Pairwise Grammar.PrivateDeclaration.Agrees := by
    cases hc.legal with
    | intro _ _ _ hprivates => exact hprivates
  -- Nothing but the class itself may use its names, so the states are followed one by one.
  let gathered (privates : ClassPrivates) (s : State) : Prop := s₂.Precedes s ∧
    privates.Gathers (fun name => (s₂.scopes.get inner).privateNames.lookup name) c.declarations
  have hfold : Eval.LeadsBut inner.all s₂ gathered
      (c.elements.foldlM (eng.defineElement inner o prototype) {} s₂) := by
    have hsafe : (c.elements.foldlM (eng.defineElement inner o prototype) {}).Safe s₂ _ :=
      safe_defineElements hsound₂ (hbody.mono hlater₂) hinside₂ (fun m hm => hc.element hm) hagrees
    exact ((hsafe s₂ (.refl _ s₂) hsound₂).conseq fun _ _ h hp => ⟨h, hp⟩).mono
      (Set.empty_subset inner.all)
  refine .bind hfold fun privates s₃ _ hsound₃ ⟨hs₃, hprivates⟩ => ?_
  have hlt := Scopes.lt_of_parent hinside.parent
  have hlt₂ := Scopes.lt_of_parent hinside₂.parent
  have hlater₃ : st₀.Precedes s₃ := hlater₂.trans hs₃
  have hsame₃ := (hs₃.environments inner hlt₂).privateNames
  refine .bind (Eval.leads_installPrivates hsound₃ (hunused.mono hlt hlater₃.toGrows
    hlater₃.reserves) (hsame₃ ▸ hprivates) hagrees) fun _ s₄ hs₄ hsound₄ heq₄ => ?_
  have hpending₄ : s₄.scopes.Pending inner c.name.toList := by
    rw [heq₄]
    exact hpending.keep hlater₃.steady
  refine (leads_initialiseClass hsound₄ hpending₄).conseq fun o' s₅ hs₅ ⟨ho, hheap⟩ => ?_
  obtain ⟨f', hf', -⟩ := (hs₂.trans hs₃).functions o f hf
  have hkind := Store.scriptFunction?_eq_some_iff.mp hf'
  have hsame₅ := ((hs₃.widened.trans (hs₄.trans hs₅)).environments inner hlt₂).privateNames
  refine ⟨inner, hlacks, ((hinside₂.mono hs₃.toGrows).mono hs₄.toGrows).mono hs₅.toGrows,
    fun n => ?_⟩
  rw [hsame₅, ho, hheap, heq₄, Heap.get_modify_self (Heap.lt_of_function hkind),
    ObjectData.instanceNames, ObjectData.instanceElements_equip privates _ hkind]
  change n ∈ privates.names false ↔ _
  exact hprivates.mem_names

/-- The call that `super()` stands in has a target of `new`. -/
theorem safe_superCall {args : List Value} {p found : ScopeRef} {code : FunctionCode}
    {superProperty : Bool} (hfound : st.InCall found scope)
    (hcalls : st.Calls p found code superProperty true) :
    (eng.superCall scope args).Safe st fun _ _ => True := by
  refine .scopes fun st₁ hst₁ _ => ?_
  rw [(hfound.mono hst₁.toGrows).findFunction?]
  refine .scopes fun st₂ hst₂ _ => ?_
  obtain ⟨⟨_, active, newTarget⟩, _, hfunction, -, -, -, htarget⟩ :=
    (hcalls.mono (hst₁.trans hst₂).toGrows).function
  obtain ⟨target, rfl⟩ : ∃ target, newTarget = some target :=
    Option.isSome_iff_exists.mp (htarget rfl)
  rw [hfunction]
  refine .skip fun parent => ?_
  cases parent with
  | none => exact Tame.safe st₂
  | some parent =>
    exact .skip fun o => .after (safe_bindThis hfunction) fun _ => Tame.safe st₂

/-! ### Parts of expressions -/

theorem safe_named {e : Expr} {name : Units} (hscope : st.Runs scope l)
    (he : l.place.Has (.expr e)) : (eng.named e scope name).Safe st fun _ _ => True := by
  unfold named
  split
  · split
    · exact .map (Eval.safe_instantiateFunction hscope.stands (he.part (by simp)))
    · exact .map (safe_evaluateClass hscope (he.part (by simp))).any
    · exact heng.expr hscope he
  · exact heng.expr hscope he

theorem safe_arguments {args : List Expr} (hscope : st.Runs scope l)
    (h : ∀ e ∈ args, l.place.Has (.expr e)) :
    (eng.arguments args scope).Safe st fun _ _ => True :=
  (Safe.mapM (P := fun _ => True) fun e he => heng.expr hscope (h e he)).any

theorem safe_defineMethod {o : ObjectRef} {name : PropertyName} {kind : MethodKind}
    {f : FunctionDef} (hscope : st.Runs scope l) (hk : l.place.Has (.name name))
    (hf : l.place.Has (.function f true false)) :
    (eng.defineMethod o name kind f scope).Safe st fun _ _ => True :=
  .after (safe_propertyKey hscope hk) fun _ =>
    .after (Eval.safe_createMethod hscope.stands hf) fun _ => Tame.safe st

theorem safe_defineProperty {o : ObjectRef} {p : PropertyDef} (hscope : st.Runs scope l)
    (hp : l.place.Has (.property p)) :
    (eng.defineProperty o scope p).Safe st fun _ _ => True := by
  cases p with
  | init key value =>
    have hv : l.place.Has (.expr value) := hp.part (by simp)
    simp only [defineProperty]
    split
    · exact .after (heng.expr hscope hv) fun _ => Tame.safe st
    · refine .after (safe_propertyKey hscope (hp.part (by simp))) fun key => ?_
      exact .after (safe_named hscope hv) fun _ => Tame.safe st
  | method key f => exact safe_defineMethod hscope (hp.part (by simp)) (hp.part (by simp))
  | getter key f => exact safe_defineMethod hscope (hp.part (by simp)) (hp.part (by simp))
  | setter key f => exact safe_defineMethod hscope (hp.part (by simp)) (hp.part (by simp))

theorem safe_objectLiteral {properties : List PropertyDef} (hscope : st.Runs scope l)
    (h : ∀ p ∈ properties, l.place.Has (.property p)) :
    (eng.objectLiteral properties scope).Safe st fun _ _ => True :=
  .skip fun _ => .after (.each fun p hp => safe_defineProperty hscope (h p hp)) fun _ =>
    Tame.safe st

theorem safe_callee {e : Expr} (hscope : st.Runs scope l) (he : l.place.Has (.expr e)) :
    (eng.callee e scope).Safe st fun _ _ => True := by
  unfold callee
  split
  · next href => exact .after (safe_reference hscope he href) fun _ => Tame.safe st
  · exact .after (heng.expr hscope he) fun _ => Tame.safe st

theorem safe_callExpression {e : Expr} {args : List Expr} (hscope : st.Runs scope l)
    (he : l.place.Has (.expr e)) (ha : ∀ e ∈ args, l.place.Has (.expr e)) :
    (eng.callExpression e args scope).Safe st fun _ _ => True := by
  refine .after (safe_callee hscope he) fun callee => ?_
  refine .after (safe_arguments hscope ha) fun values => ?_
  obtain ⟨f, this⟩ := callee
  cases f <;> exact Tame.safe st

theorem safe_newExpression {e : Expr} {args : List Expr} (hscope : st.Runs scope l)
    (he : l.place.Has (.expr e)) (ha : ∀ e ∈ args, l.place.Has (.expr e)) :
    (eng.newExpression e args scope).Safe st fun _ _ => True := by
  refine .after (heng.expr hscope he) fun f => .after (safe_arguments hscope ha) fun values => ?_
  cases f <;> exact Tame.safe st

/-! ### Assignment -/

theorem safe_updateExpression {op : UpdateOp} {first : Bool} {target : Expr}
    (hscope : st.Runs scope l) (ht : l.place.Has (.expr target))
    (href : target.isReference = true) :
    (eng.updateExpression op first target scope).Safe st fun _ _ => True := by
  refine .after (safe_reference hscope ht href) fun place => .skip fun v => .skip fun x => ?_
  cases x <;> exact Tame.safe st

theorem safe_assignTo {place : Reference} {target value : Expr} (hscope : st.Runs scope l)
    (hv : l.place.Has (.expr value)) :
    (eng.assignTo place target value scope).Safe st fun _ _ => True :=
  .after (safe_named hscope hv) fun _ => Tame.safe st

theorem safe_assignExpression {op : AssignOp} {target value : Expr} (hscope : st.Runs scope l)
    (ht : l.place.Has (.expr target)) (href : target.isReference = true)
    (hv : l.place.Has (.expr value)) :
    (eng.assignExpression op target value scope).Safe st fun _ _ => True := by
  refine .after (safe_reference hscope ht href) fun place => ?_
  split
  · exact safe_assignTo hscope hv
  · refine .skip fun current => ?_
    split
    · exact Tame.safe st
    · exact safe_assignTo hscope hv
  · next hplain hlogical =>
    refine .skip fun current => .after (heng.expr hscope hv) fun operand => ?_
    obtain ⟨binary, hbinary⟩ :=
      Option.isSome_iff_exists.mp (AssignOp.isSome_binaryOp? hplain hlogical)
    rw [hbinary]
    exact Tame.safe st

/-! ### Other operators -/

theorem safe_typeOf {e : Expr} (hscope : st.Runs scope l) (he : l.place.Has (.expr e)) :
    (eng.typeOf e scope).Safe st fun _ _ => True := by
  have hrest (b : Bool) : (if b = true then pure (.ofText "undefined") else do
      let v ← eng.expr e scope
      return .ofText (← Eval.heap (·.typeName v)) : Eval Value).Safe st fun _ _ => True := by
    split
    · exact Tame.safe st
    · exact .after (heng.expr hscope he) fun _ => Tame.safe st
  unfold typeOf
  split
  · refine .skip fun place => ?_
    split
    · exact hrest true
    · exact hrest false
  · exact hrest false

/-- A member that is not private is a property. -/
theorem safe_deleteMember {object : Expr} {key : MemberKey} (hscope : st.Runs scope l)
    (he : l.place.Has (.expr (.member object key))) (hp : key.isPrivate = false) :
    (eng.deleteMember (.member object key) scope).Safe st fun _ _ => True := by
  have href :
      eng.reference (.member object key) scope = eng.memberReference object key scope := by
    cases key with
    | privateName _ => cases hp
    | _ => rfl
  unfold deleteMember
  rw [href]
  refine .bind (safe_memberReference hscope (he.part (by simp)) (he.part (by simp)) hp)
    fun place st' _ hplace => ?_
  obtain ⟨base, k, this, rfl⟩ := hplace
  exact Tame.safe st'

theorem safe_deleteExpression {e : Expr} (hscope : st.Runs scope l) (he : l.place.Has (.expr e))
    (hp : e.isPrivateMember = false) : (eng.deleteExpression e scope).Safe st fun _ _ => True := by
  unfold deleteExpression
  split
  · exact Tame.safe st
  · exact Tame.safe st
  · exact safe_deleteMember hscope he hp
  · exact .after (heng.expr hscope he) fun _ => Tame.safe st

/-! ### All expressions -/

theorem safe_readExpression {e : Expr} (hscope : st.Runs scope l) (he : l.place.Has (.expr e))
    (href : e.isReference = true) : (eng.readExpression e scope).Safe st fun _ _ => True :=
  .after (safe_reference hscope he href) fun _ => Tame.safe st

/-- The step of the induction on fuel for expressions, one case for each kind. -/
theorem safe_evaluate {e : Expr} (hscope : st.Runs scope l) (he : l.place.Has (.expr e)) :
    (eng.evaluate e scope).Safe st fun _ _ => True := by
  have part {p : Part} (h : p ∈ e.parts) : l.place.Has p := he.part h
  cases he.legal with
  | literal => exact Tame.safe (x := pure _) st
  | identifier => exact safe_readExpression hscope he rfl
  | member => exact safe_readExpression hscope he rfl
  | superMember => exact safe_readExpression hscope he rfl
  | thisValue => exact Tame.safe (x := Eval.resolveThis scope) st
  | object => exact safe_objectLiteral hscope fun p hp => part (List.mem_map_of_mem hp)
  | function => exact .map (Eval.safe_instantiateExpression hscope.stands (part (by simp)))
  | classExpr => exact .map (safe_evaluateClass hscope (part (by simp))).any
  | unary => exact .after (heng.expr hscope (part (by simp))) fun _ => Tame.safe st
  | binary =>
    refine .after (heng.expr hscope (part (by simp))) fun _ => ?_
    exact .after (heng.expr hscope (part (by simp))) fun _ => Tame.safe st
  | logical =>
    refine .after (heng.expr hscope (part (by simp))) fun v => ?_
    split
    · exact Tame.safe st
    · exact heng.expr hscope (part (by simp))
  | conditional =>
    refine .after (heng.expr hscope (part (by simp))) fun v => ?_
    split
    · exact heng.expr hscope (part (by simp))
    · exact heng.expr hscope (part (by simp))
  | update _ href => exact safe_updateExpression hscope (part (by simp)) href
  | assign _ href _ =>
    exact safe_assignExpression hscope (part (by simp)) href (part (by simp))
  | call => exact safe_callExpression hscope (part (by simp)) fun e he => part (by simp [he])
  | superCall hs =>
    refine .after (safe_arguments hscope fun e he => part (by simp [he])) fun _ => .map ?_
    obtain ⟨_, found, code, hfound, hcalls⟩ := hscope.hosts.inCall (.inr hs)
    exact safe_superCall hfound (hs ▸ hcalls)
  | construct => exact safe_newExpression hscope (part (by simp)) fun e he => part (by simp [he])
  | typeOf => exact safe_typeOf hscope (part (by simp))
  | voidOf => exact .after (heng.expr hscope (part (by simp))) fun _ => Tame.safe st
  | delete _ hp => exact safe_deleteExpression hscope (part (by simp)) hp

end Engine

end Ecma
