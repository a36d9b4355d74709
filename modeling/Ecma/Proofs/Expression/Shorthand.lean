import Ecma.Eval.Call
import Ecma.Proofs.Object.Acyclic
import Ecma.Proofs.Object.Index
import Ecma.Proofs.Run.Raise
import Ecma.Proofs.Syntax.Shorthand
import Ecma.Proofs.Text.Encoding

/-! The object of a literal of shorthand properties. It has the names as its keys in the order in
which they stand first, each with the value of its variable, except for the name `__proto__`: that
sets the prototype and makes no property. -/

namespace Ecma

/-! ### Variables -/

namespace Scopes

/-- The value of a name that is bound in a scope or around it, if the binding has one. -/
def value? (s : Scopes) (name : String) (scope : ScopeRef) : Option Value :=
  (s.findBinding? name scope).bind fun r => ((s.get r).get name).toOption

end Scopes

namespace Engine

variable {eng : Engine} {s : State} {scope : ScopeRef} {name : String} {v : Value}

/-- A variable that has a value is read without an effect. -/
theorem evaluate_identifier (h : s.scopes.value? name scope = some v) :
    eng.evaluate (.identifier name) scope s = .ok v s := by
  obtain ⟨r, hr, hv⟩ := Option.bind_eq_some_iff.mp h
  have hget : (s.scopes.get r).get name = .ok v := by
    cases hget : (s.scopes.get r).get name with
    | error e => rw [hget] at hv; cases hv
    | ok w => rw [hget] at hv; cases hv; rfl
  have hreference : eng.reference (.identifier name) scope s = .ok (.binding r name) s := by
    simp only [Engine.reference, Eval.resolve, bind, EStateM.bind, Eval.scopes, hr]
    rfl
  have hvalue : eng.getValue (.binding r name) s = .ok v s := by
    simp only [Engine.getValue, Eval.readBinding, bind, EStateM.bind, Eval.scopes, hget]
    rfl
  change EStateM.bind (eng.reference (.identifier name) scope) eng.getValue s = _
  simp only [EStateM.bind, hreference, hvalue]

end Engine

/-! ### The object -/

theorem eraseDups_concat (names : List String) (name : String) : (names ++ [name]).eraseDups =
    if name ∈ names then names.eraseDups else names.eraseDups ++ [name] := by
  rw [List.eraseDups_append]
  split
  · next h => simp [List.removeAll, h]
  · next h =>
    have hrest : [name].removeAll names = [name] := by simp [List.removeAll, h]
    rw [hrest]
    rfl

namespace ObjectData

/-- The prototype after a value has been set as one, which only objects and null can be. -/
def prototypeAfter (before : Option ObjectRef) : Value → Option ObjectRef
  | .object p => some p
  | .null => none
  | _ => before

/-- The object of shorthand properties. -/
def ofShorthand (value : String → Value) (names : List String) : ObjectData where
  prototype :=
    if "__proto__" ∈ names then
      prototypeAfter (some Intrinsic.objectPrototype) (value "__proto__")
    else some Intrinsic.objectPrototype
  properties := (names.eraseDups.filter (· ≠ "__proto__")).map fun name : String =>
    ((name : PropertyKey), .data (value name) true true true)

variable {value : String → Value} {names : List String} {name : String}

theorem key_inj {name name' : String} : (name : PropertyKey) = name' ↔ name = name' :=
  ⟨fun h => Units.ofString_inj (PropertyKey.string.inj h), fun h => h ▸ rfl⟩

theorem lookup_names (f : String → Property) (names : List String) (name : String) :
    (names.map fun n : String => ((n : PropertyKey), f n)).lookup (name : PropertyKey) =
      if name ∈ names then some (f name) else none := by
  induction names with
  | nil => rfl
  | cons n names ih =>
    by_cases h : name = n
    · subst h
      simp
    · have hkey : ((name : PropertyKey) == n) = false := beq_false_of_ne fun hkey => h (key_inj.mp hkey)
      simp [List.lookup, hkey, ih, h]

theorem getOwn?_ofShorthand (value : String → Value) (names : List String) (name : String) :
    (ofShorthand value names).getOwn? name =
      if name ∈ names ∧ name ≠ "__proto__" then some (.data (value name) true true true)
      else none := by
  change (ofShorthand value names).properties.lookup (name : PropertyKey) = _
  rw [ofShorthand, lookup_names]
  simp

/-- A name that has been read before changes nothing, and another one adds a property. -/
theorem define_ofShorthand (hname : name ≠ "__proto__") :
    (ofShorthand value names).define name (.plain (value name)) =
      some (ofShorthand value (names ++ [name])) := by
  have hown := getOwn?_ofShorthand value names name
  have hmem : "__proto__" ∈ names ++ [name] ↔ "__proto__" ∈ names := by simp [hname.symm]
  by_cases h : name ∈ names
  · rw [if_pos ⟨h, hname⟩] at hown
    have hlookup : ((ofShorthand value names).properties.lookup (name : PropertyKey)).isSome := by
      change ((ofShorthand value names).getOwn? name).isSome = true
      rw [hown]
      rfl
    have hsame : replace name (.data (value name) true true true)
        (ofShorthand value names).properties = (ofShorthand value names).properties := by
      rw [replace, List.map_congr_left (g := id), List.map_id]
      intro entry hentry
      obtain ⟨n, -, rfl⟩ := List.mem_map.mp hentry
      by_cases hn : n = name
      · subst hn
        simp
      · exact if_neg fun hkey => hn (key_inj.mp hkey)
    simp only [define, hown]
    rw [if_pos (by rfl), if_pos hlookup]
    have hupdate : (Descriptor.plain (value name)).update (.data (value name) true true true) =
        .data (value name) true true true := rfl
    rw [hupdate, hsame]
    simp [ofShorthand, eraseDups_concat, h, hmem]
  · rw [if_neg fun hboth => h hboth.1] at hown
    simp only [define, hown]
    rw [if_pos (by rfl)]
    simp [ofShorthand, eraseDups_concat, h, hmem, hname, Descriptor.plain]
    rfl

theorem withProto_ofShorthand (value : String → Value) (names : List String) :
    { ofShorthand value names with
      prototype := prototypeAfter (ofShorthand value names).prototype (value "__proto__") } =
      ofShorthand value (names ++ ["__proto__"]) := by
  have hfilter : (names ++ ["__proto__"]).eraseDups.filter (· ≠ "__proto__") =
      names.eraseDups.filter (· ≠ "__proto__") := by
    rw [eraseDups_concat]
    split <;> simp
  have hprototype : prototypeAfter (ofShorthand value names).prototype (value "__proto__") =
      prototypeAfter (some Intrinsic.objectPrototype) (value "__proto__") := by
    simp only [ofShorthand]
    split
    · cases value "__proto__" with
      | object => rfl
      | primitive p => cases p <;> rfl
    · rfl
  simp only [hprototype]
  simp only [ofShorthand, hfilter, List.mem_append, List.mem_singleton, or_true, if_true]

end ObjectData

/-! ### The evaluation -/

namespace Heap

variable {h : Heap}

/-- A chain of prototypes stays among the first objects if all their prototypes are there. -/
theorem chainFrom_lt {n : Nat} (hlinked : ∀ o, o.index < n → ∀ p ∈ (h.get o).prototype, p.index < n)
    (fuel : Nat) {start : Option ObjectRef} (hstart : ∀ o ∈ start, o.index < n) :
    ∀ o ∈ h.chainFrom fuel start, o.index < n := by
  induction fuel generalizing start with
  | zero => simp [chainFrom]
  | succ fuel ih =>
    cases start with
    | none => simp [chainFrom]
    | some p =>
      have hp := hstart p rfl
      intro o ho
      rcases List.mem_cons.mp ho with rfl | ho
      · exact hp
      · exact ih (hlinked p hp) o ho

/-- A new object may get any prototype that is there, or none. -/
theorem acceptsPrototype_next (hlinked : h.Linked) {data : ObjectData}
    (hdata : data.extensible = true) {prototype : Option ObjectRef}
    (hprototype : ∀ p ∈ prototype, p.index < h.objects.size) :
    (h.push data).acceptsPrototype h.next prototype = true := by
  have hchain : h.next ∉ (h.push data).chain prototype := by
    intro hmem
    refine Nat.lt_irrefl _ (chainFrom_lt (n := h.objects.size) (fun o ho p hp => ?_) _ hprototype _
      hmem)
    rw [get_push_of_lt ho] at hp
    exact hlinked o p hp
  simp [acceptsPrototype, h.get_push_next, hdata, hchain]

end Heap

namespace Engine

variable {fuel : Nat} {s : State} {scope : ScopeRef} {value : String → Value} {names : List String}
  {name : String}

/-- The state with a new object. -/
def withObject (s : State) (data : ObjectData) : State :=
  { s with heap := s.heap.push data }

theorem setPrototype_next (hlinked : s.heap.Linked) {data : ObjectData}
    (hdata : data.extensible = true) {prototype : Option ObjectRef}
    (hprototype : ∀ p ∈ prototype, p.index < s.heap.objects.size) :
    discard (Eval.setPrototype s.heap.next prototype) (withObject s data) =
      .ok () (withObject s { data with prototype }) := by
  have haccepts := s.heap.acceptsPrototype_next hlinked hdata hprototype
  have hmodify := s.heap.modify_push_next data fun data => { data with prototype }
  simp [discard, Functor.discard, Functor.mapConst, EStateM.map, Eval.setPrototype, Eval.heap,
    bind, EStateM.bind, withObject, haccepts, Eval.modifyObject, modify, modifyGet,
    MonadStateOf.modifyGet, EStateM.modifyGet, hmodify, pure, EStateM.pure]

theorem setProto_next (hlinked : s.heap.Linked) (data : ObjectData) {v : Value}
    (hdata : data.extensible = true) (hv : ∀ p, v = .object p → p.index < s.heap.objects.size) :
    setProto s.heap.next v (withObject s data) =
      .ok () (withObject s
        { data with prototype := ObjectData.prototypeAfter data.prototype v }) := by
  cases v with
  | object p =>
    exact setPrototype_next hlinked hdata fun q hq => by
      cases hq
      exact hv p rfl
  | primitive x =>
    cases x with
    | null => exact setPrototype_next hlinked hdata fun q hq => by cases hq
    | _ => rfl

/-- One more name. -/
theorem defineProperty_shorthand
    (hproto : name = "__proto__" → s.heap.Linked ∧
      ∀ p, value name = .object p → p.index < s.heap.objects.size)
    (hvalue : s.scopes.value? name scope = some (value name)) :
    (ofFuel (fuel + 1)).defineProperty s.heap.next scope
        (.shorthand name) (withObject s (.ofShorthand value names)) =
      .ok () (withObject s (.ofShorthand value (names ++ [name]))) := by
  have hread : (ofFuel (fuel + 1)).expr (.identifier name) scope
      (withObject s (.ofShorthand value names)) =
        .ok (value name) (withObject s (.ofShorthand value names)) := by
    change (ofFuel fuel).evaluate (.identifier name) scope _ = _
    exact evaluate_identifier hvalue
  by_cases hname : name = "__proto__"
  · subst hname
    obtain ⟨hlinked, hv⟩ := hproto rfl
    change EStateM.bind ((ofFuel (fuel + 1)).expr (.identifier "__proto__") scope)
      (setProto s.heap.next) _ = _
    simp only [EStateM.bind, hread, setProto_next hlinked (.ofShorthand value names) rfl hv,
      ObjectData.withProto_ofShorthand]
  · have hput : Eval.put s.heap.next name (.plain (value name))
        (withObject s (.ofShorthand value names)) =
          .ok () (withObject s (.ofShorthand value (names ++ [name]))) :=
      Eval.put_push (ObjectData.define_ofShorthand hname)
    rw [PropertyDef.shorthand, defineProperty, if_neg (by simpa [PropertyName.isProto] using hname)]
    change EStateM.bind ((ofFuel (fuel + 1)).expr (.identifier name) scope)
      (fun v => Eval.put s.heap.next name (.plain v)) _ = _
    simp only [EStateM.bind, hread, hput]

theorem defineProperties_shorthand
    (hproto : "__proto__" ∈ names → s.heap.Linked ∧
      ∀ p, value "__proto__" = .object p → p.index < s.heap.objects.size)
    (hvalue : ∀ name ∈ names, s.scopes.value? name scope = some (value name))
    (done : List String) :
    ((names.map PropertyDef.shorthand).forM
      ((ofFuel (fuel + 1)).defineProperty s.heap.next scope))
        (withObject s (.ofShorthand value done)) =
      .ok () (withObject s (.ofShorthand value (done ++ names))) := by
  induction names generalizing done with
  | nil => simp [pure, EStateM.pure]
  | cons name names ih =>
    have hstep : (ofFuel (fuel + 1)).defineProperty s.heap.next scope (.shorthand name)
        (withObject s (.ofShorthand value done)) =
          .ok () (withObject s (.ofShorthand value (done ++ [name]))) := by
      refine defineProperty_shorthand (fun h => ?_) (hvalue name (by simp))
      subst h
      exact hproto (by simp)
    have hrest := ih (fun h => hproto (by simp [h])) (fun n hn => hvalue n (by simp [hn]))
      (done ++ [name])
    change EStateM.bind ((ofFuel (fuel + 1)).defineProperty s.heap.next scope _)
      (fun _ => (names.map PropertyDef.shorthand).forM _) _ = _
    simp only [EStateM.bind, hstep, hrest, List.append_assoc, List.singleton_append]

/-- A literal of shorthand properties has no other effect than its object. -/
theorem evaluate_shorthand
    (hproto : "__proto__" ∈ names → s.heap.Linked ∧
      ∀ p, value "__proto__" = .object p → p.index < s.heap.objects.size)
    (hvalue : ∀ name ∈ names, s.scopes.value? name scope = some (value name)) :
    (ofFuel (fuel + 1)).evaluate
        (.object (names.map .shorthand)) scope s =
      .ok (.object s.heap.next) (withObject s (.ofShorthand value names)) := by
  have hnew : Eval.newOrdinary s = .ok s.heap.next (withObject s (.ofShorthand value [])) := rfl
  have hrest : ((names.map .shorthand).forM ((ofFuel (fuel + 1)).defineProperty s.heap.next scope))
      (withObject s (.ofShorthand value [])) = _ := defineProperties_shorthand hproto hvalue []
  change EStateM.bind Eval.newOrdinary (fun o => EStateM.bind
    ((names.map .shorthand).forM ((ofFuel (fuel + 1)).defineProperty o scope)) fun _ =>
      pure (Value.object o)) s = _
  simp only [EStateM.bind, hnew, hrest, List.nil_append]
  rfl

end Engine

/-! ### The keys -/

/-- A numeral starts with a digit. -/
theorem head_numeralBefore (n : Nat) (tail : List Char) :
    ∃ ch rest, numeralBefore 10 n tail = ch :: rest ∧ ch.isDigit = true := by
  induction n using Nat.strongRecOn generalizing tail with
  | _ n ih =>
    rw [numeralBefore]
    split
    · exact ih (n / 10) (by omega) _
    · next h =>
      have hdigit : ∀ d < 10, (digitChar d).isDigit = true := by decide
      exact ⟨digitChar n, tail, rfl, hdigit n (by omega)⟩

/-- The spelling of a word is no index. -/
theorem Lexed.arrayIndex?_word {source : String} {t : Token} (h : t ∈ (ofString source).tokens)
    (hword : t.isPropertyWord = true) : (t.text : PropertyKey).arrayIndex? = none := by
  have htext := tokenText_of_mem h
  have hfirst : ∃ first more, t.text.toList = first :: more ∧ isIdentifierStart first = true := by
    unfold Token.isPropertyWord at hword
    generalize t.kind = kind at htext hword
    generalize t.text.toList = text at htext
    cases htext with
    | @word first more hfirst => exact ⟨first, more, rfl, hfirst⟩
    | number _ h => rcases h.kind_eq with rfl | rfl <;> cases hword
    | _ => cases hword
  obtain ⟨first, more, htext, hfirst⟩ := hfirst
  cases hindex : (t.text : PropertyKey).arrayIndex? with
  | none => rfl
  | some i =>
    have htext' : t.text = numeral 10 i :=
      Units.ofString_inj (PropertyKey.string.inj (PropertyKey.ofIndex_of_arrayIndex? hindex).1).symm
    obtain ⟨ch, rest, hnumeral, hdigit⟩ := head_numeralBefore i []
    rw [htext', numeral, String.toList_ofList, hnumeral] at htext
    rw [(List.cons.inj htext).1, isDigit_of_isIdentifierStart hfirst] at hdigit
    cases hdigit

namespace ObjectData

theorem ownKeys_ofShorthand {value : String → Value} {names : List String}
    (hnames : ∀ name ∈ names, (name : PropertyKey).arrayIndex? = none) :
    (ofShorthand value names).ownKeys =
      (names.eraseDups.filter (· ≠ "__proto__")).map fun name : String => (name : PropertyKey) := by
  have hkeys : (ofShorthand value names).properties.map Prod.fst =
      (names.eraseDups.filter (· ≠ "__proto__")).map fun name : String => (name : PropertyKey) := by
    simp [ofShorthand]
  have hnone : ∀ key ∈ (ofShorthand value names).properties.map Prod.fst,
      key.arrayIndex? = none ∧ key.isSymbol = false := by
    rw [hkeys]
    intro key hkey
    obtain ⟨name, hname, rfl⟩ := List.mem_map.mp hkey
    exact ⟨hnames name (List.mem_eraseDups.mp (List.mem_filter.mp hname).1), rfl⟩
  have hindices : (ofShorthand value names).ownIndices = [] := by
    have hstored : (ofShorthand value names).properties.filterMap (·.1.arrayIndex?) = [] :=
      List.filterMap_eq_nil_iff.mpr fun entry hentry => (hnone _ (List.mem_map_of_mem hentry)).1
    rw [ownIndices, hstored]
    simp [ofShorthand, List.eraseReps, List.eraseRepsBy]
  have hstrings : ((ofShorthand value names).properties.map Prod.fst).filter
      (fun k => !k.isSymbol && k.arrayIndex?.isNone) =
        (ofShorthand value names).properties.map Prod.fst :=
    List.filter_eq_self.mpr fun key hkey => by simp [hnone key hkey]
  have hsymbols : ((ofShorthand value names).properties.map Prod.fst).filter (·.isSymbol) = [] :=
    List.filter_eq_nil_iff.mpr fun key hkey => by simp [hnone key hkey]
  rw [ownKeys, hindices, hstrings, hsymbols, hkeys]
  simp [ofShorthand]

end ObjectData

namespace Engine

variable {source : String} {p : Program} {xs : List Lexeme} {s : State} {scope : ScopeRef}
  {value : String → Value}

/-- In a closed state the value of a variable is there. -/
theorem value?_lt (hclosed : s.toStore.Closed) {name : String} {o : ObjectRef}
    (h : s.scopes.value? name scope = some (.object o)) : o.index < s.heap.objects.size := by
  obtain ⟨r, -, hv⟩ := Option.bind_eq_some_iff.mp h
  have : Known .full s.heap.objects.size (s.scopes.get r) := ⟨fun _ => (hclosed.scopes r).full⟩
  have hget : Known .full s.heap.objects.size ((s.scopes.get r).get name) := inferInstance
  refine hclosed.lt (hget.within trivial).there ?_
  cases hread : (s.scopes.get r).get name with
  | error e => rw [hread] at hv; cases hv
  | ok v =>
    rw [hread] at hv
    cases hv
    rfl

/-- A script of an object literal of names in parentheses, if it is accepted, makes an object with
the distinct names as keys in the order in which they stand first, and with the values of their
variables. Only the name `__proto__` makes no property, but sets the prototype. -/
theorem shorthand_literal (hparse : Program.parse source = .ok p)
    (hxs : ∀ x ∈ xs, Grammar.IsWord x)
    (htokens : ((Lexed.ofString source).tokens.filter Token.isSignificant).map
      (fun t => (t.kind, t.text)) = Grammar.literalLexemes xs)
    (hclosed : "__proto__" ∈ xs.map Prod.snd → s.toStore.Closed)
    (hvalue : ∀ name ∈ xs.map Prod.snd, s.scopes.value? name scope = some (value name))
    (fuel : Nat) :
    ∃ e, p.body = [.expression e] ∧
      (ofFuel (fuel + 1)).evaluate e scope s = .ok (.object s.heap.next)
        { s with heap := s.heap.push (.ofShorthand value (xs.map Prod.snd)) } ∧
      (ObjectData.ofShorthand value (xs.map Prod.snd)).ownKeys =
        ((xs.map Prod.snd).eraseDups.filter (· ≠ "__proto__")).map
          fun name : String => (name : PropertyKey) := by
  refine ⟨_, Program.body_of_shorthand hparse hxs htokens, ?_, ?_⟩
  · rw [show (xs.map fun x => PropertyDef.shorthand x.2) = (xs.map Prod.snd).map .shorthand by simp]
    refine evaluate_shorthand (fun hproto => ⟨(hclosed hproto).linked, fun o ho => ?_⟩) hvalue
    exact value?_lt (hclosed hproto) ((hvalue _ hproto).trans (congrArg some ho))
  · refine ObjectData.ownKeys_ofShorthand fun name hname => ?_
    obtain ⟨x, hx, rfl⟩ := List.mem_map.mp hname
    obtain ⟨t, ht, rfl⟩ := List.mem_map.mp (htokens ▸ Grammar.mem_literalLexemes hx)
    exact Lexed.arrayIndex?_word (List.mem_filter.mp ht).1 (hxs _ hx t.location)

/-- The first state with a scope of variables inside the global one. -/
def stateWith (bindings : List (String × Binding)) : State :=
  { State.initial with
    scopes := State.initial.scopes.push { bindings, parent := some Intrinsic.globalScope } }

/-- A name that is a modifier elsewhere, one that sets the prototype, and a repetition. -/
theorem shorthand_literal_repeated :
    let xs : List Lexeme :=
      [(.identifier, "get"), (.identifier, "__proto__"), (.identifier, "get")]
    let s := stateWith [("get", ⟨.const, some (.boolean true)⟩), ("__proto__", ⟨.var, some .null⟩)]
    let value := fun name => if name = "get" then Value.boolean true else .null
    (∀ x ∈ xs, Grammar.IsWord x) ∧ s.toStore.Closed ∧
      (∀ name ∈ xs.map Prod.snd, s.scopes.value? name ⟨1⟩ = some (value name)) ∧
      ∃ p e, Program.parse "({ get, __proto__, get })" = .ok p ∧ p.body = [.expression e] ∧
        (ofFuel 1).evaluate e ⟨1⟩ s = .ok (.object s.heap.next)
          { s with heap := s.heap.push {
              prototype := none, properties := [("get", .data (.boolean true) true true true)] } } := by
  intro xs s value
  have hxs : ∀ x ∈ xs, Grammar.IsWord x := by
    intro x hx location
    simp only [xs, List.mem_cons, List.not_mem_nil, or_false] at hx
    rcases hx with rfl | rfl | rfl <;> rfl
  have hclosed : s.toStore.Closed :=
    State.closed_initial.pushScope ((inferInstance : Known .full _ _).within trivial).there
  have hvalue : ∀ name ∈ xs.map Prod.snd, s.scopes.value? name ⟨1⟩ = some (value name) := by
    intro name hname
    simp only [xs, List.map_cons, List.map_nil, List.mem_cons, List.not_mem_nil, or_false] at hname
    rcases hname with rfl | rfl | rfl <;> rfl
  have hparsed : (Program.parse "({ get, __proto__, get })").toOption.isSome = true := by
    decide +kernel
  cases hparse : Program.parse "({ get, __proto__, get })" with
  | error e => rw [hparse] at hparsed; cases hparsed
  | ok p =>
    obtain ⟨e, he, hevaluate, -⟩ := shorthand_literal hparse hxs (by decide +kernel)
      (fun _ => hclosed) hvalue 0
    exact ⟨hxs, hclosed, hvalue, p, e, rfl, he, hevaluate⟩

/-- The shorthand of a variable named `__proto__` makes no property. -/
theorem shorthand_literal_proto :
    let s := stateWith [("__proto__", ⟨.letVar, some (.boolean true)⟩)]
    s.scopes.value? "__proto__" ⟨1⟩ = some (.boolean true) ∧
      ∃ p e data, Program.parse "({__proto__})" = .ok p ∧ p.body = [.expression e] ∧
        (∀ fuel, (ofFuel (fuel + 1)).evaluate e ⟨1⟩ s =
          .ok (.object s.heap.next) { s with heap := s.heap.push data }) ∧
        data.ownKeys ≠ ["__proto__"] := by
  intro s
  have hxs : ∀ x ∈ ([(.identifier, "__proto__")] : List Lexeme), Grammar.IsWord x := by
    intro x hx location
    rw [List.mem_singleton.mp hx]
    rfl
  have hclosed : s.toStore.Closed :=
    State.closed_initial.pushScope ((inferInstance : Known .full _ _).within trivial).there
  have hparsed : (Program.parse "({__proto__})").toOption.isSome = true := by decide +kernel
  cases hparse : Program.parse "({__proto__})" with
  | error e => rw [hparse] at hparsed; cases hparsed
  | ok p =>
    refine ⟨rfl, p, _, .ofShorthand (fun _ => .boolean true) ["__proto__"], rfl,
      Program.body_of_shorthand hparse hxs (by decide +kernel), fun fuel => ?_, ?_⟩
    · change (ofFuel (fuel + 1)).evaluate (.object (["__proto__"].map .shorthand)) ⟨1⟩ s = _
      refine evaluate_shorthand (fun _ => ⟨hclosed.linked, fun o ho => by cases ho⟩) fun name hname => ?_
      rw [List.mem_singleton.mp hname]
      rfl
    · rw [ObjectData.ownKeys_ofShorthand fun name hname => ?_]
      · decide +kernel
      · rw [List.mem_singleton.mp hname]
        decide +kernel

end Engine

end Ecma
