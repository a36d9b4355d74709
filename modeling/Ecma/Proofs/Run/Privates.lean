import Ecma.Proofs.Run.Function
import Ecma.Proofs.Run.Raise

/-! The private elements of classes. The elements of a class are gathered under names that are new
when its body is entered; its constructor gets them all at the end. An object gets those of a
constructor all together: if it has any of them it has them all, and the first is refused. -/

namespace Ecma

/-! ### Lists of elements -/

namespace PrivateElement

variable {name n : PrivateName} {e : PrivateElement}
  {elements : List (PrivateName × PrivateElement)}

/-- An element whose name is there completes the one that has it. -/
theorem map_fst_add
    (h : ∀ existing, (name, existing) ∈ elements → (existing.merge? e).isSome = true) :
    (add name e elements).map Prod.fst = if name ∈ elements.map Prod.fst then
      elements.map Prod.fst else elements.map Prod.fst ++ [name] := by
  induction elements with
  | nil => rfl
  | cons entry rest ih =>
    obtain ⟨other, existing⟩ := entry
    unfold add
    by_cases heq : other = name
    · subst heq
      obtain ⟨merged, hmerged⟩ := Option.isSome_iff_exists.mp (h existing List.mem_cons_self)
      simp [hmerged]
    · have hrest := ih fun existing hmem => h existing (List.mem_cons_of_mem _ hmem)
      simp only [if_neg heq, List.map_cons, hrest, List.mem_cons, Ne.symm heq, false_or]
      split <;> rfl

/-- No method comes of two elements. -/
theorem mem_add_method {f : ObjectRef} (h : (n, .method f) ∈ add name e elements) :
    (n, .method f) ∈ elements ∨ (n = name ∧ e = .method f) := by
  have hnew (h : (n, PrivateElement.method f) ∈ [(name, e)]) : n = name ∧ e = .method f := by
    cases List.mem_singleton.mp h
    exact ⟨rfl, rfl⟩
  induction elements with
  | nil => exact .inr (hnew h)
  | cons entry rest ih =>
    obtain ⟨other, existing⟩ := entry
    unfold add at h
    split at h
    · split at h
      · next merged hmerged =>
        rcases List.mem_cons.mp h with heq | hrest
        · obtain ⟨-, rfl⟩ := Prod.mk.inj heq
          cases existing <;> cases e <;> cases hmerged
        · exact .inl (List.mem_cons_of_mem _ hrest)
      · rw [← List.cons_append, List.mem_append] at h
        exact h.imp id hnew
    · rcases List.mem_cons.mp h with heq | hrest
      · exact .inl (heq ▸ List.mem_cons_self)
      · exact (ih hrest).imp (List.mem_cons_of_mem _) id

end PrivateElement

/-! ### Gathering the elements of a class -/

namespace ClassPrivates

/-- The elements of the constructor, or of the instances. -/
def elements (p : ClassPrivates) (isStatic : Bool) : List (PrivateName × PrivateElement) :=
  if isStatic then p.statics else p.instances

/-- The names of the elements of the constructor, or of the instances. -/
def names (p : ClassPrivates) (isStatic : Bool) : List PrivateName :=
  (p.elements isStatic).map Prod.fst

theorem elements_add_self (p : ClassPrivates) (isStatic : Bool) (name : PrivateName)
    (e : PrivateElement) :
    (p.add isStatic name e).elements isStatic = PrivateElement.add name e (p.elements isStatic) := by
  cases isStatic <;> rfl

theorem elements_add_of_ne (p : ClassPrivates) {isStatic other : Bool} (h : other ≠ isStatic)
    (name : PrivateName) (e : PrivateElement) :
    (p.add isStatic name e).elements other = p.elements other := by
  cases isStatic <;> cases other <;> first | rfl | exact absurd rfl h

/-- What has been gathered of a class that has declared `ds` so far, with the names that spellings
stand for in its scope: one element for each name, and no method under a name that was not declared
as one. -/
structure Gathers (lookup : String → Option PrivateName) (ds : List Grammar.PrivateDeclaration)
    (p : ClassPrivates) : Prop where
  distinct : ∀ isStatic, (p.names isStatic).Nodup
  mem_names : ∀ {isStatic n}, n ∈ p.names isStatic ↔
    ∃ d ∈ ds, d.isStatic = isStatic ∧ lookup d.name = some n
  methods : ∀ {isStatic n f}, (n, .method f) ∈ p.elements isStatic →
    ∃ d ∈ ds, d.isStatic = isStatic ∧ d.kind = .method ∧ lookup d.name = some n

variable {lookup : String → Option PrivateName} {ds : List Grammar.PrivateDeclaration}
  {d : Grammar.PrivateDeclaration} {p : ClassPrivates} {n : PrivateName}

theorem gathers_empty : Gathers lookup [] {} where
  distinct isStatic := by cases isStatic <;> exact List.nodup_nil
  mem_names {isStatic _} := by cases isStatic <;> simp [names, elements]
  methods {isStatic _ _} h := by cases isStatic <;> cases h

/-- The halves of an accessor become one. -/
theorem isSome_merge? {k k' : MethodKind} (hpair : Grammar.isAccessorPair k k' = true)
    {e : PrivateElement} (he : ∀ f, e ≠ .method f) (f : ObjectRef) :
    (e.merge? (k'.privateElement f)).isSome = true := by
  cases e with
  | method g => exact absurd rfl (he g)
  | accessor get set => cases k <;> cases k' <;> first | rfl | cases hpair

/-- An element is added to those that the class has declared. If its name is there, the two are the
halves of an accessor. -/
theorem Gathers.add (hp : Gathers lookup ds p) (hagrees : ∀ d' ∈ ds, d'.Agrees d)
    (hinjective : ∀ name name' n, lookup name = some n → lookup name' = some n → name' = name)
    (hn : lookup d.name = some n) (f : ObjectRef) :
    Gathers lookup (ds ++ [d]) (p.add d.isStatic n (d.kind.privateElement f)) := by
  have hpair {d' : Grammar.PrivateDeclaration} (hd' : d' ∈ ds) (hn' : lookup d'.name = some n) :
      Grammar.isAccessorPair d'.kind d.kind = true ∧ d'.isStatic = d.isStatic :=
    hagrees d' hd' (hinjective _ _ _ hn hn')
  have hmerges (existing : PrivateElement) (hmem : (n, existing) ∈ p.elements d.isStatic) :
      (existing.merge? (d.kind.privateElement f)).isSome = true := by
    obtain ⟨d', hd', -, hn'⟩ := hp.mem_names.mp (List.mem_map_of_mem (f := Prod.fst) hmem)
    refine isSome_merge? (hpair hd' hn').1 (fun g hg => ?_) f
    obtain ⟨d'', hd'', -, hkind, hn''⟩ := hp.methods (hg ▸ hmem)
    have hfalse := (hpair hd'' hn'').1
    rw [hkind] at hfalse
    cases hfalse
  have hself : (p.add d.isStatic n (d.kind.privateElement f)).names d.isStatic =
      if n ∈ p.names d.isStatic then p.names d.isStatic else p.names d.isStatic ++ [n] := by
    rw [names, elements_add_self, PrivateElement.map_fst_add hmerges]
    rfl
  have hother {isStatic : Bool} (h : isStatic ≠ d.isStatic) :
      (p.add d.isStatic n (d.kind.privateElement f)).names isStatic = p.names isStatic := by
    rw [names, elements_add_of_ne p h, names]
  constructor
  · intro isStatic
    by_cases heq : isStatic = d.isStatic
    · subst heq
      rw [hself]
      split
      · exact hp.distinct _
      · next hnew =>
        exact (hp.distinct _).append (List.nodup_singleton n) fun n' hn' hmem =>
          hnew (List.mem_singleton.mp hmem ▸ hn')
    · rw [hother heq]
      exact hp.distinct isStatic
  · intro isStatic n'
    simp only [List.mem_append, List.mem_singleton, or_and_right, exists_or, exists_eq_left,
      ← hp.mem_names]
    by_cases heq : isStatic = d.isStatic
    · subst heq
      rw [hself, hn, Option.some.injEq]
      split
      · next hmem => exact ⟨.inl, fun h => h.elim id fun h => h.2 ▸ hmem⟩
      · simp [eq_comm]
    · simp [hother heq, Ne.symm heq]
  · intro isStatic n' g hmem
    by_cases heq : isStatic = d.isStatic
    · subst heq
      rw [elements_add_self] at hmem
      rcases PrivateElement.mem_add_method hmem with hold | ⟨rfl, hmethod⟩
      · obtain ⟨d', hd', h⟩ := hp.methods hold
        exact ⟨d', List.mem_append_left _ hd', h⟩
      · refine ⟨d, List.mem_append_right _ (List.mem_singleton_self d), rfl, ?_, hn⟩
        cases hkind : d.kind with
        | method => rfl
        | getter | setter =>
          rw [hkind] at hmethod
          cases hmethod
    · rw [elements_add_of_ne p heq] at hmem
      obtain ⟨d', hd', h⟩ := hp.methods hmem
      exact ⟨d', List.mem_append_left _ hd', h⟩

/-- No name of a class is one of its constructor and of its instances. -/
theorem Gathers.nodup (hp : Gathers lookup ds p)
    (hagrees : ds.Pairwise Grammar.PrivateDeclaration.Agrees)
    (hinjective : ∀ name name' n, lookup name = some n → lookup name' = some n → name' = name) :
    (p.names true ++ p.names false).Nodup := by
  refine (hp.distinct true).append (hp.distinct false) fun n hstatic hinstance => ?_
  obtain ⟨d, hd, hs, hn⟩ := hp.mem_names.mp hstatic
  obtain ⟨d', hd', hs', hn'⟩ := hp.mem_names.mp hinstance
  have hne : d ≠ d' := fun heq => by
    rw [heq, hs'] at hs
    cases hs
  have hsymm : Std.Symm Grammar.PrivateDeclaration.Agrees := ⟨fun _ _ => .symm⟩
  have hsame := (hagrees.forall hd hd' hne (hinjective _ _ _ hn' hn)).2
  rw [hs, hs'] at hsame
  cases hsame

end ClassPrivates

namespace ClassElement

/-- What an element of a class adds to its private elements. -/
def Adds (lookup : String → Option PrivateName) (p p' : ClassPrivates) : ClassElement → Prop
  | .publicElement .. => p' = p
  | .privateElement spelling kind _ isStatic => ∃ name o, lookup spelling = some name ∧
    p' = p.add isStatic name (kind.privateElement o)

theorem Adds.gathers {lookup : String → Option PrivateName} {p p' : ClassPrivates}
    {m : ClassElement} {before : List ClassElement} (h : m.Adds lookup p p')
    (hp : p.Gathers lookup (before.filterMap declaration?))
    (hagrees : ((before ++ [m]).filterMap declaration?).Pairwise Grammar.PrivateDeclaration.Agrees)
    (hinjective : ∀ name name' n, lookup name = some n → lookup name' = some n → name' = name) :
    p'.Gathers lookup ((before ++ [m]).filterMap declaration?) := by
  rw [List.filterMap_append] at hagrees ⊢
  cases m with
  | publicElement key kind f isStatic =>
    cases h
    rwa [List.filterMap_cons_none rfl, List.filterMap_nil, List.append_nil]
  | privateElement spelling kind f isStatic =>
    obtain ⟨name, o, hn, rfl⟩ := h
    exact hp.add (d := ⟨spelling, kind, isStatic⟩)
      (fun d' hd' => (List.pairwise_append.mp hagrees).2.2 d' hd' _ (by simp [declaration?]))
      hinjective hn o

end ClassElement

/-! ### Equipping a constructor -/

theorem Environment.mem_of_lookup {e : Environment} {name : String} {n : PrivateName}
    (h : e.privateNames.lookup name = some n) : (name, n) ∈ e.privateNames := by
  obtain ⟨before, after, heq, -⟩ := List.lookup_eq_some_iff.mp h
  simp [heq]

/-- In a scope no name stands for two spellings. -/
theorem Store.Names.injective {st : Store} (h : st.Names) (q : ScopeRef) (name name' : String)
    (n : PrivateName) (hn : (st.scopes.get q).privateNames.lookup name = some n)
    (hn' : (st.scopes.get q).privateNames.lookup name' = some n) : name' = name :=
  (h.unique q q name name' n (Environment.mem_of_lookup hn) (Environment.mem_of_lookup hn')).2

/-- What a constructor becomes when it gets the private elements of its class. -/
def ObjectData.equip (privates : ClassPrivates) (data : ObjectData) : ObjectData :=
  { data with
    kind := match data.kind with
      | .function f => .function { f with privateMethods := privates.instances }
      | kind => kind
    privateElements := data.privateElements ++ privates.statics }

namespace ObjectData

variable (privates : ClassPrivates) (data : ObjectData)

theorem remains_equip : data.Remains (data.equip privates) := by
  unfold equip
  refine ⟨fun hwf => hwf.of_eq rfl fun key => ?_, ?_⟩
  · cases hkind : data.kind <;> simp [exoticProperty?, hkind]
  · cases hkind : data.kind with
    | function f => exact .inr ⟨f, _, rfl, rfl, _, rfl⟩
    | _ => exact .inl rfl

theorem evolves_equip : data.Evolves (data.equip privates) := by
  unfold equip
  refine .of_getOwn? (fun key => ?_) id fun _ => rfl
  cases hkind : data.kind <;> simp [getOwn?, exoticProperty?, hkind]

theorem instanceElements_equip {f : ScriptFunction} (hkind : data.kind = .function f) :
    (data.equip privates).instanceElements = privates.instances := by
  rw [equip, instanceElements, hkind]

theorem instanceNames_equip : (data.equip privates).instanceNames = privates.names false ∨
    (data.equip privates).instanceNames = data.instanceNames := by
  cases hkind : data.kind with
  | function f =>
    refine .inl ?_
    rw [instanceNames, instanceElements_equip privates data hkind]
    rfl
  | _ =>
    refine .inr ?_
    simp only [instanceNames, instanceElements, equip, hkind]

end ObjectData

/-- A constructor gets the elements under the names of a scope, which nothing has used before. -/
theorem Eval.leads_installPrivates [Vigil] {s : State} {o : ObjectRef} {q : ScopeRef}
    {privates : ClassPrivates} {ds : List Grammar.PrivateDeclaration} (hs : s.Sound)
    (hunused : s.Unused q)
    (hprivates : privates.Gathers (fun name => (s.scopes.get q).privateNames.lookup name) ds)
    (hagrees : ds.Pairwise Grammar.PrivateDeclaration.Agrees) :
    LeadsBut q.all s (fun _ s' => s' = { s with heap := s.heap.modify o (·.equip privates) })
      (installPrivates o privates s) := by
  have hname {n : PrivateName} (hn : n ∈ privates.names true ++ privates.names false) :
      ∃ name, (name, n) ∈ (s.scopes.get q).privateNames := by
    rcases List.mem_append.mp hn with hn | hn <;>
      obtain ⟨d, -, -, hd⟩ := hprivates.mem_names.mp hn <;>
      exact ⟨d.name, Environment.mem_of_lookup hd⟩
  have hdistinct := hprivates.nodup hagrees (hs.names.injective q)
  obtain ⟨hwhole, huses⟩ := hs.privates.equip (f := (·.equip privates)) (o := o) hdistinct
    (fun n hn => (hname hn).elim fun name hmem => (hunused name n hmem).2)
    (by simp [ObjectData.privateNames, ObjectData.equip, ClassPrivates.names,
      ClassPrivates.elements])
    (ObjectData.instanceNames_equip privates _)
  have hreserves : Store.Reserves q.all s.toStore
      { s.toStore with heap := s.heap.modify o (·.equip privates) } := by
    refine .of_heap rfl (Nat.le_refl _) fun n hn _ => (huses n hn).imp_right fun hmem => ?_
    obtain ⟨name, hname⟩ := hname hmem
    exact ⟨(q, name), ⟨rfl, trivial⟩, name, hname⟩
  have hremains := ObjectData.remains_equip privates (s.heap.get o)
  have hprecedes : s.PrecedesBut q.all { s with heap := s.heap.modify o (·.equip privates) } :=
    State.Follows.still ⟨.modifyObject hremains (ObjectData.evolves_equip privates _), rfl, rfl, rfl⟩
      rfl hreserves
  refine ⟨hprecedes, hs.next hprecedes (hs.toSound.changeObject hremains hwhole fun n hn => ?_)
    ⟨"", by simp⟩, rfl⟩
  rcases huses n hn with hold | hnew
  · exact hs.used n hold
  · obtain ⟨name, hname⟩ := hname hnew
    exact (hunused name n hname).1

/-- A constructor that an evaluation of a class has made: objects get from it just the private names
that the class declares for them, which stand in a scope of that evaluation. -/
structure ClassDef.Equips (c : ClassDef) (scope : ScopeRef) (st : State) (o : ObjectRef)
    (st' : State) : Prop where
  equips : ∃ inner, st.Lacks inner ∧ st'.Inside scope inner (distinctNames c.privateNames) ∧
    ∀ n, n ∈ (st'.heap.get o).instanceNames ↔ ∃ d ∈ c.declarations, d.isStatic = false ∧
      (st'.scopes.get inner).privateNames.lookup d.name = some n

/-! ### Giving objects their elements -/

/-- What is read from the heap goes to the rest of an evaluation. -/
theorem Eval.heap_bind {α β : Type} (f : Heap → α) (k : α → Eval β) (s : State) :
    (heap f >>= k) s = k (f s.heap) s :=
  rfl

namespace Engine

variable {o constructor : ObjectRef} {elements : List (PrivateName × PrivateElement)} {s : State}

theorem addPrivates_of_none (hdistinct : (elements.map Prod.fst).Nodup)
    (hnone : ∀ n ∈ elements.map Prod.fst, n ∉ (s.heap.get o).privateNames) :
    addPrivates o elements s = .ok () { s with
      heap := s.heap.modify o fun data =>
        { data with privateElements := data.privateElements ++ elements } } := by
  induction elements generalizing s with
  | nil =>
    rw [s.heap.modify_eq_self o fun data => by rw [List.append_nil]]
    rfl
  | cons entry rest ih =>
    obtain ⟨n, e⟩ := entry
    rw [List.map_cons, List.nodup_cons] at hdistinct
    let first (data : ObjectData) : ObjectData :=
      { data with privateElements := data.privateElements ++ [(n, e)] }
    have hcheck : ((s.heap.get o).privateElement? n).isSome = false :=
      Bool.eq_false_iff.mpr fun h => hnone n (by simp) (ObjectData.isSome_privateElement?.mp h)
    have hfirst : addPrivates o ((n, e) :: rest) s =
        addPrivates o rest { s with heap := s.heap.modify o first } := by
      change ((do
        if ((s.heap.get o).privateElement? n).isSome then Eval.raise .privateTwice
        Eval.modifyObject o first) >>= fun _ => addPrivates o rest : Eval Unit) s = _
      rw [hcheck]
      rfl
    have hrest (n' : PrivateName) (hn' : n' ∈ rest.map Prod.fst) :
        n' ∉ ((s.heap.modify o first).get o).privateNames := by
      have hold := hnone n' (List.mem_cons_of_mem _ hn')
      obtain heq | ⟨-, heq⟩ := s.heap.get_modify_cases o first o <;> rw [heq]
      · exact hold
      · have hne : n' ≠ n := fun heq => hdistinct.1 (heq ▸ hn')
        simpa [first, ObjectData.privateNames, hne] using hold
    have hnext := ih (s := { s with heap := s.heap.modify o first }) hdistinct.2 hrest
    rw [hfirst, hnext, Heap.modify_modify]
    simp [first]

/-- An object that has the first of the elements is left as it is. -/
theorem addPrivates_of_first {n : PrivateName} {e : PrivateElement}
    (h : n ∈ (s.heap.get o).privateNames) :
    addPrivates o ((n, e) :: elements) s = (Eval.raise .privateTwice : Eval Unit) s := by
  change ((do
    if ((s.heap.get o).privateElement? n).isSome then Eval.raise .privateTwice
    Eval.modifyObject o fun data =>
      { data with privateElements := data.privateElements ++ [(n, e)] }) >>= fun _ =>
        addPrivates o elements : Eval Unit) s = _
  rw [ObjectData.isSome_privateElement?.mpr h, if_pos rfl, bind_assoc]
  exact Eval.raise_bind _ _ s

theorem initialiseInstance_eq (o constructor : ObjectRef) (s : State) :
    initialiseInstance o constructor s =
      addPrivates o (s.heap.get constructor).instanceElements s := by
  unfold initialiseInstance
  rw [Eval.heap_bind]
  unfold Heap.scriptFunction? ObjectData.instanceElements
  cases (s.heap.get constructor).kind <;> rfl

/-- An object without the elements of a constructor gets them all; one that has any is left as it
is. -/
theorem initialiseInstance_cases (hs : s.heap.Whole) (o constructor : ObjectRef) :
    ((∀ n ∈ (s.heap.get constructor).instanceNames, n ∉ (s.heap.get o).privateNames) ∧
      initialiseInstance o constructor s = .ok () { s with
        heap := s.heap.modify o fun data => { data with
          privateElements :=
            data.privateElements ++ (s.heap.get constructor).instanceElements } }) ∨
      (∃ n ∈ (s.heap.get constructor).instanceNames, n ∈ (s.heap.get o).privateNames) ∧
        initialiseInstance o constructor s = (Eval.raise .privateTwice : Eval Unit) s := by
  rw [initialiseInstance_eq]
  cases helements : (s.heap.get constructor).instanceElements with
  | nil =>
    refine .inl ⟨by simp [ObjectData.instanceNames, helements], ?_⟩
    exact addPrivates_of_none (by simp) (by simp)
  | cons entry rest =>
    rcases hs.all_or_none constructor o with hnone | hall
    · have hdistinct := hs.instances constructor
      refine .inl ⟨hnone, ?_⟩
      rw [ObjectData.instanceNames, helements] at hnone hdistinct
      exact addPrivates_of_none hdistinct hnone
    · have hfirst : entry.1 ∈ (s.heap.get constructor).instanceNames := by
        simp [ObjectData.instanceNames, helements]
      exact .inr ⟨⟨_, hfirst, hall _ hfirst⟩, addPrivates_of_first (hall _ hfirst)⟩

/-- Where objects have all elements of a constructor or none, a refusal leaves all private elements
as they are. -/
theorem initialiseInstance_error (hs : s.heap.Whole) {e : Abrupt} {s' : State}
    (h : initialiseInstance o constructor s = .error e s') (p : ObjectRef) :
    (s'.heap.get p).privateElements = (s.heap.get p).privateElements := by
  rcases initialiseInstance_cases hs o constructor with ⟨-, hok⟩ | ⟨-, hraise⟩
  · cases h.symm.trans hok
  · rw [hraise, Eval.raise_apply] at h
    cases h
    exact (Heap.keepsPrivates_push rfl rfl p).own

instance [Vigil] (o constructor : ObjectRef) : (initialiseInstance o constructor).Tame := by
  refine ⟨fun st s hs hsound => ?_⟩
  rcases initialiseInstance_cases hsound.privates o constructor with ⟨hnone, heq⟩ | ⟨-, heq⟩
  · let give (data : ObjectData) : ObjectData := { data with
      privateElements := data.privateElements ++ (s.heap.get constructor).instanceElements }
    have hremains : (s.heap.get o).Remains (give (s.heap.get o)) := .of_eq rfl rfl
    obtain ⟨hwhole, huses⟩ := hsound.privates.give (f := give) hnone (by
      simp [give, ObjectData.privateNames, ObjectData.instanceNames]) rfl
    have hprecedes : s.Precedes { s with heap := s.heap.modify o give } :=
      State.Follows.still ⟨.modifyObject hremains (.of_getOwn? (fun _ => rfl) id fun _ => rfl),
        rfl, rfl, rfl⟩ rfl (.of_uses rfl (Nat.le_refl _) huses)
    rw [heq]
    exact ⟨hprecedes, hsound.next hprecedes (hsound.toSound.changeObject hremains hwhole
      fun n hn => hsound.used n (huses n hn)) ⟨"", by simp⟩, trivial⟩
  · rw [heq]
    exact Eval.SafeBut.raise s hs hsound

end Engine

end Ecma
