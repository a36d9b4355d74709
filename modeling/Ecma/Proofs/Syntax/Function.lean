import Ecma.Proofs.Syntax.Lookahead

/-! Productions of functions and classes give legal trees, if the productions inside them do. -/

namespace Ecma

open Parse

namespace Grammar

/-- The productions that contain themselves give legal trees. -/
structure Sound (g : Grammar) : Prop where
  assignment : ∀ c s, g.assignment.Gives c s fun names e => e.Legal (c.rights names)
  exponentiation : ∀ c s, g.exponentiation.Gives c s fun names e => e.Legal (c.rights names)
  unary : ∀ c s, g.unary.Gives c s fun names e => e.Legal (c.rights names)
  member : ∀ c s, g.member.Gives c s fun names e => e.Legal (c.rights names)
  leftHandSide : ∀ c s, g.leftHandSide.Gives c s fun names e => e.Legal (c.rights names)
  item : ∀ c s, g.item.Gives c s fun names t => t.Legal (c.rights names) c.exits
  subStatement : ∀ c s, g.subStatement.Gives c s fun names t => t.Legal (c.rights names) c.exits
  /-- No declaration stands where a single statement has to. -/
  single : ∀ c s, g.subStatement.Yields c s fun t _ => t.boundNames = []
  /-- A loop that is seen ahead is read as one. -/
  loops : ∀ c s, LoopAhead s.tokens.significant →
    g.subStatement.Yields c s fun t _ => t.isLoop = true

/-! ### Productions that only take tokens -/

instance : modifiesNext.Plain := by
  refine .bind fun t => ?_
  cases t with
  | none => infer_instance
  | some t => simp only; split <;> infer_instance

instance (word : String) : (atModifier word).Plain := by unfold atModifier; infer_instance

instance : atUseStrict.Plain := by
  refine .bind fun t => ?_
  cases t <;> infer_instance

instance (f : FunctionDef) (kind : MethodKind) (l : Location) : (checkArity f kind l).Plain := by
  unfold checkArity
  split <;> infer_instance

instance : elementModifiers.Plain := by
  refine .bind fun _ => .bind fun _ => .guard (.bind fun isStatic => .optional fun _ => ?_)
  refine .bind fun _ => .guard (.bind fun _ => .guard ?_)
  infer_instance

instance : checkNotField.Plain := by unfold checkNotField; infer_instance

variable {g : Grammar} {c : Surroundings} {s : ParseState}

instance : g.formalParameters.Plain := by
  refine .bind fun _ => .loop fun params => .bind fun _ => ?_
  split
  · infer_instance
  · refine .bind fun _ => .guard (.bind fun name => .bind fun _ => .guard ?_)
    exact .bind fun _ => .optional fun _ => inferInstance

/-! ### Functions -/

theorem gives_propertyName (hg : g.Sound) :
    g.propertyName.Gives c s fun names key => key.Legal (c.rights names) := by
  refine .skip fun t _ => ?_
  split
  · exact .pure fun _ => .identifier
  split
  · exact .skip fun _ _ => .pure fun _ => .string
  · refine .skip fun x _ => ?_
    cases x with
    | bigInt i => exact .pure fun _ => .string
    | number x => exact .pure fun _ => .number
  · refine .skip fun x _ => ?_
    cases x with
    | bigInt i => exact .pure fun _ => .string
    | number x => exact .pure fun _ => .number
  · refine .bind (.allowIn (hg.assignment _ _)) fun e _ => ?_
    exact .skip fun _ _ => .pure fun _ he => .computed he
  · exact .fail

/-- A directive uses nothing of what is around it. -/
theorem legal_of_isDirective {t : Stmt} {r : Rights} {x : Exits} (h : isDirective t = true) :
    t.Legal r x := by
  unfold isDirective at h
  split at h
  · exact .expression .literal
  · cases h

/-- The statements `statements` may be the body of code that is strict as told. -/
structure LegalBody (r : Rights) (x : Exits) (statements : List Stmt) (strict : Bool) : Prop where
  legal : ∀ t ∈ statements, t.Legal (r.coded strict) x
  strict : r.strict = true → strict = true

/-- What has been read of a body is legal. Only a directive among directives makes code strict, and
it does so for those before it as well. -/
structure Prologue.Legal (r : Rights) (x : Exits) (p : Prologue) : Prop extends
    LegalBody r x p.statements p.strict where
  directives : p.leading = true → ∀ t ∈ p.statements, isDirective t = true

theorem Prologue.Legal.next {r : Rights} {x : Exits} {p : Prologue} (hp : p.Legal r x) {t : Stmt}
    (ht : t.Legal (r.coded p.strict) x) (useStrict : Bool) :
    Prologue.Legal r x ⟨t :: p.statements, p.leading && isDirective t,
      p.strict || (p.leading && isDirective t && useStrict)⟩ := by
  have hdirectives : (p.leading && isDirective t) = true →
      ∀ u ∈ t :: p.statements, isDirective u = true := by
    intro hleading
    rw [Bool.and_eq_true] at hleading
    simpa [hleading.2] using hp.directives hleading.1
  refine ⟨⟨fun u hu => ?_, fun hr => by simp [hp.strict hr]⟩, hdirectives⟩
  cases hchange : p.leading && isDirective t && useStrict with
  | false =>
    rw [Bool.or_false]
    rcases List.mem_cons.mp hu with rfl | hu
    · exact ht
    · exact hp.legal u hu
  | true =>
    rw [Bool.and_eq_true] at hchange
    exact legal_of_isDirective (hdirectives hchange.1 u hu)

/-- The statements of a body are legal if each item is. -/
theorem gives_body {item : Parse Stmt}
    (hitem : ∀ c s, item.Gives c s fun names t => t.Legal (c.rights names) c.exits) :
    (g.body item).Gives c s fun names r => LegalBody (c.rights names) c.exits r.1 r.2 := by
  refine .read ((Gives.loop (fun names (q : Prologue) => q.Legal (c.rights names) c.exits)
    (fun q s => ?_) _ _ _).conseq fun names r hr => hr ⟨⟨by simp, id⟩, by simp⟩)
  refine .skip fun _ _ => .skip fun _ _ => ?_
  split
  · exact .pure fun names h => ⟨fun t ht => h.legal t (List.mem_reverse.mp ht), h.strict⟩
  · refine .skip fun useStrict _ => .bind (.withReader rfl (hitem _ _)) fun t _ => .pure ?_
    exact fun names ht h => h.next ht useStrict

theorem gives_functionParts (hg : g.Sound) (name : Option String) (kind : FunctionKind) :
    (g.functionParts name kind).Gives c s fun names r =>
      LegalBody (c.rights names) c.exits r.2.1 r.2.2 ∧
        (StatementList.mk true r.1 r.2.1).Unambiguous := by
  refine .skip fun _ _ => .skip fun _ _ => .skip fun _ _ => ?_
  refine .bind (gives_body hg.item) fun r _ => ?_
  refine .skip fun _ _ => .skip fun _ _ => .guard fun _ => ?_
  refine .bind (gives_checkDeclarations _ _ _) fun _ _ => .pure fun names hclash h => ?_
  exact ⟨h, unambiguous_of_clash? hclash (List.subset_append_left _ _)
    (List.subset_append_right _ _)⟩

/-- The body of a function has the rights that the function gets, and no exits but its own. -/
theorem gives_functionRest (hg : g.Sound) (name : Option String) (kind : FunctionKind)
    (start : Nat) (superProperty superCall : Bool) :
    (g.functionRest name kind start superProperty superCall).Gives c s fun names f =>
      f.Legal ((c.rights names).forBody superProperty superCall) := by
  refine .skip fun _ _ => .skip fun _ _ => ?_
  refine .bind (.withReader rfl (gives_functionParts hg name kind)) fun r _ => ?_
  refine .skip fun _ _ => .skip fun _ _ => .skip fun _ _ => ?_
  exact .pure fun names h => .intro h.1.strict h.1.legal h.2

theorem yields_functionRest (name : Option String) (kind : FunctionKind) (start : Nat)
    (superProperty superCall : Bool) :
    (g.functionRest name kind start superProperty superCall).Yields c s fun f _ =>
      f.name = name :=
  .after fun _ _ => .after fun _ _ => .after fun _ _ => .after fun _ _ => .after fun _ _ =>
    .after fun _ _ => .pure rfl

theorem gives_functionExpression (hg : g.Sound) :
    g.functionExpression.Gives c s fun names e => e.Legal (c.rights names) := by
  refine .skip fun _ _ => .skip fun _ _ => .skip fun _ _ => .guard fun _ => ?_
  refine .skip fun _ _ => .skipIte fun name _ => ?_
  exact .bind (gives_functionRest hg _ _ _ _ _) fun f _ => .pure fun names h => .function h

theorem gives_functionDeclaration (hg : g.Sound) :
    g.functionDeclaration.Gives c s fun names t => t.Legal (c.rights names) c.exits := by
  refine .skip fun _ _ => .skip fun _ _ => .skip fun _ _ => .guard fun _ => ?_
  refine .skip fun name _ => ?_
  refine .bind ((gives_functionRest hg _ _ _ _ _).and (yields_functionRest _ _ _ _ _)) fun f _ => ?_
  exact .pure fun names h => .function h.1 (by simp [h.2])

/-! ### Classes -/

theorem isAccessorPair_comm (k k' : MethodKind) : isAccessorPair k k' = isAccessorPair k' k := by
  cases k <;> cases k' <;> rfl

theorem PrivateDeclaration.Agrees.symm {d d' : PrivateDeclaration} (h : d.Agrees d') :
    d'.Agrees d := fun hname =>
  ⟨isAccessorPair_comm d.kind d'.kind ▸ (h hname.symm).1, (h hname.symm).2.symm⟩

/-- What may be declared agrees with everything that is. -/
theorem agrees_of_canDeclare {declared : List PrivateDeclaration} {d d' : PrivateDeclaration}
    (h : canDeclare declared d = true) (hd' : d' ∈ declared) : d.Agrees d' := by
  intro hname
  have hmem : d' ∈ declared.filter fun other => other.name == d.name :=
    List.mem_filter.mpr ⟨hd', by simp [hname]⟩
  unfold canDeclare at h
  split at h
  · next hnil =>
    rw [hnil] at hmem
    cases hmem
  · next other hother =>
    rw [hother, List.mem_singleton] at hmem
    subst hmem
    rw [Bool.and_eq_true, beq_iff_eq] at h
    exact ⟨h.1, h.2.symm⟩
  · cases h

/-- What has been read of the body of a class: every declared name is that of an element, and the
private elements agree. -/
structure ClassBody.Legal (derived : Bool) (r : Rights) (b : ClassBody) : Prop where
  code : ∀ f ∈ b.constructorDef, f.Legal (r.forBody true derived)
  elements : ∀ m ∈ b.elements, m.Legal r
  declared : ∀ d ∈ b.declared, d.name ∈ b.elements.filterMap ClassElement.privateName?
  known : ∀ d ∈ b.elements.filterMap ClassElement.declaration?, d ∈ b.declared
  privates : (b.elements.filterMap ClassElement.declaration?).Pairwise PrivateDeclaration.Agrees

theorem gives_privateElement (hg : g.Sound) (derived : Bool) (start : Nat) (isStatic : Bool)
    (kind : MethodKind) (b : ClassBody) :
    (g.privateElement start isStatic kind b).Gives c s fun names b' =>
      b.Legal derived (c.rights names) → b'.Legal derived (c.rights names) := by
  refine .skip fun t _ => .guard fun _ => .guard fun hcan => .skip fun _ _ => ?_
  refine .bind (gives_functionRest hg _ _ _ _ _) fun f _ => .skip fun _ _ => .pure ?_
  refine fun names hf hb => ⟨hb.code, ?_, ?_, ?_, ?_⟩
  · intro m hm
    rcases List.mem_cons.mp hm with rfl | hm
    · exact .privateElement hf
    · exact hb.elements m hm
  · intro d hd
    rcases List.mem_append.mp hd with hd | hd
    · exact List.mem_filterMap.mpr <| by
        obtain ⟨m, hm, hname⟩ := List.mem_filterMap.mp (hb.declared d hd)
        exact ⟨m, List.mem_cons_of_mem _ hm, hname⟩
    · rw [List.mem_singleton.mp hd]
      simp [ClassElement.privateName?]
  · intro d hd
    rcases List.mem_cons.mp hd with rfl | hd
    · exact List.mem_append_right _ (List.mem_singleton_self _)
    · exact List.mem_append_left _ (hb.known d hd)
  · refine List.pairwise_cons.mpr ⟨fun d hd => agrees_of_canDeclare ?_ (hb.known d hd), hb.privates⟩
    simpa using hcan

theorem gives_publicElement (hg : g.Sound) (derived : Bool) (start : Nat) (isStatic : Bool)
    (kind : MethodKind) (b : ClassBody) :
    (g.publicElement start isStatic kind derived b).Gives c s fun names b' =>
      b.Legal derived (c.rights names) → b'.Legal derived (c.rights names) := by
  refine .skip fun _ _ => .bind (gives_propertyName hg) fun key _ => .skip fun _ _ => ?_
  split
  · refine .guard fun _ => .guard fun _ => ?_
    refine .bind (gives_functionRest hg _ _ _ _ _) fun f _ => .pure ?_
    refine fun names hf _ hb => ⟨fun f' hf' => ?_, hb.elements, hb.declared, hb.known, hb.privates⟩
    cases hf'
    exact hf
  · refine .guard fun _ => .bind (gives_functionRest hg _ _ _ _ _) fun f _ => ?_
    refine .skip fun _ _ => .pure fun names hf hkey hb => ⟨hb.code, ?_, ?_, hb.known, hb.privates⟩
    · intro m hm
      rcases List.mem_cons.mp hm with rfl | hm
      · exact .publicElement hkey hf
      · exact hb.elements m hm
    · simpa [ClassElement.privateName?] using hb.declared

theorem gives_classElement (hg : g.Sound) (derived : Bool) (b : ClassBody) :
    (g.classElement derived b).Gives c s fun names b' =>
      b.Legal derived (c.rights names) → b'.Legal derived (c.rights names) := by
  refine .skip fun _ _ => .skip fun ⟨isStatic, kind⟩ _ => .skip fun _ _ => ?_
  split
  · exact gives_privateElement hg derived _ _ _ b
  · exact gives_publicElement hg derived _ _ _ b

theorem gives_classElements (hg : g.Sound) (derived : Bool) :
    (g.classElements derived).Gives c s fun names b => b.Legal derived (c.rights names) := by
  refine (Gives.loop (fun names (b : ClassBody) => b.Legal derived (c.rights names)) (fun b s => ?_)
    _ _ _).conseq fun names b hb => hb ⟨by simp, by simp, by simp, by simp, .nil⟩
  refine .skip fun _ _ => ?_
  split
  · refine .pure fun names hb => ⟨hb.code, ?_, ?_, ?_, ?_⟩
    · exact fun m hm => hb.elements m (List.mem_reverse.mp hm)
    · simpa using hb.declared
    · simpa using hb.known
    · rw [List.filterMap_reverse, List.pairwise_reverse]
      exact hb.privates.imp .symm
  · refine .skip fun _ _ => ?_
    split
    · exact .pure fun names hb => hb
    · exact .bind (gives_classElement hg derived b) fun b' _ => .pure fun names h hb => h hb

/-- The body of a class is legal with the private names of its elements added to those around
it. -/
theorem gives_classBody (hg : g.Sound) (derived : Bool) :
    (g.classBody derived).Gives c s fun names b =>
      b.Legal derived (c.rights (b.elements.filterMap ClassElement.privateName? ++ names)) := by
  refine Yields.bind .get fun _ _ h => ?_
  obtain ⟨rfl, rfl⟩ := h
  refine Yields.bind .modify fun _ s₁ hs₁ => ?_
  refine Yields.bind (.withReader (gives_classElements hg derived)) fun b s₂ ⟨_, hlegal⟩ => ?_
  have declared : ∀ d ∈ b.declared, d.name ∈ b.elements.filterMap ClassElement.privateName? :=
    (hlegal (s₂.references.map Prod.fst) fun r hr => List.mem_map_of_mem hr).declared
  -- A name in use is declared by this class, or it is left over for the classes around it.
  have legal {names : List String} (h : ∀ r ∈ s₂.references.filter fun r =>
      !b.declared.any fun d => d.name == r.1, r.1 ∈ names) :
      b.Legal derived (c.rights (b.elements.filterMap ClassElement.privateName? ++ names)) := by
    refine hlegal _ fun r hr => ?_
    cases hd : b.declared.any fun d => d.name == r.1 with
    | false => exact List.mem_append_right _ (h r (List.mem_filter.mpr ⟨hr, by simp [hd]⟩))
    | true =>
      obtain ⟨d, hmem, hname⟩ := List.any_eq_true.mp hd
      exact List.mem_append_left _ (beq_iff_eq.mp hname ▸ declared d hmem)
  refine Yields.bind .get fun _ _ h => ?_
  obtain ⟨rfl, rfl⟩ := h
  refine Yields.read ?_
  split
  · next hc =>
    refine Yields.bind .modify fun _ s₃ hs₃ => .pure ⟨⟨?_, by simp [hc]⟩, fun names hw => ?_⟩
    · simp [hs₃]
    · exact legal fun r hr => hw r (by simp only [hs₃]; exact List.mem_append_right _ hr)
  · next hc =>
    split
    · exact .fail
    · next hnone =>
      refine Yields.bind .modify fun _ s₃ hs₃ => .pure ⟨.of_eq (by simp [hs₃]), ?_⟩
      exact fun names _ => legal (by simp [hnone])

theorem gives_classRest (hg : g.Sound) (isDeclaration : Bool) (start : Nat) :
    (g.classRest isDeclaration start).Gives { c with strict := true } s fun names d =>
      d.Legal (c.rights names) := by
  refine .skip fun _ _ => .skip fun _ _ => .guard fun _ => .skipIte fun name _ => ?_
  refine .skip fun _ _ => .bindIte
    (P := fun names (h : Option Expr) => ∀ e ∈ h, e.Legal ((c.rights names).coded true))
    (fun _ => .map ((hg.leftHandSide _ _).conseq fun names e he e' heq => by cases heq; exact he))
    (fun _ => .pure (by simp)) fun heritage _ => ?_
  refine .skip fun _ _ => .bind (gives_classBody hg _) fun b _ => .skip fun _ _ => .pure ?_
  exact fun names hb hh => .intro hh hb.code hb.elements hb.privates

theorem yields_classRest (start : Nat) :
    (g.classRest true start).Yields c s fun d _ => d.name.isSome = true := by
  refine .after fun derived _ => .after fun braced _ => ?_
  dsimp only
  split
  · exact .fail
  · next hnameless =>
    have hnamed : (derived || braced) = false := by simpa using hnameless
    rw [hnamed]
    refine .bind (P := fun name _ => name.isSome = true) (.map fun _ _ _ => rfl) fun name _ h => ?_
    refine .after fun _ _ => ?_
    split
    · exact .after fun _ _ => .after fun _ _ => .after fun _ _ => .after fun _ _ => .pure h
    · exact .after fun _ _ => .after fun _ _ => .after fun _ _ => .after fun _ _ => .pure h

/-- A class declaration has a name. -/
theorem yields_classDefinition :
    (g.classDefinition true).Yields c s fun d _ => d.name.isSome = true :=
  .after fun _ _ => .after fun _ _ => .withReader (yields_classRest _)

theorem gives_classDefinition (hg : g.Sound) (isDeclaration : Bool) :
    (g.classDefinition isDeclaration).Gives c s fun names d => d.Legal (c.rights names) :=
  .skip fun _ _ => .skip fun _ _ => .withReader rfl (gives_classRest hg _ _)

end Grammar

end Ecma
