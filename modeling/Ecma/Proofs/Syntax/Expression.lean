import Ecma.Proofs.Syntax.Function

/-! Productions of expressions give legal trees. -/

namespace Ecma

open Parse

namespace Grammar

/-! ### Productions that only take tokens -/

instance : accessorModifier.Plain := by unfold accessorModifier; infer_instance

instance : atUpdate?.Plain := by unfold atUpdate?; infer_instance

instance (e : Expr) (l : Location) : (checkDelete e l).Plain := by
  unfold checkDelete
  split <;> infer_instance

variable {g : Grammar} {c : Surroundings} {s : ParseState}

/-! ### Property accesses and arguments -/

theorem gives_nestedExpression (hg : g.Sound) :
    g.nestedExpression.Gives c s fun names e => e.Legal (c.rights names) := by
  refine .bind (hg.assignment _ _) fun e _ => .skip fun _ _ => .guard fun _ => ?_
  exact .pure fun names he => he

theorem gives_memberKey? (hg : g.Sound) :
    g.memberKey?.Gives c s fun names key? => ∀ key ∈ key?, key.Legal (c.rights names) := by
  refine .skip fun _ _ => .guard fun _ => .skip fun _ _ => ?_
  split
  · refine .bind (.allowIn (gives_nestedExpression hg)) fun e _ => .skip fun _ _ => .pure ?_
    intro names he key hkey
    cases hkey
    exact .computed he
  refine .skip fun _ _ => ?_
  split
  · exact .pure (by simp)
  refine .skip fun t _ => ?_
  split
  · refine .pure fun names key hkey => ?_
    cases hkey
    exact .dot
  split
  · refine .bind (gives_referPrivate _ _) fun _ _ => .pure fun names hname key hkey => ?_
    cases hkey
    exact .privateName hname
  · exact .fail

theorem gives_arguments (hg : g.Sound) :
    g.arguments.Gives c s fun names args => ∀ e ∈ args, e.Legal (c.rights names) := by
  refine .skip fun _ _ => .allowIn ?_
  refine (Gives.loop (fun names args => ∀ e ∈ args, e.Legal (c.rights names)) (fun args s => ?_)
    _ _ _).conseq fun names args h => h (by simp)
  refine .skip fun _ _ => ?_
  split
  · exact .pure fun names h e he => h e (List.mem_reverse.mp he)
  refine .skip fun _ _ => .guard fun _ => .bind (hg.assignment _ _) fun e _ => ?_
  refine .skip fun _ _ => .optional fun _ _ => .pure fun names he h => ?_
  exact List.forall_mem_cons.mpr ⟨he, h⟩

/-! ### Object literals -/

theorem gives_propertyRest (hg : g.Sound) (start : Nat) (keyToken : Token) (key : PropertyName) :
    (g.propertyRest start keyToken key).Gives c s fun names p =>
      key.Legal (c.rights names) → p.Legal (c.rights names) := by
  refine .skip fun _ _ => ?_
  split
  · exact .bind (gives_functionRest hg _ _ _ _ _) fun f _ => .pure fun names hf hk => .method hk hf
  refine .skip fun _ _ => ?_
  split
  · exact .bind (hg.assignment _ _) fun e _ => .pure fun names he hk => .init hk he
  split
  · refine .skip fun _ _ => .guard fun _ => ?_
    split
    · exact .skip fun _ _ => .pure fun names hk => .init hk .identifier
    · refine .skip fun _ _ => ?_
      split
      · exact .fail
      · exact .pure fun names hk => .init hk .identifier
    · exact .fail
  · exact .fail

theorem gives_objectProperty (hg : g.Sound) :
    g.objectProperty.Gives c s fun names p => p.Legal (c.rights names) := by
  refine .skip fun _ _ => .skip fun _ _ => .guard fun _ => .skip fun _ _ => .guard fun _ => ?_
  refine .skip fun accessor _ => .skip fun keyToken _ => ?_
  refine .bind (gives_propertyName hg) fun key _ => ?_
  split
  · refine .bind (gives_functionRest hg _ _ _ _ _) fun f _ => .skip fun _ _ => ?_
    exact .pure fun names hf hk => .getter hk hf
  · refine .bind (gives_functionRest hg _ _ _ _ _) fun f _ => .skip fun _ _ => ?_
    exact .pure fun names hf hk => .setter hk hf
  · exact gives_propertyRest hg _ _ _

theorem gives_objectLiteral (hg : g.Sound) :
    g.objectLiteral.Gives c s fun names e => e.Legal (c.rights names) := by
  refine .skip fun _ _ => .allowIn ?_
  refine (Gives.loop (fun names properties => ∀ p ∈ properties, p.Legal (c.rights names))
    (fun properties s => ?_) _ _ _).conseq fun names e h => h (by simp)
  refine .skip fun _ _ => ?_
  split
  · exact .pure fun names h => .object fun p hp => h p (List.mem_reverse.mp hp)
  refine .bind (gives_objectProperty hg) fun p _ => .skip fun _ _ => .optional fun _ _ => ?_
  exact .pure fun names hp h => List.forall_mem_cons.mpr ⟨hp, h⟩

/-! ### Primary and member expressions -/

theorem gives_parenthesized (hg : g.Sound) :
    g.parenthesized.Gives c s fun names e => e.Legal (c.rights names) := by
  refine .skip fun _ _ => .skip fun _ _ => .guard fun _ => ?_
  refine .bind (.allowIn (gives_nestedExpression hg)) fun e _ => .skip fun _ _ => ?_
  exact .pure fun names he => he

theorem gives_numericLiteral (t : Token) :
    Gives (numericValue t >>= fun
      | .number x => pure (.literal (.number x))
      | .bigInt i => pure (.literal (.bigInt i)) : Parse Expr) c s
      fun names e => e.Legal (c.rights names) := by
  refine .skip fun x _ => ?_
  cases x <;> exact .pure fun _ => .literal

theorem gives_primary (hg : g.Sound) :
    g.primary.Gives c s fun names e => e.Legal (c.rights names) := by
  refine .skip fun t _ => ?_
  split
  · exact .skip fun _ _ => .pure fun _ => .thisValue
  · exact .skip fun _ _ => .skip fun _ _ => .pure fun _ => .identifier
  · exact .skip fun _ _ => .guard fun _ => .skip fun _ _ => .pure fun _ => .identifier
  · exact .skip fun _ _ => .pure fun _ => .literal
  · exact .skip fun _ _ => .pure fun _ => .literal
  · exact .skip fun _ _ => gives_numericLiteral t
  · exact .skip fun _ _ => gives_numericLiteral t
  · exact .skip fun _ _ => .skip fun _ _ => .pure fun _ => .literal
  · exact .skip fun _ _ => gives_parenthesized hg
  · exact gives_objectLiteral hg
  · exact .fail
  · exact .fail
  · exact .fail
  · exact gives_functionExpression hg
  · exact .bind (gives_classDefinition hg _) fun d _ => .pure fun names hd => .classExpr hd
  · exact .fail

theorem gives_superProperty (hg : g.Sound) :
    g.superProperty.Gives c s fun names e => e.Legal (c.rights names) := by
  refine .skip fun _ _ => .skip fun _ _ => .read (.guard fun hc => ?_)
  refine .bind (gives_memberKey? hg) fun key? _ => ?_
  split
  · exact .fail
  · exact .fail
  · next key hp =>
    have hright : c.superProperty = true := by simpa using hc
    refine .pure fun names hkey => .superMember hright (hkey key rfl) ?_
    cases key <;> simp_all [MemberKey.isPrivate]

theorem gives_memberChain (hg : g.Sound) (e : Expr) :
    (g.memberChain e).Gives c s fun names e' =>
      e.Legal (c.rights names) → e'.Legal (c.rights names) := by
  refine Gives.loop (fun names (e : Expr) => e.Legal (c.rights names)) (fun e s => ?_) _ _ _
  refine .bind (gives_memberKey? hg) fun key? _ => ?_
  cases key? with
  | some key => exact .pure fun names hkey he => .member he (hkey key rfl)
  | none => exact .pure fun names _ he => he

theorem gives_newExpression (hg : g.Sound) :
    g.newExpression.Gives c s fun names e => e.Legal (c.rights names) := by
  refine .skip fun _ _ => .guard fun _ => .bind (hg.member _ _) fun callee _ => .skip fun _ _ => ?_
  refine .bindIte (P := fun names args => ∀ e ∈ args, e.Legal (c.rights names))
    (fun _ => gives_arguments hg) (fun _ => .pure (by simp)) fun args _ => ?_
  exact .pure fun names hargs hcallee => .construct hcallee hargs

theorem gives_memberExpression (hg : g.Sound) :
    g.memberExpression.Gives c s fun names e => e.Legal (c.rights names) := by
  have chain (e : Expr) (s : ParseState) := gives_memberChain (c := c) (s := s) hg e
  refine .skip fun _ _ => .skip fun _ _ => ?_
  split
  · exact .bind (gives_newExpression hg) chain
  exact .bindIte (fun _ => gives_superProperty hg) (fun _ => gives_primary hg) chain

/-! ### Calls -/

theorem gives_superCallExpression (hg : g.Sound) :
    g.superCallExpression.Gives c s fun names e => e.Legal (c.rights names) := by
  refine .skip fun _ _ => .skip fun _ _ => .read (.guard fun hc => ?_)
  have hright : c.superCall = true := by simpa using hc
  exact .bind (gives_arguments hg) fun args _ => .pure fun names h => .superCall hright h

theorem gives_callChain (hg : g.Sound) (e : Expr) :
    (g.callChain e).Gives c s fun names e' =>
      e.Legal (c.rights names) → e'.Legal (c.rights names) := by
  refine Gives.loop (fun names (e : Expr) => e.Legal (c.rights names)) (fun e s => ?_) _ _ _
  refine .skip fun _ _ => ?_
  split
  · exact .bind (gives_arguments hg) fun args _ => .pure fun names ha he => .call he ha
  refine .bind (gives_memberKey? hg) fun key? _ => ?_
  cases key? with
  | some key => exact .pure fun names hkey he => .member he (hkey key rfl)
  | none => exact .pure fun names _ he => he

theorem gives_leftHandSideExpression (hg : g.Sound) :
    g.leftHandSideExpression.Gives c s fun names e => e.Legal (c.rights names) := by
  refine .skip fun _ _ => .skip fun _ _ => ?_
  exact .bindIte (fun _ => gives_superCallExpression hg) (fun _ => gives_memberExpression hg)
    fun e _ => gives_callChain hg e

/-! ### Operators -/

theorem gives_updateExpression (hg : g.Sound) :
    g.updateExpression.Gives c s fun names e => e.Legal (c.rights names) := by
  refine .skip fun _ _ => .skip fun op? _ => ?_
  cases op? with
  | some op =>
    refine .skip fun _ _ => .bind (hg.unary _ _) fun e _ => ?_
    refine .bind (gives_checkUpdateTarget true e _) fun _ _ => ?_
    exact .pure fun names href he => .update he href
  | none =>
    refine .bind (gives_leftHandSideExpression hg) fun e _ => .skip fun _ _ => ?_
    split
    · exact .pure fun names he => he
    refine .skip fun op? _ => ?_
    cases op? with
    | some op =>
      refine .bind (gives_checkUpdateTarget false e _) fun _ _ => .skip fun _ _ => ?_
      exact .pure fun names href he => .update he href
    | none => exact .pure fun names he => he

theorem gives_checkDelete (e : Expr) (l : Location) :
    (checkDelete e l).Gives c s fun _ _ => e.isPrivateMember = false := by
  unfold checkDelete
  split
  · refine .skip fun _ _ => ?_
    split
    · exact .fail
    · exact .pure fun _ => rfl
  · exact .fail
  · next hne =>
    refine .pure fun _ => ?_
    cases e with
    | member object key => cases key <;> simp_all [Expr.isPrivateMember, MemberKey.isPrivate]
    | _ => rfl

/-- An operator with one operand builds a legal tree, where `delete` takes no private member. -/
theorem legal_of_unaryOperator? {k : TokenKind} {build : Expr → Expr} {e : Expr} {r : Rights}
    (h : unaryOperator? k = some build) (he : e.Legal r)
    (hdelete : k = .keyword .deleteKw → e.isPrivateMember = false) : (build e).Legal r := by
  unfold unaryOperator? at h
  split at h <;> cases h
  · exact .delete he (hdelete rfl)
  · exact .voidOf he
  · exact .typeOf he
  all_goals exact .unary he

theorem gives_unaryExpression (hg : g.Sound) :
    g.unaryExpression.Gives c s fun names e => e.Legal (c.rights names) := by
  refine .skip fun t _ => ?_
  split
  · next build hbuild =>
    refine .skip fun _ _ => .bind (hg.unary _ _) fun e _ => ?_
    split
    · refine .bind (gives_checkDelete e _) fun _ _ => .pure fun names hp he => ?_
      exact legal_of_unaryOperator? hbuild he fun _ => hp
    · next hkind =>
      refine .pure fun names he => legal_of_unaryOperator? hbuild he fun h => ?_
      simp [h] at hkind
  · exact gives_updateExpression hg

theorem gives_exponentiationExpression (hg : g.Sound) :
    g.exponentiationExpression.Gives c s fun names e => e.Legal (c.rights names) := by
  refine .skip fun _ _ => ?_
  split
  · refine .bind (gives_unaryExpression hg) fun e _ => .skip fun _ _ => .guard fun _ => ?_
    exact .pure fun names he => he
  refine .bind (gives_updateExpression hg) fun base _ => .skip fun _ _ => ?_
  split
  · exact .bind (hg.exponentiation _ _) fun e _ => .pure fun names he hb => .binary hb he
  · exact .pure fun names hb => hb

/-- By induction on the levels: the operands of a level are those of the tighter ones. -/
theorem gives_binaryExpression (hg : g.Sound) (levels : List BinaryLevel) (c : Surroundings)
    (s : ParseState) :
    (g.binaryExpression levels).Gives c s fun names e => e.Legal (c.rights names) := by
  induction levels generalizing s with
  | nil => exact gives_exponentiationExpression hg
  | cons level tighter ih =>
    refine .bind (ih s) fun first s' => ?_
    refine Gives.loop (fun names (left : Expr) => left.Legal (c.rights names))
      (fun left s => ?_) _ _ _
    refine .skip fun _ _ => ?_
    split
    · refine .skip fun _ _ => .bind (ih _) fun right _ => ?_
      exact .pure fun names hr hl => .binary hl hr
    · exact .pure fun names hl => hl

theorem gives_logicalAnd (hg : g.Sound) :
    g.logicalAnd.Gives c s fun names e => e.Legal (c.rights names) := by
  refine .read (.bind (gives_binaryExpression hg _ _ _) fun first _ => ?_)
  refine Gives.loop (fun names (left : Expr) => left.Legal (c.rights names))
    (fun left s => ?_) _ _ _
  refine .skip fun _ _ => ?_
  split
  · refine .bind (gives_binaryExpression hg _ _ _) fun right _ => ?_
    exact .pure fun names hr hl => .logical hl hr
  · exact .pure fun names hl => hl

theorem gives_logicalOr (hg : g.Sound) :
    g.logicalOr.Gives c s fun names e => e.Legal (c.rights names) := by
  refine .bind (gives_logicalAnd hg) fun first _ => ?_
  refine .bind (Gives.loop (fun names (left : Expr) => left.Legal (c.rights names))
    (Q := fun names e => e.Legal (c.rights names)) (fun left s => ?_) _ _ _) fun e _ => ?_
  · refine .skip fun _ _ => ?_
    split
    · refine .bind (gives_logicalAnd hg) fun right _ => ?_
      exact .pure fun names hr hl => .logical hl hr
    · exact .pure fun names hl => hl
  · exact .skip fun _ _ => .guard fun _ => .pure fun names h hfirst => h hfirst

theorem gives_conditionalExpression (hg : g.Sound) :
    g.conditionalExpression.Gives c s fun names e => e.Legal (c.rights names) := by
  refine .bind (gives_logicalOr hg) fun test _ => .skip fun _ _ => ?_
  split
  · exact .pure fun names ht => ht
  refine .bind (.allowIn (hg.assignment _ _)) fun yes _ => .skip fun _ _ => ?_
  refine .bind (hg.assignment _ _) fun no _ => ?_
  exact .pure fun names hn hy ht => .conditional ht hy hn

theorem gives_assignmentExpression (hg : g.Sound) :
    g.assignmentExpression.Gives c s fun names e => e.Legal (c.rights names) := by
  refine .skip fun _ _ => .bind (gives_conditionalExpression hg) fun left _ => ?_
  refine .skip fun _ _ => .guard fun _ => .skip fun _ _ => .guard fun _ => .skip fun _ _ => ?_
  split
  · exact .pure fun names hl => hl
  refine .bind (gives_checkTarget left _) fun _ _ => .skip fun _ _ => ?_
  refine .bind (hg.assignment _ _) fun value _ => ?_
  exact .pure fun names hv href hl => .assign hl href hv

theorem gives_expression (hg : g.Sound) :
    g.expression.Gives c s fun names e => e.Legal (c.rights names) := by
  refine .bind (gives_assignmentExpression hg) fun e _ => .skip fun _ _ => .guard fun _ => ?_
  exact .pure fun names he => he

end Grammar

end Ecma
