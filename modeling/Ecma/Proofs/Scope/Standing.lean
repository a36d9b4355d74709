import Ecma.Proofs.Run.Request
import Ecma.Proofs.Scope.Retain

/-! Code and the scopes that it is run in: where a part of code stands in it, what stands in between
and the names that are bound there, and what is known of a state while that part is run. It lasts
through every evaluation that retains the scopes that are there. -/

namespace Ecma

/-! ### Names in between -/

/-- The names that the head of a loop binds in a scope of its own. -/
def ForInit.scopedNames : ForInit → List String
  | .variables kind declarators => if kind = .var then [] else Stmt.declaratorNames declarators
  | .absent | .expression _ => []

/-- The names that are bound in the scope that is made for what stands around code, unless it is a
function. -/
def Around.names : Around → List String
  | .function .. => []
  | .heritage c | .classBody c => c.name.toList
  | .block body => Stmt.blockNames body
  | .handler param => param.toList
  | .clauses cases => cases.flatMap fun k => Stmt.blockNames k.body
  | .loop init => init.scopedNames

/-- What stands around the first part of the head of a loop. -/
def ForInit.around (init : ForInit) : List Around :=
  match init with
  | .variables kind _ => if kind = .var then [] else [.loop init]
  | .absent | .expression _ => []

/-- The parts that are run with a statement, each with what stands around it there. -/
@[simp] def Stmt.inner : Stmt → List (List Around × Part)
  | .block body => body.map fun t => ([.block body], .statement t)
  | .forLoop init test update body =>
    (init.around, .forInit init) ::
      (Part.statement body :: (test.toList ++ update.toList).map .expr).map ([.loop init], ·)
  | .tryCatch body param handler =>
    [([], .statement (.block body)), ([.handler param], .statement (.block handler))]
  | .tryFinally body finalizer =>
    [([], .statement (.block body)), ([], .statement (.block finalizer))]
  | .tryCatchFinally body param handler finalizer =>
    [([], .statement (.block body)), ([.handler param], .statement (.block handler)),
      ([], .statement (.block finalizer))]
  | .switch subject cases =>
    ([], .expr subject) :: cases.map fun k => ([.clauses cases], .clause k)
  | t => t.parts.map ([], ·)

/-- The parts that are run with a part, outside the functions in it, each with what stands around it
there. -/
@[simp] def Part.inner : Part → List (List Around × Part)
  | .statement t => t.inner
  | .classDef c =>
    c.heritage.toList.map (fun e => ([.heritage c], .expr e)) ++
      c.elements.map fun m => ([.classBody c], .element m)
  | part => part.parts.map ([], ·)

/-- A part is run with another one, outside functions, and something stands around it there. -/
inductive Part.Encloses (whole : Part) : List Around → Part → Prop
  | self : Encloses whole [] whole
  | inner {arounds added : List Around} {part part' : Part} (h : Encloses whole arounds part)
    (hpart : (added, part') ∈ part.inner) : Encloses whole (added ++ arounds) part'

/-! ### Standing -/

/-- What is known of a state while code is run, and lasts. -/
structure Standing (depth : Nat) where
  Holds : State → Prop
  deep : ∀ {s}, Holds s → depth ≤ s.callDepth
  lasts : ∀ {s s'}, Holds s → s.Retains s' → Holds s'

/-- A run of code at a site, in a scope that binds some names, when so many calls are open. -/
structure Outset where
  code : Part
  scope : ScopeRef
  names : List String
  frames : List Frame
  depth : Nat

namespace Outset

/-- What is run now is a part of the code: the frames are those between the two, and through their
scopes the scope of the part leads to that of the code. -/
structure Reaches (a : Outset) (frames : List Frame) (part : Part) (q : ScopeRef) (s : State) :
    Prop where
  site : s.site.frames = frames ++ a.frames
  encloses : a.code.Encloses (frames.map Frame.around) part
  leads : s.scopes.Leads a.scope a.names (frames.flatMap (·.around.names)) q

variable {a : Outset} {own : Bool} {p q : ScopeRef} {around : Around} {part part' : Part}
  {frames : List Frame} {s s' : State}

theorem Reaches.lasts (h : a.Reaches frames part q s) (hs : s.Retains s') :
    a.Reaches frames part q s' :=
  ⟨hs.site ▸ h.site, h.encloses, h.leads.kept hs.scopes⟩

theorem Reaches.inner (h : a.Reaches frames part q s) (hpart : ([], part') ∈ part.inner) :
    a.Reaches frames part' q s :=
  ⟨h.site, .inner h.encloses hpart, h.leads⟩

variable (a)

/-- Unless a call has been entered, the part is run with the code. -/
def standsAt (q : ScopeRef) (part : Part) : Standing a.depth where
  Holds s := a.depth ≤ s.callDepth ∧ (s.callDepth = a.depth → ∃ frames, a.Reaches frames part q s)
  deep h := h.1
  lasts h hs := ⟨hs.callDepth ▸ h.1, fun hdepth =>
    let ⟨frames, hq⟩ := h.2 (hs.callDepth ▸ hdepth)
    ⟨frames, hq.lasts hs⟩⟩

/-- Unless a call has been entered, the part is run with the code, and has given a scope to its
parts around which some names are bound. If there are none, it may be that of the part, unless it
needs its own. -/
def opens (own : Bool) (p q : ScopeRef) (names : List String) (part : Part) :
    Standing a.depth where
  Holds s := a.depth ≤ s.callDepth ∧ (s.callDepth = a.depth → ∃ frames, a.Reaches frames part p s ∧
    (s.scopes.Nests p names q ∨ (own = false ∧ q = p ∧ names = [])))
  deep h := h.1
  lasts h hs := ⟨hs.callDepth ▸ h.1, fun hdepth =>
    let ⟨frames, hp, hq⟩ := h.2 (hs.callDepth ▸ hdepth)
    ⟨frames, hp.lasts hs, hq.imp (·.keep hs.scopes fun _ => Set.notMem_empty _) id⟩⟩

/-- Unless a call has been entered, something is run in what stands around the parts of a part. -/
def standsIn (q : ScopeRef) (around : Around) (part : Part) : Standing a.depth where
  Holds s := a.depth ≤ s.callDepth ∧ (s.callDepth = a.depth → ∃ frames,
    s.site.frames = ⟨around, q⟩ :: frames ++ a.frames ∧
      a.code.Encloses (frames.map Frame.around) part ∧
        s.scopes.Leads a.scope a.names (around.names ++ frames.flatMap (·.around.names)) q)
  deep h := h.1
  lasts h hs := ⟨hs.callDepth ▸ h.1, fun hdepth =>
    let ⟨frames, hsite, hpart, hq⟩ := h.2 (hs.callDepth ▸ hdepth)
    ⟨frames, hs.site ▸ hsite, hpart, hq.kept hs.scopes⟩⟩

/-- A call has been entered. -/
def below : Standing a.depth where
  Holds s := a.depth < s.callDepth
  deep := Nat.le_of_lt
  lasts h hs := hs.callDepth ▸ h

variable {a}

theorem standsAt_of_below (h : a.below.Holds s) (q : ScopeRef) (part : Part) :
    (a.standsAt q part).Holds s :=
  ⟨Nat.le_of_lt h, fun heq => absurd heq (Nat.ne_of_gt h)⟩

theorem standsAt_of_standsIn (hpart : ([around], part') ∈ part.inner)
    (h : (a.standsIn q around part).Holds s) : (a.standsAt q part').Holds s :=
  ⟨h.1, fun hdepth =>
    let ⟨frames, hsite, hencloses, hq⟩ := h.2 hdepth
    ⟨⟨around, q⟩ :: frames, hsite, .inner hencloses hpart, hq⟩⟩

theorem opens_of_standsAt (h : (a.standsAt q part).Holds s) :
    (a.opens false q q [] part).Holds s :=
  ⟨h.1, fun hdepth =>
    let ⟨frames, hq⟩ := h.2 hdepth
    ⟨frames, hq, .inr ⟨rfl, rfl, rfl⟩⟩⟩

/-- What has been opened is entered. -/
theorem standsIn_of_opens (h : (a.opens own p q around.names part).Holds s) :
    (a.standsIn q around part).Holds { s with site := s.site.enter around q } := by
  refine ⟨h.1, fun hdepth => ?_⟩
  obtain ⟨frames, hp, hq | ⟨-, rfl, hnone⟩⟩ := h.2 hdepth
  · exact ⟨frames, congrArg _ hp.site, hp.encloses, .nested hp.leads hq⟩
  · refine ⟨frames, congrArg _ hp.site, hp.encloses, ?_⟩
    rw [hnone]
    exact hp.leads

theorem standsAt_inner (hpart : ([], part') ∈ part.inner) (h : (a.standsAt q part).Holds s) :
    (a.standsAt q part').Holds s :=
  ⟨h.1, fun hdepth =>
    let ⟨frames, hq⟩ := h.2 hdepth
    ⟨frames, hq.inner hpart⟩⟩

end Outset

/-! ### Evaluations while something is known -/

namespace Eval

variable {α β : Type} {depth : Nat} {I J : Standing depth} {x : Eval α} {R : α → State → Prop}

/-- While something is known, the evaluation retains what is there; a value and the state that it
comes with have a property. -/
def Leaves (I : Standing depth) (x : Eval α) (R : α → State → Prop) : Prop :=
  ∀ s, I.Holds s → Outcome ∅ s R (x s)

/-- While something is known, the evaluation retains what is there. -/
class Rests (I : Standing depth) (x : Eval α) : Prop where
  leaves : Leaves I x fun _ _ => True

/-- What a value and its state have is known of the state then. -/
theorem Leaves.bindWhere {f : α → Eval β} {Q : β → State → Prop} (hx : Leaves I x R)
    (hf : ∀ a s, R a s → Outcome ∅ s Q (f a s)) : Leaves I (x >>= f) Q :=
  fun s hs => (hx s hs).bind fun a s' _ ha => hf a s' ha

theorem Leaves.bind {f : α → Eval β} {Q : β → State → Prop} {J : α → Standing depth}
    (hx : Leaves I x fun a s => (J a).Holds s) (hf : ∀ a, Leaves (J a) (f a) Q) :
    Leaves I (x >>= f) Q :=
  .bindWhere hx hf

theorem Leaves.mono (h : Leaves J x R) (hIJ : ∀ s, I.Holds s → J.Holds s) : Leaves I x R :=
  fun s hs => h s (hIJ s hs)

theorem Leaves.conseq {Q : α → State → Prop} (h : Leaves I x R) (hRQ : ∀ a s, R a s → Q a s) :
    Leaves I x Q :=
  fun s hs => (h s hs).imp (fun _ h => h) fun a s' _ => hRQ a s'

theorem Rests.mono (h : Rests J x) (hIJ : ∀ s, I.Holds s → J.Holds s) : Rests I x :=
  ⟨h.leaves.mono hIJ⟩

/-- What is known is so still afterwards. -/
theorem Rests.keeps (h : Rests I x) : Leaves I x fun _ s => I.Holds s :=
  fun s hs => (h.leaves s hs).imp (fun _ h => h) fun _ _ hs' _ => I.lasts hs hs'

/-- What is retained whatever the code is retained here. -/
instance (priority := low) [h : x.Obeys (.retaining depth)] : Rests I x :=
  ⟨fun s hs => h.holds ∅ s (I.deep hs)⟩

/-- What is retained in every state at a depth is so whatever names may be changed. -/
theorem obeys_of_retains (h : Retains depth ∅ x fun _ => True) : x.Obeys (.retaining depth) :=
  ⟨fun _ s hs => (h s hs).forget fun p hp => absurd hp (Set.notMem_empty p)⟩

/-! ### Putting evaluations together -/

theorem Rests.bind {f : α → Eval β} [hx : Rests I x] (hf : ∀ a, Rests I (f a)) :
    Rests I (x >>= f) :=
  ⟨.bind hx.keeps fun a => (hf a).leaves⟩

instance {f : α → Eval β} [Rests I x] [hf : ∀ a, Rests I (f a)] : Rests I (x >>= f) :=
  .bind hf

instance {f : α → β} [Rests I x] : Rests I (f <$> x) := by
  rw [map_eq_pure_bind]
  infer_instance

instance [Rests I x] : Rests I (discard x : Eval PUnit) :=
  inferInstanceAs (Rests I (Function.const α PUnit.unit <$> x))

instance {b : Prop} [Decidable b] {y : Eval α} [Rests I x] [Rests I y] :
    Rests I (if b then x else y) := by
  split <;> infer_instance

instance {handler : Value → Eval α} [hx : Rests I x] [hh : ∀ v, Rests I (handler v)] :
    Rests I (catching x handler) :=
  ⟨fun s hs => (hx.leaves s hs).catching fun v s' hs' => (hh v).leaves s' (I.lasts hs hs')⟩

instance {handler : Completion → Eval α} [hx : Rests I x] [hh : ∀ c, Rests I (handler c)] :
    Rests I (onEscape x handler) :=
  ⟨fun s hs => (hx.leaves s hs).onEscape fun c s' hs' => (hh c).leaves s' (I.lasts hs hs')⟩

instance [Rests I x] : Rests I (attempt x) := by unfold attempt; infer_instance

/-- In what stands around the parts of a part, once their scope has been made. -/
theorem Rests.within {a : Outset} {own : Bool} {p q : ScopeRef} (around : Around) {whole : Part}
    (h : Rests (a.standsIn q around whole) x) :
    Rests (a.opens own p q around.names whole) (within around q x) :=
  ⟨fun _ hs => .atSite (h.leaves _ (Outset.standsIn_of_opens hs)) fun _ _ _ _ => trivial⟩

theorem Rests.forM {xs : List α} {f : α → Eval PUnit} (h : ∀ a ∈ xs, Rests I (f a)) :
    Rests I (xs.forM f) := by
  induction xs with
  | nil => exact inferInstanceAs (Rests I (pure PUnit.unit))
  | cons a rest ih =>
    have ha : Rests I (f a) := h a (by simp)
    exact Rests.bind fun _ => ih fun b hb => h b (by simp [hb])

theorem Rests.mapM {xs : List α} {f : α → Eval β} (h : ∀ a ∈ xs, Rests I (f a)) :
    Rests I (xs.mapM f) := by
  induction xs with
  | nil => exact inferInstanceAs (Rests I (pure []))
  | cons a rest ih =>
    have ha : Rests I (f a) := h a (by simp)
    have hrest : Rests I (rest.mapM f) := ih fun b hb => h b (by simp [hb])
    rw [List.mapM_cons]
    infer_instance

theorem Rests.foldlM {xs : List α} {f : β → α → Eval β} (h : ∀ a ∈ xs, ∀ b, Rests I (f b a))
    (b : β) : Rests I (xs.foldlM f b) := by
  induction xs generalizing b with
  | nil => exact inferInstanceAs (Rests I (pure b))
  | cons a rest ih =>
    have ha : Rests I (f b a) := h a (by simp) b
    rw [List.foldlM_cons]
    exact Rests.bind fun b' => ih (fun c hc => h c (by simp [hc])) b'

theorem Rests.loop {turn : α → Eval (Turn α β)} (h : ∀ a, Rests I (turn a)) (fuel : Nat) (a : α) :
    Rests I (loop turn fuel a) := by
  induction fuel generalizing a with
  | zero => exact inferInstanceAs (Rests I (throw Abrupt.exhausted))
  | succ fuel ih =>
    have ha := h a
    refine Rests.bind fun t => ?_
    cases t with
    | again a' => exact ih a'
    | done b => infer_instance

end Eval

end Ecma
