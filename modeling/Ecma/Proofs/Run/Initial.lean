import Ecma.Proofs.Run.Store
import Ecma.Realm

/-! The store before the first script is sound: the built-in objects are well-formed, and none of
them has script code or private elements. -/

namespace Ecma

namespace Heap

/-- A heap of well-formed objects without script code and private elements. -/
structure Plain (h : Heap) : Prop where
  objects : ∀ o, (h.get o).WellFormed
  functions : ∀ o f, (h.get o).kind ≠ .function f
  privates : ∀ o, (h.get o).privateElements = []

variable {h h' : Heap}

theorem plain_empty : empty.Plain :=
  ⟨fun _ => .of_empty rfl, fun _ _ hkind => (nomatch hkind), fun _ => rfl⟩

theorem Plain.push (hh : h.Plain) {data : ObjectData} (hempty : data.properties = [])
    (hkind : ∀ f, data.kind ≠ .function f) (hprivates : data.privateElements = []) :
    (h.push data).Plain := by
  refine ⟨fun o => ?_, fun o => ?_, fun o => ?_⟩ <;>
    obtain heq | ⟨-, heq⟩ := h.get_push_cases data o <;> rw [heq]
  · exact hh.objects o
  · exact .of_empty hempty
  · exact hh.functions o
  · exact hkind
  · exact hh.privates o
  · exact hprivates

theorem Plain.modify (hh : h.Plain) {o : ObjectRef} {f : ObjectData → ObjectData}
    (hf : (h.get o).Stays (f (h.get o))) : (h.modify o f).Plain := by
  refine ⟨fun p => ?_, fun p g => ?_, fun p => ?_⟩ <;>
    obtain heq | ⟨rfl, heq⟩ := h.get_modify_cases o f p <;> rw [heq]
  · exact hh.objects p
  · exact hf.wellFormed (hh.objects p)
  · exact hh.functions p g
  · obtain hkind | ⟨g', _, hkind, _⟩ := hf.kind
    · exact hkind ▸ hh.functions p g
    · exact absurd hkind (hh.functions p g')
  · exact hh.privates p
  · rw [hf.privates.own, hh.privates p]

/-- A plain heap uses no private names. -/
theorem Plain.names (hh : h.Plain) (o : ObjectRef) :
    (h.get o).privateNames = [] ∧ (h.get o).instanceNames = [] :=
  ⟨by rw [ObjectData.privateNames, hh.privates o, List.map_nil],
    ObjectData.instanceNames_eq_nil fun f hf => absurd hf (hh.functions o f)⟩

theorem Plain.whole (hh : h.Plain) : h.Whole :=
  ⟨fun o => by simp [hh.names o], fun c => by simp [hh.names c], fun c => by simp [hh.names c],
    fun c => by simp [hh.names c]⟩

theorem Plain.not_uses (hh : h.Plain) (n : PrivateName) : ¬h.Uses n := by
  simp [Uses, hh.names]

theorem Plain.define (hh : h.Plain) {o : ObjectRef} {key : PropertyKey} {d : Descriptor}
    (hdefine : h.define o key d = some h') : h'.Plain := by
  obtain ⟨data, hdata, rfl⟩ := Option.map_eq_some_iff.mp hdefine
  exact hh.modify (ObjectData.stays_define hdata)

end Heap

namespace Realm

/-- A step that leaves a plain heap plain. -/
class Setup.Keeps {α : Type} (x : Setup α) : Prop where
  plain : ∀ {h : Heap}, h.Plain → (x.run h).2.Plain

namespace Setup

variable {α β : Type} {x : Setup α}

instance (a : α) : (pure a : Setup α).Keeps := ⟨id⟩

theorem Keeps.bind {f : α → Setup β} [hx : x.Keeps] (hf : ∀ a, (f a).Keeps) : (x >>= f).Keeps :=
  ⟨fun hh => (hf _).plain (hx.plain hh)⟩

instance {f : α → Setup β} [x.Keeps] [hf : ∀ a, (f a).Keeps] : (x >>= f).Keeps :=
  .bind hf

instance [hx : x.Keeps] : (discard x : Setup PUnit).Keeps := ⟨hx.plain⟩

instance {b : Prop} [Decidable b] {y : Setup α} [x.Keeps] [y.Keeps] :
    (if b then x else y).Keeps := by
  split <;> infer_instance

instance {xs : List α} {f : α → Setup PUnit} [h : ∀ a, (f a).Keeps] : (xs.forM f).Keeps := by
  induction xs with
  | nil => exact inferInstanceAs (pure PUnit.unit : Setup PUnit).Keeps
  | cons a rest ih => exact inferInstanceAs (f a >>= fun _ => rest.forM f).Keeps

instance (o : ObjectRef) (key : PropertyKey) (d : Descriptor) : (define o key d).Keeps := by
  refine ⟨fun {h} hh => ?_⟩
  change ((h.define o key d).getD h).Plain
  cases heq : h.define o key d with
  | none => exact hh
  | some h' => exact hh.define heq

instance (b : Builtin) : (function b).Keeps := by
  have (prototype : Option ObjectRef) : (add { prototype, kind := .builtin b }).Keeps :=
    ⟨fun hh => hh.push rfl (fun _ hkind => by cases hkind) rfl⟩
  unfold function
  infer_instance

instance (o : ObjectRef) (b : Builtin) : (method o b).Keeps := by unfold method; infer_instance

instance (name : String) (value : Value) : (global name value).Keeps := by
  unfold global; infer_instance

instance (b : Builtin) (prototype : ObjectRef) : (constructor b prototype).Keeps := by
  unfold constructor; infer_instance

instance (o : ObjectRef) (key : PropertyKey) (value : Value) : (constant o key value).Keeps := by
  unfold constant; infer_instance

instance (o : ObjectRef) (key : PropertyKey) (value : Value) : (fixed o key value).Keeps := by
  unfold fixed; infer_instance

end Setup

/-! ### All parts -/

instance : setUpThrower.Keeps := by
  have : (modify (·.modify Intrinsic.throwTypeError fun data =>
      { data with extensible := false }) : Setup PUnit).Keeps :=
    ⟨fun hh => hh.modify (.of_eq rfl rfl rfl)⟩
  unfold setUpThrower
  infer_instance

instance (parent : Option ObjectRef) (kind : ErrorKind) : (setUpErrorKind parent kind).Keeps := by
  have (o : ObjectRef) : (modify (·.modify o fun data =>
      { data with prototype := parent }) : Setup PUnit).Keeps :=
    ⟨fun hh => hh.modify (.of_eq rfl rfl rfl)⟩
  unfold setUpErrorKind
  infer_instance

instance : setUpConsole.Keeps := by
  have (prototype : Option ObjectRef) : (Setup.add { prototype }).Keeps :=
    ⟨fun hh => hh.push rfl (fun _ hkind => by cases hkind) rfl⟩
  unfold setUpConsole
  infer_instance

instance : setUpGlobalValues.Keeps := by unfold setUpGlobalValues; infer_instance

instance : setUpObject.Keeps := by unfold setUpObject; infer_instance

instance : setUpFunction.Keeps := by unfold setUpFunction; infer_instance

instance : setUpBoolean.Keeps := by unfold setUpBoolean; infer_instance

instance : setUpErrors.Keeps := by unfold setUpErrors; infer_instance

instance : setUpNumber.Keeps := by unfold setUpNumber; infer_instance

instance : setUpBigInt.Keeps := by unfold setUpBigInt; infer_instance

instance : setUpString.Keeps := by unfold setUpString; infer_instance

instance : setUpSymbol.Keeps := by
  refine .bind fun o => .bind fun _ => .bind fun _ => .bind fun _ => .bind fun _ => ?_
  infer_instance

instance : setUp.Keeps := by
  refine .bind fun _ => .bind fun _ => .bind fun _ => .bind fun _ => .bind fun _ => ?_
  infer_instance

theorem plain_intrinsics : (intrinsics.foldl Heap.push Heap.empty).Plain := by
  have hall : ∀ data ∈ intrinsics, data.properties = [] ∧ (∀ f, data.kind ≠ .function f) ∧
      data.privateElements = [] := by simp [intrinsics]
  suffices ∀ (all : List ObjectData) (h : Heap), h.Plain → (∀ data ∈ all, data.properties = [] ∧
      (∀ f, data.kind ≠ .function f) ∧ data.privateElements = []) → (all.foldl Heap.push h).Plain
    from this intrinsics _ Heap.plain_empty hall
  intro all
  induction all with
  | nil => exact fun h hh _ => hh
  | cons data rest ih =>
    intro h hh hall
    obtain ⟨hempty, hkind, hprivates⟩ := hall data (by simp)
    exact ih _ (hh.push hempty hkind hprivates) fun other hother => hall other (by simp [hother])

theorem plain_heap : heap.Plain := by
  unfold heap
  exact Setup.Keeps.plain plain_intrinsics

end Realm

theorem State.sound_initial : State.initial.toStore.Sound := by
  have hheap : State.initial.heap = Realm.heap := by simp only [initial]
  have hnames (q : ScopeRef) : (State.initial.scopes.get q).privateNames = [] := by
    simp only [initial]
    obtain heq | ⟨-, -, heq⟩ := Scopes.get_push_cases .empty {} q
    · rw [heq, Scopes.get_of_not_lt (Nat.not_lt_zero _)]
    · rw [heq]
  refine ⟨by simp [initial, Scopes.push], fun o f hf => ?_, fun o => ?_, rfl, ?_, ?_, fun n hn => ?_⟩
  · rw [Store.scriptFunction?_eq_some_iff, hheap] at hf
    exact absurd hf (Realm.plain_heap.functions o f)
  · rw [hheap]
    exact Realm.plain_heap.objects o
  · exact ⟨by simp [hnames], by simp [hnames]⟩
  · rw [hheap]
    exact Realm.plain_heap.whole
  · rw [hheap] at hn
    exact absurd hn (Realm.plain_heap.not_uses n)

end Ecma
