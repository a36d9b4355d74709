import Ecma.Proofs.Run.Store

/-! Defining a property: which descriptions an object refuses, and what the property is after one
that it accepts. -/

namespace Ecma

namespace Descriptor

variable {d : Descriptor} {current : Property}

/-- The parts of `d`, and those of `e` where `d` has none. -/
def onto (d e : Descriptor) : Descriptor where
  value := d.value <|> e.value
  writable := d.writable <|> e.writable
  get := d.get <|> e.get
  set := d.set <|> e.set
  enumerable := d.enumerable <|> e.enumerable
  configurable := d.configurable <|> e.configurable

/-- A property with undefined or false for its contents. -/
def blank (accessor enumerable configurable : Bool) : Descriptor :=
  if accessor then .accessor .undefined .undefined enumerable configurable
  else .data .undefined false enumerable configurable

/-- What a property is after a definition, if `before` was there. -/
structure Result (d : Descriptor) (before : Option Property) (after : Property) : Prop where
  given : d.onto (ofProperty after) = ofProperty after
  kind : after.isAccessor = (d.isAccessor || (d.isGeneric && before.any Property.isAccessor))
  /-- A property that is new has undefined or false for each part that is not given. -/
  new : before = none → ofProperty after = d.onto (blank after.isAccessor false false)
  kept : ∀ current, before = some current → after.isAccessor = current.isAccessor →
    ofProperty after = d.onto (ofProperty current)
  /-- A property that changes its kind keeps its flags only. -/
  switched : ∀ current, before = some current → after.isAccessor ≠ current.isAccessor →
    ofProperty after =
      d.onto (blank after.isAccessor current.isEnumerable current.isConfigurable)

/-- What a description may not ask of a property that is not configurable, where `differs` tells
which accessor functions are not those that are there. -/
inductive Conflicts (differs : Value → Value → Prop) (d : Descriptor) : Property → Prop
  | configurable {p : Property} (asked : d.configurable = some true) : Conflicts differs d p
  | enumerable {p : Property} {e : Bool} (asked : d.enumerable = some e)
    (other : e ≠ p.isEnumerable) : Conflicts differs d p
  | toAccessor {v : Value} {w e c : Bool} (asked : d.isAccessor = true) :
    Conflicts differs d (.data v w e c)
  | toData {get set : Value} {e c : Bool} (asked : d.isData = true) :
    Conflicts differs d (.accessor get set e c)
  | get {get set new : Value} {e c : Bool} (asked : d.get = some new) (other : differs new get) :
    Conflicts differs d (.accessor get set e c)
  | set {get set new : Value} {e c : Bool} (asked : d.set = some new) (other : differs new set) :
    Conflicts differs d (.accessor get set e c)
  | writable {v : Value} {e c : Bool} (asked : d.writable = some true) :
    Conflicts differs d (.data v false e c)
  | value {v new : Value} {e c : Bool} (asked : d.value = some new)
    (other : v.sameValue new = false) : Conflicts differs d (.data v false e c)

/-- An accessor function other than the one that is there, or a value that can be none: only
undefined and objects are compared. -/
def Replaces (new current : Value) : Prop :=
  new ≠ current ∨ (new ≠ .undefined ∧ ∀ o, new ≠ .object o)

theorem replaces_iff {new current : Value} :
    Replaces new current ↔ sameAccessor new current = false := by
  rw [Replaces, ← Bool.not_eq_true]
  constructor
  · rintro (hne | ⟨hundefined, hobject⟩) hsame
    · exact hne (eq_of_sameAccessor hsame)
    · unfold sameAccessor at hsame
      split at hsame
      · exact hundefined rfl
      · exact hobject _ rfl
      · cases hsame
  · intro hsame
    by_cases heq : new = current
    · subst heq
      refine .inr ⟨?_, fun o => ?_⟩
      · rintro rfl
        exact hsame rfl
      · rintro rfl
        exact hsame (beq_self_eq_true o)
    · exact .inl heq

theorem isAccessor_eq_false (hd : ¬(d.isData = true ∧ d.isAccessor = true)) (h : d.isData = true) :
    d.isAccessor = false :=
  Bool.eq_false_iff.mpr fun haccessor => hd ⟨h, haccessor⟩

theorem isData_eq_false (hd : ¬(d.isData = true ∧ d.isAccessor = true))
    (h : d.isAccessor = true) : d.isData = false :=
  Bool.eq_false_iff.mpr fun hdata => hd ⟨hdata, h⟩

/-! ### Refusals -/

theorem conflicts_of_keepsContents (h : d.keepsContents current = false) :
    d.Conflicts Replaces current := by
  cases current with
  | data v w e c =>
    simp only [keepsContents, Bool.or_eq_false_iff, Bool.and_eq_false_iff, Option.all_eq_false,
      bne_eq_false_iff_eq] at h
    obtain ⟨rfl, hwritable | ⟨new, hnew, hother⟩⟩ := h
    · exact .writable hwritable
    · exact .value hnew hother
  | accessor get set e c =>
    simp only [keepsContents, Bool.and_eq_false_iff, Option.all_eq_false] at h
    obtain ⟨new, hnew, hother⟩ | ⟨new, hnew, hother⟩ := h
    · exact .get hnew (replaces_iff.mpr hother)
    · exact .set hnew (replaces_iff.mpr hother)

/-- A configurable property may become anything, another one what it has no conflict with. -/
theorem allows_eq_false_iff (hd : ¬(d.isData = true ∧ d.isAccessor = true)) :
    d.allows current = false ↔
      current.isConfigurable = false ∧ d.Conflicts Replaces current := by
  constructor
  · intro h
    simp only [allows, Bool.or_eq_false_iff, Bool.and_eq_false_iff, Option.all_eq_false,
      bne_eq_false_iff_eq, beq_eq_false_iff_ne] at h
    obtain ⟨hconf, ((hconfigurable | henumerable) | ⟨hgeneric, hkind⟩) | hcontents⟩ := h
    · exact ⟨hconf, .configurable hconfigurable⟩
    · obtain ⟨e, he, hne⟩ := henumerable
      exact ⟨hconf, .enumerable he hne⟩
    · refine ⟨hconf, ?_⟩
      cases current with
      | data => exact .toAccessor (by simpa [Property.isAccessor] using hkind)
      | accessor => exact .toData (by simp_all [isGeneric, Property.isAccessor])
    · exact ⟨hconf, conflicts_of_keepsContents hcontents⟩
  · rintro ⟨hconf, hconflict⟩
    simp only [allows, hconf, Bool.false_or, Bool.and_eq_false_iff]
    cases hconflict with
    | configurable asked => simp [asked]
    | enumerable asked other => simp [asked, other]
    | toAccessor asked => simp [asked, isGeneric, Property.isAccessor]
    | toData asked => simp [asked, isAccessor_eq_false hd asked, isGeneric, Property.isAccessor]
    | get asked other => simp [asked, keepsContents, replaces_iff.mp other]
    | set asked other => simp [asked, keepsContents, replaces_iff.mp other]
    | writable asked => simp [asked, keepsContents]
    | value asked other => simp [asked, keepsContents, other]

/-! ### Results -/

/-- A description that asks for no accessor fills a value's. -/
theorem onto_data (h : d.isAccessor = false) (v : Value) (w e c : Bool) :
    d.onto (.data v w e c) = .data (d.value.getD v) (d.writable.getD w) (d.enumerable.getD e)
      (d.configurable.getD c) := by
  simp only [isAccessor, Bool.or_eq_false_iff, Option.isSome_eq_false_iff, Option.isNone_iff_eq_none]
    at h
  simp [onto, data, h]

theorem onto_accessor (h : d.isData = false) (get set : Value) (e c : Bool) :
    d.onto (.accessor get set e c) = .accessor (d.get.getD get) (d.set.getD set)
      (d.enumerable.getD e) (d.configurable.getD c) := by
  simp only [isData, Bool.or_eq_false_iff, Option.isSome_eq_false_iff, Option.isNone_iff_eq_none]
    at h
  simp [onto, accessor, h]

@[simp] theorem onto_onto (d e : Descriptor) : d.onto (d.onto e) = d.onto e := by
  simp [onto, ← Option.or_assoc]

theorem result_complete (hd : ¬(d.isData = true ∧ d.isAccessor = true)) :
    d.Result none d.complete := by
  have hnew : ofProperty d.complete = d.onto (blank d.complete.isAccessor false false) := by
    cases h : d.isAccessor with
    | true => simp [complete, h, ofProperty, blank, Property.isAccessor, onto_accessor (isData_eq_false hd h)]
    | false => simp [complete, h, ofProperty, blank, Property.isAccessor, onto_data h]
  exact {
    given := by rw [hnew, onto_onto]
    kind := by cases h : d.isAccessor <;> simp [complete, h, Property.isAccessor]
    new := fun _ => hnew
    kept := fun _ h => by cases h
    switched := fun _ h => by cases h }

theorem Result.isConfigurable {before : Option Property} {after : Property}
    (h : d.Result before after) (hconf : d.configurable = some true) :
    after.isConfigurable = true := by
  have hgiven := congrArg Descriptor.configurable h.given
  cases after <;>
    simpa [onto, ofProperty, hconf, Descriptor.data, Descriptor.accessor, Property.isConfigurable,
      eq_comm] using hgiven

/-- A property of the same kind keeps what is not given. -/
theorem Result.of_kept {after : Property} (hsame : after.isAccessor = current.isAccessor)
    (hkind : after.isAccessor = (d.isAccessor || (d.isGeneric && current.isAccessor)))
    (hkept : ofProperty after = d.onto (ofProperty current)) : d.Result (some current) after where
  given := by rw [hkept, onto_onto]
  kind := hkind
  new := nofun
  kept _ h _ := by cases h; exact hkept
  switched _ h hother := by cases h; exact absurd hsame hother

/-- A property of another kind keeps its flags. -/
theorem Result.of_switched {after : Property} (hother : after.isAccessor ≠ current.isAccessor)
    (hkind : after.isAccessor = (d.isAccessor || (d.isGeneric && current.isAccessor)))
    (hswitched : ofProperty after =
      d.onto (blank after.isAccessor current.isEnumerable current.isConfigurable)) :
    d.Result (some current) after where
  given := by rw [hswitched, onto_onto]
  kind := hkind
  new := nofun
  kept _ h hsame := by cases h; exact absurd hsame hother
  switched _ h _ := by cases h; exact hswitched

theorem result_update (hd : ¬(d.isData = true ∧ d.isAccessor = true)) :
    d.Result (some current) (d.update current) := by
  cases current with
  | data v w e c =>
    cases h : d.isAccessor with
    | true =>
      have hdata := isData_eq_false hd h
      refine .of_switched ?_ ?_ ?_ <;>
        simp [update, h, hdata, Property.isAccessor, ofProperty, blank, onto_accessor,
          Property.isEnumerable, Property.isConfigurable]
    | false =>
      refine .of_kept ?_ ?_ ?_ <;>
        simp [update, h, Property.isAccessor, ofProperty, onto_data, Property.isEnumerable,
          Property.isConfigurable]
  | accessor get set e c =>
    cases h : d.isData with
    | true =>
      have haccessor := isAccessor_eq_false hd h
      refine .of_switched ?_ ?_ ?_ <;>
        simp [update, h, haccessor, Property.isAccessor, isGeneric, ofProperty, blank, onto_data,
          Property.isEnumerable, Property.isConfigurable]
    | false =>
      refine .of_kept ?_ ?_ ?_ <;>
        simp [update, h, Property.isAccessor, isGeneric, ofProperty, onto_accessor,
          Property.isEnumerable, Property.isConfigurable]

/-- An allowed redefinition of a property that can neither be configured nor written says what is
there. -/
theorem update_eq_self (hd : ¬(d.isData = true ∧ d.isAccessor = true))
    (hallows : d.allows current = true) (hconf : current.isConfigurable = false)
    (hwrite : current.isWritable = false) : d.update current = current := by
  have : d.Coherent := ⟨isAccessor_eq_false hd⟩
  have hpersists := persists_update hallows hconf
  revert hpersists
  generalize d.update current = p
  intro hpersists
  cases hpersists with
  | @data v v' w w' e hw hv =>
    obtain rfl : w = false := hwrite
    obtain rfl : w' = false := Bool.eq_false_iff.mpr fun htrue => Bool.false_ne_true (hw htrue)
    rw [Value.sameValue_iff.mp (hv rfl)]
  | accessor => rfl

end Descriptor

namespace ObjectData

variable {o o' : ObjectData} {key : PropertyKey} {d : Descriptor} {current : Property}

/-- What an object has by its kind cannot be assigned. -/
theorem not_writable_of_exotic {p : Property} (h : o.exoticProperty? key = some p) :
    p.isWritable = false := by
  unfold exoticProperty? at h
  split at h
  · unfold Units.property? at h
    split at h
    · cases h
      rfl
    · split at h <;> cases h
      rfl
  · cases h

/-- A property that may be changed is stored, so that a redefinition takes effect. -/
theorem getOwn?_define_changeable (h : o.define key d = some o')
    (hcurrent : o.getOwn? key = some current)
    (hchange : current.isConfigurable = true ∨ current.isWritable = true) :
    o'.getOwn? key = some (d.update current) := by
  have hplain : o.exoticProperty? key = none := by
    cases hexotic : o.exoticProperty? key with
    | none => rfl
    | some p =>
      obtain rfl : p = current := by simpa [getOwn?, hexotic] using hcurrent
      simp [not_configurable_of_exotic hexotic, not_writable_of_exotic hexotic] at hchange
  obtain ⟨hnone, -⟩ | ⟨p, hp, -, ⟨hmem, rfl⟩ | ⟨hmem, -⟩⟩ := define_cases h
  · simp [hnone] at hcurrent
  · obtain rfl : p = current := Option.some.inj (hp.symm.trans hcurrent)
    have hexotic := (exoticProperty?_of_kind (kind_define h) key).trans hplain
    rw [getOwn?, hexotic]
    exact lookup_replace_same (isSome_lookup_iff.mpr hmem)
  · rw [getOwn?, hplain] at hcurrent
    exact absurd (isSome_lookup_iff.mp (Option.isSome_of_eq_some hcurrent)) hmem

theorem define_of_allows (hcurrent : o.getOwn? key = some current) (hallows : d.allows current = true) :
    ∃ o', o.define key d = some o' := by
  simp only [define, hcurrent, hallows, if_true]
  split <;> exact ⟨_, rfl⟩

/-- A new property is the one that is described. -/
theorem define_new (hnone : o.getOwn? key = none) (hext : o.extensible = true) :
    ∃ o', o.define key d = some o' ∧ o'.getOwn? key = some d.complete := by
  have hdefine : o.define key d = some { o with properties := o.properties ++ [(key, d.complete)] } := by
    simp [define, hnone, hext]
  obtain ⟨hexotic, hlookup⟩ : o.exoticProperty? key = none ∧ o.properties.lookup key = none := by
    simpa [getOwn?] using hnone
  refine ⟨_, hdefine, ?_⟩
  rw [getOwn?, exoticProperty?_of_kind (kind_define hdefine), hexotic]
  simp [List.lookup_append, hlookup]

/-- A writable property takes a value by assignment. -/
theorem define_value {v w : Value} {e c : Bool} (h : o.getOwn? key = some (.data w true e c)) :
    ∃ o', o.define key { value := some v } = some o' ∧ o'.getOwn? key = some (.data v true e c) := by
  have hallows : ({ value := some v } : Descriptor).allows (.data w true e c) = true := by
    simp [Descriptor.allows, Descriptor.keepsContents, Descriptor.isAccessor, Property.isAccessor]
  obtain ⟨o', ho'⟩ := define_of_allows h hallows
  exact ⟨o', ho', getOwn?_define_changeable ho' h (.inr rfl)⟩

/-- When an object does not take a description: it may gain no property, or the one that is there is
not configurable. -/
inductive Refuses (differs : Value → Value → Prop) (o : ObjectData) (key : PropertyKey)
    (d : Descriptor) : Prop
  | absent (missing : o.getOwn? key = none) (closed : o.extensible = false)
  | fixed {current : Property} (own : o.getOwn? key = some current)
    (fixed : current.isConfigurable = false) (conflict : d.Conflicts differs current)

theorem define_eq_none_iff (hd : ¬(d.isData = true ∧ d.isAccessor = true)) :
    o.define key d = none ↔ o.Refuses Descriptor.Replaces key d := by
  cases hcurrent : o.getOwn? key with
  | none =>
    simp only [define, hcurrent, ite_eq_right_iff, reduceCtorEq, imp_false, Bool.not_eq_true]
    refine ⟨.absent hcurrent, fun h => ?_⟩
    cases h with
    | absent _ closed => exact closed
    | fixed own => rw [hcurrent] at own; cases own
  | some current =>
    have hdefine : o.define key d = none ↔ d.allows current = false := by
      cases hallows : d.allows current with
      | true =>
        obtain ⟨o', ho'⟩ := define_of_allows hcurrent hallows
        simp [ho']
      | false => simp [define, hcurrent, hallows]
    rw [hdefine, Descriptor.allows_eq_false_iff hd]
    refine ⟨fun h => .fixed hcurrent h.1 h.2, fun h => ?_⟩
    cases h with
    | absent missing => rw [hcurrent] at missing; cases missing
    | fixed own fixed conflict =>
      cases hcurrent.symm.trans own
      exact ⟨fixed, conflict⟩

/-- What an accepted definition leads to. A property that the object has by its kind is not stored,
and then the description says what is there. -/
theorem define_result (hd : ¬(d.isData = true ∧ d.isAccessor = true))
    (h : o.define key d = some o') :
    ∃ p, o'.getOwn? key = some p ∧ d.Result (o.getOwn? key) p := by
  cases hcurrent : o.getOwn? key with
  | none =>
    have hext : o.extensible = true := by
      obtain ⟨-, hext, -⟩ | ⟨p, hp, -⟩ := define_cases h
      · exact hext
      · rw [hcurrent] at hp; cases hp
    obtain ⟨o₁, ho₁, hp⟩ := define_new (d := d) hcurrent hext
    cases h.symm.trans ho₁
    exact ⟨_, hp, Descriptor.result_complete hd⟩
  | some current =>
    by_cases hchange : current.isConfigurable = true ∨ current.isWritable = true
    · exact ⟨_, getOwn?_define_changeable h hcurrent hchange, Descriptor.result_update hd⟩
    · simp only [not_or, Bool.not_eq_true] at hchange
      obtain ⟨hallows, hp⟩ := getOwn?_define_own h hcurrent
      have hself := Descriptor.update_eq_self hd hallows hchange.1 hchange.2
      have hresult : d.Result (some current) (d.update current) := Descriptor.result_update hd
      rw [hself] at hresult
      rw [hself, or_self] at hp
      exact ⟨current, hp, hresult⟩

end ObjectData

namespace Heap

variable {h : Heap} {o : ObjectRef} {key : PropertyKey} {d : Descriptor}

/-- A heap in which at most one property of one object is different. -/
structure SameBut (o : ObjectRef) (key : PropertyKey) (h h' : Heap) : Prop where
  size : h'.objects.size = h.objects.size
  properties : ∀ p k, p ≠ o ∨ k ≠ key → h'.getOwn? p k = h.getOwn? p k
  prototype : ∀ p, (h'.get p).prototype = (h.get p).prototype
  extensible : ∀ p, (h'.get p).extensible = (h.get p).extensible
  kind : ∀ p, (h'.get p).kind = (h.get p).kind
  privateElements : ∀ p, (h'.get p).privateElements = (h.get p).privateElements

theorem SameBut.refl (o : ObjectRef) (key : PropertyKey) (h : Heap) : SameBut o key h h :=
  ⟨rfl, fun _ _ _ => rfl, fun _ => rfl, fun _ => rfl, fun _ => rfl, fun _ => rfl⟩

theorem sameBut_modify {data : ObjectData} (hdata : (h.get o).define key d = some data) :
    SameBut o key h (h.modify o fun _ => data) := by
  have hcases := h.get_modify_cases o fun _ => data
  refine ⟨Array.size_modify, fun p k hne => ?_, fun p => ?_, fun p => ?_, fun p => ?_, fun p => ?_⟩
  all_goals obtain heq | ⟨rfl, heq⟩ := hcases p
  all_goals try rw [heq]
  · rw [getOwn?, heq, getOwn?]
  · rw [getOwn?, heq, ObjectData.getOwn?_define_ne hdata (hne.resolve_left (· rfl)), getOwn?]
  · exact ObjectData.prototype_define hdata
  · exact ObjectData.extensible_define hdata
  · exact ObjectData.kind_define hdata
  · exact ObjectData.privateElements_define hdata

end Heap

/-- Defining a property validates the description: it is refused for the listed reasons only, and then
nothing changes; else the property is as described, and no other one changes. -/
theorem Eval.define_validates {s : State} {o : ObjectRef} (ho : o.index < s.heap.objects.size)
    (key : PropertyKey) {d : Descriptor} (hd : ¬(d.isData = true ∧ d.isAccessor = true)) :
    ∃ allowed h', Eval.define o key d s = .ok allowed { s with heap := h' } ∧
      (allowed = false ↔ (s.heap.get o).Refuses Descriptor.Replaces key d) ∧
      (allowed = false → h' = s.heap) ∧
      (allowed = true → ∃ p, h'.getOwn? o key = some p ∧ d.Result (s.heap.getOwn? o key) p) ∧
      Heap.SameBut o key s.heap h' := by
  cases hdefine : (s.heap.get o).define key d with
  | none =>
    refine ⟨false, s.heap, ?_, ?_, fun _ => rfl, (absurd · Bool.false_ne_true), .refl o key s.heap⟩
    · simp [Eval.define, Eval.tryObject, hdefine]
    · simpa using (ObjectData.define_eq_none_iff hd).mp hdefine
  | some data =>
    refine ⟨true, s.heap.modify o fun _ => data, ?_, ?_, (absurd ·.symm Bool.false_ne_true),
      fun _ => ?_, Heap.sameBut_modify hdefine⟩
    · simp [Eval.define, Eval.tryObject, hdefine]
    · simp [← ObjectData.define_eq_none_iff hd, hdefine]
    · rw [Heap.getOwn?, Heap.get_modify_self ho]
      exact ObjectData.define_result hd hdefine

/-- A property that cannot be configured is not made enumerable, but it takes a value as long as it
can be written. -/
theorem Eval.define_validates_fixed :
    let o : ObjectData := { properties := [("k", .data .undefined true false false)] }
    let s : State := { (default : State) with heap := ⟨#[o]⟩ }
    Eval.define ⟨0⟩ "k" { enumerable := some true } s = .ok false s ∧
      ∃ h', Eval.define ⟨0⟩ "k" { value := some .null } s = .ok true { s with heap := h' } ∧
        h'.getOwn? ⟨0⟩ "k" = some (.data .null true false false) := by
  intro o s
  have hown : (s.heap.get ⟨0⟩).getOwn? "k" = some (.data .undefined true false false) := rfl
  constructor
  · obtain ⟨allowed, h', hrun, hrefuses, hsame, -⟩ := Eval.define_validates (s := s) (o := ⟨0⟩)
      Nat.one_pos "k" (d := { enumerable := some true }) (by decide)
    have hconflict : Descriptor.Conflicts Descriptor.Replaces { enumerable := some true }
        (.data .undefined true false false) := .enumerable rfl (by decide)
    have hrefused : allowed = false := hrefuses.mpr (.fixed hown rfl hconflict)
    rw [hrun, hrefused, hsame hrefused]
  · obtain ⟨allowed, h', hrun, hrefuses, -, hresult, -⟩ := Eval.define_validates (s := s) (o := ⟨0⟩)
      Nat.one_pos "k" (d := { value := some .null }) (by decide)
    cases allowed with
    | false =>
      cases hrefuses.mp rfl with
      | absent missing => cases missing
      | fixed own _ conflict =>
        obtain rfl := Option.some.inj (hown.symm.trans own)
        cases conflict with
        | configurable asked => cases asked
        | enumerable asked => cases asked
        | toAccessor asked => cases asked
    | true =>
      obtain ⟨p, hp, hresult⟩ := hresult rfl
      refine ⟨h', hrun, hp.trans (congrArg some ?_)⟩
      have hkept := hresult.kept _ hown hresult.kind
      cases p with
      | data v w e c =>
        cases hkept
        rfl
      | accessor => cases hresult.kind

/-- A getter that is no object counts as another one even where it is the one that is there. -/
theorem ObjectData.refuses_same_getter :
    ¬∀ (o : ObjectData) (key : PropertyKey) (d : Descriptor), o.WellFormed →
      ¬(d.isData = true ∧ d.isAccessor = true) →
      (o.define key d = none ↔ o.Refuses (· ≠ ·) key d) := by
  intro h
  let o : ObjectData := { properties := [("k", .accessor .null .undefined false false)] }
  have hwf : o.WellFormed := ⟨by simp [o, keys], fun _ _ => rfl⟩
  have hnone : o.define "k" { get := some .null } = none := rfl
  cases (h o "k" { get := some .null } hwf (by decide)).mp hnone with
  | absent missing => cases missing
  | fixed own fixed conflict =>
    obtain rfl := Option.some.inj own
    cases conflict with
    | configurable asked => cases asked
    | enumerable asked => cases asked
    | toData asked => cases asked
    | get asked other => exact other (Option.some.inj asked).symm
    | set asked => cases asked

end Ecma
