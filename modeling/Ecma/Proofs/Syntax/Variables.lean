import Ecma.Proofs.Literal.Numeral
import Ecma.Proofs.Syntax.Hoisting

/-! The variables of scripts and functions. A script that is accepted, and every function in it, has
the names that `var` declares in it outside the functions in it, each once, in the order in which
they first occur in the text. -/

namespace Ecma

/-! ### Lists of names -/

theorem distinctNames_concat (names : List String) (name : String) :
    distinctNames (names ++ [name]) = addName (distinctNames names) name := by
  rw [distinctNames, List.foldl_append, List.foldl_cons, List.foldl_nil, distinctNames]

theorem nodup_distinctNames (names : List String) : (distinctNames names).Nodup := by
  induction names using List.reverseRecOn with
  | nil => exact List.nodup_nil
  | append_singleton names name ih =>
    rw [distinctNames_concat, addName]
    split
    · exact ih
    · next hnew =>
      have hnot : name ∉ distinctNames names := by simpa using hnew
      refine ih.append (List.nodup_singleton name) fun other hother hname => hnot ?_
      rwa [List.mem_singleton.mp hname] at hother

/-- The names stand in the order in which they first occur. -/
theorem pairwise_distinctNames (names : List String) :
    (distinctNames names).Pairwise fun a b => names.idxOf a < names.idxOf b := by
  induction names using List.reverseRecOn with
  | nil => exact List.Pairwise.nil
  | append_singleton names name ih =>
    have hsame {a : String} (ha : a ∈ distinctNames names) :
        (names ++ [name]).idxOf a = names.idxOf a :=
      List.idxOf_append_of_mem (mem_distinctNames.mp ha)
    have hkept : (distinctNames names).Pairwise fun a b =>
        (names ++ [name]).idxOf a < (names ++ [name]).idxOf b :=
      ih.imp_of_mem fun ha hb hlt => by rwa [hsame ha, hsame hb]
    rw [distinctNames_concat, addName]
    split
    · exact hkept
    · next hnew =>
      have hnot : name ∉ names := by
        intro hmem
        exact hnew (List.contains_iff_mem.mpr (mem_distinctNames.mpr hmem))
      refine List.pairwise_append.mpr ⟨hkept, List.pairwise_singleton _ _, fun a ha b hb => ?_⟩
      rw [List.mem_singleton.mp hb, hsame ha, List.idxOf_append_of_notMem hnot]
      exact (List.idxOf_lt_length_of_mem (mem_distinctNames.mp ha)).trans_le (Nat.le_add_right _ _)

/-! ### Declarations at any depth -/

theorem Part.Inside.trans {x y z : Part} (h : x.Inside y) (h' : y.Inside z) : x.Inside z := by
  induction h' with
  | refl => exact h
  | part _ hp ih => exact .part ih hp

/-- A name is declared with `var` in a part, outside the functions in it. -/
def Part.DeclaresVar (x : Part) (name : String) : Prop :=
  ∃ y, x.Inside y ∧ name ∈ y.ownVarNames

theorem Part.DeclaresVar.of_part {x y : Part} {name : String} (hy : y ∈ x.parts)
    (h : y.DeclaresVar name) : x.DeclaresVar name :=
  let ⟨z, hinside, hname⟩ := h
  ⟨z, Part.Inside.trans (.part .refl hy) hinside, hname⟩

mutual

/-- Every variable of a statement is declared somewhere in it. -/
theorem Stmt.exists_declaration (t : Stmt) {name : String} (h : name ∈ t.varNames) :
    (Part.statement t).DeclaresVar name := by
  have hlist {body lists : List Stmt} (hsub : body ⊆ lists)
      (hparts : (Part.statement t).parts = lists.map .statement)
      (hbody : ∃ u ∈ body, (Part.statement u).DeclaresVar name) :
      (Part.statement t).DeclaresVar name := by
    obtain ⟨u, hu, hpart⟩ := hbody
    exact .of_part (hparts ▸ List.mem_map_of_mem (hsub hu)) hpart
  cases t with
  | «variables» kind declarators =>
    rw [Stmt.varNames] at h
    split at h
    · next hkind =>
      subst hkind
      exact ⟨_, .refl, h⟩
    · cases h
  | block body =>
    rw [Stmt.varNames] at h
    exact hlist (List.Subset.refl _) rfl (Stmt.exists_declarationIn body h)
  | ifThen test yes =>
    rw [Stmt.varNames] at h
    exact .of_part (by simp) (Stmt.exists_declaration yes h)
  | ifElse test yes no =>
    rw [Stmt.varNames, List.mem_append] at h
    rcases h with h | h
    · exact .of_part (by simp) (Stmt.exists_declaration yes h)
    · exact .of_part (by simp) (Stmt.exists_declaration no h)
  | whileLoop test body =>
    rw [Stmt.varNames] at h
    exact .of_part (by simp) (Stmt.exists_declaration body h)
  | doLoop body test =>
    rw [Stmt.varNames] at h
    exact .of_part (by simp) (Stmt.exists_declaration body h)
  | forLoop init test update body =>
    rw [Stmt.varNames, List.mem_append] at h
    rcases h with h | h
    · refine .of_part (y := .forInit init) (by simp) ⟨_, .refl, ?_⟩
      unfold ForInit.varNames at h
      split at h
      · exact h
      · cases h
    · exact .of_part (by simp) (Stmt.exists_declaration body h)
  | tryCatch block param handler =>
    rw [Stmt.varNames, List.mem_append] at h
    rcases h with h | h
    · exact hlist (List.subset_append_left _ _) rfl (Stmt.exists_declarationIn block h)
    · exact hlist (List.subset_append_right _ _) rfl (Stmt.exists_declarationIn handler h)
  | tryFinally block finalizer =>
    rw [Stmt.varNames, List.mem_append] at h
    rcases h with h | h
    · exact hlist (List.subset_append_left _ _) rfl (Stmt.exists_declarationIn block h)
    · exact hlist (List.subset_append_right _ _) rfl (Stmt.exists_declarationIn finalizer h)
  | tryCatchFinally block param handler finalizer =>
    rw [Stmt.varNames, List.mem_append, List.mem_append] at h
    rcases h with (h | h) | h
    · exact hlist (fun u hu => by simp [hu]) rfl (Stmt.exists_declarationIn block h)
    · exact hlist (fun u hu => by simp [hu]) rfl (Stmt.exists_declarationIn handler h)
    · exact hlist (fun u hu => by simp [hu]) rfl (Stmt.exists_declarationIn finalizer h)
  | switch subject cases =>
    rw [Stmt.varNames] at h
    obtain ⟨k, hk, hpart⟩ := Stmt.exists_declarationInCases cases h
    exact .of_part (by simp [hk]) hpart
  | labeled label body =>
    rw [Stmt.varNames] at h
    exact .of_part (by simp) (Stmt.exists_declaration body h)
  | _ => simp [Stmt.varNames] at h

theorem Stmt.exists_declarationIn (body : List Stmt) {name : String}
    (h : name ∈ Stmt.varNamesOf body) :
    ∃ t ∈ body, (Part.statement t).DeclaresVar name := by
  cases body with
  | nil =>
    rw [Stmt.varNamesOf] at h
    cases h
  | cons t rest =>
    rw [Stmt.varNamesOf, List.mem_append] at h
    rcases h with h | h
    · exact ⟨t, by simp, Stmt.exists_declaration t h⟩
    · obtain ⟨u, hu, hpart⟩ := Stmt.exists_declarationIn rest h
      exact ⟨u, by simp [hu], hpart⟩

theorem Stmt.exists_declarationInCases (cases : List SwitchCase) {name : String}
    (h : name ∈ Stmt.varNamesOfCases cases) :
    ∃ k ∈ cases, (Part.clause k).DeclaresVar name := by
  cases cases with
  | nil =>
    rw [Stmt.varNamesOfCases] at h
    cases h
  | cons k rest =>
    obtain ⟨test, body⟩ := k
    rw [Stmt.varNamesOfCases, SwitchCase.varNames, List.mem_append] at h
    rcases h with h | h
    · obtain ⟨t, ht, hpart⟩ := Stmt.exists_declarationIn body h
      exact ⟨_, List.mem_cons_self, .of_part (by simp [ht]) hpart⟩
    · obtain ⟨k, hk, hpart⟩ := Stmt.exists_declarationInCases rest h
      exact ⟨k, by simp [hk], hpart⟩

end

theorem Stmt.mem_varNamesOf {body : List Stmt} {name : String} : name ∈ Stmt.varNamesOf body ↔
    ∃ t ∈ body, (Part.statement t).DeclaresVar name := by
  refine ⟨Stmt.exists_declarationIn body, fun ⟨t, ht, part, hpart, hname⟩ => ?_⟩
  rw [Stmt.varNamesOf_eq]
  exact List.mem_flatMap.mpr ⟨t, ht, hpart.ownVarNames_subset hname⟩

/-! ### Functions at any place -/

theorem Part.mem_pieces {x y : Part} (h : y ∈ x.parts) : y ∈ x.pieces := by
  cases x <;> first | exact h | cases h

/-- Parts that stand with a part are in code of the same mode. -/
theorem Part.modeInside_eq {x y : Part} (h : y ∈ x.parts) (σ : CodeMode) : x.modeInside σ = σ := by
  cases x <;> first | rfl | cases h

/-- The mode of the code at a place. -/
def Place.mode (l : Place) : CodeMode :=
  ⟨l.isStrict, l.around.any fun a => a.classDef?.isSome⟩

theorem Place.Has.mode_inside {l : Place} {f : FunctionDef} {superProperty superCall : Bool}
    {t : Stmt} (hf : l.Has (.function f superProperty superCall)) (ht : t ∈ f.body) :
    (l.inside (.function f superProperty superCall)).mode = { l.mode with strict := f.strict } := by
  have hstrict : (l.inside (.function f superProperty superCall)).isStrict = f.strict :=
    (Has.body hf ht).strict_rights.symm
  rw [mode, hstrict]
  rfl

/-- What holds of all functions in a script holds at every place of it. -/
theorem Place.Has.each {V : CodeMode → FunctionDef → Prop} {l : Place} {part : Part}
    (h : l.Has part)
    (hbody : ∀ t ∈ l.program.body, (Part.statement t).Each V ⟨l.program.strict, false⟩) :
    part.Each V l.mode := by
  have step {x y : Part} {σ : CodeMode} (hx : x.Each V σ) (hy : y ∈ x.pieces) :
      y.Each V (x.modeInside σ) :=
    let ⟨_, hpieces⟩ := hx
    hpieces y hy
  have hclass (l : Place) (a : Around) (ha : a.isStrict = true) (hc : a.classDef?.isSome) :
      (l.inside a).mode = ⟨true, true⟩ := by
    simp [mode, inside, isStrict, ha, hc]
  induction h with
  | @script p _ _ ht =>
    rw [mode, isStrict, List.any_nil, Bool.or_false]
    exact hbody _ ht
  | @part l whole part _ hp ih =>
    rw [← Part.modeInside_eq hp l.mode]
    exact step (ih hbody) (Part.mem_pieces hp)
  | body hf ht ih =>
    rw [hf.mode_inside ht]
    exact step (ih hbody) (List.mem_map_of_mem ht)
  | heritage _ he ih =>
    rw [hclass _ _ rfl rfl]
    exact step (ih hbody) (by simp [Part.pieces, Option.mem_def.mp he])
  | code _ hf ih =>
    rw [hclass _ _ rfl rfl]
    exact step (ih hbody) (by simp [Part.pieces, Option.mem_def.mp hf])
  | element _ hm ih =>
    rw [hclass _ _ rfl rfl]
    exact step (ih hbody) (by simp [Part.pieces, hm])

/-! ### Texts of declared names -/

theorem Scan.wordKind_keyword {word : String} {k : Keyword} (h : wordKind word = .keyword k) :
    word = k.text := by
  unfold wordKind at h
  split at h
  · cases h
  split at h
  · cases h
  split at h
  · next hfind =>
    cases h
    unfold Keyword.ofText? at hfind
    have htext := List.find?_some hfind
    exact (beq_iff_eq.mp htext).symm
  · cases h

theorem TokenText.keyword_inv {k : Keyword} {text : List Char} (h : TokenText (.keyword k) text) :
    text = k.text.toList := by
  generalize hkind : TokenKind.keyword k = kind at h
  cases h with
  | word => rw [← Scan.wordKind_keyword hkind.symm, String.toList_ofList]
  | number _ hnumber => rcases hnumber.kind_eq with h | h <;> cases hkind.trans h
  | _ => cases hkind

/-- A token of a source text declares the name that it spells. -/
theorem Lexed.declaredName_eq {source : String} {t : Token} (h : t ∈ (ofString source).tokens) :
    t.declaredName = t.text := by
  unfold Token.declaredName
  split
  · next hkind =>
    have htext := tokenText_of_mem h
    rw [hkind] at htext
    exact String.toList_inj.mp htext.keyword_inv.symm
  · rfl

/-! ### The variables of scripts and functions -/

/-- The names are those of the variables of a list of statements: each is declared with `var`
somewhere in it, outside the functions in it, and stands once. They have the order in which tokens
declare them first. -/
structure VariablesOf (tokens : List Token) (body : List Stmt) (names : List String) : Prop where
  distinct : names.Nodup
  declared : ∀ name, name ∈ names ↔ ∃ t ∈ body, (Part.statement t).DeclaresVar name
  ordered : ∃ marks, VarTokens tokens marks ∧
    marks.map Token.text = body.flatMap Stmt.varNames ∧
    names.Pairwise fun a b =>
      (marks.map Token.text).idxOf a < (marks.map Token.text).idxOf b

theorem Hoists.variablesOf {tokens : List Token} {body : List Stmt} {names : List String}
    (h : Hoists tokens body names) (htokens : ∀ t ∈ tokens, t.declaredName = t.text) :
    VariablesOf tokens body names := by
  obtain ⟨marks, hvars, hbody, rfl⟩ := h
  have htexts : marks.map Token.declaredName = marks.map Token.text :=
    List.map_congr_left fun t ht => htokens t (hvars.sublist.subset ht)
  rw [htexts] at hbody ⊢
  refine ⟨nodup_distinctNames _, fun name => ?_, marks, hvars, ?_, pairwise_distinctNames _⟩
  · rw [mem_distinctNames, hbody, Stmt.mem_varNamesOf]
  · rw [hbody, Stmt.varNamesOf_eq]

namespace Program

/-- The text of a script and its tokens; no private name is in use around it. -/
def origin (source : String) : Origin :=
  ⟨source.toList, (Lexed.ofString source).tokens, []⟩

/-- A script that is accepted is read from the significant tokens of its text. -/
theorem script_of_parse {source : String} {p : Program} (h : parse source = .ok p) :
    ∃ stream depth s', TokenStream.significant stream =
        (Lexed.ofString source).tokens.filter Token.isSignificant ∧
      (Grammar.ofFuel depth).script (surroundings source) ⟨stream, [], [], []⟩ = .ok (p, s') :=
  let ⟨stream, s', hstream, hread⟩ := read_of_parse h
  ⟨stream, _, s', congrArg (List.filter _) (TokenStream.rest_of_ofString hstream), hread⟩

/-- What is known of the functions of a script that is accepted. -/
theorem known_of_parse {source : String} {p : Program} (h : parse source = .ok p) :
    Hoists (origin source).significant p.body p.varNames ∧
      ∀ t ∈ p.body, (Part.statement t).Known (origin source) ⟨p.strict, false⟩ := by
  obtain ⟨stream, s', hstream, hscript⟩ := read_of_parse h
  have hstart : (origin source).At ⟨false, false⟩ (surroundings source) ⟨stream, [], [], []⟩ :=
    { source := rfl
      strict := rfl
      outside _ := rfl
      tokens := TokenStream.rest_of_ofString hstream ▸ List.suffix_refl _
      references _ := rfl }
  exact Grammar.yields_script (Grammar.collects_ofFuel _ _) hstart rfl p s' hscript

/-- A script that is accepted has the names of its variables, and so has every function in it. -/
theorem varNames_declared {source : String} {p : Program} (h : parse source = .ok p) :
    let tokens := (Lexed.ofString source).tokens.filter Token.isSignificant
    VariablesOf tokens p.body p.varNames ∧
      ∀ (l : Place) (f : FunctionDef) (superProperty superCall : Bool), l.program = p →
        l.Has (.function f superProperty superCall) → VariablesOf tokens f.body f.varNames := by
  intro tokens
  have htokens : ∀ t ∈ tokens, t.declaredName = t.text :=
    fun t ht => Lexed.declaredName_eq (List.mem_of_mem_filter ht)
  obtain ⟨hscript, hbody⟩ := known_of_parse h
  refine ⟨hscript.variablesOf htokens, fun l f superProperty superCall hl hf => ?_⟩
  subst hl
  obtain ⟨here, -⟩ := hf.each hbody
  exact (here f rfl).hoists.variablesOf htokens

/-- Variables in the head and the body of a loop, one of them twice, and those of a function. -/
theorem varNames_declared_nested :
    let source :=
      "function f() \x7b var c, a = b, c; \x7d var b = 1, a; for (var b;;) \x7b var d; \x7d"
    let tokens := (Lexed.ofString source).tokens.filter Token.isSignificant
    ∃ p, parse source = .ok p ∧ p.varNames = ["b", "a", "d"] ∧
      (Stmt.functionsOf p.body).map FunctionDef.varNames = [["c", "a"]] ∧
      VariablesOf tokens p.body p.varNames ∧
      ∀ (l : Place) (f : FunctionDef) (superProperty superCall : Bool), l.program = p →
        l.Has (.function f superProperty superCall) → VariablesOf tokens f.body f.varNames := by
  intro source tokens
  have hnames : ((parse source).toOption.map fun p =>
      (p.varNames, (Stmt.functionsOf p.body).map FunctionDef.varNames)) =
        some (["b", "a", "d"], [["c", "a"]]) := by
    decide +kernel
  cases hparse : parse source with
  | error e =>
    rw [hparse] at hnames
    cases hnames
  | ok p =>
    rw [hparse] at hnames
    obtain ⟨hscript, hfunction⟩ := Prod.mk.inj (Option.some.inj hnames)
    exact ⟨p, rfl, hscript, hfunction, varNames_declared hparse⟩

end Program

end Ecma
