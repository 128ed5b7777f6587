import Opal.Proofs.TwinRuns

/-!
# States between the declarations of a module

Between two declarations of a module no constant is in progress, and a view of the module tells what its variables and functions
are bound to. Two runs at rest with one view may examine the same declaration side by side.
-/

namespace Opal

open List ScopeTree

variable {b : BindingId} {s0 t : State} {r r' : Referent} {name : String}

/-! ## The nodes of a declaration -/

/-- The nodes that are examined with a declaration of a module. Its written types are not among them if they belong to a
signature, nor is the value of a constant. -/
def Decl.inside : Decl → List (Node × Env)
  | .var d => locatedOptionalType d.type [] ++ d.init.located []
  | .const _ => []
  | .func d => d.body.located (d.params.map Param.declarator) []

lemma Decl.ids_inside_sublist (d : Decl) : (d.inside.map (·.1.id) ++ [d.id]).Sublist (d.nodes.map Node.id) := by
  have hids (l : List (Node × Env)) : l.map (·.1.id) = (l.map Prod.fst).map Node.id := by
    rw [map_map]
    rfl
  cases d with
  | var d =>
    rw [hids, Decl.inside, map_append, map_fst_located.optionalType, map_fst_located.expr, Decl.nodes, d.nodes_eq, VarDecl.parts]
    simp only [map_append]
    exact Sublist.refl _
  | const d =>
    rw [Decl.nodes, d.nodes_eq, map_append]
    exact sublist_append_right _ _
  | func d =>
    rw [hids, Decl.inside, map_fst_located.block, Decl.nodes, d.nodes_eq]
    simp only [map_append]
    exact (sublist_append_right _ _).append (Sublist.refl _)

namespace Referent

lemma isConst_eq_of_word (h : r'.word = r.word) : r'.isConst = r.isConst := by
  cases r <;> cases r' <;> simp_all [word, isConst]

end Referent

lemma State.Tracks.word_eq {s : State}
    (h : s0.Tracks s) (h' : s0.Tracks t) (hr : s.global? name = some r) (hr' : t.global? name = some r') :
    r'.word = r.word := by
  obtain ⟨b,hb,hr⟩ := Option.bind_eq_some_iff.1 hr
  obtain ⟨b',hb',hr'⟩ := Option.bind_eq_some_iff.1 hr'
  have hname := h.names name
  have hname' := h'.names name
  rw [hb] at hname
  rw [hb'] at hname'
  generalize s0.scopes.find? 0 name = k at hname hname'
  cases hname with
  | some hmirrors =>
    cases hname' with
    | some hmirrors' =>
      obtain ⟨r0,r1,hr0,hr1,hword⟩ := hmirrors.word
      obtain ⟨r0',r1',hr0',hr1',hword'⟩ := hmirrors'.word
      obtain rfl := Option.mem_unique hr0 hr0'
      obtain rfl := Option.mem_unique hr hr1
      obtain rfl := Option.mem_unique hr' hr1'
      exact hword'.symm.trans hword

/-- All runs have bound the same names. -/
theorem State.Tracks.find? {s : State} (h : s0.Tracks s) (h' : s0.Tracks t) (name : String) :
    Option.Rel (fun b b' => s.scopes.find? 0 name = some b ∧ t.scopes.find? 0 name = some b')
      (s.scopes.find? 0 name) (t.scopes.find? 0 name) := by
  have hname := h.names name
  have hname' := h'.names name
  generalize s0.scopes.find? 0 name = k, s.scopes.find? 0 name = b, t.scopes.find? 0 name = b' at hname hname'
  cases hname with
  | none =>
    cases hname' with
    | none => exact .none
  | some =>
    cases hname' with
    | some => exact .some ⟨rfl,rfl⟩

lemma ScopeTree.name_eq_of_find? {t : ScopeTree} {c c' : ScopeId} {name' : String}
    (h : t.find? c name = some b) (h' : t.find? c' name' = some b) : name = name' := by
  obtain ⟨⟨x,hx,-,rfl⟩,-⟩ := find?_eq_some_iff.1 h
  obtain ⟨⟨x',hx',-,rfl⟩,-⟩ := find?_eq_some_iff.1 h'
  rw [Option.mem_unique hx hx']

lemma referent?_run_constantWithin (n : Nat) {type : Option Ty}
    {stage : ConstStage} {d : ConstDecl} (hr : t.referent? b = some (.const type stage)) (hd : t.constants[b]? = some d) :
    ((constantWithin (n + 1) b).run t).2.referent? b ≠ some .declaredConst := by
  obtain ⟨x,hx,hreferent⟩ := Option.map_eq_some_iff.1 hr
  have hmarked (u : State) {f : Referent → Referent} (hf : Referent.ConstChange f) :
      (u.marked b f).referent? b ≠ some .declaredConst := by
    rw [referent?_marked, if_pos rfl]
    intro hpending
    obtain ⟨r,-,hfr⟩ := Option.map_eq_some_iff.1 hpending
    exact hf.ne_pending r none hfr
  rw [constantWithin]
  cases stage with
  | done v =>
    rw [run_evaluateWith_done hx hreferent, hr]
    simp [Referent.declaredConst]
  | inProgress =>
    rw [run_evaluateWith_blocked hx hreferent (.inl rfl), hr]
    simp [Referent.declaredConst]
  | failed =>
    rw [run_evaluateWith_blocked hx hreferent (.inr rfl), hr]
    simp [Referent.declaredConst]
  | pending =>
    -- whatever the evaluation ends with, its last step notes the outcome
    rw [run_evaluateWith_pending hx hreferent hd, run_evaluateFresh]
    generalize (evaluateDecl (fun id => constantWithin n id) x.scope d).run (t.begun b) = outcome
    obtain ⟨result,u⟩ := outcome
    cases result with
    | ok v => exact hmarked u (.concluded v.type (by simp))
    | error e =>
      cases e with
      | error e => exact hmarked (u.step (.reported e)) (.concluded .error (by simp))
      | blocked => exact hmarked (u.step .dropped) (.concluded .error (by simp))

/-! ## States at rest -/

/-- What the names of a module are bound to. -/
abbrev View := String → Referent

/-- A module whose names were bound. -/
structure Hoisted where
  /-- A state in which nothing was examined yet. -/
  state : State
  decls : List Decl
  ids : ((decls.flatMap Decl.nodes).map Node.id).Nodup
  names : (decls.map Decl.name).Nodup
  unevaluated : state.Unevaluated
  named : ∀ name k, state.scopes.find? 0 name = some k → ∃ d ∈ decls, d.name = name ∧ state.referent? k = some d.referent

namespace Hoisted

variable {H : Hoisted} {V V' : View} {base base' : List String} {todo todo' : List Decl}
  {s s' t : State} {d : Decl} {name : String} {b : BindingId} {r : Referent}

/-- The check of the module is at rest. The view tells what names are bound to that are no constants, and the
declarations in `todo` were not examined yet. -/
structure Rests (H : Hoisted) (V : View) (base : List String) (todo : List Decl) (s : State) : Prop where
  intact : s.scopes.Intact
  current : s.scopes.current = 0
  results : s.resultTypes = []
  /-- Apart from the errors in `base`, those were reported that constants lead to. -/
  steady : H.state.Steady s base
  suits : ∀ d ∈ H.decls, d.Fits (V d.name) ∧ (V d.name).Alike (fun _ => True) (fun _ => True) (V d.name)
  view : ∀ name r, s.global? name = some r → r.isConst = false → V name = r
  accepted : ∀ d ∈ H.decls, s.introduces[d.id]? = s.scopes.find? 0 d.name
  fresh : ∀ d ∈ todo, ∀ e Γ, (Node.decl e, Γ) ∈ d.inside → s.introduces[e.id]? = none
  evaluated : ∀ c, Decl.const c ∈ H.decls → Decl.const c ∉ todo → s.global? c.name ≠ some .declaredConst

lemma decl_eq_of_name (H : Hoisted) {d e : Decl} (hd : d ∈ H.decls) (he : e ∈ H.decls) (h : d.name = e.name) : d = e :=
  inj_on_of_nodup_map H.names hd he h

lemma id_ne_of_mem_inside (H : Hoisted) (hd : d ∈ H.decls) {n : Node} {Γ : Env} (hn : (n, Γ) ∈ d.inside) :
    (∀ e ∈ H.decls, n.id ≠ e.id) ∧ ∀ e ∈ H.decls, e ≠ d → ∀ n' Γ', (n', Γ') ∈ e.inside → n.id ≠ n'.id := by
  have hinside {e : Decl} {n : Node} {Γ : Env} (hn : (n, Γ) ∈ e.inside) : n.id ∈ e.nodes.map Node.id :=
    e.ids_inside_sublist.subset (mem_append_left _ (mem_map.2 ⟨(n, Γ),hn,rfl⟩))
  refine ⟨fun e he heq => ?_,fun e he hne n' Γ' hn' heq => ?_⟩
  · obtain rfl := eq_of_id_mem H.ids he hd e.id_mem_ids (heq ▸ hinside hn)
    have hnodup := e.ids_inside_sublist.nodup (nodup_of_mem H.ids he)
    exact disjoint_of_nodup_append hnodup (mem_map.2 ⟨(n, Γ),hn,rfl⟩) (mem_singleton.2 heq)
  · exact hne (eq_of_id_mem H.ids he hd (hinside hn') (heq ▸ hinside hn))

lemma nodup_inside (H : Hoisted) (hd : d ∈ H.decls) : (d.inside.map (·.1.id)).Nodup :=
  (d.ids_inside_sublist.nodup (nodup_of_mem H.ids hd)).of_append_left

namespace Rests

lemma exists_decl (h : H.Rests V base todo s) (hb : s.scopes.find? 0 name = some b) :
    ∃ d ∈ H.decls, d.name = name ∧ ∃ r, s.referent? b = some r ∧ r.word = d.referent.word := by
  have hname := h.steady.tracks.names name
  rw [hb] at hname
  generalize hk : H.state.scopes.find? 0 name = k at hname
  cases hname with
  | some hmirrors =>
    obtain ⟨d,hd,hdname,hr⟩ := H.named name _ hk
    obtain ⟨r0,r,hr0,hr',hword⟩ := hmirrors.word
    obtain rfl := Option.mem_unique hr hr0
    exact ⟨d,hd,hdname,r,hr',hword.symm⟩

lemma referent?_eq (h : H.Rests V base todo s) (hd : d ∈ H.decls)
    (hconst : d.referent.isConst = false) (hb : s.scopes.find? 0 d.name = some b) : s.referent? b = some (V d.name) := by
  obtain ⟨e,he,hname,r,hr,hword⟩ := h.exists_decl hb
  obtain rfl := H.decl_eq_of_name he hd hname
  have hglobal : s.global? e.name = some r := (State.global?_eq_some hb).trans hr
  rw [hr, h.view _ r hglobal ((Referent.isConst_eq_of_word hword).trans hconst)]

lemma of_perm (h : H.Rests V base todo s) (hperm : base.Perm base') : H.Rests V base' todo s :=
  { h with steady := h.steady.of_perm hperm }

lemma append_perm {codes codes' : List String} (h : H.Rests V (base ++ codes) todo s)
    (h' : H.Rests V' (base ++ codes') todo' s) : codes.Perm codes' :=
  (perm_append_left_iff base).1 (h.steady.perm h'.steady)

/-- The check is at rest after an examination that has changed at most what `own` is bound to. -/
theorem since {L : List (Node × Env)} {own : Option BindingId} (h : H.Rests V base todo s)
    (hsince : Start.Since ⟨s,base,own⟩ L t) (hsteady : H.state.Steady t base')
    (hcurrent : t.scopes.current = 0) (hresults : t.resultTypes = []) (hsuits : ∀ d ∈ H.decls, d.Fits (V' d.name) ∧
      (V' d.name).Alike (fun _ => True) (fun _ => True) (V' d.name))
    (hown : ∀ b ∈ own, ∃ d ∈ H.decls, d.referent.isConst = false ∧ s.scopes.find? 0 d.name = some b ∧
      t.referent? b = some (V' d.name)) (hsame : ∀ name, (∀ b ∈ own, s.scopes.find? 0 name ≠ some b) → V' name = V name)
    (htodo : ∀ e ∈ todo', e ∈ todo)
    (hdone : ∀ c, Decl.const c ∈ todo → Decl.const c ∉ todo' → t.global? c.name ≠ some .declaredConst)
    (hL : ∀ e Γ, (Node.decl e, Γ) ∈ L → (∀ f ∈ H.decls, e.id ≠ f.id) ∧
      ∀ f ∈ todo', ∀ e' Γ', (Node.decl e', Γ') ∈ f.inside → e.id ≠ e'.id) : H.Rests V' base' todo' t := by
  -- what a name is bound to afterwards, unless it is the one that may have changed
  have hkept {name : String} {b : BindingId} (hb : s.scopes.find? 0 name = some b) (hne : b ∉ own) :
      ∃ r r', s.referent? b = some r ∧ t.referent? b = some r' ∧ (r ≠ .declaredConst → r' = r) ∧ r'.isConst = r.isConst := by
    obtain ⟨-,-,-,r,hr,-⟩ := h.exists_decl hb
    cases hr' : t.referent? b with
    | none => cases hr.symm.trans (hsince.grown b hr')
    | some r' =>
      have hglobal := (State.global?_eq_some hb).trans hr
      have hglobal' := (State.global?_eq_some ((hsince.find? name).trans hb)).trans hr'
      refine ⟨r,r',hr,rfl,fun hne' => ?_,Referent.isConst_eq_of_word (h.steady.tracks.word_eq hsteady.tracks hglobal hglobal')⟩
      exact Option.mem_unique hr' (hsince.kept b r hr hne' hne)
  refine ⟨hsince.intact,hcurrent,hresults,hsteady,hsuits,fun name r hr hnc => ?_,fun e he => ?_,
    fun f hf e Γ he => ?_,fun c hc htodo' hpending => ?_⟩
  · obtain ⟨b,hb,hrb⟩ := Option.bind_eq_some_iff.1 hr
    rw [hsince.find?] at hb
    by_cases hb' : b ∈ own
    · obtain ⟨d,-,-,hbd,hview⟩ := hown b hb'
      rw [name_eq_of_find? hb hbd]
      exact Option.mem_unique hview hrb
    · obtain ⟨r1,r',hr1,hr',heq,hsame'⟩ := hkept hb hb'
      obtain rfl := Option.mem_unique hrb hr'
      rw [hnc] at hsame'
      obtain rfl := heq fun hconst => by rw [hconst] at hsame'; cases hsame'
      rw [hsame name fun a ha hba => hb' (Option.mem_unique hb hba ▸ ha)]
      exact h.view name _ ((State.global?_eq_some hb).trans hr1) hnc
  · rw [hsince.find?, hsince.introduces e.id fun e' Γ he' => (hL e' Γ he').1 e he]
    exact h.accepted e he
  · rw [hsince.introduces e.id fun e' Γ' he' => (hL e' Γ' he').2 f hf e Γ he]
    exact h.fresh f (htodo f hf) e Γ he
  · by_cases hmem : Decl.const c ∈ todo
    · exact hdone c hmem htodo' hpending
    obtain ⟨b,hb,hr⟩ := Option.bind_eq_some_iff.1 hpending
    rw [hsince.find?] at hb
    have hb' : b ∉ own := by
      intro hb'
      obtain ⟨d,hd,hconst,hbd,-⟩ := hown b hb'
      obtain rfl := H.decl_eq_of_name hc hd (name_eq_of_find? hb hbd)
      cases hconst
    obtain ⟨r1,r',hr1,hr',heq,-⟩ := hkept hb hb'
    obtain rfl := Option.mem_unique hr hr'
    have hold : r1 ≠ .declaredConst := by
      rintro rfl
      exact h.evaluated c hc hmem ((State.global?_eq_some hb).trans hr1)
    exact hold (heq hold).symm

lemma constant {c : ConstDecl} (h : H.Rests V base (.const c :: todo) s) (hc : Decl.const c ∈ H.decls) :
    H.Rests V base todo ((reported (Decl.const c).check).run s).2 := by
  have hself (htodo : s.global? c.name ≠ some .declaredConst) : H.Rests V base todo s := by
    refine { h with fresh := fun d hd => h.fresh d (.tail _ hd), evaluated := fun e he hne => ?_ }
    by_cases heq : e = c
    · rw [heq]
      exact htodo
    · refine h.evaluated e he fun hmem => ?_
      rcases mem_cons.1 hmem with hmem | hmem
      · exact heq (Decl.const.inj hmem)
      · exact hne hmem
  have haccepted : s.introduces[c.id]? = s.scopes.find? 0 c.name := h.accepted _ hc
  rw [run_reported, Decl.check, run_ifAccepted, haccepted]
  cases hb : s.scopes.find? 0 c.name with
  | none =>
    refine hself ?_
    rw [State.global?, hb]
    simp
  | some b =>
    obtain ⟨e,he,hname,r,hr,hword⟩ := h.exists_decl hb
    obtain rfl := H.decl_eq_of_name he hc hname
    cases r with
    | var | func => simp [Referent.word, Decl.referent, Referent.declaredConst] at hword
    | const type stage =>
      obtain ⟨t0,l,codes,hrun,hsettles0,hsteady⟩ :=
        h.steady.constantWithin H.unevaluated hb hr (bounded_size s)
      obtain ⟨t,hcheck,hnoted⟩ : ∃ t, (reportOutcome ((constDecl b).run s).1).run ((constDecl b).run s).2 = ((), t) ∧
          t0.Noted t := by
        rw [constDecl, Check.run_bind, run_constantValue, hrun]
        cases H.state.verdict c.name with
        | some v => exact ⟨t0,rfl,rfl,rfl,rfl,rfl,rfl⟩
        | none => exact ⟨_,rfl,t0.noted_step rfl⟩
      rw [hcheck]
      have hsettles := hsettles0.noted hnoted
      have hsince := (Start.Since.refl (a := ⟨s,base,none⟩) (L := []) h.intact).settles hsettles
      refine h.since hsince ((hsteady base h.steady).noted hnoted) (hsettles.current.trans h.current)
        (hsettles.resultTypes.trans h.results) h.suits (by simp) (fun _ _ => rfl)
        (fun e he => .tail _ he) (fun e hmem hne => ?_) (by simp)
      obtain rfl : e = c := by
        rcases mem_cons.1 hmem with heq | hmem
        · exact Decl.const.inj heq
        · exact absurd hmem hne
      obtain ⟨-,d,-,-,hd⟩ := h.steady.tracks.exists_decl H.unevaluated hb hr
      rw [State.global?_eq_some ((hsettles.find? 0 _).trans hb)]
      have hevaluated := referent?_run_constantWithin s.scopes.bindings.size hr hd
      rw [hrun] at hevaluated
      rw [Findings.referent?, hnoted.scopes]
      exact hevaluated

end Rests

end Hoisted

/-! ## Two runs at rest -/

/-- What two runs at rest have in common: the scope around everything, and the names of the module. -/
def Ties.outset (s s' : State) : Ties where
  scopes c c' := c = 0 ∧ c' = 0
  bindings b b' := ∃ name, s.scopes.find? 0 name = some b ∧ s'.scopes.find? 0 name = some b'
  declares _ _ _ := False
  here := (0, 0)
  outer := []
  results := []

lemma ScopeTree.Intact.parent?_zero {t : ScopeTree} (h : t.Intact) : t.parent? 0 = none := by
  cases hp : t.parent? 0 with
  | none => rfl
  | some p => exact absurd (h.parents 0 p hp) (Nat.not_lt_zero p)

namespace Hoisted.Rests

variable {H : Hoisted} {V : View} {base base' : List String} {todo todo' : List Decl} {s s' : State} {d : Decl}

lemma paired (h : H.Rests V base todo s) (h' : H.Rests V base' todo' s') (L : List (Node × Env))
    {b' : BindingId} (hb : (Ties.outset s s').bindings b b') : Paired L (Ties.outset s s') s s' b b' := by
  obtain ⟨name,hb,hb'⟩ := hb
  obtain ⟨e,he,rfl,r,hr,hword⟩ := h.exists_decl hb
  obtain ⟨e',he',hname,r',hr',hword'⟩ := h'.exists_decl hb'
  obtain rfl := H.decl_eq_of_name he' he hname
  cases hconst : e'.referent.isConst with
  | true =>
    have hrc := (Referent.isConst_eq_of_word hword).trans hconst
    have hrc' := (Referent.isConst_eq_of_word hword').trans hconst
    cases r with
    | var | func => cases hrc
    | const type stage =>
      cases r' with
      | var | func => cases hrc'
      | const type' stage' => exact .constant hb hb' hr hr'
  | false =>
    obtain ⟨⟨x,hx,hscope,-⟩,-⟩ := find?_eq_some_iff.1 hb
    obtain ⟨⟨x',hx',hscope',-⟩,-⟩ := find?_eq_some_iff.1 hb'
    have hview : x.referent = V e'.name := Option.some.inj ((State.referent?_eq_some hx).symm.trans (h.referent?_eq he hconst hb))
    have hview' : x'.referent = V e'.name := Option.some.inj
      ((State.referent?_eq_some hx').symm.trans (h'.referent?_eq he hconst hb'))
    have hnc : x.referent.isConst = false := by
      rw [Option.mem_unique (State.referent?_eq_some hx) hr]
      exact (Referent.isConst_eq_of_word hword).trans hconst
    refine .shared ⟨hx,hx',⟨hscope,hscope'⟩,hview'.trans hview.symm,?_,fun type hpending => ?_,fun hc => ?_⟩
    · rw [hview]
      exact (h.suits e' he).2
    · rw [hpending] at hnc
      cases hnc
    · rw [hnc] at hc
      cases hc

/-- Two runs at rest with one view may examine a declaration side by side. -/
theorem twin (h : H.Rests V base (d :: todo) s) (h' : H.Rests V base' (d :: todo') s') (own own' : Option BindingId) :
    Setting.Twin ⟨H.state,d.inside,⟨s,base,own⟩,⟨s',base',own'⟩⟩ (Ties.outset s s') s s' where
  left := .refl h.intact
  right := .refl h'.intact
  steady := ⟨[],by rw [append_nil]; exact h.steady,by rw [append_nil]; exact h'.steady⟩
  lawful := by
    refine ⟨?_,?_,fun hd => hd.elim,⟨rfl,rfl⟩,?_⟩
    · rintro c c' e e' ⟨rfl,rfl⟩ ⟨rfl,rfl⟩
      exact iff_of_true rfl rfl
    · -- bindings of one name correspond
      rintro b b' e e' ⟨name,hb,hb'⟩ ⟨name',he,he'⟩
      constructor
      · rintro rfl
        obtain rfl := name_eq_of_find? hb he
        exact Option.mem_unique hb' he'
      · rintro rfl
        obtain rfl := name_eq_of_find? hb' he'
        exact Option.mem_unique hb he
    · rintro x hx
      obtain rfl := mem_singleton.1 hx
      exact ⟨rfl,rfl⟩
  shares := by
    refine ⟨?_,?_,?_,?_,.singleton _⟩
    · rintro c c' ⟨rfl,rfl⟩
      exact ⟨h.current ▸ h.intact.current,h'.current ▸ h'.intact.current⟩
    · rintro c c' ⟨rfl,rfl⟩
      rw [h.intact.parent?_zero, h'.intact.parent?_zero]
      exact .none
    · rintro c c' ⟨rfl,rfl⟩ name
      exact optionRel_mono (fun b b' hb => ⟨name,hb⟩) (h.steady.tracks.find? h'.steady.tracks name)
    · rw [h.current, h'.current]
      rfl
  origin := fun b b' hb => .inl hb
  paired b b' hb := h.paired h' _ hb
  results := ⟨h.results,h'.results⟩
  introduces e Γ he := by
    rw [h.fresh d (.head _) e Γ he, h'.fresh d (.head _) e Γ he]
    exact .none
  declares _ _ _ hd := hd.elim

end Hoisted.Rests

end Opal
