import Opal.Proofs.RestingStates

/-!
# One declaration of a module, examined in two runs

Two runs at rest with one view of a module examine the same declaration with the same outcome.
-/

namespace Opal

open Coupling (InStep RunInStep)
open List

namespace Hoisted.Rests

variable {H : Hoisted} {V V' : View} {base base' : List String} {todo todo' : List Decl}
  {s s' t t' : State} {d : Decl} {own own' : Option BindingId} {b b' : BindingId} {w : Ties}

section

variable (h : H.Rests V base (d :: todo) s) (hd : d ∈ H.decls) (hconst : d.referent.isConst = false)
include h hd hconst

/-- A run is at rest again once it has examined a declaration and nothing else has changed. -/
theorem after (htodo : ∀ e ∈ todo, e ∈ H.decls ∧ e ≠ d) (hsince : Start.Since ⟨s,base,own⟩ d.inside t)
    (hsteady : H.state.Steady t base') (hcurrent : t.scopes.current = 0) (hresults : t.resultTypes = [])
    (hsuits : d.Fits (V' d.name) ∧ (V' d.name).Alike (fun _ => True) (fun _ => True) (V' d.name))
    (hown : ∀ b ∈ own, s.scopes.find? 0 d.name = some b ∧ t.referent? b = some (V' d.name))
    (hsame : ∀ name, name ≠ d.name ∨ own = none → V' name = V name) : H.Rests V' base' todo t := by
  refine h.since hsince hsteady hcurrent hresults (fun e he => ?_) (fun b hb => ?_) (fun name hname => ?_)
    (fun e he => .tail _ he) (fun c hmem hne => ?_) fun e Γ he => ⟨?_,fun f hf => ?_⟩
  · by_cases hname : e.name = d.name
    · rw [H.decl_eq_of_name he hd hname]
      exact hsuits
    · rw [hsame e.name (.inl hname)]
      exact h.suits e he
  · obtain ⟨hfind,hr⟩ := hown b hb
    exact ⟨d,hd,hconst,hfind,hr⟩
  · refine hsame name ?_
    cases hb : own with
    | none => exact .inr rfl
    | some b =>
      refine .inl fun heq => hname b hb ?_
      rw [heq]
      exact (hown b hb).1
  · rcases mem_cons.1 hmem with rfl | hmem
    · cases hconst
    · exact absurd hmem hne
  · exact (H.id_ne_of_mem_inside hd he).1
  · obtain ⟨hf,hne⟩ := htodo f hf
    exact fun e' Γ' => (H.id_ne_of_mem_inside hd he).2 f hf hne (.decl e') Γ'

lemma refused (htodo : ∀ e ∈ todo, e ∈ H.decls ∧ e ≠ d) : H.Rests V base todo s := by
  have hsince : Start.Since ⟨s,base,none⟩ d.inside s := .refl h.intact
  exact h.after hd hconst htodo hsince h.steady h.current h.results (h.suits d hd) (by simp) fun _ _ => rfl

end

lemma shared (h : H.Rests V base todo s) (hd : d ∈ H.decls) (hconst : d.referent.isConst = false)
    (hb : s.scopes.find? 0 d.name = some b) (htwin : Setting.Twin ⟨H.state,d.inside,⟨s,base,own⟩,⟨s',base',own'⟩⟩ w t t')
    (htied : w.bindings b b') : ∃ x x', Shared d.inside w t t' b b' x x' ∧ x.referent.word = d.referent.word := by
  obtain ⟨codes,hsteady,-⟩ := htwin.steady
  obtain ⟨x,x',hx,-⟩ := (htwin.paired b b' htied).exists_bindings
  obtain ⟨e,he,hname,r,hr,hword⟩ := h.exists_decl hb
  obtain rfl := H.decl_eq_of_name he hd hname
  have hfind : t.scopes.find? 0 e.name = some b := (htwin.left.find? _).trans hb
  have hword' : x.referent.word = e.referent.word := by
    rw [← hword]
    exact h.steady.tracks.word_eq hsteady.tracks ((State.global?_eq_some hb).trans hr)
      ((State.global?_eq_some hfind).trans (State.referent?_eq_some hx))
  cases htwin.paired b b' htied with
  | constant _ _ hr _ =>
    have hx' := Option.mem_unique (State.referent?_eq_some hx) hr
    rw [hx'] at hword'
    rw [← Referent.isConst_eq_of_word hword'] at hconst
    cases hconst
  | shared hshared =>
    obtain rfl := Option.mem_unique hx hshared.left
    exact ⟨_,_,hshared,hword'⟩

/-- Two runs at rest examine a function with the same errors, and their view of the module stays as it is. -/
theorem funDecls {f : FunDecl} (h : H.Rests V base (.func f :: todo) s)
    (h' : H.Rests V base' (.func f :: todo') s') (hf : Decl.func f ∈ H.decls)
    (htodo : ∀ e ∈ todo, e ∈ H.decls ∧ e ≠ .func f) (htodo' : ∀ e ∈ todo', e ∈ H.decls ∧ e ≠ .func f) :
    ∃ codes, H.Rests V (base ++ codes) todo ((reported (Decl.func f).check).run s).2 ∧
      H.Rests V (base' ++ codes) todo' ((reported (Decl.func f).check).run s').2 := by
  obtain ⟨id,name,nameSpan,params,ret,body,span⟩ := f
  rw [Decl.check, FunDecl.check, run_reported_ifAccepted, run_reported_ifAccepted,
    show s.introduces[id]? = s.scopes.find? 0 name from h.accepted _ hf,
    show s'.introduces[id]? = s'.scopes.find? 0 name from h'.accepted _ hf]
  have hname := h.steady.tracks.find? h'.steady.tracks name
  generalize hb : s.scopes.find? 0 name = o, hb' : s'.scopes.find? 0 name = o' at hname
  cases hname with
  | none =>
    refine ⟨[],?_,?_⟩
    · rw [append_nil]
      exact h.refused hf rfl htodo
    · rw [append_nil]
      exact h'.refused hf rfl htodo'
  | @some b b' =>
    let d : Decl := .func ⟨id,name,nameSpan,params,ret,body,span⟩
    let S : Setting := ⟨H.state,d.inside,⟨s,base,none⟩,⟨s',base',none⟩⟩
    let K := S.twins H.unevaluated (H.nodup_inside hf)
    have htied : (Ties.outset s s').bindings b b' := ⟨name,hb,hb'⟩
    have hhere : K.Here (Ties.outset s s') (body.located (params.map Param.declarator)) :=
      ⟨[],⟨rfl,rfl⟩,fun x hx => hx⟩
    have hstep : K.Follows (Ties.outset s s') (funDecl params body.check b) (funDecl params body.check b') := by
      refine funDecl_inStep (body.check_inStep hhere) ?_
      rintro u u' ⟨htwin,-⟩
      obtain ⟨r,r',hr,hr',halike⟩ := htwin.alike htied
      refine ⟨r,r',hr,hr',halike,?_⟩
      rintro t formals rfl ht
      -- the function has had its signature since before
      have hold : s.referent? b = some (V name) := h.referent?_eq hf rfl hb
      obtain ⟨⟨t0,params0,hV,harity⟩,-⟩ := h.suits d hf
      have hV : V name = .func t0 params0 := hV
      have hkept := htwin.left.kept b (V name) hold (by rw [hV]; simp [Referent.declaredConst]) (by simp)
      rw [hV] at hkept
      obtain ⟨rfl,rfl⟩ := Referent.func.inj (Option.mem_unique hr hkept)
      exact harity ht
    obtain ⟨w,hle,⟨htwin,-⟩,-⟩ := TreeCoupling.reported_inStep hstep s s' ⟨h.twin h' none none,trivial⟩
    obtain ⟨codes,hsteady,hsteady'⟩ := htwin.steady
    have hcurrent := htwin.shares.current.trans hle.here
    refine ⟨codes,?_,?_⟩
    · exact h.after hf rfl htodo htwin.left hsteady (congrArg Prod.fst hcurrent)
        (htwin.results.1.trans hle.results) (h.suits d hf) (by simp) fun _ _ => rfl
    · exact h'.after hf rfl htodo' htwin.right hsteady' (congrArg Prod.snd hcurrent)
        (htwin.results.2.trans hle.results) (h.suits d hf) (by simp) fun _ _ => rfl

/-- They examine a variable with the same errors, and agree on what has become of it. -/
theorem varDecls {v : VarDecl} (h : H.Rests V base (.var v :: todo) s)
    (h' : H.Rests V base' (.var v :: todo') s') (hv : Decl.var v ∈ H.decls)
    (htodo : ∀ e ∈ todo, e ∈ H.decls ∧ e ≠ .var v) (htodo' : ∀ e ∈ todo', e ∈ H.decls ∧ e ≠ .var v) :
    ∃ V' codes, H.Rests V' (base ++ codes) todo ((reported (Decl.var v).check).run s).2 ∧
      H.Rests V' (base' ++ codes) todo' ((reported (Decl.var v).check).run s').2 := by
  obtain ⟨id,name,nameSpan,mutable,type,init,span⟩ := v
  rw [Decl.check, VarDecl.check, run_reported_ifAccepted, run_reported_ifAccepted,
    show s.introduces[id]? = s.scopes.find? 0 name from h.accepted _ hv,
    show s'.introduces[id]? = s'.scopes.find? 0 name from h'.accepted _ hv]
  have hname := h.steady.tracks.find? h'.steady.tracks name
  generalize hb : s.scopes.find? 0 name = o, hb' : s'.scopes.find? 0 name = o' at hname
  cases hname with
  | none =>
    refine ⟨V,[],?_,?_⟩
    · rw [append_nil]
      exact h.refused hv rfl htodo
    · rw [append_nil]
      exact h'.refused hv rfl htodo'
  | @some b b' =>
    let d : Decl := .var ⟨id,name,nameSpan,mutable,type,init,span⟩
    let S : Setting := ⟨H.state,d.inside,⟨s,base,some b⟩,⟨s',base',some b'⟩⟩
    let K := S.twins H.unevaluated (H.nodup_inside hv)
    have htied : (Ties.outset s s').bindings b b' := ⟨name,hb,hb'⟩
    have hshared {w : Ties} {t t' : State} (hle : (Ties.outset s s').Le w) (htwin : S.Twin w t t') :
        ∃ x x', Shared d.inside w t t' b b' x x' ∧ d.Fits x.referent := by
      obtain ⟨x,x',hx,hword⟩ := h.shared hv rfl hb htwin (hle.bindings b b' htied)
      refine ⟨x,x',hx,?_⟩
      cases hr : x.referent with
      | var => rfl
      | const | func => rw [hr] at hword; simp [Referent.word, Decl.referent, Referent.declaredVar] at hword
    have hstep : K.InStep (Ties.outset s s') (varDecl name type init.operand b)
        (varDecl name type init.operand b') fun _ _ _ => True := by
      refine varDecl_inStep name ⟨[],⟨rfl,rfl⟩,fun x hx => mem_append_left _ hx⟩
        (init.operand_inStep ⟨[],⟨rfl,rfl⟩,fun x hx => mem_append_right _ hx⟩) ?_
      rintro w1 f hle hf t t' ⟨htwin,-⟩
      obtain ⟨x,x',hx,hfits⟩ := hshared hle htwin
      obtain ⟨hword,halike,hconst,-⟩ := Setting.Twin.alike_varChange hf hfits
      refine ⟨w1,.refl w1,⟨?_,trivial⟩,trivial⟩
      refine htwin.marked (hle.bindings b b' htied) hx (.inr rfl) (.inr rfl) hword halike (fun type heq => ?_) fun e he => ?_
      · rw [heq] at hconst
        cases hconst
      · -- the variable was bound before, by no declaration inside
        obtain ⟨-,hnew,-⟩ := htwin.declares e b b' he
        cases hnew.symm.trans (h.referent?_eq hv rfl hb)
    obtain ⟨w,hle,⟨htwin,-⟩,-⟩ :=
      TreeCoupling.reported_inStep hstep s s' ⟨h.twin h' (some b) (some b'),trivial⟩
    obtain ⟨codes,hsteady,hsteady'⟩ := htwin.steady
    obtain ⟨x,x',hx,hfits⟩ := hshared hle htwin
    have hcurrent := htwin.shares.current.trans hle.here
    have hself : Function.update V name x.referent name = x.referent := Function.update_self ..
    have hsuits : d.Fits (Function.update V name x.referent name) ∧
        (Function.update V name x.referent name).Alike (fun _ => True) (fun _ => True)
          (Function.update V name x.referent name) := by
      rw [hself]
      exact ⟨hfits,hx.alike⟩
    have hsame (n : String) (hn : n ≠ name) : Function.update V name x.referent n = V n :=
      Function.update_of_ne hn ..
    refine ⟨Function.update V name x.referent,codes,?_,?_⟩
    · refine h.after hv rfl htodo htwin.left hsteady (congrArg Prod.fst hcurrent)
        (htwin.results.1.trans hle.results) hsuits ?_ fun n hn => hsame n (hn.resolve_right (by simp))
      rintro _ ⟨⟩
      refine ⟨hb,(State.referent?_eq_some hx.left).trans (congrArg some hself.symm)⟩
    · refine h'.after hv rfl htodo' htwin.right hsteady' (congrArg Prod.snd hcurrent)
        (htwin.results.2.trans hle.results) hsuits ?_ fun n hn => hsame n (hn.resolve_right (by simp))
      rintro _ ⟨⟩
      exact ⟨hb',(State.referent?_eq_some hx.right).trans (congrArg some (hx.referent.trans hself.symm))⟩

end Hoisted.Rests

end Opal
