import Mathlib.Logic.Function.Basic
import Opal.Proofs.ExaminedDeclarations

/-!
# Signatures of the functions of a module

The signature of a function depends on the constants of the module only, so two runs find the same one whatever they found
before.
-/

namespace Opal

open Coupling (InStep RunInStep)
open Option List

/-- States of two runs in the scope around everything. They may differ in what names are bound to, but the function of
which the signature is found is bound to the same. -/
structure Setting.Abreast (S : Setting) (f : FunDecl) (s s' : State) : Prop where
  left : S.left.Since S.nodes s
  right : S.right.Since S.nodes s'
  steady : ∃ codes, S.hoisted.Steady s (S.left.base ++ codes) ∧ S.hoisted.Steady s' (S.right.base ++ codes)
  current : s.scopes.current = 0 ∧ s'.scopes.current = 0
  results : s.resultTypes = [] ∧ s'.resultTypes = []
  own : ∀ b ∈ S.left.own, ∀ b' ∈ S.right.own, ∃ r, s.referent? b = some r ∧ s'.referent? b' = some r ∧ (Decl.func f).Fits r

lemma State.Settles.referent?_func {s0 s t : State} {l codes : List String} {b : BindingId} {type : Ty}
    {params : List Formal} (h : s0.Settles s l codes t) (hr : s.referent? b = some (.func type params)) :
    t.referent? b = some (.func type params) := by
  obtain ⟨x,hx,hreferent⟩ := map_eq_some_iff.1 hr
  obtain ⟨x',hx',hsettled⟩ := h.exists_binding hx
  rw [referent?_eq_some hx', hsettled.eq_of_ne (by rw [hreferent]; simp [Referent.declaredConst]), hreferent]

namespace Setting

variable {S : Setting} {f : FunDecl} {s s' t t' : State} {b b' : BindingId} {name : String}

namespace Abreast

section

variable (h : S.Abreast f s s')
include h

lemma noted (ht : s.Noted t) (ht' : s'.Noted t') : S.Abreast f t t' where
  left := h.left.of_bindings (ht.scopes ▸ h.left.intact) (by rw [ht.scopes]) ht.introduces
  right := h.right.of_bindings (ht'.scopes ▸ h.right.intact) (by rw [ht'.scopes]) ht'.introduces
  steady := by
    obtain ⟨codes,hsteady,hsteady'⟩ := h.steady
    exact ⟨codes,hsteady.noted ht,hsteady'.noted ht'⟩
  current := by
    rw [ht.scopes, ht'.scopes]
    exact h.current
  results := by
    rw [ht.resultTypes, ht'.resultTypes]
    exact h.results
  own b hb b' hb' := by
    simp only [Findings.referent?, ht.scopes, ht'.scopes]
    exact h.own b hb b' hb'

lemma ended (stop : Stop) : S.Abreast f (s.step stop.event) (s'.step stop.event) := by
  obtain ⟨codes,hsteady,hsteady'⟩ := h.steady
  cases stop with
  | error e =>
    refine ⟨h.left.of_bindings h.left.intact rfl rfl,h.right.of_bindings h.right.intact rfl rfl,
      ⟨codes ++ [e.cause.code],?_,?_⟩,h.current,h.results,h.own⟩
    · rw [← append_assoc]
      exact hsteady.reported e
    · rw [← append_assoc]
      exact hsteady'.reported e
  | blocked => exact h.noted (s.noted_step rfl) (s'.noted_step rfl)

lemma settles {l l' codes codes' : List String} (hs : S.hoisted.Settles s l codes t) (hs' : S.hoisted.Settles s' l' codes' t')
    (hsteady : ∀ base, S.hoisted.Steady s base → S.hoisted.Steady t base)
    (hsteady' : ∀ base, S.hoisted.Steady s' base → S.hoisted.Steady t' base) : S.Abreast f t t' where
  left := h.left.settles hs
  right := h.right.settles hs'
  steady := by
    obtain ⟨codes,hcodes,hcodes'⟩ := h.steady
    exact ⟨codes,hsteady _ hcodes,hsteady' _ hcodes'⟩
  current := ⟨hs.current.trans h.current.1,hs'.current.trans h.current.2⟩
  results := ⟨hs.resultTypes.trans h.results.1,hs'.resultTypes.trans h.results.2⟩
  own b hb b' hb' := by
    obtain ⟨_,hr,hr',type,params,rfl,harity⟩ := h.own b hb b' hb'
    exact ⟨_,hs.referent?_func hr,hs'.referent?_func hr',type,params,rfl,harity⟩

lemma marked (hb : S.left.own = some b) (hb' : S.right.own = some b') (type : Ty)
    {params : List Formal} (hparams : params.length = f.params.length) :
    S.Abreast f (s.marked b fun _ => .func type params) (s'.marked b' fun _ => .func type params) where
  left := h.left.marked (.inr hb)
  right := h.right.marked (.inr hb')
  steady := by
    obtain ⟨codes,hsteady,hsteady'⟩ := h.steady
    obtain ⟨_,hr,hr',_,_,rfl,-⟩ := h.own b hb b' hb'
    have halongside {u : State} {e : BindingId} {type' : Ty} {params' : List Formal}
        (he : u.referent? e = some (.func type' params')) :
        u.Alongside (u.marked e fun _ => .func type params) := by
      obtain ⟨x,hx,hreferent⟩ := map_eq_some_iff.1 he
      refine State.alongside_marked hx fun _ => ?_
      rw [hreferent]
      exact ⟨rfl,rfl⟩
    exact ⟨codes,hsteady.alongside (halongside hr) rfl,hsteady'.alongside (halongside hr') rfl⟩
  current := h.current
  results := h.results
  own e he e' he' := by
    obtain rfl := mem_unique hb he
    obtain rfl := mem_unique hb' he'
    obtain ⟨_,hr,hr',-⟩ := h.own b hb b' hb'
    exact ⟨_,referent?_marked_self hr,referent?_marked_self hr',type,params,rfl,fun _ => hparams⟩

lemma exists_akin (hb : s.scopes.find? 0 name = some b) (hb' : s'.scopes.find? 0 name = some b') :
    ∃ r r', s.referent? b = some r ∧ s'.referent? b' = some r' ∧ r.Akin r' := by
  obtain ⟨codes,hsteady,hsteady'⟩ := h.steady
  obtain ⟨⟨x,hx,-⟩,-⟩ := ScopeTree.find?_eq_some_iff.1 hb
  obtain ⟨⟨x',hx',-⟩,-⟩ := ScopeTree.find?_eq_some_iff.1 hb'
  have hr := State.referent?_eq_some hx
  have hr' := State.referent?_eq_some hx'
  have hword := hsteady.tracks.word_eq hsteady'.tracks ((State.global?_eq_some hb).trans hr)
    ((State.global?_eq_some hb').trans hr')
  refine ⟨x.referent,x'.referent,hr,hr',?_⟩
  generalize x.referent = r, x'.referent = r' at hr hr' hword
  cases r with
  | var =>
    cases r' with
    | var => exact .var ..
    | const | func => simp [Referent.word] at hword
  | const =>
    cases r' with
    | const => exact .const _ _ (iff_of_false (hsteady.ne_inProgress hb hr) (hsteady'.ne_inProgress hb' hr'))
    | var | func => simp [Referent.word] at hword
  | func =>
    cases r' with
    | func => exact .func ..
    | var | const => simp [Referent.word] at hword

end

end Abreast

/-- Two runs in the scope around everything that find the signature of a function. -/
def signatures (S : Setting) (f : FunDecl) (hs0 : S.hoisted.Unevaluated) : TypeCoupling where
  toCoupling := .ofRel (W := Unit) (fun _ _ => True) (fun _ => trivial) (fun _ _ => trivial) fun _ => S.Abreast f
  stands _ c c' _ := c = 0 ∧ c' = 0
  site _ _ := True
  stands_mono _ h := h
  begun id _ _ s s' h := ⟨(),trivial,h.noted (s.noted_step rfl) (s'.noted_step rfl)⟩
  typed id _ _ s s' h := ⟨(),trivial,h.noted (s.noted_step rfl) (s'.noted_step rfl)⟩
  built _ _ s s' h := ⟨(),trivial,h.noted (s.noted_step rfl) (s'.noted_step rfl),trivial⟩
  inSize size _ _ _ _ h := ⟨congrArg (Stop.inSize size) h.1,h.2⟩
  binding _ b b' := ∃ name, S.left.state.scopes.find? 0 name = some b ∧ S.right.state.scopes.find? 0 name = some b'
  find := by
    rintro w c c' id span name ⟨Γ,⟨rfl,rfl⟩,-⟩ s s' h
    obtain ⟨codes,hsteady,hsteady'⟩ := h.steady
    rw [run_findFrom, run_findFrom, ScopeTree.lookup, ScopeTree.lookup, ScopeTree.nearest?_zero, ScopeTree.nearest?_zero]
    have hname := hsteady.tracks.find? hsteady'.tracks name
    generalize hb : s.scopes.find? 0 name = o, hb' : s'.scopes.find? 0 name = o' at hname
    cases hname with
    | none => exact .stopped (Coupling.Uniform.stopped_refl _ h)
    | @some b b' =>
      have hnoted : s.Noted (s.resolved id b) := s.noted_step rfl
      have hnoted' : s'.Noted (s'.resolved id b') := s'.noted_step rfl
      exact .result (Coupling.le_refl _ w) (h.noted hnoted hnoted')
        ⟨name,(h.left.find? name).symm.trans hb,(h.right.find? name).symm.trans hb'⟩
  referent := by
    rintro w b b' s s' ⟨name,hb,hb'⟩ h
    exact h.exists_akin ((h.left.find? name).trans hb) ((h.right.find? name).trans hb')
  strict h := h
  stops h := h
  current _ := (0, 0)
  current_eq h := Prod.ext h.current.1 h.current.2
  current_mono _ := rfl
  constant := by
    rintro w b b' s s' type stage ⟨name,hb,hb'⟩ h hr
    have hfind := (h.left.find? name).trans hb
    have hfind' := (h.right.find? name).trans hb'
    obtain ⟨codes,hsteady,hsteady'⟩ := h.steady
    obtain ⟨r,r',hr1,hr',hakin⟩ := h.exists_akin hfind hfind'
    obtain rfl := mem_unique hr hr1
    cases hakin with
    | const =>
      obtain ⟨t,l,c,hrun,hsettles,hkeep⟩ := hsteady.constantWithin hs0 hfind hr (bounded_size s)
      obtain ⟨t',l',c',hrun',hsettles',hkeep'⟩ :=
        hsteady'.constantWithin hs0 hfind' hr' (bounded_size s')
      have h1 := h.settles hsettles hsettles' hkeep hkeep'
      rw [run_constantValue, run_constantValue, hrun, hrun']
      cases S.hoisted.verdict name with
      | some v => exact .result (Coupling.le_refl _ w) h1 rfl
      | none => exact .stopped (Coupling.Uniform.stopped_refl _ h1)

end Setting

namespace Hoisted.Rests

variable {H : Hoisted} {V V' : View} {base base' : List String} {todo todo' : List Decl}
  {s s' t : State} {f : FunDecl} {b b' : BindingId} {r : Referent}

lemma signed (h : H.Rests V base todo s) (hf : Decl.func f ∈ H.decls)
    (hb : s.scopes.find? 0 f.name = some b) (hsince : Start.Since ⟨s,base,some b⟩ [] t)
    (hsteady : H.state.Steady t base') (hcurrent : t.scopes.current = 0) (hresults : t.resultTypes = [])
    (hr : t.referent? b = some r) (hfits : (Decl.func f).Fits r) : H.Rests (Function.update V f.name r) base' todo t := by
  refine h.since hsince hsteady hcurrent hresults (fun d hd => ?_) ?_ (fun name hname => ?_)
    (fun e he => he) (fun c hmem hne => absurd hmem hne) (by simp)
  · by_cases hname : d.name = f.name
    · obtain rfl := H.decl_eq_of_name hd hf hname
      obtain ⟨type,params,rfl,harity⟩ := hfits
      rw [hname, Function.update_self]
      exact ⟨⟨type,params,rfl,harity⟩,.func (fun _ => trivial) fun _ _ => trivial⟩
    · rw [Function.update_of_ne hname]
      exact h.suits d hd
  · rintro _ ⟨⟩
    have hself : Function.update V f.name r f.name = r := Function.update_self ..
    exact ⟨.func f,hf,rfl,hb,hr.trans (congrArg some hself.symm)⟩
  · refine Function.update_of_ne (fun heq => hname b rfl ?_) ..
    rw [heq]
    exact hb

lemma signatures (h : H.Rests V base todo s) (h' : H.Rests V' base' todo' s')
    (hf : Decl.func f ∈ H.decls) (hV : V' f.name = V f.name) : ∃ r codes,
      (((reported (signature (.func f))).run s).2.global? f.name).getD (V f.name) = r ∧
      H.Rests (Function.update V f.name r) (base ++ codes) todo ((reported (signature (.func f))).run s).2 ∧
      H.Rests (Function.update V' f.name r) (base' ++ codes) todo' ((reported (signature (.func f))).run s').2 := by
  rw [signature, run_reported_ifAccepted, run_reported_ifAccepted,
    show s.introduces[f.id]? = s.scopes.find? 0 f.name from h.accepted _ hf,
    show s'.introduces[f.id]? = s'.scopes.find? 0 f.name from h'.accepted _ hf]
  have hname := h.steady.tracks.find? h'.steady.tracks f.name
  generalize hb : s.scopes.find? 0 f.name = o, hb' : s'.scopes.find? 0 f.name = o' at hname
  cases hname with
  | none =>
    refine ⟨V f.name,[],?_,?_,?_⟩
    · rw [State.global?, hb]
      rfl
    · rw [append_nil, Function.update_eq_self]
      exact h
    · rw [append_nil, ← hV, Function.update_eq_self]
      exact h'
  | @some b b' =>
    let S : Setting := ⟨H.state,[],⟨s,base,some b⟩,⟨s',base',some b'⟩⟩
    let K := S.signatures f H.unevaluated
    have hstart : S.Abreast f s s' := by
      refine ⟨.refl h.intact,.refl h'.intact,⟨[],?_,?_⟩,⟨h.current,h'.current⟩,⟨h.results,h'.results⟩,?_⟩
      · rw [append_nil]
        exact h.steady
      · rw [append_nil]
        exact h'.steady
      · rintro _ ⟨⟩ _ ⟨⟩
        refine ⟨V f.name,h.referent?_eq hf rfl hb,?_,(h.suits _ hf).1⟩
        rw [← hV]
        exact h'.referent?_eq hf rfl hb'
    have hstep : K.Follows () (learnSignature b f) (learnSignature b' f) := by
      refine learnSignature_inStep ⟨[],⟨rfl,rfl⟩,fun _ _ => trivial⟩ ?_
      rintro w params ret - hparams - - u u' habreast
      exact ⟨w,trivial,habreast.marked rfl rfl _ hparams,trivial⟩
    obtain ⟨w,-,habreast,-⟩ := RunInStep.reported K.strict K.stops
      (fun w stop _ _ habreast => ⟨w,trivial,Setting.Abreast.ended habreast stop⟩) hstep s s' hstart
    obtain ⟨codes,hsteady,hsteady'⟩ := habreast.steady
    obtain ⟨r,hr,hr',hfits⟩ := habreast.own b rfl b' rfl
    refine ⟨r,codes,?_,?_,?_⟩
    · rw [State.global?_eq_some ((habreast.left.find? _).trans hb), hr]
      rfl
    · exact h.signed hf hb habreast.left hsteady habreast.current.1 habreast.results.1 hr hfits
    · exact h'.signed hf hb' habreast.right hsteady' habreast.current.2 habreast.results.2 hr' hfits

/-- The signature of a function, and the errors in it, do not depend on when it is found. -/
theorem exists_signature (h : H.Rests V base todo s) (d : Decl) :
    ∃ r codes, d ∈ H.decls → ∀ V' base' todo' s', H.Rests V' base' todo' s' → V' d.name = V d.name →
      H.Rests (Function.update V' d.name r) (base' ++ codes) todo' ((reported (signature d)).run s').2 := by
  by_cases hd : ∃ f, d = .func f ∧ d ∈ H.decls
  · obtain ⟨f,rfl,hf⟩ := hd
    obtain ⟨r,codes,hr,hself,-⟩ := h.signatures h hf rfl
    refine ⟨r,codes,fun _ V' base' todo' s' h' hV => ?_⟩
    obtain ⟨r',codes',hr',hleft,hright⟩ := h.signatures h' hf hV
    obtain rfl : r = r' := hr.symm.trans hr'
    exact hright.of_perm ((hleft.append_perm hself).append_left base')
  · -- other declarations have no signatures
    refine ⟨V d.name,[],fun hmem V' base' todo' s' h' hV => ?_⟩
    have hnone : signature d = pure () := by
      cases d with
      | var | const => rfl
      | func f => exact absurd ⟨f,rfl,hmem⟩ hd
    rw [append_nil, ← hV, Function.update_eq_self, hnone]
    exact h'

end Hoisted.Rests

end Opal
