import Opal.Proofs.LazyConstants

/-!
# Steady states

In a steady state no constant is in progress, and one error was reported for each group of constants that failed, next to those
that have nothing to do with constants.
-/

namespace Opal

open List Option

variable {x : Binding} {stage : ConstStage} {type : Option Ty}

namespace State

/-- No constant of the module is in progress. Apart from the errors in `base`, those were reported that the constants
which failed lead to. -/
structure Steady (s0 t : State) (base : List String) : Prop where
  tracks : s0.Tracks t
  quiet : ∀ name, ¬ t.InProgress name
  closed : ∀ x y, t.Failed x → s0.causes.waits x = some y → t.Failed y
  tally : ∃ R, s0.causes.Culprits t.Failed R ∧ t.codes.Perm (base ++ R.flatMap s0.causes.codes)

/-- Nothing happened to the constants of the module. -/
structure Alongside (t t' : State) : Prop where
  find? : ∀ name, t'.scopes.find? 0 name = t.scopes.find? 0 name
  constants : ∀ name b, t.scopes.find? 0 name = some b → t'.constants[b]? = t.constants[b]?
  referents : ∀ name b, t.scopes.find? 0 name = some b → ∃ r r', t.referent? b = some r ∧
    t'.referent? b = some r' ∧ r'.word = r.word ∧ (r.isConst = true → r' = r)

section Lemmas

variable {s0 t t' : State} {base base' l codes : List String} {name : String} {b : BindingId} {r : Referent}

section

variable (h : s0.Steady t base)
include h

lemma Steady.of_perm (hperm : base.Perm base') : s0.Steady t base' := by
  obtain ⟨R,hR,hcodes⟩ := h.tally
  exact { h with tally := ⟨R,hR,hcodes.trans (hperm.append_right _)⟩ }

lemma Steady.perm (h' : s0.Steady t base') : base.Perm base' := by
  obtain ⟨R,hR,hcodes⟩ := h.tally
  obtain ⟨R',hR',hcodes'⟩ := h'.tally
  have hsame := (hcodes.symm.trans hcodes').trans ((hR'.perm hR).append_left base')
  exact (perm_append_right_iff _).1 hsame

lemma Steady.codes_perm (h' : s0.Steady t' base) (hfailed : t'.Failed = t.Failed) : t'.codes.Perm t.codes := by
  obtain ⟨R,hR,hcodes⟩ := h.tally
  obtain ⟨R',hR',hcodes'⟩ := h'.tally
  rw [hfailed] at hR'
  exact (hcodes'.trans ((hR'.perm hR).append_left base)).trans hcodes.symm

/-- Constants of the module were evaluated, of which those in `l` failed. -/
theorem Steady.settles (hsettles : s0.Settles t l codes t') {R : List String}
    (hR : s0.causes.Culprits (fun y => t.Failed y ∨ y ∈ l) R) (hcodes : t'.codes.Perm (base ++ R.flatMap s0.causes.codes))
    (hclosed : ∀ y z, t.Failed y ∨ y ∈ l → s0.causes.waits y = some z → t.Failed z ∨ z ∈ l) : s0.Steady t' base := by
  have hfailed : t'.Failed = fun y => t.Failed y ∨ y ∈ l :=
    funext fun y => propext hsettles.failed_iff
  refine ⟨hsettles.tracks h.tracks,fun name hname => h.quiet name (hsettles.inProgress_iff.1 hname),?_,R,?_,hcodes⟩
  · rw [hfailed]
    exact hclosed
  · rw [hfailed]
    exact hR

lemma Steady.settles_nil (hsettles : s0.Settles t [] [] t') : s0.Steady t' base := by
  obtain ⟨R,hR,hcodes⟩ := h.tally
  refine h.settles hsettles (R := R) (hR.congr fun y => by simp) ?_ fun y z hy hz => ?_
  · rw [hsettles.codes, append_nil]
    exact hcodes
  · exact .inl (h.closed y z (by simpa using hy) hz)

end

/-- A constant has the value that the rules give it, whenever it is needed. -/
theorem Steady.constantWithin {m : Nat} (hs0 : s0.Unevaluated) (h : s0.Steady t base) (hb : t.scopes.find? 0 name = some b)
    (hr : t.referent? b = some (.const type stage)) (hm : Bounded m t) : ∃ t' l codes, (Opal.constantWithin m b).run t =
        ((match s0.verdict name with | some v => .ok v | none => .error .blocked), t') ∧
      s0.Settles t l codes t' ∧ ∀ base, s0.Steady t base → s0.Steady t' base := by
  have hglobal := (global?_eq_some hb).trans hr
  have hagrees := h.tracks.stages _ _ _ hglobal
  cases hverdict : s0.verdict name with
  | some v =>
    obtain ⟨n,hn⟩ := verdict_eq_some_iff.1 hverdict
    obtain ⟨t',hrun,hsettles⟩ := constantWithin_of_valueWithin hs0 n hn hb h.tracks hm fun q hq => absurd hq (h.quiet q)
    exact ⟨t',[],[],hrun,hsettles,fun _ h => h.settles_nil hsettles⟩
  | none =>
    obtain ⟨⟨x,hx,hscope,rfl⟩,-⟩ := ScopeTree.find?_eq_some_iff.1 hb
    have hreferent : x.referent = .const type stage :=
      mem_unique (referent?_eq_some hx) hr
    cases stage with
    | done v => cases hagrees.2.symm.trans hverdict
    | inProgress =>
      obtain rfl : type = none := hagrees
      exact absurd hglobal (h.quiet _)
    | failed =>
      obtain ⟨m,rfl⟩ := hm.exists_succ
      exact ⟨t,[],[],run_evaluateWith_blocked hx hreferent (.inr rfl) _,.refl s0 t,fun _ h => h⟩
    | pending =>
      obtain rfl : type = none := hagrees
      obtain ⟨t',l,codes,hrun,hsettles,hfails⟩ := constantWithin_fails hs0 m (P := []) hverdict
        ⟨hx,hscope,hreferent,hb⟩ h.tracks hm (fun q => by simp [h.quiet q]) nofun
      have hnew : ¬ t.Failed x.name := by
        rw [Failed, hglobal]
        simp
      refine ⟨t',l,codes,hrun,hsettles,fun base h => ?_⟩
      obtain ⟨R,hR,hcodes⟩ := h.tally
      obtain ⟨⟨R',hR',hperm⟩,hclosed⟩ := hR.fails h.closed hnew hfails
      refine h.settles hsettles hR' ?_ hclosed
      rw [hsettles.codes]
      refine (hcodes.append_right codes).trans ?_
      rw [append_assoc]
      exact hperm.symm.append_left base

/-! ### Other steps -/

lemma Alongside.global?_const_iff (h : t.Alongside t') :
    t'.global? name = some (.const type stage) ↔ t.global? name = some (.const type stage) := by
  unfold global?
  rw [h.find?]
  cases hb : t.scopes.find? 0 name with
  | none => exact .rfl
  | some b =>
    obtain ⟨r,r',hr,hr',hword,hconst⟩ := h.referents name b hb
    simp only [bind_some, hr, hr', Option.some.injEq]
    constructor
    · rintro rfl
      cases r with
      | const => rw [hconst rfl]
      | var | func => simp [Referent.word] at hword
    · rintro rfl
      exact hconst rfl

lemma Steady.beside (h : s0.Steady t base) (hstep : t.Alongside t')
    (hcodes : ∀ l, t.codes.Perm (base ++ l) → t'.codes.Perm (base' ++ l)) : s0.Steady t' base' := by
  have hfailed : t'.Failed = t.Failed := funext fun _ => propext hstep.global?_const_iff
  refine ⟨⟨fun name => ?_,fun name type stage hr => ?_⟩,fun name hname => ?_,?_,?_⟩
  · have hname := h.tracks.names name
    rw [hstep.find?]
    generalize s0.scopes.find? 0 name = k, hb : t.scopes.find? 0 name = b at hname
    cases hname with
    | none => exact .none
    | @some k b hmirrors =>
      obtain ⟨⟨r0,r,hr0,hr,hword⟩,hconst⟩ := hmirrors
      obtain ⟨r1,r',hr1,hr',hword',-⟩ := hstep.referents name b hb
      obtain rfl := mem_unique hr hr1
      exact .some ⟨⟨r0,r',hr0,hr',hword.trans hword'.symm⟩,(hstep.constants name b hb).trans hconst⟩
  · exact h.tracks.stages name type stage (hstep.global?_const_iff.1 hr)
  · exact h.quiet name (hstep.global?_const_iff.1 hname)
  · rw [hfailed]
    exact h.closed
  · obtain ⟨R,hR,hperm⟩ := h.tally
    exact ⟨R,hfailed ▸ hR,hcodes _ hperm⟩

lemma Steady.alongside (h : s0.Steady t base) (hstep : t.Alongside t')
    (herrors : t'.errors = t.errors) : s0.Steady t' base := by
  refine h.beside hstep fun l hl => ?_
  rwa [Findings.codes, herrors]

lemma alongside_of_bindings (hbindings : t'.scopes.bindings = t.scopes.bindings)
    (hconstants : t'.constants = t.constants) : t.Alongside t' where
  find? name := by
    unfold ScopeTree.find?
    rw [hbindings]
  constants _ b _ := by rw [hconstants]
  referents name b hb := by
    obtain ⟨⟨x,hx,-,-⟩,-⟩ := ScopeTree.find?_eq_some_iff.1 hb
    refine ⟨x.referent,x.referent,referent?_eq_some hx,referent?_eq_some ?_,rfl,fun _ => rfl⟩
    rw [hbindings]
    exact hx

lemma Steady.noted (h : s0.Steady t base) (hnoted : t.Noted t') : s0.Steady t' base :=
  h.alongside (alongside_of_bindings (by rw [hnoted.scopes]) hnoted.constants) hnoted.errors

lemma Steady.reported (h : s0.Steady t base) (e : SemanticError) :
    s0.Steady (t.step (.reported e)) (base ++ [e.cause.code]) := by
  refine h.beside (alongside_of_bindings rfl rfl) fun l hl => ?_
  rw [codes_reported, append_assoc]
  refine (hl.append_right _).trans ?_
  rw [append_assoc]
  exact perm_append_comm.append_left base

lemma alongside_marked {f : Referent → Referent} (hx : t.scopes.bindings[b]? = some x)
    (hf : x.scope = 0 → (f x.referent).word = x.referent.word ∧ x.referent.isConst = false) : t.Alongside (t.marked b f) where
  find? name := find?_marked t b f 0 name
  constants _ _ _ := rfl
  referents name a ha := by
    obtain ⟨⟨y,hy,hscope,-⟩,-⟩ := ScopeTree.find?_eq_some_iff.1 ha
    have hr := referent?_eq_some hy
    by_cases hab : b = a
    · subst hab
      obtain rfl := mem_unique hx hy
      obtain ⟨hword,hconst⟩ := hf hscope
      exact ⟨x.referent,f x.referent,hr,referent?_marked_self hr,hword,by simp [hconst]⟩
    · exact ⟨y.referent,y.referent,hr,(referent?_marked_of_ne hab).trans hr,rfl,fun _ => rfl⟩

lemma alongside_bound (hscope : x.scope ≠ 0) : t.Alongside (t.bound x) where
  find? name := by
    change (t.scopes.bind x).find? 0 name = _
    rw [ScopeTree.find?_bind, if_neg fun h => hscope h.1, or_none]
  constants _ _ _ := rfl
  referents name b hb := by
    obtain ⟨⟨y,hy,-,-⟩,-⟩ := ScopeTree.find?_eq_some_iff.1 hb
    have hr := referent?_eq_some hy
    exact ⟨y.referent,y.referent,hr,referent?_bound_of_some hr,rfl,fun _ => rfl⟩

end Lemmas

end State

end Opal
