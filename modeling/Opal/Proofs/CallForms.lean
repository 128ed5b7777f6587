import Opal.Proofs.StorageLocations

/-!
# Calls that are written in another way

The order of the named arguments of a call does not matter. And a function all of whose parameters are anonymous can be called
by its name or through a variable.
-/

namespace Opal

open List Check

variable {bound : List ArgumentOperand} {function : String} {mutable : Bool} {id : NodeId} {expected : Option Ty}
    {s : State} {t : Ty}

variable {callee : Expr} {params : List Formal} {span : Span}

/-- The arguments stand in another order, but not those without a name. -/
structure Reordered (args args' : List ArgumentOperand) : Prop where
  perm : args'.Perm args
  inOrder : positional args' = positional args

lemma Reordered.bindArguments_eq_ok_iff {args args' : List ArgumentOperand} (h : Reordered args args') :
    bindArguments function params args' span = .ok bound ↔ bindArguments function params args span = .ok bound := by
  have hbound : Bound params args' bound ↔ Bound params args bound := by
    constructor
    · exact fun hb => ⟨hb.perm.trans h.perm,hb.length,hb.takes,hb.inOrder.trans h.inOrder⟩
    · exact fun hb => ⟨hb.perm.trans h.perm.symm,hb.length,hb.takes,hb.inOrder.trans h.inOrder.symm⟩
  rw [Opal.bindArguments_eq_ok_iff, Opal.bindArguments_eq_ok_iff, hbound]

/-! ## The order of arguments -/

/-- Where the first computation has a result, the second one has the same. -/
def Check.Refines {α : Type} (m m' : Check α) : Prop :=
  ∀ s a s1, m.run s = (.ok a, s1) → m'.run s = (.ok a, s1)

section Refines

variable {α β : Type}

lemma Check.Refines.bind {m : Check α} {f f' : α → Check β} (h : ∀ a, (f a).Refines (f' a)) : (m >>= f).Refines (m >>= f') := by
  intro s b s2 hrun
  obtain ⟨a,s1,hm,hf⟩ := run_bind_eq_ok.1 hrun
  exact run_bind_eq_ok.2 ⟨a,s1,hm,h a s1 b s2 hf⟩

lemma Check.Refines.refl (m : Check α) : m.Refines m :=
  fun _ _ _ h => h

end Refines

section Reordered

variable {args args' : List ArgumentOperand}

section

variable (h : Reordered args args')
include h

lemma Reordered.eq_of_positional (hargs : ∀ a ∈ args, a.name = none) : args' = args := by
  have hfilter {l : List ArgumentOperand} (hl : ∀ a ∈ l, a.name = none) : positional l = l :=
    filter_eq_self.2 fun a ha => by rw [hl a ha]; rfl
  calc args' = positional args' := (hfilter fun a ha => hargs a (h.perm.mem_iff.1 ha)).symm
    _ = positional args := h.inOrder
    _ = args := hfilter hargs

lemma Reordered.namedCall (name : String) (t : Ty) (params : List Formal) (span : Span) :
    (namedCall name t params args span).Refines (namedCall name t params args' span) := by
  cases t with
  | function ts ret =>
    intro s r s1 hrun
    obtain ⟨bound,s2,hbound,hrest⟩ := run_bind_eq_ok.1 hrun
    refine run_bind_eq_ok.2 ⟨bound,s2,?_,hrest⟩
    cases hargs : bindArguments name params args span with
    | error e =>
      rw [hargs] at hbound
      cases congrArg Prod.fst hbound
    | ok bound' =>
      rw [hargs] at hbound
      rw [h.bindArguments_eq_ok_iff.2 hargs]
      exact hbound
  | _ => exact .refl _

lemma Reordered.valueCall (callee : Operand) (span : Span) :
    (valueCall callee args span).Refines (valueCall callee args' span) := by
  refine .bind fun t => ?_
  cases t with
  | function ts ret =>
    cases hfind : args.find? (·.name.isSome) with
    | some a =>
      intro s r s1 hrun
      cases congrArg Prod.fst hrun
    | none =>
      have hargs : ∀ a ∈ args, a.name = none := fun a ha => by simpa using find?_eq_none.1 hfind a ha
      rw [h.eq_of_positional hargs, hfind]
      exact .refl _
  | _ => exact .refl _

lemma Reordered.callValue (callee : Operand) (span : Span) :
    (callValue callee args span).Refines (callValue callee args' span) := by
  unfold Opal.callValue
  generalize callee.expr.withoutParens = target
  obtain ⟨id,nameSpan,form⟩ := target
  cases form with
  | name name =>
    refine .bind fun b => .bind fun r => ?_
    cases r with
    | func _ params => exact .bind fun t => .bind fun _ => .bind fun _ => h.namedCall name t params span
    | var | const => exact h.valueCall callee span
  | _ => exact h.valueCall callee span

end

end Reordered

lemma argumentOperands_eq_map (args : List Argument) : argumentOperands args = args.map Argument.operand :=
  eq_map_of_cons rfl (fun _ _ => rfl) args

lemma Argument.name_operand (a : Argument) : a.operand.name = a.name := by
  obtain ⟨name,value,span⟩ := a
  rfl

lemma positional_argumentOperands (args : List Argument) :
    positional (argumentOperands args) = argumentOperands (args.filter (·.name.isNone)) := by
  rw [positional, argumentOperands_eq_map, argumentOperands_eq_map, filter_map]
  congr 2
  exact funext fun a => congrArg Option.isNone a.name_operand

/-- A call that is accepted has the same type when its arguments stand in another order. -/
theorem call_refines {args args' : List Argument} (hperm : args'.Perm args)
    (horder : args'.filter (·.name.isNone) = args.filter (·.name.isNone)) (callee : Expr) (id : NodeId) (span : Span)
    (expected : Option Ty) : ((⟨id,span,.call callee args⟩ : Expr).operand.value expected).Refines
      ((⟨id,span,.call callee args'⟩ : Expr).operand.value expected) := by
  have hargs : Reordered (argumentOperands args) (argumentOperands args') := by
    constructor
    · rw [argumentOperands_eq_map, argumentOperands_eq_map]
      exact hperm.map _
    · rw [positional_argumentOperands, positional_argumentOperands, horder]
  refine .bind fun _ s t s2 hrun => ?_
  obtain ⟨a,s1,hcall,hrest⟩ := run_bind_eq_ok.1 hrun
  exact run_bind_eq_ok.2 ⟨a,s1,hargs.callValue callee.operand span s a s1 hcall,hrest⟩

/-! ## Calls through variables -/

/-- Two runs on one tree that may differ in what is noted of its expressions. -/
def SelfLikeness.loosest : SelfLikeness :=
  { SelfLikeness.loose with references := False }

/-- The states differ at most in what was noted of expressions. -/
def State.Aside (s s' : State) : Prop :=
  ∃ typeOf refersTo journal, s' = { s with typeOf := typeOf, refersTo := refersTo, journal := journal }

section Aside

variable {s s' : State}

section

variable (h : s.Aside s')
include h

lemma State.Aside.states : SelfLikeness.loosest.States s s' := by
  obtain ⟨_,_,_,rfl⟩ := h
  exact { Likeness.States.refl (L := SelfLikeness.loosest) trivial with references := nofun, typeOf := trivial }

lemma State.Aside.begun (id : NodeId) (expected : Option Ty) : s.Aside (s'.step (.begun id expected)) := by
  obtain ⟨_,_,_,rfl⟩ := h
  exact ⟨_,_,_,rfl⟩

lemma State.Aside.typed (id : NodeId) (t : Ty) : s.Aside (s'.step (.typed id t)) := by
  obtain ⟨_,_,_,rfl⟩ := h
  exact ⟨_,_,_,rfl⟩

lemma State.Aside.resolved (id : NodeId) (b : BindingId) : s.Aside (s'.resolved id b) := by
  obtain ⟨_,_,_,rfl⟩ := h
  exact ⟨_,_,_,rfl⟩

lemma State.Aside.scopes_eq : s'.scopes = s.scopes := by
  obtain ⟨_,_,_,rfl⟩ := h
  rfl

/-- What was noted of expressions does not matter for those that follow. -/
theorem State.Aside.checkArguments (ts : List Ty) (args : List Argument) :
    ((checkArguments ts (argumentOperands args)).run s').1 = .ok () ↔
      ((checkArguments ts (argumentOperands args)).run s).1 = .ok () := by
  have hargs : Forall₂ (Argument.Like SelfLikeness.loosest.toLikeness) args args := by
    refine forall₂_same.2 fun a _ => ?_
    obtain ⟨name,value,span⟩ := a
    exact .mk rfl value.like_self
  have hends := (checkArguments_agree ts (argumentOperands_like args hargs)).ends h.states
  generalize (Opal.checkArguments ts (argumentOperands args)).run s = r at hends ⊢
  generalize (Opal.checkArguments ts (argumentOperands args)).run s' = r' at hends ⊢
  cases hends with
  | result => exact Iff.rfl
  | stopped => simp
  | alone h => exact h.elim

end

end Aside

section Callee

variable {s s' : State} {name : String} {b : BindingId} {ts : List Ty} {ret r : Ty} {args : List Argument}

section Variable

variable {t : Ty} {mutable : Bool}

lemma Expr.value_of_variable (hb : s.scopes.nearest? s.scopes.current name = some b)
    (hvar : s.referent? b = some (.var (some t) mutable .initialized)) (e : Expr) {s' : State}
    (he : e.withoutParens.form = .name name) (hs : s.Aside s') :
    ∃ s'', (e.operand.value none).run s' = (.ok t, s'') ∧ s.Aside s'' := by
  obtain ⟨id,span,form⟩ := e
  replace hs := hs.begun id none
  suffices h : ∃ s'', (form.value id span none).run (s'.step (.begun id none)) = (.ok t, s'') ∧ s.Aside s'' by
    obtain ⟨s'',hrun,hs''⟩ := h
    refine ⟨s''.step (.typed id t),?_,hs''.typed id t⟩
    exact run_bind_eq_ok.2 ⟨(),_,rfl,run_bind_eq_ok.2 ⟨t,s'',hrun,rfl⟩⟩
  cases form with
  | paren e => exact e.value_of_variable hb hvar he hs
  | name =>
    obtain rfl := ExprForm.name.inj he
    refine ⟨_,?_,hs.resolved id b⟩
    rw [← hs.scopes_eq] at hb
    rw [Findings.referent?, ← hs.scopes_eq] at hvar
    exact run_readName hb hvar id span
  | _ => cases he

end Variable

lemma State.Aside.finds (hs : s.Aside s') (hb : s.scopes.nearest? s.scopes.current name = some b) {x : Referent}
    (hx : s.referent? b = some x) (id : NodeId) (span : Span) : (bindingNamed id name span).run s' = (.ok b, s'.resolved id b) ∧
      (referentOf b).run (s'.resolved id b) = (.ok x, s'.resolved id b) := by
  refine ⟨run_bindingNamed.2 ⟨by rw [hs.scopes_eq, hb],rfl⟩,run_referentOf ?_⟩
  rw [Findings.referent?, (hs.resolved id b).scopes_eq]
  exact hx

lemma run_positional (hs : s.Aside s') :
    ((do checkArguments ts (argumentOperands args); return ret : Check Ty).run s').1 = .ok r ↔
      r = ret ∧ ((checkArguments ts (argumentOperands args)).run s).1 = .ok () := by
  rw [← hs.checkArguments, run_bind]
  generalize (checkArguments ts (argumentOperands args)).run s' = x
  obtain ⟨stop | _,s1⟩ := x
  · simp
  · exact ⟨fun h => ⟨(Except.ok.inj h).symm,rfl⟩,fun h => congrArg Except.ok h.1.symm⟩

lemma find?_argumentOperands (hargs : ∀ a ∈ args, a.name = none) : (argumentOperands args).find? (·.name.isSome) = none := by
  rw [argumentOperands_eq_map, find?_eq_none]
  intro x hx
  obtain ⟨a,ha,rfl⟩ := mem_map.1 hx
  rw [a.name_operand, hargs a ha]
  exact Bool.false_ne_true

lemma callValue_of_variable (hb : s.scopes.nearest? s.scopes.current name = some b)
    (hvar : s.referent? b = some (.var (some (.function ts ret)) mutable .initialized))
    (hcallee : callee.withoutParens.form = .name name) (hargs : ∀ a ∈ args, a.name = none) (hs : s.Aside s') (span : Span) :
    ((callValue callee.operand (argumentOperands args) span).run s').1 = .ok r ↔
      r = ret ∧ args.length = ts.length ∧ ((checkArguments ts (argumentOperands args)).run s).1 = .ok () := by
  obtain ⟨hb',hr⟩ := hs.finds hb hvar callee.withoutParens.id callee.withoutParens.span
  obtain ⟨s'',hvalue,hs''⟩ := callee.value_of_variable hb hvar hcallee (hs.resolved callee.withoutParens.id b)
  have hlength : (argumentOperands args).length = args.length := by rw [argumentOperands_eq_map, length_map]
  unfold callValue
  simp only [callee.expr_operand, hcallee]
  rw [run_bind, hb']
  simp only
  rw [run_bind, hr]
  simp only
  rw [valueCall, run_bind, hvalue]
  simp only [find?_argumentOperands hargs, hlength]
  split
  · next hne =>
    constructor
    · intro h
      cases h
    · exact fun h => absurd h.2.1 hne
  · next heq =>
    rw [run_positional hs'']
    simp only [not_not.1 heq, true_and]

lemma bindArguments_eq_ok_iff_of_anonymous (hparams : ∀ p ∈ params, p.anonymous = true)
    {args : List ArgumentOperand} (hargs : positional args = args) :
    bindArguments function params args span = .ok bound ↔ bound = args ∧ args.length = params.length := by
  have hnames : paramNames params = [] := by
    rw [paramNames, map_eq_nil_iff, filter_eq_nil_iff]
    exact fun p hp => by simp [hparams p hp]
  have hzip (l : List ArgumentOperand) (hl : l.length = params.length) :
      ((params.zip l).filter (·.1.anonymous)).map (·.2) = l := by
    rw [filter_eq_self.2 fun x hx => hparams x.1 (of_mem_zip hx).1]
    exact map_snd_zip (Nat.le_of_eq hl)
  rw [bindArguments_eq_ok_iff, hnames]
  constructor
  · rintro ⟨-,h⟩
    have hbound : bound = args := by rw [← hzip bound h.length, h.inOrder, hargs]
    exact ⟨hbound,hbound ▸ h.length⟩
  · rintro ⟨rfl,hlength⟩
    refine ⟨nodup_nil,.refl _,hlength,fun x hx => ?_,by rw [hzip _ hlength, hargs]⟩
    obtain ⟨hp,ha⟩ := of_mem_zip hx
    rw [Formal.takes_of_anonymous (hparams _ hp)]
    rw [← hargs] at ha
    exact (mem_filter.1 ha).2

lemma callValue_of_function (hparams : ∀ p ∈ params, p.anonymous = true) (hb : s.scopes.nearest? s.scopes.current name = some b)
    (hfunc : s.referent? b = some (.func (.function (params.map (·.type)) ret) params))
    (hcallee : callee.withoutParens.form = .name name) (hargs : ∀ a ∈ args, a.name = none) (hs : s.Aside s') (span : Span) :
    ((callValue callee.operand (argumentOperands args) span).run s').1 = .ok r ↔ r = ret ∧ args.length = params.length ∧
        ((checkArguments (params.map (·.type)) (argumentOperands args)).run s).1 = .ok () := by
  obtain ⟨hb',hr⟩ := hs.finds hb hfunc callee.withoutParens.id callee.withoutParens.span
  have hread : (readBinding b name callee.withoutParens.span).run (s'.resolved callee.withoutParens.id b) =
      (.ok (.function (params.map (·.type)) ret), s'.resolved callee.withoutParens.id b) := by
    rw [readBinding, run_bind, hr]
    rfl
  have hs'' : s.Aside (((s'.resolved callee.withoutParens.id b).step (.typed callee.withoutParens.id
      (.function (params.map (·.type)) ret))).step (.typed callee.id (.function (params.map (·.type)) ret))) :=
    ((hs.resolved _ b).typed _ _).typed _ _
  have hpositional : positional (argumentOperands args) = argumentOperands args := by
    rw [positional_argumentOperands, filter_eq_self.2 fun a ha => by rw [hargs a ha]; rfl]
  have hlength : (argumentOperands args).length = args.length := by rw [argumentOperands_eq_map, length_map]
  unfold callValue
  simp only [callee.expr_operand, hcallee]
  rw [run_bind, hb']
  simp only
  rw [run_bind, hr]
  simp only
  rw [run_bind, hread]
  have htail (s1 : State) (t : Ty) : (do
      recordType callee.withoutParens.id t
      recordType callee.id t
      namedCall name t params (argumentOperands args) span : Check Ty).run s1 =
        (namedCall name t params (argumentOperands args) span).run
          ((s1.step (.typed callee.withoutParens.id t)).step (.typed callee.id t)) := rfl
  simp only [htail]
  rw [namedCall, run_bind]
  cases hbound : bindArguments name params (argumentOperands args) span with
  | error e =>
    constructor
    · intro h
      cases h
    · rintro ⟨-,heq,-⟩
      rw [(bindArguments_eq_ok_iff_of_anonymous hparams hpositional).2 ⟨rfl,hlength.trans heq⟩] at hbound
      cases hbound
  | ok bound =>
    obtain ⟨rfl,heq⟩ := (bindArguments_eq_ok_iff_of_anonymous hparams hpositional).1 hbound
    refine (run_positional hs'').trans ?_
    rw [hlength] at heq
    simp only [heq, true_and]

end Callee

/-! ## Main result -/

/-- In the state `s`, the expression is accepted as a value of type `t`. -/
def Expr.Accepted (s : State) (e : Expr) (expected : Option Ty) (t : Ty) : Prop :=
  ((e.operand.value expected).run s).1 = .ok t

/-- In the state `s`, the name stands for `r`. -/
def State.Means (s : State) (name : String) (r : Referent) : Prop :=
  ∃ b, s.scopes.nearest? s.scopes.current name = some b ∧ s.referent? b = some r

lemma accepted_call {args : List Argument} : Expr.Accepted s ⟨id,span,.call callee args⟩ expected t ↔
      ((callValue callee.operand (argumentOperands args) span).run (s.step (.begun id expected))).1 = .ok t := by
  change ((callValue callee.operand (argumentOperands args) span >>= fun t => do
    recordType id t
    return t).run (s.step (.begun id expected))).1 = .ok t ↔ _
  rw [run_bind]
  generalize (callValue callee.operand (argumentOperands args) span).run _ = x
  obtain ⟨stop | a,s1⟩ := x <;> exact Iff.rfl

lemma accepted_call_iff {f x : String} {ret : Ty}
    (hparams : ∀ p ∈ params, p.anonymous = true) (hf : s.Means f (.func (.function (params.map (·.type)) ret) params))
    (hx : s.Means x (.var (some (.function (params.map (·.type)) ret)) mutable .initialized)) {callee' : Expr}
    (hcallee : callee.withoutParens.form = .name f) (hcallee' : callee'.withoutParens.form = .name x) {args : List Argument}
    (hargs : ∀ a ∈ args, a.name = none) {id' : NodeId} {span' : Span} {expected' : Option Ty} :
    Expr.Accepted s ⟨id,span,.call callee args⟩ expected t ↔ Expr.Accepted s ⟨id',span',.call callee' args⟩ expected' t := by
  obtain ⟨b,hb,hf⟩ := hf
  obtain ⟨b',hb',hx⟩ := hx
  have hself : s.Aside s := ⟨_,_,_,rfl⟩
  rw [accepted_call, accepted_call, callValue_of_function hparams hb hf hcallee hargs (hself.begun id expected),
    callValue_of_variable hb' hx hcallee' hargs (hself.begun id' expected'), length_map]

/-- Arguments and calls. Arguments are bound if their names are those of the parameters, and as many are without a name as parameters
are anonymous; each is then bound to one parameter. Their order does not matter beyond this, and neither does whether a
function is called by its name or through a variable. -/
theorem calls_exact : (∀ function params args span, (paramNames params).Nodup →
      ((∃ bound, bindArguments function params args span = .ok bound) ↔
        (argumentNames args).Perm (paramNames params) ∧ (positional args).length = params.countP (·.anonymous)) ∧
      ∀ bound, bindArguments function params args span = .ok bound ↔ Bound params args bound) ∧
    (∀ s id span callee (args args' : List Argument) expected t, args'.Perm args →
      args'.filter (·.name.isNone) = args.filter (·.name.isNone) →
        (Expr.Accepted s ⟨id,span,.call callee args'⟩ expected t ↔ Expr.Accepted s ⟨id,span,.call callee args⟩ expected t)) ∧
    (∀ (s : State) f params ret x mutable, (∀ p ∈ params, p.anonymous = true) →
      s.Means f (.func (.function (params.map (·.type)) ret) params) →
      s.Means x (.var (some (.function (params.map (·.type)) ret)) mutable .initialized) →
      ∀ (callee callee' : Expr) (args : List Argument), callee.withoutParens.form = .name f →
        callee'.withoutParens.form = .name x → (∀ a ∈ args, a.name = none) → ∀ id id' span span' expected expected' t,
          (Expr.Accepted s ⟨id,span,.call callee args⟩ expected t ↔
            Expr.Accepted s ⟨id',span',.call callee' args⟩ expected' t)) := by
  refine ⟨?_,?_,?_⟩
  · intro function params args span hparams
    refine ⟨exists_bindArguments_iff hparams,fun bound => ?_⟩
    rw [bindArguments_eq_ok_iff, and_iff_right hparams]
  · intro s id span callee args args' expected t hperm horder
    constructor
    · intro h
      have hrun := call_refines hperm.symm horder.symm callee id span expected s t _ (Prod.ext h rfl)
      exact congrArg Prod.fst hrun
    · intro h
      have hrun := call_refines hperm horder callee id span expected s t _ (Prod.ext h rfl)
      exact congrArg Prod.fst hrun
  · intro s f params ret x mutable hparams hf hx callee callee' args hcallee hcallee' hargs id id' span span' expected expected' t
    exact accepted_call_iff hparams hf hx hcallee hcallee' hargs

/-- Two arguments in the order that is not that of the parameters, and a function that is stored in a variable. -/
theorem calls_exact_stored :
    let a : ArgumentOperand := ⟨none,default,(⟨1,default,.int "1"⟩ : Expr).operand⟩
    let b : ArgumentOperand := ⟨some "p",default,(⟨2,default,.int "2"⟩ : Expr).operand⟩
    let t : Ty := .function [.int .u8] .void
    let s := (State.initial.step (.bound 0 ⟨"f",0,default,.func t [⟨"_",true,.int .u8⟩]⟩)).step
      (.bound 1 ⟨"x",0,default,.var (some t) false .initialized⟩)
    Bound [⟨"p",false,.int .u8⟩, ⟨"_",true,.int .u8⟩] [a, b] [b, a] ∧
      Expr.Accepted s ⟨5,default,.call ⟨4,default,.name "x"⟩ [⟨none,⟨3,default,.int "1"⟩,default⟩]⟩ none .void := by
  intro a b t s
  constructor
  · exact ((calls_exact.1 "f" _ [a, b] default (by decide)).2 [b, a]).1 rfl
  · have hdirect : Expr.Accepted s ⟨5,default,.call ⟨4,default,.name "f"⟩ [⟨none,⟨3,default,.int "1"⟩,default⟩]⟩
        none .void := by
      unfold Expr.Accepted
      decide +kernel
    have hf : s.Means "f" (.func t [⟨"_",true,.int .u8⟩]) := ⟨0,by decide +kernel,by decide +kernel⟩
    have hx : s.Means "x" (.var (some t) false .initialized) := ⟨1,by decide +kernel,by decide +kernel⟩
    exact (calls_exact.2.2 s "f" [⟨"_",true,.int .u8⟩] .void "x" false (by decide) hf hx _ _ _ rfl rfl (by simp)
      5 5 default default none none .void).1 hdirect

end Opal
