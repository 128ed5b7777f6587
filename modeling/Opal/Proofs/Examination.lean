import Opal.Proofs.Evolution

/-!
# What an examination achieves

A computation takes a step as `Proceeds` says, and ends with a result of which something is known, with an error, or because of
something that was reported before. One rule for each way to build a computation.
-/

namespace Opal

open Findings (Agrees)
open List Check

variable {b : BindingId} {e : Expr} {id : NodeId} {t : Ty}

/-- A computation after another one runs only if the first one gives a result. -/
theorem Check.run_bind {α β : Type} (m : Check α) (f : α → Check β) (s : State) : (m >>= f).run s = match (m.run s).1 with
      | .ok a => (f a).run (m.run s).2
      | .error stop => (.error stop, (m.run s).2) := by
  have h : (m >>= f).run s = ExceptT.bindCont f (m.run s).1 (m.run s).2 := rfl
  rw [h]
  cases (m.run s).1 <;> rfl

lemma Check.run_get (s : State) : (get : Check State).run s = (.ok s, s) := rfl

lemma Check.run_tryCatch {α : Type} (m : Check α) (handler : Stop → Check α) (s : State) :
    (MonadExcept.tryCatch m handler).run s = match (m.run s).1 with
      | .ok a => (.ok a, (m.run s).2)
      | .error stop => (handler stop).run (m.run s).2 := by
  have h : (MonadExcept.tryCatch m handler).run s = (ExceptT.tryCatch m handler : Check α).run s := rfl
  rw [h]
  unfold ExceptT.tryCatch
  change ((m.run >>= _) : Run _) s = _
  simp only [bind, StateT.bind]
  cases m.run s with
  | mk r s' => cases r <;> rfl

/-- The states differ at most in the types that are recorded and numbered, and in the journal. -/
def State.Retyped (s s' : State) : Prop :=
  ∃ types typeOf journal, s' = { s with types := types, typeOf := typeOf, journal := journal }

lemma State.Retyped.refl (s : State) : s.Retyped s :=
  ⟨_,_,_,rfl⟩

lemma State.Retyped.trans {s s1 s2 : State} (h : s.Retyped s1) (h' : s1.Retyped s2) : s.Retyped s2 := by
  obtain ⟨types,typeOf,journal,rfl⟩ := h
  obtain ⟨types',typeOf',journal',rfl⟩ := h'
  exact ⟨types',typeOf',journal',rfl⟩

/-- How a computation ends in state `s`: a result is as `P` says, and a computation is blocked only if
something was reported. -/
def Ending {α : Type} (P : α → State → Prop) (s : State) : Except Stop α → Prop
  | .ok a => P a s
  | .error stop => s.Allows stop.event

/-- What is reported is known to be wrong, and what is dropped was. -/
theorem Stop.failing {stop : Stop} {s : State} (h : s.Allows stop.event) : (s.step stop.event).Failing := by
  cases stop with
  | error e => exact Array.push_ne_empty
  | blocked => exact h

/-- Run from `s`, the computation examines the nodes of `N` and gives a result as `P` says, unless it
stops. -/
def Meets {α : Type} (N : List Node) (s : State) (m : Check α) (P : α → State → Prop) : Prop :=
  Proceeds N [] s (m.run s).2 ∧ Ending P (m.run s).2 (m.run s).1

/-- Run from `s`, the computation examines the nodes of `N` and the declarations of `own`, and ends in a
state as `Q` says. -/
def Runs (N : List Node) (own : List BindingId) (s : State) (m : Run Unit) (Q : State → Prop) : Prop :=
  Proceeds N own s (m.run s).2 ∧ Q (m.run s).2

lemma Ending.mono {α : Type} {P Q : α → State → Prop} {s : State} {r : Except Stop α}
    (h : Ending P s r) (hPQ : ∀ a, P a s → Q a s) : Ending Q s r := by
  match r, h with
  | .ok a, h => exact hPQ a h
  | .error _, h => exact h

namespace Meets

variable {α β : Type} {N N1 N2 : List Node} {s : State} {m m' : Check α} {f : α → Check β} {P Q : α → State → Prop}

lemma of_run_eq (hm : Meets N s m P) (h : m'.run s = m.run s) : Meets N s m' P := by
  unfold Meets
  rw [h]
  exact hm

lemma mono (h : Meets N s m P) (hPQ : ∀ a s', Advances N [] s s' → P a s' → Q a s') : Meets N s m Q :=
  ⟨h.1,h.2.mono fun a => hPQ a _ h.1.toAdvances⟩

lemma withState {R : State → Prop} (h : Meets N s m P) (hR : R (m.run s).2) : Meets N s m fun a s' => P a s' ∧ R s' :=
  ⟨h.1,h.2.mono fun _ ha => ⟨ha,hR⟩⟩

lemma perm (h : Meets N1 s m P) (hp : N1.Perm N2) (hprec : ∀ d x, Precedes N1 d x → Precedes N2 d x) : Meets N2 s m P :=
  ⟨h.1.perm hp hprec,h.2⟩

/-! ### Computations that change nothing -/

section

variable (hready : Ready N s)
include hready

lemma pure {a : α} (h : P a s) : Meets N s (Pure.pure a) P :=
  ⟨.refl hready [],h⟩

lemma fail (cause : SemanticCause) (span : Span) : Meets N s (fail cause span) P :=
  ⟨.refl hready [],trivial⟩

lemma mismatch (expected found : String) (span : Span) : Meets N s (mismatch expected found span) P :=
  ⟨.refl hready [],trivial⟩

lemma blocked (h : s.Failing) : Meets N s blocked P :=
  ⟨.refl hready [],h⟩

lemma ofExcept {r : Except SemanticError α} (h : ∀ a, r = .ok a → P a s) : Meets N s (ofExcept r) P := by
  cases r with
  | ok a => exact .pure hready (h a rfl)
  | error e => exact ⟨.refl hready [],trivial⟩

end

/-! ### One computation after another -/

lemma read {P : β → State → Prop} {a : α} (hm : m.run s = (.ok a, s)) (hf : Meets N s (f a) P) : Meets N s (m >>= f) P := by
  refine hf.of_run_eq ?_
  rw [run_bind, hm]

/-- The nodes of the first computation stay as they are while the second one runs. -/
theorem bind [Closed N1] {Q : β → State → Prop} (hready : Ready (N1 ++ N2) s) (hm : Meets N1 s m P)
    (hf : ∀ a s1, Advances N1 [] s s1 → P a s1 → Meets N2 s1 (f a) fun b s2 => Agrees N1 s1.toFindings s2.toFindings → Q b s2) :
    Meets (N1 ++ N2) s (m >>= f) Q := by
  obtain ⟨hstep,hout⟩ := hm
  unfold Meets
  rw [run_bind]
  match (m.run s).1, hout with
  | .ok a, hout =>
    obtain ⟨hstep2,hout2⟩ := hf a _ hstep.toAdvances hout
    exact ⟨hstep.trans hready hstep2 (by simp),
      hout2.mono fun b hb => hb (Advances.kept hready hstep.toAdvances hstep2.toAdvances)⟩
  | .error _, hout => exact ⟨hstep.weaken hready,hout⟩

lemma andThen [Closed N] {Q : β → State → Prop} (hready : Ready N s) (hm : Meets N s m P)
    (hf : ∀ a s1, Advances N [] s s1 → P a s1 → Meets [] s1 (f a) fun b s2 => Agrees N s1.toFindings s2.toFindings → Q b s2) :
    Meets N s (m >>= f) Q := by
  have hready' : Ready (N ++ []) s := by rwa [append_nil]
  have h := bind hready' hm hf
  rwa [append_nil] at h

lemma bindNil {Q : β → State → Prop} (hready : Ready N s)
    (hm : Meets [] s m P) (hf : ∀ a s1, Advances [] [] s s1 → P a s1 → Meets N s1 (f a) Q) : Meets N s (m >>= f) Q :=
  have hready' : Ready ([] ++ N) s := hready
  bind hready' hm fun a s1 hstep ha => (hf a s1 hstep ha).mono fun _ _ _ h _ => h

lemma thenPure [Closed N] {f : α → β} {Q : β → State → Prop} (hready : Ready N s)
    (hm : Meets N s m P) (hf : ∀ a s1, Advances N [] s s1 → P a s1 → Q (f a) s1) :
    Meets N s (m >>= fun a => Pure.pure (f a)) Q :=
  hm.andThen hready fun a s1 hstep ha =>
    .pure (.nil hstep.sound) fun _ => hf a s1 hstep ha

lemma ite {c : Prop} [Decidable c] (h : c → Meets N s m P) (h' : ¬ c → Meets N s m' P) : Meets N s (if c then m else m') P := by
  split
  · exact h ‹_›
  · exact h' ‹_›

end Meets

/-! ## States that say the same -/

/-- The steps that say nothing of a node or of a binding. -/
def Event.isQuiet : Event → Bool
  | .reported _ | .dropped | .begun .. | .built _ | .entered | .left | .called _ | .returned => true
  | _ => false

/-- Two states that differ only in where names are looked up, in what is returned, in the numbers of types, in
the errors and in the journal. -/
structure Alike (s s' : State) : Prop where
  referent? : ∀ b, s'.referent? b = s.referent? b
  constant? : ∀ b, s'.constant? b = s.constant? b
  typeOf : s'.typeOf = s.typeOf
  refersTo : s'.refersTo = s.refersTo
  valueOf : s'.valueOf = s.valueOf
  introduces : s'.introduces = s.introduces
  errors : s.Failing → s'.Failing

namespace Alike

variable {N : List Node} {own : List BindingId} {s s' s0 s1 s2 : State}

lemma refl (s : State) : Alike s s :=
  ⟨fun _ => rfl,fun _ => rfl,rfl,rfl,rfl,rfl,id⟩

lemma step (s : State) {e : Event} (he : e.isQuiet = true) : Alike s (s.step e) := by
  cases e with
  | reported e => exact ⟨fun _ => rfl,fun _ => rfl,rfl,rfl,rfl,rfl,fun _ => Array.push_ne_empty⟩
  | typed | referred | bound | introduced | changed | valued => cases he
  | _ =>
    exact ⟨fun _ => rfl,fun _ => rfl,rfl,rfl,rfl,rfl,id⟩

lemma agrees (h : Alike s s') (M : List Node) : Agrees M s.toFindings s'.toFindings where
  typeOf _ _ := by rw [h.typeOf]
  refersTo _ _ := by rw [h.refersTo]
  valueOf _ _ := by rw [h.valueOf]
  introduces _ _ := by rw [h.introduces]
  moves b r hr := ⟨r,(h.referent? b).trans hr,.refl r⟩
  errors := h.errors

lemma sound (h : Alike s s') (hs : Sound s) (hres : ∀ t ∈ s'.resultTypes, t.isResult = true) : Sound s' :=
  hs.update h.constant? (fun _ _ hid => by rw [h.introduces, hid]) hres h.errors (fun _ d _ _ _ _ _ => h.agrees d.nodes)
    (fun b type stage hr => ⟨type,stage,(h.referent? b).trans hr⟩)
    (fun b _ hr => .inl ((h.referent? b).symm.trans hr))

lemma ready (h : Alike s s') (hr : Ready N s) (hres : ∀ t ∈ s'.resultTypes, t.isResult = true) : Ready N s' where
  sound := h.sound hr.sound hres
  nodup := hr.nodup
  untyped id hid := by rw [h.typeOf]; exact hr.untyped id hid
  undeclared id hid := by rw [h.introduces]; exact hr.undeclared id hid
  apart b d type stage hd hb :=
    hr.apart b d type stage ((h.constant? b).symm.trans hd) ((h.referent? b).symm.trans hb)

lemma calm (h : Alike s s') (hs : Calm s) : Calm s' where
  idle b type hb := hs.idle b type ((h.referent? b).symm.trans hb)
  signatures b params hb := h.errors (hs.signatures b params ((h.referent? b).symm.trans hb))

lemma advances [Closed N] (h0 : Alike s s0) (h : Advances N own s0 s1) (h1 : Alike s1 s2)
    (hsteps : Steps State.Allows s s2) (hcurrent : s2.scopes.current = s.scopes.current)
    (hparents : ∀ (i : Nat) p, s.scopes.parents[i]? = some p → s2.scopes.parents[i]? = some p)
    (hres : s2.resultTypes = s.resultTypes) (hs : Sound s) : Advances N own s s2 :=
  have evaluated {d : ConstDecl} (hev : Evaluated s0 s1 d) : Evaluated s s2 d := by
    obtain ⟨b,r,hd,hb,hr,hev⟩ := hev
    exact ⟨b,r,(h0.constant? b).symm.trans hd,(h0.referent? b).symm.trans hb,(h1.referent? b).trans hr,hev⟩
  have settles {id : NodeId} (hid : ¬ Settles s s2 id) : ¬ Settles s0 s1 id := by
    rintro ⟨d,hev,hmem⟩
    exact hid ⟨d,evaluated hev,hmem⟩
  { referents := fun b r hr => by
      obtain ⟨r',hr',hcase⟩ := h.referents b r ((h0.referent? b).trans hr)
      exact ⟨r',(h1.referent? b).trans hr',hcase⟩
    constants := fun b d hd =>
      (h1.constant? b).trans (h.constants b d ((h0.constant? b).trans hd))
    newConstants := fun b d hd => by
      have hnew := h.newConstants b d ((h1.constant? b).symm.trans hd)
      rw [h0.constant? b, h0.referent? b] at hnew
      refine hnew.imp_right (.imp_right (.imp_right ?_))
      rintro ⟨d0,hev,hsub⟩
      exact ⟨d0,evaluated hev,hsub⟩
    typeOf := fun id hid hset => by
      rw [h1.typeOf, h.typeOf id hid (settles hset), h0.typeOf]
    refersTo := fun id hid hset => by
      rw [h1.refersTo, h.refersTo id hid (settles hset), h0.refersTo]
    valueOf := fun id hid hset => by
      rw [h1.valueOf, h.valueOf id hid (settles hset), h0.valueOf]
    introduces := fun id hid hset => by
      rw [h1.introduces, h.introduces id hid (settles hset), h0.introduces]
    current := hcurrent
    parents := hparents
    resultTypes := hres
    errors := fun hf => h1.errors (h.errors (h0.errors hf))
    steps := hsteps
    sound := h1.sound h.sound (hres ▸ hs.results)
    obeys := Findings.ObeysOn.agrees h.obeys (h1.agrees N)
    settled := fun b r hnone hr =>
      (h.settled b r ((h0.referent? b).trans hnone) ((h1.referent? b).symm.trans hr)).mono h1.errors }

lemma proceeds [Closed N] (h0 : Alike s s0) (h : Proceeds N own s0 s1) (h1 : Alike s1 s2)
    (hsteps : Steps State.Allows s s2) (hcurrent : s2.scopes.current = s.scopes.current)
    (hparents : ∀ (i : Nat) p, s.scopes.parents[i]? = some p → s2.scopes.parents[i]? = some p)
    (hres : s2.resultTypes = s.resultTypes) (hs : Sound s) : Proceeds N own s s2 where
  toAdvances := h0.advances h.toAdvances h1 hsteps hcurrent hparents hres hs
  fresh id b hnone hb := by
    rw [← h0.introduces] at hnone
    rw [h1.introduces] at hb
    exact (h0.referent? b).symm.trans (h.fresh id b hnone hb)
  inSequence := h.inSequence.agrees (h1.agrees N)

end Alike

lemma agrees_step (s : State) (M : List Node) {e : Event} (he : e.isQuiet = true) :
    Agrees M s.toFindings (s.step e).toFindings :=
  (Alike.step s he).agrees M

namespace Proceeds

variable {N : List Node} [Closed N] {own : List BindingId} {s s1 : State}

lemma stop (h : Proceeds N own s s1) {stop : Stop} (hout : s1.Allows stop.event) (hs : Sound s) :
    Proceeds N own s (s1.step stop.event) := by
  cases stop with
  | error | blocked =>
    exact (Alike.refl s).proceeds h (.step s1 rfl) (.step _ h.steps hout) h.current h.parents h.resultTypes hs

lemma built (h : Proceeds N own s s1) (t : Ty) (hs : Sound s) : Proceeds N own s (s1.step (.built t)) :=
  (Alike.refl s).proceeds h (.step s1 rfl) (.step _ h.steps trivial) h.current h.parents h.resultTypes hs

end Proceeds

/-! ## Rules for the ways to build a computation -/

section Rules

variable {α : Type} {N N1 N2 : List Node} {own own1 own2 : List BindingId} {s : State} {x : Run Unit}
    {Q : State → Prop} {m : Check α} {P : α → State → Prop}

lemma Meets.lift (h : Runs N [] s x Q) : Meets N s (liftM x) fun _ => Q :=
  h

namespace Runs

variable {x y : Run Unit} {Q Q' : State → Prop}

lemma mono (h : Runs N own s x Q) (hQ : ∀ s', Advances N own s s' → Q s' → Q' s') : Runs N own s x Q' :=
  ⟨h.1,hQ _ h.1.toAdvances h.2⟩

lemma pure (hready : Ready N s) (h : Q s) : Runs N own s (Pure.pure ()) Q :=
  ⟨.refl hready own,h⟩

lemma bind [Closed N1] (hready : Ready (N1 ++ N2) s) (hx : Runs N1 own1 s x Q) (hy : ∀ s1, Advances N1 own1 s s1 → Q s1 →
      Runs N2 own2 s1 y fun s2 => Agrees N1 s1.toFindings s2.toFindings → Q' s2) (hown : ∀ b ∈ own2, s.referent? b ≠ none) :
    Runs (N1 ++ N2) (own1 ++ own2) s (do x; y) Q' := by
  obtain ⟨hstep,hQ⟩ := hx
  obtain ⟨hstep2,hQ'⟩ := hy _ hstep.toAdvances hQ
  exact ⟨hstep.trans hready hstep2 hown,hQ' (Advances.kept hready hstep.toAdvances hstep2.toAdvances)⟩

end Runs

/-- Every outcome of a computation that is reported on is known afterwards: if nothing is wrong, there was
a result. -/
theorem Meets.reported [Closed N] {m : Check Unit} {P : Unit → State → Prop} (h : Meets N s m P) (hs : Sound s) :
    Runs N [] s (Opal.reported m) fun s' => ¬ s'.Failing → P () s' := by
  obtain ⟨hstep,hout⟩ := h
  unfold Runs
  rw [run_reported]
  match (m.run s).1, hout with
  | .ok (), hout => exact ⟨hstep,fun _ => hout⟩
  | .error _, hout => exact ⟨hstep.stop hout hs,fun hnot => absurd (Stop.failing hout) hnot⟩

lemma Meets.built [Closed N] {f : α → Ty} {Q : Ty → State → Prop} (hready : Ready N s) (hm : Meets N s m P)
    (hQ : ∀ a s1, P a s1 → Q (f a) (s1.step (.built (f a)))) : Meets N s (m >>= fun a => liftM (Opal.built (f a))) Q := by
  refine hm.andThen hready fun a s1 hstep ha => ⟨?_,fun _ => hQ a s1 ha⟩
  exact (Proceeds.refl (.nil hstep.sound) []).built _ hstep.sound

lemma Meets.begun (hs : Sound s) (id : NodeId) (expected : Option Ty) :
    Meets [] s (liftM (perform (.begun id expected))) fun _ _ => True :=
  ⟨(Alike.refl s).proceeds (.refl (.nil hs) []) (.step s rfl) (.single trivial) rfl (fun _ _ hp => hp) rfl hs,trivial⟩

lemma Meets.inNewScope [Closed N] {Q : α → State → Prop} (hs : Sound s)
    (h : Meets N (s.step .entered) m P) (hQ : ∀ a s1, P a s1 → Q a (s1.step .left)) : Meets N s (Opal.inNewScope m) Q := by
  obtain ⟨hstep,hout⟩ := h
  unfold Meets
  rw [run_inNewScope]
  generalize m.run (s.step .entered) = r at hstep hout
  obtain ⟨r,s1⟩ := r
  have hcurrent : s1.scopes.current = s.scopes.parents.size := hstep.current
  have hparent : s1.scopes.parents[s.scopes.parents.size]? = some (some s.scopes.current) :=
    hstep.parents _ _ Array.getElem?_push_size
  have hsteps : Steps State.Allows s (s1.step .left) :=
    hstep.steps.around trivial trivial
  refine ⟨(Alike.step s rfl).proceeds hstep (.step s1 rfl) hsteps ?_ ?_ hstep.resultTypes hs,?_⟩
  · change s1.scopes.leave.current = s.scopes.current
    simp [ScopeTree.leave, ScopeTree.parent?, hcurrent, hparent]
  · intro i p hp
    refine hstep.parents i p ?_
    have hlt := (Array.getElem?_eq_some_iff.1 hp).1
    rw [← hp]
    exact Array.getElem?_push_lt hlt ▸ (Array.getElem?_eq_getElem hlt).symm
  · match r, hout with
    | .ok a, hout => exact hQ a s1 hout
    | .error stop, hout => cases stop <;> exact hout

lemma Runs.returning [Closed N] {P : State → Prop} {ret : Ty} (hs : Sound s)
    (h : Runs N [] (s.step (.called ret)) x P) (hQ : ∀ s1, P s1 → Q (s1.step .returned)) :
    Runs N [] s (Opal.returning ret x) Q := by
  obtain ⟨hstep,hout⟩ := h
  refine ⟨?_,hQ _ hout⟩
  exact (Alike.step s rfl).proceeds hstep (.step _ rfl) (hstep.steps.around trivial trivial)
    hstep.current hstep.parents (congrArg List.tail hstep.resultTypes) hs

end Rules

/-! ## Recording what was found -/

lemma Table.getElem?_insert {α : Type} (t : Table α) (k a : Nat) (v : α) :
    (t.insert k v)[a]? = if k = a then some v else t[a]? := by
  simp [Std.TreeMap.getElem?_insert]

def State.recorded (s : State) (id : NodeId) (t : Ty) : State :=
  s.step (.typed id t)

lemma typeOf_recorded (s : State) (id : NodeId) (t : Ty) (a : NodeId) :
    (s.recorded id t).typeOf[a]? = if id = a then some t else s.typeOf[a]? :=
  Table.getElem?_insert ..

section Recording

variable {α β : Type} {N : List Node} {s s1 s2 : State}

lemma agrees_recorded (h : id ∉ N.map Node.id) (t : Ty) : Agrees N s.toFindings (s.recorded id t).toFindings where
  typeOf a ha := by
    rw [typeOf_recorded, if_neg]
    rintro rfl
    exact h ha
  refersTo _ _ := rfl
  valueOf _ _ := rfl
  introduces _ _ := rfl
  moves _ r hr := ⟨r,hr,.refl r⟩
  errors hf := hf

lemma evolves_recorded (hid : id ∈ N.map Node.id) (own : List BindingId) (t : Ty) : Evolves N own s (s.recorded id t) :=
  { Evolves.refl N own s with
    typeOf := fun a ha _ => by
      rw [typeOf_recorded, if_neg]
      rintro rfl
      exact ha hid }

lemma Sound.recorded (h : Sound s) (t : Ty)
    (hapart : ∀ b d type stage, s.constant? b = some d → s.referent? b = some (.const type stage) →
      stage ≠ .inProgress → id ∉ d.ids) : Sound (s.recorded id t) :=
  h.update (fun _ => rfl) (fun _ _ hid => hid) h.results (fun hf => hf) (fun b d type stage hd hr hstage =>
      agrees_recorded (hapart b d type stage hd hr hstage) t)
    (fun _ type stage hr => ⟨type,stage,hr⟩) (fun _ _ hr => .inl hr)

lemma Ready.id_notMem (h : Ready e.nodes s) : e.id ∉ e.form.nodes.map Node.id := by
  rw [e.nodes_eq] at h
  exact fun hid => h.disjoint hid (id_mem_of_expr (mem_singleton_self _))

lemma Advances.record (hready : Ready e.nodes s)
    (h : Advances e.form.nodes [] s s1) (hobeys : s1.Obeys e t) (ht : t.isResult = true) :
    Advances e.nodes [] s (s1.recorded e.id t) := by
  have hagree := agrees_recorded (s := s1) hready.id_notMem t
  have hmem := id_mem_of_expr e.self_mem_nodes
  have hsub : e.form.nodes ⊆ e.nodes := e.nodes_eq ▸ subset_append_left _ _
  refine ⟨Evolves.trans hready.sound (h.mono hsub (List.Subset.refl _))
    (evolves_recorded hmem [] t),.step _ h.steps trivial,?_,?_,h.settled⟩
  · refine h.sound.recorded t fun b d type stage hd hr hstage => ?_
    have hroot := Ready.right (e.nodes_eq ▸ hready) h
    exact hroot.apart b d type stage hd hr hstage (id_mem_of_expr (mem_singleton_self _))
  · intro x hx u hu
    rw [e.nodes_eq] at hx
    rcases mem_append.1 hx with hx | hx
    · exact (Findings.ObeysOn.agrees h.obeys hagree x hx u hu).imp_right (.imp_right (·.mono hsub))
    · obtain rfl := Node.expr.inj (mem_singleton.1 hx)
      rw [Findings.typeAt, typeOf_recorded, if_pos rfl] at hu
      obtain rfl := Option.some.inj hu
      exact ⟨ht,.inl (hobeys.agrees hagree rfl (Ty.ne_error_of_isResult ht))⟩

/-- Only a name uses a variable, and there are no declarations inside of a name. -/
theorem Proceeds.record (hready : Ready e.nodes s)
    (h : Proceeds e.form.nodes [] s s1) (hobeys : s1.Obeys e t) (ht : t.isResult = true) :
    Proceeds e.nodes [] s (s1.recorded e.id t) where
  toAdvances := h.toAdvances.record hready hobeys ht
  fresh := h.fresh
  inSequence x name d b hx hform hx' hb hd hid := by
    rw [e.nodes_eq] at hx hd ⊢
    have hd : Node.decl (.var d) ∈ e.form.nodes := by simpa using hd
    rcases mem_append.1 hx with hx | hx
    · exact (h.inSequence.agrees (agrees_recorded hready.id_notMem t) x name d b hx hform hx' hb hd
        hid).mono (sublist_append_left _ _)
    · obtain rfl := Node.expr.inj (mem_singleton.1 hx)
      rw [hform, ExprForm.nodes] at hd
      cases hd

lemma Meets.record {m : Check α} {P Q : α → State → Prop} (type : α → Ty)
    (hready : Ready e.nodes s) (hm : Meets e.form.nodes s m P)
    (hP : ∀ a s1, P a s1 → s1.Obeys e (type a) ∧ (type a).isResult = true)
    (hQ : ∀ a s1, Advances e.form.nodes [] s s1 → P a s1 → Q a (s1.recorded e.id (type a))) :
    Meets e.nodes s (do
        let a ← m
        recordType e.id (type a)
        return a) Q := by
  obtain ⟨hstep,hout⟩ := hm
  unfold Meets
  rw [run_bind]
  match (m.run s).1, hout with
  | .ok a, hout =>
    exact ⟨hstep.record hready (hP a _ hout).1 (hP a _ hout).2,hQ a _ hstep.toAdvances hout⟩
  | .error _, hout => exact ⟨e.nodes_eq ▸ hstep.weaken (e.nodes_eq ▸ hready),hout⟩

lemma Findings.Completable.recorded (h : s1.Completable e)
    (hid : e.id ∉ e.form.nodes.map Node.id) (t : Ty) : (s1.recorded e.id t).Complete e.nodes := by
  have typeAt {x : Expr} (hx : Node.expr x ∈ e.form.nodes) : (s1.recorded e.id t).typeAt x = s1.typeAt x :=
    (agrees_recorded hid t).typeAt hx
  refine ⟨fun x hx ht => ?_,fun p hp x hx => ?_,h.resolved,fun d hd => ?_⟩
  · rw [e.nodes_eq] at hx
    rcases mem_append.1 hx with hx | hx
    · exact h.typed x hx (typeAt hx ▸ ht)
    · obtain rfl := Node.expr.inj (mem_singleton.1 hx)
      rw [Findings.typeAt, typeOf_recorded, if_pos rfl] at ht
      cases ht
  · have hpart := Findings.mem_nodes_of_mem_skips hx
    have hmem : Node.expr x ∈ e.form.nodes := by
      rw [e.nodes_eq] at hp
      rcases mem_append.1 hp with hp | hp
      · exact Closed.part hp hpart
      · exact Node.expr.inj (mem_singleton.1 hp) ▸ hpart
    rw [typeAt hmem]
    exact h.skipped p hp x hx
  · rw [e.nodes_eq] at hd
    exact h.introduced d (by simpa using hd)

end Recording

/-! ## Names -/

lemma ScopeTree.lookup_lt {t : ScopeTree} {scope : ScopeId} {name : String} {span : Span}
    (h : t.lookup scope name span = .ok b) : b < t.bindings.size := by
  unfold ScopeTree.lookup at h
  split at h
  · next id hid =>
    obtain rfl := Except.ok.inj h
    obtain ⟨scope',-,hfind⟩ := exists_of_findSome?_eq_some hid
    exact (Array.findIdx?_eq_some_iff_getElem.1 hfind).1
  · cases h

lemma Findings.referent?_isSome {f : Findings} (h : b < f.scopes.bindings.size) : ∃ r, f.referent? b = some r :=
  ⟨_,by rw [Findings.referent?, Array.getElem?_eq_getElem h, Option.map_some]⟩

lemma run_referentOf {s : State} {r : Referent} (h : s.referent? b = some r) : (referentOf b).run s = (.ok r, s) := by
  obtain ⟨binding,hb,rfl⟩ := Option.map_eq_some_iff.1 h
  rw [referentOf, run_bind, run_get]
  simp only [hb]
  rfl

section Names

variable {α β : Type} {N : List Node} {s s1 s2 : State} {own : List BindingId}

lemma Advances.again (hs : Sound s) (h : Advances N own s s1) (h' : Advances N [] s1 s2) : Advances N own s s2 where
  toEvolves := Evolves.trans hs h.toEvolves (h'.mono (List.Subset.refl _) (nil_subset _))
  steps := h.steps.trans h'.steps
  sound := h'.sound
  obeys := h'.obeys
  settled b r hnone hr := by
    cases hb : s1.referent? b with
    | none => exact h'.settled b r hb hr
    | some r1 =>
      have hset := h.settled b r1 hnone hb
      obtain ⟨r2,hr2,hcase⟩ := h'.referents b r1 hb
      obtain rfl := Option.mem_unique hr2 hr
      rcases hcase with rfl | ⟨rfl,-⟩ | ⟨hmem,-⟩
      · exact hset.mono h'.errors
      · exact absurd rfl hset.1
      · cases hmem

lemma Proceeds.again (hs : Sound s) (h : Proceeds N own s s1) (h' : Proceeds N [] s1 s2) : Proceeds N own s s2 where
  toAdvances := h.toAdvances.again hs h'.toAdvances
  fresh := fresh_trans h h'
  inSequence := h'.inSequence

lemma Meets.again {m : Check α} {f : α → Check β} {P : α → State → Prop}
    {Q : β → State → Prop} (hs : Sound s) (hm : Meets N s m P)
    (hf : ∀ a s1, Advances N [] s s1 → P a s1 → Meets N s1 (f a) Q) : Meets N s (m >>= f) Q := by
  obtain ⟨hstep,hout⟩ := hm
  unfold Meets
  rw [run_bind]
  match (m.run s).1, hout with
  | .ok a, hout =>
    obtain ⟨hstep2,hout2⟩ := hf a _ hstep.toAdvances hout
    exact ⟨hstep.again hs hstep2,hout2⟩
  | .error _, hout => exact ⟨hstep,hout⟩

def State.resolved (s : State) (id : NodeId) (b : BindingId) : State :=
  s.step (.referred id b)

lemma refersTo_resolved (s : State) (id : NodeId) (b : BindingId) (a : NodeId) :
    (s.resolved id b).refersTo[a]? = if id = a then some b else s.refersTo[a]? :=
  Table.getElem?_insert ..

section

variable (h : Ready N s) (hid : id ∈ N.map Node.id)
include h hid

/-- Noting what a name among unexamined nodes refers to leaves them unexamined. -/
theorem Ready.resolved (b : BindingId) : Ready N (s.resolved id b) := by
  have hagree (b' d type stage) (hd : s.constant? b' = some d)
      (hr : s.referent? b' = some (.const type stage)) (hstage : stage ≠ .inProgress) :
      Agrees d.nodes s.toFindings (s.resolved id b).toFindings :=
    { Agrees.refl d.nodes s.toFindings with
      refersTo := fun a ha => by
        rw [refersTo_resolved, if_neg]
        rintro rfl
        exact h.apart b' d type stage hd hr hstage hid ha }
  have hsound : Sound (s.resolved id b) :=
    h.sound.update (fun _ => rfl) (fun _ _ h => h) h.sound.results (fun hf => hf) hagree
      (fun _ type stage hr => ⟨type,stage,hr⟩) (fun _ _ hr => .inl hr)
  exact ⟨hsound,h.nodup,h.untyped,h.undeclared,h.apart⟩

lemma Advances.resolved (b : BindingId) : Advances N [] s (s.resolved id b) where
  toEvolves :=
    { Evolves.refl N [] s with
      refersTo := fun a ha _ => by
        rw [refersTo_resolved, if_neg]
        rintro rfl
        exact ha hid }
  steps := .single trivial
  sound := (h.resolved hid b).sound
  obeys := (Advances.refl (h.resolved hid b) []).obeys
  settled := (Advances.refl h []).settled

lemma Proceeds.resolved (b : BindingId) : Proceeds N [] s (s.resolved id b) where
  toAdvances := .resolved h hid b
  fresh := (Proceeds.refl h []).fresh
  inSequence := .of_untyped fun _ hx => h.untyped _ (id_mem_of_expr hx)

end

lemma run_findFrom (s : State) (scope : ScopeId) (id : NodeId) (name : String) (span : Span) :
    (Opal.findFrom scope id name span).run s = match s.scopes.lookup scope name span with
      | .ok b => (.ok b, s.resolved id b)
      | .error e => (.error (.error e), s) := by
  change ((ofExcept (s.scopes.lookup scope name span) >>= fun b => do
    recordReference id b
    return b) : Check BindingId).run s = _
  rw [run_bind]
  cases s.scopes.lookup scope name span <;> rfl

lemma Meets.findFrom (h : Ready N s) (hid : id ∈ N.map Node.id) (scope : ScopeId) (name : String) (span : Span) :
    Meets N s (Opal.findFrom scope id name span) fun b s' =>
      Ready N s' ∧ s.scopes.lookup scope name span = .ok b ∧ ∃ r, s.referent? b = some r ∧ s' = s.resolved id b := by
  unfold Meets
  rw [run_findFrom]
  cases hb : s.scopes.lookup scope name span with
  | ok b =>
    obtain ⟨r,hr⟩ := Findings.referent?_isSome (f := s.toFindings) (ScopeTree.lookup_lt hb)
    exact ⟨.resolved h hid b,h.resolved hid b,rfl,r,hr,rfl⟩
  | error e => exact ⟨.refl h [],trivial⟩

end Names

/-! ## Binding names -/

def State.bound (s : State) (binding : Binding) : State :=
  s.step (.bound s.scopes.bindings.size binding)

section Binding

variable {s : State} {binding : Binding}

lemma referent?_bound (s : State) (binding : Binding) (a : BindingId) : (s.bound binding).referent? a =
      if a = s.scopes.bindings.size then some binding.referent else s.referent? a := by
  have hbindings : (s.bound binding).scopes.bindings = s.scopes.bindings.push binding := rfl
  simp only [Findings.referent?, hbindings, Array.getElem?_push]
  split <;> simp

lemma referent?_size (s : State) : s.referent? s.scopes.bindings.size = none := by
  simp [Findings.referent?]

lemma referent?_bound_of_some {a : BindingId} {r : Referent} (h : s.referent? a = some r) :
    (s.bound binding).referent? a = some r := by
  rw [referent?_bound, if_neg, h]
  rintro rfl
  cases (referent?_size s).symm.trans h

lemma agrees_bound (s : State) (binding : Binding) (M : List Node) : Agrees M s.toFindings (s.bound binding).toFindings :=
  { Agrees.refl M s.toFindings with
    moves := fun _ r hr => ⟨r,referent?_bound_of_some hr,.refl r⟩ }

lemma run_declareIn_eq (s : State) (scope : ScopeId) (name : String) (span : Span)
    (r : Referent) : (declareIn scope name span r).run s = match s.scopes.vet scope name span with
      | .error e => (.error (.error e), s)
      | .ok () => (.ok s.scopes.bindings.size, s.bound ⟨name,scope,span,r⟩) := by
  have hrun : (declareIn scope name span r).run s = (ofExcept (s.scopes.vet scope name span) >>= fun _ => do
        perform (.bound s.scopes.bindings.size ⟨name,scope,span,r⟩)
        return s.scopes.bindings.size : Check BindingId).run s := rfl
  rw [hrun, run_bind]
  cases s.scopes.vet scope name span <;> rfl

lemma run_declareIn (s : State) (scope : ScopeId) (name : String) (span : Span) (r : Referent) :
    (∃ e, (declareIn scope name span r).run s = (.error (.error e), s)) ∨ (declareIn scope name span r).run s =
        (.ok s.scopes.bindings.size, s.bound ⟨name,scope,span,r⟩) := by
  rw [run_declareIn_eq]
  cases s.scopes.vet scope name span with
  | ok => exact .inr rfl
  | error e => exact .inl ⟨e,rfl⟩

section

variable (hs : Sound s) (ht : t.isValue = true) {mutable : Bool}
include hs ht

/-- A variable that holds a value from the start may be bound at any time. -/
theorem Advances.boundVar (hbinding : binding.referent = .initializedVar t mutable) : Advances [] [] s (s.bound binding) := by
  have hnew {a : BindingId} {r : Referent} (hr : (s.bound binding).referent? a = some r) :
      s.referent? a = some r ∨ r = .initializedVar t mutable := by
    rw [referent?_bound] at hr
    split at hr
    · exact .inr ((Option.some.inj hr).symm.trans hbinding)
    · exact .inl hr
  refine { referents := fun a r hr => ⟨r,referent?_bound_of_some hr,.inl rfl⟩,
           constants := fun _ _ hd => hd, newConstants := fun _ _ hd => .inl hd,
           typeOf := fun _ _ _ => rfl, refersTo := fun _ _ _ => rfl, valueOf := fun _ _ _ => rfl,
           introduces := fun _ _ _ => rfl, current := rfl, parents := fun _ _ hp => hp,
           resultTypes := rfl, errors := fun hf => hf, steps := .single ⟨rfl,?_⟩, sound := ?_,
           obeys := ?_, settled := ?_ }
  · rw [hbinding]
    exact .param mutable ht
  · refine hs.update (fun _ => rfl) (fun _ _ h => h) hs.results (fun hf => hf)
      (fun _ d _ _ _ _ _ => agrees_bound s _ d.nodes)
      (fun a type stage hr => ⟨type,stage,referent?_bound_of_some hr⟩) fun a r hr => ?_
    rcases hnew hr with hold | rfl
    · exact .inl hold
    · refine .inr ⟨⟨t,rfl,ht⟩,?_⟩
      rintro type stage ⟨⟩
  · intro e he
    cases he
  · intro a r hnone hr
    rcases hnew hr with hold | rfl
    · cases hnone.symm.trans hold
    · exact .inl rfl

lemma Proceeds.boundVar (hbinding : binding.referent = .initializedVar t mutable) : Proceeds [] [] s (s.bound binding) where
  toAdvances := .boundVar hs ht hbinding
  fresh := (Proceeds.refl (.nil hs) []).fresh
  inSequence := .of_untyped nofun

lemma Meets.declareVar (scope : ScopeId) (name : String) (span : Span) (mutable : Bool) :
    Meets [] s (declareIn scope name span (.initializedVar t mutable)) fun _ _ => True := by
  unfold Meets
  rcases run_declareIn s scope name span (.initializedVar t mutable) with ⟨e,hrun⟩ | hrun
  · rw [hrun]
    exact ⟨.refl (.nil hs) [],trivial⟩
  · rw [hrun]
    exact ⟨.boundVar hs ht rfl,trivial⟩

end

end Binding

end Opal
