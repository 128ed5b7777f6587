import Mathlib.Algebra.Order.Group.Multiset
import Opal.Check.Tree
import Opal.Proofs.DeclaredNames
import Opal.Proofs.Statements

/-!
# The examination of a scope

Between the phases of the examination of a scope there are bindings that were not examined; at the end there are none, so the
whole is a step like any other.
-/

namespace Opal

open Findings (Agrees)
open List

variable {s s1 : State} {D : List Decl}

variable {b : BindingId} {s' : State} {c : ConstDecl} {d : Decl} {f : Findings} {own : List BindingId} {N : List Node}
    {st : Stmt} {m : BindingId → Check Unit} {Q : State → Prop} {id : NodeId}

/-! ## The parts of a scope -/

/-- The nodes in the signature of a declaration. -/
def Decl.head : Decl → List Node
  | .func d => d.head
  | _ => []

/-- The nodes that are examined together with a declaration, after the names in `f` were bound. -/
def Decl.inner (f : Findings) : Decl → List Node
  | .var d => d.parts
  | .const d => if f.introduces[d.id]? = none then d.parts else []
  | .func d => d.body.nodes

/-- The declaration itself, and the nodes that are examined when a constant is evaluated. -/
def Decl.deferred (f : Findings) (d : Decl) : List Node :=
  match d with
  | .const c => if f.introduces[c.id]? = none then [.decl d] else c.parts ++ [.decl d]
  | _ => [.decl d]

lemma Decl.nodes_eq (f : Findings) (d : Decl) : d.nodes = d.head ++ d.inner f ++ d.deferred f := by
  cases d with
  | var d => rw [Decl.nodes, d.nodes_eq]; rfl
  | const d =>
    simp only [Decl.nodes, d.nodes_eq, Decl.head, Decl.inner, Decl.deferred]
    split <;> simp
  | func d => rw [Decl.nodes, d.nodes_eq]; rfl

lemma Decl.self_mem_deferred (f : Findings) (d : Decl) : Node.decl d ∈ d.deferred f := by
  cases d with
  | const c =>
    rw [Decl.deferred]
    split <;> simp
  | var | func => exact mem_singleton_self _

lemma Decl.deferred_const (h : f.introduces[c.id]? = some b) : (Decl.const c).deferred f = c.nodes := by
  rw [Decl.deferred, if_neg (by simp [h]), c.nodes_eq]

instance Decl.closed_head (d : Decl) : Closed d.head := by
  cases d <;> simp only [Decl.head] <;> infer_instance

instance Decl.closed_inner (f : Findings) (d : Decl) : Closed (d.inner f) := by
  cases d <;> rw [Decl.inner]
  case const => split <;> infer_instance
  all_goals infer_instance

def Stmt.inner (f : Findings) (st : Stmt) : List Node :=
  match st.decl? with
  | some d => d.inner f
  | none => st.nodes

instance Stmt.closed_inner (f : Findings) (st : Stmt) : Closed (st.inner f) := by
  unfold Stmt.inner
  split <;> infer_instance

lemma Stmt.nodes_of_decl (h : st.decl? = some d) : st.nodes = d.nodes := by
  obtain ⟨span,form⟩ := st
  cases form with
  | decl d' =>
    obtain rfl := Option.some.inj h
    rw [Stmt.nodes, StmtForm.nodes]
  | _ => cases h

/-- The nodes of a scope: the signatures, then what is examined with the statements, then the rest. -/
theorem stmts_perm (f : Findings) (L : List Stmt) : (L.flatMap Stmt.nodes).Perm
    ((L.filterMap Stmt.decl?).flatMap Decl.head ++ L.flatMap (Stmt.inner f) ++
      (L.filterMap Stmt.decl?).flatMap (Decl.deferred f)) := by
  induction L with
  | nil => exact .refl _
  | cons st L ih =>
    have ih := Multiset.coe_eq_coe.2 ih
    refine Multiset.coe_eq_coe.1 ?_
    cases hst : st.decl? with
    | none =>
      rw [filterMap_cons_none hst, flatMap_cons, flatMap_cons]
      simp only [← Multiset.coe_add, ih, Stmt.inner, hst]
      ac_rfl
    | some d =>
      rw [filterMap_cons_some hst, flatMap_cons, flatMap_cons, flatMap_cons, flatMap_cons, Stmt.nodes_of_decl hst, d.nodes_eq f]
      simp only [← Multiset.coe_add, ih, Stmt.inner, hst]
      ac_rfl

/-- A loop examines the nodes of all members. A member that is left meets `I`, whatever members before it do,
and one that was examined meets `P` from then on. What is no member meets `I` at the end if no member does
anything to it. -/
theorem Runs.forM {α : Type} {task : α → Run Unit} {region : α → List Node} {own : α → List BindingId}
    {I P : α → State → Prop} [∀ a, Closed (region a)] : ∀ (l : List α) (s : State),
    Ready (l.flatMap region) s → (∀ b ∈ l.flatMap own, s.referent? b ≠ none) → (∀ a ∈ l, I a s) →
    (∀ a ∈ l, ∀ s, Ready (region a) s → I a s → Runs (region a) (own a) s (task a) (P a)) →
    l.Pairwise (fun a a' => ∀ s s', Sound s → Advances (region a) (own a) s s' → I a' s → I a' s') →
    (∀ a ∈ l, ∀ N own' s s', Sound s → Advances N own' s s' → Agrees (region a) s.toFindings s'.toFindings → P a s → P a s') →
    Runs (l.flatMap region) (l.flatMap own) s (l.forM task) fun s' => (∀ a ∈ l, P a s') ∧
      ∀ a', (∀ a ∈ l, ∀ s s', Sound s → Advances (region a) (own a) s s' → I a' s → I a' s') → I a' s → I a' s'
  | [], s, hready, _, _, _, _, _ => .pure hready ⟨by simp,fun _ _ h => h⟩
  | a :: l, s, hready, hown, hI, htask, hstable, hP => by
    obtain ⟨hfirst,hrest⟩ := pairwise_cons.1 hstable
    have hone := htask a mem_cons_self s hready.left (hI a mem_cons_self)
    refine Runs.bind hready hone (fun s1 hstep hPa => ?_) fun b hb => hown b (mem_append_right _ hb)
    have hown1 (b) (hb : b ∈ l.flatMap own) : s1.referent? b ≠ none :=
      fun hnone => hown b (mem_append_right _ hb) (hstep.referent?_eq_none hnone)
    have hI1 (a') (ha' : a' ∈ l) : I a' s1 :=
      hfirst a' ha' s s1 hready.sound hstep (hI a' (mem_cons_of_mem _ ha'))
    refine (Runs.forM l s1 (hready.right hstep) hown1 hI1 (fun a' ha' => htask a' (mem_cons_of_mem _ ha')) hrest
      fun a' ha' => hP a' (mem_cons_of_mem _ ha')).mono ?_
    rintro s2 hstep2 ⟨hall,hother⟩ ha
    refine ⟨forall_mem_cons.2 ⟨hP a mem_cons_self _ _ s1 s2 hstep.sound hstep2 ha hPa,hall⟩,fun a' hkeep hI => ?_⟩
    obtain ⟨hkeep,hkeeps⟩ := forall_mem_cons.1 hkeep
    exact hother a' hkeeps (hkeep s s1 hready.sound hstep hI)

/-! ## While the declarations of a scope are examined -/

lemma Sound.parts_of_settled (hs : Sound s) {type : Option Ty} {stage : ConstStage} (hc : s.constant? b = some c)
    (hr : s.referent? b = some (.const type stage)) (hpend : stage ≠ .pending)
    (hprog : stage ≠ .inProgress) : s.ObeysOn c.parts ∧ s.InSequence c.parts := by
  have hstage := hs.stages b c type stage hc hr
  cases stage with
  | pending => exact absurd rfl hpend
  | inProgress => exact absurd rfl hprog
  | done v => exact hstage.1
  | failed => exact hstage

/-- What stays true of the declarations `D` after their names were bound in `s1`. -/
structure Between (D : List Decl) (s1 s : State) : Prop where
  introduces : ∀ d ∈ D, s.introduces[d.id]? = s1.introduces[d.id]?
  /-- A declaration is inside no constant that can be evaluated. -/
  reserved : ∀ d ∈ D, ∀ b c, s.constant? b = some c → s.referent? b = some (.const none .pending) → d.id ∈ c.ids → d.id = c.id
  errors : s1.Failing → s.Failing

lemma Between.step (h : Between D s1 s) (hs : Sound s) (hstep : Advances N own s s')
    (hN : ∀ d ∈ D, d.id ∉ N.map Node.id) : Between D s1 s' where
  introduces d hd := by
    rw [← h.introduces d hd]
    by_cases hset : Settles s s' d.id
    · obtain ⟨c,⟨b,r,hc,hpend,-,-⟩,hid⟩ := hset
      rw [h.reserved d hd b c hc hpend hid, (hs.declared b c hc).1]
      exact (hstep.sound.declared b c (hstep.constants b c hc)).1
    · exact hstep.introduces d.id (hN d hd) hset
  reserved d hd b c hc hpend := by
    -- A constant that the step declares is not pending after it.
    rcases hstep.newConstants b c hc with hold | ⟨hnone,-⟩
    · exact h.reserved d hd b c hold (Evolves.pending_before hs hstep.toEvolves hold hpend)
    · exact absurd rfl (hstep.settled b _ hnone hpend).1
  errors hf := hstep.errors (h.errors hf)

lemma Declared.between (h : Declared D s s1) (hready : Ready (D.flatMap Decl.nodes) s) (hcalm : Calm s) : Between D s1 s1 where
  introduces _ _ := rfl
  reserved d hd b c hc _ hid := by
    rcases h.newConstants b c hc with hold | ⟨hmem,-⟩
    · exact (old_apart hready hcalm hold (decl_id_mem (mem_map_of_mem hd)) hid).elim
    · rw [eq_of_id_mem hready.nodup hd hmem d.id_mem_ids hid]
      rfl
  errors := id

lemma Evolves.referent?_of_notMem (h : Evolves N own s s') {r : Referent} (hr : s.referent? b = some r)
    (hconst : r.isConst = false) (hb : b ∉ own) : s'.referent? b = some r := by
  obtain ⟨r',hr',rfl | ⟨rfl,-⟩ | ⟨hmem,-⟩⟩ := h.referents b r hr
  · exact hr'
  · cases hconst
  · exact absurd hmem hb

/-- What a declaration is bound to when its turn comes. -/
def Decl.Awaits : Decl → Referent → Prop
  | .var d, r => r = .declaredVar d.mutable
  | .const _, r => ∃ type stage, r = .const type stage
  | .func _, r => ∃ t fs, r = .func t fs

lemma Decl.awaits_referent (d : Decl) : d.Awaits d.referent := by
  cases d with
  | var => rfl
  | const | func => exact ⟨_,_,rfl⟩

lemma Decl.Awaits.step (h : ∃ r, s.referent? b = some r ∧ d.Awaits r) (hstep : Evolves N own s s')
    (hb : ∀ v, d = .var v → b ∉ own) : ∃ r, s'.referent? b = some r ∧ d.Awaits r := by
  obtain ⟨r,hr,hwait⟩ := h
  obtain ⟨r',hr',hm⟩ := hstep.moves hr
  cases d with
  | var v =>
    obtain rfl := hwait
    exact ⟨_,hstep.referent?_of_notMem hr rfl (hb v rfl),rfl⟩
  | const c =>
    obtain ⟨type,stage,rfl⟩ := hwait
    cases hm <;> exact ⟨_,hr',_,_,rfl⟩
  | func f =>
    obtain ⟨t,fs,rfl⟩ := hwait
    cases hm <;> exact ⟨_,hr',_,_,rfl⟩

/-! ## Signatures -/

lemma run_ifAccepted (id : NodeId) (m : BindingId → Check Unit) (s : State) : (ifAccepted id m).run s =
      match s.introduces[id]? with
      | some b => (m b).run s
      | none => (.ok (), s) := by
  have hrun : (ifAccepted id m).run s = (match s.introduces[id]? with
        | some b => m b
        | none => Pure.pure () : Check Unit).run s := rfl
  rw [hrun]
  cases s.introduces[id]? <;> rfl

lemma run_reported_ifAccepted (id : NodeId) (m : BindingId → Check Unit) (s : State) :
    ((reported (ifAccepted id m)).run s).2 = match s.introduces[id]? with
      | some b => ((reported (m b)).run s).2
      | none => s := by
  rw [run_reported, run_ifAccepted]
  cases s.introduces[id]? <;> rfl

lemma Runs.accepted (hb : s.introduces[id]? = some b)
    (h : Runs N own s (reported (m b)) Q) : Runs N own s (reported (ifAccepted id m)) Q := by
  unfold Runs at h ⊢
  rw [run_reported] at h ⊢
  rw [run_ifAccepted, hb]
  exact h

lemma Runs.refused (hnone : s.introduces[id]? = none) (hready : Ready N s)
    (h : Q s) : Runs N own s (reported (ifAccepted id m)) Q := by
  unfold Runs
  rw [run_reported, run_ifAccepted, hnone]
  exact ⟨.refl hready own,h⟩

def Decl.ownFunc (f : Findings) : Decl → List BindingId
  | .func d => (f.introduces[d.id]?).toList
  | _ => []

def Decl.ownVar (f : Findings) : Decl → List BindingId
  | .var d => (f.introduces[d.id]?).toList
  | _ => []

lemma Decl.introduces_of_mem_ownFunc (h : b ∈ d.ownFunc f) : f.introduces[d.id]? = some b := by
  cases d with
  | func d => exact Option.mem_toList.1 h
  | var | const => cases h

lemma Decl.introduces_of_mem_ownVar (h : b ∈ d.ownVar f) : f.introduces[d.id]? = some b := by
  cases d with
  | var d => exact Option.mem_toList.1 h
  | func | const => cases h

lemma signature_runs (d : Decl) (hready : Ready d.head s) (hin : s.introduces[d.id]? = s1.introduces[d.id]?)
    (hrefused : s1.introduces[d.id]? = none → s.Failing)
    (hfunc : ∀ f b, d = .func f → s1.introduces[d.id]? = some b → s.referent? b = some .declaredFunc) :
    Runs d.head (d.ownFunc s1.toFindings) s (reported (signature d)) fun s' =>
      (∀ f b, d = .func f → s1.introduces[d.id]? = some b → SettledAt s' b) ∧ s'.Covers d.head := by
  cases d with
  | func f =>
    have hin' : s.introduces[f.id]? = s1.introduces[f.id]? := hin
    cases hb : s1.introduces[f.id]? with
    | none =>
      refine Runs.refused (hin'.trans hb) hready ⟨?_,fun hf => absurd (hrefused hb) hf⟩
      intro _ b _ hb'
      cases hb.symm.trans hb'
    | some b =>
      have hown : (Decl.func f).ownFunc s1.toFindings = [b] := by
        rw [Decl.ownFunc, hb]
        rfl
      rw [hown]
      refine (Runs.accepted (hin'.trans hb)
        (learnSignature_runs f hready (hfunc f b rfl hb))).mono fun s' _ ⟨hset,hcovers⟩ => ⟨?_,hcovers⟩
      intro _ b' _ hb'
      exact Option.mem_unique hb hb' ▸ hset
  | var | const =>
    refine Runs.pure hready ⟨?_,.nil⟩
    rintro _ _ ⟨⟩

namespace Declared

variable {s s1 : State} {D : List Decl}

lemma signatures_run (h : Declared D s s1) (hnodup : (D.map Decl.id).Nodup)
    (hbetween : Between D s1 s1) (hready : Ready (D.flatMap Decl.head) s1)
    (hheads : ∀ d ∈ D, d.id ∉ (D.flatMap Decl.head).map Node.id) :
    Runs (D.flatMap Decl.head) (D.flatMap (Decl.ownFunc s1.toFindings)) s1
      (D.forM fun d => reported (signature d)) fun s' => ∀ d ∈ D,
        (∀ f b, d = .func f → s1.introduces[d.id]? = some b → SettledAt s' b) ∧ s'.Covers d.head := by
  refine (Runs.forM (I := fun d s' => Between D s1 s' ∧
    ∀ f b, d = .func f → s1.introduces[d.id]? = some b → s'.referent? b = some .declaredFunc)
    D s1 hready ?_ ?_ ?_ ?_ ?_).mono fun _ _ h => h.1
  · intro b hb
    obtain ⟨d,hd,hb⟩ := mem_flatMap.1 hb
    rw [(h.accepted d hd b (Decl.introduces_of_mem_ownFunc hb)).2.1]
    exact Option.some_ne_none _
  · rintro d hd
    refine ⟨hbetween,?_⟩
    rintro f b rfl hb
    exact (h.accepted _ hd b hb).2.1
  · rintro d hd s' hready' ⟨hbetween',hfunc⟩
    exact signature_runs d hready' (hbetween'.introduces d hd) (fun hnone => hbetween'.errors (h.refused d hd hnone)) hfunc
  · refine (pairwise_map.1 hnodup).imp_of_mem ?_
    rintro d d' hd hd' hne s' s'' hs hstep ⟨hbetween',hfunc⟩
    refine ⟨hbetween'.step hs hstep fun d0 hd0 hid => hheads d0 hd0 ?_,?_⟩
    · rw [map_flatMap]
      exact mem_flatMap.2 ⟨d,hd,hid⟩
    · rintro f b rfl hb
      refine hstep.referent?_of_notMem (hfunc f b rfl hb) rfl fun hown => hne ?_
      exact h.injective d hd _ hd' b (Decl.introduces_of_mem_ownFunc hown) hb
  · rintro d - N own s' s'' hs hstep ha ⟨hset,hcovers⟩
    exact ⟨fun f b hf hb => (hset f b hf hb).step hs hstep,hcovers.agrees ha⟩

end Declared

/-! ## Statements -/

/-- The examinations of what is inside a declaration achieve what they should. -/
def Decl.Examined : Decl → Prop
  | .var d => d.init.operand.Examined
  | .const _ => True
  | .func d => Examines d.body.nodes d.body.check

/-- The same for a statement, which may be a declaration. -/
def Stmt.Examined (st : Stmt) : Prop :=
  match st.decl? with
  | some d => d.Examined
  | none => Checks st.nodes st.check

lemma Expr.expr_operand (e : Expr) : e.operand.expr = e := by
  cases e
  rw [Expr.operand]

lemma Decl.check_runs (hd : d.Examined) (hready : Ready (d.inner s1.toFindings) s) (hcalm : Calm s)
    (hin : s.introduces[d.id]? = s1.introduces[d.id]?)
    (hrefused : s1.introduces[d.id]? = none → s.Failing)
    (hwait : ∀ b, s1.introduces[d.id]? = some b → ∃ r, s.referent? b = some r ∧ d.Awaits r) :
    Runs (d.inner s1.toFindings) (d.ownVar s1.toFindings) s (reported d.check) fun s' =>
      (∀ b, s1.introduces[d.id]? = some b → SettledAt s' b) ∧ s'.Covers (d.inner s1.toFindings) ∧
        ∀ v b, d = .var v → s1.introduces[d.id]? = some b → s'.Avoids (d.inner s1.toFindings) b := by
  have hcheck : ∃ m : BindingId → Check Unit, d.check = ifAccepted d.id m := by
    cases d with
    | var d => cases d; exact ⟨_,by rw [Decl.check, VarDecl.check]; rfl⟩
    | const d => exact ⟨_,by rw [Decl.check]; rfl⟩
    | func d => cases d; exact ⟨_,by rw [Decl.check, FunDecl.check]; rfl⟩
  cases hb : s1.introduces[d.id]? with
  | none =>
    obtain ⟨m,hm⟩ := hcheck
    rw [hm]
    refine Runs.refused (hin.trans hb) hready ⟨?_,fun hf => absurd (hrefused hb) hf,?_⟩
    · rintro _ ⟨⟩
    · rintro _ _ _ ⟨⟩
  | some b =>
    obtain ⟨r,hr,hr'⟩ := hwait b hb
    cases d with
    | var d =>
      obtain ⟨id,name,nameSpan,mutable,type,init,span⟩ := d
      obtain rfl := hr'
      have hown : (Decl.var ⟨id,name,nameSpan,mutable,type,init,span⟩).ownVar s1.toFindings = [b] := by
        rw [Decl.ownVar, show s1.introduces[id]? = some b from hb]
        rfl
      rw [hown, Decl.check, VarDecl.check]
      have hready' : Ready (optionalTypeNodes type ++ init.operand.expr.nodes) s := by
        rw [init.expr_operand]
        exact hready
      have hruns := varDecl_runs name hd hready' hcalm hr
      rw [init.expr_operand] at hruns
      refine (Runs.accepted (hin.trans hb) hruns).mono fun s' _ ⟨hset,hcovers,havoids⟩ =>
        ⟨?_,hcovers,?_⟩
      · rintro _ ⟨⟩
        exact hset
      · rintro _ _ _ ⟨⟩
        exact havoids
    | const d =>
      obtain ⟨type,stage,rfl⟩ := hr'
      have hnil : (Decl.const d).inner s1.toFindings = [] := by
        rw [Decl.inner, if_neg (by simp [show s1.introduces[d.id]? = some b from hb])]
      rw [hnil, Decl.check]
      refine (Runs.accepted (hin.trans hb) (constDecl_runs hready.sound hcalm hr)).mono ?_
      intro s' _ hset
      refine ⟨?_,.nil,by simp⟩
      rintro _ ⟨⟩
      exact hset
    | func d =>
      obtain ⟨id,name,nameSpan,params,ret,body,span⟩ := d
      obtain ⟨t,fs,rfl⟩ := hr'
      have hruns := (funDecl_meets params hd hready hcalm hr).reported hready.sound
      refine (Runs.accepted (hin.trans hb) hruns).mono fun s' hstep hcovers =>
        ⟨?_,fun hf => hcovers hf hf,by simp⟩
      rintro _ ⟨⟩
      -- The signature was found before, or something is wrong.
      have hset : SettledAt s b := ⟨_,hr,fun ht => hcalm.signatures b fs (ht ▸ hr)⟩
      exact hset.step hready.sound hstep

def Stmt.ownVar (f : Findings) (st : Stmt) : List BindingId :=
  match st.decl? with
  | some d => d.ownVar f
  | none => []

lemma Stmt.introduces_of_mem_ownVar (h : b ∈ st.ownVar f) : ∃ d, st.decl? = some d ∧ f.introduces[d.id]? = some b := by
  unfold Stmt.ownVar at h
  split at h
  · next d hd => exact ⟨d,hd,Decl.introduces_of_mem_ownVar h⟩
  · cases h

lemma Stmt.check_of_decl (h : st.decl? = some d) : st.check = d.check := by
  obtain ⟨span,form⟩ := st
  cases form with
  | decl d' =>
    obtain rfl := Option.some.inj h
    rw [Stmt.check, StmtForm.check]
  | _ => cases h

/-- What is known after a statement of a scope was examined. -/
structure Stmt.Done (s1 : State) (st : Stmt) (s : State) : Prop where
  settled : ∀ d, st.decl? = some d → ∀ b, s1.introduces[d.id]? = some b → SettledAt s b
  covers : s.Covers (st.inner s1.toFindings)
  /-- A variable is not used in its own declaration. -/
  avoids : ∀ v, st.decl? = some (.var v) → ∀ b, s1.introduces[v.id]? = some b → s.Avoids (st.inner s1.toFindings) b

/-- Two statements declare nothing in common. -/
def Stmt.Apart (st st' : Stmt) : Prop :=
  ∀ d, st.decl? = some d → ∀ d', st'.decl? = some d' → d.id ≠ d'.id

/-- The turn of a statement has not come. -/
def Stmt.Awaits (s1 : State) (st : Stmt) (s : State) : Prop :=
  ∀ d, st.decl? = some d → ∀ b, s1.introduces[d.id]? = some b → ∃ r, s.referent? b = some r ∧ d.Awaits r

lemma Stmt.check_runs (hst : st.Examined)
    (hready : Ready (st.inner s1.toFindings) s) (hcalm : Calm s) (hbetween : Between D s1 s)
    (hdecl : ∀ d, st.decl? = some d → d ∈ D ∧ (s1.introduces[d.id]? = none → s1.Failing)) (hwait : st.Awaits s1 s) :
    Runs (st.inner s1.toFindings) (st.ownVar s1.toFindings) s (reported st.check) (st.Done s1) := by
  cases hd : st.decl? with
  | none =>
    have hinner : st.inner s1.toFindings = st.nodes := by simp only [Stmt.inner, hd]
    have hown : st.ownVar s1.toFindings = [] := by simp only [Stmt.ownVar, hd]
    have hchecks : Checks st.nodes st.check := by simpa only [Stmt.Examined, hd] using hst
    rw [hinner] at hready
    rw [hinner, hown]
    exact ((hchecks s hready hcalm).reported hready.sound).mono fun s' _ h =>
      ⟨by simp [hd],fun hf => hinner ▸ h hf hf,by simp [hd]⟩
  | some d =>
    have hinner : st.inner s1.toFindings = d.inner s1.toFindings := by simp only [Stmt.inner, hd]
    have hown : st.ownVar s1.toFindings = d.ownVar s1.toFindings := by simp only [Stmt.ownVar, hd]
    have hexamined : d.Examined := by simpa only [Stmt.Examined, hd] using hst
    obtain ⟨hmem,hrefused⟩ := hdecl d hd
    rw [hinner] at hready
    rw [hinner, hown, Stmt.check_of_decl hd]
    refine (Decl.check_runs hexamined hready hcalm (hbetween.introduces d hmem)
      (fun hnone => hbetween.errors (hrefused hnone)) (hwait d hd)).mono ?_
    rintro s' - ⟨hset,hcovers,havoids⟩
    refine ⟨fun d' hd' => ?_,hinner ▸ hcovers,fun v hv b hb => ?_⟩
    · obtain rfl := Option.mem_unique hd hd'
      exact hset
    · obtain rfl := Option.mem_unique hd hv
      exact hinner ▸ havoids v b rfl hb

lemma Stmt.Done.step (h : st.Done s1 s) (hs : Sound s) (hstep : Advances N own s s')
    (ha : Agrees (st.inner s1.toFindings) s.toFindings s'.toFindings) : st.Done s1 s' :=
  ⟨fun d hd b hb => (h.settled d hd b hb).step hs hstep,h.covers.agrees ha, fun v hv b hb => (h.avoids v hv b hb).agrees ha⟩

namespace Declared

variable {s s1 s2 s3 : State} {D : List Decl} {L : List Stmt} {R : List Node} {own : List BindingId}

section

variable (h : Declared D s s1)
include h

lemma awaits_step {st' : Stmt} (hst : ∀ d, st.decl? = some d → d ∈ D)
    (hst' : ∀ d, st'.decl? = some d → d ∈ D) (hne : st.Apart st')
    (hwait : st'.Awaits s1 s2) (hstep : Evolves R (st.ownVar s1.toFindings) s2 s3) : st'.Awaits s1 s3 := by
  intro d hd b hb
  refine Decl.Awaits.step (hwait d hd b hb) hstep fun v _ hown => ?_
  obtain ⟨d0,hd0,hb0⟩ := Stmt.introduces_of_mem_ownVar hown
  exact hne d0 hd0 d hd (h.injective d0 (hst d0 hd0) d (hst' d hd) b hb0 hb)

/-- After the signatures were found, all statements are examined. The turn of no other statement comes. -/
theorem stmts_run (hmem : ∀ st ∈ L, ∀ d, st.decl? = some d → d ∈ D) (hpair : L.Pairwise Stmt.Apart)
    (hL : ∀ st ∈ L, st.Examined) (hready : Ready (L.flatMap (Stmt.inner s1.toFindings)) s2)
    (hcalm : Calm s2) (hbetween : Between D s1 s2) (hwait : ∀ st ∈ L, st.Awaits s1 s2)
    (hids : ∀ d ∈ D, d.id ∉ (L.flatMap (Stmt.inner s1.toFindings)).map Node.id) :
    Runs (L.flatMap (Stmt.inner s1.toFindings)) (L.flatMap (Stmt.ownVar s1.toFindings)) s2
      (L.forM fun st => reported st.check) fun s' => (∀ st ∈ L, st.Done s1 s') ∧
        ∀ st' : Stmt, (∀ d, st'.decl? = some d → d ∈ D) → (∀ st ∈ L, st.Apart st') → st'.Awaits s1 s2 → st'.Awaits s1 s' := by
  have hkeep {st st' : Stmt} (hst : st ∈ L) (hst' : ∀ d, st'.decl? = some d → d ∈ D)
      (hne : st.Apart st') (s' s'' : State) (hs : Sound s')
      (hstep : Advances (st.inner s1.toFindings) (st.ownVar s1.toFindings) s' s'')
      (hI : Calm s' ∧ Between D s1 s' ∧ st'.Awaits s1 s') :
      Calm s'' ∧ Between D s1 s'' ∧ st'.Awaits s1 s'' := by
    obtain ⟨hcalm',hbetween',hwait'⟩ := hI
    refine ⟨hcalm'.step hstep,hbetween'.step hs hstep fun d hd hid => hids d hd ?_,
      h.awaits_step (hmem st hst) hst' hne hwait' hstep.toEvolves⟩
    rw [map_flatMap]
    exact mem_flatMap.2 ⟨st,hst,hid⟩
  refine (Runs.forM (I := fun st s' => Calm s' ∧ Between D s1 s' ∧ st.Awaits s1 s') (P := Stmt.Done s1)
    L s2 hready ?_ ?_ ?_ ?_ ?_).mono ?_
  · intro b hb
    obtain ⟨st,hst,hb⟩ := mem_flatMap.1 hb
    obtain ⟨d,hd,hb⟩ := Stmt.introduces_of_mem_ownVar hb
    obtain ⟨r,hr,-⟩ := hwait st hst d hd b hb
    rw [hr]
    exact Option.some_ne_none r
  · exact fun st hst => ⟨hcalm,hbetween,hwait st hst⟩
  · rintro st hst s' hready' ⟨hcalm',hbetween',hwait'⟩
    refine Stmt.check_runs (hL st hst) hready' hcalm' hbetween' (fun d hd => ?_) hwait'
    have hd' := hmem st hst d hd
    exact ⟨hd',h.refused d hd'⟩
  · refine hpair.imp_of_mem ?_
    intro st st' hst hst' hne
    exact hkeep hst (hmem st' hst') hne
  · rintro st - N own s' s'' hs hstep ha hdone
    exact hdone.step hs hstep ha
  · rintro s' - ⟨hdone,hother⟩
    refine ⟨hdone,fun st' hst' hne hwait' => ?_⟩
    exact (hother st' (fun st hst => hkeep hst hst' (hne st hst)) ⟨hcalm,hbetween,hwait'⟩).2.2

lemma calm (hcalm : Calm s) (hstep : Advances R own s1 s2)
    (hset : ∀ f b, Decl.func f ∈ D → s1.introduces[f.id]? = some b → SettledAt s2 b) : Calm s2 := by
  refine ⟨hstep.idle fun b type hr => ?_,fun b params hr => ?_⟩
  · cases hb : s.referent? b with
    | none =>
      obtain ⟨d,-,-,heq⟩ := h.newReferents b _ hb hr
      cases d <;> cases heq
    | some r =>
      obtain rfl := Option.mem_unique (h.referents b r hb) hr
      exact hcalm.idle b type hb
  · rcases hstep.func_before hr with hf | ⟨params',hb1⟩
    · exact hf
    cases hb : s.referent? b with
    | none =>
      obtain ⟨d,hd,hid,heq⟩ := h.newReferents b _ hb hb1
      cases d with
      | func f =>
        obtain ⟨r,hr',hsettled⟩ := hset f b hd hid
        obtain rfl := Option.mem_unique hr' hr
        exact hsettled rfl
      | var | const => cases heq
    | some r =>
      obtain rfl := Option.mem_unique (h.referents b r hb) hb1
      exact hstep.errors (h.errors (hcalm.signatures b params' hb))

lemma awaits (hstep : Evolves R (D.flatMap (Decl.ownFunc s1.toFindings)) s1 s2) (hd : d ∈ D)
    (hb : s1.introduces[d.id]? = some b) : ∃ r, s2.referent? b = some r ∧ d.Awaits r := by
  have hr := (h.accepted d hd b hb).2.1
  refine Decl.Awaits.step ⟨_,hr,d.awaits_referent⟩ hstep ?_
  rintro v rfl hown
  -- A variable is not what the declaration of a function introduces.
  obtain ⟨d',hd',hown⟩ := mem_flatMap.1 hown
  have hr' := (h.accepted d' hd' b (Decl.introduces_of_mem_ownFunc hown)).2.1
  cases d' with
  | func f => cases hr.symm.trans hr'
  | var | const => cases hown

end

/-! ### The examination as a whole -/

variable {Z : List Node}

section

variable (h : Declared D s s1)
include h

lemma evaluated (hs : Sound s) (hev : Evaluated s1 s3 c) :
    Evaluated s s3 c ∨ ∃ b, Decl.const c ∈ D ∧ s1.introduces[c.id]? = some b := by
  obtain ⟨b,r,hc,hpend,hr,hev⟩ := hev
  rcases h.newConstants b c hc with hold | ⟨hmem,hid⟩
  · obtain ⟨-,type,stage,hb⟩ := hs.declared b c hold
    obtain ⟨⟩ := (h.referents b _ hb).symm.trans hpend
    exact .inl ⟨b,r,hold,hb,hr,hev⟩
  · exact .inr ⟨b,hmem,hid⟩

/-- The examination of a scope changes only what the examination of its nodes may change. -/
theorem evolves (hs : Sound s) (hdecl : ∀ d ∈ D, Node.decl d ∈ Z)
    (hconst : ∀ c b, Decl.const c ∈ D → s1.introduces[c.id]? = some b → c.nodes ⊆ Z)
    (hstep : Evolves R own s1 s3) (hown : ∀ b ∈ own, s.referent? b = none) : Evolves (R ++ Z) [] s s3 := by
  have hsettles {id : NodeId} (hid : id ∉ (R ++ Z).map Node.id) (hset : ¬ Settles s s3 id) :
      id ∉ R.map Node.id ∧ ¬ Settles s1 s3 id := by
    rw [map_append, mem_append, not_or] at hid
    refine ⟨hid.1,?_⟩
    rintro ⟨c,hev,hmem⟩
    rcases h.evaluated hs hev with hev | ⟨b,hc,hb⟩
    · exact hset ⟨c,hev,hmem⟩
    · exact hid.2 (map_subset _ (hconst c b hc hb) hmem)
  refine { referents := ?_, constants := fun b c hc => hstep.constants b c (h.constants b c hc),
           newConstants := ?_, typeOf := ?_, refersTo := ?_, valueOf := ?_, introduces := ?_,
           current := hstep.current.trans h.current, parents := ?_,
           resultTypes := hstep.resultTypes.trans h.resultTypes,
           errors := hstep.errors ∘ h.errors }
  · intro b r hr
    obtain ⟨r',hr',hcase⟩ := hstep.referents b r (h.referents b r hr)
    refine ⟨r',hr',hcase.imp_right (.imp_right ?_)⟩
    rintro ⟨hmem,-⟩
    cases (hown b hmem).symm.trans hr
  · intro b c hc
    rcases hstep.newConstants b c hc with hc1 | ⟨hnone,hnew⟩
    · refine (h.newConstants b c hc1).imp_right fun ⟨hmem,hid⟩ => ?_
      exact ⟨(h.accepted _ hmem b hid).1,.inl fun x hx =>
        mem_append_right _ (hconst c b hmem hid hx)⟩
    · refine .inr ⟨?_,?_⟩
      · cases hb : s.referent? b with
        | none => rfl
        | some r => cases hnone.symm.trans (h.referents b r hb)
      · rcases hnew with hsub | ⟨c0,hev,hsub⟩
        · exact .inl fun x hx => mem_append_left _ (hsub hx)
        · rcases h.evaluated hs hev with hev | ⟨b0,hc0,hb0⟩
          · exact .inr ⟨c0,hev,hsub⟩
          · exact .inl fun x hx => mem_append_right _ (hconst c0 b0 hc0 hb0 (hsub hx))
  · intro id hid hset
    obtain ⟨hR,hset1⟩ := hsettles hid hset
    rw [hstep.typeOf id hR hset1, h.typeOf]
  · intro id hid hset
    obtain ⟨hR,hset1⟩ := hsettles hid hset
    rw [hstep.refersTo id hR hset1, h.refersTo]
  · intro id hid hset
    obtain ⟨hR,hset1⟩ := hsettles hid hset
    rw [hstep.valueOf id hR hset1, h.valueOf]
  · intro id hid hset
    obtain ⟨hR,hset1⟩ := hsettles hid hset
    rw [hstep.introduces id hR hset1, h.introduces]
    intro hmem
    obtain ⟨d,hd,rfl⟩ := mem_map.1 hmem
    exact hid (map_subset _ (subset_append_right _ _) (id_mem_of_decl (hdecl d hd)))
  · intro i p hp
    exact hstep.parents i p (h.parents.symm ▸ hp)

/-- A constant of the scope that was accepted has been evaluated in the end. -/
theorem const_settled (hstep : Evolves R own s1 s3) (hc : Decl.const c ∈ D) (hb : s1.introduces[c.id]? = some b)
    (hset : SettledAt s3 b) : s3.constant? b = some c ∧ ∃ type stage,
      s3.referent? b = some (.const type stage) ∧ stage ≠ .pending ∧ stage ≠ .inProgress := by
  refine ⟨hstep.constants b c ((h.accepted _ hc b hb).2.2 c rfl),?_⟩
  obtain ⟨r,hr,hm⟩ := hstep.moves (h.pending hc hb)
  obtain ⟨r',hr',hsettled⟩ := hset
  obtain rfl := Option.mem_unique hr hr'
  cases hm <;> exact ⟨_,_,hr,hsettled⟩

lemma advances (hs : Sound s) (hstep : Advances R own s1 s3) (hown : ∀ b ∈ own, s.referent? b = none)
    (hset : ∀ d ∈ D, ∀ b, s1.introduces[d.id]? = some b → SettledAt s3 b) :
    Advances (R ++ D.flatMap (Decl.deferred s1.toFindings)) [] s s3 where
  toEvolves := by
    refine h.evolves hs (fun d hd => ?_) (fun c b hc hb x hx => ?_) hstep.toEvolves hown
    · exact mem_flatMap.2 ⟨d,hd,d.self_mem_deferred _⟩
    · exact mem_flatMap.2 ⟨_,hc,Decl.deferred_const hb ▸ hx⟩
  steps := h.steps.trans hstep.steps
  sound := hstep.sound
  obeys := by
    refine .append hstep.obeys fun e he t ht => ?_
    obtain ⟨d,hd,he⟩ := mem_flatMap.1 he
    cases d with
    | const c =>
      cases hb : s1.introduces[c.id]? with
      | none => simp [Decl.deferred, hb] at he
      | some b =>
        have hsub : c.parts ⊆ D.flatMap (Decl.deferred s1.toFindings) := fun x hx =>
          mem_flatMap.2 ⟨_,hd,Decl.deferred_const hb ▸ c.parts_subset hx⟩
        rw [Decl.deferred_const hb, c.nodes_eq] at he
        have he : Node.expr e ∈ c.parts := by simpa using he
        obtain ⟨hc,type,stage,hr,hpend,hprog⟩ :=
          h.const_settled hstep.toEvolves hd hb (hset _ hd b hb)
        have hobeys := (hstep.sound.parts_of_settled hc hr hpend hprog).1
        exact (hobeys e he t ht).imp_right (.imp_right (·.mono hsub))
    | var | func => simp [Decl.deferred] at he
  settled b r hnone hr := by
    cases hb : s1.referent? b with
    | none => exact hstep.settled b r hb hr
    | some r1 =>
      obtain ⟨d,hd,hid,-⟩ := h.newReferents b r1 hnone hb
      obtain ⟨r',hr',hsettled⟩ := hset d hd b hid
      exact Option.mem_unique hr' hr ▸ hsettled

/-- If nothing is wrong, every declaration introduces a binding and every constant has its value. -/
theorem covers_deferred (hbetween : Between D s1 s3) (hstep : Advances R own s1 s3)
    (hset : ∀ d ∈ D, ∀ b, s1.introduces[d.id]? = some b → SettledAt s3 b) :
    s3.Covers (D.flatMap (Decl.deferred s1.toFindings)) := by
  refine .flatMap fun d hd hf => ?_
  cases hb : s1.introduces[d.id]? with
  | none => exact absurd (hbetween.errors (h.refused d hd hb)) hf
  | some b =>
    have hself : s3.Complete [.decl d] := by
      refine ⟨by simp,by simp,by simp,fun d' hd' => ?_⟩
      rw [Node.decl.inj (mem_singleton.1 hd'), hbetween.introduces d hd, hb]
      rfl
    cases d with
    | const c =>
      obtain ⟨hc,type,stage,hr,hpend,hprog⟩ :=
        h.const_settled hstep.toEvolves hd hb (hset _ hd b hb)
      have hstage := hstep.sound.stages b c type stage hc hr
      rw [Decl.deferred_const hb, c.nodes_eq]
      cases stage with
      | pending => exact absurd rfl hpend
      | inProgress => exact absurd rfl hprog
      | done v => exact hstage.2.complete.append hself
      | failed => exact absurd (hstep.sound.wellFormed b _ hr).1 hf
    | var | func => exact hself

end

end Declared

lemma decls_sublist (L : List Stmt) : ((L.filterMap Stmt.decl?).flatMap Decl.nodes).Sublist (L.flatMap Stmt.nodes) := by
  induction L with
  | nil => exact .slnil
  | cons st L ih =>
    cases hst : st.decl? with
    | none =>
      rw [filterMap_cons_none hst, flatMap_cons]
      exact ih.trans (sublist_append_right _ _)
    | some d =>
      rw [filterMap_cons_some hst, flatMap_cons, flatMap_cons, Stmt.nodes_of_decl hst]
      exact (Sublist.refl _).append ih

lemma nodup_map_id (h : ((D.flatMap Decl.nodes).map Node.id).Nodup) : (D.map Decl.id).Nodup := by
  refine h.sublist ?_
  induction D with
  | nil => exact .slnil
  | cons d D ih =>
    rw [flatMap_cons, map_append, map_cons]
    exact (singleton_sublist.2 d.id_mem_ids).append (ih (Nodup.of_append_right (map_append ▸ flatMap_cons ▸ h)))

/-- The state `s` between the statements `L1` and `L2` of a scope, after which the check comes to `s3`. -/
structure Passes (D : List Decl) (L1 L2 : List Stmt) (s1 s s3 : State) : Prop where
  before : Advances (D.flatMap Decl.head ++ L1.flatMap (Stmt.inner s1.toFindings))
    (D.flatMap (Decl.ownFunc s1.toFindings) ++ L1.flatMap (Stmt.ownVar s1.toFindings)) s1 s
  after : Proceeds (L2.flatMap (Stmt.inner s1.toFindings)) (L2.flatMap (Stmt.ownVar s1.toFindings)) s s3
  done : ∀ st ∈ L1, st.Done s1 s
  awaits : ∀ st ∈ L2, st.Awaits s1 s

/-- After the names were bound, the signatures are found and then the statements are examined. -/
theorem Declared.phases_run {L : List Stmt} (h : Declared D s s1)
    (hcalm : Calm s) (hperm : D.Perm (L.filterMap Stmt.decl?)) (hnodup : (D.map Decl.id).Nodup)
    (hL : ∀ st ∈ L, st.Examined) (hbetween : Between D s1 s1)
    (hready : Ready (D.flatMap Decl.head ++ L.flatMap (Stmt.inner s1.toFindings)) s1)
    (hids : ∀ d ∈ D, d.id ∉ (D.flatMap Decl.head ++ L.flatMap (Stmt.inner s1.toFindings)).map Node.id) :
    Runs (D.flatMap Decl.head ++ L.flatMap (Stmt.inner s1.toFindings))
      (D.flatMap (Decl.ownFunc s1.toFindings) ++ L.flatMap (Stmt.ownVar s1.toFindings)) s1
      (do
        D.forM fun d => reported (signature d)
        L.forM fun st => reported st.check) fun s3 =>
      (∀ st ∈ L, st.Done s1 s3) ∧ s3.Covers (D.flatMap Decl.head ++ L.flatMap (Stmt.inner s1.toFindings)) ∧
          ∀ L1 L2, L = L1 ++ L2 → ∃ s', Passes D L1 L2 s1 s' s3 := by
  have hmem (st) (hst : st ∈ L) (d) (hd : st.decl? = some d) : d ∈ D :=
    hperm.mem_iff.2 (mem_filterMap.2 ⟨st,hst,hd⟩)
  have hpair : L.Pairwise Stmt.Apart :=
    pairwise_filterMap.1 (pairwise_map.1 ((hperm.map Decl.id).nodup_iff.1 hnodup))
  have hheads (d) (hd : d ∈ D) : d.id ∉ (D.flatMap Decl.head).map Node.id := fun hid =>
    hids d hd (map_subset _ (subset_append_left _ _) hid)
  have hstmts (d) (hd : d ∈ D) : d.id ∉ (L.flatMap (Stmt.inner s1.toFindings)).map Node.id :=
    fun hid => hids d hd (map_subset _ (subset_append_right _ _) hid)
  have hbound (b) (hb : b ∈ L.flatMap (Stmt.ownVar s1.toFindings)) : s1.referent? b ≠ none := by
    obtain ⟨st,hst,hb⟩ := mem_flatMap.1 hb
    obtain ⟨d,hd,hb⟩ := Stmt.introduces_of_mem_ownVar hb
    rw [(h.accepted d (hmem st hst d hd) b hb).2.1]
    exact Option.some_ne_none _
  refine Runs.bind hready (h.signatures_run hnodup hbetween hready.left hheads) ?_ hbound
  intro s2 hstep hsigs
  have hcalm2 := h.calm hcalm hstep fun f b hf hb => (hsigs _ hf).1 f b rfl hb
  have hbetween2 := hbetween.step hready.sound hstep hheads
  have hwait (st) (hst : st ∈ L) : st.Awaits s1 s2 :=
    fun d hd b hb => h.awaits hstep.toEvolves (hmem st hst d hd) hb
  obtain ⟨hruns,hdone,-⟩ := h.stmts_run hmem hpair hL (hready.right hstep) hcalm2 hbetween2 hwait hstmts
  refine ⟨hruns,fun ha => ⟨hdone,?_,?_⟩⟩
  · have hcovers : s2.Covers (D.flatMap Decl.head) := .flatMap fun d hd => (hsigs d hd).2
    exact (hcovers.agrees ha).append (.flatMap fun st hst => (hdone st hst).covers)
  · -- the same for the statements before some place, and for those after it
    rintro L1 L2 rfl
    obtain ⟨hpair1,hpair2,hapart⟩ := pairwise_append.1 hpair
    rw [flatMap_append] at hready hstmts hbound
    have hstmts1 (d) (hd : d ∈ D) := fun hid => hstmts d hd
      (map_subset _ (subset_append_left _ (L2.flatMap (Stmt.inner s1.toFindings))) hid)
    have hstmts2 (d) (hd : d ∈ D) := fun hid => hstmts d hd
      (map_subset _ (subset_append_right (L1.flatMap (Stmt.inner s1.toFindings)) _) hid)
    have hready2 := hready.right hstep
    obtain ⟨hruns1,hdone1,hother⟩ := h.stmts_run (fun st hst => hmem st (mem_append_left _ hst)) hpair1
      (fun st hst => hL st (mem_append_left _ hst)) hready2.left hcalm2 hbetween2
      (fun st hst => hwait st (mem_append_left _ hst)) hstmts1
    have hwait2 (st) (hst : st ∈ L2) :=
      hother st (hmem st (mem_append_right _ hst)) (fun st' hst' => hapart st' hst' st hst) (hwait st (mem_append_right _ hst))
    obtain ⟨hruns2,-⟩ := h.stmts_run (fun st hst => hmem st (mem_append_right _ hst)) hpair2
      (fun st hst => hL st (mem_append_right _ hst)) (hready2.right hruns1.toAdvances)
      (hcalm2.step hruns1.toAdvances) (hbetween2.step hready2.sound hruns1.toAdvances hstmts1) hwait2 hstmts2
    refine ⟨_,?_,?_,hdone1,hwait2⟩
    · rw [← append_assoc] at hready
      exact hstep.trans hready.left hruns1.toAdvances fun b hb => hbound b (mem_append_left _ hb)
    · rw [forM_eq_forM, forM_append]
      exact hruns2

end Opal
