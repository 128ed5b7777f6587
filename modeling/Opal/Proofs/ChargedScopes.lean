import Opal.Proofs.ChargedRules
import Opal.Proofs.Hoisting

/-!
# The charges of scopes

A declaration is looked at three times: to bind its name, to find its signature, and to examine its value or body. At most one
of the three is charged to it.
-/

namespace Opal

open List

variable {ds : List Decl} {s : State} {region : Span} {st : Stmt}

/-- The occasions on which a declaration is looked at. -/
inductive Phase where
  | binding
  | signature
  | value

/-- Whether a declaration may be charged on an occasion, from the binding that it introduces. -/
def Phase.charges : Phase → Option BindingId → Decl → Bool
  | .binding, none, _ | .binding, some _, .const _ | .signature, some _, .func _ | .value, some _, .var _ => true
  | _, _, _ => false

namespace State

variable {s s' : State}

/-- What a declaration may be charged with on an occasion. -/
def cost (s : State) (phase : Phase) (d : Decl) : Multiset Site :=
  if phase.charges s.introduces[d.id]? d then {.decl d} else 0

/-- What the declarations of a list may be charged with on an occasion. -/
def costs (s : State) (phase : Phase) (ds : List Decl) : Multiset Site :=
  (ds.map (s.cost phase)).sum

@[simp] lemma costs_nil (s : State) (phase : Phase) : s.costs phase [] = 0 := rfl

@[simp] lemma costs_cons (s : State) (phase : Phase) (d : Decl) (ds : List Decl) :
    s.costs phase (d :: ds) = s.cost phase d + s.costs phase ds := sum_cons

@[simp] lemma costs_append (s : State) (phase : Phase) (ds ds' : List Decl) :
    s.costs phase (ds ++ ds') = s.costs phase ds + s.costs phase ds' := by
  simp [costs]

lemma costs_perm (s : State) (phase : Phase) {ds' : List Decl} (h : ds.Perm ds') : s.costs phase ds = s.costs phase ds' :=
  (h.map _).sum_eq

lemma costs_congr {phase : Phase} : ∀ {ds : List Decl}, (∀ d ∈ ds, s'.introduces[d.id]? = s.introduces[d.id]?) →
    s'.costs phase ds = s.costs phase ds
  | [], _ => rfl
  | d :: ds, h => by
    have hd : s'.cost phase d = s.cost phase d := by rw [cost, cost, h d (.head _)]
    rw [costs_cons, costs_cons, hd, costs_congr fun d' hd' => h d' (.tail _ hd')]

/-- A declaration is charged on one occasion at most. -/
theorem cost_phases (s : State) (d : Decl) : s.cost .binding d + s.cost .signature d + s.cost .value d = {.decl d} := by
  unfold cost
  cases s.introduces[d.id]? <;> cases d <;> simp [Phase.charges]

lemma costs_phases (s : State) : ∀ ds : List Decl,
    s.costs .binding ds + s.costs .signature ds + s.costs .value ds = (ds.map Site.decl : List Site)
  | [] => rfl
  | d :: ds => by
    calc s.costs .binding (d :: ds) + s.costs .signature (d :: ds) + s.costs .value (d :: ds)
        = (s.cost .binding d + s.cost .signature d + s.cost .value d) +
          (s.costs .binding ds + s.costs .signature ds + s.costs .value ds) := by
            simp only [costs_cons]; ac_rfl
      _ = {.decl d} + (ds.map Site.decl : List Site) := by rw [cost_phases, costs_phases s ds]
      _ = ((d :: ds).map Site.decl : List Site) := by simp

end State

/-! ## Names -/

lemma Decl.nameSpan_within {d : Decl} (h : PlacedIn d.span d.readings) : d.nameSpan.Within d.span := by
  cases d with
  | var d =>
    cases d
    exact h.covered.right.right.left.tokenAt
  | const d =>
    cases d
    exact h.covered.right.left.tokenAt
  | func d =>
    cases d
    exact h.covered.right.left.tokenAt

namespace State

variable (s : State) (scope : ScopeId) (d : Decl)

lemma introduces_introduced (n : NodeId) : (s.introduced scope d).introduces[n]? =
    if d.id = n then some s.scopes.bindings.size else s.introduces[n]? :=
  Table.getElem?_insert ..

lemma constants_introduced (b : BindingId) (c : ConstDecl) (hc : (s.introduced scope d).constants[b]? = some c) :
    s.constants[b]? = some c ∨ b = s.scopes.bindings.size ∧ d = .const c := by
  cases d with
  | const c' =>
    have hinsert : (s.introduced scope (.const c')).constants[b]? =
        if s.scopes.bindings.size = b then some c' else s.constants[b]? := Table.getElem?_insert ..
    rw [hinsert] at hc
    split at hc
    · next hb => exact .inr ⟨hb.symm,by rw [Option.some.inj hc]⟩
    · exact .inl hc
  | var | func => exact .inl hc

lemma pending_introduced : (s.introduced scope d).pending ≤ s.pending + (s.introduced scope d).cost .binding d := by
  have hself : (s.introduced scope d).introduces[d.id]? = some s.scopes.bindings.size := by
    rw [introduces_introduced, if_pos rfl]
  have hbinding : (s.introduced scope d).scopes.bindings[s.scopes.bindings.size]? =
      some ⟨d.name,scope,d.nameSpan,d.referent⟩ := Array.getElem?_push_size
  have hpush : (s.introduced scope d).pending = s.pending + (s.introduced scope d).owed s.scopes.bindings.size := by
    refine pending_push rfl fun b hb => ?_
    cases d with
    | const c => exact (Table.getElem?_insert ..).trans (if_neg hb.symm)
    | var | func => rfl
  unfold cost
  rw [hpush, hself]
  refine add_le_add_right ?_ _
  unfold owed isPending
  rw [hbinding, Option.any_some]
  cases d with
  | const c =>
    have hconstant : (s.introduced scope (.const c)).constants[s.scopes.bindings.size]? = some c :=
      (Table.getElem?_insert ..).trans (if_pos rfl)
    rw [hconstant]
    rfl
  | var | func => rfl

end State

lemma Charges.introduced (s : State) (scope : ScopeId) {d : Decl} (hplaced : PlacedIn d.span d.readings) :
    Charges [d.id] ((s.introduced scope d).cost .binding d) s (s.introduced scope d) where
  errors := ⟨[],[],(append_nil _).symm,.nil,(zero_add _).trans_le (s.pending_introduced scope d)⟩
  introduces n hn := by
    rw [s.introduces_introduced, if_neg fun h => hn (mem_singleton.2 h.symm)]
  placed hs b c hc := by
    rcases s.constants_introduced scope d b c hc with hold | ⟨-,rfl⟩
    · exact hs b c hold
    · rw [Decl.readings] at hplaced
      exact hplaced

lemma declareOne_charges (scope : ScopeId) {d : Decl} (hplaced : PlacedIn d.span d.readings)
    (hfresh : s.introduces[d.id]? = none) :
    Charges [d.id] (((declareOne scope d).run s).2.cost .binding d) s ((declareOne scope d).run s).2 := by
  rw [declareOne, run_reported, Check.run_bind, run_declareIn_eq]
  cases hvet : s.scopes.vet scope d.name d.nameSpan with
  | error e =>
    have hcost : (s.step (.reported e)).cost .binding d = {.decl d} := by
      rw [State.cost, show (s.step (.reported e)).introduces[d.id]? = none from hfresh]
      rfl
    have hadmits := (ScopeTree.faults_of_vet hvet).admits (x := .decl d) (Decl.nameSpan_within hplaced)
    have hreport := Charges.report s hadmits
    rw [← hcost] at hreport
    exact hreport.mono (nil_subset _) le_rfl
  | ok _ => exact Charges.introduced s scope hplaced

lemma declareNames_charges (scope : ScopeId) : ∀ {ds : List Decl} {s : State},
    (∀ d ∈ ds, PlacedIn d.span d.readings) → Prepared (ds.map Decl.id) s →
      Charges (ds.map Decl.id) (((ds.forM (declareOne scope)).run s).2.costs .binding ds) s ((ds.forM (declareOne scope)).run s).2
  | [], s, _, _ => .refl s
  | d :: ds, s, hplaced, hs => by
    have hone := declareOne_charges scope (hplaced d (.head _)) (hs.fresh d.id (.head _))
    have hrest := declareNames_charges scope (fun d' hd' => hplaced d' (.tail _ hd')) (hone.prepared hs)
    have hnotMem : d.id ∉ ds.map Decl.id := (nodup_cons.1 hs.nodup).1
    have hcost : ((((d :: ds).forM (declareOne scope)).run s).2).cost .binding d =
        ((declareOne scope d).run s).2.cost .binding d := by
      rw [State.cost, State.cost, ← hrest.introduces d.id hnotMem]
      rfl
    rw [State.costs_cons, hcost]
    exact hone.trans hrest

/-! ## Signatures -/

lemma Param.placed_type {p : Param} (h : PlacedIn region p.readings) : PlacedIn region p.type.readings := by
  cases p
  exact h.covered.right.right.right.right

lemma formals_charged : ∀ {ps : List Param}, (∀ p ∈ ps, PlacedIn region p.readings) → Charged (Faults region) [] 0 (formals ps)
  | [], _ => .pure []
  | p :: ps, h => by
    refine .after (denoteHere_charged (Param.placed_type (h p (.head _))) .value) fun t => ?_
    exact .followed (formals_charged fun p' hp' => h p' (.tail _ hp')) fun _ => .pure _

lemma learnSignature_charged {d : FunDecl} (h : PlacedIn d.span d.readings) (b : BindingId) :
    Charged (Faults d.span) [] 0 (learnSignature b d) := by
  obtain ⟨id,name,nameSpan,params,ret,body,span⟩ := d
  have hinner := h.covered.right.right
  refine .after (formals_charged fun p hp => ?_) fun _ => ?_
  · rw [paramReadings_eq_map] at hinner
    exact hinner.left.inParens (mem_map_of_mem hp)
  · have hret : Charged (Faults span) [] 0 (writtenResult ret) := by
      cases ret with
      | none => exact .pure _
      | some t =>
        exact denoteHere_charged hinner.right.left.right .result
    exact .after hret fun _ => .after (.lift (.built _)) fun _ => .lift (.modifyReferent b nofun)

lemma signature_charges {d : Decl} (hplaced : PlacedIn d.span d.readings) (hs : Prepared [] s) :
    Charges [] (s.cost .signature d) s ((reported (signature d)).run s).2 := by
  unfold State.cost
  cases d with
  | var | const => exact (Charges.refl s).mono (List.Subset.refl _) (Multiset.zero_le _)
  | func d =>
    rw [signature, run_reported_ifAccepted]
    cases hb : s.introduces[d.id]? with
    | none => exact (Charges.refl s).mono (List.Subset.refl _) (Multiset.zero_le _)
    | some b =>
      have hlearn := learnSignature_charged hplaced b
      have hreported : ChargedRun [] (0 + {.decl (.func d)}) (reported (learnSignature b d)) :=
        .reported hlearn fun e he => he.admits (.refl _)
      rw [zero_add] at hreported
      rw [show s.introduces[(Decl.func d).id]? = some b from hb]
      exact hreported s hs

lemma signatures_charges : ∀ {ds : List Decl} {s : State}, (∀ d ∈ ds, PlacedIn d.span d.readings) →
    Prepared [] s → Charges [] (s.costs .signature ds) s ((ds.forM fun d => reported (signature d)).run s).2
  | [], s, _, _ => .refl s
  | d :: ds, s, hplaced, hs => by
    have hone := signature_charges (hplaced d (.head _)) hs
    have hrest := signatures_charges (fun d' hd' => hplaced d' (.tail _ hd')) (hone.prepared hs)
    rw [State.costs_congr fun d' _ => hone.introduces d'.id not_mem_nil] at hrest
    rw [State.costs_cons]
    exact hone.trans hrest

/-- After the declarations of a scope were bound, only the values of the variables can still be charged to them. -/
theorem declareAll_charges (hplaced : ∀ d ∈ ds, PlacedIn d.span d.readings)
    (hs : Prepared (ds.map Decl.id) s) : Charges (ds.map Decl.id)
      (((declareAll ds).run s).2.costs .binding ds + ((declareAll ds).run s).2.costs .signature ds) s
      ((declareAll ds).run s).2 := by
  have hnames := declareNames_charges s.scopes.current hplaced hs
  have hprepared : Prepared [] ((ds.forM (declareOne s.scopes.current)).run s).2 :=
    hnames.prepared (by rwa [append_nil])
  have hsignatures := signatures_charges hplaced hprepared
  have hcosts (phase : Phase) : ((declareAll ds).run s).2.costs phase ds =
      ((ds.forM (declareOne s.scopes.current)).run s).2.costs phase ds :=
    State.costs_congr fun d _ => hsignatures.introduces d.id not_mem_nil
  rw [hcosts, hcosts]
  have htrans := hnames.trans hsignatures
  rw [append_nil] at htrans
  exact htrans

/-! ## Statements -/

/-- The nodes in a statement, without the declaration itself if it is one. -/
def Stmt.parts (st : Stmt) : List Node :=
  match st.decl? with
  | some d => d.parts
  | none => st.nodes

/-- The constructs that are charged while a statement is examined, apart from declarations in the same scope. -/
def Stmt.own (st : Stmt) : List Site :=
  match st.decl? with
  | some d => d.innerSites
  | none => st.sites

/-- The examination of a statement is charged to the statement and to what is inside of it. -/
def Stmt.Pays (st : Stmt) : Prop :=
  ∀ s, Prepared (st.parts.map Node.id) s →
    Charges (st.parts.map Node.id) (budget st.parts + st.own + s.costs .value st.decl?.toList) s ((reported st.check).run s).2

lemma Stmt.sites_of_decl {d : Decl} (h : st.decl? = some d) : st.sites = [] := by
  obtain ⟨span,form⟩ := st
  cases form with
  | decl d' => rw [Stmt.sites]
  | _ => cases h

lemma Stmt.nodes_parts (st : Stmt) : st.nodes = st.parts ++ st.decl?.toList.map Node.decl := by
  unfold Stmt.parts
  cases hst : st.decl? with
  | none => exact (append_nil _).symm
  | some d => rw [Stmt.nodes_of_decl hst, d.nodes_parts]; rfl

/-- What can be charged for a statement is the declaration, if it is one, and what is inside. -/
theorem Stmt.budget_nodes (st : Stmt) : budget st.nodes + (st.sites : Multiset Site) =
    (st.decl?.toList.map Site.decl : List Site) + (budget st.parts + (st.own : Multiset Site)) := by
  unfold Stmt.parts Stmt.own
  cases hst : st.decl? with
  | none => exact (zero_add _).symm
  | some d =>
    rw [Stmt.nodes_of_decl hst, Stmt.sites_of_decl hst, d.nodes_parts, budget_append, budget_decl]
    change _ + 0 = {Site.decl d} + _
    rw [add_zero]
    ac_rfl

section Scopes

variable {L : List Stmt}

lemma stmtNodes_perm (L : List Stmt) :
    (L.flatMap Stmt.nodes).Perm ((L.filterMap Stmt.decl?).map Node.decl ++ L.flatMap Stmt.parts) := by
  rw [filterMap_eq_flatMap_toList, map_flatMap, flatMap_congr fun st _ => st.nodes_parts]
  exact (flatMap_append_perm ..).symm.trans perm_append_comm

lemma budget_stmts (L : List Stmt) : budget (L.flatMap Stmt.nodes) + (L.flatMap Stmt.sites : List Site) =
    ((L.filterMap Stmt.decl?).map Site.decl : List Site) +
      (budget (L.flatMap Stmt.parts) + (L.flatMap Stmt.own : List Site)) := by
  rw [filterMap_eq_flatMap_toList, map_flatMap]
  induction L with
  | nil => rfl
  | cons st L ih =>
    simp only [flatMap_cons, budget_append, ← Multiset.coe_add]
    rw [add_add_add_comm, st.budget_nodes, ih]
    ac_rfl

lemma stmts_charges : ∀ {L : List Stmt} {s : State}, (∀ st ∈ L, st.Pays) → Prepared ((L.flatMap Stmt.parts).map Node.id) s →
    (∀ d ∈ L.filterMap Stmt.decl?, d.id ∉ (L.flatMap Stmt.parts).map Node.id) → Charges ((L.flatMap Stmt.parts).map Node.id)
      (budget (L.flatMap Stmt.parts) + (L.flatMap Stmt.own : List Site) + s.costs .value (L.filterMap Stmt.decl?)) s
      ((L.forM fun st => reported st.check).run s).2
  | [], s, _, _, _ => .refl s
  | st :: L, s, hL, hs, hapart => by
    have hdecls : (st :: L).filterMap Stmt.decl? = st.decl?.toList ++ L.filterMap Stmt.decl? := by
      simp only [filterMap_eq_flatMap_toList, flatMap_cons]
    rw [flatMap_cons, map_append] at hs hapart ⊢
    rw [hdecls] at hapart ⊢
    have hone := hL st (.head _) s hs.left
    have hrest := stmts_charges (fun st' hst' => hL st' (.tail _ hst')) (hone.prepared hs)
      fun d hd hmem => hapart d (mem_append_right _ hd) (mem_append_right _ hmem)
    rw [State.costs_congr fun d hd => hone.introduces d.id fun hmem =>
      hapart d (mem_append_right _ hd) (mem_append_left _ hmem)] at hrest
    refine (hone.trans hrest).mono (List.Subset.refl _) (le_of_eq ?_)
    rw [budget_append, flatMap_cons, ← Multiset.coe_add, State.costs_append]
    ac_rfl

/-- The declarations of a scope and the constructs inside of it are charged at most once each. -/
theorem scope_charged (hds : (L.filterMap Stmt.decl?).Perm ds)
    (hplaced : ∀ d ∈ ds, PlacedIn d.span d.readings) (hL : ∀ st ∈ L, st.Pays) :
    ChargedRun ((L.flatMap Stmt.nodes).map Node.id) (budget (L.flatMap Stmt.nodes) + (L.flatMap Stmt.sites : List Site)) (do
        declareAll ds
        L.forM fun st => reported st.check) := by
  intro s hs
  have hperm : ((L.flatMap Stmt.nodes).map Node.id).Perm (ds.map Decl.id ++ (L.flatMap Stmt.parts).map Node.id) := by
    refine ((stmtNodes_perm L).map Node.id).trans ?_
    rw [map_append, map_map]
    exact (hds.map _).append_right _
  have hs' := hs.subperm hperm.symm.subperm
  have hdeclare := declareAll_charges hplaced hs'.left
  have hstmts := stmts_charges hL (hdeclare.prepared hs') fun d hd =>
    disjoint_of_nodup_append hs'.nodup (mem_map_of_mem (hds.mem_iff.1 hd))
  refine (hdeclare.trans hstmts).mono hperm.symm.subset (le_of_eq ?_)
  generalize ((declareAll ds).run s).2 = s1
  have hcosts := s1.costs_phases ds
  rw [budget_stmts, s1.costs_perm .value hds, Multiset.coe_eq_coe.2 (hds.map Site.decl), ← hcosts]
  ac_rfl

end Scopes

/-- Outside of its scope too, a statement is charged at most once. -/
theorem Stmt.Pays.run (h : st.Pays) :
    ChargedRun (st.nodes.map Node.id) (budget st.nodes + (st.sites : Multiset Site)) (reported st.check) := by
  intro s hs
  rw [st.budget_nodes]
  rw [st.nodes_parts, map_append] at hs ⊢
  refine (h s hs.left).mono (subset_append_left ..) ?_
  rw [add_comm _ (State.costs ..)]
  refine add_le_add_left ?_ _
  rw [← s.costs_phases]
  exact Multiset.le_add_left ..

end Opal
