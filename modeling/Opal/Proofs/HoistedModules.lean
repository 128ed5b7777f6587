import Opal.Proofs.RestingStates

/-!
# Modules whose names were bound

If no two declarations have the same name, a declaration is refused exactly if its name is reserved; and what a name is bound to
does not depend on the order.
-/

namespace Opal

open List Option

/-! ## Binding names -/

/-- The names of the declarations were bound in the scope around everything, and nothing else happened. -/
structure State.Lists (D : List Decl) (s : State) : Prop where
  intact : s.scopes.Intact
  current : s.scopes.current = 0
  resultTypes : s.resultTypes = []
  named : ∀ name b, s.scopes.find? 0 name = some b → ∃ d ∈ D, d.name = name
  /-- A declaration is refused if its name is reserved, -/
  refused : ∀ d ∈ D, s.scopes.find? 0 d.name = none ↔ isReservedName d.name = true
  accepted : ∀ d ∈ D, s.introduces[d.id]? = s.scopes.find? 0 d.name
  others : ∀ id : NodeId, id ∉ D.map Decl.id → s.introduces[id]? = none
  /-- and reported on. -/
  codes : s.codes = (D.filter fun d => isReservedName d.name).map fun d =>
    (SemanticCause.reservedIdentifier d.name).code

namespace State

variable {D : List Decl} {s : State} {d : Decl}

lemma lists_initial : initial.Lists [] where
  intact := intact_initial.scopes
  current := rfl
  resultTypes := rfl
  named name b hb := by
    obtain ⟨⟨x,hx,-⟩,-⟩ := ScopeTree.find?_eq_some_iff.1 hb
    simp [initial, ScopeTree.initial] at hx
  refused := by simp
  accepted := by simp
  others id _ := by simp [initial]
  codes := rfl

lemma run_declareOne_of_free (hfree : s.scopes.find? 0 d.name = none) :
    ((declareOne 0 d).run s).2 = if isReservedName d.name then
      s.step (.reported ⟨.reservedIdentifier d.name,d.nameSpan⟩) else s.introduced 0 d := by
  rw [declareOne, run_reported, Check.run_bind, run_declareIn_eq, ScopeTree.vet]
  by_cases hreserved : isReservedName d.name = true
  · rw [if_pos hreserved, if_pos hreserved]
    rfl
  · rw [if_neg hreserved, if_neg hreserved, hfree]
    rfl

namespace Lists

lemma find?_eq_none (h : s.Lists D) {name : String} (hname : name ∉ D.map Decl.name) : s.scopes.find? 0 name = none := by
  cases hb : s.scopes.find? 0 name with
  | none => rfl
  | some b =>
    obtain ⟨d,hd,rfl⟩ := h.named name b hb
    exact absurd (mem_map_of_mem hd) hname

lemma declareOne (h : s.Lists D) (hname : d.name ∉ D.map Decl.name) (hid : d.id ∉ D.map Decl.id) :
    ((Opal.declareOne 0 d).run s).2.Lists (D ++ [d]) := by
  have hfree := h.find?_eq_none hname
  have hothers (id : NodeId) (hmem : id ∉ (D ++ [d]).map Decl.id) : s.introduces[id]? = none :=
    h.others id fun hmem' => hmem (by rw [map_append]; exact mem_append_left _ hmem')
  rw [run_declareOne_of_free hfree]
  by_cases hreserved : isReservedName d.name = true
  · rw [if_pos hreserved]
    refine ⟨h.intact,h.current,h.resultTypes,fun name b hb => ?_,fun e he => ?_,fun e he => ?_,hothers,?_⟩
    · obtain ⟨e,he,hename⟩ := h.named name b hb
      exact ⟨e,mem_append_left _ he,hename⟩
    · rcases mem_append.1 he with he | he
      · exact h.refused e he
      · obtain rfl := mem_singleton.1 he
        exact iff_of_true hfree hreserved
    · rcases mem_append.1 he with he | he
      · exact h.accepted e he
      · obtain rfl := mem_singleton.1 he
        exact (h.others e.id hid).trans hfree.symm
    · rw [codes_reported, h.codes, filter_append, map_append]
      simp [hreserved]
  · rw [if_neg hreserved]
    have hfind (name : String) : (s.introduced 0 d).scopes.find? 0 name =
        (s.scopes.find? 0 name).or (if d.name = name then some s.scopes.bindings.size else none) := by
      refine (ScopeTree.find?_bind s.scopes ⟨d.name,0,d.nameSpan,d.referent⟩ 0 name).trans ?_
      simp
    have hintro (id : NodeId) : (s.introduced 0 d).introduces[id]? =
        if d.id = id then some s.scopes.bindings.size else s.introduces[id]? := Table.getElem?_insert ..
    have hold {e : Decl} (he : e ∈ D) : (s.introduced 0 d).scopes.find? 0 e.name = s.scopes.find? 0 e.name := by
      have hne : d.name ≠ e.name := fun heq => hname (heq ▸ mem_map_of_mem he)
      rw [hfind, if_neg hne, or_none]
    refine ⟨h.intact.bind (Nat.zero_lt_of_lt h.intact.current),h.current,h.resultTypes,
      fun name b hb => ?_,fun e he => ?_,fun e he => ?_,fun id hmem => ?_,?_⟩
    · rw [hfind] at hb
      cases hb' : s.scopes.find? 0 name with
      | some b' =>
        obtain ⟨e,he,hename⟩ := h.named name b' hb'
        exact ⟨e,mem_append_left _ he,hename⟩
      | none =>
        rw [hb', none_or] at hb
        by_cases heq : d.name = name
        · exact ⟨d,mem_append_right _ (.head _),heq⟩
        · rw [if_neg heq] at hb
          cases hb
    · rcases mem_append.1 he with he | he
      · rw [hold he]
        exact h.refused e he
      · obtain rfl := mem_singleton.1 he
        rw [hfind, if_pos rfl, hfree, none_or]
        exact iff_of_false (by simp) hreserved
    · rcases mem_append.1 he with he | he
      · have hne : d.id ≠ e.id := fun heq => hid (heq ▸ mem_map_of_mem he)
        rw [hold he, hintro, if_neg hne]
        exact h.accepted e he
      · obtain rfl := mem_singleton.1 he
        rw [hintro, if_pos rfl, hfind, hfree, none_or, if_pos rfl]
    · have hne : d.id ≠ id := by
        rintro rfl
        exact hmem (mem_map_of_mem (mem_append_right _ (.head _)))
      rw [hintro, if_neg hne]
      exact hothers id hmem
    · have hnone : [d].filter (fun d => isReservedName d.name) = [] := by simp [hreserved]
      rw [filter_append, hnone, append_nil]
      exact h.codes

lemma forM : ∀ (D' : List Decl) {D : List Decl} {s : State}, s.Lists D →
    ((D ++ D').map Decl.name).Nodup → ((D ++ D').map Decl.id).Nodup → ((D'.forM (Opal.declareOne 0)).run s).2.Lists (D ++ D')
  | [], D, s, h, _, _ => by
    rw [append_nil]
    exact h
  | d :: D', D, s, h, hnames, hids => by
    rw [append_cons] at hnames hids ⊢
    have hnew {α : Type} {f : Decl → α} (hnodup : ((D ++ [d] ++ D').map f).Nodup) : f d ∉ D.map f := by
      rw [map_append, map_append] at hnodup
      intro hmem
      exact disjoint_of_nodup_append hnodup.of_append_left hmem (.head _)
    exact forM D' (h.declareOne (hnew hnames) (hnew hids)) hnames hids

end Lists

end State

/-- The state after the names of a module were bound. -/
def hoisted (D : List Decl) : State :=
  ((D.forM (declareOne 0)).run .initial).2

section Names

variable {D D' : List Decl} {b b' : BindingId} {d : Decl} {r : Referent} {name : String}

lemma lists_hoisted (hnames : (D.map Decl.name).Nodup) (hids : (D.map Decl.id).Nodup) : (hoisted D).Lists D :=
  State.lists_initial.forM D hnames hids

lemma declared_hoisted (hids : (D.map Decl.id).Nodup) : Declared D .initial (hoisted D) := by
  refine declare_declared 0 D .initial hids (fun d _ => ?_) fun b c hc => ?_
  · simp [State.initial]
  · rw [constant?_initial] at hc
    cases hc

/-! ## What names are bound to -/

lemma unevaluated_hoisted (hids : (D.map Decl.id).Nodup) : (hoisted D).Unevaluated where
  pending k type stage hr := by
    have hdeclared := declared_hoisted hids
    obtain ⟨d,hd,hk,heq⟩ := hdeclared.newReferents k _ (referent?_initial k) hr
    obtain ⟨-,-,hconst⟩ := hdeclared.accepted d hd k hk
    cases d with
    | var | func => cases heq
    | const c =>
      cases heq
      exact ⟨rfl,c,hconst c rfl⟩
  declared k c hc := by
    have hdeclared := declared_hoisted hids
    rcases hdeclared.newConstants k c hc with hold | ⟨hmem,hk⟩
    · rw [constant?_initial] at hold
      cases hold
    · obtain ⟨-,hr,-⟩ := hdeclared.accepted _ hmem k hk
      exact ⟨none,.pending,hr⟩

lemma exists_decl_hoisted (hnames : (D.map Decl.name).Nodup) (hids : (D.map Decl.id).Nodup)
    (hb : (hoisted D).scopes.find? 0 name = some b) : ∃ d ∈ D, d.name = name ∧
      (hoisted D).introduces[d.id]? = some b ∧ (hoisted D).referent? b = some d.referent := by
  have hlists := lists_hoisted hnames hids
  obtain ⟨d,hd,rfl⟩ := hlists.named name b hb
  have hintro := (hlists.accepted d hd).trans hb
  exact ⟨d,hd,rfl,hintro,((declared_hoisted hids).accepted d hd b hintro).2.1⟩

lemma constant?_hoisted_iff (hids : (D.map Decl.id).Nodup) (hd : d ∈ D)
    (hb : (hoisted D).introduces[d.id]? = some b) (c : ConstDecl) : (hoisted D).constant? b = some c ↔ d = .const c := by
  have hdeclared := declared_hoisted hids
  constructor
  · intro hc
    rcases hdeclared.newConstants b c hc with hold | ⟨hmem,hk⟩
    · rw [constant?_initial] at hold
      cases hold
    · exact inj_on_of_nodup_map hids hd hmem (hdeclared.injective d hd _ hmem b hb hk)
  · rintro rfl
    exact (hdeclared.accepted _ hd b hb).2.2 c rfl

section

variable (hnames : (D.map Decl.name).Nodup) (hids : (D.map Decl.id).Nodup) (hperm : D'.Perm D)
include hnames hids hperm

/-- Whatever the order, the same names are bound, and to the same. -/
theorem mirrors_hoisted (name : String) : Option.Rel ((hoisted D).Mirrors (hoisted D'))
      ((hoisted D).scopes.find? 0 name) ((hoisted D').scopes.find? 0 name) := by
  have hnames' : (D'.map Decl.name).Nodup := (hperm.map _).nodup_iff.2 hnames
  have hids' : (D'.map Decl.id).Nodup := (hperm.map _).nodup_iff.2 hids
  have hlists := lists_hoisted hnames hids
  have hlists' := lists_hoisted hnames' hids'
  cases hb : (hoisted D).scopes.find? 0 name with
  | some b =>
    obtain ⟨d,hd,rfl,hintro,hr⟩ := exists_decl_hoisted hnames hids hb
    have hd' := hperm.mem_iff.2 hd
    cases hb' : (hoisted D').scopes.find? 0 d.name with
    | none =>
      have hnone := (hlists.refused d hd).2 ((hlists'.refused d hd').1 hb')
      cases hb.symm.trans hnone
    | some b' =>
      have hintro' := (hlists'.accepted d hd').trans hb'
      have hr' := ((declared_hoisted hids').accepted d hd' b' hintro').2.1
      refine .some ⟨⟨_,_,hr,hr',rfl⟩,Option.ext fun c => ?_⟩
      exact (constant?_hoisted_iff hids' hd' hintro' c).trans (constant?_hoisted_iff hids hd hintro c).symm
  | none =>
    cases hb' : (hoisted D').scopes.find? 0 name with
    | none => exact .none
    | some b' =>
      obtain ⟨d,hd',rfl⟩ := hlists'.named name b' hb'
      have hnone := (hlists'.refused d hd').2 ((hlists.refused d (hperm.mem_iff.1 hd')).1 hb)
      cases hb'.symm.trans hnone

lemma codes_hoisted_perm : (hoisted D').codes.Perm (hoisted D).codes := by
  have hlists := lists_hoisted hnames hids
  have hlists' := lists_hoisted ((hperm.map _).nodup_iff.2 hnames) ((hperm.map _).nodup_iff.2 hids)
  rw [hlists.codes, hlists'.codes]
  exact (hperm.filter _).map _

end

end Names

/-! ## The check is at rest -/

/-- What the names of declarations are bound to before anything is examined. -/
def viewOf (D : List Decl) : View := fun name =>
  ((D.find? fun d => d.name == name).map Decl.referent).getD .declaredFunc

lemma viewOf_name {D : List Decl} (hnames : (D.map Decl.name).Nodup) {d : Decl} (hd : d ∈ D) :
    viewOf D d.name = d.referent := by
  unfold viewOf
  cases hfind : D.find? fun e => e.name == d.name with
  | none => exact absurd (find?_eq_none.1 hfind d hd) (by simp)
  | some e =>
    have hname : e.name = d.name := by simpa using find?_some hfind
    rw [inj_on_of_nodup_map hnames (mem_of_find?_eq_some hfind) hd hname]
    rfl

namespace Hoisted

/-- A module whose names were bound. -/
def ofDecls (D : List Decl) (hids : ((D.flatMap Decl.nodes).map Node.id).Nodup) (hnames : (D.map Decl.name).Nodup) : Hoisted where
  state := hoisted D
  decls := D
  ids := hids
  names := hnames
  unevaluated := unevaluated_hoisted (nodup_map_id hids)
  named name k hk := by
    obtain ⟨d,hd,hname,-,hr⟩ := exists_decl_hoisted hnames (nodup_map_id hids) hk
    exact ⟨d,hd,hname,hr⟩

variable {D D' todo : List Decl}

/-- Whatever the order in which names were bound, the check is at rest, and the errors are the same. -/
theorem rests (hids : ((D.flatMap Decl.nodes).map Node.id).Nodup) (hnames : (D.map Decl.name).Nodup)
    (hperm : D'.Perm D) (htodo : todo.Perm D) :
    (ofDecls D hids hnames).Rests (viewOf D) (hoisted D).codes todo (hoisted D') := by
  have hnames' : (D'.map Decl.name).Nodup := (hperm.map _).nodup_iff.2 hnames
  have hids' : (D'.map Decl.id).Nodup := (hperm.map _).nodup_iff.2 (nodup_map_id hids)
  have hlists := lists_hoisted hnames' hids'
  have hglobal {name : String} {r : Referent} (hr : (hoisted D').global? name = some r) :
      ∃ d ∈ D, d.name = name ∧ r = d.referent := by
    obtain ⟨b,hb,hr⟩ := bind_eq_some_iff.1 hr
    obtain ⟨d,hd,hname,-,hr'⟩ := exists_decl_hoisted hnames' hids' hb
    exact ⟨d,hperm.mem_iff.1 hd,hname,mem_unique hr hr'⟩
  -- no constant was evaluated
  have hconst {name : String} {type : Option Ty} {stage : ConstStage}
      (hr : (hoisted D').global? name = some (.const type stage)) : type = none ∧ stage = .pending := by
    obtain ⟨d,-,-,heq⟩ := hglobal hr
    cases d with
    | var | func => cases heq
    | const c => exact ⟨(Referent.const.inj heq).1,(Referent.const.inj heq).2⟩
  have hfailed (name : String) : ¬ (hoisted D').Failed name := fun hname => by cases (hconst hname).2
  refine ⟨hlists.intact,hlists.current,hlists.resultTypes,⟨⟨?_,?_⟩,?_,?_,[],?_,?_⟩,?_,?_,?_,?_,?_⟩
  · exact mirrors_hoisted hnames (nodup_map_id hids) hperm
  · intro name type stage hr
    obtain ⟨rfl,rfl⟩ := hconst hr
    exact (rfl : (none : Option Ty) = none)
  · intro name hname
    cases (hconst hname).2
  · exact fun x y hx => absurd hx (hfailed x)
  · exact Causes.culprits_nil hfailed
  · rw [flatMap_nil, append_nil]
    exact codes_hoisted_perm hnames (nodup_map_id hids) hperm
  · intro d hd
    have hd : d ∈ D := hd
    rw [viewOf_name hnames hd]
    cases d with
    | var d => exact ⟨rfl,.var _ nofun⟩
    | const => exact ⟨rfl,.const _ _ Iff.rfl⟩
    | func => exact ⟨⟨_,_,rfl,fun h => absurd rfl h⟩,.func (fun _ => trivial) nofun⟩
  · intro name r hr _
    obtain ⟨d,hd,rfl,rfl⟩ := hglobal hr
    exact viewOf_name hnames hd
  · exact fun d hd => hlists.accepted d (hperm.mem_iff.2 hd)
  · intro d hd e Γ he
    refine hlists.others e.id fun hmem => ?_
    obtain ⟨f,hf,hid⟩ := mem_map.1 hmem
    exact ((ofDecls D hids hnames).id_ne_of_mem_inside (htodo.mem_iff.1 hd) he).1 f (hperm.mem_iff.1 hf) hid.symm
  · exact fun c hc hne => absurd (htodo.mem_iff.2 hc) hne

end Hoisted

end Opal
