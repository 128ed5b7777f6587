import Opal.Proofs.LexicalScopes

/-!
# Orderly states

Every declaration on record is a node of the module, every name refers to where the source says, and every constant was declared
in a scope that stands for its place. A list `L` gives the nodes of the module.
-/

namespace Opal

open List Option

variable {b : BindingId} {d : Decl} {e : Event}

/-- The name in an expression refers to where the source says. -/
def State.Resolves (L : List (Node × Env)) (s : State) (id : NodeId) (b : BindingId) : Prop :=
  ∃ span name Γ D, (Node.expr ⟨id,span,.name name⟩, Γ) ∈ L ∧ Γ.resolve? name = some D ∧ s.Names D b

/-- What is on record of declarations and names. -/
structure State.Ledger (L : List (Node × Env)) (s : State) : Prop where
  introduces : ∀ (id : NodeId) b, s.introduces[id]? = some b → ∃ d : Decl, d.id = id ∧ .introduced d b ∈ s.journal
  declared : ∀ d b, .introduced d b ∈ s.journal → b < s.scopes.bindings.size ∧ ∃ Γ, (Node.decl d, Γ) ∈ L
  unique : ∀ d d' b, .introduced d b ∈ s.journal → .introduced d' b ∈ s.journal → d = d'
  /-- A function whose signature is known has the parameters of its declaration. -/
  functions : ∀ d b t params, .introduced (.func d) b ∈ s.journal →
    s.referent? b = some (.func t params) → t ≠ .error → params.length = d.params.length
  resolves : ∀ (id : NodeId) b, s.refersTo[id]? = some b → s.Resolves L id b

/-- The constant was declared in a scope that stands for its place in the source. -/
def State.Placed (L : List (Node × Env)) (s : State) (b : BindingId) (d : ConstDecl) : Prop :=
  ∃ x Γ, s.scopes.bindings[b]? = some x ∧ s.Stands x.scope Γ ∧ d.located Γ ⊆ L

/-- Everything is in its place. -/
structure State.Orderly (L : List (Node × Env)) (s : State) : Prop where
  intact : s.Intact
  ledger : s.Ledger L
  placed : ∀ (b : BindingId) d, s.constants[b]? = some d → s.Placed L b d

/-- The names of the current scope, which is the last one, are being declared. The constants among them are
declarations of `D`. -/
structure State.Hoists (L : List (Node × Env)) (D : List Decl) (s : State) : Prop where
  intact : s.Intact
  ledger : s.Ledger L
  last : s.scopes.parents.size = s.scopes.current + 1
  placed : ∀ (b : BindingId) d x, s.constants[b]? = some d → s.scopes.bindings[b]? = some x →
    x.scope < s.scopes.current ∧ s.Placed L b d ∨ x.scope = s.scopes.current ∧ Decl.const d ∈ D

/-- The steps after which the records are still right. -/
def State.Enters (L : List (Node × Env)) (s : State) : Event → Prop
  | .referred id b => s.Resolves L id b
  | .changed b r => ∀ d t params, .introduced (.func d) b ∈ s.journal → r = .func t params →
    t ≠ .error → params.length = d.params.length
  | .introduced d b => b < s.scopes.bindings.size ∧ (∃ Γ, (Node.decl d, Γ) ∈ L) ∧
    (∀ d', .introduced d' b ∉ s.journal) ∧ ∀ f t params, d = .func f → s.referent? b = some (.func t params) → t = .error
  | _ => True

/-- Whether a step binds no name and declares nothing. -/
def Event.isPlain : Event → Bool
  | .bound .. | .introduced .. => false
  | _ => true

namespace State

variable {L : List (Node × Env)} {s : State} {D : List Decl}

/-! ## Records -/

lemma keeps_zero (s : State) (e : Event) : s.Keeps 0 (s.step e) := by
  cases e with
  | bound b x => exact (keeps_bound b x).mono (Nat.zero_le _)
  | _ => exact (keeps_step _ fun _ _ h => by cases h).mono (Nat.zero_le _)

lemma introduced_mem_step (h : .introduced d b ∈ (s.step e).journal) : e = .introduced d b ∨ .introduced d b ∈ s.journal :=
  (mem_cons.1 h).imp_left Eq.symm

lemma Resolves.step {id : NodeId} (h : s.Resolves L id b) (e : Event) : (s.step e).Resolves L id b := by
  obtain ⟨span,name,Γ,D,hmem,hD,hnames⟩ := h
  exact ⟨span,name,Γ,D,hmem,hD,hnames.keeps (s.keeps_zero e)⟩

lemma Ledger.refersTo (h : s.Ledger L) (id : NodeId) (b : BindingId) (hb : s.refersTo[id]? = some b) :
    ∃ span name Γ D, (Node.expr ⟨id,span,.name name⟩, Γ) ∈ L ∧ Γ.resolve? name = some D ∧ s.Binds D b := by
  obtain ⟨span,name,Γ,D,hmem,hD,hbinds,-⟩ := h.resolves id b hb
  exact ⟨span,name,Γ,D,hmem,hD,hbinds⟩

lemma Ledger.introduced (h : s.Ledger L) (he : s.Enters L (.introduced d b)) : (s.step (.introduced d b)).Ledger L where
  introduces id b' hb' := by
    simp only [step, apply, Std.TreeMap.getElem?_insert] at hb'
    split at hb'
    · next hid =>
      cases hb'
      exact ⟨d,Std.LawfulEqCmp.eq_of_compare hid,mem_cons_self⟩
    · obtain ⟨d',hd',hmem⟩ := h.introduces id b' hb'
      exact ⟨d',hd',mem_cons_of_mem _ hmem⟩
  declared d' b' hmem := by
    rcases introduced_mem_step hmem with heq | hold
    · cases heq
      exact ⟨he.1,he.2.1⟩
    · exact h.declared d' b' hold
  unique d1 d2 b' h1 h2 := by
    rcases introduced_mem_step h1 with heq1 | hold1 <;>
      rcases introduced_mem_step h2 with heq2 | hold2
    · cases heq1; cases heq2; rfl
    · cases heq1; exact absurd hold2 (he.2.2.1 d2)
    · cases heq2; exact absurd hold1 (he.2.2.1 d1)
    · exact h.unique d1 d2 b' hold1 hold2
  functions f b' t params hmem hr ht := by
    rcases introduced_mem_step hmem with heq | hold
    · cases heq
      exact absurd (he.2.2.2 f t params rfl hr) ht
    · exact h.functions f b' t params hold hr ht
  resolves id b' hb' := (h.resolves id b' hb').step _

lemma Ledger.other (h : s.Ledger L) (he : ∀ d b, e ≠ .introduced d b) (hintro : (s.step e).introduces = s.introduces)
    (hsize : s.scopes.bindings.size ≤ (s.step e).scopes.bindings.size)
    (hfunc : ∀ d b t params, .introduced (.func d) b ∈ s.journal →
      (s.step e).referent? b = some (.func t params) → t ≠ .error → params.length = d.params.length)
    (hrefers : ∀ (id : NodeId) b, (s.step e).refersTo[id]? = some b → (s.step e).Resolves L id b) : (s.step e).Ledger L := by
  have hold {d : Decl} {b : BindingId} (hmem : .introduced d b ∈ (s.step e).journal) : .introduced d b ∈ s.journal :=
    (introduced_mem_step hmem).resolve_left (he d b)
  refine ⟨fun id b hb => ?_,fun d b hmem => ?_,fun d d' b hd hd' => ?_,
    fun d b t params hmem => hfunc d b t params (hold hmem),hrefers⟩
  · rw [hintro] at hb
    obtain ⟨d,hd,hmem⟩ := h.introduces id b hb
    exact ⟨d,hd,mem_cons_of_mem _ hmem⟩
  · obtain ⟨hlt,hnode⟩ := h.declared d b (hold hmem)
    exact ⟨Nat.lt_of_lt_of_le hlt hsize,hnode⟩
  · exact h.unique d d' b (hold hd) (hold hd')

/-- The records are still right after a step that enters what is right. -/
theorem Ledger.step (h : s.Ledger L) (he : s.Enters L e) : (s.step e).Ledger L := by
  cases e with
  | introduced d b => exact h.introduced he
  | changed b r =>
    refine h.other (by simp) rfl (Nat.le_of_eq (Array.size_modify).symm) (fun d b' t params hmem hr ht => ?_)
      fun id b' hb' => (h.resolves id b' hb').step _
    obtain ⟨x,hx,heq⟩ := map_eq_some_iff.1 hr
    simp only [State.step, apply, ScopeTree.modifyReferent, Array.getElem?_modify] at hx
    split at hx
    · next hbb =>
      obtain rfl := hbb
      obtain ⟨y,-,rfl⟩ := map_eq_some_iff.1 hx
      exact he d t params hmem heq ht
    · exact h.functions d b' t params hmem (map_eq_some_iff.2 ⟨x,hx,heq⟩) ht
  | bound b x =>
    refine h.other (by simp) rfl ?_ (fun d b' t params hmem hr ht => ?_) fun id b' hb' => (h.resolves id b' hb').step _
    · change _ ≤ (s.scopes.bindings.push x).size
      rw [Array.size_push]
      exact Nat.le_succ _
    · refine h.functions d b' t params hmem ?_ ht
      have hlt := (h.declared _ b' hmem).1
      rw [← hr]
      change _ = ((s.scopes.bindings.push x)[b']?).map _
      rw [Array.getElem?_push, if_neg (Nat.ne_of_lt hlt)]
      rfl
  | referred id b =>
    refine h.other (by simp) rfl (Nat.le_refl _) h.functions fun i b' hb' => ?_
    simp only [State.step, apply, Std.TreeMap.getElem?_insert] at hb'
    split at hb'
    · next hi =>
      cases hb'
      obtain rfl : id = i := Std.LawfulEqCmp.eq_of_compare hi
      exact Resolves.step he _
    · exact (h.resolves i b' hb').step _
  | _ =>
    exact h.other (by simp) rfl (Nat.le_refl _) h.functions fun i b' hb' => (h.resolves i b' hb').step _

lemma Placed.keeps {s1 : State} {k : Nat} {d : ConstDecl} {x : Binding}
    (h : s.Placed L b d) (hscopes : s.scopes.Intact) (hx : s.scopes.bindings[b]? = some x)
    (hk : x.scope < k) (hs : s.Keeps k s1) : s1.Placed L b d := by
  obtain ⟨y,Γ,hy,hstands,hsub⟩ := h
  obtain rfl := mem_unique hx hy
  obtain ⟨r,hr⟩ := hs.bindings b x hx
  exact ⟨_,Γ,hr,hstands.keeps hscopes hs hk,hsub⟩

lemma Orderly.step (h : s.Orderly L) (he : s.Admits e) (he' : s.Enters L e)
    (hplain : e.isPlain = true) : (s.step e).Orderly L := by
  refine ⟨h.intact.step he,h.ledger.step he',fun b d hd => ?_⟩
  have hconst : s.constants[b]? = some d := by
    cases e with
    | bound | introduced => cases hplain
    | _ => exact hd
  obtain ⟨x,Γ,hx,hstands,hsub⟩ := h.placed b d hconst
  refine Placed.keeps ⟨x,Γ,hx,hstands,hsub⟩ h.intact.scopes hx hstands.lt (keeps_step e fun b x heq => ?_)
  obtain rfl := heq
  cases hplain

/-! ## The names of a scope -/

namespace Hoists

variable {D : List Decl}

/-- In an orderly state the names of the last scope may be declared, as long as it has no constants. -/
theorem of_orderly (h : s.Orderly L) (hlast : s.scopes.parents.size = s.scopes.current + 1)
    (hconst : ∀ (b : BindingId) d x, s.constants[b]? = some d → s.scopes.bindings[b]? = some x →
      x.scope ≠ s.scopes.current) : s.Hoists L [] where
  intact := h.intact
  ledger := h.ledger
  last := hlast
  placed b d x hd hx := by
    have hlt := h.intact.scopes.bindings x (Array.mem_of_getElem? hx)
    rw [hlast] at hlt
    exact .inl ⟨Nat.lt_of_le_of_ne (Nat.le_of_lt_succ hlt) (hconst b d x hd hx),h.placed b d hd⟩

lemma mono (h : s.Hoists L []) (D : List Decl) : s.Hoists L D :=
  { h with placed := fun b d x hd hx => (h.placed b d x hd hx).imp_right fun h => nomatch h.2 }

lemma orderly (h : s.Hoists L D) (hsites : ∀ d, Decl.const d ∈ D → ∃ Γ, s.Stands s.scopes.current Γ ∧ d.located Γ ⊆ L) :
    s.Orderly L where
  intact := h.intact
  ledger := h.ledger
  placed b d hd := by
    have hlt := h.intact.constants b d hd
    rcases h.placed b d _ hd (Array.getElem?_eq_getElem hlt) with ⟨-,hplaced⟩ | ⟨hscope,hmem⟩
    · exact hplaced
    · obtain ⟨Γ,hstands,hsub⟩ := hsites d hmem
      exact ⟨_,Γ,Array.getElem?_eq_getElem hlt,hscope ▸ hstands,hsub⟩

lemma step (h : s.Hoists L D) (he : s.Admits e) (he' : s.Enters L e) (hscopes : (s.step e).scopes = s.scopes)
    (hconst : ∀ (b : BindingId) d, (s.step e).constants[b]? = some d → s.constants[b]? = some d ∨
      (∃ x, s.scopes.bindings[b]? = some x ∧ x.scope = s.scopes.current) ∧ Decl.const d ∈ D) : (s.step e).Hoists L D := by
  have hkeeps : s.Keeps s.scopes.parents.size (s.step e) := by
    refine keeps_step e fun b x heq => ?_
    obtain rfl := heq
    have hsize := congrArg (·.bindings.size) hscopes
    exact absurd hsize (by simp [State.step, apply, ScopeTree.bind])
  refine ⟨h.intact.step he,h.ledger.step he',?_,fun b d x hd hx => ?_⟩
  · rw [hscopes]
    exact h.last
  · rw [hscopes] at hx ⊢
    rcases hconst b d hd with hold | ⟨⟨y,hy,hscope⟩,hmem⟩
    · refine (h.placed b d x hold hx).imp_left fun hold => ⟨hold.1,?_⟩
      exact hold.2.keeps h.intact.scopes hx (Nat.lt_trans hold.1 h.intact.scopes.current) hkeeps
    · obtain rfl := mem_unique hx hy
      exact .inr ⟨hscope,hmem⟩

lemma bound (h : s.Hoists L D) {x : Binding} (hscope : x.scope = s.scopes.current)
    (hr : s.Suits x.referent) : (s.bound x).Hoists L D where
  intact := h.intact.step (e := .bound _ x) ⟨rfl,hscope ▸ h.intact.scopes.current,hr⟩
  ledger := h.ledger.step (e := .bound _ x) trivial
  last := h.last
  placed b d y hd hy := by
    have hlt : b < s.scopes.bindings.size := h.intact.constants b d hd
    have hy' : s.scopes.bindings[b]? = some y := by
      rw [← hy]
      change _ = (s.scopes.bindings.push x)[b]?
      rw [Array.getElem?_push, if_neg (Nat.ne_of_lt hlt)]
    refine (h.placed b d y hd hy').imp_left fun hold => ⟨hold.1,?_⟩
    exact hold.2.keeps h.intact.scopes hy' (hscope ▸ hold.1) (keeps_bound _ x)

end Hoists

/-! ## Growing states -/

/-- Admitted steps that change nothing about the scopes below `k`. -/
structure Grows (k : Nat) (s s' : State) : Prop extends s.Keeps k s' where
  steps : Steps Admits s s'

namespace Grows

variable {k k' : Nat} {s1 s2 : State}

lemma refl (k : Nat) (s : State) : s.Grows k s :=
  ⟨.refl k s,.refl⟩

lemma mono (h : s.Grows k s1) (hk : k' ≤ k) : s.Grows k' s1 :=
  ⟨h.toKeeps.mono hk,h.steps⟩

lemma trans (h : s.Grows k s1) (h' : s1.Grows k s2) : s.Grows k s2 :=
  ⟨h.toKeeps.trans h'.toKeeps,h.steps.trans h'.steps⟩

lemma step (h : s.Keeps k (s.step e)) (he : s.Admits e) : s.Grows k (s.step e) :=
  ⟨h,.single he⟩

lemma plain (he : s.Admits e) (hbound : ∀ b x, e ≠ .bound b x) : s.Grows s.scopes.parents.size (s.step e) :=
  .step (keeps_step e fun b x heq => absurd heq (hbound b x)) he

end Grows

lemma Intact.suits_referent (h : s.Intact) (d : Decl) : s.Suits d.referent := by
  cases d with
  | var => exact ⟨nofun,nofun⟩
  | const => exact nofun
  | func => exact ⟨h.basic _ (by simp [TypeRegistry.basic]),nofun⟩

lemma Hoists.declareOne {F : Frame} (h : s.Hoists L D)
    (hshows : s.Shows s.scopes.current F) (hd : d ∈ D) (hnode : ∃ Γ, (Node.decl d, Γ) ∈ L) :
    ∃ s', ((Opal.declareOne s.scopes.current d).run s).2 = s' ∧ s'.Hoists L D ∧
      s'.Shows s.scopes.current (F ++ [d.declarator]) ∧ s.Grows s.scopes.current s' ∧
        s'.scopes.current = s.scopes.current ∧ s'.scopes.parents = s.scopes.parents := by
  refine ⟨_,rfl,?_⟩
  rw [Opal.declareOne, run_reported, Check.run_bind, run_declareIn_eq]
  have hlt := h.intact.scopes.current
  cases hvet : s.scopes.vet s.scopes.current d.name d.nameSpan with
  | error e =>
    have hgrows : s.Grows s.scopes.parents.size (s.step (.reported e)) := .plain trivial (by simp)
    refine ⟨h.step trivial trivial rfl fun b c hc => .inl hc,?_,hgrows.mono (Nat.le_of_lt hlt),rfl,rfl⟩
    exact (hshows.refused (D := d.declarator) hvet).keeps hgrows.toKeeps hlt
  | ok u =>
    obtain ⟨⟩ := u
    let b := s.scopes.bindings.size
    let x : Binding := ⟨d.name,s.scopes.current,d.nameSpan,d.referent⟩
    have hsuits := h.intact.suits_referent d
    have hbound : (s.bound x).Hoists L D := h.bound rfl hsuits
    have hb : b < (s.bound x).scopes.bindings.size := by
      change b < (s.scopes.bindings.push x).size
      rw [Array.size_push]
      exact Nat.lt_succ_self _
    have hx : (s.bound x).scopes.bindings[b]? = some x := by
      change (s.scopes.bindings.push x)[b]? = _
      rw [Array.getElem?_push, if_pos rfl]
    have hadmits : (s.bound x).Admits (.introduced d b) := hb
    have henters : (s.bound x).Enters L (.introduced d b) := by
      refine ⟨hb,hnode,fun d' hmem => ?_,fun f t params hf hr => ?_⟩
      · rcases introduced_mem_step (e := .bound b x) hmem with heq | hold
        · cases heq
        · exact Nat.lt_irrefl _ (h.ledger.declared d' b hold).1
      · obtain rfl := hf
        rw [Findings.referent?, hx] at hr
        cases hr
        rfl
    have hgrows : s.Grows s.scopes.current ((s.bound x).step (.introduced d b)) :=
      (Grows.step (e := .bound b x) (keeps_bound b x) ⟨rfl,hlt,hsuits⟩).trans
        ((Grows.plain hadmits (by simp)).mono (Nat.le_of_lt hlt))
    refine ⟨hbound.step hadmits henters rfl fun b' c hc => ?_,?_,hgrows,rfl,rfl⟩
    · cases d with
      | const f =>
        simp only [State.step, apply, Decl.addConstant, Std.TreeMap.getElem?_insert] at hc
        split at hc
        · next heq =>
          obtain rfl : b = b' := Std.LawfulEqCmp.eq_of_compare heq
          cases hc
          exact .inr ⟨⟨x,hx,rfl⟩,hd⟩
        · exact .inl hc
      | var | func => exact .inl hc
    · refine hshows.accepted hvet hgrows.toKeeps rfl rfl rfl ⟨⟨⟨x,hx,rfl,rfl⟩,fun id hid => ?_⟩,fun hnone => ?_⟩
      · cases hid
        exact ⟨d,rfl,mem_cons_self⟩
      · cases hnone

lemma Hoists.declareAll : ∀ (decls : List Decl) {s : State} {F : Frame},
    s.Hoists L D → s.Shows s.scopes.current F → decls ⊆ D → (∀ d ∈ decls, ∃ Γ, (Node.decl d, Γ) ∈ L) →
    ∃ s', ((decls.forM (Opal.declareOne s.scopes.current)).run s).2 = s' ∧ s'.Hoists L D ∧
      s'.Shows s.scopes.current (F ++ decls.map Decl.declarator) ∧ s.Grows s.scopes.current s' ∧
        s'.scopes.current = s.scopes.current ∧ s'.scopes.parents = s.scopes.parents
  | [], s, F, h, hshows, _, _ => by
    rw [map_nil, append_nil]
    exact ⟨s,rfl,h,hshows,.refl _ s,rfl,rfl⟩
  | d :: decls, s, F, h, hshows, hsub, hnodes => by
    obtain ⟨hd,hrest⟩ := cons_subset.1 hsub
    obtain ⟨s1,hs1,h1,hshows1,hgrows1,hcurrent1,hparents1⟩ :=
      h.declareOne hshows hd (hnodes d mem_cons_self)
    obtain ⟨s2,hs2,h2,hshows2,hgrows2,hcurrent2,hparents2⟩ :=
      Hoists.declareAll decls h1 (hcurrent1 ▸ hshows1) hrest fun d' hd' => hnodes d' (mem_cons_of_mem _ hd')
    rw [hcurrent1] at hs2 hshows2 hgrows2 hcurrent2
    refine ⟨s2,?_,h2,?_,hgrows1.trans hgrows2,hcurrent2,hparents2.trans hparents1⟩
    · rw [← hs2, ← hs1]
      rfl
    · rw [map_cons, append_cons]
      exact hshows2

end State

end Opal
