import Opal.Proofs.LexicalScopes

/-!
# Names are bound in nested scopes

A name means its binding in the nearest scope that has one. A declaration gives a meaning to one name, as seen from one scope
and from those inside it without a nearer binding.
-/

namespace Opal

open List Option

variable {referent : Referent} {a : ScopeAction} {e : SemanticError} {span : Span}

/-- What can be done with a tree of scopes. -/
inductive ScopeAction where
  | enter
  | leave
  | declare (scope : ScopeId) (name : String) (span : Span) (referent : Referent)
  | setStage (id : BindingId) (stage : VarStage)
  | lookup (scope : ScopeId) (name : String) (span : Span)

def ScopeAction.isDeclaration : ScopeAction → Bool
  | declare .. => true
  | _ => false

/-- What an action answers. -/
inductive ScopeAnswer where
  | done
  | opened (scope : ScopeId)
  | found (id : BindingId)
  | refused (e : SemanticError)
deriving DecidableEq

/-- The answer to a declaration, or to a name that is looked up. -/
def ScopeAnswer.of : Except SemanticError BindingId → ScopeAnswer
  | .ok id => found id
  | .error e => refused e

/-- Actions one after the other, with their answers. -/
def actAll {σ : Type} (act : σ → ScopeAction → Option (ScopeAnswer × σ)) (t : σ) :
    List ScopeAction → Option (List ScopeAnswer × σ)
  | [] => some ([], t)
  | a :: as => (act t a).bind fun r => (actAll act r.2 as).map fun q => (r.1 :: q.1, q.2)

/-- A scope and the scopes around it, innermost first. -/
inductive ScopeChain (parent? : ScopeId → Option ScopeId) : ScopeId → List ScopeId → Prop where
  | outermost {s : ScopeId} (h : parent? s = none) : ScopeChain parent? s [s]
  | inside {s p : ScopeId} {l : List ScopeId} (h : parent? s = some p) (hp : ScopeChain parent? p l) : ScopeChain parent? s (s :: l)

namespace ScopeChain

variable {parent? parent'? : ScopeId → Option ScopeId} {s : ScopeId} {l : List ScopeId}

lemma congr (hl : ScopeChain parent? s l) (h : ∀ c ∈ l, parent'? c = parent? c) : ScopeChain parent'? s l := by
  induction hl with
  | outermost hs => exact .outermost ((h _ (by simp)).trans hs)
  | inside hs _ ih =>
    exact .inside ((h _ (by simp)).trans hs) (ih fun c hc => h c (.tail _ hc))

section

variable (h : ∀ s p, parent? s = some p → p < s)
include h

/-- Parents have smaller numbers, so the way outward ends. -/
theorem exists_of_lt (s : ScopeId) : ∃ l, ScopeChain parent? s l := by
  induction s using Nat.strongRecOn with
  | _ s ih =>
    cases hp : parent? s with
    | none => exact ⟨[s],.outermost hp⟩
    | some p =>
      obtain ⟨l,hl⟩ := ih p (h s p hp)
      exact ⟨s :: l,.inside hp hl⟩

lemma le (hl : ScopeChain parent? s l) : ∀ c ∈ l, c ≤ s := by
  induction hl with
  | outermost => simp
  | inside hp _ ih =>
    intro c hc
    obtain rfl | hc := mem_cons.1 hc
    · exact Nat.le_refl c
    · exact Nat.le_of_lt (Nat.lt_of_le_of_lt (ih c hc) (h _ _ hp))

lemma nodup (hl : ScopeChain parent? s l) : l.Nodup := by
  induction hl with
  | outermost => simp
  | inside hp hl ih =>
    refine nodup_cons.2 ⟨fun hmem => ?_,ih⟩
    exact absurd (hl.le h _ hmem) (Nat.not_le_of_lt (h _ _ hp))

end

end ScopeChain

/-- The first scope of `l` that binds the name is `scope`. -/
def FirstIn (binds : BindingId → ScopeId → String → Prop) (name : String) (scope : ScopeId) (l : List ScopeId) : Prop :=
  ∃ nearer farther, l = nearer ++ scope :: farther ∧ ∀ d ∈ nearer, ∀ i, ¬binds i d name

namespace ScopeTree

def declared (t : ScopeTree) (scope : ScopeId) (name : String) (span : Span) (referent : Referent) : ScopeAnswer × ScopeTree :=
  match t.declare scope name span referent with
  | .ok (id, t') => (.found id, t')
  | .error e => (.refused e, t)

/-- The answer to an action and the tree after it, if the scope or binding that the action speaks of is there. -/
def act (t : ScopeTree) : ScopeAction → Option (ScopeAnswer × ScopeTree)
  | .enter => some (.opened t.nextScope, t.enter)
  | .leave => some (.done, t.leave)
  | .declare scope name span referent =>
    if scope < t.nextScope then some (t.declared scope name span referent) else none
  | .setStage id stage =>
    if id < t.bindings.size then some (.done, t.modifyReferent id (·.setVarStage stage)) else none
  | .lookup scope name span => if scope < t.nextScope then some (.of (t.lookup scope name span), t) else none

/-- The binding binds the name in this very scope. -/
def Binds (t : ScopeTree) (id : BindingId) (scope : ScopeId) (name : String) : Prop :=
  ∃ x, t.bindings[id]? = some x ∧ x.scope = scope ∧ x.name = name

/-! ### Scopes and their bindings -/

/-- Scopes are numbered from the outside to the inside, and no scope binds a name twice. -/
structure Orderly (t : ScopeTree) : Prop extends t.Intact where
  unique : ∀ {i j scope name}, t.Binds i scope name → t.Binds j scope name → i = j

variable {t t' : ScopeTree} {answer : ScopeAnswer} {s scope : ScopeId} {name : String} {id : BindingId} {l : List ScopeId}

lemma Orderly.find?_eq_some_iff (h : t.Orderly) : t.find? scope name = some id ↔ t.Binds id scope name := by
  rw [ScopeTree.find?_eq_some_iff]
  refine ⟨fun hfind => hfind.1,fun hbinds => ⟨hbinds,fun j y hj hy hmatch => ?_⟩⟩
  exact absurd (h.unique ⟨y,hy,hmatch⟩ hbinds) (Nat.ne_of_lt hj)

lemma Orderly.find?_eq_none_iff (h : t.Orderly) : t.find? scope name = none ↔ ∀ i, ¬t.Binds i scope name := by
  rw [eq_none_iff_forall_ne_some]
  exact forall_congr' fun i => not_congr h.find?_eq_some_iff

lemma Intact.nearest?_of_chain (h : t.Intact) (hl : ScopeChain t.parent? s l) (name : String) :
    t.nearest? s name = l.findSome? fun c => t.find? c name := by
  induction hl with
  | outermost hs =>
    rw [h.nearest?_eq, hs, bind_none, or_none, findSome?_singleton]
  | inside hs _ ih =>
    rw [h.nearest?_eq, hs, bind_some, ih, findSome?_cons]
    cases t.find? _ name <;> rfl

lemma Orderly.nearest?_eq_some_iff (h : t.Orderly) (hl : ScopeChain t.parent? s l) :
    t.nearest? s name = some id ↔ ∃ c, t.Binds id c name ∧ FirstIn t.Binds name c l := by
  rw [h.nearest?_of_chain hl, findSome?_eq_some_iff]
  constructor
  · rintro ⟨nearer,c,farther,rfl,hc,hnearer⟩
    refine ⟨c,h.find?_eq_some_iff.1 hc,nearer,farther,rfl,fun d hd => ?_⟩
    exact h.find?_eq_none_iff.1 (hnearer d hd)
  · rintro ⟨c,hc,nearer,farther,rfl,hnearer⟩
    refine ⟨nearer,c,farther,rfl,h.find?_eq_some_iff.2 hc,fun d hd => ?_⟩
    exact h.find?_eq_none_iff.2 (hnearer d hd)

lemma Orderly.nearest?_eq_none_iff (h : t.Orderly) (hl : ScopeChain t.parent? s l) :
    t.nearest? s name = none ↔ ∀ c ∈ l, ∀ i, ¬t.Binds i c name := by
  rw [h.nearest?_of_chain hl, findSome?_eq_none_iff]
  exact forall₂_congr fun c _ => h.find?_eq_none_iff

/-! ### What an action does -/

lemma binds_modifyReferent (t : ScopeTree) (b : BindingId) (f : Referent → Referent) :
    (t.modifyReferent b f).Binds id scope name ↔ t.Binds id scope name := by
  have hget : (t.modifyReferent b f).bindings[id]? =
      if b = id then t.bindings[id]?.map fun x => { x with referent := f x.referent } else t.bindings[id]? := by
    rw [modifyReferent, Array.getElem?_modify]
  unfold Binds
  rw [hget]
  split
  · simp [map_eq_some_iff]
  · rfl

lemma binds_bind (t : ScopeTree) (x : Binding) : (t.bind x).Binds id scope name ↔
      t.Binds id scope name ∨ id = t.bindings.size ∧ x.scope = scope ∧ x.name = name := by
  unfold Binds bind
  constructor
  · rintro ⟨y,hy,hmatch⟩
    rw [Array.getElem?_push] at hy
    split at hy
    · next hid =>
      obtain rfl := Option.some.inj hy
      exact .inr ⟨hid,hmatch⟩
    · exact .inl ⟨y,hy,hmatch⟩
  · rintro (⟨y,hy,hmatch⟩ | ⟨rfl,hmatch⟩)
    · have hlt := (Array.getElem?_eq_some_iff.1 hy).1
      exact ⟨y,by rwa [Array.getElem?_push_lt hlt, ← Array.getElem?_eq_getElem hlt],hmatch⟩
    · exact ⟨x,by simp,hmatch⟩

lemma declare_of_reserved (hname : isReservedName name) (span : Span) (referent : Referent) :
    t.declare scope name span referent = .error ⟨.reservedIdentifier name,span⟩ := by
  rw [declare, vet, if_pos hname]
  rfl

lemma Orderly.declare_of_bound (h : t.Orderly) (hname : isReservedName name = false)
    (hbound : t.Binds id scope name) (span : Span) (referent : Referent) :
    t.declare scope name span referent = .error ⟨.duplicateDeclaration name,span⟩ := by
  rw [declare, vet, hname, if_neg Bool.false_ne_true, h.find?_eq_some_iff.2 hbound]
  rfl

lemma Orderly.declare_of_free (h : t.Orderly) (hname : isReservedName name = false)
    (hfree : ∀ i, ¬t.Binds i scope name) (span : Span) (referent : Referent) :
    t.declare scope name span referent = .ok (t.bindings.size, t.bind ⟨name,scope,span,referent⟩) := by
  rw [declare, vet, hname, if_neg Bool.false_ne_true, h.find?_eq_none_iff.2 hfree]
  rfl

/-! ### What is kept -/

lemma Orderly.bind (h : t.Orderly) {x : Binding} (hscope : x.scope < t.nextScope)
    (hfree : ∀ i, ¬t.Binds i x.scope x.name) : (t.bind x).Orderly where
  toIntact := h.toIntact.bind hscope
  unique {i j scope name} hi hj := by
    rw [binds_bind] at hi hj
    obtain hi | ⟨rfl,rfl,rfl⟩ := hi
    · obtain hj | ⟨rfl,rfl,rfl⟩ := hj
      · exact h.unique hi hj
      · exact absurd hi (hfree i)
    · obtain hj | ⟨rfl,-,-⟩ := hj
      · exact absurd hj (hfree j)
      · rfl

lemma Orderly.modifyReferent (h : t.Orderly) (id : BindingId) (f : Referent → Referent) : (t.modifyReferent id f).Orderly where
  toIntact := h.toIntact.modifyReferent id f
  unique hi hj := by
    rw [binds_modifyReferent] at hi hj
    exact h.unique hi hj

lemma orderly_initial : initial.Orderly where
  toIntact := State.intact_initial.scopes
  unique {i j scope name} hi _ := by
    obtain ⟨x,hx,-⟩ := hi
    simp [initial] at hx

/-! ### What a declaration changes -/

section Declaration

variable {x : Binding} (h : t.Orderly) (hscope : x.scope < t.nextScope) (hfree : ∀ i, ¬t.Binds i x.scope x.name)
include h hscope hfree

/-- The name is bound anew as seen from the scope of the declaration, and from within, up to nearer bindings. -/
theorem nearest?_bind_of_first (hl : ScopeChain t.parent? s l) (hfirst : FirstIn t.Binds x.name x.scope l) :
    (t.bind x).nearest? s x.name = some t.bindings.size := by
  have hl' : ScopeChain (t.bind x).parent? s l := hl
  refine ((h.bind hscope hfree).nearest?_eq_some_iff hl').2 ⟨x.scope,(binds_bind t x).2 (.inr ⟨rfl,rfl,rfl⟩),?_⟩
  obtain ⟨nearer,farther,rfl,hnearer⟩ := hfirst
  refine ⟨nearer,farther,rfl,fun d hd i hi => ?_⟩
  obtain hi | ⟨-,hd',-⟩ := (binds_bind t x).1 hi
  · exact hnearer d hd i hi
  · have hdisjoint := (nodup_append.1 (hl.nodup h.parents)).2.2 d hd x.scope (.head _)
    exact hdisjoint hd'.symm

/-- All other names, and the name as seen from elsewhere, mean what they meant before. -/
theorem nearest?_bind_of_not_first (hl : ScopeChain t.parent? s l) (hother : ¬(name = x.name ∧ FirstIn t.Binds name x.scope l)) :
    (t.bind x).nearest? s name = t.nearest? s name := by
  have hl' : ScopeChain (t.bind x).parent? s l := hl
  refine Option.ext fun id => ?_
  rw [(h.bind hscope hfree).nearest?_eq_some_iff hl', h.nearest?_eq_some_iff hl]
  constructor
  · rintro ⟨c,hc,nearer,farther,rfl,hnearer⟩
    have hfirst : FirstIn t.Binds name c (nearer ++ c :: farther) :=
      ⟨nearer,farther,rfl,fun d hd i hi => hnearer d hd i ((binds_bind t x).2 (.inl hi))⟩
    obtain hc | ⟨-,rfl,rfl⟩ := (binds_bind t x).1 hc
    · exact ⟨c,hc,hfirst⟩
    · exact absurd ⟨rfl,hfirst⟩ hother
  · rintro ⟨c,hc,nearer,farther,rfl,hnearer⟩
    refine ⟨c,(binds_bind t x).2 (.inl hc),nearer,farther,rfl,fun d hd i hi => ?_⟩
    obtain hi | ⟨-,rfl,rfl⟩ := (binds_bind t x).1 hi
    · exact hnearer d hd i hi
    · -- The scope of the declaration stands before the one where the name was found.
      obtain ⟨before,after,rfl⟩ := append_of_mem hd
      refine hother ⟨rfl,before,after ++ c :: farther,by simp,fun d' hd' => ?_⟩
      exact hnearer d' (mem_append_left _ hd')

end Declaration

/-- Trees that agree on the parents of scopes and on what scopes bind agree on what names mean. -/
theorem Orderly.nearest?_congr (h : t.Orderly) (h' : t'.Orderly) (hparents : ∀ c < t.nextScope, t'.parent? c = t.parent? c)
    (hbinds : ∀ i c n, t'.Binds i c n ↔ t.Binds i c n) (hs : s < t.nextScope) (name : String) :
    t'.nearest? s name = t.nearest? s name := by
  obtain ⟨l,hl⟩ := ScopeChain.exists_of_lt h.parents s
  have hl' : ScopeChain t'.parent? s l := hl.congr fun c hc => hparents c (Nat.lt_of_le_of_lt (hl.le h.parents c hc) hs)
  refine Option.ext fun id => ?_
  rw [h'.nearest?_eq_some_iff hl', h.nearest?_eq_some_iff hl]
  simp only [FirstIn, hbinds]

lemma parent?_enter (t : ScopeTree) (hs : s < t.nextScope) : t.enter.parent? s = t.parent? s := by
  have hlt : s < t.parents.size := hs
  rw [parent?, enter, Array.getElem?_push_lt hlt, parent?, Array.getElem?_eq_getElem hlt]

/-- Names change their meanings by declarations only. -/
theorem Orderly.nearest?_act (h : t.Orderly) (h' : t'.Orderly) (hact : t.act a = some (answer, t'))
    (ha : a.isDeclaration = false) (hs : s < t.nextScope) (name : String) : t'.nearest? s name = t.nearest? s name := by
  cases a with
  | enter =>
    cases hact
    exact h.nearest?_congr h' (fun _ => t.parent?_enter) (fun _ _ _ => .rfl) hs name
  | leave =>
    cases hact
    exact h.nearest?_congr h' (fun _ _ => rfl) (fun _ _ _ => .rfl) hs name
  | declare => cases ha
  | setStage id stage =>
    obtain ⟨-,-,rfl⟩ : id < t.bindings.size ∧ .done = answer ∧ t.modifyReferent id (·.setVarStage stage) = t' := by
      simpa [ScopeTree.act] using hact
    exact h.nearest?_congr h' (fun _ _ => rfl) (fun _ _ _ => t.binds_modifyReferent id _) hs name
  | lookup scope name span =>
    obtain ⟨-,-,rfl⟩ : scope < t.nextScope ∧ .of (t.lookup scope name span) = answer ∧ t = t' := by
      simpa [ScopeTree.act] using hact
    rfl

/-! ### Nesting -/

lemma lookup_eq_ok_iff : t.lookup s name span = .ok id ↔ t.nearest? s name = some id := by
  unfold lookup
  cases t.nearest? s name <;> simp

lemma lookup_eq_error_iff :
    t.lookup s name span = .error e ↔ t.nearest? s name = none ∧ e = ⟨.undeclaredIdentifier name,span⟩ := by
  unfold lookup
  cases t.nearest? s name <;> simp [eq_comm]

lemma Orderly.declare_eq_error_iff (h : t.Orderly) : t.declare scope name span referent = .error e ↔
      isReservedName name = true ∧ e = ⟨.reservedIdentifier name,span⟩ ∨
        isReservedName name = false ∧ (∃ i, t.Binds i scope name) ∧ e = ⟨.duplicateDeclaration name,span⟩ := by
  cases hname : isReservedName name with
  | true => simp [declare_of_reserved hname, eq_comm]
  | false =>
    by_cases hbound : ∃ i, t.Binds i scope name
    · obtain ⟨i,hi⟩ := hbound
      simp [h.declare_of_bound hname hi, eq_comm, show ∃ i, t.Binds i scope name from ⟨i,hi⟩]
    · simp [h.declare_of_free hname (not_exists.1 hbound), hbound]

end ScopeTree

end Opal
