import Opal.Proofs.NestedScopes
import Opal.Scope.SymbolTable

/-!
# Symbol tables hold nested scopes

A symbol table answers as the tree of scopes that it stands for, whatever is done with either. So a name means its binding in the
nearest scope that has one, however names are replaced by symbols and wherever bindings are kept.
-/

namespace Opal

open List Option

variable {I : Interner} {store : I.Store} {name other : String} {symbol : Symbol} {scope s : ScopeId} {id : BindingId}
  {span : Span} {referent : Referent} {a : ScopeAction}

lemma Interner.symbol?_mono (h : I.symbol? store other = some symbol) (name : String) :
    I.symbol? (I.intern store name).2 other = some symbol := by
  rw [I.symbol?_intern]
  split
  · next heq => rw [I.intern_of_symbol? (heq ▸ h)]
  · exact h

/-- Symbols given in the order in which the names come. -/
def Interner.inOrder : Interner where
  Store := List String
  empty := []
  symbol? store name := store.findIdx? (· == name)
  intern store name :=
    match store.findIdx? (· == name) with
    | some symbol => (symbol, store)
    | none => (store.length, store ++ [name])
  symbol?_empty _ := rfl
  intern_of_symbol? h := by rw [h]
  symbol?_intern store name other := by
    by_cases heq : other = name
    · subst heq
      cases h : store.findIdx? (· == other) <;> simp [findIdx?_append, h]
    · cases store.findIdx? (· == name) <;> simp [findIdx?_append, heq, Ne.symm heq]
  injective h h' := by
    obtain ⟨_,hget,-⟩ := findIdx?_eq_some_iff_getElem.1 h
    obtain ⟨_,hget',-⟩ := findIdx?_eq_some_iff_getElem.1 h'
    exact (beq_iff_eq.1 hget).symm.trans (beq_iff_eq.1 hget')

lemma exists_of_rel_some {α β : Type} {R : α → β → Prop} {x : α} {y : Option β} (h : Rel R (some x) y) :
    ∃ z, y = some z ∧ R x z := by
  cases h with
  | some hxz => exact ⟨_,rfl,hxz⟩

namespace SymbolTable

/-- The answer to a declaration, and the table after it. -/
def declared (t : SymbolTable I) (scope : ScopeId) (name : String) (span : Span) (referent : Referent) :
    ScopeAnswer × SymbolTable I :=
  (.of (t.declare scope name span referent).1, (t.declare scope name span referent).2)

/-- The answer to an action and the table after it, if the scope or binding that the action speaks of is there. -/
def act (t : SymbolTable I) : ScopeAction → Option (ScopeAnswer × SymbolTable I)
  | .enter => some (.opened t.scopes.size, t.enter)
  | .leave => some (.done, t.leave)
  | .declare scope name span referent =>
    if scope < t.scopes.size then some (t.declared scope name span referent) else none
  | .setStage id stage => if id < t.bindings.size then some (.done, t.setStage id stage) else none
  | .lookup scope name span => if scope < t.scopes.size then some (.of (t.lookup scope name span), t) else none

/-- The binding binds the name in this very scope. -/
def Binds (t : SymbolTable I) (id : BindingId) (scope : ScopeId) (name : String) : Prop :=
  ∃ symbol, I.symbol? t.interner name = some symbol ∧ t.bound? scope symbol = some id

/-- The two bindings are of one name, which is told by its symbol in the one. -/
structure Represents (store : I.Store) (x : SymbolBinding) (y : Binding) : Prop where
  symbol : I.symbol? store y.name = some x.symbol
  scope : x.scope = y.scope
  span : x.span = y.span
  referent : x.referent = y.referent

/-- The table stands for the tree of scopes, and its scopes bind what stands in its sequence of bindings. -/
structure Refines (t : SymbolTable I) (u : ScopeTree) : Prop where
  orderly : u.Orderly
  parents : t.scopes.map Scope.parent = u.parents
  current : t.current = u.current
  bindings : ∀ id : BindingId, Rel (Represents t.interner) t.bindings[id]? u.bindings[id]?
  bound : ∀ {scope symbol} {id : BindingId}, t.bound? scope symbol = some id ↔
    ∃ x, t.bindings[id]? = some x ∧ x.scope = scope ∧ x.symbol = symbol

variable {t t' : SymbolTable I} {u : ScopeTree}

lemma bound?_bind {b : SymbolBinding} (hscope : b.scope < t.scopes.size) :
    (t.bind b).bound? scope symbol = if b.scope = scope ∧ b.symbol = symbol then some t.bindings.size else t.bound? scope symbol := by
  rw [bound?, bind, Array.getElem?_modify, bound?]
  by_cases hs : b.scope = scope
  · subst hs
    rw [if_pos rfl, Array.getElem?_eq_getElem hscope]
    simp [Std.HashMap.getElem?_insert]
  · rw [if_neg hs, if_neg fun hmatch => hs hmatch.1]

namespace Refines

section

variable (h : t.Refines u)
include h

lemma scopes_size : t.scopes.size = u.nextScope := by
  rw [ScopeTree.nextScope, ← h.parents, Array.size_map]

lemma bindings_size : t.bindings.size = u.bindings.size := by
  have hle : ∀ id, t.bindings.size ≤ id ↔ u.bindings.size ≤ id := fun id => by
    have hid := h.bindings id
    rw [← Array.getElem?_eq_none_iff, ← Array.getElem?_eq_none_iff]
    generalize t.bindings[id]? = x, u.bindings[id]? = y at hid ⊢
    cases hid <;> simp
  exact Nat.le_antisymm ((hle _).2 (Nat.le_refl _)) ((hle _).1 (Nat.le_refl _))

lemma parent?_eq : t.parent? = u.parent? := by
  funext s
  rw [ScopeTree.parent?, ← h.parents, Array.getElem?_map, SymbolTable.parent?]
  cases t.scopes[s]? <;> rfl

lemma exists_binding {y : Binding} (hy : u.bindings[id]? = some y) :
    ∃ x, t.bindings[id]? = some x ∧ Represents t.interner x y := by
  have hid := h.bindings id
  rw [hy] at hid
  generalize t.bindings[id]? = x at hid
  cases hid with
  | some hxy => exact ⟨_,rfl,hxy⟩

lemma exists_represented {x : SymbolBinding} (hx : t.bindings[id]? = some x) :
    ∃ y, u.bindings[id]? = some y ∧ Represents t.interner x y :=
  exists_of_rel_some (hx ▸ h.bindings id)

lemma binds_iff : t.Binds id scope name ↔ u.Binds id scope name := by
  constructor
  · rintro ⟨symbol,hsymbol,hbound⟩
    obtain ⟨x,hx,rfl,rfl⟩ := h.bound.1 hbound
    obtain ⟨y,hy,hxy⟩ := h.exists_represented hx
    exact ⟨y,hy,hxy.scope.symm,I.injective hxy.symbol hsymbol⟩
  · rintro ⟨y,hy,rfl,rfl⟩
    obtain ⟨x,hx,hxy⟩ := h.exists_binding hy
    exact ⟨x.symbol,hxy.symbol,h.bound.2 ⟨x,hx,hxy.scope,rfl⟩⟩

/-! ### Looking up -/

lemma bound?_eq (hsymbol : I.symbol? t.interner name = some symbol) (scope : ScopeId) :
    t.bound? scope symbol = u.find? scope name := by
  refine Option.ext fun id => ?_
  rw [h.orderly.find?_eq_some_iff, ← h.binds_iff]
  refine ⟨fun hbound => ⟨symbol,hsymbol,hbound⟩,?_⟩
  rintro ⟨symbol',hsymbol',hbound⟩
  rwa [Option.some.inj (hsymbol.symm.trans hsymbol')]

lemma nearestWithin?_eq (hsymbol : I.symbol? t.interner name = some symbol) (n : Nat) (scope : ScopeId) :
    t.nearestWithin? symbol n scope = (u.chainWithin n scope).findSome? fun s => u.find? s name := by
  induction n generalizing scope with
  | zero => rw [nearestWithin?, h.bound?_eq hsymbol, ScopeTree.chainWithin, findSome?_singleton]
  | succ n ih =>
    rw [nearestWithin?, h.bound?_eq hsymbol, h.parent?_eq, ScopeTree.chainWithin]
    cases hfind : u.find? scope name with
    | some id => cases u.parent? scope <;> simp [hfind]
    | none =>
      cases u.parent? scope with
      | none => simp [hfind]
      | some p => simp [hfind, ih]

lemma lookup_eq (scope : ScopeId) (name : String) (span : Span) : t.lookup scope name span = u.lookup scope name span := by
  have hnearest : (I.symbol? t.interner name).bind (fun symbol => t.nearestWithin? symbol scope scope) = u.nearest? scope name := by
    cases hsymbol : I.symbol? t.interner name with
    | some symbol => rw [bind_some, h.nearestWithin?_eq hsymbol, ScopeTree.nearest?, ScopeTree.chain]
    | none =>
      refine (findSome?_eq_none_iff.2 fun s _ => h.orderly.find?_eq_none_iff.2 fun i hi => ?_).symm
      obtain ⟨_,hsymbol',-⟩ := h.binds_iff.2 hi
      rw [hsymbol] at hsymbol'
      cases hsymbol'
  rw [lookup, hnearest]
  rfl

/-! ### What an action does -/

lemma lt_nextScope {x : SymbolBinding} (hx : t.bindings[id]? = some x) : x.scope < t.scopes.size := by
  obtain ⟨y,hy,hxy⟩ := h.exists_represented hx
  rw [hxy.scope, h.scopes_size]
  exact h.orderly.toIntact.bindings y (Array.mem_of_getElem? hy)

lemma enter : t.enter.Refines u.enter where
  orderly := { toIntact := h.orderly.toIntact.enter, unique := h.orderly.unique }
  parents := by
    rw [ScopeTree.enter, ← h.parents, ← h.current, SymbolTable.enter, Array.map_push]
  current := h.scopes_size
  bindings := h.bindings
  bound {scope symbol id} := by
    rw [bound?, SymbolTable.enter, Array.getElem?_push]
    split
    · next hscope =>
      -- The new scope binds nothing, and no binding is of it.
      refine ⟨fun hid => by simp at hid,?_⟩
      rintro ⟨x,hx,rfl,-⟩
      exact absurd (h.lt_nextScope hx) (hscope ▸ Nat.lt_irrefl _)
    · exact h.bound

lemma leave : t.leave.Refines u.leave where
  orderly := { toIntact := h.orderly.toIntact.leave, unique := h.orderly.unique }
  parents := h.parents
  current := by rw [SymbolTable.leave, ScopeTree.leave, h.parent?_eq, h.current]
  bindings := h.bindings
  bound := h.bound

lemma setStage (id : BindingId) (stage : VarStage) :
    (t.setStage id stage).Refines (u.modifyReferent id (·.setVarStage stage)) where
  orderly := h.orderly.modifyReferent id _
  parents := h.parents
  current := h.current
  bindings i := by
    have hi := h.bindings i
    rw [SymbolTable.setStage, ScopeTree.modifyReferent, Array.getElem?_modify, Array.getElem?_modify]
    split
    · generalize t.bindings[i]? = x, u.bindings[i]? = y at hi
      cases hi with
      | none => exact .none
      | some hxy => exact .some { hxy with referent := congrArg (Referent.setVarStage stage) hxy.referent }
    · exact hi
  bound {scope symbol i} := by
    refine h.bound.trans ?_
    rw [SymbolTable.setStage, Array.getElem?_modify]
    split
    · simp [map_eq_some_iff]
    · rfl

/-- The symbols that names have stay theirs when a name is given one. -/
theorem interned (name : String) : { t with interner := (I.intern t.interner name).2 }.Refines u where
  orderly := h.orderly
  parents := h.parents
  current := h.current
  bindings id := by
    have hid := h.bindings id
    change Rel _ t.bindings[id]? _
    generalize t.bindings[id]? = x, u.bindings[id]? = y at hid
    cases hid with
    | none => exact .none
    | some hxy => exact .some { hxy with symbol := I.symbol?_mono hxy.symbol name }
  bound := h.bound

lemma bind (hscope : scope < u.nextScope) (hsymbol : I.symbol? t.interner name = some symbol)
    (hfree : ∀ i, ¬u.Binds i scope name) (span : Span) (referent : Referent) :
    (t.bind ⟨symbol,scope,span,referent⟩).Refines (u.bind ⟨name,scope,span,referent⟩) where
  orderly := h.orderly.bind hscope hfree
  parents := by
    rw [ScopeTree.bind, ← h.parents]
    refine Array.ext_getElem? fun i => ?_
    rw [SymbolTable.bind, Array.getElem?_map, Array.getElem?_map, Array.getElem?_modify]
    split
    · cases t.scopes[i]? <;> rfl
    · rfl
  current := h.current
  bindings id := by
    rw [SymbolTable.bind, ScopeTree.bind, Array.getElem?_push, Array.getElem?_push, h.bindings_size]
    split
    · exact .some ⟨hsymbol,rfl,rfl,rfl⟩
    · exact h.bindings id
  bound {s y id} := by
    rw [bound?_bind (h.scopes_size ▸ hscope), SymbolTable.bind]
    split
    · next hmatch =>
      obtain ⟨rfl,rfl⟩ := hmatch
      constructor
      · rintro ⟨⟩
        exact ⟨_,by simp,rfl,rfl⟩
      · rintro ⟨x,hx,hx'⟩
        rw [Array.getElem?_push] at hx
        split at hx
        · next hid => rw [hid]
        · exact absurd (h.binds_iff.1 ⟨_,hsymbol,h.bound.2 ⟨x,hx,hx'⟩⟩) (hfree id)
    · next hmatch =>
      refine h.bound.trans ⟨?_,?_⟩
      · rintro ⟨x,hx,hx'⟩
        have hlt := (Array.getElem?_eq_some_iff.1 hx).1
        exact ⟨x,by rwa [Array.getElem?_push_lt hlt, ← Array.getElem?_eq_getElem hlt],hx'⟩
      · rintro ⟨x,hx,hx'⟩
        rw [Array.getElem?_push] at hx
        split at hx
        · cases hx
          exact absurd hx' hmatch
        · exact ⟨x,hx,hx'⟩

/-- A declaration is refused by both, and then only a symbol may have been given, or both bind the name. -/
theorem declare_cases (hscope : scope < u.nextScope) (name : String) (span : Span) (referent : Referent) :
    (∃ e t', t.declare scope name span referent = (.error e, t') ∧ u.declare scope name span referent = .error e ∧
      t'.Refines u ∧ ∃ store, t' = { t with interner := store }) ∨
    ∃ t', t.declare scope name span referent = (.ok t.bindings.size, t') ∧
      u.declare scope name span referent = .ok (u.bindings.size, u.bind ⟨name,scope,span,referent⟩) ∧
      (∀ i, ¬u.Binds i scope name) ∧ t'.Refines (u.bind ⟨name,scope,span,referent⟩) ∧
      ∃ symbol, t'.bindings = t.bindings.push ⟨symbol,scope,span,referent⟩ := by
  unfold SymbolTable.declare
  cases hname : isReservedName name with
  | true => exact .inl ⟨_,t,rfl,ScopeTree.declare_of_reserved hname span referent,h,_,rfl⟩
  | false =>
    have hi := h.interned name
    have hsymbol : I.symbol? (I.intern t.interner name).2 name = some (I.intern t.interner name).1 := by
      rw [I.symbol?_intern, if_pos rfl]
    rw [if_neg Bool.false_ne_true]
    dsimp only
    rw [hi.bound?_eq hsymbol]
    cases hfind : u.find? scope name with
    | some id =>
      have hbound := h.orderly.find?_eq_some_iff.1 hfind
      exact .inl ⟨_,_,rfl,h.orderly.declare_of_bound hname hbound span referent,hi,_,rfl⟩
    | none =>
      have hfree := h.orderly.find?_eq_none_iff.1 hfind
      exact .inr ⟨_,rfl,h.orderly.declare_of_free hname hfree span referent,hfree,hi.bind hscope hsymbol hfree span referent,_,rfl⟩

lemma declared (hscope : scope < u.nextScope) (name : String) (span : Span) (referent : Referent) :
    (t.declared scope name span referent).1 = (u.declared scope name span referent).1 ∧
      (t.declared scope name span referent).2.Refines (u.declared scope name span referent).2 := by
  unfold SymbolTable.declared ScopeTree.declared
  obtain ⟨e,t',ht,hu,h',-⟩ | ⟨t',ht,hu,-,h',-⟩ := h.declare_cases hscope name span referent
  · rw [ht, hu]
    exact ⟨rfl,h'⟩
  · rw [ht, hu, h.bindings_size]
    exact ⟨rfl,h'⟩

/-- A table answers every action as the tree does. -/
theorem act (a : ScopeAction) : Rel (fun r q => r.1 = q.1 ∧ r.2.Refines q.2) (t.act a) (u.act a) := by
  cases a with
  | enter => exact .some ⟨congrArg _ h.scopes_size,h.enter⟩
  | leave => exact .some ⟨rfl,h.leave⟩
  | declare scope name span referent =>
    rw [SymbolTable.act, ScopeTree.act, h.scopes_size]
    by_cases hscope : scope < u.nextScope
    · rw [if_pos hscope, if_pos hscope]
      exact .some (h.declared hscope name span referent)
    · rw [if_neg hscope, if_neg hscope]
      exact .none
  | setStage id stage =>
    rw [SymbolTable.act, ScopeTree.act, h.bindings_size]
    split
    · exact .some ⟨rfl,h.setStage id stage⟩
    · exact .none
  | lookup scope name span =>
    rw [SymbolTable.act, ScopeTree.act, h.scopes_size, h.lookup_eq]
    split
    · exact .some ⟨rfl,h⟩
    · exact .none

/-- So it does for any number of actions. -/
theorem actAll (actions : List ScopeAction) :
    Rel (fun r q => r.1 = q.1 ∧ r.2.Refines q.2) (actAll SymbolTable.act t actions) (actAll ScopeTree.act u actions) := by
  induction actions generalizing t u with
  | nil => exact .some ⟨rfl,h⟩
  | cons a actions ih =>
    unfold Opal.actAll
    have hact := h.act a
    generalize t.act a = x, u.act a = y at hact
    cases hact with
    | none => exact .none
    | @some r q hrq =>
      have hrest := ih hrq.2
      rw [bind_some, bind_some]
      generalize Opal.actAll SymbolTable.act r.2 actions = x, Opal.actAll ScopeTree.act q.2 actions = y at hrest
      cases hrest with
      | none => exact .none
      | some hrest => exact .some ⟨congr (congrArg _ hrq.1) hrest.1,hrest.2⟩

end

end Refines

lemma refines_initial : (initial : SymbolTable I).Refines .initial where
  orderly := ScopeTree.orderly_initial
  parents := by simp [initial, ScopeTree.initial]
  current := rfl
  bindings _ := by
    rw [initial, ScopeTree.initial, Array.getElem?_empty, Array.getElem?_empty]
    exact .none
  bound {scope symbol id} := by
    cases scope <;> simp [bound?, initial]

/-! ### Nesting -/

/-- Names mean their nearest bindings, and only declarations bind names. -/
structure Nested (t : SymbolTable I) : Prop where
  /-- Scopes are numbered from the outside to the inside. -/
  parent_lt : ∀ {s p}, t.parent? s = some p → p < s
  /-- Every scope is inside finitely many others, which are there. -/
  chain : ∀ {s}, s < t.scopes.size → ∃ l, ScopeChain t.parent? s l ∧ ∀ c ∈ l, c < t.scopes.size
  /-- What a scope binds a name to is the binding of that name and scope in the sequence of all bindings. -/
  binds_iff : ∀ {id : BindingId} {scope name}, t.Binds id scope name ↔
    ∃ x, t.bindings[id]? = some x ∧ x.scope = scope ∧ I.symbol? t.interner name = some x.symbol
  /-- No two bindings are of one name and scope. -/
  unique : ∀ {i j : BindingId} {x y}, t.bindings[i]? = some x → t.bindings[j]? = some y →
    x.scope = y.scope → x.symbol = y.symbol → i = j
  /-- A name means its binding in the first scope around the use that has one. -/
  lookup_ok : ∀ {s l name span id}, ScopeChain t.parent? s l →
    (t.lookup s name span = .ok id ↔ ∃ c, t.Binds id c name ∧ FirstIn t.Binds name c l)
  /-- It is undeclared if there is none. -/
  lookup_error : ∀ {s l name span e}, ScopeChain t.parent? s l →
    (t.lookup s name span = .error e ↔ (∀ c ∈ l, ∀ i, ¬t.Binds i c name) ∧ e = ⟨.undeclaredIdentifier name,span⟩)
  /-- A declaration is refused for a reserved name and for a name that this very scope binds. -/
  declare_error : ∀ {scope name span referent e}, scope < t.scopes.size → ((t.declare scope name span referent).1 = .error e ↔
      isReservedName name = true ∧ e = ⟨.reservedIdentifier name,span⟩ ∨
        isReservedName name = false ∧ (∃ i, t.Binds i scope name) ∧ e = ⟨.duplicateDeclaration name,span⟩)
  /-- A declaration that is refused leaves scopes and bindings, and all later actions are answered as if it had not been tried. -/
  refused : ∀ {scope name span referent e t'}, scope < t.scopes.size → t.declare scope name span referent = (.error e, t') →
    t'.scopes = t.scopes ∧ t'.bindings = t.bindings ∧ t'.current = t.current ∧
      ∀ later, (actAll act t' later).map Prod.fst = (actAll act t later).map Prod.fst
  /-- A declaration that is not refused adds one binding at the end. -/
  declare_ok : ∀ {scope name span referent id t'}, scope < t.scopes.size → t.declare scope name span referent = (.ok id, t') →
    id = t.bindings.size ∧ (∃ symbol, t'.bindings = t.bindings.push ⟨symbol,scope,span,referent⟩) ∧
      (∀ i c n, t'.Binds i c n ↔ t.Binds i c n ∨ i = id ∧ c = scope ∧ n = name) ∧ t'.parent? = t.parent? ∧ t'.current = t.current
  /-- From then on the name means it, as seen from that scope and from the scopes inside up to nearer bindings. -/
  declare_near : ∀ {scope name span referent id t' s l span'}, scope < t.scopes.size →
    t.declare scope name span referent = (.ok id, t') → ScopeChain t.parent? s l → FirstIn t.Binds name scope l →
      t'.lookup s name span' = .ok id
  /-- All else that is looked up is found as before. -/
  declare_far : ∀ {scope name span referent id t' s l name' span'}, scope < t.scopes.size →
    t.declare scope name span referent = (.ok id, t') → ScopeChain t.parent? s l →
    ¬(name' = name ∧ FirstIn t.Binds name scope l) → t'.lookup s name' span' = t.lookup s name' span'
  /-- So is everything after all but a declaration. -/
  other : ∀ {a : ScopeAction} {answer t' s name span}, a.isDeclaration = false → t.act a = some (answer, t') →
    s < t.scopes.size → t'.lookup s name span = t.lookup s name span

namespace Refines

variable {e : SemanticError} {answer : ScopeAnswer}

lemma binds_eq (h : t.Refines u) : t.Binds = u.Binds :=
  funext fun _ => funext fun _ => funext fun _ => propext h.binds_iff

/-- Tables that stand for one tree answer alike. -/
theorem answers_eq (h : t.Refines u) (h' : t'.Refines u) (actions : List ScopeAction) :
    (Opal.actAll SymbolTable.act t' actions).map Prod.fst = (Opal.actAll SymbolTable.act t actions).map Prod.fst := by
  have hr := h.actAll actions
  have hr' := h'.actAll actions
  generalize Opal.actAll SymbolTable.act t actions = x, Opal.actAll SymbolTable.act t' actions = x',
    Opal.actAll ScopeTree.act u actions = y at hr hr'
  cases hr with
  | none => cases hr' with | none => rfl
  | some hr => cases hr' with | some hr' => exact congrArg some (hr'.1.trans hr.1.symm)

lemma of_declare_eq_error (h : t.Refines u) (hscope : scope < t.scopes.size)
    (he : t.declare scope name span referent = (.error e, t')) : t'.Refines u ∧ ∃ store, t' = { t with interner := store } := by
  obtain ⟨e',t'',ht,-,h'⟩ | ⟨t'',ht,-⟩ := h.declare_cases (h.scopes_size ▸ hscope) name span referent
  · rwa [(Prod.mk.inj (ht.symm.trans he)).2] at h'
  · cases congrArg Prod.fst (ht.symm.trans he)

lemma of_declare_eq_ok (h : t.Refines u) (hscope : scope < t.scopes.size)
    (hok : t.declare scope name span referent = (.ok id, t')) :
    id = u.bindings.size ∧ (∀ i, ¬u.Binds i scope name) ∧ t'.Refines (u.bind ⟨name,scope,span,referent⟩) ∧
      ∃ symbol, t'.bindings = t.bindings.push ⟨symbol,scope,span,referent⟩ := by
  obtain ⟨e',t'',ht,-⟩ | ⟨t'',ht,-,h'⟩ := h.declare_cases (h.scopes_size ▸ hscope) name span referent
  · cases congrArg Prod.fst (ht.symm.trans hok)
  · obtain ⟨hid,rfl⟩ := Prod.mk.inj (ht.symm.trans hok)
    exact ⟨(Except.ok.inj hid).symm.trans h.bindings_size,h'⟩

lemma nested (h : t.Refines u) : t.Nested where
  parent_lt hp := h.orderly.parents _ _ (h.parent?_eq ▸ hp)
  chain {s} hs := by
    rw [h.parent?_eq]
    obtain ⟨l,hl⟩ := ScopeChain.exists_of_lt h.orderly.parents s
    exact ⟨l,hl,fun c hc => Nat.lt_of_le_of_lt (hl.le h.orderly.parents c hc) hs⟩
  binds_iff {id scope name} := by
    constructor
    · rintro ⟨symbol,hsymbol,hbound⟩
      obtain ⟨x,hx,hscope,rfl⟩ := h.bound.1 hbound
      exact ⟨x,hx,hscope,hsymbol⟩
    · rintro ⟨x,hx,hscope,hsymbol⟩
      exact ⟨x.symbol,hsymbol,h.bound.2 ⟨x,hx,hscope,rfl⟩⟩
  unique {i j x y} hi hj hscope hsymbol :=
    Option.some.inj ((h.bound.2 ⟨x,hi,hscope,hsymbol⟩).symm.trans (h.bound.2 ⟨y,hj,rfl,rfl⟩))
  lookup_ok hl := by
    rw [h.parent?_eq] at hl
    rw [h.lookup_eq, ScopeTree.lookup_eq_ok_iff, h.orderly.nearest?_eq_some_iff hl, h.binds_eq]
  lookup_error hl := by
    rw [h.parent?_eq] at hl
    rw [h.lookup_eq, ScopeTree.lookup_eq_error_iff, h.orderly.nearest?_eq_none_iff hl, h.binds_eq]
  declare_error {scope name span referent e} hscope := by
    have hiff : u.declare scope name span referent = .error e ↔ _ := h.orderly.declare_eq_error_iff
    rw [h.binds_eq, ← hiff]
    obtain ⟨e',t',ht,hu,-⟩ | ⟨t',ht,hu,-⟩ := h.declare_cases (h.scopes_size ▸ hscope) name span referent
    · simp [ht, hu]
    · simp [ht, hu]
  refused hscope he := by
    obtain ⟨h',store,rfl⟩ := h.of_declare_eq_error hscope he
    exact ⟨rfl,rfl,rfl,h.answers_eq h'⟩
  declare_ok hscope hok := by
    obtain ⟨rfl,-,h',hpush⟩ := h.of_declare_eq_ok hscope hok
    refine ⟨h.bindings_size.symm,hpush,fun i c n => ?_,h'.parent?_eq.trans h.parent?_eq.symm,h'.current.trans h.current.symm⟩
    rw [h'.binds_iff, h.binds_iff, ScopeTree.binds_bind]
    simp only [eq_comm]
  declare_near {scope name span referent id t' s l span'} hscope hok hl hfirst := by
    obtain ⟨rfl,hfree,h',-⟩ := h.of_declare_eq_ok hscope hok
    rw [h.parent?_eq] at hl
    rw [h.binds_eq] at hfirst
    rw [h'.lookup_eq]
    exact ScopeTree.lookup_eq_ok_iff.2 (ScopeTree.nearest?_bind_of_first h.orderly (h.scopes_size ▸ hscope) hfree hl hfirst)
  declare_far {scope name span referent id t' s l name' span'} hscope hok hl hother := by
    obtain ⟨rfl,hfree,h',-⟩ := h.of_declare_eq_ok hscope hok
    rw [h.parent?_eq] at hl
    have hother' : ¬(name' = name ∧ FirstIn u.Binds name' scope l) := by
      rintro ⟨rfl,hfirst⟩
      exact hother ⟨rfl,h.binds_eq ▸ hfirst⟩
    rw [h'.lookup_eq, h.lookup_eq, ScopeTree.lookup,
      ScopeTree.nearest?_bind_of_not_first h.orderly (h.scopes_size ▸ hscope) hfree hl hother', ScopeTree.lookup]
  other {a answer t' s name span} ha hact hs := by
    obtain ⟨⟨answer',u'⟩,hu,-,h'⟩ := exists_of_rel_some (hact ▸ h.act a)
    rw [h'.lookup_eq, h.lookup_eq, ScopeTree.lookup, h.orderly.nearest?_act h'.orderly hu ha (h.scopes_size ▸ hs), ScopeTree.lookup]

end Refines

/-- Whatever was done with a symbol table, it has answered as a tree of scopes does, which it stands for, and names mean their
nearest bindings. -/
theorem nested_of_actions {actions : List ScopeAction} {answers : List ScopeAnswer} {t : SymbolTable I}
    (h : actAll act initial actions = some (answers, t)) :
    t.Nested ∧ ∃ u, actAll ScopeTree.act .initial actions = some (answers, u) ∧ t.Refines u := by
  obtain ⟨⟨answers',u⟩,hu,rfl,ht⟩ := exists_of_rel_some (h ▸ refines_initial.actAll actions)
  exact ⟨ht.nested,u,hu,ht⟩

/-- A name bound in the outermost scope and again inside, a second scope beside that one, a reserved name, a name
bound twice, and a name bound in a scope that was left. -/
def sampleActions : List ScopeAction :=
  [.declare 0 "x" ⟨0,1⟩ .declaredConst, .enter, .declare 1 "x" ⟨2,3⟩ (.declaredVar true), .setStage 1 .initialized,
    .leave, .enter, .declare 2 "bool" ⟨4,5⟩ .declaredConst, .lookup 2 "x" ⟨6,7⟩, .declare 1 "x" ⟨8,9⟩ .declaredFunc,
    .leave, .declare 1 "y" ⟨10,11⟩ .declaredFunc, .lookup 0 "y" ⟨12,13⟩]

/-- What they answer. -/
def sampleAnswers : List ScopeAnswer :=
  [.found 0, .opened 1, .found 1, .done, .done, .opened 2, .refused ⟨.reservedIdentifier "bool",⟨4,5⟩⟩, .found 0,
    .refused ⟨.duplicateDeclaration "x",⟨8,9⟩⟩, .done, .found 2, .refused ⟨.undeclaredIdentifier "y",⟨12,13⟩⟩]

theorem nested_of_actions_sample : ∃ t : SymbolTable .inOrder,
    actAll act initial sampleActions = some (sampleAnswers, t) ∧ t.Nested ∧ t.bindings.size = 3 := by
  have htree : (actAll ScopeTree.act .initial sampleActions).map (fun r => (r.1, r.2.bindings.size)) = some (sampleAnswers, 3) := by
    decide +kernel
  obtain ⟨⟨_,u⟩,hu,heq⟩ := map_eq_some_iff.1 htree
  obtain ⟨rfl,hsize⟩ := Prod.mk.inj heq
  have hrel := (refines_initial : (initial : SymbolTable .inOrder).Refines _).actAll sampleActions
  rw [hu] at hrel
  cases hrun : actAll act (initial : SymbolTable .inOrder) sampleActions with
  | none =>
    rw [hrun] at hrel
    cases hrel
  | some r =>
    rw [hrun] at hrel
    cases hrel with
    | some hr =>
      have hrun' := hrun.trans (congrArg (fun answers => some (answers, r.2)) hr.1)
      exact ⟨r.2,hrun.symm.trans hrun',(nested_of_actions hrun').1,hr.2.bindings_size.trans hsize⟩

end SymbolTable

end Opal
