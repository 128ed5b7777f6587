import Opal.Proofs.LikeTrees
import Opal.Proofs.StateFrames

/-!
# States that are alike

Nothing that a run reads tells states apart that are alike, so runs that start in such states end alike. Nothing else is assumed
of the states.
-/

namespace Opal

open Check

open Coupling (InStep RunInStep)

variable {x : Binding} {b : BindingId} {m m' : Check Unit} {w : State} {e e' : Event} {id : NodeId} {inside : String → Prop}

structure Binding.Like (L : Likeness) (b b' : Binding) : Prop where
  name : b'.name = b.name
  scope : b'.scope = b.scope
  referent : b'.referent = b.referent
  span : L.name b.span b'.span

namespace Likeness

/-- Errors that are alike: the same is wrong. -/
def Error (L : Likeness) (e e' : SemanticError) : Prop :=
  e'.cause = e.cause ∧ L.span e.span e'.span

inductive Stops (L : Likeness) : Stop → Stop → Prop where
  | error {e e' : SemanticError} (h : L.Error e e') : Stops L (.error e) (.error e')
  | blocked : Stops L .blocked .blocked

/-- Results that are as `R` says, or errors that are alike. -/
inductive Excepts (L : Likeness) {α α' : Type} (R : α → α' → Prop) :
    Except SemanticError α → Except SemanticError α' → Prop where
  | ok {a : α} {a' : α'} (h : R a a') : Excepts L R (.ok a) (.ok a')
  | error {e e' : SemanticError} (h : L.Error e e') : Excepts L R (.error e) (.error e')

/-- States that are alike. -/
structure States (L : Likeness) (s s' : State) : Prop where
  parents : s'.scopes.parents = s.scopes.parents
  current : s'.scopes.current = s.scopes.current
  bindings : ∀ i : Nat, Option.Rel (Binding.Like L) s.scopes.bindings[i]? s'.scopes.bindings[i]?
  types : L.types → s'.types = s.types
  typeOf : L.typeOf s.typeOf s'.typeOf
  references : L.references → s'.refersTo = s.refersTo
  valueOf : s'.valueOf = s.valueOf
  introduces : s'.introduces = s.introduces
  errors : List.Forall₂ L.Error s.errors.toList s'.errors.toList
  constants : ∀ b : BindingId, Option.Rel (ConstDecl.Like L) s.constants[b]? s'.constants[b]?
  resultTypes : s'.resultTypes = s.resultTypes

end Likeness

inductive Event.Like (L : Likeness) : Event → Event → Prop where
  | reported {e e' : SemanticError} (h : L.Error e e') : Like L (.reported e) (.reported e')
  | dropped : Like L .dropped .dropped
  | begun (id id' : NodeId) (expected expected' : Option Ty) : Like L (.begun id expected) (.begun id' expected')
  | typed {id id' : NodeId} (hid : L.Both id id') (t : Ty) : Like L (.typed id t) (.typed id' t)
  | referred (id : NodeId) (b : BindingId) : Like L (.referred id b) (.referred id b)
  | built (t : Ty) : Like L (.built t) (.built t)
  | entered : Like L .entered .entered
  | left : Like L .left .left
  | called (ret : Ty) : Like L (.called ret) (.called ret)
  | returned : Like L .returned .returned
  | bound {x x' : Binding} (b : BindingId) (h : x.Like L x') : Like L (.bound b x) (.bound b x')
  | introduced {d d' : Decl} (h : d.Like L d') (b : BindingId) : Like L (.introduced d b) (.introduced d' b)
  | valued (id : NodeId) (v : Value) : Like L (.valued id v) (.valued id v)

lemma Likeness.Stops.event {L : Likeness} {stop stop' : Stop} (h : L.Stops stop stop') : stop.event.Like L stop'.event := by
  cases h with
  | error h => exact .reported h
  | blocked => exact .dropped

/-! ## Declarations that are alike -/

section Decls

variable {L : Likeness} {d d' : Decl}

lemma Decl.Like.id_eq (h : d.Like L d') : d'.id = d.id := by
  obtain ⟨⟨⟩⟩ | ⟨⟨⟩⟩ | ⟨⟨⟩⟩ := h <;> rfl

lemma Decl.Like.name_eq (h : d.Like L d') : d'.name = d.name := by
  obtain ⟨⟨⟩⟩ | ⟨⟨⟩⟩ | ⟨⟨⟩⟩ := h <;> rfl

lemma Decl.Like.nameSpan (h : d.Like L d') : L.name d.nameSpan d'.nameSpan := by
  obtain ⟨⟨_,_,hname⟩⟩ | ⟨⟨_,_,hname⟩⟩ | ⟨⟨_,_,hname⟩⟩ := h <;> exact hname

lemma Decl.Like.referent_eq (h : d.Like L d') : d'.referent = d.referent := by
  obtain ⟨⟨⟩⟩ | ⟨⟨⟩⟩ | ⟨⟨⟩⟩ := h <;> rfl

end Decls

namespace Likeness.States

variable {L : Likeness} {s s' : State}

lemma initial (L : Likeness) (h : L.typeOf ∅ ∅) : L.States .initial .initial where
  parents := rfl
  current := rfl
  bindings _ := .none
  types _ := rfl
  typeOf := h
  references _ := rfl
  valueOf := rfl
  introduces := rfl
  errors := .nil
  constants _ := .none
  resultTypes := rfl

lemma refersTo (h : L.States s s') (href : L.references := by trivial) : s'.refersTo = s.refersTo :=
  h.references href

/-! ## What is found in states that are alike -/

section

variable (h : L.States s s') {span span' : Span}
include h

lemma binding (hx : s.scopes.bindings[b]? = some x) : ∃ x', s'.scopes.bindings[b]? = some x' ∧ x.Like L x' := by
  have hrel := h.bindings b
  rw [hx] at hrel
  generalize s'.scopes.bindings[b]? = o at hrel ⊢
  cases hrel with
  | some hlike => exact ⟨_,rfl,hlike⟩

lemma unbound (hx : s.scopes.bindings[b]? = none) : s'.scopes.bindings[b]? = none := by
  have hrel := h.bindings b
  rw [hx] at hrel
  generalize s'.scopes.bindings[b]? = o at hrel ⊢
  cases hrel with
  | none => rfl

lemma map_bindings {α : Type} (f : Binding → α)
    (hf : ∀ x x', x.Like L x' → f x' = f x) : s'.scopes.bindings.map f = s.scopes.bindings.map f := by
  refine Array.ext_getElem? fun i => ?_
  rw [Array.getElem?_map, Array.getElem?_map]
  have hrel := h.bindings i
  generalize s.scopes.bindings[i]? = o at hrel ⊢
  generalize s'.scopes.bindings[i]? = o' at hrel ⊢
  cases hrel with
  | some hlike => rw [Option.map_some, Option.map_some, hf _ _ hlike]
  | none => rfl

lemma size_eq : s'.scopes.bindings.size = s.scopes.bindings.size := by
  have := congrArg Array.size (h.map_bindings (fun _ => ()) fun _ _ _ => rfl)
  rwa [Array.size_map, Array.size_map] at this

lemma scopes_eq (hname : ∀ a b, L.name a b → b = a) : s'.scopes = s.scopes := by
  have hbindings := h.map_bindings id fun x x' hx => by
    calc x' = ⟨x'.name,x'.scope,x'.span,x'.referent⟩ := rfl
      _ = ⟨x.name,x.scope,x.span,x.referent⟩ := by rw [hx.name, hx.scope, hx.referent, hname _ _ hx.span]
  rw [Array.map_id, Array.map_id] at hbindings
  calc s'.scopes = ⟨s'.scopes.parents,s'.scopes.bindings,s'.scopes.current⟩ := rfl
    _ = ⟨s.scopes.parents,s.scopes.bindings,s.scopes.current⟩ := by rw [h.parents, hbindings, h.current]

lemma causes_eq : s'.errors.toList.map (·.cause) = s.errors.toList.map (·.cause) := by
  have herrors := h.errors
  generalize s.errors.toList = l at herrors ⊢
  generalize s'.errors.toList = l' at herrors ⊢
  induction herrors with
  | nil => rfl
  | cons h _ ih => rw [List.map_cons, List.map_cons, h.1, ih]

lemma find?_eq (scope : ScopeId) (name : String) : s'.scopes.find? scope name = s.scopes.find? scope name := by
  let key (x : Binding) : ScopeId × String := (x.scope, x.name)
  have hkeys := h.map_bindings key fun x x' hx => Prod.ext hx.scope hx.name
  have hfind (t : ScopeTree) : t.find? scope name = (t.bindings.map key).findIdx? fun k => k.1 == scope && k.2 == name := by
    rw [Array.findIdx?_map]
    rfl
  rw [hfind, hfind, hkeys]

lemma nearest?_eq (scope : ScopeId) (name : String) : s'.scopes.nearest? scope name = s.scopes.nearest? scope name := by
  have hchain (n : Nat) (scope : ScopeId) : s'.scopes.chainWithin n scope = s.scopes.chainWithin n scope := by
    induction n generalizing scope with
    | zero => rfl
    | succ n ih =>
      rw [ScopeTree.chainWithin, ScopeTree.chainWithin, ScopeTree.parent?, ScopeTree.parent?, h.parents]
      simp only [ih]
  rw [ScopeTree.nearest?, ScopeTree.nearest?, ScopeTree.chain, ScopeTree.chain, hchain]
  congr 1
  exact funext fun c => h.find?_eq c name

lemma lookup (hspan : L.span span span') (scope : ScopeId) (name : String) :
    L.Excepts Eq (s.scopes.lookup scope name span) (s'.scopes.lookup scope name span') := by
  rw [ScopeTree.lookup, ScopeTree.lookup, h.nearest?_eq]
  cases s.scopes.nearest? scope name with
  | some b => exact .ok rfl
  | none => exact .error ⟨rfl,hspan⟩

lemma vet (hspan : L.span span span') (scope : ScopeId) (name : String) :
    L.Excepts Eq (s.scopes.vet scope name span) (s'.scopes.vet scope name span') := by
  rw [ScopeTree.vet, ScopeTree.vet, h.find?_eq]
  split
  · exact .error ⟨rfl,hspan⟩
  split
  · exact .error ⟨rfl,hspan⟩
  · exact .ok rfl

end

/-! ## Steps -/

section

variable (h : L.States s s')
include h

lemma typedAlone (hid : L.Alone id) (t : Ty) : L.States (s.step (.typed id t)) s' :=
  { h with typeOf := hid _ _ t h.typeOf }

lemma begunAlone (id : NodeId) (expected : Option Ty) : L.States (s.step (.begun id expected)) s' :=
  { h with }

lemma typedAgain {t : Ty} (ht : s'.typeOf[id]? = some t) : L.States s (s'.step (.typed id t)) :=
  { h with
    typeOf := by
      refine L.typeOf_congr (fun n => ?_) h.typeOf
      change s'.typeOf[n]? = (s'.typeOf.insert id t)[n]?
      rw [Table.getElem?_insert]
      split
      · next hn => rw [← hn, ht]
      · rfl }

lemma marked (b : BindingId) (f : Referent → Referent) : L.States (s.marked b f) (s'.marked b f) :=
  { h with
    bindings := fun i => by
      change Option.Rel _ (s.scopes.bindings.modify b _)[i]? (s'.scopes.bindings.modify b _)[i]?
      rw [Array.getElem?_modify, Array.getElem?_modify]
      split
      · have hrel := h.bindings i
        generalize s.scopes.bindings[i]? = o at hrel ⊢
        generalize s'.scopes.bindings[i]? = o' at hrel ⊢
        cases hrel with
        | some hx => exact .some { hx with referent := congrArg f hx.referent }
        | none => exact .none
      · exact h.bindings i }

lemma bound {x' : Binding} (hx : x.Like L x') (i : Nat) :
    Option.Rel (Binding.Like L) (s.scopes.bindings.push x)[i]? (s'.scopes.bindings.push x')[i]? := by
  rw [Array.getElem?_push, Array.getElem?_push, h.size_eq]
  split
  · exact .some hx
  · exact h.bindings i

lemma introduced {d d' : Decl} (hd : d.Like L d') (b : BindingId) (i : BindingId) :
    Option.Rel (ConstDecl.Like L) (d.addConstant b s.constants)[i]? (d'.addConstant b s'.constants)[i]? := by
  cases hd with
  | var | func => exact h.constants i
  | const hd =>
    rw [Decl.addConstant, Decl.addConstant, Table.getElem?_insert, Table.getElem?_insert]
    split
    · exact .some hd
    · exact h.constants i

/-- Steps that are alike lead to states that are alike. -/
theorem step (he : e.Like L e') : L.States (s.step e) (s'.step e') := by
  cases he with
  | @reported e e' herror =>
    refine { h with errors := ?_ }
    change List.Forall₂ L.Error (s.errors.push e).toList (s'.errors.push e').toList
    rw [Array.toList_push, Array.toList_push]
    exact List.rel_append h.errors (.cons herror .nil)
  | dropped | begun => exact { h with }
  | typed hid t => exact { h with typeOf := hid _ _ t h.typeOf }
  | referred id b => exact { h with references := fun href => congrArg (·.insert id b) (h.references href) }
  | built t => exact { h with types := fun ht => congrArg (·.intern t) (h.types ht) }
  | entered =>
    refine { h with parents := ?_, current := congrArg Array.size h.parents }
    change s'.scopes.parents.push _ = s.scopes.parents.push _
    rw [h.parents, h.current]
  | left =>
    refine { h with current := ?_ }
    change (s'.scopes.parents[_]?.join).getD _ = (s.scopes.parents[_]?.join).getD _
    rw [h.parents, h.current]
  | called ret => exact { h with resultTypes := congrArg (ret :: ·) h.resultTypes }
  | returned => exact { h with resultTypes := congrArg List.tail h.resultTypes }
  | bound b hx => exact { h with bindings := h.bound hx }
  | @introduced d d' hd b =>
    refine { h with introduces := ?_, constants := h.introduced hd b }
    change s'.introduces.insert d'.id b = s.introduces.insert d.id b
    rw [h.introduces, hd.id_eq]
  | valued id v => exact { h with valueOf := congrArg (·.insert id v) h.valueOf }

end

end Likeness.States

/-! ## Computations that end alike -/

namespace Likeness

/-- Two runs through states that are alike. A world is the state of the first run, of which only the scopes that are new may
declare names, and the current one names as `opens` says. -/
def coupling (L : Likeness) (opens : String → Prop) : Coupling where
  World := State
  le := State.Frames opens
  le_refl := .refl
  le_trans := .trans
  rel w s s' := s = w ∧ L.States s s'
  stopped w x x' := L.Stops x.1 x'.1 ∧ w.Frames opens x.2 ∧ L.States x.2 x'.2
  stopped_mono hle h := ⟨h.1,hle.trans h.2.1,h.2.2⟩
  lax := False

variable {α α' β β' γ γ' : Type}

/-- From states that are alike, the two computations come to states that are alike, and stop for reasons that are alike
or have results as `R` says. Either way the frame of the state stays. -/
def Agree (L : Likeness) (R : α → α' → Prop) (m : Check α) (m' : Check α') (opens : String → Prop := fun _ => False) : Prop :=
  ∀ w, (L.coupling opens).InStep w m m' fun _ => R

def RunAgree (L : Likeness) (R : α → α' → Prop) (x : Run α) (x' : Run α') (opens : String → Prop := fun _ => False) : Prop :=
  ∀ w, (L.coupling opens).RunInStep w x x' fun _ => R

variable {L : Likeness} {R : α → α' → Prop} {Q : β → β' → Prop} {opens : String → Prop}

lemma Excepts.bind {r : Except SemanticError α} {r' : Except SemanticError α'} {f : α → Except SemanticError β}
    {f' : α' → Except SemanticError β'} (hr : L.Excepts R r r') (hf : ∀ a a', R a a' → L.Excepts Q (f a) (f' a')) :
    L.Excepts Q (r >>= f) (r' >>= f') := by
  cases hr with
  | ok h => exact hf _ _ h
  | error h => exact .error h

namespace Agree

variable {m : Check α} {m' : Check α'} {span span' : Span} {f : α → Check β}

lemma ends (h : L.Agree R m m' opens) {s s' : State} (hs : L.States s s') :
    (L.coupling opens).Ends s (fun _ => R) (m.run s) (m'.run s') :=
  h s s s' ⟨rfl,hs⟩

lemma of_ends
    (h : ∀ s s', L.States s s' → (L.coupling opens).Ends s (fun _ => R) (m.run s) (m'.run s')) : L.Agree R m m' opens := by
  rintro _ s s' ⟨rfl,hs⟩
  exact h s s' hs

lemma mono {R' : α → α' → Prop} (h : L.Agree R m m' opens) (hR : ∀ a a', R a a' → R' a a') : L.Agree R' m m' opens :=
  fun w => (h w).mono fun _ a a' _ => hR a a'

lemma weaken (h : L.Agree R m m' inside) (hopens : ∀ name, inside name → opens name) : L.Agree R m m' opens := by
  refine of_ends fun s s' hs => ?_
  have hends := h.ends hs
  generalize m.run s = r at hends ⊢
  generalize m'.run s' = r' at hends ⊢
  cases hends with
  | result hle hrel h => exact .result (hle.weaken hopens) hrel h
  | stopped h => exact .stopped ⟨h.1,h.2.1.weaken hopens,h.2.2⟩
  | alone h => exact h.elim

lemma pure {a : α} {a' : α'} (h : R a a') : L.Agree R (Pure.pure a) (Pure.pure a') opens :=
  fun _ => InStep.pure h

lemma throw {stop stop' : Stop} (h : L.Stops stop stop') : L.Agree R (MonadExcept.throw stop) (MonadExcept.throw stop') opens :=
  of_ends fun s _ hs => .stopped ⟨h,.refl s,hs⟩

lemma fail {cause : SemanticCause} (h : L.span span span') : L.Agree R (fail cause span) (fail cause span') opens :=
  throw (.error ⟨rfl,h⟩)

lemma mismatch {expected found : String} (h : L.span span span') :
    L.Agree R (mismatch expected found span) (mismatch expected found span') opens :=
  fail h

lemma blocked : L.Agree R blocked blocked opens :=
  throw .blocked

lemma ofExcept {r : Except SemanticError α} {r' : Except SemanticError α'} (h : L.Excepts R r r') :
    L.Agree R (ofExcept r) (ofExcept r') opens := by
  cases h with
  | ok h => exact .pure h
  | error h => exact .throw (.error h)

lemma bind {f' : α' → Check β'} (hm : L.Agree R m m' opens)
    (hf : ∀ a a', R a a' → L.Agree Q (f a) (f' a') opens) : L.Agree Q (m >>= f) (m' >>= f') opens :=
  fun w => (hm w).bind fun w1 a a' _ ha => hf a a' ha w1

lemma andThen {m' : Check α} {f' : α → Check β'} (hm : L.Agree Eq m m' opens)
    (hf : ∀ a, L.Agree Q (f a) (f' a) opens) : L.Agree Q (m >>= f) (m' >>= f') opens :=
  hm.bind fun a _ h => h ▸ hf a

lemma ite {c : Prop} [Decidable c] {n : Check α} {n' : Check α'} (h : L.Agree R m m' opens)
    (h' : L.Agree R n n' opens) : L.Agree R (if c then m else n) (if c then m' else n') opens :=
  fun w => InStep.ite (fun _ => h w) fun _ => h' w

lemma get {f : State → Check β} {f' : State → Check β'} (h : ∀ s s', L.States s s' → L.Agree Q (f s) (f' s') opens) :
    L.Agree Q (MonadState.get >>= f) (MonadState.get >>= f') opens :=
  fun w => InStep.read fun s s' hrel => ⟨s,s',run_get s,run_get s',h s s' hrel.2 w s s' hrel⟩

/-- The current scope of the world is the scope that is handed on. -/
theorem inCurrent {f : ScopeId → Check α} {f' : ScopeId → Check α'}
    (h : ∀ w : State, (L.coupling opens).InStep w (f w.scopes.current) (f' w.scopes.current) fun _ => R) :
    L.Agree R (liftM Opal.currentScope >>= f) (liftM Opal.currentScope >>= f') opens := by
  rintro _ s s' ⟨rfl,hs⟩
  have hrun : (liftM Opal.currentScope >>= f').run s' = (f' s.scopes.current).run s' :=
    congrArg (fun scope => (f' scope).run s') hs.current
  rw [hrun]
  exact h s s s' ⟨rfl,hs⟩

lemma lift {x : Run α} {x' : Run α'} (h : L.RunAgree R x x' opens) : L.Agree R (liftM x) (liftM x') opens :=
  fun w => InStep.lift (h w)

lemma tryCatch {handler : Stop → Check α} {handler' : Stop → Check α'}
    (hm : L.Agree R m m' opens) (hh : ∀ stop stop', L.Stops stop stop' → L.Agree R (handler stop) (handler' stop') opens) :
    L.Agree R (MonadExcept.tryCatch m handler) (MonadExcept.tryCatch m' handler') opens :=
  fun w => InStep.handled id (hm w) fun e e' _ _ h => ((hh e e' h.1).ends h.2.2).mono h.2.1 fun _ _ _ _ h => h

lemma mapM {P : β → β' → Prop} {f : β → Check α} {f' : β' → Check α} (hf : ∀ b b', P b b' → L.Agree Eq (f b) (f' b') opens) :
    ∀ {l : List β} {l' : List β'}, List.Forall₂ P l l' → L.Agree Eq (l.mapM f) (l'.mapM f') opens
  | [], [], .nil => .pure rfl
  | _ :: _, _ :: _, .cons h hs => by
    rw [List.mapM_cons, List.mapM_cons]
    exact (hf _ _ h).andThen fun a => (mapM hf hs).andThen fun as => .pure rfl

lemma inNewScope (hm : L.Agree R m m' inside) : L.Agree R (Opal.inNewScope m) (Opal.inNewScope m') opens := by
  refine of_ends fun s s' hs => ?_
  have h := hm.ends (hs.step .entered)
  rw [run_inNewScope, run_inNewScope]
  generalize m.run _ = r at h ⊢
  generalize m'.run _ = r' at h ⊢
  cases h with
  | result hle hrel h =>
    obtain ⟨rfl,hrel⟩ := hrel
    exact .result hle.left ⟨rfl,hrel.step .left⟩ h
  | stopped h => exact .stopped ⟨h.1,h.2.1.left,h.2.2.step .left⟩
  | alone h => exact h.elim

lemma begunAlone (hm : L.Agree R m m' opens) (id : NodeId) (expected : Option Ty) :
    L.Agree R (do perform (.begun id expected); m) m' opens :=
  of_ends fun s _ hs => (hm.ends (hs.begunAlone id expected)).mono (.step s rfl) fun _ _ _ _ h => h

lemma recordAlone (hm : L.Agree R m m' opens) (hid : L.Alone id)
    (type : α → Ty) : L.Agree R (do let a ← m; recordType id (type a); return a) m' opens := by
  rw [← bind_pure m']
  refine hm.bind fun a a' ha => of_ends fun s s' hs => ?_
  exact .result (.step s rfl) ⟨rfl,hs.typedAlone hid (type a)⟩ ha

end Agree

namespace RunAgree

variable {x : Run α} {x' : Run α'} {f : α → Run β}

lemma ends (h : L.RunAgree R x x' opens) {s s' : State} (hs : L.States s s') :
    s.Frames opens (x.run s).2 ∧ L.States (x.run s).2 (x'.run s').2 ∧ R (x.run s).1 (x'.run s').1 := by
  obtain ⟨_,hle,⟨rfl,hrel⟩,hR⟩ := h s s s' ⟨rfl,hs⟩
  exact ⟨hle,hrel,hR⟩

lemma of_ends (h : ∀ s s', L.States s s' → s.Frames opens (x.run s).2 ∧
    L.States (x.run s).2 (x'.run s').2 ∧ R (x.run s).1 (x'.run s').1) : L.RunAgree R x x' opens := by
  rintro _ s s' ⟨rfl,hs⟩
  obtain ⟨hle,hrel,hR⟩ := h s s' hs
  exact ⟨_,hle,⟨rfl,hrel⟩,hR⟩

lemma weaken (h : L.RunAgree R x x' inside) (hopens : ∀ name, inside name → opens name) : L.RunAgree R x x' opens :=
  of_ends fun _ _ hs => ⟨(h.ends hs).1.weaken hopens,(h.ends hs).2⟩

lemma pure {a : α} {a' : α'} (h : R a a') : L.RunAgree R (Pure.pure a) (Pure.pure a') opens :=
  fun _ => RunInStep.pure h

lemma bind {f' : α' → Run β'} (hx : L.RunAgree R x x' opens)
    (hf : ∀ a a', R a a' → L.RunAgree Q (f a) (f' a') opens) : L.RunAgree Q (x >>= f) (x' >>= f') opens :=
  fun w => (hx w).bind fun w1 a a' _ ha => hf a a' ha w1

lemma andThen {x' : Run α} {f' : α → Run β'} (hx : L.RunAgree Eq x x' opens)
    (hf : ∀ a, L.RunAgree Q (f a) (f' a) opens) : L.RunAgree Q (x >>= f) (x' >>= f') opens :=
  hx.bind fun a _ h => h ▸ hf a

lemma perform (h : e.Like L e') (hlocal : e.isLocal = true := by rfl) :
    L.RunAgree Eq (Opal.perform e) (Opal.perform e') opens :=
  of_ends fun s _ hs => ⟨.step s hlocal,hs.step h,rfl⟩

lemma built (t : Ty) : L.RunAgree Eq (Opal.built t) (Opal.built t) opens :=
  (perform (.built t)).andThen fun _ => .pure rfl

lemma modifyReferent (b : BindingId) (f : Referent → Referent) :
    L.RunAgree Eq (Opal.modifyReferent b f) (Opal.modifyReferent b f) opens :=
  of_ends fun s _ hs => ⟨.modified s b f _,hs.marked b f,rfl⟩

lemma inCurrent {f : ScopeId → Run α} {f' : ScopeId → Run α'}
    (h : ∀ w : State, (L.coupling opens).RunInStep w (f w.scopes.current) (f' w.scopes.current) fun _ => R) :
    L.RunAgree R (Opal.currentScope >>= f) (Opal.currentScope >>= f') opens := by
  rintro _ s s' ⟨rfl,hs⟩
  have hrun : (Opal.currentScope >>= f').run s' = (f' s.scopes.current).run s' :=
    congrArg (fun scope => (f' scope).run s') hs.current
  rw [hrun]
  exact h s s s' ⟨rfl,hs⟩

lemma currentScope : L.RunAgree Eq Opal.currentScope Opal.currentScope opens :=
  of_ends fun s _ hs => ⟨.refl s,hs,hs.current.symm⟩

lemma resultType : L.RunAgree Eq Opal.resultType Opal.resultType opens := by
  refine of_ends fun s s' hs => ⟨.refl s,hs,?_⟩
  change s.resultTypes.head?.getD .void = s'.resultTypes.head?.getD .void
  rw [hs.resultTypes]

lemma returning (ret : Ty) {x x' : Run Unit} (hx : L.RunAgree Eq x x' opens) :
    L.RunAgree Eq (Opal.returning ret x) (Opal.returning ret x') opens :=
  of_ends fun _ _ hs =>
    have h := hx.ends (hs.step (.called ret))
    ⟨h.1.returned,h.2.1.step .returned,rfl⟩

lemma reported_inStep {R : Unit → Unit → Prop} (hm : (L.coupling opens).InStep w m m' fun _ => R) :
    (L.coupling opens).RunInStep w (Opal.reported m) (Opal.reported m') fun _ => Eq := by
  intro s s' hrel
  have h := hm s s' hrel
  rw [run_reported, run_reported]
  generalize m.run s = r at h ⊢
  generalize m'.run s' = r' at h ⊢
  cases h with
  | result hle hrel _ => exact ⟨_,hle,hrel,rfl⟩
  | @stopped _ _ s1 _ h =>
    obtain ⟨hstops,hle,hrel⟩ := h
    exact ⟨_,hle.trans (.step s1 (Stop.isLocal_event _)),⟨rfl,hrel.step hstops.event⟩,rfl⟩
  | alone h => exact h.elim

lemma reported {R : Unit → Unit → Prop} (hm : L.Agree R m m' opens) :
    L.RunAgree Eq (Opal.reported m) (Opal.reported m') opens :=
  fun w => reported_inStep (hm w)

lemma forM {P : β → β' → Prop} {f : β → Run PUnit} {f' : β' → Run PUnit}
    (hf : ∀ b b', P b b' → L.RunAgree Eq (f b) (f' b') opens) :
    ∀ {l : List β} {l' : List β'}, List.Forall₂ P l l' → L.RunAgree Eq (l.forM f) (l'.forM f') opens
  | [], [], .nil => .pure rfl
  | _ :: _, _ :: _, .cons h hs => (hf _ _ h).andThen fun _ => forM hf hs

end RunAgree

end Likeness

section Names

variable {L : Likeness} {span span' : Span}

lemma referentOf_agree (b : BindingId) : L.Agree Eq (referentOf b) (referentOf b) := by
  refine .get fun s s' hrel => ?_
  cases hx : s.scopes.bindings[b]? with
  | some x =>
    obtain ⟨x',hx',hlike⟩ := hrel.binding hx
    rw [hx']
    exact .pure hlike.referent.symm
  | none =>
    rw [hrel.unbound hx]
    exact .blocked

lemma findFrom_agree (hspan : L.span span span') (scope : ScopeId) (id : NodeId) (name : String) :
    L.Agree Eq (findFrom scope id name span) (findFrom scope id name span') :=
  .get fun _ _ hrel => .andThen (.ofExcept (hrel.lookup hspan scope name)) fun b =>
    .andThen (.lift (.perform (.referred id b))) fun _ => .pure rfl

/-- A name is declared in the current scope. -/
theorem declareIn_inStep {opens : String → Prop} {scope : ScopeId} (hscope : w.scopes.current = scope)
    {name : String} (hname : opens name) (hspan : L.name span span') (referent : Referent) :
    (L.coupling opens).InStep w (declareIn scope name span referent) (declareIn scope name span' referent) fun _ => Eq := by
  rintro s s' ⟨rfl,hs⟩
  have hvet := hs.vet (L.span_of_name hspan) scope name
  unfold declareIn
  rw [run_bind, run_bind, run_get, run_get]
  dsimp only
  rw [hs.size_eq]
  generalize s.scopes.vet scope name span = r at hvet ⊢
  generalize s'.scopes.vet scope name span' = r' at hvet ⊢
  cases hvet with
  | ok => exact .result (.bound s hscope.symm hname) ⟨rfl,hs.step (.bound _ ⟨rfl,rfl,rfl,hspan⟩)⟩ rfl
  | error h => exact .stopped ⟨.error h,.refl s,hs⟩

end Names

end Opal
