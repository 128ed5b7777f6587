import Opal.Proofs.DeclaredNames
import Opal.Proofs.IntactStates

/-!
# Scopes as places in the source

While a module is examined, a scope stands for a place in the source and has the names that the source declares there. So a name
is found where the source says.
-/

namespace Opal

open List Option

/-! ## The scopes around a scope -/

namespace ScopeTree

variable {t : ScopeTree}

/-- A scope and those around it, if it can be more steps outward than the number of the scope. -/
theorem Intact.chainWithin_eq (h : t.Intact) : ∀ {n m c : Nat}, c ≤ n → c ≤ m → t.chainWithin n c = t.chainWithin m c
  | 0, m, c, hn, _ => by
    obtain rfl : c = 0 := Nat.le_zero.1 hn
    cases hp : t.parent? 0 with
    | none => cases m <;> simp [chainWithin, hp]
    | some p => exact absurd (h.parents 0 p hp) (Nat.not_lt_zero p)
  | n + 1, 0, c, _, hm => by
    obtain rfl : c = 0 := Nat.le_zero.1 hm
    cases hp : t.parent? 0 with
    | none => simp [chainWithin, hp]
    | some p => exact absurd (h.parents 0 p hp) (Nat.not_lt_zero p)
  | n + 1, m + 1, c, hn, hm => by
    rw [chainWithin, chainWithin]
    cases hp : t.parent? c with
    | none => rfl
    | some p =>
      have hlt := h.parents c p hp
      exact congrArg (c :: ·) (h.chainWithin_eq (Nat.le_of_lt_succ (Nat.lt_of_lt_of_le hlt hn))
        (Nat.le_of_lt_succ (Nat.lt_of_lt_of_le hlt hm)))

lemma Intact.nearest?_eq (h : t.Intact) (c : Nat) (name : String) :
    t.nearest? c name = (t.find? c name).or ((t.parent? c).bind fun p => t.nearest? p name) := by
  have hchain : t.chain c = c :: ((t.parent? c).elim [] t.chain) := by
    unfold chain
    cases hp : t.parent? c with
    | none => cases c <;> simp [chainWithin, hp]
    | some p =>
      have hlt := h.parents c p hp
      obtain ⟨n,rfl⟩ := Nat.exists_eq_succ_of_ne_zero (Nat.ne_zero_of_lt hlt)
      rw [chainWithin, hp]
      exact congrArg (_ :: ·) (h.chainWithin_eq (Nat.le_of_lt_succ hlt) (Nat.le_refl p))
  unfold nearest?
  rw [hchain, findSome?_cons]
  cases t.find? c name with
  | some b => rfl
  | none => cases t.parent? c <;> rfl

lemma find?_eq_some_iff {c : ScopeId} {name : String} {b : BindingId} :
    t.find? c name = some b ↔ (∃ x, t.bindings[b]? = some x ∧ x.scope = c ∧ x.name = name) ∧
      ∀ b' x, b' < b → t.bindings[b']? = some x → ¬ (x.scope = c ∧ x.name = name) := by
  unfold find?
  rw [Array.findIdx?_eq_some_iff_getElem]
  constructor
  · rintro ⟨hlt,hmatch,hfirst⟩
    refine ⟨⟨_,Array.getElem?_eq_getElem hlt,by simpa using hmatch⟩,?_⟩
    rintro b' x hb' hx ⟨rfl,rfl⟩
    obtain ⟨hlt',rfl⟩ := Array.getElem?_eq_some_iff.1 hx
    simpa using hfirst b' hb'
  · rintro ⟨⟨x,hx,rfl,rfl⟩,hfirst⟩
    obtain ⟨hlt,rfl⟩ := Array.getElem?_eq_some_iff.1 hx
    refine ⟨hlt,by simp,fun b' hb' => ?_⟩
    have hnot := hfirst b' _ hb' (Array.getElem?_eq_getElem (Nat.lt_trans hb' hlt))
    simpa using hnot

lemma find?_bind (t : ScopeTree) (x : Binding) (c : ScopeId) (name : String) : (t.bind x).find? c name = (t.find? c name).or
      (if x.scope = c ∧ x.name = name then some t.bindings.size else none) := by
  unfold find? bind
  rw [Array.findIdx?_push]
  congr 1
  by_cases h : x.scope = c ∧ x.name = name <;> simp [h]

end ScopeTree

lemma Frame.accepted?_nil (name : String) : Frame.accepted? [] name = none := by
  unfold Frame.accepted?
  split <;> rfl

lemma Frame.accepted?_append (F : Frame) (D : Declarator) (name : String) :
    Frame.accepted? (F ++ [D]) name = if isReservedName name then none
      else (F.accepted? name).or (if D.name = name then some D else none) := by
  unfold Frame.accepted?
  split
  · rfl
  · rw [find?_append, find?_singleton]
    simp

/-! ## Scopes that stand for places -/

/-- The binding was made for the declarator. -/
def State.Binds (s : State) (D : Declarator) (b : BindingId) : Prop :=
  (∃ x, s.scopes.bindings[b]? = some x ∧ x.name = D.name ∧ x.span = D.span) ∧
    ∀ id ∈ D.node, ∃ d : Decl, d.id = id ∧ .introduced d b ∈ s.journal

/-- The binding was made for a parameter, which is initialized from the start. -/
def State.BindsParam (s : State) (b : BindingId) : Prop :=
  ∃ x t mutable, .bound b x ∈ s.journal ∧ x.referent = .initializedVar t mutable

/-- The binding was made for the declarator, and if this is a parameter, for a parameter. -/
def State.Names (s : State) (D : Declarator) (b : BindingId) : Prop :=
  s.Binds D b ∧ (D.node = none → s.BindsParam b)

/-- The names that are bound in a scope are those which the frame declares. -/
def State.Shows (s : State) (c : ScopeId) (F : Frame) : Prop :=
  ∀ name, Option.Rel s.Names (F.accepted? name) (s.scopes.find? c name)

/-- The scope stands for a place in the source, and so do the scopes around it. -/
def State.Stands (s : State) : ScopeId → Env → Prop
  | _, [] => False
  | c, F :: Γ => c < s.scopes.parents.size ∧ s.Shows c F ∧
    match s.scopes.parent? c with
    | none => Γ = []
    | some p => s.Stands p Γ

/-- Nothing changes about the scopes below `k`, apart from what their names are bound to. -/
structure State.Keeps (k : Nat) (s s' : State) : Prop where
  journal : s.journal ⊆ s'.journal
  size : s.scopes.parents.size ≤ s'.scopes.parents.size
  parents : ∀ i : ScopeId, i < k → s'.scopes.parent? i = s.scopes.parent? i
  bindings : ∀ (b : BindingId) (x : Binding), s.scopes.bindings[b]? = some x →
    ∃ r, s'.scopes.bindings[b]? = some { x with referent := r }
  fresh : ∀ (b : BindingId) x, s'.scopes.bindings[b]? = some x → b < s.scopes.bindings.size ∨ k ≤ x.scope

namespace State

variable {s s1 s2 : State} {k k' : Nat} {c : ScopeId} {F : Frame} {Γ : Env} {D : Declarator} {b : BindingId} {name : String}

namespace Keeps

lemma refl (k : Nat) (s : State) : s.Keeps k s where
  journal := List.Subset.refl _
  size := Nat.le_refl _
  parents _ _ := rfl
  bindings _ x hx := ⟨x.referent,hx⟩
  fresh _ _ hx := .inl (Array.getElem?_eq_some_iff.1 hx).1

lemma mono (h : s.Keeps k s1) (hk : k' ≤ k) : s.Keeps k' s1 :=
  { h with
    parents := fun i hi => h.parents i (Nat.lt_of_lt_of_le hi hk)
    fresh := fun b x hx => (h.fresh b x hx).imp_right (Nat.le_trans hk) }

lemma trans (h : s.Keeps k s1) (h' : s1.Keeps k s2) : s.Keeps k s2 where
  journal := List.Subset.trans h.journal h'.journal
  size := Nat.le_trans h.size h'.size
  parents i hi := (h'.parents i hi).trans (h.parents i hi)
  bindings b x hx := by
    obtain ⟨r,hr⟩ := h.bindings b x hx
    obtain ⟨r',hr'⟩ := h'.bindings b _ hr
    exact ⟨r',hr'⟩
  fresh b x hx := by
    rcases h'.fresh b x hx with hold | hnew
    · obtain ⟨r,hr⟩ := h'.bindings b _ (Array.getElem?_eq_getElem hold)
      obtain rfl := mem_unique hx hr
      have hfresh := h.fresh b _ (Array.getElem?_eq_getElem hold)
      exact hfresh
    · exact .inr hnew

lemma find?_eq (h : s.Keeps k s1) (hc : c < k) (name : String) : s1.scopes.find? c name = s.scopes.find? c name := by
  have hold {b : BindingId} {x : Binding} (hx : s1.scopes.bindings[b]? = some x) (hscope : x.scope = c) :
      ∃ y, s.scopes.bindings[b]? = some y ∧ y.scope = x.scope ∧ y.name = x.name := by
    rcases h.fresh b x hx with hlt | hle
    · obtain ⟨r,hr⟩ := h.bindings b _ (Array.getElem?_eq_getElem hlt)
      obtain rfl := mem_unique hx hr
      exact ⟨_,Array.getElem?_eq_getElem hlt,rfl,rfl⟩
    · exact absurd (Nat.lt_of_lt_of_le hc hle) (hscope ▸ Nat.lt_irrefl _)
  refine Option.ext fun b => ?_
  rw [ScopeTree.find?_eq_some_iff, ScopeTree.find?_eq_some_iff]
  constructor
  · rintro ⟨⟨x,hx,hscope,hname⟩,hfirst⟩
    obtain ⟨y,hy,hys,hyn⟩ := hold hx hscope
    refine ⟨⟨y,hy,hys.trans hscope,hyn.trans hname⟩,fun b' z hb' hz hmatch => ?_⟩
    obtain ⟨r,hr⟩ := h.bindings b' z hz
    exact hfirst b' _ hb' hr hmatch
  · rintro ⟨⟨x,hx,hscope,hname⟩,hfirst⟩
    obtain ⟨r,hr⟩ := h.bindings b x hx
    refine ⟨⟨_,hr,hscope,hname⟩,fun b' z hb' hz hmatch => ?_⟩
    obtain ⟨y,hy,hys,hyn⟩ := hold hz hmatch.1
    exact hfirst b' y hb' hy ⟨hys.trans hmatch.1,hyn.trans hmatch.2⟩

end Keeps

lemma Binds.keeps (h : s.Binds D b) (hs : s.Keeps k s1) : s1.Binds D b := by
  obtain ⟨⟨x,hx,hname,hspan⟩,hnode⟩ := h
  obtain ⟨r,hr⟩ := hs.bindings b x hx
  refine ⟨⟨_,hr,hname,hspan⟩,fun id hid => ?_⟩
  obtain ⟨d,hd,hmem⟩ := hnode id hid
  exact ⟨d,hd,hs.journal hmem⟩

lemma Names.keeps (h : s.Names D b) (hs : s.Keeps k s1) : s1.Names D b := by
  refine ⟨h.1.keeps hs,fun hnode => ?_⟩
  obtain ⟨x,t,mutable,hmem,hx⟩ := h.2 hnode
  exact ⟨x,t,mutable,hs.journal hmem,hx⟩

lemma Shows.keeps (h : s.Shows c F) (hs : s.Keeps k s1) (hc : c < k) : s1.Shows c F := by
  intro name
  rw [hs.find?_eq hc]
  have hname := h name
  generalize Frame.accepted? F name = D at hname ⊢
  generalize s.scopes.find? c name = b at hname ⊢
  cases hname with
  | some hbinds => exact .some (hbinds.keeps hs)
  | none => exact .none

/-- Scopes below `k` stand for the same places from then on. -/
theorem Stands.keeps (hscopes : s.scopes.Intact) (hs : s.Keeps k s1) :
    ∀ {Γ : Env} {c : ScopeId}, s.Stands c Γ → c < k → s1.Stands c Γ
  | F :: Γ, c, h, hc => by
    obtain ⟨hlt,hshows,hparent⟩ := h
    refine ⟨Nat.lt_of_lt_of_le hlt hs.size,hshows.keeps hs hc,?_⟩
    rw [hs.parents c hc]
    cases hp : s.scopes.parent? c with
    | none => simpa [hp] using hparent
    | some p =>
      rw [hp] at hparent
      exact Stands.keeps hscopes hs hparent (Nat.lt_trans (hscopes.parents c p hp) hc)

lemma Stands.lt (h : s.Stands c Γ) : c < s.scopes.parents.size := by
  cases Γ with
  | nil => cases h
  | cons => exact h.1

/-- A name is found where the source says. -/
theorem Stands.nearest? (hscopes : s.scopes.Intact) (name : String) : ∀ {Γ : Env} {c : ScopeId}, s.Stands c Γ →
      Option.Rel s.Names (Γ.resolve? name) (s.scopes.nearest? c name)
  | F :: Γ, c, h => by
    obtain ⟨hlt,hshows,hparent⟩ := h
    rw [hscopes.nearest?_eq, Env.resolve?, findSome?_cons]
    have hname := hshows name
    generalize Frame.accepted? F name = D at hname ⊢
    generalize s.scopes.find? c name = b at hname ⊢
    cases hname with
    | some hbinds => exact .some hbinds
    | none =>
      cases hp : s.scopes.parent? c with
      | none =>
        rw [hp] at hparent
        obtain rfl := hparent
        exact .none
      | some p =>
        rw [hp] at hparent
        exact Stands.nearest? hscopes name hparent

lemma keeps_step (e : Event) (h : ∀ b x, e = .bound b x → s.scopes.parents.size ≤ x.scope) :
    s.Keeps s.scopes.parents.size (s.step e) := by
  have hrefl := Keeps.refl s.scopes.parents.size s
  have hjournal : s.journal ⊆ (s.step e).journal := subset_cons_self _ _
  cases e with
  | entered =>
    refine { hrefl with journal := hjournal, size := ?_, parents := fun i hi => ?_ }
    · change _ ≤ (s.scopes.parents.push _).size
      rw [Array.size_push]
      exact Nat.le_succ _
    · change ((s.scopes.parents.push _)[i]?).join = (s.scopes.parents[i]?).join
      rw [Array.getElem?_push, if_neg (Nat.ne_of_lt hi)]
  | bound b x =>
    refine { hrefl with journal := hjournal, bindings := fun b' y hy => ?_, fresh := fun b' y hy => ?_ }
    · refine ⟨y.referent,?_⟩
      change (s.scopes.bindings.push x)[b']? = _
      rw [Array.getElem?_push, if_neg (Nat.ne_of_lt (Array.getElem?_eq_some_iff.1 hy).1), hy]
    · change (s.scopes.bindings.push x)[b']? = some y at hy
      rw [Array.getElem?_push] at hy
      split at hy
      · obtain rfl := Option.some.inj hy
        exact .inr (h b x rfl)
      · exact hrefl.fresh b' y hy
  | changed b r =>
    refine { hrefl with journal := hjournal, bindings := fun b' y hy => ?_, fresh := fun b' y hy => ?_ }
    · change ∃ r', (s.scopes.bindings.modify b _)[b']? = _
      rw [Array.getElem?_modify]
      split
      · exact ⟨r,by rw [hy]; rfl⟩
      · exact ⟨y.referent,hy⟩
    · refine .inl ?_
      have hlt := (Array.getElem?_eq_some_iff.1 hy).1
      rwa [show (s.step (.changed b r)).scopes.bindings.size = s.scopes.bindings.size from
        Array.size_modify] at hlt
  | _ =>
    exact { hrefl with journal := hjournal }

lemma keeps_bound (b : BindingId) (x : Binding) : s.Keeps x.scope (s.step (.bound b x)) where
  journal := subset_cons_self _ _
  size := Nat.le_refl _
  parents _ _ := rfl
  bindings b' y hy := by
    refine ⟨y.referent,?_⟩
    change (s.scopes.bindings.push x)[b']? = _
    rw [Array.getElem?_push, if_neg (Nat.ne_of_lt (Array.getElem?_eq_some_iff.1 hy).1), hy]
  fresh b' y hy := by
    change (s.scopes.bindings.push x)[b']? = some y at hy
    rw [Array.getElem?_push] at hy
    split at hy
    · obtain rfl := Option.some.inj hy
      exact .inr (Nat.le_refl _)
    · exact .inl (Array.getElem?_eq_some_iff.1 hy).1

lemma Shows.refused {e : SemanticError} (h : s.Shows c F)
    (hvet : s.scopes.vet c D.name D.span = .error e) : s.Shows c (F ++ [D]) := by
  intro name
  have hname := h name
  rw [Frame.accepted?_append]
  unfold ScopeTree.vet at hvet
  by_cases hreserved : isReservedName name = true
  · rw [if_pos hreserved]
    rwa [Frame.accepted?, if_pos hreserved] at hname
  · rw [if_neg hreserved]
    by_cases hD : D.name = name
    · rw [hD, if_neg hreserved] at hvet
      split at hvet
      · next hsome =>
        -- the name is bound already, so the frame has an earlier declarator of it
        generalize Frame.accepted? F name = D' at hname ⊢
        generalize s.scopes.find? c name = b at hname hsome ⊢
        cases hname with
        | some hbinds => exact .some hbinds
        | none => cases hsome
      · cases hvet
    · rwa [if_neg hD, or_none]

lemma Shows.accepted {x : Binding} (h : s.Shows c F) (hvet : s.scopes.vet c D.name D.span = .ok ()) (hs : s.Keeps k s1)
    (hscopes : s1.scopes = s.scopes.bind x) (hscope : x.scope = c) (hname : x.name = D.name)
    (hbinds : s1.Names D s.scopes.bindings.size) : s1.Shows c (F ++ [D]) := by
  intro name
  have hold := h name
  unfold ScopeTree.vet at hvet
  split at hvet
  · cases hvet
  next hreserved =>
  split at hvet
  · cases hvet
  next hnew =>
  rw [Frame.accepted?_append, hscopes, ScopeTree.find?_bind, hname]
  by_cases hD : D.name = name
  · -- the name was not bound, so that the new declarator is the first one
    subst hD
    have hnone : s.scopes.find? c D.name = none := by
      simpa using hnew
    rw [hnone] at hold ⊢
    generalize Frame.accepted? F D.name = D' at hold ⊢
    cases hold
    rw [if_neg hreserved, if_pos rfl, if_pos ⟨hscope,rfl⟩]
    exact .some hbinds
  · have hnot : ¬ (x.scope = c ∧ D.name = name) := fun hmatch => hD hmatch.2
    rw [if_neg hD, if_neg hnot, or_none, or_none]
    have haccepted : (if isReservedName name = true then none else F.accepted? name) = F.accepted? name := by
      unfold Frame.accepted?
      split <;> rfl
    rw [haccepted]
    generalize Frame.accepted? F name = D' at hold ⊢
    generalize s.scopes.find? c name = b at hold ⊢
    cases hold with
    | some hb => exact .some (hb.keeps hs)
    | none => exact .none

end State

end Opal
