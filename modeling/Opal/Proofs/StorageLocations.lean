import Opal.Proofs.InferredTypes

/-!
# Storage locations

What can be stored to can also be read, at the same type, and a reference to it leads back to it. Whether storing is allowed is
decided by the reference that is followed last, or by the variable if none is.
-/

namespace Opal

open Check

variable {b : BindingId} {id : NodeId} {span : Span} {name : String}

/-- What stands at the inner end of an expression. -/
inductive Spine where
  /-- The target of a reference. -/
  | target (reference : Expr)
  | named (name : String)
  /-- What cannot be stored to. -/
  | value

mutual

/-- The inner end of an expression: inward through parentheses and the arrays of which elements are taken. -/
def Expr.spine : Expr → Spine
  | ⟨_,_,form⟩ => form.spine

@[inherit_doc Expr.spine]
def ExprForm.spine : ExprForm → Spine
  | .paren e => e.spine
  | .index base _ => base.spine
  | .deref e => .target e
  | .name name => .named name
  | _ => .value

end

/-- What stands at the inner end of an expression decides, in the state `s`, whether something may be stored to `place`. -/
def Spine.Decides (s : State) (place : Place) : Spine → Prop
  | .target reference => ∃ target, ((reference.operand.value none).run s).1 = .ok (.reference place.mutable target) ∧
      place.origin = .deref (.reference place.mutable target)
  | .named name => (∃ b t, s.scopes.nearest? s.scopes.current name = some b ∧
      s.referent? b = some (.var (some t) place.mutable .initialized)) ∧ place.origin = .binding name
  | .value => False

/-- What is wrong with storing to a location that is not mutable. -/
def PlaceOrigin.refusal : PlaceOrigin → SemanticCause
  | .binding name => .immutableAssignment name
  | .deref reference => .immutableTargetAssignment reference.display

/-! ## How storage locations are found -/

/-- From `s`, the expression is found to denote `place`, which leads to `s1`. -/
inductive Locates : Expr → State → Place → State → Prop where
  | name {id : NodeId} {span : Span} {name : String} {s : State} {b : BindingId} {t : Ty} {mutable : Bool}
      (hb : s.scopes.nearest? s.scopes.current name = some b)
      (hvar : s.referent? b = some (.var (some t) mutable .initialized)) :
      Locates ⟨id,span,.name name⟩ s ⟨t,mutable,.binding name⟩ ((s.resolved id b).step (.typed id t))
  | deref {id : NodeId} {span : Span} {e : Expr} {s s1 : State} {mutable : Bool} {target : Ty}
      (h : (e.operand.value none).run s = (.ok (.reference mutable target), s1)) :
      Locates ⟨id,span,.deref e⟩ s ⟨target,mutable,.deref (.reference mutable target)⟩ (s1.step (.typed id target))
  | paren {id : NodeId} {span : Span} {e : Expr} {s s1 : State} {place : Place} (h : Locates e s place s1) :
      Locates ⟨id,span,.paren e⟩ s place (s1.step (.typed id place.type))
  | index {id : NodeId} {span : Span} {base index : Expr} {s s1 s2 : State} {place : Place} {t : Ty}
      (h : Locates base s place s1)
      (ht : (elementType place.type base.span index.operand).run s1 = (.ok t, s2)) :
      Locates ⟨id,span,.index base index⟩ s { place with type := t } (s2.step (.typed id t))

section

variable {s s' s1 : State} {place : Place} {use : PlacePurpose} {t : Ty} {form : ExprForm}

lemma run_bindingNamed : (bindingNamed id name span).run s = (.ok b, s1) ↔
      s.scopes.nearest? s.scopes.current name = some b ∧ s1 = s.resolved id b := by
  change (findFrom s.scopes.current id name span).run s = _ ↔ _
  rw [run_findFrom, ScopeTree.lookup]
  cases s.scopes.nearest? s.scopes.current name with
  | some b' =>
    constructor
    · intro h
      obtain rfl := Except.ok.inj (congrArg Prod.fst h)
      exact ⟨rfl,(congrArg Prod.snd h).symm⟩
    · rintro ⟨h,rfl⟩
      obtain rfl := Option.some.inj h
      rfl
  | none =>
    constructor
    · intro h
      cases congrArg Prod.fst h
    · rintro ⟨⟨⟩,-⟩

lemma run_referentOf_eq_ok {r : Referent} (h : (referentOf b).run s = (.ok r, s1)) : s.referent? b = some r ∧ s1 = s := by
  cases hr : s.referent? b with
  | some r' =>
    rw [run_referentOf hr] at h
    cases h
    exact ⟨rfl,rfl⟩
  | none =>
    rw [referentOf, run_bind, run_get] at h
    simp only [Option.map_eq_none_iff.1 hr] at h
    cases congrArg Prod.fst h

lemma run_readName {mutable : Bool} (hb : s.scopes.nearest? s.scopes.current name = some b)
    (hvar : s.referent? b = some (.var (some t) mutable .initialized)) (id : NodeId) (span : Span) :
    (readName id name span).run s = (.ok t, s.resolved id b) := by
  refine run_bind_eq_ok.2 ⟨b,_,run_bindingNamed.2 ⟨hb,rfl⟩,?_⟩
  rw [readBinding, run_bind, run_referentOf (s := s.resolved id b) hvar]
  rfl

lemma run_namedPlace : (namedPlace id name span use).run s = (.ok place, s1) ↔ ∃ b t mutable,
      s.scopes.nearest? s.scopes.current name = some b ∧ s.referent? b = some (.var (some t) mutable .initialized) ∧
      place = ⟨t,mutable,.binding name⟩ ∧ s1 = s.resolved id b := by
  unfold namedPlace
  rw [run_bind_eq_ok]
  constructor
  · rintro ⟨b,s2,hfind,h⟩
    obtain ⟨hb,rfl⟩ := run_bindingNamed.1 hfind
    obtain ⟨r,s2,hrun,h⟩ := run_bind_eq_ok.1 h
    obtain ⟨hr,rfl⟩ := run_referentOf_eq_ok hrun
    cases r with
    | var type mutable stage =>
      rw [readBinding, run_bind_eq_ok] at h
      obtain ⟨t,s2,ht,h⟩ := h
      rw [run_bind, hrun] at ht
      cases stage with
      | initialized =>
        cases type with
        | some t' =>
          cases ht
          cases h
          exact ⟨b,t,mutable,hb,hr,rfl,rfl⟩
        | none => cases congrArg Prod.fst ht
      | declared | initializing | failed => cases type <;> cases congrArg Prod.fst ht
    | const | func => cases use <;> cases congrArg Prod.fst h
  · rintro ⟨b,t,mutable,hb,hr,rfl,rfl⟩
    refine ⟨b,_,run_bindingNamed.2 ⟨hb,rfl⟩,?_⟩
    have hread : (referentOf b).run (s.resolved id b) = (.ok (.var (some t) mutable .initialized), s.resolved id b) :=
      run_referentOf hr
    rw [run_bind, hread]
    simp only
    rw [readBinding, run_bind, run_bind, hread]
    rfl

lemma run_place : ((⟨id,span,form⟩ : Expr).operand.place use).run s = (.ok place, s') ↔
      ∃ s1, (form.place id span use).run s = (.ok place, s1) ∧ s' = s1.step (.typed id place.type) := by
  rw [Expr.operand, run_bind_eq_ok]
  constructor
  · rintro ⟨a,s1,hrun,h⟩
    cases h
    exact ⟨s1,hrun,rfl⟩
  · rintro ⟨s1,hrun,rfl⟩
    exact ⟨place,s1,hrun,rfl⟩

lemma Expr.locates (e : Expr) {s s' : State} {place : Place} (h : (e.operand.place use).run s = (.ok place, s')) :
    Locates e s place s' := by
  obtain ⟨id,span,form⟩ := e
  rw [Opal.run_place] at h
  obtain ⟨s1,h,rfl⟩ := h
  cases form with
  | paren e => exact .paren (e.locates h)
  | name =>
    obtain ⟨b,t,mutable,hb,hr,rfl,rfl⟩ := run_namedPlace.1 h
    exact .name hb hr
  | deref e =>
    obtain ⟨t,s2,ht,h⟩ := run_bind_eq_ok.1 h
    cases t with
    | reference mutable target =>
      cases h
      exact .deref ht
    | _ => cases congrArg Prod.fst h
  | index base index =>
    obtain ⟨place,s2,hbase,h⟩ := run_bind_eq_ok.1 h
    obtain ⟨t,s3,ht,h⟩ := run_bind_eq_ok.1 h
    cases h
    rw [base.expr_operand] at ht
    exact .index (base.locates hbase) ht
  | _ => cases congrArg Prod.fst h

namespace Locates

variable {e : Expr}

lemma run_place (h : Locates e s place s1) (use : PlacePurpose) : (e.operand.place use).run s = (.ok place, s1) := by
  induction h with
  | name hb hvar => exact Opal.run_place.2 ⟨_,run_namedPlace.2 ⟨_,_,_,hb,hvar,rfl,rfl⟩,rfl⟩
  | deref h => exact Opal.run_place.2 ⟨_,run_bind_eq_ok.2 ⟨_,_,h,rfl⟩,rfl⟩
  | paren _ ih => exact Opal.run_place.2 ⟨_,ih,rfl⟩
  | @index _ _ base _ _ _ _ _ _ _ ht ih =>
    rw [← base.expr_operand] at ht
    exact Opal.run_place.2 ⟨_,run_bind_eq_ok.2 ⟨_,_,ih,run_bind_eq_ok.2 ⟨_,_,ht,rfl⟩⟩,rfl⟩

/-- What stands at the inner end is examined first, so in the state in which the whole expression is. -/
theorem decides (h : Locates e s place s1) : e.spine.Decides s place := by
  induction h with
  | name hb hvar => exact ⟨⟨_,_,hb,hvar⟩,rfl⟩
  | deref h => exact ⟨_,congrArg Prod.fst h,rfl⟩
  | paren _ ih => exact ih
  | @index _ _ base _ _ _ _ _ _ _ _ ih =>
    rw [Expr.spine, ExprForm.spine]
    cases hspine : base.spine with
    | target | named =>
      rw [hspine] at ih
      exact ih
    | value => exact (hspine ▸ ih : Spine.Decides _ _ .value)

end Locates

lemma Reaches.value {expected : Option Ty}
    (h : ∀ s', s.Resembles s' → Reaches (form.value id span expected) s' t s1) (hs : s.Resembles s') :
    Reaches ((⟨id,span,form⟩ : Expr).operand.value expected) s' t (s1.step (.typed id t)) := by
  obtain ⟨s1',hrun,hs1⟩ := h (s'.step (.begun id expected)) { hs with }
  refine ⟨s1'.step (.typed id t),?_,{ hs1 with typeOf := trivial }⟩
  exact run_bind_eq_ok.2 ⟨(),_,rfl,run_bind_eq_ok.2 ⟨t,s1',hrun,rfl⟩⟩

namespace Locates

variable {e : Expr}

lemma reads (h : Locates e s place s1) (hs : s.Resembles s') : Reaches (e.operand.value none) s' place.type s1 := by
  induction h generalizing s' with
  | @name id span name s b t mutable hb hvar =>
    refine Reaches.value (fun s' hs => ?_) hs
    exact .of_agree (readName_agree (L := SelfLikeness.loose.toLikeness) rfl id name) hs (run_readName hb hvar id span)
  | @deref id span e s s1 mutable target h =>
    have hrun : (derefValue e.operand).run s = (.ok target, s1) :=
      run_bind_eq_ok.2 ⟨_,_,run_bind_eq_ok.2 ⟨_,_,h,rfl⟩,rfl⟩
    refine Reaches.value (fun s' hs => ?_) hs
    exact .of_agree (derefValue_agree e.like_self.operand) hs hrun
  | paren _ ih => exact Reaches.value (fun s' hs => ih hs) hs
  | @index _ _ base index _ _ _ _ _ _ ht ih =>
    refine Reaches.value (fun s' hs => (ih hs).bind fun s1' hs1 => ?_) hs
    rw [base.expr_operand]
    exact .of_agree (elementType_agree rfl index.like_self.operand _) hs1 ht

lemma addressed (h : Locates e s place s1) (id : NodeId) (span : Span) (expected : Option Ty) :
    ∃ s2, ((⟨id,span,.addressOf e⟩ : Expr).operand.value expected).run s = (.ok (.reference place.mutable place.type), s2) := by
  have hvalue : Reaches ((⟨id,span,.addressOf e⟩ : Expr).operand.value expected) s _ _ :=
    .value (fun s' hs => (Reaches.of_agree (e.like_self.operand.place .addressOf) hs (h.run_place _)).bind
      fun s1' hs1 => ⟨_,rfl,{ hs1 with types := nofun }⟩) (.refl s)
  obtain ⟨s2,hrun,-⟩ := hvalue
  exact ⟨s2,hrun⟩

lemma refused (h : Locates e s place s1) (hmutable : place.mutable = false) (value : Operand) :
    (assignStmt e.operand value).run s = (.error (.error ⟨place.origin.refusal,e.span⟩), s1) := by
  rw [assignStmt, run_bind, h.run_place, e.expr_operand]
  simp only [hmutable]
  cases place.origin <;> rfl

end Locates

lemma Expr.locates_of_assigned {e : Expr} {value : Operand} (h : ((assignStmt e.operand value).run s).1 = .ok ()) :
    ∃ place s1, Locates e s place s1 ∧ place.mutable = true := by
  have hrun : (assignStmt e.operand value).run s = (.ok (), ((assignStmt e.operand value).run s).2) := Prod.ext h rfl
  obtain ⟨place,s1,hplace,-⟩ := run_bind_eq_ok.1 hrun
  refine ⟨place,s1,e.locates hplace,?_⟩
  by_contra hmutable
  rw [(e.locates hplace).refused (Bool.eq_false_iff.2 hmutable)] at h
  cases h

end

/-- What the examination of an expression as a storage location is worth. -/
structure Expr.Stores (e : Expr) (s : State) (place : Place) : Prop where
  /-- It can be read. -/
  read : ((e.operand.value none).run s).1 = .ok place.type
  /-- There are references to it. -/
  address : ∀ id span expected, (((⟨id,span,.addressOf e⟩ : Expr).operand.value expected).run s).1 =
    .ok (.reference place.mutable place.type)
  /-- The target of such a reference is the same location. -/
  target : ∀ id span id' span' use, ∃ origin, (((⟨id',span',.deref ⟨id,span,.addressOf e⟩⟩ : Expr).operand.place use).run s).1 =
      .ok ⟨place.type,place.mutable,origin⟩
  /-- Its inner end decides whether it is mutable. -/
  decided : e.spine.Decides s place
  /-- If it is not, nothing can be assigned to it. -/
  refused : place.mutable = false → ∀ value : Operand,
    ((assignStmt e.operand value).run s).1 = .error (.error ⟨place.origin.refusal,e.span⟩)

/-- Storage locations, from every state: what is found to be one can be read and referred to, and only what is found to be one that is
mutable can be assigned to. -/
theorem Expr.stores (e : Expr) (s : State) : (∀ use place s1, (e.operand.place use).run s = (.ok place, s1) → e.Stores s place) ∧
    (∀ value : Operand, ((assignStmt e.operand value).run s).1 = .ok () →
      ∃ place s1, (e.operand.place .assign).run s = (.ok place, s1) ∧ place.mutable = true) := by
  constructor
  · intro use place s1 hrun
    have h := e.locates hrun
    refine ⟨?_,?_,?_,h.decides,?_⟩
    · obtain ⟨s2,hread,-⟩ := h.reads (.refl s)
      rw [hread]
    · intro id span expected
      obtain ⟨s2,haddress⟩ := h.addressed id span expected
      rw [haddress]
    · intro id span id' span' use'
      obtain ⟨s2,haddress⟩ := h.addressed id span none
      have htarget : Locates ⟨id',span',.deref ⟨id,span,.addressOf e⟩⟩ s _ _ := .deref haddress
      exact ⟨_,by rw [htarget.run_place]⟩
    · intro hmutable value
      rw [h.refused hmutable]
  · intro value h
    obtain ⟨place,s1,hplace,hmutable⟩ := e.locates_of_assigned h
    exact ⟨place,s1,hplace.run_place .assign,hmutable⟩

/-- The elements of an array that is stored in a mutable variable. -/
theorem Expr.stores_element :
    let s := State.initial.step (.bound 0 ⟨"x",0,default,.var (some (.array (.int .u8) 2)) true .initialized⟩)
    let e : Expr := ⟨3,default,.index ⟨1,default,.name "x"⟩ ⟨2,default,.int "0"⟩⟩
    ((e.operand.place .assign).run s).1 = .ok ⟨.int .u8,true,.binding "x"⟩ ∧ e.Stores s ⟨.int .u8,true,.binding "x"⟩ := by
  intro s e
  have hrun : ((e.operand.place .assign).run s).1 = .ok ⟨.int .u8,true,.binding "x"⟩ := by decide +kernel
  exact ⟨hrun,(e.stores s).1 .assign _ _ (Prod.ext hrun rfl)⟩

end Opal
