import Opal.Proofs.Examination

/-!
# The evaluation of constant expressions

An expression that is evaluated with success has the value that it stands for, and its type is recorded. The same is assumed of
the constants that it names.
-/

namespace Opal

open List Findings

variable {n : Int} {i : IntTy} {N : List Node} {text : String}

/-- Whatever is expected, if anything, is a type that an expression can have. -/
def Expects (expected : Option Ty) : Prop :=
  ∀ t, expected = some t → t.isResult = true

lemma Expects.none : Expects none := by
  intro t h
  cases h

lemma Expects.some {t : Ty} (h : t.isResult = true) : Expects (some t) := by
  rintro _ ⟨⟩
  exact h

/-- The evaluation of a constant has come to an end, with success or not. -/
def Decided (s : State) (b : BindingId) : Prop :=
  ∃ type stage, s.referent? b = some (.const type stage) ∧ stage ≠ .pending ∧ stage ≠ .inProgress

/-- `constants` gives the values of the constants that are not in progress, as long as `J` holds. -/
structure Supplies (constants : Constants) (J : State → Prop) : Prop where
  stable : ∀ {N : List Node} {s s' : State}, Advances N [] s s' → J s → J s'
  meets : ∀ (s : State) (b : BindingId) type stage, Sound s → J s →
    s.referent? b = some (.const type stage) → stage ≠ .inProgress →
      Meets [] s (constants b) fun v s' => ∃ type, s'.referent? b = some (.const type (.done v))
  decided : ∀ (s : State) (b : BindingId) type stage, Sound s → J s →
    s.referent? b = some (.const type stage) → stage ≠ .inProgress → Decided ((constants b).run s).2 b

/-- The expression was evaluated. -/
structure HasValue (e : Expr) (expected : Option Ty) (v : Value) (s : State) : Prop where
  evaluates : s.Evaluates e v
  complete : s.Complete e.nodes
  expected : ∀ t, expected = some t → v.type = t

/-- The rule of an expression gives its value, and all is recorded but its type. -/
structure GivesValue (e : Expr) (v : Value) (s : State) : Prop where
  obeys : s.Obeys e v.type
  exact : e.exact s.exactAt = some v.exact
  inRange : v.isInRange = true
  named : ∀ x name, Node.expr x ∈ e.nodes → x.form = .name name → (s.constantAt x.id).isSome
  ranges : ∀ x ∈ e.form.evaluated, ∃ u : Value, x.exact s.exactAt = some u.exact ∧ s.typeAt x = some u.type ∧ u.isInRange = true
  completable : s.Completable e

/-- The evaluation of an expression. -/
def Evaluator (J : State → Prop) (e : Expr) (value : Option Ty → Check Value) : Prop :=
  ∀ expected s, Ready e.nodes s → J s → Expects expected → Meets e.nodes s (value expected) (HasValue e expected)

section

variable {e : Expr} {expected : Option Ty} {v : Value} {s s' : State}

lemma HasValue.agrees (h : HasValue e expected v s)
    (ha : Agrees e.nodes s.toFindings s'.toFindings) : HasValue e expected v s' :=
  ⟨h.evaluates.agrees ha,h.complete.agrees ha,h.expected⟩

section

variable (hname : ∀ name, e.form ≠ .name name) (hskips : e.skips s.toFindings = [])
include hname hskips

lemma GivesValue.of_parts (hobeys : s.Obeys e v.type) (hexact : e.exact s.exactAt = some v.exact)
    (hrange : v.isInRange = true) (hcomplete : s.Complete e.form.nodes)
    (hnamed : ∀ x name, Node.expr x ∈ e.form.nodes → x.form = .name name → (s.constantAt x.id).isSome)
    (hranges : ∀ x ∈ e.form.evaluated, ∃ u : Value,
      x.exact s.exactAt = some u.exact ∧ s.typeAt x = some u.type ∧ u.isInRange = true) : GivesValue e v s where
  obeys := hobeys
  exact := hexact
  inRange := hrange
  named x name hx hform := by
    rw [e.nodes_eq] at hx
    rcases mem_append.1 hx with hx | hx
    · exact hnamed x name hx hform
    · exact absurd (Node.expr.inj (mem_singleton.1 hx) ▸ hform) (hname name)
  ranges := hranges
  completable := .of_parts hcomplete hskips fun name hform => absurd hform (hname name)

lemma GivesValue.leaf (hnodes : e.form.nodes = []) (hevaluated : e.form.evaluated = []) (hobeys : s.Obeys e v.type)
    (hexact : e.exact s.exactAt = some v.exact) (hrange : v.isInRange = true) : GivesValue e v s :=
  .of_parts hname hskips hobeys hexact hrange (by rw [hnodes]; exact .nil) (by simp [hnodes]) (by simp [hevaluated])

end

lemma GivesValue.recorded (h : GivesValue e v s) (hid : e.id ∉ e.form.nodes.map Node.id)
    (hexpected : ∀ t, expected = some t → v.type = t) : HasValue e expected v (s.recorded e.id v.type) := by
  have hself : (s.recorded e.id v.type).typeAt e = some v.type := by
    rw [typeAt, typeOf_recorded, if_pos rfl]
  refine ⟨⟨h.exact,hself,h.inRange,h.named,fun x hx => ?_⟩,h.completable.recorded hid _,hexpected⟩
  rw [e.evaluated_eq] at hx
  rcases mem_cons.1 hx with rfl | hx
  · exact ⟨v,h.exact,hself,h.inRange⟩
  · obtain ⟨u,hu,htype,hrange⟩ := h.ranges x hx
    have hmem := e.form.mem_nodes_of_mem_evaluated x hx
    exact ⟨u,hu,((agrees_recorded hid _).typeAt hmem).trans htype,hrange⟩

lemma Meets.evaluated {m : Check Value} (hready : Ready e.nodes s) (hexp : Expects expected)
    (hm : Meets e.form.nodes s m (GivesValue e)) :
    Meets e.nodes s (do
        let v ← m
        requireType v expected e.span
        recordType e.id v.type
        return v) (HasValue e expected) := by
  have hform : Ready e.form.nodes s := Ready.left (e.nodes_eq ▸ hready)
  have hrequired : Meets e.form.nodes s (do
        let v ← m
        requireType v expected e.span
        return v) fun v s' => GivesValue e v s' ∧ ∀ t, expected = some t → v.type = t := by
    refine hm.andThen hform fun v s1 hstep hv => ?_
    cases expected with
    | none => exact .pure (.nil hstep.sound) fun _ => ⟨hv,by simp⟩
    | some t =>
      simp only [requireType]
      split
      · exact ⟨.refl (.nil hstep.sound) [],trivial⟩
      · next htype =>
        refine .pure (.nil hstep.sound) fun _ => ⟨hv,?_⟩
        rintro _ ⟨⟩
        by_contra hne
        exact htype ⟨Ty.ne_error_of_isResult (hexp t rfl),hne⟩
  have h := hrequired.record (Q := HasValue e expected) Value.type hready (fun v s1 hv => ⟨hv.1.obeys,v.isResult_type⟩)
    (fun v s1 _ hv => hv.1.recorded hready.id_notMem hv.2)
  simpa only [bind_assoc, pure_bind] using h

/-! ## The rules -/

lemma Meets.literalOfType (hready : Ready N s) (hexp : Expects expected) (text : String) (negative : Bool) (span : Span) :
    Meets N s (Opal.literalOfType text negative expected span) fun v s' =>
      s' = s ∧ ∃ i n, expected = some (.int i) ∧ literalValue? text = some n ∧ v = .int (if negative then -n else n) i ∧
        i.contains (if negative then -n else n) = true := by
  unfold Opal.literalOfType
  cases expected with
  | none => exact .fail hready _ _
  | some t =>
    cases t with
    | error => exact absurd rfl (Ty.ne_error_of_isResult (hexp _ rfl))
    | int i =>
      cases hn : literalValue? text with
      | none => exact .fail hready _ _
      | some n =>
        refine .ite (fun h => ?_) fun _ => .fail hready _ _
        exact .pure hready ⟨rfl,i,n,rfl,rfl,rfl,h⟩
    | _ => exact .mismatch hready _ _ _

variable {id : NodeId} {span : Span} {J : State → Prop} {x : Expr} {value : Option Ty → Check Value}

/-- A negated literal has its value, and of its operand nothing but the type is recorded. -/
theorem givesValue_negatedLiteral (hready : Ready x.nodes s) (hlit : x.literal? = some text) (hn : literalValue? text = some n)
    (hi : i.contains (-n) = true) : GivesValue ⟨id,span,.unary .neg x⟩ (.int (-n) i) (s.recorded x.id (.int i)) := by
  have hself : (s.recorded x.id (.int i)).typeAt x = some (.int i) := by
    rw [typeAt, typeOf_recorded, if_pos rfl]
  have hinside {y : Expr} (hy : y ∈ x.insideParens) : (s.recorded x.id (.int i)).typeAt y = none := by
    have hmem := x.mem_form_nodes_of_mem_insideParens hy
    have hnodes : Node.expr y ∈ x.nodes := x.nodes_eq ▸ mem_append_left _ hmem
    rw [(agrees_recorded hready.id_notMem _).typeAt hmem]
    exact hready.untyped _ (id_mem_of_expr hnodes)
  have hskips : (Expr.mk id span (.unary .neg x)).skips (s.recorded x.id (.int i)).toFindings = x.insideParens := by
    simp [Expr.skips, hlit]
  have hroot {y : Expr} (hy : Node.expr y ∈ (Expr.mk id span (.unary .neg x)).nodes) :
      y = ⟨id,span,.unary .neg x⟩ ∨ Node.expr y ∈ x.nodes := by
    rcases mem_append.1 hy with hy | hy
    · exact .inr hy
    · exact .inl (Node.expr.inj (mem_singleton.1 hy))
  -- All that is inside the operand are parentheses and the literal.
  have hno_name {y : Expr} {name : String} (hy : Node.expr y ∈ (Expr.mk id span (.unary .neg x)).nodes)
      (hform : y.form = .name name) : False := by
    rcases hroot hy with rfl | hy
    · cases hform
    · obtain ⟨z,hz,-,hzlit⟩ := x.literal_nodes hlit hy
      obtain rfl := Node.expr.inj hz
      rcases Expr.literal_cases hzlit with h | ⟨w,h,-⟩ <;> cases hform.symm.trans h
  refine ⟨⟨hself,i,rfl,?_⟩,?_,hi,fun y name hy hform => (hno_name hy hform).elim,?_,?_⟩
  · simp only [hlit]
    exact ⟨n,hn,hi⟩
  · rw [Expr.exact, ExprForm.exact, x.exact_literal _ hlit, hn]
    rfl
  · rw [ExprForm.evaluated, hlit]
    simp
  · refine ⟨fun y hy ht => ?_,fun p hp y hy => ?_,fun y name hy hform => (hno_name hy hform).elim,fun d hd => ?_⟩
    · rw [ExprForm.nodes] at hy
      obtain ⟨z,hz,hcase,-⟩ := x.literal_nodes hlit hy
      obtain rfl := Node.expr.inj hz
      rcases hcase with rfl | hcase
      · rw [hself] at ht
        cases ht
      · exact ⟨_,Expr.self_mem_nodes _,hskips ▸ hcase⟩
    · rcases hroot hp with rfl | hp
      · exact hinside (hskips ▸ hy)
      · obtain ⟨z,hz,-,hzlit⟩ := x.literal_nodes hlit hp
        obtain rfl := Node.expr.inj hz
        rw [Expr.skips_literal _ hzlit] at hy
        cases hy
    · rw [ExprForm.nodes] at hd
      obtain ⟨z,hz,-⟩ := x.literal_nodes hlit hd
      cases hz

section

variable (hready : Ready (Expr.mk id span (.unary .neg x)).nodes s) (hlit : x.literal? = some text)
include hready hlit

lemma Advances.negatedLiteral
    (hn : literalValue? text = some n) (hi : i.contains (-n) = true) : Advances (Expr.mk id span (.unary .neg x)).nodes [] s
      ((s.recorded x.id (.int i)).recorded id (.int i)) := by
  have hnodes : (Expr.mk id span (.unary .neg x)).nodes =
      x.nodes ++ [.expr ⟨id,span,.unary .neg x⟩] := by rw [Expr.nodes, ExprForm.nodes]
  have hself := (Expr.mk id span (.unary .neg x)).self_mem_nodes
  have hid := id_mem_of_expr hself
  have hxid : x.id ∈ (Expr.mk id span (.unary .neg x)).nodes.map Node.id :=
    id_mem_of_expr (hnodes ▸ mem_append_left _ x.self_mem_nodes)
  have hready' : Ready x.nodes s := Ready.left (hnodes ▸ hready)
  have hnot : id ∉ x.nodes.map Node.id := by
    have h := hready.id_notMem
    rwa [ExprForm.nodes] at h
  have hinner := agrees_recorded (s := s) hready'.id_notMem (.int i)
  have hwhole := agrees_recorded (s := s.recorded x.id (.int i)) hnot (.int i)
  have hsound := (hready.sound.recorded (.int i) fun b d type stage hd hr hstage =>
    hready.apart b d type stage hd hr hstage hxid).recorded (.int i) fun b d type stage hd hr hstage =>
      hready.apart b d type stage hd hr hstage hid
  refine ⟨Evolves.trans hready.sound (evolves_recorded hxid [] _) (evolves_recorded hid [] _),
    .step _ (.single trivial) trivial,hsound,fun y hy t ht => ?_,fun b r hnone hr => ?_⟩
  · rw [hnodes] at hy
    rcases mem_append.1 hy with hy | hy
    · rw [hwhole.typeAt hy] at ht
      obtain ⟨z,hz,hcase,-⟩ := x.literal_nodes hlit hy
      obtain rfl := Node.expr.inj hz
      rcases hcase with rfl | hcase
      · rw [typeAt, typeOf_recorded, if_pos rfl] at ht
        obtain rfl := Option.some.inj ht
        refine ⟨rfl,obeys_literal hself rfl hlit hn hi fun w hw => ?_⟩
        have hmem : Node.expr w ∈ y.nodes := y.nodes_eq ▸ mem_append_left _ hw
        rw [hwhole.typeAt hmem, hinner.typeAt hw]
        exact hready'.untyped _ (id_mem_of_expr hmem)
      · -- Nothing inside the parentheses is examined.
        have hw := x.mem_form_nodes_of_mem_insideParens hcase
        rw [hinner.typeAt hw, typeAt, hready'.untyped _ (id_mem_of_expr hy)] at ht
        cases ht
    · obtain rfl := Node.expr.inj (mem_singleton.1 hy)
      rw [typeAt, typeOf_recorded, if_pos rfl] at ht
      obtain rfl := Option.some.inj ht
      have hgives : GivesValue ⟨id,span,.unary .neg x⟩ (.int (-n) i) (s.recorded x.id (.int i)) :=
        givesValue_negatedLiteral hready' hlit hn hi
      exact ⟨rfl,.inl (hgives.obeys.agrees (by rwa [ExprForm.nodes]) rfl (by simp [Value.type]))⟩
  · cases hnone.symm.trans hr

lemma Proceeds.negatedLiteral
    (hn : literalValue? text = some n) (hi : i.contains (-n) = true) : Proceeds (Expr.mk id span (.unary .neg x)).nodes [] s
      ((s.recorded x.id (.int i)).recorded id (.int i)) where
  toAdvances := .negatedLiteral hready hlit hn hi
  fresh := (Proceeds.refl hready []).fresh
  inSequence := by
    refine .of_undeclared fun d hd => ?_
    rcases mem_append.1 hd with hd | hd
    · obtain ⟨y,hy,-⟩ := x.literal_nodes hlit hd
      cases hy
    · cases mem_singleton.1 hd

/-- The operand of a negated literal is not examined: its type is noted with the value of the whole. -/
theorem negatedLiteral_meets {α : Type} {f : Value → Check α} {Q : α → State → Prop} (hexp : Expects expected)
    (hf : ∀ n i, expected = some (.int i) → i.contains (-n) = true →
      GivesValue ⟨id,span,.unary .neg x⟩ (.int (-n) i) (s.recorded x.id (.int i)) →
      Proceeds (Expr.mk id span (.unary .neg x)).nodes [] s ((s.recorded x.id (.int i)).recorded id (.int i)) →
        Meets (Expr.mk id span (.unary .neg x)).nodes s (f (.int (-n) i)) Q) :
    Meets (Expr.mk id span (.unary .neg x)).nodes s (do
        let v ← literalOfType text true expected span
        f v) Q := by
  refine Meets.bindNil hready (Meets.literalOfType (.nil hready.sound) hexp text true span) ?_
  rintro v s1 - ⟨rfl,i,n,hexpected,hn,rfl,hi⟩
  have hready' : Ready x.nodes s1 := Ready.left (by rwa [Expr.nodes, ExprForm.nodes] at hready)
  exact hf n i hexpected hi (givesValue_negatedLiteral hready' hlit hn hi) (Proceeds.negatedLiteral hready hlit hn hi)

lemma constant_negatedLiteral_meets (hexp : Expects expected) : Meets (Expr.mk id span (.unary .neg x)).nodes s (do
        let v ← constantNegation x value span expected
        requireType v expected span
        recordType id v.type
        return v) (HasValue ⟨id,span,.unary .neg x⟩ expected) := by
  have hneg : constantNegation x value span expected = (do
        let v ← literalOfType text true expected span
        recordType x.id v.type
        return v : Check Value) := by
    unfold constantNegation
    rw [hlit]
  rw [hneg, bind_assoc]
  refine negatedLiteral_meets hready hlit hexp fun n i hexpected hi hgives hstep => ?_
  subst hexpected
  have hrequire : requireType (.int (-n) i) (some (.int i)) span = Pure.pure () := by
    simp [requireType, Value.type]
  simp only [bind_assoc, pure_bind, hrequire]
  refine ⟨hstep,hgives.recorded hready.id_notMem ?_⟩
  rintro _ ⟨⟩
  rfl

end

lemma constantNegation_meets (hx : Evaluator J x value) (hlit : x.literal? = none)
    (hready : Ready x.nodes s) (hJ : J s) (hexp : Expects expected) : Meets x.nodes s (constantNegation x value span expected)
      (GivesValue ⟨id,span,.unary .neg x⟩) := by
  unfold constantNegation
  rw [hlit]
  refine (hx expected s hready hJ hexp).andThen hready fun v s1 hstep hv => ?_
  have hnil := Ready.nil hstep.sound
  cases v with
  | int n i =>
    refine .ite (fun hsigned => .ite (fun hrange => ?_) fun _ => .fail hnil _ _) fun _ => .mismatch hnil _ _ _
    refine .pure hnil fun _ => .of_parts (by simp) (by simp [Expr.skips, hlit]) ?_ ?_ hrange ?_ ?_ ?_
    · refine ⟨hv.evaluates.typed,i,rfl,?_⟩
      simpa only [hlit] using hsigned
    · rw [Expr.exact, ExprForm.exact, hv.evaluates.exact]
      rfl
    · rw [ExprForm.nodes]; exact hv.complete
    · rw [ExprForm.nodes]; exact hv.evaluates.named
    · rw [ExprForm.evaluated, hlit]; exact hv.evaluates.ranges
  | bool b | char c => exact .mismatch hnil _ _ _

lemma constantComplement_meets (hx : Evaluator J x value) (hready : Ready x.nodes s) (hJ : J s) :
    Meets x.nodes s (constantComplement value) (GivesValue ⟨id,span,.unary .not x⟩) := by
  refine (hx (some .bool) s hready hJ (.some rfl)).andThen hready fun v s1 hstep hv => ?_
  have htype := hv.expected .bool rfl
  cases v with
  | bool b =>
    refine .pure (.nil hstep.sound) fun _ => .of_parts (by simp) rfl ?_ ?_ rfl ?_ ?_ ?_
    · exact ⟨rfl,hv.evaluates.typed⟩
    · rw [Expr.exact, ExprForm.exact, hv.evaluates.exact]
      rfl
    · rw [ExprForm.nodes]; exact hv.complete
    · rw [ExprForm.nodes]; exact hv.evaluates.named
    · rw [ExprForm.evaluated]; exact hv.evaluates.ranges
  | int n i | char c => cases htype

lemma Expects.firstExpected (h : Expects expected) (op : BinaryOp) : Expects (op.firstExpected expected) := by
  unfold BinaryOp.firstExpected
  split
  · exact h
  split
  · exact .some rfl
  · exact .none

variable {l r : Expr} {leftValue rightValue : Option Ty → Check Value}

section

variable (hl : Evaluator J l leftValue)
    (hr : Evaluator J r rightValue) (hstable : ∀ {N : List Node} {s s' : State}, Advances N [] s s' → J s → J s')
include hl hr hstable

lemma constantOperands_meets (hready : Ready (l.nodes ++ r.nodes) s) (hJ : J s) (hexp : Expects expected) (op : BinaryOp) :
    Meets (l.nodes ++ r.nodes) s (constantOperands op l r leftValue rightValue expected)
      fun v s' => HasValue l none v.1 s' ∧ HasValue r none v.2 s' ∧ v.2.type = v.1.type := by
  have hfirst := hexp.firstExpected op
  refine .ite (fun _ => ?_) fun _ => ?_
  · have hready' := hready.perm perm_append_comm
    refine Meets.perm (Meets.bind hready' (hr _ s hready'.left hJ hfirst)
      fun vr s1 hstep hvr => ?_) perm_append_comm fun _ _ h => h.swap hready'.nodup
    refine Meets.thenPure (hready'.right hstep)
      (hl (some vr.type) s1 (hready'.right hstep) (hstable hstep hJ) (.some vr.isResult_type)) ?_
    intro vl s2 _ hvl ha
    have hvr := hvr.agrees ha
    exact ⟨⟨hvl.evaluates,hvl.complete,by simp⟩,⟨hvr.evaluates,hvr.complete,by simp⟩,(hvl.expected _ rfl).symm⟩
  · refine Meets.bind hready (hl _ s hready.left hJ hfirst) fun vl s1 hstep hvl => ?_
    refine Meets.thenPure (hready.right hstep)
      (hr (some vl.type) s1 (hready.right hstep) (hstable hstep hJ) (.some vl.isResult_type)) ?_
    intro vr s2 _ hvr ha
    have hvl := hvl.agrees ha
    exact ⟨⟨hvl.evaluates,hvl.complete,by simp⟩,⟨hvr.evaluates,hvr.complete,by simp⟩,hvr.expected _ rfl⟩

lemma constantBinary_meets (hready : Ready (l.nodes ++ r.nodes) s) (hJ : J s) (hexp : Expects expected) (op : BinaryOp) :
    Meets (l.nodes ++ r.nodes) s (constantBinary op l r leftValue rightValue span expected)
      (GivesValue ⟨id,span,.binary op l r⟩) := by
  refine (constantOperands_meets hl hr hstable hready hJ hexp op).andThen hready fun v s1 hstep hv => ?_
  obtain ⟨vl,vr⟩ := v
  obtain ⟨hvl,hvr,htype⟩ := hv
  have hnil := Ready.nil hstep.sound
  refine .ite (fun haccepts => .ofExcept hnil fun v hok _ => ?_) fun _ => .mismatch hnil _ _ _
  have hok : vl.binary op vr = .ok v := by
    cases h : vl.binary op vr with
    | ok u => rw [h] at hok; exact congrArg _ (Except.ok.inj hok)
    | error c => rw [h] at hok; cases hok
  obtain ⟨hexact,hrange,hvtype⟩ := Value.binary_exact haccepts htype hok
  refine .of_parts (by simp) rfl ?_ ?_ hrange ?_ ?_ ?_
  · rw [hvtype]
    exact obeysBinary_of_accepts haccepts hvl.evaluates.typed (hvr.evaluates.typed.trans (congrArg _ htype))
  · rw [Expr.exact, ExprForm.exact, hvl.evaluates.exact, hvr.evaluates.exact]
    exact hexact
  · rw [ExprForm.nodes]
    exact hvl.complete.append hvr.complete
  · rw [ExprForm.nodes]
    intro y name hy
    exact (mem_append.1 hy).elim (hvl.evaluates.named y name) (hvr.evaluates.named y name)
  · rw [ExprForm.evaluated]
    intro y hy
    exact (mem_append.1 hy).elim (hvl.evaluates.ranges y) (hvr.evaluates.ranges y)

end

end

section

variable {constants : Constants} {J : State → Prop} {s s' : State} {id : NodeId}
  {span : Span} {name : String} {b : BindingId} {v : Value}

lemma Advances.refersTo_kept (h : Advances [] [] s s') (hready : Ready N s)
    (hid : id ∈ N.map Node.id) : s'.refersTo[id]? = s.refersTo[id]? := by
  refine (h.agrees (M := N) (by simp) fun b d hd hb => ?_).refersTo id hid
  exact hready.apart b d _ _ hd hb (by simp)

lemma givesValue_name {type : Option Ty} (hs : Sound s) (hid : s.refersTo[id]? = some b)
    (hb : s.referent? b = some (.const type (.done v))) : GivesValue ⟨id,span,.name name⟩ v s := by
  have hat : s.referentAt id = some (.const type (.done v)) := Option.bind_eq_some_iff.2 ⟨b,hid,hb⟩
  have hconst : s.constantAt id = some v := Option.bind_eq_some_iff.2 ⟨_,hat,rfl⟩
  obtain ⟨d,hd⟩ := hs.constant b _ _ hb
  obtain ⟨-,hsolved⟩ := hs.stages b d _ _ hd hb
  refine ⟨⟨_,hat,hs.wellFormed b _ hb⟩,?_,hsolved.evaluates.inRange,fun x name hx _ => ?_,?_,?_⟩
  · rw [Expr.exact, ExprForm.exact, exactAt, hconst]
    rfl
  · rw [Expr.nodes, ExprForm.nodes] at hx
    obtain rfl := Node.expr.inj (mem_singleton.1 hx)
    rw [hconst]
    rfl
  · rw [ExprForm.evaluated]
    · simp
    all_goals simp
  · refine .of_parts ?_ rfl fun name _ => ?_
    · rw [ExprForm.nodes]
      exact .nil
    · rw [hat]
      rfl

/-- A name is looked up and noted, and then the constant that it refers to is evaluated. -/
theorem constant_name_meets (hc : Supplies constants J) (scope : ScopeId) {expected : Option Ty}
    (hready : Ready (Expr.mk id span (.name name)).nodes s) (hJ : J s) (hexp : Expects expected) :
    Meets (Expr.mk id span (.name name)).nodes s (do
        let v ← constantName constants scope id name span
        requireType v expected span
        recordType id v.type
        return v)
      (HasValue ⟨id,span,.name name⟩ expected) := by
  have hmem := id_mem_of_expr (Expr.mk id span (.name name)).self_mem_nodes
  rw [constantName, bind_assoc]
  refine Meets.again hready.sound (.findFrom hready hmem scope name span) fun b s1 hstep hb => ?_
  obtain ⟨hready1,-,r,hr,rfl⟩ := hb
  refine Meets.evaluated (e := ⟨id,span,.name name⟩) hready1 hexp ?_
  refine Meets.read (run_referentOf hr) ?_
  have hnil := Ready.nil hstep.sound
  have hsupplied {type stage} (hr : s.referent? b = some (.const type stage)) (hstage : stage ≠ .inProgress) :
      Meets [] (s.resolved id b) (constants b) (GivesValue ⟨id,span,.name name⟩) := by
    refine (hc.meets _ b type stage hstep.sound (hc.stable hstep hJ) hr hstage).mono ?_
    rintro v s2 hstep2 ⟨type',hdone⟩
    refine givesValue_name hstep2.sound ?_ hdone
    rw [hstep2.refersTo_kept hready1 hmem, refersTo_resolved, if_pos rfl]
  cases r with
  | const type stage =>
    cases stage with
    | inProgress => exact .fail hnil _ _
    | pending | done | failed => exact hsupplied hr (by simp)
  | var | func => exact .fail hnil _ _

end

section

variable {constants : Constants} {J : State → Prop} (hc : Supplies constants J) (scope : ScopeId) {s : State}
include hc

mutual

/-- An expression that is evaluated with success has its exact value. -/
theorem Expr.constant_evaluator : ∀ e : Expr, Evaluator J e fun expected => e.constant constants scope expected
  | ⟨id,span,form⟩ => by
    intro expected s hready hJ hexp
    show Meets _ s ((Expr.mk id span form).constant constants scope expected) _
    refine Meets.bindNil hready (.begun hready.sound id expected) fun _ s1 hstep _ => ?_
    have hready1 := hready.after hstep
    have hJ1 := hc.stable hstep hJ
    rcases form.isPlain_cases with hplain | ⟨name,rfl⟩ | ⟨x,text,rfl,hlit⟩
    · have hform : Ready form.nodes s1 := Ready.left (by rwa [Expr.nodes] at hready1)
      exact Meets.evaluated (e := ⟨id,span,form⟩) hready1 hexp (form.constant_meets id span expected s1 hplain hform hJ1 hexp)
    · rw [ExprForm.constant]
      exact constant_name_meets hc scope hready1 hJ1 hexp
    · rw [ExprForm.constant]
      exact constant_negatedLiteral_meets hready1 hlit hexp

lemma ExprForm.constant_meets (form : ExprForm) (id : NodeId) (span : Span) (expected : Option Ty) (s : State)
    (hplain : form.IsPlain) (hready : Ready form.nodes s) (hJ : J s) (hexp : Expects expected) :
    Meets form.nodes s (form.constant constants scope id span expected) (GivesValue ⟨id,span,form⟩) := by
  cases form with
  | int text =>
    refine (Meets.literalOfType hready hexp text false span).mono ?_
    rintro v s' - ⟨rfl,i,n,-,hn,rfl,hi⟩
    refine .leaf (by simp) rfl (by rw [ExprForm.nodes]) ?_ ⟨i,n,rfl,hn,hi⟩ ?_ hi
    · rw [ExprForm.evaluated] <;> simp
    · rw [Expr.exact, ExprForm.exact, hn]
      rfl
  | bool | char =>
    refine .pure hready (.leaf (by simp) rfl (by rw [ExprForm.nodes]) ?_ rfl ?_ rfl)
    · rw [ExprForm.evaluated] <;> simp
    · rw [Expr.exact, ExprForm.exact]
      rfl
  | paren e =>
    refine (e.constant_evaluator expected s hready hJ hexp).mono fun v s' _ hv => ?_
    refine .of_parts (by simp) rfl (fun u hu => ?_) ?_ hv.evaluates.inRange ?_ ?_ ?_
    · exact Option.mem_unique hu hv.evaluates.typed
    · rw [Expr.exact, ExprForm.exact]
      exact hv.evaluates.exact
    · rw [ExprForm.nodes]; exact hv.complete
    · rw [ExprForm.nodes]; exact hv.evaluates.named
    · rw [ExprForm.evaluated]; exact hv.evaluates.ranges
  | unary op e =>
    cases op with
    | neg => exact constantNegation_meets e.constant_evaluator (hplain.2 e rfl) hready hJ hexp
    | not => exact constantComplement_meets e.constant_evaluator hready hJ
  | binary op l r => exact constantBinary_meets l.constant_evaluator r.constant_evaluator hc.stable hready hJ hexp op
  | name name => exact absurd rfl (hplain.1 name)
  | _ => exact .fail hready _ _

end

/-! ## Sizes of arrays and written types -/

omit hc in
lemma Meets.tryCatch {α : Type} {m : Check α} {P : α → State → Prop} {handler : Stop → Check α} (hm : Meets N s m P)
    (herror : ∀ e s, ∃ e', (handler (.error e)).run s = (.error (.error e'), s))
    (hblocked : ∀ s, (handler .blocked).run s = (.error .blocked, s)) : Meets N s (MonadExcept.tryCatch m handler) P := by
  obtain ⟨hstep,hout⟩ := hm
  unfold Meets
  rw [Check.run_tryCatch]
  match (m.run s).1, hout with
  | .ok a, hout => exact ⟨hstep,hout⟩
  | .error .blocked, hout =>
    simp only [hblocked]
    exact ⟨hstep,hout⟩
  | .error (.error e), _ =>
    obtain ⟨e',he'⟩ := herror e (m.run s).2
    simp only [he']
    exact ⟨hstep,trivial⟩

lemma arraySize_meets (size : Expr) (hready : Ready size.nodes s) (hJ : J s) :
    Meets size.nodes s (arraySize constants scope size) fun _ s' => s'.Complete size.nodes := by
  have hexp : Expects (if size.isContextual then some (.int .u32) else none) := by
    split
    · exact .some rfl
    · exact .none
  have hvalue := size.constant_evaluator hc scope _ s hready hJ hexp
  refine (hvalue.tryCatch (fun e s => ⟨arraySizeError size e,rfl⟩) fun s => rfl).andThen hready fun v s1 hstep hv => ?_
  have hnil := Ready.nil hstep.sound
  cases v with
  | int n i =>
    refine .ite (fun _ => .fail hnil _ _) fun _ => .ite (fun _ => .fail hnil _ _) fun _ => ?_
    exact .pure hnil fun _ => hv.complete
  | bool b | char c => exact .fail hnil _ _

end

lemma Ty.isResult_of_ofName {name : String} {t : Ty} (h : Ty.ofName name = .ok t) : t.isResult = true := by
  have hall : ∀ p ∈ Ty.byName, p.2.isResult = true := by decide
  unfold Ty.ofName at h
  split at h
  · next u hu =>
    obtain rfl := Except.ok.inj h
    obtain ⟨l1,l2,hlist,-⟩ := lookup_eq_some_iff.1 hu
    exact hall (name, u) (by simp [hlist])
  · split at h
    · cases h
    · split at h <;> cases h

/-- The type that was found for a written type in a position. Only a name stands for a type that
a constant may have. -/
structure Denoted (form : TypeForm) (position : Position) (t : Ty) (s : State) : Prop where
  result : t.isResult = true
  value : position = .value → t.isValue = true
  complete : s.Complete form.nodes
  scalar : t.isScalar = true → ∃ name, form = .named name ∧ Ty.ofName name = .ok t

section

variable {constants : Constants} {J : State → Prop} (scope : ScopeId)

mutual

/-- A written type stands for a type that may stand in its position. -/
theorem TypeExpr.denote_meets (hc : Supplies constants J) (w : TypeExpr) (position : Position) (s : State)
    (hready : Ready w.nodes s) (hJ : J s) : Meets w.nodes s (w.denote constants scope position) (Denoted w.form position) := by
  obtain ⟨span,form⟩ := w
  change Meets form.nodes s (form.denote constants scope span position) (Denoted form position)
  replace hready : Ready form.nodes s := hready
  cases form with
  | named name =>
    have hname : Meets (TypeForm.named name).nodes s (Check.ofExcept ((Ty.ofName name).mapError fun cause => ⟨cause,span⟩))
        fun t _ => Ty.ofName name = .ok t := by
      refine .ofExcept hready fun t ht => ?_
      cases h : Ty.ofName name with
      | ok u => rw [h] at ht; exact congrArg _ (Except.ok.inj ht)
      | error c => rw [h] at ht; cases ht
    refine hname.andThen hready fun t s1 hstep ht => ?_
    have hnil := Ready.nil hstep.sound
    have hresult := Ty.isResult_of_ofName ht
    refine .ite (fun _ => .fail hnil _ _) fun hvoid => .pure hnil fun _ => ⟨hresult,?_,?_,?_⟩
    · exact fun hp => Ty.isValue_of_isResult hresult fun h => hvoid ⟨h,hp⟩
    · rw [TypeForm.nodes]; exact .nil
    · exact fun _ => ⟨name,rfl,ht⟩
  | array element size =>
    refine Meets.bind hready (element.denote_meets hc .value s hready.left hJ) fun t s1 hstep ht => ?_
    refine Meets.built (hready.right hstep) (arraySize_meets hc scope size (hready.right hstep) (hc.stable hstep hJ)) ?_
    intro n s2 hn ha
    have hvalue : (Ty.array t n).isValue = true := by rw [Ty.isValue]; exact ht.value rfl
    refine ⟨Ty.isResult_of_isValue hvalue,fun _ => hvalue,?_,by simp [Ty.isScalar]⟩
    have helement := ht.complete
    rw [← TypeExpr.nodes_form] at helement
    exact (helement.agrees ha).append (hn.agrees (agrees_step s2 _ rfl))
  | reference mutable target =>
    refine Meets.built hready (target.denote_meets hc .value s hready hJ) ?_
    intro t s1 ht
    have hvalue : (Ty.reference mutable t).isValue = true := by rw [Ty.isValue]; exact ht.value rfl
    refine ⟨Ty.isResult_of_isValue hvalue,fun _ => hvalue,?_,by simp [Ty.isScalar]⟩
    rw [TypeForm.nodes, TypeExpr.nodes_form]
    exact ht.complete.agrees (agrees_step s1 _ rfl)
  | function params ret =>
    cases ret with
    | none =>
      rw [TypeForm.denote, TypeForm.nodes, optionalTypeNodes, append_nil]
      rw [TypeForm.nodes, optionalTypeNodes, append_nil] at hready
      refine Meets.built hready (denoteAll_meets hc params s hready hJ) ?_
      rintro ts s1 ⟨hts,hcomplete⟩
      have hvalue : (Ty.function ts .void).isValue = true := (Ty.isValue_function ..).2 ⟨hts,rfl⟩
      refine ⟨Ty.isResult_of_isValue hvalue,fun _ => hvalue,?_,by simp [Ty.isScalar]⟩
      rw [TypeForm.nodes, optionalTypeNodes, append_nil]
      exact hcomplete.agrees (agrees_step s1 _ rfl)
    | some ret =>
      refine Meets.bind hready (denoteAll_meets hc params s hready.left hJ) fun ts s1 hstep hts => ?_
      refine Meets.built (hready.right hstep) (ret.denote_meets hc .result s1 (hready.right hstep) (hc.stable hstep hJ)) ?_
      intro t s2 ht ha
      have hvalue : (Ty.function ts t).isValue = true := (Ty.isValue_function ..).2 ⟨hts.1,ht.result⟩
      refine ⟨Ty.isResult_of_isValue hvalue,fun _ => hvalue,?_,by simp [Ty.isScalar]⟩
      rw [TypeForm.nodes, optionalTypeNodes, TypeExpr.nodes_form]
      exact (hts.2.agrees ha).append (ht.complete.agrees (agrees_step s2 _ rfl))

lemma denoteAll_meets (hc : Supplies constants J) : ∀ (ts : List TypeExpr) (s : State), Ready (typeNodes ts) s → J s →
      Meets (typeNodes ts) s (denoteAll constants scope ts) fun types s' =>
        (∀ t ∈ types, t.isValue = true) ∧ s'.Complete (typeNodes ts)
  | [], s, hready, _ => by
    refine .pure hready ⟨by simp,?_⟩
    rw [typeNodes]; exact .nil
  | t :: ts, s, hready, hJ => by
    refine Meets.bind hready (t.denote_meets hc .value s hready.left hJ) fun u s1 hstep hu => ?_
    refine Meets.thenPure (hready.right hstep) (denoteAll_meets hc ts s1 (hready.right hstep) (hc.stable hstep hJ)) ?_
    rintro us s2 - ⟨hus,hcomplete⟩ ha
    refine ⟨by simpa using ⟨hu.value rfl,hus⟩,?_⟩
    have hhead := hu.complete
    rw [← TypeExpr.nodes_form] at hhead
    exact (hhead.agrees ha).append hcomplete

end

end

end Opal
