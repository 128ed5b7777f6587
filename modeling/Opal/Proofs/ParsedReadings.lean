import Opal.Proofs.ParserRuns

/-!
# Parsed trees

From which tokens each rule of the grammar reads a tree, which nodes it makes, and how it fails.
-/

namespace Opal

open List Cursor

variable {kind : Kind} {α : Type} {source : String} {m : Module}

variable {m : Module} {source literal : String} {t : Token} {quote : Char} {form : ExprForm} {ts : List Token} {start : Span}
    {cause : SyntaxCause} {e : SyntaxError}

attribute [simp] inParens inBrackets UnaryOp.punct ExprForm.Grouped

/-! ### The parts of a tree as lists -/

lemma typeReadings_eq_map (ts : List TypeExpr) : typeReadings ts = ts.map TypeExpr.readings :=
  eq_map_of_cons rfl (fun _ _ => rfl) ts

lemma exprReadings_eq_map (es : List Expr) : exprReadings es = es.map Expr.readings :=
  eq_map_of_cons rfl (fun _ _ => rfl) es

lemma argumentReadings_eq_map (as : List Argument) : argumentReadings as = as.map Argument.readings :=
  eq_map_of_cons rfl (fun _ _ => rfl) as

lemma lambdaParamReadings_eq_map (ps : List LambdaParam) : lambdaParamReadings ps = ps.map LambdaParam.readings :=
  eq_map_of_cons rfl (fun _ _ => rfl) ps

lemma paramReadings_eq_map (ps : List Param) : paramReadings ps = ps.map Param.readings :=
  eq_map_of_cons rfl (fun _ _ => rfl) ps

lemma stmtReadings_eq_prod (ss : List Stmt) : stmtReadings ss = (ss.map Stmt.readings).prod := by
  induction ss with
  | nil => simp
  | cons s ss ih => simp [ih]

lemma declReadings_eq_prod (ds : List Decl) : declReadings ds = (ds.map Decl.readings).prod := by
  induction ds with
  | nil => rw [declReadings]; rfl
  | cons d ds ih => rw [declReadings, ih, map_cons, prod_cons]

@[simp] lemma TypeForm.nil_notMem_readings (f : TypeForm) : [] ∉ f.readings := by
  cases f <;> simp

lemma Expr.covers_of_mem {e : Expr} (h : ts ∈ e.readings) : e.span.Covers ts := by
  cases e
  exact h.2

@[simp] lemma Expr.nil_notMem_readings (e : Expr) : [] ∉ e.readings :=
  fun h => (Expr.covers_of_mem h).ne_nil rfl

@[simp] lemma Expr.span_respan (f : Span → Span) (e : Expr) : (e.respan f).span = f e.span := by
  cases e
  rfl

@[simp] lemma Block.nil_notMem_readings (b : Block) : [] ∉ b.readings := by
  cases b
  simp

@[simp] lemma Stmt.nil_notMem_readings (s : Stmt) : [] ∉ s.readings := by
  cases s
  simp

@[simp] lemma TypeExpr.nil_notMem_readings (t : TypeExpr) : [] ∉ t.readings := by
  cases t
  simp

@[simp] lemma LambdaParam.nil_notMem_readings (q : LambdaParam) : [] ∉ q.readings := by
  cases q
  simp

@[simp] lemma Param.nil_notMem_readings (q : Param) : [] ∉ q.readings := by
  cases q
  simp

@[simp] lemma Argument.nil_notMem_readings (a : Argument) : [] ∉ a.readings := by
  rcases a with ⟨_ | _,_,_⟩ <;> simp

lemma Decl.covers_of_mem {d : Decl} (h : ts ∈ d.readings) : d.span.Covers ts := by
  rcases d with ⟨⟨⟩⟩ | ⟨⟨⟩⟩ | ⟨⟨⟩⟩
  · rw [Decl.readings, VarDecl.readings] at h
    exact h.2
  · rw [Decl.readings, ConstDecl.readings] at h
    exact h.2
  · rw [Decl.readings, FunDecl.readings] at h
    exact h.2

@[simp] lemma Decl.nil_notMem_readings (d : Decl) : [] ∉ d.readings :=
  fun h => (Decl.covers_of_mem h).ne_nil rfl

lemma Decl.readings_le_covering (d : Decl) : d.readings ≤ covering d.span d.readings :=
  fun _ h => ⟨h,d.covers_of_mem h⟩

/-! ### What the rules say -/

open Parse

abbrev TypeExpr.spec : Spec TypeExpr :=
  .tree TypeExpr.readings TypeExpr.nodes TypeExpr.respan TypeExpr.Shaped

abbrev TypeForm.spec : Spec TypeForm :=
  .tree TypeForm.readings TypeForm.nodes TypeForm.respan TypeForm.Shaped

abbrev TypeExpr.specAfter (mark : Punct) : Spec (Option TypeExpr) :=
  .tree (readingsAfter mark) optionalTypeNodes respanOptionalType optionalTypeShaped

/-- An expression of which `Q` holds where the reader stops. -/
abbrev Expr.spec (Q : Expr → Cursor → Prop) : Spec Expr :=
  ⟨Expr.readings,Expr.nodes,Expr.respan,Q⟩

abbrev Block.spec : Spec Block :=
  .tree Block.readings Block.nodes Block.respan Block.Shaped

abbrev Stmt.spec (P : Stmt → Prop) : Spec Stmt :=
  .tree Stmt.readings Stmt.nodes Stmt.respan P

abbrev Decl.spec : Spec Decl :=
  .tree Decl.readings Decl.nodes Decl.respan Decl.Shaped

def Item.respan (f : Relabeling) (i : Item) : Item :=
  ⟨i.decl.respan f,f.place i.span⟩

abbrev Item.spec : Spec Item :=
  .tree (fun i => i.decl.readings) (fun i => i.decl.nodes) Item.respan fun i => i.decl.Shaped ∧ i.span = i.decl.span

def Module.respan (f : Relabeling) (m : Module) : Module :=
  ⟨m.decls.map (Decl.respan f),f.place m.span⟩

/-- A module that is read from `c` on, to the end of the input. -/
abbrev Module.spec (c : Cursor) : Spec Module :=
  ⟨Module.readings,Module.nodes,Module.respan,fun m c' => (m.Shaped ∧ ∃ t, c'.Next t ∧ t.kind = .eof) ∧
    ∃ t,c.Next t ∧ m.span = ⟨t.span.start,max c'.prevStop t.span.stop⟩⟩

lemma elementwise_types : Elementwise TypeExpr.readings TypeExpr.nodes TypeExpr.respan TypeExpr.Shaped typeReadings typeNodes
    respanTypes typesShaped :=
  ⟨by simp,by simp +contextual [typeNodes]⟩

lemma elementwise_exprs : Elementwise Expr.readings Expr.nodes Expr.respan Expr.Shaped exprReadings exprNodes respanExprs
    exprsShaped :=
  ⟨by simp,by simp +contextual [exprNodes]⟩

lemma elementwise_arguments : Elementwise Argument.readings Argument.nodes Argument.respan Argument.Shaped argumentReadings
    argumentNodes respanArguments argumentsShaped :=
  ⟨by simp,by simp +contextual [argumentNodes]⟩

lemma elementwise_lambdaParams : Elementwise LambdaParam.readings LambdaParam.nodes LambdaParam.respan LambdaParam.Shaped
    lambdaParamReadings lambdaParamNodes respanLambdaParams lambdaParamsShaped :=
  ⟨by simp,by simp +contextual [lambdaParamNodes]⟩

lemma elementwise_params : Elementwise Param.readings Param.nodes Param.respan Param.Shaped paramReadings paramNodes
    respanParams paramsShaped :=
  ⟨by simp,by simp +contextual [paramNodes]⟩

lemma successive_stmts : Successive Stmt.readings Stmt.nodes Stmt.respan Stmt.Shaped stmtReadings stmtNodes respanStmts
    stmtsShaped :=
  ⟨by simp,by simp +contextual [stmtNodes]⟩

lemma successive_items : Successive (fun i => i.decl.readings) (fun i => i.decl.nodes) Item.respan
    (fun i => i.decl.Shaped ∧ i.span = i.decl.span) (fun is => declReadings (is.map Item.decl))
    (·.flatMap fun i => i.decl.nodes) (fun f => List.map (Item.respan f)) fun is => ∀ i ∈ is, i.decl.Shaped :=
  ⟨by simp [declReadings],by simp +contextual [declReadings]⟩

/-! ### Single tokens as expressions -/

namespace Escape

open Computability

/-- What stands for a character between quotes is decoded to one, or is an escape without a meaning. -/
theorem decode_unit_append {unit : List Char} (h : unit ∈ quotedUnit quote) :
    (∃ d, ∀ cs, decode (unit ++ cs) = (decode cs).map (d :: ·)) ∨ ∃ d, ∀ cs, decode (unit ++ cs) = .error (.unknownEscape d) := by
  obtain ⟨c,hc,rfl⟩ | ⟨_,rfl,_,⟨c,-,rfl⟩,rfl⟩ := h
  · simp only [Bool.and_eq_true, bne_iff_ne, ne_eq] at hc
    exact .inl ⟨c,fun cs => by rw [singleton_append, decode] <;> simp [hc.2]⟩
  · cases hd : meaning? c with
    | some d => exact .inl ⟨d,fun cs => by simp [decode, hd]⟩
    | none => exact .inr ⟨c,fun cs => by simp [decode, hd]⟩

lemma unknown_of_decode {cs : List Char} (hcs : cs ∈ (quotedUnit quote)∗)
    (h : decode cs = .error cause) : ∃ c, cause = .unknownEscape c := by
  obtain ⟨units,rfl,hunits⟩ := Language.mem_kstar.1 hcs
  clear hcs
  induction units with
  | nil => cases h
  | cons unit units ih =>
    obtain ⟨hunit,hunits⟩ := forall_mem_cons.1 hunits
    rw [flatten_cons] at h
    obtain ⟨d,hd⟩ | ⟨d,hd⟩ := decode_unit_append hunit
    · exact ih hunits (eq_error_of_map ((hd _).symm.trans h))
    · cases (hd _).symm.trans h
      exact ⟨d,rfl⟩

lemma unquoted_of_mem {body : Language Char} (h : literal.toList ∈ quotedText quote body) : unquoted literal ∈ body := by
  obtain ⟨text,htext,hliteral⟩ := h
  rw [unquoted, hliteral]
  simpa using htext

lemma unknown_of_string (hliteral : (Kind.text .string literal).IsPlain)
    (h : string literal = .error cause) : ∃ c, cause = .unknownEscape c :=
  unknown_of_decode (unquoted_of_mem hliteral) (eq_error_of_map h)

lemma unknown_of_character (hliteral : (Kind.text .char literal).IsPlain)
    (h : character literal = .error cause) : ∃ c, cause = .unknownEscape c := by
  rw [character, ← append_nil (unquoted literal)] at h
  obtain ⟨d,hd⟩ | ⟨d,hd⟩ := decode_unit_append (unquoted_of_mem hliteral)
  · rw [hd] at h
    cases h
  · rw [hd] at h
    cases h
    exact ⟨d,rfl⟩

end Escape

namespace Rules

/-- A single token of this kind stands for an expression of this form. -/
structure IsAtom (kind : Kind) (form : ExprForm) : Prop where
  readings : token kind ≤ form.readings
  nodes : form.nodes = []
  shaped : form.Shaped
  grouped : form.Grouped
  base : ∀ id span, (⟨id,span,form⟩ : Expr).isBase
  respan : ∀ f, form.respan f = form

/-- Words and numbers are read as they stand, characters and strings are decoded. Apart from tokens that stand for nothing,
only escapes can be wrong. -/
theorem atomForm_cases (hplain : kind.IsPlain) : (∃ form, IsAtom kind form ∧ ∀ span, atomForm ⟨kind,span⟩ = .ok form) ∨
      ∃ cause, cause.isGrammatical = true ∧ ∀ span, atomForm ⟨kind,span⟩ = .error ⟨cause,span⟩ := by
  have stands (form : ExprForm) (hread : token kind ≤ form.readings) (hok : ∀ span, atomForm ⟨kind,span⟩ = .ok form)
      (hform : form.nodes = [] ∧ form.Shaped ∧ form.Grouped ∧ (∀ id span, (⟨id,span,form⟩ : Expr).isBase) ∧
        ∀ f, form.respan f = form) : ∃ form, IsAtom kind form ∧ ∀ span, atomForm ⟨kind,span⟩ = .ok form :=
    ⟨form,⟨hread,hform.1,hform.2.1,hform.2.2.1,hform.2.2.2.1,hform.2.2.2.2⟩,hok⟩
  cases kind with
  | text cls text =>
    cases cls with
    | identifier =>
      have hread : token (.text .identifier text) ≤ token (.ofWord text) := (congrArg token hplain).ge
      exact .inl (stands (.name text) (by simpa using hread) (fun _ => rfl) (by simp [Expr.isBase]))
    | decimal | hex | binary =>
      have hread : token (.text _ text) ≤ token (.ofLiteral text) := (congrArg token hplain).ge
      exact .inl (stands (.int text) (by simpa using hread) (fun _ => rfl) (by simp [Expr.isBase]))
    | char =>
      cases hread : Escape.character text with
      | ok c =>
        refine .inl (stands (.char c) ?_ (fun _ => ?_) (by simp [Expr.isBase]))
        · rintro _ ⟨span,rfl⟩
          exact ⟨text,span,rfl,hread⟩
        · simp [atomForm, hread, Except.mapError, Except.map]
      | error cause =>
        obtain ⟨e,rfl⟩ := Escape.unknown_of_character hplain hread
        exact .inr ⟨.unknownEscape e,rfl,fun _ => by simp [atomForm, hread, Except.mapError, Except.map]⟩
    | string =>
      cases hread : Escape.string text with
      | ok text' =>
        refine .inl (stands (.string text') ?_ (fun _ => ?_) (by simp [Expr.isBase]))
        · rintro _ ⟨span,rfl⟩
          exact ⟨text,span,rfl,hread⟩
        · simp [atomForm, hread, Except.mapError, Except.map]
      | error cause =>
        obtain ⟨e,rfl⟩ := Escape.unknown_of_string hplain hread
        exact .inr ⟨.unknownEscape e,rfl,fun _ => by simp [atomForm, hread, Except.mapError, Except.map]⟩
  | keyword k =>
    cases k with
    | trueK => exact .inl (stands (.bool true) (by simp [Kind.ofBool]) (fun _ => rfl) (by simp [Expr.isBase]))
    | falseK => exact .inl (stands (.bool false) (by simp [Kind.ofBool]) (fun _ => rfl) (by simp [Expr.isBase]))
    | _ => exact .inr ⟨_,rfl,fun _ => rfl⟩
  | punct p => exact .inr ⟨.expected .expression (.punct p),rfl,fun _ => rfl⟩
  | eof => exact .inr ⟨.expected .expression .eof,rfl,fun _ => rfl⟩

/-! ### The rules of the grammar -/

variable {V : Shift} {n : Nat} {c0 c : Cursor} {l : Language Token} {N : List Node}

lemma readsOn_base {form' : ExprForm} {span : Span} (h : l ≤ covering span form.readings ∧ N = form.nodes ∧ form.Shaped)
    (hgrouped : form.Grouped) (hform : form' = form.respan V.span) (hbase : ∀ id span, (⟨id,span,form⟩ : Expr).isBase) :
    ReadsOn V n c0 l N c (node form span) (node form' (V.span span)) (Expr.spec PrimaryRead) :=
  .node h.1 h.2.1 hgrouped hform rfl fun id _ _ => .of_isBase (by simpa using h.2.2) (hbase id span) _

lemma reads_atomRule : Reads V n atomRule atomRule (Expr.spec PrimaryRead) := by
  refine fun c => .advance (fun _ _ => ⟨.expected .expression .eof,rfl,rfl,rfl⟩) fun {c1 _} t _ hshows hplain _ => ?_
  obtain ⟨kind,span⟩ := t
  obtain ⟨form,hform,hok⟩ | ⟨cause,hcause,herror⟩ := atomForm_cases hplain
  · have hnode : ReadsOn V n c (1 * tokenAt kind span) [] c1 (node form span) (node form (V.span span))
        (Expr.spec PrimaryRead) := by
      refine readsOn_base ⟨?_,hform.nodes.symm,hform.shaped⟩ hform.grouped (hform.respan _).symm hform.base
      rw [one_mul]
      rintro _ rfl
      exact ⟨hform.readings ⟨span,rfl⟩,Token.covers ⟨kind,span⟩⟩
    dsimp only [Token.respan]
    rw [hok, hok]
    exact hnode
  · dsimp only [Token.respan]
    rw [herror, herror]
    exact .fail (hshows.blames hcause)

/-- Rules that return what they read from at most `n` tokens, and other rules that read the same from them at other places. -/
structure Faithful (V : Shift) (n : Nat) (rules rules' : Rules) : Prop where
  type : Reads V n rules.type rules'.type TypeExpr.spec
  expr : ∀ least, Reads V n (rules.expr least) (rules'.expr least) (Expr.spec (ExprRead least))
  unary : Reads V n rules.unary rules'.unary (Expr.spec OperandRead)
  block : Reads V n rules.block rules'.block Block.spec
  cond : Reads V n rules.cond rules'.cond (Stmt.spec fun s => s.Shaped ∧ s.isElseBranch = true)
  stmt : Reads V n rules.stmt rules'.stmt (Stmt.spec Stmt.Shaped)

lemma reads_refuse {S : Spec α} (what : Expected) : Reads V n (refuse what) (refuse what) S :=
  fun _ => .advance (fun _ _ => ⟨_,rfl,rfl,rfl⟩) fun _ _ hshows _ _ => .fail (hshows.blames rfl)

lemma reads_miss {S : Spec α} (hkind : kind.IsFixed) : Reads V n (miss kind) (miss kind) S := by
  refine fun c => .first hkind fun t hstarts _ hc => ⟨rfl,?_⟩
  obtain ⟨_,⟨span,rfl⟩,htakes⟩ := hc.taken
  exact .inr ⟨rfl,_,.inl (htakes.tokens ▸ mem_cons_self),(hstarts _ _ htakes.tokens).symm⟩

lemma faithful_atEnd : Faithful V n atEnd atEnd where
  type := reads_refuse _
  expr _ := reads_refuse _
  unary := reads_refuse _
  block := reads_miss (.punct .lbrace)
  cond := reads_miss (.keyword .ifK)
  stmt := reads_refuse _

section

variable {rules rules' : Rules} (hr : Faithful V n rules rules')
include hr

lemma reads_expr (least : Nat) : Reads V n (rules.expr least) (rules'.expr least)
    (.tree Expr.readings Expr.nodes Expr.respan Expr.Shaped) :=
  fun c => (hr.expr least c).mono fun _ _ _ he => he.shaped

/-! #### Types -/

lemma reads_optionalType (mark : Punct) : Reads V (n + 1) (optionally (.punct mark) rules.type)
    (optionally (.punct mark) rules'.type) (TypeExpr.specAfter mark) :=
  hr.type.optionally (.punct mark) ⟨by simp,by simp⟩

lemma reads_typeForm : Reads V (n + 1) rules.typeForm rules'.typeForm TypeForm.spec := by
  intro c
  refine .choose (.punct .lbracket) (.call hr.type (by simp) fun element helement => .expect (.punct .comma) ?_) ?_
  · refine .call (reads_expr hr 0) (by simp) fun size hsize => .expect (.punct .rbracket) (.pure ?_ rfl)
    simp [mul_assoc, helement, hsize]
  refine .choose (.punct .caret) (.read (reads_mark .mutK) fun mutable _ => .call hr.type (by simp) fun target ht => ?_) ?_
  · exact .pure (by simp [mul_assoc, ht]) rfl
  refine .choose (.keyword .defK) (.expect (.punct .lparen) ?_) ?_
  · refine .call (hr.type.sepUntil elementwise_types (by simp)) (by simp) fun params hparams => ?_
    refine .expect (.punct .rparen) (.read (reads_optionalType hr .arrow) fun ret hret => .pure ?_ rfl)
    simp [mul_assoc, hparams, hret]
  · refine (reads_word (f := fun name _ => TypeForm.named name) (fun _ _ => rfl) fun name span _ => ?_) c
    simpa using tokenAt_le_token _ span

lemma reads_typeRule : Reads V (n + 1) rules.typeRule rules'.typeRule TypeExpr.spec := by
  refine fun c => .peek fun start hstart => .read (reads_typeForm hr) fun form hform => ?_
  refine .span (hstart.opens (by simp)) fun span => .pure ?_ rfl
  simp [hform]

/-! #### Expressions in brackets, and lambdas -/

omit hr in
lemma looks_lambdaAhead : Looks lambdaAhead := by
  refine (looks_checkAt 1 _).bind fun _ => .ite (.pure _) ?_
  refine (looks_checkAt 1 _).bind fun _ => .ite (.pure _) ?_
  refine (looks_checkAt 2 _).bind fun _ => .ite (.pure _) ?_
  refine (looks_checkAt 2 _).bind fun _ => .ite (.pure _) ?_
  refine (looks_checkAt 2 _).bind fun _ => .ite (.pure _) ?_
  exact (looks_checkAt 3 _).bind fun _ => .ite (.pure _) (looks_checkAt 3 _)

lemma reads_lambdaParam : Reads V (n + 1) rules.lambdaParam rules'.lambdaParam
    (.tree LambdaParam.readings LambdaParam.nodes LambdaParam.respan LambdaParam.Shaped) := by
  refine fun c => .peek fun start hstart => .read reads_identifier fun name _ => ?_
  refine .read (reads_optionalType hr .colon) fun type htype => .span (hstart.opens (by simp)) fun span => .pure ?_ rfl
  simp [htype]

lemma reads_lambdaBody : Reads V n rules.lambdaBody rules'.lambdaBody ⟨LambdaBody.readings,LambdaBody.nodes,
    LambdaBody.respan,fun b c =>
    b.Shaped ∧ ((∃ block, b = .block block) ∨ ∀ e : Expr, e.Stops (fun _ => False) c.ahead)⟩ := by
  refine fun c => .glance (fun _ => .read hr.block fun b hb => .pure ?_ rfl) fun _ =>
    .readHere (hr.expr 0 c) fun e he => .pure ?_ rfl
  · simp [hb]
  · refine ⟨by simp,by simp,by simpa using he.shaped,.inr fun _ => ⟨he.stops.base,fun op hop => ?_⟩⟩
    exact absurd (he.stops.operator op hop).1 (Nat.not_lt_zero _)

lemma reads_lambdaRule : Reads V (n + 1) rules.lambdaRule rules'.lambdaRule (Expr.spec PrimaryRead) := by
  refine fun c => .first (.punct .lparen) fun start hstart => ?_
  refine .read ((reads_lambdaParam hr).sepUntil elementwise_lambdaParams (by simp)) fun params hparams => ?_
  refine .expect (.punct .rparen) (.read (reads_optionalType hr .arrow) fun ret hret => ?_)
  refine .expect (.punct .fatArrow) (.callHere (reads_lambdaBody hr) (by simp) fun body hbody => ?_)
  refine .span (hstart.opens (by simp)) fun span => .node ?_ ?_ trivial rfl rfl fun id c' hc' => ⟨?_,rfl,?_⟩
  · simp [mul_assoc]
  · simp
  · simp [hparams, hret, hbody.1]
  · obtain ⟨block,rfl⟩ | hstops := hbody.2
    · exact .inl rfl
    · rw [ahead_eq_of_tokens hc']
      exact .inr (hstops _)

lemma readsOn_parenRule (h : c.ahead.sameClass (.punct .lparen) = true) :
    ReadsOn V (n + 1) c 1 [] c rules.parenRule rules'.parenRule (Expr.spec PrimaryRead) := by
  refine .take (.punct .lparen) h fun start hstart => .call (reads_expr hr 0) (by simp) fun inner hinner => ?_
  refine .expect (.punct .rparen) (.span (hstart.opens (by simp)) fun span => readsOn_base ?_ trivial rfl fun _ _ => rfl)
  simp [mul_assoc, hinner]

lemma readsOn_arrayRule (hstart : c0.Starts start) :
    ReadsOn V (n + 1) c0 (1 * token (.punct .lbracket)) [] c (rules.arrayRule start) (rules'.arrayRule (V.span start))
      (Expr.spec PrimaryRead) := by
  refine .call ((reads_expr hr 0).sepUntil elementwise_exprs (by simp)) (by simp) fun elements helements => ?_
  refine .expect (.punct .rbracket) (.span (hstart.opens (by simp)) fun span => readsOn_base ?_ trivial rfl fun _ _ => rfl)
  simp [mul_assoc, helements]

lemma reads_primaryRule : Reads V (n + 1) rules.primaryRule rules'.primaryRule (Expr.spec PrimaryRead) := by
  refine fun c => .peek fun start hstart => .glance (fun h => ?_) fun _ => ?_
  · exact .look looks_lambdaAhead fun _ => .ite (reads_lambdaRule hr c) (readsOn_parenRule hr h)
  · exact .choose (.punct .lbracket) (readsOn_arrayRule hr hstart.starts) (reads_atomRule c)

/-! #### Operators -/

omit hr in
lemma looks_nameAndColonAhead : Looks nameAndColonAhead :=
  (looks_checkAt 0 _).bind fun _ => .ite (looks_checkAt 1 _) (.pure _)

lemma reads_argumentRule : Reads V n rules.argumentRule rules'.argumentRule
    (.tree Argument.readings Argument.nodes Argument.respan Argument.Shaped) := by
  have hname : Reads V n argumentName argumentName
      (.text fun name => name.elim 1 fun name => token (.ofWord name) * token (.punct .colon)) := by
    refine fun c => .look looks_nameAndColonAhead fun _ => .ite ?_ (.pure (by simp) rfl)
    exact .read reads_identifier fun name _ => .expect (.punct .colon) (.pure (by simp) rfl)
  refine fun c => .peek fun start hstart => .read hname fun name _ => .read (reads_expr hr 0) fun value hvalue => ?_
  refine .span (hstart.opens (by simp)) fun span => .pure ?_ rfl
  cases name <;> simp [mul_assoc, hvalue]

/-- A call, an index or a dereference extends the expression before it. The three ways to go on differ in the form alone. -/
theorem readsOn_postfixStep (e : Expr) (he : PrimaryRead e c) : ReadsOn V (n + 1) c0 e.readings e.nodes c (rules.postfixStep e)
    (rules'.postfixStep (e.respan V.span)) ((Expr.spec PrimaryRead).step OperandRead e c) := by
  have longer {c1 : Cursor} {l : Language Token} {N : List Node} {form : ExprForm}
      (hlt : c1.tokens.length < c.tokens.length) (hl : e.readings * l ≤ form.readings) (hN : N = form.nodes)
      (hshaped : form.Shaped) (hgrouped : form.Grouped) (hbase : ∀ id span, (⟨id,span,form⟩ : Expr).isBase) :
      ReadsOn V (n + 1) c0 (e.readings * l) N c1 (do return some (← node form (← spanSince e.span)))
        (do return some (← node (form.respan V.span) (← spanSince (e.respan V.span).span)))
        ((Expr.spec PrimaryRead).step OperandRead e c) := by
    rw [e.span_respan]
    refine .span (opens_of_covers fun _ => e.covers_of_mem) fun span => ?_
    refine .bind (S := Expr.spec fun e' c' => PrimaryRead e' c' ∧ c'.tokens.length < c.tokens.length) ?_ fun e' he' => ?_
    · refine .node (fun ts hts => ⟨hl hts.1,hts.2⟩) hN hgrouped rfl rfl fun id c' hc' => ?_
      refine ⟨.of_isBase ?_ (hbase id span) _,hc' ▸ hlt⟩
      simpa using hshaped
    · exact .pure ⟨le_rfl,rfl,he'⟩ rfl
  have base {p : Punct} (hp : (Kind.punct p).opensPostfix) (h : c.ahead.sameClass (.punct p) = true) : e.isBase :=
    he.isBase (by rwa [(Kind.IsFixed.punct p).unique _ h])
  refine .choose (.punct .lparen) (fun {_ hlt h} => ?_) fun {hparen} => ?_
  · refine .call ((reads_argumentRule hr).sepUntil elementwise_arguments (by simp)) (by simp) fun args hargs => ?_
    refine .expect (.punct .rparen) ?_
    simp only [mul_assoc]
    refine longer (by omega) ?_ ?_ ?_ (base rfl h) fun _ _ => rfl
    · simp
    · simp
    · simp [he.shaped, hargs]
  refine .choose (.punct .lbracket) (fun {_ hlt h} => ?_) fun {hbracket} => ?_
  · refine .call (reads_expr hr 0) (by simp) fun index hindex => .expect (.punct .rbracket) ?_
    simp only [mul_assoc]
    refine longer (by omega) ?_ ?_ ?_ (base rfl h) fun _ _ => rfl
    · simp
    · simp
    · simp [he.shaped, hindex]
  refine .choose (.punct .caret) (fun {_ hlt h} => ?_) fun {hcaret} => ?_
  · refine longer hlt ?_ ?_ ?_ (base rfl h) fun _ _ => rfl
    · simp
    · simp
    · simp [he.shaped]
  · exact .pure ⟨le_rfl,rfl,he.stop (opensPostfix_eq_false hparen hbracket hcaret)⟩ rfl

/-- A token of this kind in front of an operand makes an operand of this form. -/
structure IsOperator (kind : Kind) (form : Expr → ExprForm) : Prop where
  readings : ∀ e, (form e).readings = token kind * e.readings
  nodes : ∀ e, (form e).nodes = e.nodes
  shaped : ∀ e, (form e).Shaped ↔ e.Shaped
  grouped : ∀ e, e.isOperand → (form e).Grouped
  operand : ∀ e id span, (⟨id,span,form e⟩ : Expr).isOperand
  ends : ∀ e, (form e).endsInLambda = e.endsInLambda
  respan : ∀ f e, form (e.respan f) = (form e).respan f

omit hr in
lemma isOperator_unary (op : UnaryOp) : IsOperator (.punct op.punct) (.unary op) := by
  constructor <;> simp [Expr.isOperand, ExprForm.endsInLambda]

omit hr in
lemma isOperator_addressOf : IsOperator (.punct .amp) .addressOf := by
  constructor <;> simp [Expr.isOperand, ExprForm.endsInLambda]

lemma readsOn_operator {start : Token} (hstart : c0.Starts start.span) {form : Expr → ExprForm} (hform : IsOperator kind form) :
    ReadsOn V (n + 1) c0 (1 * token kind) [] c (rules.unary >>= fun e => node (form e) (start.span.cover e.span))
      (rules'.unary >>= fun e => node (form e) ((V.span start.span).cover e.span)) (Expr.spec OperandRead) := by
  refine .callHere hr.unary (by simp) fun e he => .of_taken (fun ts hc htakes hts => ?_)
    (.node le_rfl (hform.nodes e).symm (hform.grouped e he.operand) (hform.respan _ e)
      (by rw [V.span_cover, ← e.span_respan V.span]) fun id c' hc' => ?_)
  · rw [one_mul] at hts
    refine ⟨by rwa [hform.readings],?_⟩
    obtain ⟨_,⟨span,rfl⟩,us,hus,rfl⟩ := Language.mem_mul.1 hts
    rw [← hstart _ _ htakes.tokens]
    exact (Token.covers _).cover [] (e.covers_of_mem hus) (htakes.order hc)
  · refine ⟨by simpa using (hform.shaped e).2 he.shaped,hform.operand e id _,?_⟩
    rw [ahead_eq_of_tokens hc']
    exact he.stops.of_eq (by rw [Expr.endsInLambda, hform.ends]) fun _ hop => hop

lemma reads_unaryRule : Reads V (n + 1) rules.unaryRule rules'.unaryRule (Expr.spec OperandRead) := by
  refine fun c => .peek fun start hstart => ?_
  refine .choose (.punct .minus) (readsOn_operator hr hstart.starts (isOperator_unary .neg)) ?_
  refine .choose (.punct .bang) (readsOn_operator hr hstart.starts (isOperator_unary .not)) ?_
  refine .choose (.punct .amp) (readsOn_operator hr hstart.starts isOperator_addressOf) ?_
  exact (reads_primaryRule hr).extend (fun e => readsOn_postfixStep hr e) c

omit hr in
lemma kind_of_ofKind? {op : BinaryOp} (h : BinaryOp.ofKind? kind = some op) : kind = .punct op.punct := by
  unfold BinaryOp.ofKind? at h
  split at h <;> cases h <;> rfl

/-- A binary operator and its right operand extend the expression before them. -/
theorem readsOn_binaryStep (least : Nat) (left : Expr) (hleft : LeftRead least left c) :
    ReadsOn V (n + 1) c0 left.readings left.nodes c (rules.binaryStep least left)
      (rules'.binaryStep least (left.respan V.span)) ((Expr.spec (LeftRead least)).step (ExprRead least) left c) := by
  have stop (h : ∀ op, BinaryOp.ofKind? c.ahead = some op → op.precedence < least) :
      ReadsOn V (n + 1) c0 left.readings left.nodes c (pure none) (pure none)
        ((Expr.spec (LeftRead least)).step (ExprRead least) left c) :=
    .pure ⟨le_rfl,rfl,hleft.stop h⟩ rfl
  refine .peek fun t ht => ?_
  rw [Token.respan, ht.kind]
  split
  · next hnone => exact stop (by simp [hnone])
  next op hop =>
  split
  · next hlt =>
    refine stop fun op' hop' => ?_
    rw [hop] at hop'
    cases hop'
    exact hlt
  next hle =>
  refine .take (.punct op.punct) (by rw [kind_of_ofKind? hop]; simp) fun {c1 hlt} _ _ => ?_
  refine .callHere (hr.expr _) (by simp) fun {c2 hle'} right hright => ?_
  refine .bind (S := Expr.spec fun e c' => LeftRead least e c' ∧ c'.tokens.length < c.tokens.length)
    (.of_taken (fun ts hc htakes hts => ?_) (.node le_rfl ?_ (hleft.grouped hop hright) rfl
      (by rw [V.span_cover, ← left.span_respan V.span, ← right.span_respan V.span]) fun id c' hc' => ⟨?_,?_⟩))
    fun e he => .pure ⟨le_rfl,rfl,he⟩ rfl
  · rw [mul_assoc] at hts
    -- The span of the operation is the one around its operands, with the operator in between.
    refine ⟨by rwa [ExprForm.readings],?_⟩
    obtain ⟨us,hus,_,hmore,rfl⟩ := Language.mem_mul.1 hts
    obtain ⟨ms,-,vs,hvs,rfl⟩ := Language.mem_mul.1 hmore
    exact (left.covers_of_mem hus).cover ms (right.covers_of_mem hvs) (htakes.order hc)
  · simp
  · exact hleft.binary hle ⟨hright.shaped,hright.binds,ahead_eq_of_tokens hc' ▸ hright.stops⟩ id _
  · rw [hc']
    omega

lemma reads_leftOperand (least : Nat) : Reads V (n + 1) rules.unaryRule rules'.unaryRule (Expr.spec (LeftRead least)) :=
  fun c => (reads_unaryRule hr c).mono fun _ _ _ he => he.left least

lemma reads_exprRule (least : Nat) :
    Reads V (n + 1) (rules.exprRule least) (rules'.exprRule least) (Expr.spec (ExprRead least)) :=
  (reads_leftOperand hr least).extend fun e => readsOn_binaryStep hr least e

/-! #### Declarations -/

lemma reads_varRule : Reads V (n + 1) rules.varRule rules'.varRule
    (.tree VarDecl.readings VarDecl.nodes VarDecl.respan VarDecl.Shaped) := by
  refine fun c => .first (.keyword .letK) fun start hstart => .read (reads_mark .mutK) fun mutable _ => ?_
  refine .read reads_bindingName fun name _ => .read (reads_optionalType hr .colon) fun type htype => ?_
  refine .expect (.punct .assign) (.call (reads_expr hr 0) (by simp) fun init hinit => .expect (.punct .semi) ?_)
  refine .declare (d := .var) (hstart.opens (by simp)) (fun _ _ => rfl) (fun _ _ => rfl) fun id span => ?_
  simp [mul_assoc, htype, hinit]

lemma reads_constRule : Reads V (n + 1) rules.constRule rules'.constRule
    (.tree ConstDecl.readings ConstDecl.nodes ConstDecl.respan ConstDecl.Shaped) := by
  refine fun c => .first (.keyword .constK) fun start hstart => .read reads_bindingName fun name _ => ?_
  refine .read (reads_optionalType hr .colon) fun type htype => .expect (.punct .assign) ?_
  refine .call (reads_expr hr 0) (by simp) fun value hvalue => .expect (.punct .semi) ?_
  refine .declare (d := .const) (hstart.opens (by simp)) (fun _ _ => rfl) (fun _ _ => rfl) fun id span => ?_
  simp [mul_assoc, htype, hvalue]

lemma reads_paramRule : Reads V (n + 1) rules.paramRule rules'.paramRule
    (.tree Param.readings Param.nodes Param.respan Param.Shaped) := by
  refine fun c => .peek fun start hstart => .read (reads_mark .anonK) fun anonymous _ => ?_
  refine .read (reads_mark .mutK) fun mutable _ => .read reads_bindingName fun name _ => ?_
  refine .expect (.punct .colon) (.call hr.type (by simp) fun type htype => ?_)
  refine .span (hstart.opens (by simp)) fun span => .pure ⟨?_,by simp,by simpa using htype⟩ rfl
  simp only [Param.readings, one_mul, mul_assoc]
  refine fun ts hts => ⟨?_,hts.2⟩
  exact mul_le_mul' le_rfl (mul_le_mul' le_rfl (mul_le_mul' (tokenAt_le_token _ _) le_rfl)) hts.1

lemma reads_funRule : Reads V (n + 1) rules.funRule rules'.funRule
    (.tree FunDecl.readings FunDecl.nodes FunDecl.respan FunDecl.Shaped) := by
  refine fun c => .first (.keyword .defK) fun start hstart => .read reads_bindingName fun name _ => ?_
  refine .expect (.punct .lparen) (.read ((reads_paramRule hr).sepUntil elementwise_params (by simp)) fun params hparams => ?_)
  refine .expect (.punct .rparen) (.read (reads_optionalType hr .arrow) fun ret hret => ?_)
  refine .call hr.block (by simp) fun body hbody => ?_
  refine .declare (d := .func) (hstart.opens (by simp)) (fun _ _ => rfl) (fun _ _ => rfl) fun id span => ?_
  simp [mul_assoc, hparams, hret, hbody]

lemma reads_declRule : Reads V (n + 1) rules.declRule rules'.declRule Decl.spec := by
  refine fun c => .glance (fun _ => .read (reads_varRule hr) fun d hd => .pure (by simp [hd]) rfl) fun _ => ?_
  refine .glance (fun _ => .read (reads_constRule hr) fun d hd => .pure (by simp [hd]) rfl) fun _ => ?_
  refine .glance (fun _ => .read (reads_funRule hr) fun d hd => .pure (by simp [hd]) rfl) fun _ => ?_
  exact reads_refuse _ c

/-- The span of an item is that of its declaration: both cover the tokens that were taken. -/
theorem reads_itemRule : Reads V (n + 1) rules.itemRule rules'.itemRule Item.spec := by
  intro c
  have hitem : ReadsOn V (n + 1) c 1 [] c rules.itemRule rules'.itemRule
      ⟨fun i => covering i.span i.decl.readings,Item.spec.nodes,Item.spec.moved,fun i _ => i.decl.Shaped⟩ :=
    .peek fun start hstart => .read (reads_declRule hr) fun d hd => .span (hstart.opens (by simp)) fun span =>
      .pure (by simp [hd]) rfl
  refine hitem.imp fun i c' hread hi => ?_
  obtain ⟨ts,⟨hts,hcovers⟩,-⟩ := hread.taken
  exact ⟨hread.imp fun _ _ _ h => h.1,hi,hcovers.unique (i.decl.covers_of_mem hts)⟩

/-! #### Statements -/

lemma reads_blockRule : Reads V (n + 1) rules.blockRule rules'.blockRule Block.spec := by
  refine fun c => .first (.punct .lbrace) fun start hstart => ?_
  refine .callHere (hr.stmt.many (by simp) successive_stmts (by simp)) (by simp) fun ss hss => ?_
  refine .expect (.punct .rbrace) (.span (hstart.opens (by simp)) fun span => .pure ?_ rfl)
  simp [mul_assoc, hss.1]

lemma reads_elseBranch : Reads V n rules.elseBranch rules'.elseBranch
    (Stmt.spec fun s => s.Shaped ∧ s.isElseBranch = true) := by
  refine fun c => .glance (fun _ => hr.cond c) fun _ => .peek fun start hstart => .read hr.block fun b hb => ?_
  refine .span (hstart.opens (by simp)) fun span => .pure ?_ rfl
  simp [Stmt.isElseBranch, hb]

lemma reads_condRule : Reads V (n + 1) rules.condRule rules'.condRule
    (Stmt.spec fun s => s.Shaped ∧ s.isElseBranch = true) := by
  have hother : Reads V (n + 1) (optionally (.keyword .elseK) rules.elseBranch) (optionally (.keyword .elseK) rules'.elseBranch)
      (.tree (fun o => o.elim 1 fun s => token (.keyword .elseK) * s.readings) (fun o => o.elim [] Stmt.nodes)
      (fun f => Option.map (Stmt.respan f)) fun o => ∀ s ∈ o, s.Shaped ∧ s.isElseBranch = true) :=
    (reads_elseBranch hr).optionally (.keyword .elseK) ⟨by simp,by simp⟩
  refine fun c => .first (.keyword .ifK) fun start hstart => .call (reads_expr hr 0) (by simp) fun condition hcondition => ?_
  refine .call hr.block (by simp) fun block hblock => .read hother fun other hother => ?_
  refine .span (hstart.opens (by simp)) fun span => ?_
  cases other with
  | none => exact .pure (by simp [Stmt.isElseBranch, mul_assoc, hcondition, hblock]) rfl
  | some s =>
    obtain ⟨hs,helse⟩ := hother s rfl
    refine .pure ⟨?_,?_,?_,rfl⟩ rfl <;> simp [mul_assoc, hcondition, hblock, hs, helse]

omit hr in
lemma looks_declarationAhead : Looks declarationAhead := by
  refine (looks_checkAt 0 _).bind fun _ => .ite (.pure _) ?_
  refine (looks_checkAt 0 _).bind fun _ => .ite (.pure _) ?_
  refine (looks_checkAt 0 _).bind fun _ => .ite (.pure _) ?_
  exact (looks_checkAt 1 _).bind fun _ => .pure _

lemma reads_returnValue : Reads V n rules.returnValue rules'.returnValue (.tree (fun value => value.elim 1 Expr.readings)
    (fun value => value.elim [] Expr.nodes) (fun f => Option.map (Expr.respan f)) fun value => ∀ e ∈ value, e.Shaped) :=
  fun c => .glance (fun _ => .pure (by simp) rfl) fun _ => .read (reads_expr hr 0) fun e he => .pure (by simp [he]) rfl

lemma readsOn_simpleStmt (hstart : c.Starts start) : ReadsOn V (n + 1) c 1 [] c (rules.simpleStmt start)
    (rules'.simpleStmt (V.span start)) (Stmt.spec Stmt.Shaped) := by
  refine .readHere (reads_exprRule hr 0 c) fun e he => .choose (.punct .assign) ?_ ?_
  · refine .call (reads_expr hr 0) (by simp) fun value hvalue => .expect (.punct .semi) ?_
    refine .span (hstart.opens (by simp)) fun span => .pure ?_ rfl
    simp [mul_assoc, he.shaped, hvalue]
  · refine .expect (.punct .semi) (.span (hstart.opens (by simp)) fun span => .pure ?_ rfl)
    simp [he.shaped]

lemma reads_stmtRule : Reads V (n + 1) rules.stmtRule rules'.stmtRule (Stmt.spec Stmt.Shaped) := by
  refine fun c => .peek fun start hstart => .look looks_declarationAhead fun _ => .ite ?_ ?_
  · refine .read (reads_itemRule hr) fun i hi => .pure ⟨?_,by simp,by simpa using hi.1⟩ rfl
    simpa [hi.2] using i.decl.readings_le_covering
  refine .choose (.keyword .returnK) (.call (reads_returnValue hr) (by simp) fun value hvalue => .expect (.punct .semi) ?_) ?_
  · refine .span (hstart.opens (by simp)) fun span => ?_
    cases value with
    | none => exact .pure (by simp) rfl
    | some e => exact .pure (by simp [mul_assoc, hvalue e rfl]) rfl
  refine .glance (fun _ => (reads_condRule hr c).mono fun _ _ _ hs => hs.1) fun _ => ?_
  refine .choose (.keyword .whileK) (.call (reads_expr hr 0) (by simp) fun condition hcondition => .call hr.block (by simp) ?_) ?_
  · refine fun body hbody => .span (hstart.opens (by simp)) fun span => .pure ?_ rfl
    simp [mul_assoc, hcondition, hbody]
  refine .glance (fun _ => .read (reads_blockRule hr) fun b hb => ?_) fun _ => readsOn_simpleStmt hr hstart.starts
  refine .span (hstart.opens (by simp)) fun span => .pure ?_ rfl
  simp [hb]

/-! #### All rules together -/

lemma Faithful.step : Faithful V (n + 1) rules.step rules'.step where
  type := reads_typeRule hr
  expr := reads_exprRule hr
  unary := reads_unaryRule hr
  block := reads_blockRule hr
  cond := reads_condRule hr
  stmt := reads_stmtRule hr

/-- A module is read up to the end of the input. -/
theorem reads_moduleRule (c : Cursor) : ReadsOn V (n + 1) c 1 [] c rules.moduleRule rules'.moduleRule (Module.spec c) := by
  refine .peek fun t ht => .readHere ((reads_itemRule hr).many (by simp) successive_items (by simp) c) fun is his => ?_
  obtain ⟨his,u,hu,hclose⟩ := his
  have heof : u.kind = .eof := by
    cases hkind : u.kind <;> simp_all [Kind.sameClass]
  have hshaped : ∀ d ∈ is.map Item.decl, d.Shaped := by simpa using his
  refine .since (.pure ⟨by rw [one_mul]; rfl,?_,⟨hshaped,u,hu,heof⟩,t,ht,rfl⟩ ?_)
  · simp [Module.nodes, flatMap_map]
  · simp [Module.respan, Item.respan]

end

lemma faithful_within : ∀ n, Faithful V n (within n) (within n)
  | 0 => faithful_atEnd
  | n + 1 => (faithful_within n).step

end Rules

/-! ### Modules -/

lemma Rules.ends_moduleRule (V : Shift) (source : String) :
    Ends V (ofSource source) (Module.spec (ofSource source))
      ((within (ofSource source).tokens.length).moduleRule (ofSource source))
      ((within (ofSource source).tokens.length).moduleRule (V.cursor (ofSource source))) :=
  reads_moduleRule (faithful_within _) _ (Nat.le_succ _) (.refl (sane_ofSource source))

structure Module.Parsed (source : String) (m : Module) : Prop where
  readings : (ofSource source).tokens ∈ m.readings
  ending : ∃ t, (ofSource source).ending = .ok t
  numbered : m.nodes.map Node.id = List.range m.nodes.length
  groups : Groups m.nodes
  shaped : m.Shaped
  span : ∃ t, (ofSource source).Next t ∧ m.span = ⟨t.span.start,
    max ((ofSource source).tokens.getLast?.elim 0 fun u => u.span.stop) t.span.stop⟩

/-- A source text that is parsed is read to its end. -/
theorem Module.parsed_of_parse (h : Module.parse source = .ok m) : m.Parsed source := by
  have hends := Rules.ends_moduleRule .id source
  rw [Module.parse, onSource, StateT.run] at h
  cases hrun : (Rules.within (ofSource source).tokens.length).moduleRule (ofSource source) with
  | error e => rw [hrun] at h; cases h
  | ok r =>
    rw [hrun] at h hends
    cases h
    obtain ⟨-,hread,⟨hshaped,t,hnext,heof⟩,u,hu,hspan⟩ := hends
    obtain ⟨hnil,ht⟩ := hnext.at_end hread.here heof
    obtain ⟨ts,hts,htakes⟩ := hread.taken
    have htokens : (ofSource source).tokens = ts := by rw [htakes.tokens, hnil, append_nil]
    refine ⟨htokens ▸ hts,⟨t,htakes.ending ▸ ht⟩,?_,hread.groups,hshaped,u,hu,?_⟩
    · -- The first node of a module gets the number zero.
      rw [hread.numbered, range_eq_range']
      rfl
    · rw [hspan, htakes.prevStop, htokens]
      rfl

/-- A source text is parsed, or it is to blame for the error. -/
theorem Module.blames_of_parse (h : Module.parse source = .error e) : (ofSource source).Blames e := by
  have hends := Rules.ends_moduleRule .id source
  rw [Module.parse, onSource, StateT.run] at h
  cases hrun : (Rules.within (ofSource source).tokens.length).moduleRule (ofSource source) with
  | ok r => rw [hrun] at h; cases h
  | error f =>
    rw [hrun] at h hends
    cases h
    exact hends.2

section

variable (h : Module.parse source = .ok m)
include h

/-- The numbers of a parsed module are those from zero on, and after `else` stands a conditional or a block. -/
theorem Module.numbered_of_parse : m.ids = List.range m.ids.length ∧ m.Shaped := by
  have hm := Module.parsed_of_parse h
  refine ⟨?_,hm.shaped⟩
  rw [length_map]
  exact hm.numbered

/-- No two nodes of a parsed module have one number. -/
theorem Module.nodup_of_parse : (m.nodes.map Node.id).Nodup := by
  rw [(Module.parsed_of_parse h).numbered]
  exact nodup_range

/-- A source text that is parsed is read to its end, and what is read is one of the token sequences of its tree. -/
theorem Module.mem_readings_of_parse :
    (ofSource source).tokens ∈ m.readings ∧ ∃ t, (ofSource source).ending = .ok t :=
  ⟨(Module.parsed_of_parse h).readings,(Module.parsed_of_parse h).ending⟩

end

/-- Nothing is lost, added or moved: the tokens of a source text that is parsed are one of the token sequences of its
tree. -/
theorem Module.tokens_of_parse (h : Module.parse source = .ok m) :
    ∃ ts, tokenize source = .ok (ts ++ [endOfInput source]) ∧ ts ∈ m.readings := by
  obtain ⟨hmem,t,hending⟩ := Module.mem_readings_of_parse h
  exact ⟨_,tokenize_ofSource hending,hmem⟩

/-- A source text with commas at the ends of lists and with escapes. -/
theorem Module.tokens_of_parse_commas : ∃ m ts,
    Module.parse "def f(a: def(u8,), b: u8,) \x7b let s = [\"\\n\", (x) => x,]; f('\\'', b,); \x7d" = .ok m ∧
      tokenize "def f(a: def(u8,), b: u8,) \x7b let s = [\"\\n\", (x) => x,]; f('\\'', b,); \x7d" =
        .ok (ts ++ [endOfInput "def f(a: def(u8,), b: u8,) \x7b let s = [\"\\n\", (x) => x,]; f('\\'', b,); \x7d"]) ∧
      ts ∈ m.readings := by
  obtain ⟨m,hm,-⟩ := Module.exists_of_test
    "def f(a: def(u8,), b: u8,) \x7b let s = [\"\\n\", (x) => x,]; f('\\'', b,); \x7d" (fun _ => true)
    (by decide +kernel)
  obtain ⟨ts,hts,hmem⟩ := Module.tokens_of_parse hm
  exact ⟨m,ts,hm,hts,hmem⟩

/-- All expressions of a parsed module are grouped by precedence and need no parentheses. -/
theorem Module.grouped_of_parse (h : Module.parse source = .ok m) {e : Expr} (he : Node.expr e ∈ m.nodes) : e.form.Grouped :=
  (Module.parsed_of_parse h).groups e he

/-- Operators of several precedences, with a lambda without braces at the end. -/
theorem Module.grouped_of_parse_lambda : ∃ m e,
    Module.parse "const c = -a * (b - 1)[2] + !f(x: 1)^ - (x) => x + 1;" = .ok m ∧ Node.expr e ∈ m.nodes ∧
      (!e.isOperand && e.endsInLambda) ∧ e.form.Grouped := by
  obtain ⟨m,hm,htest⟩ := Module.exists_of_test "const c = -a * (b - 1)[2] + !f(x: 1)^ - (x) => x + 1;"
    (fun m => m.nodes.any (Node.isExpr fun e => !e.isOperand && e.endsInLambda)) (by decide +kernel)
  obtain ⟨e,he,hends⟩ := exists_expr_of_any htest
  exact ⟨m,e,hm,he,hends,Module.grouped_of_parse hm he⟩

end Opal
