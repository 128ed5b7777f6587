import Opal.Proofs.ParsedReadings

/-!
# Reading back printed trees

The tokens of a printable tree are read back as that tree, under conditions on what comes next. An expression is read along its
spine: the leftmost operand, and then one operator after the other.
-/

namespace Opal

open Kind Parse

variable {e : Expr} {k l : Kind} {ks : List Kind} {least : Nat} {id : NodeId} {span : Span} {s : Stmt} {name : String}
    {a : Argument} {op : BinaryOp} {R : BinaryOp → Prop} {Q : Expr → List Kind → Prop} {P : Kind → Bool} {body : LambdaBody}
    {params : List LambdaParam} {ret : Option TypeExpr} {q : Param} {t : TypeExpr}

/-- On the tokens `ks`, before `rest`, the parser gives `x` up to numbers and spans, and takes no more. -/
def Parse.ReadsBack {α : Type} (p : Parse α) (bare : α → α) (x : α) (ks rest : List Kind) : Prop :=
  Accepts p (ks ++ rest) fun a ls => bare a = bare x ∧ ls = rest

/-! ### How trees start -/

namespace Kind

/-- Whether a written type may start with a token of this kind. -/
def opensType : Kind → Bool
  | .text .identifier _ | .keyword .trueK | .keyword .falseK | .keyword .defK => true
  | .punct .lbracket | .punct .caret => true
  | _ => false

/-- Whether an expression without a unary operator in front may start with a token of this kind. -/
def opensPrimary : Kind → Bool
  | .text _ _ | .keyword .trueK | .keyword .falseK => true
  | .punct .lparen | .punct .lbracket => true
  | _ => false

def opensExpr (k : Kind) : Bool :=
  k.opensPrimary || k == .punct .minus || k == .punct .bang || k == .punct .amp

def opensStmt (k : Kind) : Bool :=
  k.opensExpr || k == .keyword .letK || k == .keyword .constK || k == .keyword .defK || k == .keyword .returnK ||
    k == .keyword .ifK || k == .keyword .whileK || k == .punct .lbrace

/-- Whether a token of this kind makes the expression before it longer. -/
def extendsExpr (k : Kind) : Bool :=
  k.opensPostfix || (BinaryOp.ofKind? k).isSome

/-- Whether no expression goes on with a token of this kind. -/
def closesExpr : Kind → Bool
  | .punct .rparen | .punct .rbracket | .punct .lbrace | .punct .comma | .punct .semi | .punct .assign => true
  | _ => false

lemma sameClass_eq_false (hP : ∀ c s t, P (.text c s) = P (.text c t))
    (hk : P k = true) (hl : P l = false) : k.sameClass l = false := by
  refine Bool.eq_false_iff.2 fun h => ?_
  cases k <;> cases l <;> simp only [sameClass, beq_iff_eq, Bool.false_eq_true] at h
  case keyword.keyword => subst h; simp [hk] at hl
  case punct.punct => subst h; simp [hk] at hl
  case text.text c s d t => subst h; simp [hP c s t, hl] at hk
  case eof.eof => simp [hk] at hl

lemma opensType.ne (hk : k.opensType) (hl : l.opensType = false) : k.sameClass l = false :=
  sameClass_eq_false (fun c _ _ => by cases c <;> rfl) hk hl

lemma opensPrimary.ne (hk : k.opensPrimary) (hl : l.opensPrimary = false) : k.sameClass l = false :=
  sameClass_eq_false (fun _ _ _ => rfl) hk hl

lemma opensExpr.ne (hk : k.opensExpr) (hl : l.opensExpr = false) : k.sameClass l = false :=
  sameClass_eq_false (fun _ _ _ => rfl) hk hl

lemma opensStmt.ne (hk : k.opensStmt) (hl : l.opensStmt = false) : k.sameClass l = false :=
  sameClass_eq_false (fun _ _ _ => rfl) hk hl

lemma extendsExpr.ne (hk : k.extendsExpr) (hl : l.extendsExpr = false) : k.sameClass l = false :=
  sameClass_eq_false (fun _ _ _ => rfl) hk hl

lemma ofWord_of_isDeclarable (h : isDeclarable name) :
    ofWord name = .text .identifier name ∨ (ofWord name = .keyword .trueK ∧ name = "true") ∨
      (ofWord name = .keyword .falseK ∧ name = "false") := by
  simp only [isDeclarable, Bool.or_eq_true, beq_iff_eq] at h
  obtain (h | rfl) | rfl := h
  · exact .inl (ofWord_of_isIdentifier h)
  · exact .inr (.inl ⟨by decide,rfl⟩)
  · exact .inr (.inr ⟨by decide,rfl⟩)

lemma opensType_ofWord (h : isDeclarable name) : (ofWord name).opensType := by
  obtain h | ⟨h,-⟩ | ⟨h,-⟩ := ofWord_of_isDeclarable h <;> rw [h] <;> rfl

lemma ofLiteral_eq (digits : String) : ofLiteral digits = .text .hex digits ∨ ofLiteral digits = .text .binary digits ∨
      ofLiteral digits = .text .decimal digits := by
  unfold ofLiteral
  split
  · exact .inl rfl
  · exact .inr (.inl rfl)
  · exact .inr (.inr rfl)

end Kind

lemma TypeExpr.opens (h : t.Printable) (ls : List Kind) : (kindAhead (t.spelling ++ ls)).opensType := by
  obtain ⟨span,form⟩ := t
  cases form with
  | named name =>
    simpa [TypeForm.spelling] using opensType_ofWord h
  | array element size => simp [TypeForm.spelling, bracketed, opensType]
  | reference mutable target | function params ret => simp [TypeForm.spelling, opensType]

/-- The tokens start with one of the class `P`. If it is an identifier, the token after it makes the expression longer;
so a name is not followed by a colon or a comma. -/
def OpensWith (P : Kind → Bool) (ks : List Kind) : Prop :=
  ∃ k ls, ks = k :: ls ∧ P k ∧ (k.sameClass Rules.anyIdentifier → ∀ l ∈ ls.head?, l.extendsExpr)

lemma OpensWith.mono {R : Kind → Bool} (h : OpensWith P ks) (hPR : ∀ k, P k → R k) : OpensWith R ks := by
  obtain ⟨k,ls,hks,hk,hls⟩ := h
  exact ⟨k,ls,hks,hPR k hk,hls⟩

lemma OpensWith.append (h : OpensWith P ks) (hk : k.extendsExpr) (ls : List Kind) : OpensWith P (ks ++ k :: ls) := by
  obtain ⟨l,ms,rfl,hl,hms⟩ := h
  refine ⟨l,ms ++ k :: ls,rfl,hl,fun hname m hm => ?_⟩
  cases ms with
  | nil =>
    obtain rfl : k = m := by simpa using hm
    exact hk
  | cons m' ms => exact hms hname m (by simpa using hm)

lemma OpensWith.ahead (h : OpensWith P ks) (ls : List Kind) : P (kindAhead (ks ++ ls)) := by
  obtain ⟨k,ms,rfl,hk,-⟩ := h
  exact hk

/-- Whether no operator stands in front of the expression or between its parts. -/
def Expr.isPostfixed (e : Expr) : Bool :=
  match e.form with
  | .binary .. | .unary .. | .addressOf _ => false
  | _ => true

/-- Whether an expression is a literal, a name, or stands in brackets of its own. -/
def Expr.isPrimary (e : Expr) : Bool :=
  match e.form with
  | .int _ | .bool _ | .char _ | .string _ | .name _ | .array _ | .lambda .. | .paren _ => true
  | _ => false

lemma Expr.isPostfixed_of_isBase (h : e.isBase) : e.isPostfixed := by
  unfold Expr.isBase at h
  unfold Expr.isPostfixed
  split at h <;> simp_all

lemma Expr.opens_of_isPostfixed (e : Expr) (h : e.Printable) (hp : e.isPostfixed) : OpensWith opensPrimary e.spelling := by
  obtain ⟨id,span,form⟩ := e
  cases form with
  | int digits =>
    rw [Expr.spelling, ExprForm.spelling]
    obtain h | h | h := ofLiteral_eq digits <;> rw [h] <;> exact ⟨_,_,rfl,rfl,by simp⟩
  | bool b => cases b <;> exact ⟨_,_,rfl,rfl,by simp⟩
  | char | string => exact ⟨_,_,by rw [Expr.spelling, ExprForm.spelling],rfl,by simp⟩
  | name =>
    rw [Expr.spelling, ExprForm.spelling, ofWord_of_isIdentifier h]
    exact ⟨_,_,rfl,rfl,by simp⟩
  | deref e => exact (opens_of_isPostfixed e h.1 (isPostfixed_of_isBase h.2)).append rfl _
  | index base => exact (opens_of_isPostfixed base h.1 (isPostfixed_of_isBase h.2.2)).append rfl _
  | call callee => exact (opens_of_isPostfixed callee h.1 (isPostfixed_of_isBase h.2.2)).append rfl _
  | array => exact ⟨.punct .lbracket,_,by rw [Expr.spelling, ExprForm.spelling]; rfl,rfl,nofun⟩
  | lambda | paren => exact ⟨.punct .lparen,_,by rw [Expr.spelling, ExprForm.spelling]; rfl,rfl,nofun⟩
  | binary | unary | addressOf => cases hp

lemma Kind.extendsExpr_punct (op : BinaryOp) : (punct op.punct).extendsExpr := by
  cases op <;> rfl

/-- Along left operands, an expression starts with a unary operator or as a primary one. -/
theorem Expr.opens (e : Expr) (h : e.Printable) : OpensWith opensExpr e.spelling := by
  obtain ⟨id,span,form⟩ := e
  cases form with
  | binary op l r =>
    rw [Expr.spelling, ExprForm.spelling, List.append_assoc]
    exact (opens l h.1).append (extendsExpr_punct op) _
  | unary op => cases op <;> exact ⟨_,_,rfl,rfl,nofun⟩
  | addressOf => exact ⟨_,_,rfl,rfl,nofun⟩
  | _ => exact (opens_of_isPostfixed _ h rfl).mono fun k hk => by simp [opensExpr, hk]

lemma Argument.opens (h : a.Printable) (ls : List Kind) : (kindAhead (a.spelling ++ ls)).opensExpr := by
  obtain ⟨name,value,span⟩ := a
  cases name with
  | none => simpa only [Argument.spelling] using (value.opens h.2).ahead ls
  | some name => simp [Argument.spelling, ofWord_of_isIdentifier (h.1 name rfl), opensExpr, opensPrimary]

lemma Block.opens (b : Block) (ls : List Kind) : kindAhead (b.spelling ++ ls) = .punct .lbrace := by
  obtain ⟨stmts,span⟩ := b
  simp [Block.spelling]

lemma Param.opens (h : q.Printable) (ls : List Kind) : (kindAhead (q.spelling ++ ls)).sameClass (.punct .rparen) = false := by
  obtain ⟨name,anonymous,mutable,type,span⟩ := q
  have hname : (ofWord name).sameClass (.punct .rparen) = false :=
    opensType.ne (opensType_ofWord h.1) rfl
  cases anonymous with
  | true => rfl
  | false =>
    cases mutable with
    | true => rfl
    | false => exact hname

def Decl.keyword : Decl → Keyword
  | .var _ => .letK
  | .const _ => .constK
  | .func _ => .defK

lemma Decl.opens (d : Decl) (ls : List Kind) : kindAhead (d.spelling ++ ls) = .keyword d.keyword := by
  cases d with
  | var d => obtain ⟨⟩ := d; simp [Decl.spelling, VarDecl.spelling, Decl.keyword]
  | const d => obtain ⟨⟩ := d; simp [Decl.spelling, ConstDecl.spelling, Decl.keyword]
  | func d => obtain ⟨⟩ := d; simp [Decl.spelling, FunDecl.spelling, Decl.keyword]

lemma Stmt.opens (h : s.Printable) (ls : List Kind) : (kindAhead (s.spelling ++ ls)).opensStmt := by
  obtain ⟨span,form⟩ := s
  have hexpr : ∀ (e : Expr) (ms : List Kind), e.Printable → (kindAhead (e.spelling ++ ms)).opensStmt := by
    intro e ms he
    simp [opensStmt, (e.opens he).ahead ms]
  rw [Stmt.spelling]
  cases form with
  | decl d =>
    rw [StmtForm.spelling, d.opens ls]
    cases d <;> rfl
  | assign target value =>
    simpa [StmtForm.spelling] using hexpr target _ h.1
  | expr e =>
    simp only [Stmt.Printable, StmtForm.Printable] at h
    simpa [StmtForm.spelling] using hexpr e _ h
  | ret e | cond c t e => cases e <;> simp [StmtForm.spelling, opensStmt]
  | loop c b => simp [StmtForm.spelling, opensStmt]
  | block b =>
    rw [StmtForm.spelling, b.opens ls]
    rfl

/-! ### How trees end -/

/-- What follows does not belong to the expression: no bracket or caret, and only an operator as `P` says. A lambda without
braces would take every operator. -/
structure Expr.Ends (e : Expr) (P : BinaryOp → Prop) (rest : List Kind) : Prop where
  base : (kindAhead rest).opensPostfix = false
  arrow : (kindAhead rest).sameClass (.punct .arrow) = false
  fatArrow : (kindAhead rest).sameClass (.punct .fatArrow) = false
  operator : ∀ op, BinaryOp.ofKind? (kindAhead rest) = some op → P op ∧ e.endsInLambda = false

lemma Expr.ends_of_closes (e : Expr) (rest : List Kind) (h : (kindAhead rest).closesExpr) (P : BinaryOp → Prop) :
    e.Ends P rest := by
  have hends : ∀ k : Kind, k.closesExpr → k.opensPostfix = false ∧ k.sameClass (.punct .arrow) = false ∧
      k.sameClass (.punct .fatArrow) = false ∧ BinaryOp.ofKind? k = none := by
    intro k hk
    unfold closesExpr at hk
    split at hk
    all_goals first
      | exact ⟨rfl,rfl,rfl,rfl⟩
      | cases hk
  obtain ⟨hbase,harrow,hfat,hop⟩ := hends _ h
  exact ⟨hbase,harrow,hfat,by simp [hop]⟩

lemma Expr.ends_of_operator {P : BinaryOp → Prop} (h : P op) (he : e.endsInLambda = false)
    (rest : List Kind) : e.Ends P (.punct op.punct :: rest) := by
  refine ⟨?_,?_,?_,fun op' hop' => ?_⟩
  · cases op <;> rfl
  · cases op <;> rfl
  · cases op <;> rfl
  · have : BinaryOp.ofKind? (.punct op.punct) = some op := by cases op <;> rfl
    rw [kindAhead_cons, this] at hop'
    cases hop'
    exact ⟨h,he⟩

lemma Expr.Ends.mono {d : Expr} {P : BinaryOp → Prop} {rest : List Kind} (h : e.Ends P rest)
    (hPR : ∀ op, P op → R op) (hd : e.endsInLambda = false → d.endsInLambda = false) : d.Ends R rest :=
  ⟨h.base,h.arrow,h.fatArrow,fun op hop => ⟨hPR op (h.operator op hop).1,hd (h.operator op hop).2⟩⟩

lemma Expr.Ends.of_endsInLambda {P : BinaryOp → Prop} {rest : List Kind} (h : e.Ends P rest)
    (he : e.endsInLambda) (d : Expr) : d.Ends R rest := by
  refine ⟨h.base,h.arrow,h.fatArrow,fun op hop => ?_⟩
  have := (h.operator op hop).2
  rw [he] at this
  cases this

def Stmt.isCond (s : Stmt) : Bool :=
  match s.form with
  | .cond .. => true
  | _ => false

namespace Rules

/-- The rules read back trees of at most `n` tokens. -/
structure Complete (rules : Rules) (n : Nat) : Prop where
  type : ∀ (t : TypeExpr) rest, t.Printable → t.spelling.length ≤ n →
    (kindAhead rest).sameClass (.punct .arrow) = false → ReadsBack rules.type TypeExpr.bare t t.spelling rest
  expr : ∀ least (e : Expr) rest, e.Printable → e.spelling.length ≤ n → e.BindsAtLeast least →
    e.Ends (·.precedence < least) rest → ReadsBack (rules.expr least) Expr.bare e e.spelling rest
  unary : ∀ (e : Expr) rest, e.Printable → e.spelling.length ≤ n → e.isOperand → e.Ends (fun _ => True) rest →
    ReadsBack rules.unary Expr.bare e e.spelling rest
  block : ∀ (b : Block) rest, b.Printable → b.spelling.length ≤ n → ReadsBack rules.block Block.bare b b.spelling rest
  cond : ∀ (s : Stmt) rest, s.Printable → s.spelling.length ≤ n → s.isCond →
    (kindAhead rest).sameClass (.keyword .elseK) = false → ReadsBack rules.cond Stmt.bare s s.spelling rest
  stmt : ∀ (s : Stmt) rest, s.Printable → s.spelling.length ≤ n →
    (kindAhead rest).sameClass (.keyword .elseK) = false → ReadsBack rules.stmt Stmt.bare s s.spelling rest

variable {rules : Rules} {n : Nat} {rest : List Kind}

section

variable (hr : rules.Complete n) (he : e.Printable) (hn : e.spelling.length ≤ n)
include hr he hn

lemma Complete.expr_of_closes
    (hk : k.closesExpr) (rest : List Kind) : ReadsBack (rules.expr 0) Expr.bare e e.spelling (k :: rest) :=
  hr.expr 0 e _ he hn (fun _ _ _ _ => Nat.zero_le _) (e.ends_of_closes (k :: rest) hk _)

lemma Complete.expr_of_block
    (b : Block) (rest : List Kind) : ReadsBack (rules.expr 0) Expr.bare e e.spelling (b.spelling ++ rest) :=
  hr.expr 0 e _ he hn (fun _ _ _ _ => Nat.zero_le _) (e.ends_of_closes _ (by rw [b.opens]; rfl) _)

end

lemma accepts_bindingName (h : isDeclarable name) {Q : String × Span → List Kind → Prop}
    (hQ : ∀ span, Q (name, span) rest) : Accepts bindingName (.ofWord name :: rest) Q := by
  refine .bind (.advance fun t ht => ?_)
  rw [ht]
  obtain hw | ⟨hw,rfl⟩ | ⟨hw,rfl⟩ := ofWord_of_isDeclarable h
  all_goals
    rw [hw]
    exact .pure (hQ _)

lemma accepts_identifier (h : isIdentifier name) {Q : String → List Kind → Prop} (hQ : Q name rest) :
    Accepts identifier (.ofWord name :: rest) Q := by
  rw [ofWord_of_isIdentifier h]
  exact .identifier hQ

lemma accepts_mark (k : Keyword) (present : Bool) (hk : (kindAhead rest).sameClass (.keyword k) = false) :
    Accepts (eat (.keyword k)) (markedBy k present ++ rest) fun b ls => b = present ∧ ls = rest := by
  cases present with
  | false => exact .eat_false hk ⟨rfl,rfl⟩
  | true => exact .eat_true ⟨rfl,rfl⟩

lemma accepts_namedType (h : isDeclarable name) :
    Accepts namedType (.ofWord name :: rest) fun f ls => f.bare = (TypeForm.named name).bare ∧ ls = rest := by
  refine .bind (.advance fun t ht => ?_)
  rw [ht]
  obtain hw | ⟨hw,rfl⟩ | ⟨hw,rfl⟩ := ofWord_of_isDeclarable h
  all_goals
    rw [hw]
    exact .pure ⟨rfl,rfl⟩

/-! ### Looking ahead -/

/-- Whether tokens that start with a parenthesis are those of a lambda. -/
def startsLambda (ks : List Kind) : Bool :=
  (ks.getD 1 .eof).sameClass (.punct .rparen) || (ks.getD 1 .eof).sameClass anyIdentifier &&
      ((ks.getD 2 .eof).sameClass (.punct .colon) || (ks.getD 2 .eof).sameClass (.punct .comma) ||
        (ks.getD 2 .eof).sameClass (.punct .rparen) &&
          ((ks.getD 3 .eof).sameClass (.punct .fatArrow) || (ks.getD 3 .eof).sameClass (.punct .arrow)))

lemma accepts_lambdaAhead (ks : List Kind) : Accepts lambdaAhead ks fun b ls => b = startsLambda ks ∧ ls = ks := by
  unfold startsLambda
  refine .bind (.checkAt ?_)
  cases (ks.getD 1 .eof).sameClass (.punct .rparen) with
  | true => exact .pure ⟨rfl,rfl⟩
  | false =>
  refine .bind (.checkAt ?_)
  cases (ks.getD 1 .eof).sameClass anyIdentifier with
  | false => exact .pure ⟨rfl,rfl⟩
  | true =>
  refine .bind (.checkAt ?_)
  cases (ks.getD 2 .eof).sameClass (.punct .colon) with
  | true => exact .pure ⟨rfl,rfl⟩
  | false =>
  refine .bind (.checkAt ?_)
  cases (ks.getD 2 .eof).sameClass (.punct .comma) with
  | true => exact .pure ⟨rfl,rfl⟩
  | false =>
  refine .bind (.checkAt ?_)
  cases (ks.getD 2 .eof).sameClass (.punct .rparen) with
  | false => exact .pure ⟨rfl,rfl⟩
  | true =>
  refine .bind (.checkAt ?_)
  cases (ks.getD 3 .eof).sameClass (.punct .fatArrow) with
  | true => exact .pure ⟨rfl,rfl⟩
  | false => exact .checkAt ⟨rfl,rfl⟩

lemma startsLambda_paren (h : e.Printable) (harrow : (kindAhead rest).sameClass (.punct .arrow) = false)
    (hfat : (kindAhead rest).sameClass (.punct .fatArrow) = false) :
    startsLambda (.punct .lparen :: (e.spelling ++ .punct .rparen :: rest)) = false := by
  obtain ⟨k,ls,hspelling,hk,hname⟩ := e.opens h
  have hparen : k.sameClass (.punct .rparen) = false := opensExpr.ne hk rfl
  cases hident : k.sameClass anyIdentifier with
  | false => simp [startsLambda, hspelling, hparen, hident]
  | true =>
    cases ls with
    | nil =>
      have hshort : startsLambda (.punct .lparen :: ([k] ++ .punct .rparen :: rest)) =
          (k.sameClass (.punct .rparen) || k.sameClass anyIdentifier &&
            ((kindAhead rest).sameClass (.punct .fatArrow) || (kindAhead rest).sameClass (.punct .arrow))) := by
        cases rest <;> rfl
      rw [hspelling, hshort, hparen, harrow, hfat, Bool.or_false, Bool.and_false, Bool.or_false]
    | cons l ls =>
      have hl := hname hident l (by simp)
      have hcolon : l.sameClass (.punct .colon) = false := extendsExpr.ne hl rfl
      have hcomma : l.sameClass (.punct .comma) = false := extendsExpr.ne hl rfl
      have hclose : l.sameClass (.punct .rparen) = false := extendsExpr.ne hl rfl
      simp [startsLambda, hspelling, hparen, hcolon, hcomma, hclose]

lemma startsLambda_lambda (h : lambdaParamsPrintable params) (ret : Option TypeExpr) (ls : List Kind) :
    startsLambda (.punct .lparen :: (separated (lambdaParamSpellings params) ++
      .punct .rparen :: (typeAfter .arrow ret ++ .punct .fatArrow :: ls))) = true := by
  match params with
  | [] => rfl
  | ⟨name,some type,span⟩ :: ps =>
    have hname := ofWord_of_isIdentifier h.1.1
    cases ps <;>
      simp [startsLambda, lambdaParamSpellings, LambdaParam.spelling, typeAfter, separated, hname, anyIdentifier, sameClass]
  | [⟨name,none,span⟩] =>
    have hname := ofWord_of_isIdentifier h.1.1
    cases ret <;>
      simp [startsLambda, lambdaParamSpellings, LambdaParam.spelling, typeAfter, separated, hname, anyIdentifier, sameClass]
  | ⟨name,none,span⟩ :: q :: ps =>
    have hname := ofWord_of_isIdentifier h.1.1
    simp [startsLambda, lambdaParamSpellings, LambdaParam.spelling, typeAfter, separated, hname, anyIdentifier, sameClass]

/-- Whether tokens are those of an argument with a name. -/
def startsNamed (ks : List Kind) : Bool :=
  (kindAhead ks).sameClass anyIdentifier && (ks.getD 1 .eof).sameClass (.punct .colon)

lemma accepts_nameAndColonAhead (ks : List Kind) : Accepts nameAndColonAhead ks fun b ls => b = startsNamed ks ∧ ls = ks := by
  unfold startsNamed
  refine .bind (.check ?_)
  cases (kindAhead ks).sameClass anyIdentifier with
  | false => exact .pure ⟨rfl,rfl⟩
  | true => exact .checkAt ⟨rfl,rfl⟩

lemma startsNamed_expr (h : e.Printable) (hk : k.sameClass (.punct .colon) = false) :
    startsNamed (e.spelling ++ k :: rest) = false := by
  obtain ⟨l,ls,hspelling,-,hname⟩ := e.opens h
  cases hident : l.sameClass anyIdentifier with
  | false => simp [startsNamed, hspelling, hident]
  | true =>
    cases ls with
    | nil => simp [startsNamed, hspelling, hk]
    | cons m ls =>
      have hcolon : m.sameClass (.punct .colon) = false := extendsExpr.ne (hname hident m (by simp)) rfl
      simp [startsNamed, hspelling, hcolon]

lemma accepts_atom {kind : Kind} {form : ExprForm}
    (hparen : kind.sameClass (.punct .lparen) = false) (hbracket : kind.sameClass (.punct .lbracket) = false)
    (h : ∀ t : Token, t.kind = kind → atomForm t = .ok form) :
    ReadsBack rules.primaryRule Expr.bare ⟨id,span,form⟩ [kind] rest := by
  refine .bind (.peek fun _ _ => .unseen hparen (.passed hbracket (.bind (.advance fun t ht => ?_))))
  rw [h t ht]
  exact .node fun id => ⟨by simp,rfl⟩

section

variable (hr : rules.Complete n)
include hr

attribute [local simp] ReadsBack bracketed parenthesized separated TypeForm.spelling Expr.spelling ExprForm.spelling
  Argument.spelling LambdaParam.spelling Block.spelling Stmt.spelling StmtForm.spelling VarDecl.spelling ConstDecl.spelling
  FunDecl.spelling Param.spelling

/-! ### Types -/

lemma accepts_typeAfter {mark : Punct} {t : Option TypeExpr} (ht : optionalTypePrintable t)
    (hn : (typeAfter mark t).length ≤ n + 1) (hmark : (kindAhead rest).sameClass (.punct mark) = false)
    (harrow : (kindAhead rest).sameClass (.punct .arrow) = false) :
    Accepts (optionally (.punct mark) rules.type) (typeAfter mark t ++ rest) fun u ls =>
      respanOptionalType .bare u = respanOptionalType .bare t ∧ ls = rest := by
  cases t with
  | none =>
    exact .optionally_none hmark ⟨rfl,rfl⟩
  | some t =>
    simp only [typeAfter, List.length_append, List.length_singleton] at hn
    refine .optionally_some ((hr.type t rest ht (by omega) harrow).mono ?_)
    rintro u ls ⟨hu,rfl⟩
    exact ⟨by simp [hu],rfl⟩

lemma accepts_arrayType {element : TypeExpr} {size : Expr} (helement : element.Printable) (hsize : size.Printable)
    (hn : element.spelling.length ≤ n) (hn' : size.spelling.length ≤ n) :
    Accepts rules.arrayType (element.spelling ++ .punct .comma :: (size.spelling ++ .punct .rbracket :: rest))
      fun f ls => f.bare = (TypeForm.array element size).bare ∧ ls = rest := by
  refine .read (hr.type element _ helement hn rfl) fun t ht => ?_
  refine .bind (.expect fun _ _ => .read (hr.expr_of_closes hsize hn' rfl rest) fun e he => ?_)
  exact .bind (.expect fun _ _ => .pure ⟨by simp [ht, he],rfl⟩)

lemma accepts_functionType {params : List TypeExpr} (hparams : typesPrintable params)
    (hret : optionalTypePrintable ret) (hn : (separated (typeSpellings params)).length ≤ n)
    (hn' : (typeAfter .arrow ret).length ≤ n + 1) (harrow : (kindAhead rest).sameClass (.punct .arrow) = false) :
    Accepts rules.functionType
      (.punct .lparen :: (separated (typeSpellings params) ++ .punct .rparen :: (typeAfter .arrow ret ++ rest)))
      fun f ls => f.bare = (TypeForm.function params ret).bare ∧ ls = rest := by
  rw [typesPrintable_iff] at hparams
  rw [typeSpellings_eq_map] at hn ⊢
  refine .bind (.expect fun _ _ => .read (.sepUntil TypeExpr.bare rfl ?_ ?_) fun ts hts => ?_)
  · exact fun t ht ls => opensType.ne (t.opens (hparams t ht) ls) rfl
  · exact fun t ht hlength k ls hk => hr.type t _ (hparams t ht) (by omega) (by obtain rfl | rfl := hk <;> rfl)
  · refine .bind (.expect fun _ _ => .read (accepts_typeAfter hr hret hn' harrow harrow) fun u hu => ?_)
    exact .pure ⟨by simp [respanTypes_eq_map, hts, hu],rfl⟩

lemma accepts_typeForm {f : TypeForm} (h : f.Printable) (hn : f.spelling.length ≤ n + 1)
    (harrow : (kindAhead rest).sameClass (.punct .arrow) = false) :
    Accepts rules.typeForm (f.spelling ++ rest) fun g ls => g.bare = f.bare ∧ ls = rest := by
  cases f with
  | named name =>
    have hopen := ofWord_of_isDeclarable h
    refine .passed ?_ (.passed ?_ (.passed ?_ (accepts_namedType h)))
    all_goals obtain hw | ⟨hw,-⟩ | ⟨hw,-⟩ := hopen <;> simp [hw, sameClass]
  | array element size =>
    simp at hn ⊢
    exact .taken (accepts_arrayType hr h.1 h.2 (by omega) (by omega))
  | reference mutable target =>
    simp at hn ⊢
    refine .passed rfl (.taken (.known (accepts_mark .mutK mutable ?_) ?_))
    · exact opensType.ne (target.opens h rest) rfl
    · refine .read (hr.type target rest h (by omega) harrow) fun t ht => ?_
      exact .pure ⟨by simp [ht],rfl⟩
  | function params ret =>
    simp at hn ⊢
    exact .passed rfl (.passed rfl (.taken (accepts_functionType hr h.1 h.2 (by omega) (by omega) harrow)))

lemma accepts_typeRule (h : t.Printable) (hn : t.spelling.length ≤ n + 1)
    (harrow : (kindAhead rest).sameClass (.punct .arrow) = false) :
    ReadsBack rules.typeRule TypeExpr.bare t t.spelling rest := by
  obtain ⟨span,form⟩ := t
  refine .bind (.peek fun start _ => .read (accepts_typeForm hr h hn harrow) fun f hf => ?_)
  exact .bind (.spanSince fun span => .pure ⟨by simp [hf],rfl⟩)

/-! ### Expressions -/

lemma accepts_lambdaParam {q : LambdaParam} (h : q.Printable) (hn : q.spelling.length ≤ n + 1)
    (hk : k = .punct .comma ∨ k = .punct .rparen) : ReadsBack rules.lambdaParam LambdaParam.bare q q.spelling (k :: rest) := by
  obtain ⟨name,type,span⟩ := q
  simp at hn ⊢
  refine .bind (.peek fun start _ => .bind (accepts_identifier h.1 ?_))
  refine .read (accepts_typeAfter hr h.2 (by omega) ?_ ?_) fun t ht => ?_
  · obtain rfl | rfl := hk <;> rfl
  · obtain rfl | rfl := hk <;> rfl
  · exact .bind (.spanSince fun span => .pure ⟨by simp [ht],rfl⟩)

lemma accepts_lambdaBody (h : body.Printable) (hn : body.spelling.length ≤ n)
    (hends : ∀ e, body = .expr e → e.Ends (·.precedence < 0) rest) :
    ReadsBack rules.lambdaBody LambdaBody.bare body body.spelling rest := by
  cases body with
  | expr e =>
    refine .unseen (opensExpr.ne ((e.opens h).ahead rest) rfl) ?_
    refine .read (hr.expr 0 e rest h hn (fun _ _ _ _ => Nat.zero_le _) (hends e rfl)) fun d hd => ?_
    exact .pure ⟨by simp [hd],rfl⟩
  | block b =>
    refine .seen (b.opens rest) (.read (hr.block b rest h hn) fun c hc => ?_)
    exact .pure ⟨by simp [hc],rfl⟩

lemma accepts_lambdaRule (h : (ExprForm.lambda params ret body).Printable)
    (hn : (ExprForm.lambda params ret body).spelling.length ≤ n + 1)
    (hends : ∀ e, body = .expr e → e.Ends (·.precedence < 0) rest) :
    ReadsBack rules.lambdaRule Expr.bare ⟨id,span,.lambda params ret body⟩ (ExprForm.lambda params ret body).spelling rest := by
  simp only [ExprForm.Printable, lambdaParamsPrintable_iff] at h
  obtain ⟨hparams,hret,hbody⟩ := h
  simp [lambdaParamSpellings_eq_map] at hn ⊢
  refine .bind (.expect fun _ _ => .read (.sepUntil LambdaParam.bare rfl ?_ ?_) fun qs hqs => ?_)
  · intro q hq ls
    have hname := (hparams q hq)
    obtain ⟨name,type,span⟩ := q
    simp [LambdaParam.spelling, ofWord_of_isIdentifier hname.1, sameClass]
  · exact fun q hq hlength k ls hk => accepts_lambdaParam hr (hparams q hq) (by omega) hk
  · refine .bind (.expect fun _ _ => .read (accepts_typeAfter hr hret (by omega) rfl rfl) fun u hu => ?_)
    refine .bind (.expect fun _ _ => .read (accepts_lambdaBody hr hbody (by omega) hends) fun b hb => ?_)
    refine .bind (.spanSince fun span => .node fun id => ⟨?_,rfl⟩)
    simp [respanLambdaParams_eq_map, hqs, hu, hb]

lemma accepts_parenRule (id : NodeId) (span : Span) (h : e.Printable) (hn : e.spelling.length ≤ n) :
    Accepts rules.parenRule (.punct .lparen :: (e.spelling ++ .punct .rparen :: rest)) fun d ls =>
      d.bare = (⟨id,span,.paren e⟩ : Expr).bare ∧ ls = rest := by
  refine .bind (.advance fun _ _ => .read (hr.expr_of_closes h hn rfl rest) fun d hd => ?_)
  refine .bind (.expect fun _ _ => .bind (.spanSince fun span => .node fun id => ⟨?_,rfl⟩))
  simp [hd]

lemma accepts_arrayRule (id : NodeId) (span : Span) {es : List Expr} {start : Span} (h : exprsPrintable es)
    (hn : (separated (exprSpellings es)).length ≤ n) :
    Accepts (rules.arrayRule start) (separated (exprSpellings es) ++ .punct .rbracket :: rest) fun d ls =>
      d.bare = (⟨id,span,.array es⟩ : Expr).bare ∧ ls = rest := by
  rw [exprsPrintable_iff] at h
  rw [exprSpellings_eq_map] at hn ⊢
  refine .read (.sepUntil Expr.bare rfl ?_ ?_) fun ds hds => ?_
  · exact fun e he ls => opensExpr.ne ((e.opens (h e he)).ahead ls) rfl
  · exact fun e he hlength k ls hk =>
      hr.expr_of_closes (h e he) (by omega) (by obtain rfl | rfl := hk <;> rfl) ls
  · refine .bind (.expect fun _ _ => .bind (.spanSince fun span => .node fun id => ⟨?_,rfl⟩))
    simp [respanExprs_eq_map, hds]

lemma accepts_primaryRule (h : e.Printable) (hn : e.spelling.length ≤ n + 1) (hprimary : e.isPrimary)
    (harrow : (kindAhead rest).sameClass (.punct .arrow) = false) (hfat : (kindAhead rest).sameClass (.punct .fatArrow) = false)
    (hends : e.endsInLambda → e.Ends (fun _ => True) rest) : ReadsBack rules.primaryRule Expr.bare e e.spelling rest := by
  obtain ⟨id,span,form⟩ := e
  simp only [Expr.Printable] at h
  simp only [Expr.spelling] at hn ⊢
  cases form with
  | int digits =>
    rw [ExprForm.spelling]
    obtain hkind | hkind | hkind := ofLiteral_eq digits
    all_goals
      rw [hkind]
      exact accepts_atom rfl rfl fun t ht => by simp only [atomForm, ht]
  | bool b =>
    cases b
    all_goals
      refine accepts_atom rfl rfl fun t ht => ?_
      simp only [atomForm, ht]
      rfl
  | char c =>
    have hdecode : Escape.character (Escape.literal '\'' [c]) = .ok c := by
      rw [Escape.character, unquoted_literal, Escape.decode_encode]
    refine accepts_atom rfl rfl fun t ht => ?_
    simp only [atomForm, ht, ofChar, hdecode]
    rfl
  | string s =>
    have hdecode : Escape.string (Escape.literal '"' s.toList) = .ok s := by
      rw [Escape.string, unquoted_literal, Escape.decode_encode]
      simp [Except.map]
    refine accepts_atom rfl rfl fun t ht => ?_
    simp only [atomForm, ht, ofString, hdecode]
    rfl
  | name name =>
    simp only [ExprForm.Printable] at h
    rw [ExprForm.spelling, ofWord_of_isIdentifier h]
    exact accepts_atom rfl rfl fun t ht => by simp only [atomForm, ht]
  | array elements =>
    simp only [ExprForm.Printable] at h
    simp at hn ⊢
    exact .bind (.peek fun _ _ => .unseen rfl (.taken (accepts_arrayRule hr id span h (by omega))))
  | lambda params ret body =>
    have hlambda : ReadsBack rules.lambdaRule Expr.bare ⟨id,span,.lambda params ret body⟩
        (ExprForm.lambda params ret body).spelling rest := by
      refine accepts_lambdaRule hr h hn fun e he => ?_
      subst he
      exact (hends rfl).of_endsInLambda rfl e
    simp only [ExprForm.Printable] at h
    have hahead := startsLambda_lambda h.1 ret (body.spelling ++ rest)
    simp only [ReadsBack, ExprForm.spelling, parenthesized, List.append_assoc, List.cons_append, List.nil_append] at hlambda ⊢
    refine .bind (.peek fun _ _ => .seen rfl (.known (accepts_lambdaAhead _) ?_))
    rw [hahead]
    exact hlambda
  | paren e =>
    simp only [ExprForm.Printable] at h
    simp at hn ⊢
    refine .bind (.peek fun _ _ => .seen rfl (.known (accepts_lambdaAhead _) ?_))
    rw [startsLambda_paren h harrow hfat]
    exact accepts_parenRule hr id span h (by omega)
  | _ => cases hprimary

lemma accepts_argumentRule (h : a.Printable) (hn : a.spelling.length ≤ n) (hk : k = .punct .comma ∨ k = .punct .rparen) :
    ReadsBack rules.argumentRule Argument.bare a a.spelling (k :: rest) := by
  have hclose : k.closesExpr ∧ k.sameClass (.punct .colon) = false := by obtain rfl | rfl := hk <;> exact ⟨rfl,rfl⟩
  obtain ⟨name,value,span⟩ := a
  cases name with
  | none =>
    simp only [ReadsBack, Argument.spelling]
    refine .bind (.peek fun _ _ => .bind (.known (accepts_nameAndColonAhead _) ?_))
    rw [startsNamed_expr h.2 hclose.2]
    refine .pure (.read (hr.expr_of_closes h.2 hn hclose.1 rest) fun e he => ?_)
    exact .bind (.spanSince fun span => .pure ⟨by simp [he],rfl⟩)
  | some name =>
    simp at hn ⊢
    have hname := h.1 name rfl
    have hnamed : startsNamed (.ofWord name :: .punct .colon :: (value.spelling ++ k :: rest)) = true := by
      simp [startsNamed, ofWord_of_isIdentifier hname, anyIdentifier, sameClass]
    refine .bind (.peek fun _ _ => .bind (.known (accepts_nameAndColonAhead _) ?_))
    rw [hnamed]
    refine .bind (accepts_identifier hname (.bind (.expect fun _ _ => .pure ?_)))
    refine .read (hr.expr_of_closes h.2 (by omega) hclose.1 rest) fun e he => ?_
    exact .bind (.spanSince fun span => .pure ⟨by simp [he],rfl⟩)

omit hr in
lemma repeats_postfixStep_none (h : (kindAhead rest).opensPostfix = false)
    (hQ : Q e rest) : Repeats rules.postfixStep e rest Q := by
  have hne : ∀ p : Punct, (Kind.punct p).opensPostfix → (kindAhead rest).sameClass (.punct p) = false := fun p hp =>
    sameClass_eq_false (P := fun k => !k.opensPostfix) (fun _ _ _ => rfl) (by simp [h]) (by simp [hp])
  exact .stop (.passed (hne _ rfl) (.passed (hne _ rfl) (.passed (hne _ rfl) (.pure ⟨rfl,hQ⟩))))

lemma repeats_call {callee : Expr} {args : List Argument} (h : argumentsPrintable args)
    (hn : (separated (argumentSpellings args)).length ≤ n) (he : e.bare = callee.bare)
    (hQ : ∀ d, d.bare = (⟨id,span,.call callee args⟩ : Expr).bare → Repeats rules.postfixStep d rest Q) :
    Repeats rules.postfixStep e (.punct .lparen :: (separated (argumentSpellings args) ++ .punct .rparen :: rest)) Q := by
  rw [argumentsPrintable_iff] at h
  rw [argumentSpellings_eq_map] at hn ⊢
  refine .go (.taken (.read (.sepUntil Argument.bare rfl ?_ ?_) fun as has => ?_))
  · exact fun a ha ls => opensExpr.ne (a.opens (h a ha) ls) rfl
  · exact fun a ha hlength k ls hk => accepts_argumentRule hr (h a ha) (by omega) hk
  · refine .bind (.expect fun _ _ => .bind (.spanSince fun _ => .bind (.node fun _ => .pure ⟨_,rfl,?_,hQ _ ?_⟩)))
    · simp only [List.length_cons, List.length_append]
      omega
    · simp [respanArguments_eq_map, he, has]

lemma repeats_index {base index : Expr} (h : index.Printable) (hn : index.spelling.length ≤ n) (he : e.bare = base.bare)
    (hQ : ∀ d, d.bare = (⟨id,span,.index base index⟩ : Expr).bare → Repeats rules.postfixStep d rest Q) :
    Repeats rules.postfixStep e (.punct .lbracket :: (index.spelling ++ .punct .rbracket :: rest)) Q := by
  refine .go (.passed rfl (.taken (.read (hr.expr_of_closes h hn rfl rest) fun d hd => ?_)))
  refine .bind (.expect fun _ _ => .bind (.spanSince fun _ => .bind (.node fun _ => .pure ⟨_,rfl,?_,hQ _ ?_⟩)))
  · simp only [List.length_cons, List.length_append]
    omega
  · simp [he, hd]

omit hr in
lemma repeats_deref {operand : Expr} (he : e.bare = operand.bare)
    (hQ : ∀ d, d.bare = (⟨id,span,.deref operand⟩ : Expr).bare → Repeats rules.postfixStep d rest Q) :
    Repeats rules.postfixStep e (.punct .caret :: rest) Q := by
  refine .go (.passed rfl (.passed rfl (.taken ?_)))
  refine .bind (.spanSince fun _ => .bind (.node fun _ => .pure ⟨_,rfl,by simp,hQ _ ?_⟩))
  simp [he]

/-- A primary expression with the calls, indices and dereferences after it is read from the left, and what is done then is
said of the whole expression. -/
theorem accepts_postfixRule (e : Expr) (rest : List Kind) (Q : Expr → List Kind → Prop) (h : e.Printable)
    (hn : e.spelling.length ≤ n + 1) (hpostfixed : e.isPostfixed) (harrow : (kindAhead rest).sameClass (.punct .arrow) = false)
    (hfat : (kindAhead rest).sameClass (.punct .fatArrow) = false) (hends : e.endsInLambda → e.Ends (fun _ => True) rest)
    (hQ : ∀ d, d.bare = e.bare → Repeats rules.postfixStep d rest Q) : Accepts rules.postfixRule (e.spelling ++ rest) Q := by
  obtain ⟨id,span,form⟩ := e
  cases form with
  | deref e =>
    simp at hn ⊢
    refine accepts_postfixRule e _ Q h.1 (by omega) (e.isPostfixed_of_isBase h.2) rfl rfl ?_ ?_
    · simp [e.endsInLambda_of_isBase h.2]
    · exact fun d hd => repeats_deref hd hQ
  | index base index =>
    simp at hn ⊢
    refine accepts_postfixRule base _ Q h.1 (by omega) (base.isPostfixed_of_isBase h.2.2) rfl rfl ?_ ?_
    · simp [base.endsInLambda_of_isBase h.2.2]
    · exact fun d hd => repeats_index hr h.2.1 (by omega) hd hQ
  | call callee args =>
    simp at hn ⊢
    refine accepts_postfixRule callee _ Q h.1 (by omega) (callee.isPostfixed_of_isBase h.2.2) rfl rfl ?_ ?_
    · simp [callee.endsInLambda_of_isBase h.2.2]
    · exact fun d hd => repeats_call hr h.2.1 (by omega) hd hQ
  | binary | unary | addressOf => cases hpostfixed
  | _ =>
    refine .read (accepts_primaryRule hr h hn rfl harrow hfat hends) fun d hd => ?_
    exact (hQ d hd).extend

lemma accepts_prefixed (start : Span) {form : Expr → ExprForm} (h : e.Printable)
    (hn : e.spelling.length ≤ n) (hoperand : e.isOperand) (hends : (⟨id,span,form e⟩ : Expr).Ends (fun _ => True) rest)
    (hlambda : (form e).endsInLambda = e.endsInLambda) (hbare : ∀ d : Expr, d.bare = e.bare → (form d).bare = (form e).bare) :
    Accepts (rules.unary >>= fun d => node (form d) (start.cover d.span)) (e.spelling ++ rest) fun d ls =>
      d.bare = (⟨id,span,form e⟩ : Expr).bare ∧ ls = rest := by
  have hends' : e.Ends (fun _ => True) rest :=
    hends.mono (fun _ hop => hop) fun he => by rwa [Expr.endsInLambda, hlambda] at he
  refine .read (hr.unary e rest h hn hoperand hends') fun d hd => ?_
  exact .node fun _ => ⟨by simp [hbare d hd],rfl⟩

lemma accepts_unaryRule (h : e.Printable) (hn : e.spelling.length ≤ n + 1) (hoperand : e.isOperand)
    (hends : e.Ends (fun _ => True) rest) : ReadsBack rules.unaryRule Expr.bare e e.spelling rest := by
  obtain ⟨id,span,form⟩ := e
  -- An expression without an operator in front is read by the rule for calls, indices and dereferences.
  have hpostfixed : (⟨id,span,form⟩ : Expr).isPostfixed →
      ReadsBack rules.unaryRule Expr.bare ⟨id,span,form⟩ (⟨id,span,form⟩ : Expr).spelling rest := by
    intro hp
    have hopen := (Expr.opens_of_isPostfixed _ h hp).ahead rest
    refine .bind (.peek fun _ _ => .passed (opensPrimary.ne hopen rfl) (.passed (opensPrimary.ne hopen rfl)
      (.passed (opensPrimary.ne hopen rfl) ?_)))
    exact accepts_postfixRule hr _ rest _ h hn hp hends.arrow hends.fatArrow (fun _ => hends) fun d hd =>
      repeats_postfixStep_none hends.base ⟨hd,rfl⟩
  cases form with
  | unary op e =>
    simp at hn ⊢
    have hinner := fun start => accepts_prefixed hr start h.1 (by omega) h.2 hends
      (by rw [ExprForm.endsInLambda]) fun d hd => by simp [hd]
    cases op with
    | neg => exact .bind (.peek fun t _ => .taken (hinner t.span))
    | not => exact .bind (.peek fun t _ => .passed rfl (.taken (hinner t.span)))
  | addressOf e =>
    simp at hn ⊢
    exact .bind (.peek fun _ _ => .passed rfl (.passed rfl (.taken (accepts_prefixed hr _ h.1 (by omega) h.2 hends
      (by rw [ExprForm.endsInLambda]) fun d hd => by simp [hd]))))
  | binary => cases hoperand
  | _ => exact hpostfixed rfl

omit hr in
lemma repeats_binaryStep_none (h : ∀ op, BinaryOp.ofKind? (kindAhead rest) = some op → op.precedence < least) (hQ : Q e rest) :
    Repeats (rules.binaryStep least) e rest Q := by
  refine .stop (.bind (.peek fun t ht => ?_))
  rw [ht]
  cases hop : BinaryOp.ofKind? (kindAhead rest) with
  | none => exact .pure ⟨rfl,hQ⟩
  | some op =>
    simp only [if_pos (h op hop)]
    exact .pure ⟨rfl,hQ⟩

lemma repeats_binary {l r : Expr} (hop : least ≤ op.precedence) (hr' : r.Printable) (hn : r.spelling.length ≤ n)
    (hbinds : r.BindsAtLeast (op.precedence + 1)) (hends : r.Ends (·.precedence < op.precedence + 1) rest)
    (he : e.bare = l.bare)
    (hQ : ∀ d, d.bare = (⟨id,span,.binary op l r⟩ : Expr).bare → Repeats (rules.binaryStep least) d rest Q) :
    Repeats (rules.binaryStep least) e (.punct op.punct :: (r.spelling ++ rest)) Q := by
  have hkind : BinaryOp.ofKind? (.punct op.punct) = some op := by cases op <;> rfl
  refine .go (.bind (.peek fun t ht => ?_))
  rw [ht, kindAhead_cons, hkind]
  simp only [if_neg (Nat.not_lt.2 hop)]
  refine .bind (.advance fun _ _ => .read (hr.expr _ r rest hr' hn hbinds hends) fun d hd => ?_)
  refine .bind (.node fun _ => .pure ⟨_,rfl,?_,hQ _ ?_⟩)
  · simp only [List.length_cons, List.length_append]
    omega
  · simp [he, hd]

/-- Along left operands an expression is read from the left, and what is done then is said of the whole expression. -/
theorem accepts_spine (e : Expr) (rest : List Kind) (Q : Expr → List Kind → Prop) (h : e.Printable)
    (hn : e.spelling.length ≤ n + 1) (hbinds : e.BindsAtLeast least) (hends : e.Ends (fun op => e.BindsAtLeast op.precedence) rest)
    (hQ : ∀ d, d.bare = e.bare → Repeats (rules.binaryStep least) d rest Q) :
    Accepts (rules.exprRule least) (e.spelling ++ rest) Q := by
  obtain ⟨id,span,form⟩ := e
  cases form with
  | binary op l r =>
    obtain ⟨hl,hr',hleft,hright,hlambda⟩ := h
    simp at hn ⊢
    have hop : least ≤ op.precedence := hbinds op l r rfl
    refine accepts_spine l _ Q hl (by omega) (fun op' l' r' hl' => hop.trans (hleft op' l' r' hl')) ?_ ?_
    · exact Expr.ends_of_operator hleft hlambda _
    · -- The operator that follows binds no tighter than this one, so it does not belong to the right operand.
      have hends' : r.Ends (·.precedence < op.precedence + 1) rest :=
        hends.mono (fun op' hop' => Nat.lt_succ_of_le (hop' op l r rfl)) fun he => by
          simpa [Expr.endsInLambda, ExprForm.endsInLambda] using he
      exact fun d hd => repeats_binary hr hop hr' (by omega) hright hends' hd hQ
  | _ =>
    refine .read (accepts_unaryRule hr h hn rfl (hends.mono (fun _ _ => trivial) fun he => he)) fun d hd => ?_
    exact (hQ d hd).extend

lemma accepts_exprRule (h : e.Printable) (hn : e.spelling.length ≤ n + 1)
    (hbinds : e.BindsAtLeast least) (hends : e.Ends (·.precedence < least) rest) :
    ReadsBack (rules.exprRule least) Expr.bare e e.spelling rest := by
  refine accepts_spine hr e rest _ h hn hbinds (hends.mono (fun op hop op' l r he => ?_) fun he => he) fun d hd => ?_
  · exact (Nat.le_of_lt hop).trans (hbinds op' l r he)
  · exact repeats_binaryStep_none (fun op hop => (hends.operator op hop).1) ⟨hd,rfl⟩

lemma accepts_exprRule_of_closes (h : e.Printable) (hn : e.spelling.length ≤ n + 1)
    (hk : k.closesExpr) : ReadsBack (rules.exprRule 0) Expr.bare e e.spelling (k :: rest) :=
  accepts_exprRule hr h hn (fun _ _ _ _ => Nat.zero_le _) (e.ends_of_closes (k :: rest) hk _)

/-! ### Declarations -/

lemma accepts_varRule {d : VarDecl} (h : d.Printable) (hn : d.spelling.length ≤ n + 1) :
    ReadsBack rules.varRule VarDecl.bare d d.spelling rest := by
  obtain ⟨id,name,nameSpan,mutable,type,init,span⟩ := d
  simp at hn ⊢
  refine .bind (.expect fun _ _ => .known (accepts_mark .mutK mutable ?_) ?_)
  · exact opensType.ne (opensType_ofWord h.1) rfl
  refine .bind (accepts_bindingName h.1 fun nameSpan => ?_)
  refine .read (accepts_typeAfter hr h.2.1 (by omega) rfl rfl) fun t ht => ?_
  refine .bind (.expect fun _ _ => .read (hr.expr_of_closes h.2.2 (by omega) rfl rest) fun e he => ?_)
  refine .bind (.expect fun _ _ => .bind (.freshId fun id => .bind (.spanSince fun span => .pure ⟨?_,rfl⟩)))
  simp [ht, he]

lemma accepts_constRule {d : ConstDecl} (h : d.Printable) (hn : d.spelling.length ≤ n + 1) :
    ReadsBack rules.constRule ConstDecl.bare d d.spelling rest := by
  obtain ⟨id,name,nameSpan,type,value,span⟩ := d
  simp at hn ⊢
  refine .bind (.expect fun _ _ => .bind (accepts_bindingName h.1 fun nameSpan => ?_))
  refine .read (accepts_typeAfter hr h.2.1 (by omega) rfl rfl) fun t ht => ?_
  refine .bind (.expect fun _ _ => .read (hr.expr_of_closes h.2.2 (by omega) rfl rest) fun e he => ?_)
  refine .bind (.expect fun _ _ => .bind (.freshId fun id => .bind (.spanSince fun span => .pure ⟨?_,rfl⟩)))
  simp [ht, he]

lemma accepts_paramRule (h : q.Printable) (hn : q.spelling.length ≤ n + 1)
    (hk : k = .punct .comma ∨ k = .punct .rparen) : ReadsBack rules.paramRule Param.bare q q.spelling (k :: rest) := by
  obtain ⟨name,anonymous,mutable,type,span⟩ := q
  simp at hn ⊢
  have hopen := opensType_ofWord h.1
  refine .bind (.peek fun _ _ => .known (accepts_mark .anonK anonymous ?_) ?_)
  · cases mutable with
    | false => exact opensType.ne hopen rfl
    | true => rfl
  refine .known (accepts_mark .mutK mutable (opensType.ne hopen rfl)) ?_
  refine .bind (accepts_bindingName h.1 fun nameSpan => .bind (.expect fun _ _ => ?_))
  refine .read (hr.type type _ h.2 (by omega) (by obtain rfl | rfl := hk <;> rfl)) fun t ht => ?_
  exact .bind (.spanSince fun span => .pure ⟨by simp [ht],rfl⟩)

lemma accepts_funRule {d : FunDecl} (h : d.Printable) (hn : d.spelling.length ≤ n + 1) :
    ReadsBack rules.funRule FunDecl.bare d d.spelling rest := by
  obtain ⟨id,name,nameSpan,params,ret,body,span⟩ := d
  simp only [FunDecl.Printable, paramsPrintable_iff] at h
  obtain ⟨hname,hparams,hret,hbody⟩ := h
  simp [paramSpellings_eq_map] at hn ⊢
  refine .bind (.expect fun _ _ => .bind (accepts_bindingName hname fun nameSpan => .bind (.expect fun _ _ => ?_)))
  refine .read (.sepUntil Param.bare rfl (fun q hq => q.opens (hparams q hq)) ?_) fun qs hqs => ?_
  · exact fun q hq hlength k ls hk => accepts_paramRule hr (hparams q hq) (by omega) hk
  have hbrace := body.opens rest
  refine .bind (.expect fun _ _ => ?_)
  refine .read (accepts_typeAfter hr hret (by omega) (hbrace ▸ rfl) (hbrace ▸ rfl)) fun t ht => ?_
  refine .read (hr.block body rest hbody (by omega)) fun b hb => ?_
  refine .bind (.freshId fun id => .bind (.spanSince fun span => .pure ⟨?_,rfl⟩))
  simp [respanParams_eq_map, hqs, ht, hb]

lemma accepts_declRule {d : Decl} (h : d.Printable) (hn : d.spelling.length ≤ n + 1) :
    ReadsBack rules.declRule Decl.bare d d.spelling rest := by
  have hopen := d.opens rest
  cases d with
  | var d =>
    refine .seen hopen (.read (accepts_varRule hr h hn) fun d' hd => ?_)
    exact .pure ⟨by simp [hd],rfl⟩
  | const d =>
    refine .unseen (hopen ▸ rfl) (.seen hopen (.read (accepts_constRule hr h hn) fun d' hd => ?_))
    exact .pure ⟨by simp [hd],rfl⟩
  | func d =>
    refine .unseen (hopen ▸ rfl) (.unseen (hopen ▸ rfl) (.seen hopen (.read (accepts_funRule hr h hn) fun d' hd => ?_)))
    exact .pure ⟨by simp [hd],rfl⟩

lemma accepts_itemRule {d : Decl} (h : d.Printable) (hn : d.spelling.length ≤ n + 1) :
    Accepts rules.itemRule (d.spelling ++ rest) fun i ls => i.decl.bare = d.bare ∧ ls = rest := by
  refine .bind (.peek fun _ _ => .read (accepts_declRule hr h hn) fun d' hd => ?_)
  exact .bind (.spanSince fun _ => .pure ⟨hd,rfl⟩)

/-! ### Statements -/

lemma accepts_blockRule {b : Block} (h : b.Printable) (hn : b.spelling.length ≤ n + 1) :
    ReadsBack rules.blockRule Block.bare b b.spelling rest := by
  obtain ⟨stmts,span⟩ := b
  simp only [Block.Printable, stmtsPrintable_iff] at h
  simp [stmtSpellings_eq_flatMap, -List.length_flatMap] at hn ⊢
  refine .bind (.expect fun _ _ => .read (.many Stmt.bare Stmt.bare (F := fun k => k.sameClass (.keyword .elseK) = false)
    rfl rfl ?_ ?_) fun ss hss => ?_)
  · intro s hs ls
    have hopen := s.opens (h s hs) ls
    have hbrace : (kindAhead (s.spelling ++ ls)).sameClass (.punct .rbrace) = false := opensStmt.ne hopen rfl
    have heof : (kindAhead (s.spelling ++ ls)).sameClass .eof = false := opensStmt.ne hopen rfl
    exact ⟨by simp [hbrace, heof],opensStmt.ne hopen rfl⟩
  · intro s hs ls hls
    have hlength : s.spelling.length ≤ (stmts.flatMap Stmt.spelling).length :=
      (List.sublist_flatten_of_mem (List.mem_map_of_mem hs)).length_le
    exact hr.stmt s ls (h s hs) (by omega) hls
  · refine .bind (.expect fun _ _ => .bind (.spanSince fun span => .pure ⟨?_,rfl⟩))
    simp [respanStmts_eq_map, hss]

lemma accepts_elseBranch (h : s.Printable) (hn : s.spelling.length ≤ n) (hbranch : s.isElseBranch)
    (helse : (kindAhead rest).sameClass (.keyword .elseK) = false) :
    ReadsBack rules.elseBranch Stmt.bare s s.spelling rest := by
  obtain ⟨span,form⟩ := s
  cases form with
  | cond c t e =>
    have hopen : kindAhead ((⟨span,.cond c t e⟩ : Stmt).spelling ++ rest) = .keyword .ifK := by
      cases e <;> simp [Stmt.spelling, StmtForm.spelling]
    exact .seen hopen (hr.cond _ rest h hn rfl helse)
  | block b =>
    simp only [ReadsBack, Stmt.spelling, StmtForm.spelling]
    refine .unseen (by rw [b.opens rest]; rfl) (.bind (.peek fun _ _ => .read (hr.block b rest h hn) fun c hc => ?_))
    exact .bind (.spanSince fun span => .pure ⟨by simp [hc],rfl⟩)
  | _ => cases hbranch

lemma accepts_condRule (h : s.Printable) (hn : s.spelling.length ≤ n + 1) (hcond : s.isCond)
    (helse : (kindAhead rest).sameClass (.keyword .elseK) = false) : ReadsBack rules.condRule Stmt.bare s s.spelling rest := by
  obtain ⟨span,form⟩ := s
  cases form with
  | cond c t e =>
    cases e with
    | none =>
      simp at hn ⊢
      refine .bind (.expect fun _ _ => .read (hr.expr_of_block h.1 (by omega) t rest) fun c' hc => ?_)
      refine .read (hr.block t rest h.2 (by omega)) fun t' ht => ?_
      refine .bind (.optionally_none helse (.bind (.spanSince fun span => .pure ⟨?_,rfl⟩)))
      simp [hc, ht]
    | some e =>
      simp at hn ⊢
      refine .bind (.expect fun _ _ => .read (hr.expr_of_block h.1 (by omega) t _) fun c' hc => ?_)
      refine .read (hr.block t _ h.2.1 (by omega)) fun t' ht => ?_
      refine .bind (.optionally_some ((accepts_elseBranch hr h.2.2.1 (by omega) h.2.2.2 helse).mono ?_))
      rintro e' ls ⟨he,rfl⟩
      refine .bind (.spanSince fun span => .pure ⟨?_,rfl⟩)
      simp [hc, ht, he]
  | _ => cases hcond

omit hr in
lemma accepts_declarationAhead (d : Decl) (h : d.Printable) :
    Accepts declarationAhead (d.spelling ++ rest) fun b ls => b = true ∧ ls = d.spelling ++ rest := by
  have hopen := d.opens rest
  cases d with
  | var d => exact .seen hopen (.pure ⟨rfl,rfl⟩)
  | const d => exact .unseen (hopen ▸ rfl) (.seen hopen (.pure ⟨rfl,rfl⟩))
  | func d =>
    refine .unseen (hopen ▸ rfl) (.unseen (hopen ▸ rfl) (.seen hopen (.bind (.checkAt (.pure ⟨?_,rfl⟩)))))
    obtain ⟨id,name,nameSpan,params,ret,body,span⟩ := d
    have hname : (ofWord name).sameClass (.punct .lparen) = false :=
      opensType.ne (opensType_ofWord h.1) rfl
    simp [Decl.spelling, FunDecl.spelling, hname]

omit hr in
lemma accepts_declarationAhead_none (hlet : (kindAhead ks).sameClass (.keyword .letK) = false)
    (hconst : (kindAhead ks).sameClass (.keyword .constK) = false) (hdef : (kindAhead ks).sameClass (.keyword .defK) = false) :
    Accepts declarationAhead ks fun b ls => b = false ∧ ls = ks :=
  .unseen hlet (.unseen hconst (.unseen hdef (.pure ⟨rfl,rfl⟩)))

omit hr in
lemma accepts_stmtRule_of_expr {Q : Stmt → List Kind → Prop} (hopen : (kindAhead ks).opensExpr)
    (h : ∀ start, Accepts (rules.simpleStmt start) ks Q) : Accepts rules.stmtRule ks Q := by
  have hne : ∀ {k : Kind}, k.opensExpr = false → (kindAhead ks).sameClass k = false := opensExpr.ne hopen
  refine .bind (.peek fun t _ => .known (accepts_declarationAhead_none (hne rfl) (hne rfl) (hne rfl)) ?_)
  exact .passed (hne rfl) (.unseen (hne rfl) (.passed (hne rfl) (.unseen (hne rfl) (h t.span))))

lemma accepts_stmtRule (h : s.Printable) (hn : s.spelling.length ≤ n + 1)
    (helse : (kindAhead rest).sameClass (.keyword .elseK) = false) : ReadsBack rules.stmtRule Stmt.bare s s.spelling rest := by
  obtain ⟨span,form⟩ := s
  cases form with
  | decl d =>
    refine .bind (.peek fun _ _ => .known (accepts_declarationAhead d h) ?_)
    refine .read (accepts_itemRule hr h hn) fun i hi => ?_
    exact .pure ⟨by simp [hi],rfl⟩
  | assign target value =>
    simp at hn ⊢
    refine accepts_stmtRule_of_expr ((target.opens h.1).ahead _) fun start => ?_
    refine .read (accepts_exprRule_of_closes hr h.1 (by omega) rfl) fun e he => ?_
    refine .taken (.read (hr.expr_of_closes h.2 (by omega) rfl rest) fun v hv => ?_)
    refine .bind (.expect fun _ _ => .bind (.spanSince fun span => .pure ⟨?_,rfl⟩))
    simp [he, hv]
  | expr e =>
    simp at hn ⊢
    refine accepts_stmtRule_of_expr ((e.opens h).ahead _) fun start => ?_
    refine .read (accepts_exprRule_of_closes hr h (by omega) rfl) fun d hd => ?_
    refine .passed rfl (.bind (.expect fun _ _ => .bind (.spanSince fun span => .pure ⟨?_,rfl⟩)))
    simp [hd]
  | ret e =>
    cases e with
    | none =>
      refine .bind (.peek fun _ _ => .known (accepts_declarationAhead_none rfl rfl rfl) ?_)
      refine .taken (.bind (.seen rfl (.pure (.bind (.expect fun _ _ => .bind (.spanSince fun span => .pure ⟨?_,rfl⟩))))))
      simp
    | some e =>
      simp at hn ⊢
      refine .bind (.peek fun _ _ => .known (accepts_declarationAhead_none rfl rfl rfl) ?_)
      have hopen := (e.opens h).ahead (.punct .semi :: rest)
      refine .taken (.bind (.unseen (opensExpr.ne hopen rfl)
        (.read (hr.expr_of_closes h (by omega) rfl rest) fun d hd => ?_)))
      refine .pure (.bind (.expect fun _ _ => .bind (.spanSince fun span => .pure ⟨?_,rfl⟩)))
      simp [hd]
  | cond c t e =>
    have hopen : kindAhead ((⟨span,.cond c t e⟩ : Stmt).spelling ++ rest) = .keyword .ifK := by
      cases e <;> simp [Stmt.spelling, StmtForm.spelling]
    refine .bind (.peek fun _ _ => .known (accepts_declarationAhead_none (hopen ▸ rfl) (hopen ▸ rfl) (hopen ▸ rfl)) ?_)
    exact .passed (hopen ▸ rfl) (.seen hopen (accepts_condRule hr h hn rfl helse))
  | loop c b =>
    simp at hn ⊢
    refine .bind (.peek fun _ _ => .known (accepts_declarationAhead_none rfl rfl rfl) ?_)
    refine .passed rfl (.unseen rfl (.taken (.read (hr.expr_of_block h.1 (by omega) b rest) fun c' hc => ?_)))
    refine .read (hr.block b rest h.2 (by omega)) fun b' hb => ?_
    exact .bind (.spanSince fun span => .pure ⟨by simp [hc, hb],rfl⟩)
  | block b =>
    have hopen := b.opens rest
    refine .bind (.peek fun _ _ => .known (accepts_declarationAhead_none (hopen ▸ rfl) (hopen ▸ rfl) (hopen ▸ rfl)) ?_)
    refine .passed (hopen ▸ rfl) (.unseen (hopen ▸ rfl) (.passed (hopen ▸ rfl) (.seen hopen
      (.read (accepts_blockRule hr h hn) fun c hc => ?_))))
    exact .bind (.spanSince fun span => .pure ⟨by simp [hc],rfl⟩)

end

/-! ### Modules -/

lemma Complete.step (hr : rules.Complete n) : rules.step.Complete (n + 1) where
  type _ _ h hn harrow := accepts_typeRule hr h hn harrow
  expr _ _ _ h hn hbinds hends := accepts_exprRule hr h hn hbinds hends
  unary _ _ h hn hoperand hends := accepts_unaryRule hr h hn hoperand hends
  block _ _ h hn := accepts_blockRule hr h hn
  cond _ _ h hn hcond helse := accepts_condRule hr h hn hcond helse
  stmt _ _ h hn helse := accepts_stmtRule hr h hn helse

lemma complete_atEnd : atEnd.Complete 0 := by
  have hne : ∀ {P : Kind → Bool} {ks : List Kind}, P .eof = false → P (kindAhead (ks ++ [])) → ks.length ≤ 0 → False := by
    intro P ks heof hks hn
    obtain rfl := List.length_eq_zero_iff.1 (Nat.le_zero.1 hn)
    simp [kindAhead, heof] at hks
  constructor
  · exact fun t _ h hn _ => (hne rfl (t.opens h []) hn).elim
  · exact fun _ e _ h hn _ _ => (hne rfl ((e.opens h).ahead []) hn).elim
  · exact fun e _ h hn _ _ => (hne rfl ((e.opens h).ahead []) hn).elim
  · exact fun b _ _ hn => (hne (P := (· == .punct .lbrace)) rfl (by rw [b.opens]; rfl) hn).elim
  · exact fun s _ h hn _ _ => (hne rfl (s.opens h []) hn).elim
  · exact fun s _ h hn _ => (hne rfl (s.opens h []) hn).elim

/-- The rules for `n` tokens read back trees of at most `n` tokens. -/
theorem complete_within : ∀ n, (within n).Complete n
  | 0 => complete_atEnd
  | n + 1 => (complete_within n).step

lemma accepts_moduleRule {m : Module} (h : m.Printable) (hr : rules.Complete n) (hn : m.spelling.length ≤ n) :
    ReadsBack rules.moduleRule Module.bare m m.spelling [] := by
  refine .bind (.peek fun _ _ => .read (.many (Decl.bare ∘ Item.decl) Decl.bare (F := fun _ => True) rfl trivial ?_ ?_) ?_)
  · intro d _ ls
    exact ⟨by rw [d.opens ls]; rfl,trivial⟩
  · intro d hd ls _
    have hlength : d.spelling.length ≤ m.spelling.length :=
      (List.sublist_flatten_of_mem (List.mem_map_of_mem hd)).length_le
    exact accepts_itemRule hr (h d hd) (by omega)
  · exact fun is his => .bind (.spanSince fun span => .pure ⟨by simp [Module.bare, his],rfl⟩)

end Rules

/-- A printable module is read back from its text up to numbers and spans, and its nodes are numbered in the order in which
they end. -/
theorem Module.parse_text (m : Module) (h : m.Printable) :
    ∃ m', Module.parse m.text = .ok m' ∧ m'.bare = m.bare ∧ m'.ids = List.range m'.ids.length := by
  obtain ⟨hkinds,hfaults⟩ := Cursor.ofSource_spaced (Module.lexemes h)
  have hlength : (Cursor.ofSource m.text).tokens.length = m.spelling.length := by
    rw [← List.length_map Token.kind, Module.text, hkinds]
  have hrun := Rules.accepts_moduleRule h (Rules.complete_within m.spelling.length) le_rfl
  rw [ReadsBack, List.append_nil] at hrun
  obtain ⟨m',c',ls,hrun,-,hbare,-⟩ := hrun (Cursor.ofSource m.text) ⟨hkinds,hfaults,rfl⟩
  have hparse : Module.parse m.text = .ok m' := by
    simp only [Module.parse, hlength, onSource, StateT.run, hrun, outcome]
  exact ⟨m',hparse,hbare,(Module.numbered_of_parse hparse).1⟩

/-- A tree with a call, a dereference and a lambda as operands, and no parentheses of its own. -/
theorem Module.parse_text_product : ∃ m : Module,
    m.text = "let mut true : ^ u8 = a ( x : 0x1F ) ^ * - ( y ) => '\\'' ;" ∧ m.Printable ∧
      ∃ m', Module.parse m.text = .ok m' ∧ m'.bare = m.bare ∧ m'.ids = List.range m'.ids.length := by
  let call : Expr := ⟨0,default,.call ⟨0,default,.name "a"⟩ [⟨some "x",⟨0,default,.int "0x1F"⟩,default⟩]⟩
  let lambda : Expr := ⟨0,default,.lambda [⟨"y",none,default⟩] none (.expr ⟨0,default,.char '\''⟩)⟩
  let init : Expr := ⟨0,default,.binary .mul ⟨0,default,.deref call⟩ ⟨0,default,.unary .neg lambda⟩⟩
  let type : TypeExpr := ⟨default,.reference false ⟨default,.named "u8"⟩⟩
  let m : Module := ⟨[.var ⟨0,"true",default,true,some type,init,default⟩],default⟩
  have hm : m.Printable := by
    simp +decide [m, init, type, call, lambda, Module.Printable, Decl.Printable, VarDecl.Printable,
      optionalTypePrintable, TypeExpr.Printable, TypeForm.Printable, Expr.Printable, ExprForm.Printable,
      argumentsPrintable, Argument.Printable, lambdaParamsPrintable, LambdaParam.Printable, LambdaBody.Printable,
      Expr.BindsAtLeast]
  exact ⟨m,by decide +kernel,hm,m.parse_text hm⟩

end Opal
