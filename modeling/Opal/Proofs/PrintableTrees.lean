import Opal.Proofs.Lexemes
import Opal.Proofs.MovedTrees
import Opal.Proofs.ParsedTrees

/-!
# Printable trees

A text says how operators are grouped by their precedence alone, a lambda without braces takes all that follows it, and names
have to be names. The trees that satisfy this are printable.
-/

namespace Opal

open List

/-! ### Trees without numbers and spans -/

/-- No numbers and no places. -/
@[simps]
def Relabeling.bare : Relabeling :=
  ⟨fun _ => 0,fun _ => default⟩

/-- A written type without numbers and spans. -/
abbrev TypeExpr.bare : TypeExpr → TypeExpr :=
  TypeExpr.respan .bare

abbrev TypeForm.bare : TypeForm → TypeForm :=
  TypeForm.respan .bare

/-- An expression without numbers and spans. -/
abbrev Expr.bare : Expr → Expr :=
  Expr.respan .bare

abbrev ExprForm.bare : ExprForm → ExprForm :=
  ExprForm.respan .bare

abbrev Argument.bare : Argument → Argument :=
  Argument.respan .bare

abbrev LambdaParam.bare : LambdaParam → LambdaParam :=
  LambdaParam.respan .bare

abbrev LambdaBody.bare : LambdaBody → LambdaBody :=
  LambdaBody.respan .bare

abbrev Block.bare : Block → Block :=
  Block.respan .bare

abbrev Stmt.bare : Stmt → Stmt :=
  Stmt.respan .bare

abbrev StmtForm.bare : StmtForm → StmtForm :=
  StmtForm.respan .bare

abbrev Decl.bare : Decl → Decl :=
  Decl.respan .bare

abbrev VarDecl.bare : VarDecl → VarDecl :=
  VarDecl.respan .bare

abbrev ConstDecl.bare : ConstDecl → ConstDecl :=
  ConstDecl.respan .bare

abbrev FunDecl.bare : FunDecl → FunDecl :=
  FunDecl.respan .bare

abbrev Param.bare : Param → Param :=
  Param.respan .bare

/-- A module without numbers and spans. -/
def Module.bare (m : Module) : Module :=
  ⟨m.decls.map Decl.bare,default⟩

/-! ### Printable trees -/

/-- Outside brackets, the operators of an expression bind at least as tightly as `least`. -/
def Expr.BindsAtLeast (least : Nat) (e : Expr) : Prop :=
  ∀ op l r, e.form = .binary op l r → least ≤ op.precedence

/-- Whether an expression may stand after a unary operator. -/
def Expr.isOperand (e : Expr) : Bool :=
  match e.form with
  | .binary .. => false
  | _ => true

/-- Whether an expression may be called, indexed or dereferenced. -/
def Expr.isBase (e : Expr) : Bool :=
  match e.form with
  | .binary .. | .unary .. | .addressOf _ | .lambda _ _ (.expr _) => false
  | _ => true

mutual

/-- Whether an expression ends in a lambda without braces, which would take an operator that follows. -/
def Expr.endsInLambda : Expr → Bool
  | ⟨_,_,form⟩ => form.endsInLambda

def ExprForm.endsInLambda : ExprForm → Bool
  | .lambda _ _ (.expr _) => true
  | .binary _ _ r => r.endsInLambda
  | .unary _ e => e.endsInLambda
  | .addressOf e => e.endsInLambda
  | _ => false

end

lemma Expr.endsInLambda_of_isBase {e : Expr} (h : e.isBase) : e.endsInLambda = false := by
  obtain ⟨id,span,form⟩ := e
  rw [Expr.endsInLambda]
  unfold Expr.isBase at h
  unfold ExprForm.endsInLambda
  split at h <;> simp_all

/-- Whether a token of this kind makes a call, an index or a dereference of the expression before it. -/
def Kind.opensPostfix : Kind → Bool
  | .punct .lparen | .punct .lbracket | .punct .caret => true
  | _ => false

mutual

/-- The text of a written type determines it. -/
def TypeExpr.Printable : TypeExpr → Prop
  | ⟨_,form⟩ => form.Printable

def TypeForm.Printable : TypeForm → Prop
  | .named name => isDeclarable name
  | .array element size => element.Printable ∧ size.Printable
  | .reference _ target => target.Printable
  | .function params ret => typesPrintable params ∧ optionalTypePrintable ret

def typesPrintable : List TypeExpr → Prop
  | [] => True
  | t :: ts => t.Printable ∧ typesPrintable ts

def optionalTypePrintable : Option TypeExpr → Prop
  | none => True
  | some t => t.Printable

/-- The text of an expression determines it. -/
def Expr.Printable : Expr → Prop
  | ⟨_,_,form⟩ => form.Printable

def ExprForm.Printable : ExprForm → Prop
  | .int text => isLiteral text
  | .bool _ | .char _ | .string _ => True
  | .name name => isIdentifier name
  | .binary op l r =>
    l.Printable ∧ r.Printable ∧ l.BindsAtLeast op.precedence ∧ r.BindsAtLeast (op.precedence + 1) ∧ l.endsInLambda = false
  | .unary _ e => e.Printable ∧ e.isOperand
  | .addressOf e => e.Printable ∧ e.isOperand
  | .deref e => e.Printable ∧ e.isBase
  | .index base index => base.Printable ∧ index.Printable ∧ base.isBase
  | .call callee args => callee.Printable ∧ argumentsPrintable args ∧ callee.isBase
  | .array elements => exprsPrintable elements
  | .lambda params ret body => lambdaParamsPrintable params ∧ optionalTypePrintable ret ∧ body.Printable
  | .paren e => e.Printable

def exprsPrintable : List Expr → Prop
  | [] => True
  | e :: es => e.Printable ∧ exprsPrintable es

def Argument.Printable : Argument → Prop
  | ⟨name,value,_⟩ => (∀ n ∈ name, isIdentifier n) ∧ value.Printable

def argumentsPrintable : List Argument → Prop
  | [] => True
  | a :: as => a.Printable ∧ argumentsPrintable as

def LambdaParam.Printable : LambdaParam → Prop
  | ⟨name,type,_⟩ => isIdentifier name ∧ optionalTypePrintable type

def lambdaParamsPrintable : List LambdaParam → Prop
  | [] => True
  | p :: ps => p.Printable ∧ lambdaParamsPrintable ps

def LambdaBody.Printable : LambdaBody → Prop
  | .expr e => e.Printable
  | .block b => b.Printable

def Block.Printable : Block → Prop
  | ⟨stmts,_⟩ => stmtsPrintable stmts

def stmtsPrintable : List Stmt → Prop
  | [] => True
  | s :: ss => s.Printable ∧ stmtsPrintable ss

def Stmt.Printable : Stmt → Prop
  | ⟨_,form⟩ => form.Printable

def StmtForm.Printable : StmtForm → Prop
  | .decl d => d.Printable
  | .assign target value => target.Printable ∧ value.Printable
  | .expr e => e.Printable
  | .ret none => True
  | .ret (some e) => e.Printable
  | .cond c t none => c.Printable ∧ t.Printable
  | .cond c t (some e) => c.Printable ∧ t.Printable ∧ e.Printable ∧ e.isElseBranch
  | .loop c b => c.Printable ∧ b.Printable
  | .block b => b.Printable

def Decl.Printable : Decl → Prop
  | .var d => d.Printable
  | .const d => d.Printable
  | .func d => d.Printable

def VarDecl.Printable : VarDecl → Prop
  | ⟨_,name,_,_,type,init,_⟩ => isDeclarable name ∧ optionalTypePrintable type ∧ init.Printable

def ConstDecl.Printable : ConstDecl → Prop
  | ⟨_,name,_,type,value,_⟩ => isDeclarable name ∧ optionalTypePrintable type ∧ value.Printable

def FunDecl.Printable : FunDecl → Prop
  | ⟨_,name,_,params,ret,body,_⟩ =>
    isDeclarable name ∧ paramsPrintable params ∧ optionalTypePrintable ret ∧ body.Printable

def Param.Printable : Param → Prop
  | ⟨name,_,_,type,_⟩ => isDeclarable name ∧ type.Printable

def paramsPrintable : List Param → Prop
  | [] => True
  | p :: ps => p.Printable ∧ paramsPrintable ps

end

attribute [simp] TypeExpr.Printable TypeForm.Printable typesPrintable optionalTypePrintable Expr.Printable
  ExprForm.Printable exprsPrintable Argument.Printable argumentsPrintable LambdaParam.Printable lambdaParamsPrintable
  LambdaBody.Printable Block.Printable stmtsPrintable Stmt.Printable StmtForm.Printable Decl.Printable VarDecl.Printable
  ConstDecl.Printable FunDecl.Printable Param.Printable paramsPrintable

/-- The text of a module determines it. -/
def Module.Printable (m : Module) : Prop :=
  ∀ d ∈ m.decls, d.Printable

/-! ### Lists of parts -/

variable (f : Relabeling)

lemma typeSpellings_eq_map (ts : List TypeExpr) : typeSpellings ts = ts.map TypeExpr.spelling :=
  eq_map_of_cons rfl (fun _ _ => rfl) ts

lemma respanTypes_eq_map (ts : List TypeExpr) : respanTypes f ts = ts.map (TypeExpr.respan f) :=
  eq_map_of_cons rfl (fun _ _ => rfl) ts

lemma typesPrintable_iff (ts : List TypeExpr) : typesPrintable ts ↔ ∀ t ∈ ts, t.Printable :=
  iff_forall_of_cons trivial (fun _ _ => .rfl) ts

lemma exprSpellings_eq_map (es : List Expr) : exprSpellings es = es.map Expr.spelling :=
  eq_map_of_cons rfl (fun _ _ => rfl) es

lemma respanExprs_eq_map (es : List Expr) : respanExprs f es = es.map (Expr.respan f) :=
  eq_map_of_cons rfl (fun _ _ => rfl) es

lemma exprsPrintable_iff (es : List Expr) : exprsPrintable es ↔ ∀ e ∈ es, e.Printable :=
  iff_forall_of_cons trivial (fun _ _ => .rfl) es

lemma argumentSpellings_eq_map (as : List Argument) : argumentSpellings as = as.map Argument.spelling :=
  eq_map_of_cons rfl (fun _ _ => rfl) as

lemma respanArguments_eq_map (as : List Argument) : respanArguments f as = as.map (Argument.respan f) :=
  eq_map_of_cons rfl (fun _ _ => rfl) as

lemma argumentsPrintable_iff (as : List Argument) : argumentsPrintable as ↔ ∀ a ∈ as, a.Printable :=
  iff_forall_of_cons trivial (fun _ _ => .rfl) as

lemma lambdaParamSpellings_eq_map (ps : List LambdaParam) : lambdaParamSpellings ps = ps.map LambdaParam.spelling :=
  eq_map_of_cons rfl (fun _ _ => rfl) ps

lemma respanLambdaParams_eq_map (ps : List LambdaParam) : respanLambdaParams f ps = ps.map (LambdaParam.respan f) :=
  eq_map_of_cons rfl (fun _ _ => rfl) ps

lemma lambdaParamsPrintable_iff (ps : List LambdaParam) : lambdaParamsPrintable ps ↔ ∀ p ∈ ps, p.Printable :=
  iff_forall_of_cons trivial (fun _ _ => .rfl) ps

lemma paramSpellings_eq_map (ps : List Param) : paramSpellings ps = ps.map Param.spelling :=
  eq_map_of_cons rfl (fun _ _ => rfl) ps

lemma respanParams_eq_map (ps : List Param) : respanParams f ps = ps.map (Param.respan f) :=
  eq_map_of_cons rfl (fun _ _ => rfl) ps

lemma paramsPrintable_iff (ps : List Param) : paramsPrintable ps ↔ ∀ p ∈ ps, p.Printable :=
  iff_forall_of_cons trivial (fun _ _ => .rfl) ps

lemma stmtSpellings_eq_flatMap (ss : List Stmt) : stmtSpellings ss = ss.flatMap Stmt.spelling :=
  eq_flatMap_of_cons rfl (fun _ _ => rfl) ss

lemma respanStmts_eq_map (ss : List Stmt) : respanStmts f ss = ss.map (Stmt.respan f) :=
  eq_map_of_cons rfl (fun _ _ => rfl) ss

lemma stmtsPrintable_iff (ss : List Stmt) : stmtsPrintable ss ↔ ∀ s ∈ ss, s.Printable :=
  iff_forall_of_cons trivial (fun _ _ => .rfl) ss

/-! ### The tokens of printable trees -/

def Lexemes (ks : List Kind) : Prop :=
  ∀ k ∈ ks, k.IsLexeme

namespace Lexemes

variable {kss : List (List Kind)}

open Kind

@[simp] lemma nil : Lexemes [] := by
  simp [Lexemes]

@[simp] lemma cons_iff (k : Kind) (ks : List Kind) : Lexemes (k :: ks) ↔ k.IsLexeme ∧ Lexemes ks :=
  forall_mem_cons

@[simp] lemma append_iff (ks ls : List Kind) : Lexemes (ks ++ ls) ↔ Lexemes ks ∧ Lexemes ls :=
  forall_mem_append

@[simp] lemma punct (p : Punct) : (Kind.punct p).IsLexeme :=
  isLexeme_punct p

@[simp] lemma keyword (k : Keyword) : (Kind.keyword k).IsLexeme :=
  isLexeme_keyword k

@[simp] lemma markedBy (k : Keyword) (present : Bool) : Lexemes (markedBy k present) := by
  cases present <;> simp [Opal.markedBy]

lemma separated : ∀ {kss : List (List Kind)}, (∀ ks ∈ kss, Lexemes ks) → Lexemes (separated kss)
  | [], _ => nil
  | [ks], h => h ks (mem_singleton.2 rfl)
  | ks :: ls :: kss, h => by
    rw [Opal.separated, append_iff, append_iff]
    · exact ⟨⟨h ks (by simp),by simp⟩,separated fun ms hms => h ms (mem_cons_of_mem ks hms)⟩
    · simp

lemma parenthesized (h : ∀ ks ∈ kss, Lexemes ks) : Lexemes (parenthesized kss) := by
  simp [Opal.parenthesized, separated h]

lemma bracketed (h : ∀ ks ∈ kss, Lexemes ks) : Lexemes (bracketed kss) := by
  simp [Opal.bracketed, separated h]

end Lexemes

lemma isDeclarable_of_isIdentifier {name : String} (h : isIdentifier name) : isDeclarable name := by
  simp [isDeclarable, h]

open Kind in
lemma lexemes_spelling : ForTrees (fun t => t.Printable → Lexemes t.spelling) (fun f => f.Printable → Lexemes f.spelling)
    (fun t => optionalTypePrintable t → ∀ mark, Lexemes (typeAfter mark t))
    (fun ts => typesPrintable ts → ∀ ks ∈ typeSpellings ts, Lexemes ks) (fun e => e.Printable → Lexemes e.spelling)
    (fun f => f.Printable → Lexemes f.spelling) (fun b => b.Printable → Lexemes b.spelling)
    (fun b => b.Printable → Lexemes b.spelling) (fun ss => stmtsPrintable ss → Lexemes (stmtSpellings ss))
    (fun s => s.Printable → Lexemes s.spelling) (fun f => f.Printable → Lexemes f.spelling)
    (fun d => d.Printable → Lexemes d.spelling) (fun d => d.Printable → Lexemes d.spelling)
    (fun ps => paramsPrintable ps → ∀ ks ∈ paramSpellings ps, Lexemes ks) (fun p => p.Printable → Lexemes p.spelling)
    (fun d => d.Printable → Lexemes d.spelling) (fun d => d.Printable → Lexemes d.spelling)
    (fun ps => lambdaParamsPrintable ps → ∀ ks ∈ lambdaParamSpellings ps, Lexemes ks)
    (fun p => p.Printable → Lexemes p.spelling) (fun es => exprsPrintable es → ∀ ks ∈ exprSpellings es, Lexemes ks)
    (fun as => argumentsPrintable as → ∀ ks ∈ argumentSpellings as, Lexemes ks) (fun a => a.Printable → Lexemes a.spelling) := by
  apply ForTrees.of_and
  apply TypeExpr.Printable.mutual_induct
  -- The name of an argument may be left out.
  case case21 =>
    rintro (_ | name) value span ih h
    · simp [ih h.2]
    · simp [ih h.2, isLexeme_of_isDeclarable (isDeclarable_of_isIdentifier (h.1 name rfl))]
  all_goals simp_all [isLexeme_of_isDeclarable, isDeclarable_of_isIdentifier, isLexeme_ofLiteral, isLexeme_ofChar,
    isLexeme_ofString, Kind.ofBool, Lexemes.parenthesized, Lexemes.bracketed]

lemma Module.lexemes {m : Module} (h : m.Printable) : Lexemes m.spelling := by
  intro k hk
  obtain ⟨d,hd,hk⟩ := mem_flatMap.1 hk
  exact lexemes_spelling.decl d (h d hd) k hk

end Opal
