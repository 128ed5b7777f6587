import Opal.Check.ArrayLiteral
import Opal.Check.Call
import Opal.Check.Declaration
import Opal.Check.LambdaExpr
import Opal.Check.Operators
import Opal.Check.Statement

/-!
# Examining syntax trees

Every construct is examined by the rule of its form, applied to the examinations of the constructs
inside it.
-/

namespace Opal

mutual

/-- The examinations of an expression. The type that is found is noted. -/
def Expr.operand : Expr → Operand
  | ⟨id,span,form⟩ =>
    { expr := ⟨id,span,form⟩
      value := fun expected => do
        perform (.begun id expected)
        let t ← form.value id span expected
        recordType id t
        return t
      place := fun use => do
        let place ← form.place id span use
        recordType id place.type
        return place }

/-- The type of an expression where a type may be expected. -/
def ExprForm.value : ExprForm → NodeId → Span → Option Ty → Check Ty
  | .int text, _, span, expected => do
    let v ← literalOfType text false expected span
    return v.type
  | .bool _, _, _, _ => return .bool
  | .char _, _, _, _ => return .char
  | .string _, _, _, _ => return .string
  | .name name, id, span, _ => readName id name span
  | .binary op l r, _, _, expected => binaryValue op l.operand r.operand expected
  | .unary .neg e, _, span, expected => negationValue e.operand span expected
  | .unary .not e, _, _, _ => complementValue e.operand
  | .addressOf e, _, _, _ => addressValue e.operand
  | .deref e, _, _, _ => derefValue e.operand
  | .index base index, _, _, _ => indexValue base.operand index.operand
  | .call callee args, _, span, _ => callValue callee.operand (argumentOperands args) span
  | .array elements, _, span, expected => arrayValue (operands elements) span expected
  | .lambda params ret body, _, span, expected =>
    lambdaValue params ret (fun known => body.check known) span expected
  | .paren e, _, _, expected => e.operand.value expected

/-- The storage location that an expression denotes. -/
def ExprForm.place : ExprForm → NodeId → Span → PlacePurpose → Check Place
  | .paren e, _, _, use => e.operand.place use
  | .name name, id, span, use => namedPlace id name span use
  | .deref e, _, _, _ => derefPlace e.operand
  | .index base index, _, _, use => indexPlace base.operand index.operand use
  | _, _, span, _ => Check.fail .notAPlace span

def operands : List Expr → List Operand
  | [] => []
  | e :: es => e.operand :: operands es

def Argument.operand : Argument → ArgumentOperand
  | ⟨name,value,span⟩ => ⟨name,span,value.operand⟩

def argumentOperands : List Argument → List ArgumentOperand
  | [] => []
  | a :: as => a.operand :: argumentOperands as

/-- The type that the body of a lambda gives, where the result type may be known. -/
def LambdaBody.check : LambdaBody → Option Ty → Check Ty
  | .expr e, known => exprBody e.operand known
  | .block b, known => blockBody b.check known

/-- Declares all names of a block, and then examines its statements. -/
def Block.check : Block → Run Unit
  | ⟨stmts,span⟩ => do
    declareAll (Block.mk stmts span).decls
    checkStmts stmts

/-- Each statement is examined whatever is wrong with those before it. -/
def checkStmts : List Stmt → Run Unit
  | [] => pure ()
  | s :: ss => do
    reported s.check
    checkStmts ss

def Stmt.check : Stmt → Check Unit
  | ⟨span,form⟩ => form.check span

def StmtForm.check : StmtForm → Span → Check Unit
  | .decl i, _ => i.check
  | .assign target value, _ => assignStmt target.operand value.operand
  | .expr e, _ => exprStmt e.operand
  | .ret none, span => bareReturnStmt span
  | .ret (some e), _ => returnStmt e.operand
  | .cond c t none, _ => ifStmt c.operand t.check
  | .cond c t (some e), _ => ifElseStmt c.operand t.check e.check
  | .loop c b, _ => whileStmt c.operand b.check
  | .block b, _ => blockStmt b.check

/-- Examines a declaration whose name was accepted. -/
def Decl.check : Decl → Check Unit
  | .var d => d.check
  | .const d => ifAccepted d.id constDecl
  | .func d => d.check

def VarDecl.check : VarDecl → Check Unit
  | ⟨id,name,_,_,type,init,_⟩ => ifAccepted id (varDecl name type init.operand)

def FunDecl.check : FunDecl → Check Unit
  | ⟨id,_,_,params,_,body,_⟩ => ifAccepted id (funDecl params body.check)

end

end Opal
