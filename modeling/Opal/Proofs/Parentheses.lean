import Opal.Proofs.CheckedModules
import Opal.Proofs.LikeRuns

/-!
# Parentheses

A module means the same without its parentheses. Only the type of a negated literal is recorded elsewhere: it is that of the
whole operand.
-/

namespace Opal

open List

/-! ## Trees without parentheses -/

mutual

/-- A written type without parentheses in the sizes of arrays. -/
def TypeExpr.unparenthesized : TypeExpr → TypeExpr
  | ⟨span,form⟩ => ⟨span,form.unparenthesized⟩

def TypeForm.unparenthesized : TypeForm → TypeForm
  | .named name => .named name
  | .array element size => .array element.unparenthesized size.unparenthesized
  | .reference mutable target => .reference mutable target.unparenthesized
  | .function params ret => .function (typesUnparenthesized params) (optionalTypeUnparenthesized ret)

def typesUnparenthesized : List TypeExpr → List TypeExpr
  | [] => []
  | t :: ts => t.unparenthesized :: typesUnparenthesized ts

def optionalTypeUnparenthesized : Option TypeExpr → Option TypeExpr
  | none => none
  | some t => some t.unparenthesized

/-- An expression without parentheses in it or around it. -/
def Expr.unparenthesized : Expr → Expr
  | ⟨id,span,form⟩ => form.unparenthesizedAt id span

/-- The expression with this number, span and form without parentheses. -/
def ExprForm.unparenthesizedAt (id : NodeId) (span : Span) : ExprForm → Expr
  | .int text => ⟨id,span,.int text⟩
  | .bool b => ⟨id,span,.bool b⟩
  | .char c => ⟨id,span,.char c⟩
  | .string s => ⟨id,span,.string s⟩
  | .name name => ⟨id,span,.name name⟩
  | .binary op l r => ⟨id,span,.binary op l.unparenthesized r.unparenthesized⟩
  | .unary op e => ⟨id,span,.unary op e.unparenthesized⟩
  | .addressOf e => ⟨id,span,.addressOf e.unparenthesized⟩
  | .deref e => ⟨id,span,.deref e.unparenthesized⟩
  | .index base index => ⟨id,span,.index base.unparenthesized index.unparenthesized⟩
  | .call callee args => ⟨id,span,.call callee.unparenthesized (argumentsUnparenthesized args)⟩
  | .array elements => ⟨id,span,.array (exprsUnparenthesized elements)⟩
  | .lambda params ret body =>
    ⟨id,span,.lambda (lambdaParamsUnparenthesized params) (optionalTypeUnparenthesized ret) body.unparenthesized⟩
  | .paren e => e.unparenthesized

def exprsUnparenthesized : List Expr → List Expr
  | [] => []
  | e :: es => e.unparenthesized :: exprsUnparenthesized es

def Argument.unparenthesized : Argument → Argument
  | ⟨name,value,span⟩ => ⟨name,value.unparenthesized,span⟩

def argumentsUnparenthesized : List Argument → List Argument
  | [] => []
  | a :: as => a.unparenthesized :: argumentsUnparenthesized as

def LambdaParam.unparenthesized : LambdaParam → LambdaParam
  | ⟨name,type,span⟩ => ⟨name,optionalTypeUnparenthesized type,span⟩

def lambdaParamsUnparenthesized : List LambdaParam → List LambdaParam
  | [] => []
  | p :: ps => p.unparenthesized :: lambdaParamsUnparenthesized ps

def LambdaBody.unparenthesized : LambdaBody → LambdaBody
  | .expr e => .expr e.unparenthesized
  | .block b => .block b.unparenthesized

def Block.unparenthesized : Block → Block
  | ⟨stmts,span⟩ => ⟨stmtsUnparenthesized stmts,span⟩

def stmtsUnparenthesized : List Stmt → List Stmt
  | [] => []
  | s :: ss => s.unparenthesized :: stmtsUnparenthesized ss

def Stmt.unparenthesized : Stmt → Stmt
  | ⟨span,form⟩ => ⟨span,form.unparenthesized⟩

def StmtForm.unparenthesized : StmtForm → StmtForm
  | .decl d => .decl d.unparenthesized
  | .assign target value => .assign target.unparenthesized value.unparenthesized
  | .expr e => .expr e.unparenthesized
  | .ret none => .ret none
  | .ret (some e) => .ret (some e.unparenthesized)
  | .cond c t none => .cond c.unparenthesized t.unparenthesized none
  | .cond c t (some e) => .cond c.unparenthesized t.unparenthesized (some e.unparenthesized)
  | .loop c b => .loop c.unparenthesized b.unparenthesized
  | .block b => .block b.unparenthesized

def Decl.unparenthesized : Decl → Decl
  | .var d => .var d.unparenthesized
  | .const d => .const d.unparenthesized
  | .func d => .func d.unparenthesized

def VarDecl.unparenthesized : VarDecl → VarDecl
  | ⟨id,name,nameSpan,mutable,type,init,span⟩ =>
    ⟨id,name,nameSpan,mutable,optionalTypeUnparenthesized type,init.unparenthesized,span⟩

def ConstDecl.unparenthesized : ConstDecl → ConstDecl
  | ⟨id,name,nameSpan,type,value,span⟩ =>
    ⟨id,name,nameSpan,optionalTypeUnparenthesized type,value.unparenthesized,span⟩

def FunDecl.unparenthesized : FunDecl → FunDecl
  | ⟨id,name,nameSpan,params,ret,body,span⟩ =>
    ⟨id,name,nameSpan,paramsUnparenthesized params,optionalTypeUnparenthesized ret,body.unparenthesized,span⟩

def Param.unparenthesized : Param → Param
  | ⟨name,anonymous,mutable,type,span⟩ => ⟨name,anonymous,mutable,type.unparenthesized,span⟩

def paramsUnparenthesized : List Param → List Param
  | [] => []
  | p :: ps => p.unparenthesized :: paramsUnparenthesized ps

end

/-- A module without parentheses: every expression in parentheses is replaced by what is inside. -/
def Module.unparenthesized (m : Module) : Module :=
  { m with decls := m.decls.map Decl.unparenthesized }

/-! ## What becomes of nodes -/

/-- What becomes of a node when parentheses are left out. -/
inductive Standing where
  /-- It stays, and is examined with and without parentheses. -/
  | plain
  /-- It is a pair of parentheses. -/
  | wrapper
  /-- It is a negated literal in parentheses, and is examined only without them. -/
  | wrapped
deriving DecidableEq

/-- What becomes of an expression of this form by itself. -/
def ExprForm.standing : ExprForm → Standing
  | .paren _ => .wrapper
  | _ => .plain

/-- What becomes of a node of the operand of a negation, where the operand is a literal with number `own`. -/
def Standing.negated (own : NodeId) : NodeId × Standing → NodeId × Standing
  | (id, .plain) => (id, if id = own then .plain else .wrapped)
  | x => x

mutual

def TypeExpr.standings : TypeExpr → List (NodeId × Standing)
  | ⟨_,form⟩ => form.standings

def TypeForm.standings : TypeForm → List (NodeId × Standing)
  | .named _ => []
  | .array element size => element.standings ++ size.standings
  | .reference _ target => target.standings
  | .function params ret => typeStandings params ++ optionalTypeStandings ret

def typeStandings : List TypeExpr → List (NodeId × Standing)
  | [] => []
  | t :: ts => t.standings ++ typeStandings ts

def optionalTypeStandings : Option TypeExpr → List (NodeId × Standing)
  | none => []
  | some t => t.standings

/-- What becomes of the nodes of an expression. -/
def Expr.standings : Expr → List (NodeId × Standing)
  | ⟨id,_,form⟩ => form.standings ++ [(id, form.standing)]

def ExprForm.standings : ExprForm → List (NodeId × Standing)
  | .int _ | .bool _ | .char _ | .string _ | .name _ => []
  | .binary _ l r => l.standings ++ r.standings
  | .unary .neg e => if e.literal?.isSome then e.standings.map (Standing.negated e.id) else e.standings
  | .unary .not e => e.standings
  | .addressOf e => e.standings
  | .deref e => e.standings
  | .index base index => base.standings ++ index.standings
  | .call callee args => callee.standings ++ argumentStandings args
  | .array elements => exprStandings elements
  | .lambda params ret body => lambdaParamStandings params ++ (optionalTypeStandings ret ++ body.standings)
  | .paren e => e.standings

def exprStandings : List Expr → List (NodeId × Standing)
  | [] => []
  | e :: es => e.standings ++ exprStandings es

def Argument.standings : Argument → List (NodeId × Standing)
  | ⟨_,value,_⟩ => value.standings

def argumentStandings : List Argument → List (NodeId × Standing)
  | [] => []
  | a :: as => a.standings ++ argumentStandings as

def LambdaParam.standings : LambdaParam → List (NodeId × Standing)
  | ⟨_,type,_⟩ => optionalTypeStandings type

def lambdaParamStandings : List LambdaParam → List (NodeId × Standing)
  | [] => []
  | p :: ps => p.standings ++ lambdaParamStandings ps

def LambdaBody.standings : LambdaBody → List (NodeId × Standing)
  | .expr e => e.standings
  | .block b => b.standings

def Block.standings : Block → List (NodeId × Standing)
  | ⟨stmts,_⟩ => stmtStandings stmts

def stmtStandings : List Stmt → List (NodeId × Standing)
  | [] => []
  | s :: ss => s.standings ++ stmtStandings ss

def Stmt.standings : Stmt → List (NodeId × Standing)
  | ⟨_,form⟩ => form.standings

def StmtForm.standings : StmtForm → List (NodeId × Standing)
  | .decl d => d.standings
  | .assign target value => target.standings ++ value.standings
  | .expr e => e.standings
  | .ret none => []
  | .ret (some e) => e.standings
  | .cond c t none => c.standings ++ t.standings
  | .cond c t (some e) => c.standings ++ (t.standings ++ e.standings)
  | .loop c b => c.standings ++ b.standings
  | .block b => b.standings

def Decl.standings : Decl → List (NodeId × Standing)
  | .var d => d.standings
  | .const d => d.standings
  | .func d => d.standings

def VarDecl.standings : VarDecl → List (NodeId × Standing)
  | ⟨id,_,_,_,type,init,_⟩ => optionalTypeStandings type ++ (init.standings ++ [(id, .plain)])

def ConstDecl.standings : ConstDecl → List (NodeId × Standing)
  | ⟨id,_,_,type,value,_⟩ => optionalTypeStandings type ++ (value.standings ++ [(id, .plain)])

def FunDecl.standings : FunDecl → List (NodeId × Standing)
  | ⟨id,_,_,params,ret,body,_⟩ =>
    paramStandings params ++ (optionalTypeStandings ret ++ (body.standings ++ [(id, .plain)]))

def Param.standings : Param → List (NodeId × Standing)
  | ⟨_,_,_,type,_⟩ => type.standings

def paramStandings : List Param → List (NodeId × Standing)
  | [] => []
  | p :: ps => p.standings ++ paramStandings ps

end

attribute [simp] TypeExpr.standings TypeForm.standings Expr.standings ExprForm.standings Argument.standings
  LambdaParam.standings LambdaBody.standings Block.standings Stmt.standings StmtForm.standings Decl.standings
  VarDecl.standings ConstDecl.standings FunDecl.standings Param.standings typeStandings optionalTypeStandings
  exprStandings argumentStandings lambdaParamStandings stmtStandings paramStandings

def Module.standings (m : Module) : List (NodeId × Standing) :=
  m.decls.flatMap Decl.standings

lemma Standing.fst_negated (own : NodeId) (x : NodeId × Standing) : (Standing.negated own x).1 = x.1 := by
  obtain ⟨id,standing⟩ := x
  cases standing <;> rfl

lemma map_fst_standings : ForTrees (fun t => t.standings.map Prod.fst = t.nodes.map Node.id)
    (fun f => f.standings.map Prod.fst = f.nodes.map Node.id)
    (fun t => (optionalTypeStandings t).map Prod.fst = (optionalTypeNodes t).map Node.id)
    (fun ts => (typeStandings ts).map Prod.fst = (typeNodes ts).map Node.id)
    (fun e => e.standings.map Prod.fst = e.nodes.map Node.id) (fun f => f.standings.map Prod.fst = f.nodes.map Node.id)
    (fun b => b.standings.map Prod.fst = b.nodes.map Node.id) (fun b => b.standings.map Prod.fst = b.nodes.map Node.id)
    (fun ss => (stmtStandings ss).map Prod.fst = (stmtNodes ss).map Node.id)
    (fun s => s.standings.map Prod.fst = s.nodes.map Node.id) (fun f => f.standings.map Prod.fst = f.nodes.map Node.id)
    (fun d => d.standings.map Prod.fst = d.nodes.map Node.id) (fun d => d.standings.map Prod.fst = d.nodes.map Node.id)
    (fun ps => (paramStandings ps).map Prod.fst = (paramNodes ps).map Node.id)
    (fun p => p.standings.map Prod.fst = p.nodes.map Node.id) (fun d => d.standings.map Prod.fst = d.nodes.map Node.id)
    (fun d => d.standings.map Prod.fst = d.nodes.map Node.id)
    (fun ps => (lambdaParamStandings ps).map Prod.fst = (lambdaParamNodes ps).map Node.id)
    (fun p => p.standings.map Prod.fst = p.nodes.map Node.id)
    (fun es => (exprStandings es).map Prod.fst = (exprNodes es).map Node.id)
    (fun as => (argumentStandings as).map Prod.fst = (argumentNodes as).map Node.id)
    (fun a => a.standings.map Prod.fst = a.nodes.map Node.id) := by
  apply ForTrees.of_and
  apply TypeExpr.standings.mutual_induct <;> intros <;>
    simp [*, Function.comp_def, Standing.fst_negated, Decl.id]

lemma Module.map_fst_standings (m : Module) : m.standings.map Prod.fst = m.ids := by
  simp [Module.standings, Module.ids, Module.nodes, map_flatMap, Opal.map_fst_standings.decl]

/-! ## What is recorded with and without parentheses -/

/-- What becomes of nodes with different numbers. -/
structure Standings where
  entries : List (NodeId × Standing)
  nodup : (entries.map Prod.fst).Nodup

namespace Standings

variable {n : NodeId}

/-- The types of the same nodes are recorded, but for parentheses, of which nothing is recorded without them, and for
negated literals in parentheses, of which nothing is recorded with them. -/
structure Tables (M : Standings) (T T' : Table Ty) : Prop where
  same : ∀ n : NodeId, (n, Standing.wrapper) ∉ M.entries → (n, Standing.wrapped) ∉ M.entries → T'[n]? = T[n]?
  wrapper : ∀ n : NodeId, (n, Standing.wrapper) ∈ M.entries → T'[n]? = none
  wrapped : ∀ n : NodeId, (n, Standing.wrapped) ∈ M.entries → T[n]? = none

/-- A tree and the same tree without parentheses. -/
def likeness (M : Standings) : Likeness where
  bare := True
  span _ _ := True
  name := Eq
  span_of_name _ := trivial
  types := True
  typeOf := M.Tables
  typeOf_congr hcongr h :=
    { same := fun n hwrapper hwrapped => by rw [← hcongr, h.same n hwrapper hwrapped]
      wrapper := fun n hn => by rw [← hcongr, h.wrapper n hn]
      wrapped := h.wrapped }

variable {M : Standings}

/-- A node has one standing. -/
theorem standing_eq {x y : Standing} (hx : (n, x) ∈ M.entries) (hy : (n, y) ∈ M.entries) : x = y := by
  have := inj_on_of_nodup_map M.nodup hx hy rfl
  exact (Prod.mk.inj this).2

lemma both_plain (hn : (n, Standing.plain) ∈ M.entries) : M.likeness.Both n n := by
  intro T T' t h
  have hne {i : NodeId} {x : Standing} (hi : (i, x) ∈ M.entries) (hx : x ≠ .plain) : n ≠ i := by
    rintro rfl
    exact hx (M.standing_eq hi hn)
  refine ⟨fun i hwrapper hwrapped => ?_,fun i hi => ?_,fun i hi => ?_⟩
  · rw [Table.getElem?_insert, Table.getElem?_insert, h.same i hwrapper hwrapped]
  · rw [Table.getElem?_insert, if_neg (hne hi nofun), h.wrapper i hi]
  · rw [Table.getElem?_insert, if_neg (hne hi nofun), h.wrapped i hi]

lemma alone_wrapper (hn : (n, Standing.wrapper) ∈ M.entries) : M.likeness.Alone n := by
  intro T T' t h
  refine ⟨fun i hwrapper hwrapped => ?_,h.wrapper,fun i hi => ?_⟩
  · have hne : n ≠ i := fun heq => hwrapper (heq ▸ hn)
    rw [Table.getElem?_insert, if_neg hne, h.same i hwrapper hwrapped]
  · have hne : n ≠ i := by
      rintro rfl
      exact nomatch M.standing_eq hn hi
    rw [Table.getElem?_insert, if_neg hne, h.wrapped i hi]

/-- Of a negated literal in parentheses the type is recorded at the parentheses, or at the literal without them. -/
theorem both_wrapped {n' : NodeId} (hn : (n, Standing.wrapper) ∈ M.entries) (hn' : (n', Standing.wrapped) ∈ M.entries) :
    M.likeness.Both n n' := by
  intro T T' t h
  refine ⟨fun i hwrapper hwrapped => ?_,fun i hi => ?_,fun i hi => ?_⟩
  · have hne : n ≠ i := fun heq => hwrapper (heq ▸ hn)
    have hne' : n' ≠ i := fun heq => hwrapped (heq ▸ hn')
    rw [Table.getElem?_insert, if_neg hne', Table.getElem?_insert, if_neg hne, h.same i hwrapper hwrapped]
  · have hne : n' ≠ i := by
      rintro rfl
      exact nomatch M.standing_eq hn' hi
    rw [Table.getElem?_insert, if_neg hne, h.wrapper i hi]
  · have hne : n ≠ i := by
      rintro rfl
      exact nomatch M.standing_eq hn hi
    rw [Table.getElem?_insert, if_neg hne, h.wrapped i hi]

end Standings

/-! ## Trees are like themselves without parentheses -/

lemma Expr.withoutParens_mem_standings (e : Expr) : (e.withoutParens.id, Standing.plain) ∈ e.standings := by
  obtain ⟨id,span,form⟩ := e
  rw [Expr.standings]
  by_cases hparen : ∃ x, form = .paren x
  · obtain ⟨x,rfl⟩ := hparen
    rw [Expr.withoutParens, ExprForm.withoutParensAt, ExprForm.standings]
    exact mem_append_left _ x.withoutParens_mem_standings
  · rw [Expr.withoutParens_of_ne fun x hx => hparen ⟨x,hx⟩, ExprForm.standing]
    · exact mem_append_right _ (.head _)
    · exact fun x hx => hparen ⟨x,hx⟩

lemma Expr.id_unparenthesized (e : Expr) : e.unparenthesized.id = e.withoutParens.id := by
  obtain ⟨id,span,form⟩ := e
  cases form with
  | paren e => exact e.id_unparenthesized
  | _ =>
    rw [unparenthesized, withoutParens, ExprForm.unparenthesizedAt, ExprForm.withoutParensAt]
    simp

lemma Expr.unparenthesized_of_literal? {text : String} :
    ∀ e : Expr, e.literal? = some text → e.unparenthesized = e.withoutParens
  | ⟨id,span,form⟩, h => by
    by_cases hparen : ∃ x, form = .paren x
    · obtain ⟨x,rfl⟩ := hparen
      exact x.unparenthesized_of_literal? (by rwa [Expr.literal?_paren] at h)
    · have hself : (Expr.mk id span form).withoutParens = ⟨id,span,form⟩ :=
        Expr.withoutParens_of_ne fun x hx => hparen ⟨x,hx⟩
      rw [hself]
      rw [Expr.literal?, hself] at h
      cases form with
      | int => rw [Expr.unparenthesized, ExprForm.unparenthesizedAt]
      | _ => cases h

lemma SamePattern.of_nodup {l l' : List NodeId} (h : l.Nodup) (h' : l'.Nodup) (hlen : l.length = l'.length) :
    SamePattern l l' := by
  have key {l : List NodeId} (h : l.Nodup) (i j : Nat) : l[i]? = l[j]? ↔ i = j ∨ l.length ≤ i ∧ l.length ≤ j := by
    constructor
    · intro heq
      by_cases hi : i < l.length
      · exact .inl ((getElem?_inj hi h).1 heq)
      · rw [getElem?_eq_none (Nat.le_of_not_lt hi), eq_comm, getElem?_eq_none_iff] at heq
        exact .inr ⟨Nat.le_of_not_lt hi,heq⟩
    · rintro (rfl | ⟨hi,hj⟩)
      · rfl
      · rw [getElem?_eq_none hi, getElem?_eq_none hj]
  intro i j
  rw [key h, key h', hlen]

lemma exprsUnparenthesized_eq_map (es : List Expr) : exprsUnparenthesized es = es.map Expr.unparenthesized :=
  eq_map_of_cons rfl (fun _ _ => rfl) es

lemma samePattern_unparenthesized {es : List Expr} (h : ((exprNodes es).map Node.id).Nodup) :
    SamePattern (es.map Expr.id) ((exprsUnparenthesized es).map Expr.id) := by
  rw [exprsUnparenthesized_eq_map, map_map]
  refine .of_nodup (nodup_map_of_exprIds Expr.id_mem_ids h) (nodup_map_of_exprIds (fun e => ?_) h) ?_
  · rw [Function.comp_apply, e.id_unparenthesized, Expr.ids, ← map_fst_standings.expr]
    exact mem_map.2 ⟨_,e.withoutParens_mem_standings,rfl⟩
  · rw [length_map, length_map]

/-- The table says what becomes of these nodes, in this order. -/
def Standings.Holds (M : Standings) (l : List (NodeId × Standing)) : Prop :=
  l.Sublist M.entries

section Trees

variable {M : Standings} {l l' : List (NodeId × Standing)}

lemma Standings.Holds.left (h : M.Holds (l ++ l')) : M.Holds l :=
  (sublist_append_left ..).trans h

lemma Standings.Holds.right (h : M.Holds (l ++ l')) : M.Holds l' :=
  (sublist_append_right ..).trans h

lemma Expr.both_negated {e : Expr} {text : String} (hlit : e.literal? = some text)
    (h : M.Holds (e.standings.map (Standing.negated e.id))) : M.likeness.Both e.id e.unparenthesized.id := by
  have hinner : Standing.negated e.id (e.withoutParens.id, .plain) ∈ M.entries :=
    h.subset (mem_map_of_mem e.withoutParens_mem_standings)
  rw [e.id_unparenthesized]
  rcases e.withoutParens_cases with ⟨x,hform,hwithout,-⟩ | ⟨hself,-⟩
  · obtain ⟨id,span,form⟩ := e
    obtain rfl : form = .paren x := hform
    have houter : Standing.negated id (id, .wrapper) ∈ M.entries := by
      refine h.subset (mem_map_of_mem ?_)
      exact mem_append_right _ (.head _)
    have hne : (Expr.mk id span (.paren x)).withoutParens.id ≠ id := by
      intro heq
      rw [heq, Standing.negated, if_pos rfl] at hinner
      exact nomatch M.standing_eq houter hinner
    rw [Standing.negated, if_neg hne] at hinner
    exact M.both_wrapped houter hinner
  · rw [hself] at hinner ⊢
    rw [Standing.negated, if_pos rfl] at hinner
    exact M.both_plain hinner

mutual

lemma TypeExpr.like_unparenthesized : ∀ t : TypeExpr, M.Holds t.standings → t.Like M.likeness t.unparenthesized
  | ⟨_,.named name⟩, _ => .mk trivial (.named name)
  | ⟨_,.array element size⟩, h =>
    .mk trivial (.array (element.like_unparenthesized h.left) (size.like_unparenthesized h.right))
  | ⟨_,.reference mutable target⟩, h => .mk trivial (.reference mutable (target.like_unparenthesized h))
  | ⟨_,.function params ret⟩, h =>
    .mk trivial (.function (types_like_unparenthesized params h.left) (optionalType_like_unparenthesized ret h.right))

lemma types_like_unparenthesized : ∀ ts : List TypeExpr, M.Holds (typeStandings ts) →
    Forall₂ (TypeExpr.Like M.likeness) ts (typesUnparenthesized ts)
  | [], _ => .nil
  | t :: ts, h => .cons (t.like_unparenthesized h.left) (types_like_unparenthesized ts h.right)

lemma optionalType_like_unparenthesized : ∀ t : Option TypeExpr, M.Holds (optionalTypeStandings t) →
    Option.Rel (TypeExpr.Like M.likeness) t (optionalTypeUnparenthesized t)
  | none, _ => .none
  | some t, h => .some (t.like_unparenthesized h)

lemma Expr.like_unparenthesized (e : Expr) (h : M.Holds e.standings) : e.Like M.likeness e.unparenthesized := by
  obtain ⟨id,span,form⟩ := e
  have hid : (id, form.standing) ∈ M.entries := h.subset (mem_append_right _ (.head _))
  have h : M.Holds form.standings := h.left
  have hboth (hplain : form.standing = .plain) := M.both_plain (hplain ▸ hid)
  cases form with
  | int text => exact .node trivial (hboth rfl) (.int text)
  | bool b => exact .node trivial (hboth rfl) (.bool b)
  | char c => exact .node trivial (hboth rfl) (.char c)
  | string s => exact .node trivial (hboth rfl) (.string s)
  | name name => exact .node trivial (hboth rfl) (.name name)
  | binary op l r =>
    exact .node trivial (hboth rfl) (.binary op (l.like_unparenthesized h.left) (r.like_unparenthesized h.right))
  | unary op e =>
    refine .node trivial (hboth rfl) ?_
    cases op with
    | not => exact .unary .not nofun (e.like_unparenthesized h)
    | neg =>
      rw [ExprForm.standings] at h
      cases hlit : e.literal? with
      | none =>
        rw [hlit, if_neg (by simp)] at h
        exact .unary .neg (fun _ => hlit) (e.like_unparenthesized h)
      | some text =>
        rw [hlit, Option.isSome_some, if_pos rfl] at h
        refine .negated hlit ?_ (Expr.both_negated hlit h)
        rw [e.unparenthesized_of_literal? hlit, Expr.literal?, e.withoutParens_withoutParens]
        exact hlit
  | addressOf e => exact .node trivial (hboth rfl) (.addressOf (e.like_unparenthesized h))
  | deref e => exact .node trivial (hboth rfl) (.deref (e.like_unparenthesized h))
  | index base index =>
    exact .node trivial (hboth rfl) (.index (base.like_unparenthesized h.left) (index.like_unparenthesized h.right))
  | call callee args =>
    exact .node trivial (hboth rfl)
      (.call (callee.like_unparenthesized h.left) (arguments_like_unparenthesized args h.right))
  | array es =>
    have hids : ((exprNodes es).map Node.id).Nodup := map_fst_standings.exprs es ▸ (h.map Prod.fst).nodup M.nodup
    exact .node trivial (hboth rfl) (.array (exprs_like_unparenthesized es h) (samePattern_unparenthesized hids))
  | lambda params ret body =>
    exact .node trivial (hboth rfl) (.lambda (lambdaParams_like_unparenthesized params h.left)
      (optionalType_like_unparenthesized ret h.right.left) (body.like_unparenthesized h.right.right))
  | paren e => exact .unwrapped trivial trivial (M.alone_wrapper hid) (e.like_unparenthesized h)

lemma exprs_like_unparenthesized : ∀ es : List Expr, M.Holds (exprStandings es) →
    Forall₂ (Expr.Like M.likeness) es (exprsUnparenthesized es)
  | [], _ => .nil
  | e :: es, h => .cons (e.like_unparenthesized h.left) (exprs_like_unparenthesized es h.right)

lemma arguments_like_unparenthesized : ∀ as : List Argument, M.Holds (argumentStandings as) →
    Forall₂ (Argument.Like M.likeness) as (argumentsUnparenthesized as)
  | [], _ => .nil
  | ⟨_,value,_⟩ :: as, h =>
    .cons (.mk trivial (value.like_unparenthesized h.left)) (arguments_like_unparenthesized as h.right)

lemma lambdaParams_like_unparenthesized : ∀ ps : List LambdaParam, M.Holds (lambdaParamStandings ps) →
    Forall₂ (LambdaParam.Like M.likeness) ps (lambdaParamsUnparenthesized ps)
  | [], _ => .nil
  | ⟨_,type,_⟩ :: ps, h =>
    .cons (.mk rfl (optionalType_like_unparenthesized type h.left)) (lambdaParams_like_unparenthesized ps h.right)

lemma LambdaBody.like_unparenthesized : ∀ body : LambdaBody, M.Holds body.standings → body.Like M.likeness body.unparenthesized
  | .expr e, h => .expr (e.like_unparenthesized h)
  | .block b, h => .block (b.like_unparenthesized h)

lemma Block.like_unparenthesized : ∀ b : Block, M.Holds b.standings → b.Like M.likeness b.unparenthesized
  | ⟨stmts,span⟩, h => .mk span span (stmts_like_unparenthesized stmts h)

lemma stmts_like_unparenthesized : ∀ ss : List Stmt, M.Holds (stmtStandings ss) →
    Forall₂ (Stmt.Like M.likeness) ss (stmtsUnparenthesized ss)
  | [], _ => .nil
  | s :: ss, h => .cons (s.like_unparenthesized h.left) (stmts_like_unparenthesized ss h.right)

lemma Stmt.like_unparenthesized (s : Stmt) (h : M.Holds s.standings) : s.Like M.likeness s.unparenthesized := by
  obtain ⟨span,form⟩ := s
  refine .mk trivial ?_
  cases form with
  | decl d => exact .decl (d.like_unparenthesized h)
  | assign target value => exact .assign (target.like_unparenthesized h.left) (value.like_unparenthesized h.right)
  | expr e => exact .expr (e.like_unparenthesized h)
  | ret e =>
    cases e with
    | none => exact .ret .none
    | some e => exact .ret (.some (e.like_unparenthesized h))
  | cond c t e =>
    cases e with
    | none => exact .cond (c.like_unparenthesized h.left) (t.like_unparenthesized h.right) .none
    | some e =>
      have hrest := h.right
      exact .cond (c.like_unparenthesized h.left) (t.like_unparenthesized hrest.left)
        (.some (e.like_unparenthesized hrest.right))
  | loop c b => exact .loop (c.like_unparenthesized h.left) (b.like_unparenthesized h.right)
  | block b => exact .block (b.like_unparenthesized h)

lemma Decl.like_unparenthesized : ∀ d : Decl, M.Holds d.standings → d.Like M.likeness d.unparenthesized
  | .var ⟨id,name,nameSpan,mutable,type,init,span⟩, h => by
    have hrest := h.right
    exact .var (.mk span span rfl (optionalType_like_unparenthesized type h.left) (init.like_unparenthesized hrest.left))
  | .const ⟨id,name,nameSpan,type,value,span⟩, h => by
    have hrest := h.right
    exact .const (.mk span span rfl (optionalType_like_unparenthesized type h.left) (value.like_unparenthesized hrest.left))
  | .func ⟨id,name,nameSpan,params,ret,body,span⟩, h => by
    have hret := h.right
    have hbody := hret.right
    exact .func (.mk span span rfl (params_like_unparenthesized params h.left) (optionalType_like_unparenthesized ret hret.left)
      (body.like_unparenthesized hbody.left))

lemma params_like_unparenthesized : ∀ ps : List Param, M.Holds (paramStandings ps) →
    Forall₂ (Param.Like M.likeness) ps (paramsUnparenthesized ps)
  | [], _ => .nil
  | ⟨_,_,_,type,_⟩ :: ps, h =>
    .cons (.mk rfl (type.like_unparenthesized h.left)) (params_like_unparenthesized ps h.right)

end

end Trees

/-! ## Modules -/

/-- What becomes of the nodes of a module with different numbers. -/
def Module.standingTable (m : Module) (h : m.ids.Nodup) : Standings :=
  ⟨m.standings,m.map_fst_standings ▸ h⟩

lemma Module.states_unparenthesized (m : Module) (h : m.ids.Nodup) :
    (m.standingTable h).likeness.States (m.run .initial).2 (m.unparenthesized.run .initial).2 := by
  have hdecls : Forall₂ (Decl.Like (m.standingTable h).likeness) m.decls m.unparenthesized.decls := by
    refine forall₂_map_right_iff.2 (forall₂_same.2 fun d hd => d.like_unparenthesized ?_)
    exact sublist_flatten_of_mem (mem_map_of_mem hd)
  have hinitial : (m.standingTable h).likeness.States .initial .initial :=
    .initial _ ⟨fun _ _ _ => rfl,fun _ _ => rfl,fun _ _ => rfl⟩
  exact ((Module.run_agree hdecls).ends hinitial).2.1

/-- A module means the same without its parentheses. -/
theorem Module.check_unparenthesized (m : Module) (h : m.ids.Nodup) :
    m.unparenthesized.check.errors.toList.map (·.cause) = m.check.errors.toList.map (·.cause) ∧
      m.unparenthesized.check.scopes = m.check.scopes ∧
      m.unparenthesized.check.introduces = m.check.introduces ∧
      m.unparenthesized.check.valueOf = m.check.valueOf ∧
      m.unparenthesized.check.types = m.check.types ∧
      m.unparenthesized.check.refersTo = m.check.refersTo ∧
      (∀ (n : NodeId) (t t' : Ty), m.check.typeOf[n]? = some t → m.unparenthesized.check.typeOf[n]? = some t' → t' = t) ∧
      ∀ n : NodeId, (n, .plain) ∈ m.standings → m.unparenthesized.check.typeOf[n]? = m.check.typeOf[n]? := by
  have hstates := m.states_unparenthesized h
  have htables : (m.standingTable h).Tables m.check.typeOf m.unparenthesized.check.typeOf := hstates.typeOf
  refine ⟨hstates.causes_eq,hstates.scopes_eq fun _ _ h => h.symm,hstates.introduces,hstates.valueOf,
    hstates.types trivial,hstates.refersTo,fun n t t' ht ht' => ?_,fun n hn => ?_⟩
  · have hsame := htables.same n (fun hn => by rw [htables.wrapper n hn] at ht'; cases ht')
      (fun hn => by rw [htables.wrapped n hn] at ht; cases ht)
    rw [ht, ht'] at hsame
    exact Option.some.inj hsame
  · exact htables.same n (fun hn' => nomatch (m.standingTable h).standing_eq hn hn')
      (fun hn' => nomatch (m.standingTable h).standing_eq hn hn')

/-- A function that is called by name through parentheses, a negated literal in parentheses, and an error. -/
theorem Module.check_unparenthesized_call : ∃ m, Module.parse
    "def f(a: u8) -> u8 \x7b return (a); \x7d const N: i8 = -((5)); let x = (f)(a: (3)); let y: i8 = (x);" = .ok m ∧
    m.ids.Nodup ∧ m.ids.length = m.unparenthesized.ids.length + 6 ∧
    m.check.errors.toList.map (·.cause) = [.typeMismatch "i8" "u8"] ∧
    m.unparenthesized.check.errors.toList.map (·.cause) = m.check.errors.toList.map (·.cause) ∧
    m.unparenthesized.check.scopes = m.check.scopes ∧
    m.unparenthesized.check.introduces = m.check.introduces ∧
    m.unparenthesized.check.valueOf = m.check.valueOf ∧
    m.unparenthesized.check.types = m.check.types ∧
    m.unparenthesized.check.refersTo = m.check.refersTo ∧
    (∀ (n : NodeId) (t t' : Ty), m.check.typeOf[n]? = some t → m.unparenthesized.check.typeOf[n]? = some t' → t' = t) ∧
    ∀ n : NodeId, (n, .plain) ∈ m.standings → m.unparenthesized.check.typeOf[n]? = m.check.typeOf[n]? := by
  obtain ⟨m,hm,htest⟩ := Module.exists_of_test
    "def f(a: u8) -> u8 \x7b return (a); \x7d const N: i8 = -((5)); let x = (f)(a: (3)); let y: i8 = (x);"
    (fun m => m.ids.length == m.unparenthesized.ids.length + 6 &&
      m.check.errors.toList.map (·.cause) == [.typeMismatch "i8" "u8"])
    (by decide +kernel)
  simp only [Bool.and_eq_true, beq_iff_eq] at htest
  have hids : m.ids.Nodup := m.nodup_of_parse hm
  exact ⟨m,hm,hids,htest.1,htest.2,m.check_unparenthesized hids⟩

end Opal
