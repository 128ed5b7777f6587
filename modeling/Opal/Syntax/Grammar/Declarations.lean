import Opal.Syntax.Grammar.Rules

/-!
# The grammar of declarations

- `let [mut] name [: T] = e;` declares a variable,
- `const name [: T] = e;` declares a constant,
- `def name(params) [-> T] { ... }` declares a function.
-/

namespace Opal

/-- A declaration as it stands in a module or a block, with the span of the tokens that were taken for it. -/
structure Item where
  decl : Decl
  span : Span

namespace Rules

open Parse

def varRule (rules : Rules) : Parse VarDecl := do
  let start := (← expect (.keyword .letK)).span
  let mutable ← eat (.keyword .mutK)
  let (name, nameSpan) ← bindingName
  let type ← optionally (.punct .colon) rules.type
  let _ ← expect (.punct .assign)
  let init ← rules.expr 0
  let _ ← expect (.punct .semi)
  let id ← freshId
  return ⟨id,name,nameSpan,mutable,type,init,← spanSince start⟩

def constRule (rules : Rules) : Parse ConstDecl := do
  let start := (← expect (.keyword .constK)).span
  let (name, nameSpan) ← bindingName
  let type ← optionally (.punct .colon) rules.type
  let _ ← expect (.punct .assign)
  let value ← rules.expr 0
  let _ ← expect (.punct .semi)
  let id ← freshId
  return ⟨id,name,nameSpan,type,value,← spanSince start⟩

/-- A parameter is marked in front: as anonymous, and as mutable. -/
def paramRule (rules : Rules) : Parse Param := do
  let start := (← peek).span
  let anonymous ← eat (.keyword .anonK)
  let mutable ← eat (.keyword .mutK)
  let (name, _) ← bindingName
  let _ ← expect (.punct .colon)
  let type ← rules.type
  return ⟨name,anonymous,mutable,type,← spanSince start⟩

def funRule (rules : Rules) : Parse FunDecl := do
  let start := (← expect (.keyword .defK)).span
  let (name, nameSpan) ← bindingName
  let _ ← expect (.punct .lparen)
  let params ← sepUntil (.punct .rparen) rules.paramRule
  let _ ← expect (.punct .rparen)
  let ret ← optionally (.punct .arrow) rules.type
  let body ← rules.block
  let id ← freshId
  return ⟨id,name,nameSpan,params,ret,body,← spanSince start⟩

/-- The first keyword decides on the kind of the declaration. -/
def declRule (rules : Rules) : Parse Decl := do
  if ← check (.keyword .letK) then return .var (← rules.varRule)
  else if ← check (.keyword .constK) then return .const (← rules.constRule)
  else if ← check (.keyword .defK) then return .func (← rules.funRule)
  else refuse .declaration

def itemRule (rules : Rules) : Parse Item := do
  let start := (← peek).span
  let decl ← rules.declRule
  return ⟨decl,← spanSince start⟩

end Rules

end Opal
