import Opal.Syntax.Grammar.Statements
import Opal.Syntax.Grammar.Types

/-!
# Parsing

A rule calls the rules inside it after it has taken a token, so as many steps as there are tokens are enough.
-/

namespace Opal

namespace Rules

/-- The rules for sequences of one token more than `rules` is right for. -/
def step (rules : Rules) : Rules where
  type := rules.typeRule
  expr := rules.exprRule
  unary := rules.unaryRule
  block := rules.blockRule
  cond := rules.condRule
  stmt := rules.stmtRule

/-- The rules for sequences of at most `n` tokens. -/
def within : Nat → Rules
  | 0 => atEnd
  | n + 1 =>
    { type := fun c => (step (within n)).type c
      expr := fun least c => (step (within n)).expr least c
      unary := fun c => (step (within n)).unary c
      block := fun c => (step (within n)).block c
      cond := fun c => (step (within n)).cond c
      stmt := fun c => (step (within n)).stmt c }

/-- A module: declarations up to the end of the input. -/
def moduleRule (rules : Rules) : Parse Module := do
  let start := (← Parse.peek).span
  let items ← Parse.many [.eof] rules.itemRule
  return ⟨items.map Item.decl,← Parse.spanSince start⟩

end Rules

/-- The module that a source text spells, or the first error in it. -/
def Module.parse (source : String) : Except SyntaxError Module :=
  (Rules.within (Cursor.ofSource source).tokens.length).moduleRule.onSource source

end Opal
