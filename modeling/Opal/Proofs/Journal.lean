import Opal.Check.Declaration
import Opal.Proofs.TypingRules

/-!
# The steps of a check

The state of a check changes by elementary steps only, which the journal holds. A check is lawful if each step is allowed in the
state in which it is taken.
-/

namespace Opal

/-! ## Sequences of steps -/

/-- `s'` is reached from `s` by steps as `P` says, each in the state in which it is taken. -/
inductive Steps (P : State → Event → Prop) (s : State) : State → Prop where
  | refl : Steps P s s
  | step {s1 : State} (e : Event) : Steps P s s1 → P s1 e → Steps P s (s1.step e)

namespace Steps

variable {P : State → Event → Prop} {s s1 s2 : State}

lemma single {e : Event} (h : P s e) : Steps P s (s.step e) :=
  .step e .refl h

lemma trans (h : Steps P s s1) (h' : Steps P s1 s2) : Steps P s s2 := by
  induction h' with
  | refl => exact h
  | step e _ he ih => exact .step e ih he

lemma around {e e' : Event} (h : Steps P (s.step e) s1) (he : P s e) (he' : P s1 e') : Steps P s (s1.step e') :=
  .step e' (.trans (.single he) h) he'

end Steps

namespace Referent

/-- What a name can be bound to at first. -/
inductive IsInitial : Referent → Prop where
  | var (mutable : Bool) : IsInitial (.declaredVar mutable)
  | const : IsInitial .declaredConst
  | func : IsInitial .declaredFunc
  /-- Parameters hold a value from the start. -/
  | param {t : Ty} (mutable : Bool) (ht : t.isValue = true) : IsInitial (.initializedVar t mutable)

/-- What a name is bound to after one more stage of its examination. -/
inductive Next : Referent → Referent → Prop where
  | initializing (mutable : Bool) :
    Next (.var none mutable .declared) (.var none mutable .initializing)
  | initialized {t : Ty} (mutable : Bool) (ht : t.isValue = true) :
    Next (.var none mutable .initializing) (.var (some t) mutable .initialized)
  | uninitialized (mutable : Bool) :
    Next (.var none mutable .initializing) (.var (some .error) mutable .failed)
  | inProgress : Next (.const none .pending) (.const none .inProgress)
  | done (v : Value) : Next (.const none .inProgress) (.const (some v.type) (.done v))
  | failed : Next (.const none .inProgress) (.const (some .error) .failed)
  | signature (params : List Formal) (ret : Ty) :
    Next (.func .error []) (.func (.function (params.map (·.type)) ret) params)

end Referent

/-- The steps that may be taken in a state: a name is bound to something that its examination can begin with, and
changes from stage to stage; a declaration introduces the binding made for it, once; a value is
noted for a constant that has it; and what is dropped has a cause that was reported. -/
def State.Allows (s : State) : Event → Prop
  | .bound b binding => b = s.scopes.bindings.size ∧ binding.referent.IsInitial
  | .changed b r' => ∃ r, s.referent? b = some r ∧ r.Next r'
  | .introduced d b => s.introduces[d.id]? = none ∧
    ∃ scope, s.journal.head? = some (.bound b ⟨d.name,scope,d.nameSpan,d.referent⟩)
  | .valued id v => ∃ b, s.introduces[id]? = some b ∧
    s.referent? b = some (.const (some v.type) (.done v))
  | .dropped => s.errors ≠ #[]
  | _ => True

end Opal
