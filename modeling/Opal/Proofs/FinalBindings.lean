import Opal.Proofs.ReachedStates

/-!
# What is bound in the end

What depends on something that failed is given up without a report, but never before the failure is reported. So if nothing is
wrong with a module, everything about every binding is known. A constant that has a value always has the one that
its declaration defines.
-/

namespace Opal

variable {type : Option Ty} {v : Value} {source : String} {m : Module}

variable {b : BindingId} {s : State} {own : List BindingId} {N : List Node}

/-- Everything is known of a binding, where `N` are the nodes of the module. -/
def Findings.Finished (f : Findings) (N : List Node) (b : BindingId) : Referent → Prop
  | .var type _ stage => stage = .initialized ∧ ∃ t, type = some t ∧ t ≠ .error ∧ t ≠ .void
  | .const _ stage => ∃ v d, stage = .done v ∧ Node.decl (.const d) ∈ N ∧
      f.introduces[d.id]? = some b ∧ f.valueOf[d.id]? = some v
  | .func type params => ∃ ret, type = .function (params.map (·.type)) ret

lemma Advances.const_solved (h : Advances N own .initial s) (hr : s.referent? b = some (.const type (.done v))) :
    ∃ d, Node.decl (.const d) ∈ N ∧ s.introduces[d.id]? = some b ∧ s.Solved d v := by
  obtain ⟨d,hd,hmem,hid⟩ := h.const_declared hr
  exact ⟨d,hmem,hid,(h.sound.stages b d type _ hd hr).2⟩

lemma Advances.finished (h : Advances N own .initial s) (hf : ¬ s.Failing) {r : Referent}
    (hr : s.referent? b = some r) : s.Finished N b r := by
  have hset := h.settled b r (referent?_initial b) hr
  have hwf := h.sound.wellFormed b r hr
  cases r with
  | var type mutable stage =>
    rcases hset with rfl | rfl
    · obtain ⟨t,rfl,ht⟩ := hwf
      exact ⟨rfl,t,rfl,Ty.ne_error_of_isResult (Ty.isResult_of_isValue ht),Ty.ne_void_of_isValue ht⟩
    · exact absurd hwf.1 hf
  | const type stage =>
    cases stage with
    | pending => exact absurd rfl hset.1
    | inProgress => exact absurd rfl hset.2
    | failed => exact absurd hwf.1 hf
    | done v =>
      obtain ⟨d,hmem,hid,hsolved⟩ := h.const_solved hr
      exact ⟨v,d,rfl,hmem,hid,hsolved.recorded⟩
  | func type params =>
    rcases hwf with ⟨ht,-⟩ | ⟨ret,htype,-⟩
    · exact absurd (hset ht) hf
    · exact ⟨ret,htype⟩

/-- An examination is given up without a report only after something was reported. If nothing is wrong, every declaration
introduces a binding, every binding is finished and every name refers to a binding. -/
theorem Module.clean_finished (h : Module.parse source = .ok m) :
    (∀ journal, .dropped :: journal <:+ m.final.journal → (State.replay journal).Failing) ∧
    (m.check.isClean = true → (∀ d, Node.decl d ∈ m.nodes → (m.check.introduces[d.id]?).isSome) ∧
      (∀ b r, m.check.referent? b = some r → m.check.Finished m.nodes b r) ∧
      (∀ e name, Node.expr e ∈ m.nodes → e.form = .name name → (m.check.refersTo[e.id]?).isSome)) := by
  obtain ⟨hstep,hcovers⟩ := m.run_advances h
  refine ⟨fun journal hjournal => hstep.steps.replay_of_suffix hjournal,fun hclean => ?_⟩
  have hf := Findings.not_failing hclean
  have hcomplete := hcovers hf
  refine ⟨hcomplete.introduced,fun b r hr => hstep.finished hf hr,fun e name he hform => ?_⟩
  obtain ⟨r,hr⟩ := Option.isSome_iff_exists.1 (hcomplete.resolved e name he hform)
  obtain ⟨b,hb,-⟩ := Option.bind_eq_some_iff.1 hr
  exact Option.isSome_of_eq_some hb

def Event.isDropped : Event → Bool
  | .dropped => true
  | _ => false

/-- The value of a variable that failed, and in a clean module declarations in a block and constants that name each
other. -/
theorem Module.clean_finished_nested : (∃ m journal, Module.parse "let a: u8 = true; let b = a;" = .ok m ∧
      .dropped :: journal <:+ m.final.journal ∧ (State.replay journal).Failing) ∧
    ∃ m, Module.parse "const N: u8 = M; const M: u8 = 3; def f(x: u8) -> bool \x7b let y = x < N; return y; \x7d" = .ok m ∧
      m.check.isClean = true ∧ m.check.scopes.bindings.size = 5 ∧
      (∀ d, Node.decl d ∈ m.nodes → (m.check.introduces[d.id]?).isSome) ∧
      (∀ b r, m.check.referent? b = some r → m.check.Finished m.nodes b r) ∧
      (∀ e name, Node.expr e ∈ m.nodes → e.form = .name name → (m.check.refersTo[e.id]?).isSome) := by
  constructor
  · obtain ⟨m,hm,htest⟩ := Module.exists_of_test "let a: u8 = true; let b = a;"
      (fun m => m.final.journal.any Event.isDropped) (by decide +kernel)
    obtain ⟨e,he,hdropped⟩ := List.any_eq_true.1 htest
    obtain ⟨later,journal,hjournal⟩ := List.append_of_mem he
    cases e with
    | dropped => exact ⟨m,journal,hm,⟨later,hjournal.symm⟩,(m.clean_finished hm).1 journal ⟨later,hjournal.symm⟩⟩
    | _ => cases hdropped
  · obtain ⟨m,hm,htest⟩ := Module.exists_of_test
      "const N: u8 = M; const M: u8 = 3; def f(x: u8) -> bool \x7b let y = x < N; return y; \x7d"
      (fun m => m.check.isClean && m.check.scopes.bindings.size == 5) (by decide +kernel)
    obtain ⟨hclean,hsize⟩ := Bool.and_eq_true_iff.1 htest
    exact ⟨m,hm,hclean,beq_iff_eq.1 hsize,(m.clean_finished hm).2 hclean⟩

/-- A constant that has a value has a declaration of which it is the exact value; all constants that are named there have
values, and all values in it are in range. -/
theorem Module.constant_solved (h : Module.parse source = .ok m) {b : BindingId}
    (hr : m.check.referent? b = some (.const type (.done v))) :
    type = some v.type ∧ ∃ d, Node.decl (.const d) ∈ m.nodes ∧ m.check.introduces[d.id]? = some b ∧ m.check.Solved d v := by
  have hstep := (m.run_advances h).1
  exact ⟨hstep.sound.wellFormed b _ hr,hstep.const_solved hr⟩

/-- A quotient of negative numbers, in a module with an error. -/
theorem Module.constant_solved_quotient : ∃ m type,
    Module.parse "const A: i8 = B / -2 - 1; const B: i8 = -7; let c: u8 = true;" = .ok m ∧
      m.check.isClean = false ∧ m.check.referent? 0 = some (.const type (.done (.int 2 .i8))) ∧
        ∃ d, Node.decl (.const d) ∈ m.nodes ∧ m.check.introduces[d.id]? = some 0 ∧ m.check.Solved d (.int 2 .i8) := by
  obtain ⟨m,hm,htest⟩ := Module.exists_of_test "const A: i8 = B / -2 - 1; const B: i8 = -7; let c: u8 = true;"
    (fun m => !m.check.isClean && m.check.referent? 0 == some (.const (some (.int .i8)) (.done (.int 2 .i8)))) (by decide +kernel)
  obtain ⟨hbad,hr⟩ := Bool.and_eq_true_iff.1 htest
  have hr := beq_iff_eq.1 hr
  exact ⟨m,_,hm,by simpa using hbad,hr,(m.constant_solved hm hr).2⟩

end Opal
