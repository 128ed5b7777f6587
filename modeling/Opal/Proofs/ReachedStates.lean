import Mathlib.Data.List.Infix
import Opal.Proofs.OrderlyRuns

/-!
# The states that a check goes through

The states that a check went through are had by taking the steps of the journal once more, up to any point.
-/

namespace Opal

open List

/-- The state after the steps of a journal, of which the latest comes first. -/
def State.replay : List Event → State
  | [] => .initial
  | e :: journal => (replay journal).step e

/-- The state in which the check of a module ends. -/
def Module.final (m : Module) : State :=
  (m.run State.initial).2

/-- The states that the check of a module goes through, from the last one to the first. -/
def Module.states (m : Module) : List State :=
  m.final.journal.tails.map State.replay

lemma State.journal_replay : ∀ journal : List Event, (State.replay journal).journal = journal
  | [] => rfl
  | e :: journal => congrArg (e :: ·) (journal_replay journal)

namespace Steps

variable {P : State → Event → Prop} {s : State}

section

variable (h : Steps P .initial s) {journal : List Event}
include h

lemma replay_journal : State.replay s.journal = s := by
  induction h with
  | refl => rfl
  | step e _ _ ih => exact congrArg (·.step e) ih

/-- Every step of the journal was taken in the state that came about before it. -/
theorem replay_of_suffix {e : Event} (hsuffix : e :: journal <:+ s.journal) : P (State.replay journal) e := by
  induction h with
  | refl => exact absurd (suffix_nil.1 hsuffix) (cons_ne_nil e journal)
  | @step s1 e' h he ih =>
    rcases suffix_cons_iff.1 hsuffix with heq | hsuffix
    · cases heq
      rw [h.replay_journal]
      exact he
    · exact ih hsuffix

lemma forall_replay {Q : State → Prop} (hinitial : Q .initial) (hstep : ∀ s e, Q s → P s e → Q (s.step e))
    (hsuffix : journal <:+ s.journal) : Q (State.replay journal) := by
  induction journal with
  | nil => exact hinitial
  | cons e journal ih =>
    exact hstep _ e (ih ((suffix_cons e journal).trans hsuffix)) (h.replay_of_suffix hsuffix)

/-- The states on the way are reached by such steps, and so is the last one from them. -/
theorem at_suffix (hsuffix : journal <:+ s.journal) :
    Steps P .initial (State.replay journal) ∧ Steps P (State.replay journal) s := by
  induction h with
  | refl =>
    obtain rfl := suffix_nil.1 hsuffix
    exact ⟨.refl,.refl⟩
  | @step s1 e h he ih =>
    rcases suffix_cons_iff.1 hsuffix with rfl | hsuffix
    · rw [State.replay, h.replay_journal]
      exact ⟨.step e h he,.refl⟩
    · exact ⟨(ih hsuffix).1,.step e (ih hsuffix).2 he⟩

end

end Steps

/-- Every state of a check is intact, from the first one to the last, and every step speaks of types, bindings and
scopes that are there. -/
theorem Module.states_intact {source : String} {m : Module} (h : Module.parse source = .ok m) :
    (m.states.head? = some m.final ∧ m.states.getLast? = some .initial) ∧ (∀ s ∈ m.states, s.Intact) ∧
        ∀ e journal, e :: journal <:+ m.final.journal → (State.replay journal).Admits e := by
  have hsteps : Steps State.Admits .initial m.final := (m.run_orderly (m.nodup_of_parse h)).2
  refine ⟨⟨?_,?_⟩,fun s hs => ?_,fun e journal => hsteps.replay_of_suffix⟩
  · have hhead : m.final.journal.tails.head? = some m.final.journal := by
      cases m.final.journal <;> rfl
    rw [Module.states, head?_map, hhead, Option.map_some, hsteps.replay_journal]
  · have hlast (l : List Event) : l.tails.getLast? = some [] := by
      induction l with
      | nil => rfl
      | cons e l ih => rw [List.tails, getLast?_cons, ih, Option.getD_some]
    rw [Module.states, getLast?_map, hlast]
    rfl
  · obtain ⟨journal,hjournal,rfl⟩ := mem_map.1 hs
    exact hsteps.forall_replay State.intact_initial (fun s e hs he => hs.step he) ((mem_tails _ _).1 hjournal)

/-- A lambda against a function type, and a variable that cannot hold the result of a call. -/
theorem Module.states_intact_lambda : ∃ m, Module.parse
      "def g() \x7b \x7d let f: def(u8) -> u8 = (x) => x; let a = g(); let s = [f(1)]; let r = &s;" = .ok m ∧
    m.check.codes = ["InvalidType"] ∧ 40 < m.states.length ∧ ∀ s ∈ m.states, s.Intact := by
  obtain ⟨m,hm,htest⟩ := Module.exists_of_test
    "def g() \x7b \x7d let f: def(u8) -> u8 = (x) => x; let a = g(); let s = [f(1)]; let r = &s;"
    (fun m => m.check.codes == ["InvalidType"] && decide (40 < m.states.length)) (by decide +kernel)
  obtain ⟨hcodes,hlength⟩ := Bool.and_eq_true_iff.1 htest
  exact ⟨m,hm,beq_iff_eq.1 hcodes,of_decide_eq_true hlength,(m.states_intact hm).2.1⟩

end Opal
