import Opal.Proofs.Charges
import Opal.Proofs.LifeCycles
import Opal.Proofs.Verdicts

/-!
# Evaluations inside one another

An evaluation inside another one starts with fewer constants pending, so the recursion has exactly one solution.
-/

namespace Opal

open List Option

variable {s : State} {n : Nat} {constants : Constants} {b : BindingId}

/-! ## The number of pending constants -/

namespace State

variable {s s' : State} {b : BindingId}

lemma card_pending_le_size (s : State) : s.pending.card ≤ s.scopes.bindings.size := by
  have howed (b : BindingId) : (s.owed b).card ≤ 1 := by
    unfold owed
    split
    · cases s.constants[b]? <;> simp
    · simp
  calc s.pending.card = ∑ b ∈ Finset.range s.scopes.bindings.size, (s.owed b).card := map_sum Multiset.cardHom _ _
    _ ≤ ∑ _b ∈ Finset.range s.scopes.bindings.size, 1 := Finset.sum_le_sum fun b _ => howed b
    _ = s.scopes.bindings.size := by simp

lemma Noted.pending_eq (h : s.Noted s') : s'.pending = s.pending := by
  unfold pending owed isPending
  rw [h.scopes, h.constants]

lemma card_pending_begun {d : ConstDecl} (hb : s.isPending b = true) (hd : s.constants[b]? = some d) :
    (s.begun b).pending.card < s.pending.card := by
  have hcard := congrArg Multiset.card (pending_begin hb hd)
  rw [Multiset.card_add, Multiset.card_singleton] at hcard
  change 1 + (s.begun b).pending.card = s.pending.card at hcard
  omega

lemma card_pending_decided (s : State) (b : BindingId) (t : Ty) (stage : ConstStage) (hstage : stage ≠ .pending) :
    (s.marked b fun r => (r.setConstType t).setConstStage stage).pending.card ≤ s.pending.card := by
  refine Multiset.card_le_card (pending_marked_le fun r => ?_)
  cases r with
  | var | func => exact id
  | const => cases stage <;> simp [Referent.setConstType, Referent.setConstStage, Referent.isPending] at hstage ⊢

end State

/-! ## What an evaluation depends on -/

/-- A constant that is pending is evaluated, and any other is only looked up. -/
theorem run_evaluateWith_cases (s : State) (b : BindingId) : (∃ scope d, s.isPending b = true ∧ s.constants[b]? = some d ∧
      ∀ constants, (evaluateWith constants b).run s = (evaluateFresh constants b scope d).run s) ∨
    ∃ r, (∀ v, r = .ok v → ∃ type, s.referent? b = some (.const type (.done v))) ∧
      ∀ constants, (evaluateWith constants b).run s = (r, s) := by
  unfold evaluateWith State.isPending Findings.referent?
  simp only [Check.run_bind, Check.run_get]
  cases s.scopes.bindings[b]? with
  | none => exact .inr ⟨.error .blocked,nofun,fun _ => rfl⟩
  | some x =>
    obtain ⟨name,scope,span,r⟩ := x
    cases r with
    | var | func => exact .inr ⟨.error .blocked,nofun,fun _ => rfl⟩
    | const type stage =>
      cases stage with
      | inProgress | failed => exact .inr ⟨.error .blocked,nofun,fun _ => rfl⟩
      | done v =>
        refine .inr ⟨.ok v,?_,fun _ => rfl⟩
        rintro _ ⟨⟩
        exact ⟨type,rfl⟩
      | pending =>
        cases s.constants[b]? with
        | none => exact .inr ⟨.error .blocked,nofun,fun _ => rfl⟩
        | some d => exact .inl ⟨scope,d,rfl,rfl,fun _ => rfl⟩

section Invariants

/-- What notes have no influence on. -/
def Unnoted (I : State → Prop) : Prop :=
  ∀ s e, Event.isNote e = true → I s → I (s.step e)

variable {I : State → Prop} {hI : Unnoted I}

/-- Two runs that go through the same states, which are as `I` says. -/
def invariantly (hI : Unnoted I) : ConstantCoupling where
  __ := Coupling.ofRel (W := Unit) (fun _ _ => True) (fun _ => trivial) (fun _ _ => trivial) fun _ s s' => s = s' ∧ I s
  stands _ c c' _ := c = c'
  site _ _ := True
  stands_mono _ h := h
  begun _ _ _ _ _ h := ⟨(),trivial,congrArg (State.step · _) h.1,hI _ _ rfl h.2⟩
  typed _ _ _ _ _ h := ⟨(),trivial,congrArg (State.step · _) h.1,hI _ _ rfl h.2⟩
  built _ _ _ _ h := ⟨(),trivial,⟨congrArg (State.step · _) h.1,hI _ _ rfl h.2⟩,trivial⟩
  inSize := by
    rintro w size e _ s s' ⟨rfl,hrel⟩
    exact ⟨rfl,hrel⟩

/-- The constants have the same values, as `P` says, and keep up the invariant. -/
def Constants.AgreeOn (I : State → Prop) (P : Value → Prop) (constants constants' : Constants) : Prop :=
  ∀ b s, I s → (constants b).run s = (constants' b).run s ∧ I ((constants b).run s).2 ∧ ∀ v, ((constants b).run s).1 = .ok v → P v

variable {P : Value → Prop} {constants constants' : Constants}

lemma Constants.AgreeOn.constantName (h : Constants.AgreeOn I P constants constants')
    (w : (invariantly hI).World) (c : ScopeId) (id : NodeId) (name : String) (span : Span) :
    (invariantly hI).InStep w (constantName constants c id name span) (constantName constants' c id name span)
      fun _ v v' => v = v' ∧ P v := by
  rintro s _ ⟨rfl,hs⟩
  unfold Opal.constantName
  rw [Check.run_bind, Check.run_bind, run_findFrom]
  cases hb : s.scopes.lookup c name span with
  | error e => exact .stopped ⟨rfl,(),trivial,rfl,hs⟩
  | ok b =>
    obtain ⟨r,hr⟩ := Findings.referent?_isSome (f := s.toFindings) (ScopeTree.lookup_lt hb)
    have hs' : I (s.resolved id b) := hI _ _ rfl hs
    dsimp only
    rw [Check.run_bind, Check.run_bind, run_referentOf (s := s.resolved id b) hr]
    obtain ⟨heq,hinv,hP⟩ := h b (s.resolved id b) hs'
    have hends : (invariantly hI).Ends w (fun _ v v' => v = v' ∧ P v) ((constants b).run (s.resolved id b))
        ((constants' b).run (s.resolved id b)) := by
      rw [← heq]
      generalize (constants b).run (s.resolved id b) = out at hinv hP
      obtain ⟨r | v,s1⟩ := out
      · exact .stopped ⟨rfl,(),trivial,rfl,hinv⟩
      · exact .result ((invariantly hI).le_refl ()) ⟨rfl,hinv⟩ ⟨rfl,hP v rfl⟩
    cases r with
    | var | func => exact .stopped ⟨rfl,(),trivial,rfl,hs'⟩
    | const type stage =>
      cases stage with
      | inProgress => exact .stopped ⟨rfl,(),trivial,rfl,hs'⟩
      | pending | done | failed => exact hends

lemma Constants.AgreeOn.names (h : Constants.AgreeOn I P constants constants') (hI : Unnoted I) :
    (invariantly hI).Names constants constants' := by
  rintro w c _ id span name ⟨Γ,rfl,-⟩
  exact (h.constantName w c id name span).mono fun _ _ _ _ hv => hv.1

lemma run_eq_of_ends {α : Type} {w : (invariantly hI).World} {Q : α → Prop} {out out' : Except Stop α × State}
    (h : (invariantly hI).Ends w (fun _ a a' => a = a' ∧ Q a) out out') : out = out' ∧ I out.2 ∧ ∀ a, out.1 = .ok a → Q a := by
  cases h with
  | result _ hrel hv =>
    obtain ⟨rfl,hs⟩ := hrel
    obtain ⟨rfl,hQ⟩ := hv
    exact ⟨rfl,hs,fun _ h => Except.ok.inj h ▸ hQ⟩
  | stopped hstopped =>
    obtain ⟨he,-,-,heq,hs⟩ := hstopped
    cases he
    cases heq
    exact ⟨rfl,hs,nofun⟩
  | alone hlax => exact hlax.elim

end Invariants

/-- The evaluations agree as long as fewer than `k` constants are pending, and no constant is pending because of
them. -/
def AgreeBelow (k : Nat) (constants constants' : Constants) : Prop :=
  ∀ b s, s.pending.card < k → (constants b).run s = (constants' b).run s ∧ ((constants b).run s).2.pending.card ≤ s.pending.card

section Agreement

variable {constants constants' : Constants} {k : Nat}

lemma AgreeBelow.evaluateDecl (h : AgreeBelow (k + 1) constants constants') (scope : ScopeId) (d : ConstDecl)
    (hs : s.pending.card ≤ k) :
    (evaluateDecl constants scope d).run s = (evaluateDecl constants' scope d).run s ∧
      ((evaluateDecl constants scope d).run s).2.pending.card ≤ k := by
  have hnote : Unnoted fun s => s.pending.card ≤ k := fun s e he hs =>
    (congrArg Multiset.card (s.noted_step he).pending_eq).trans_le hs
  have hagree : Constants.AgreeOn (fun s => s.pending.card ≤ k) (fun _ => True) constants constants' := by
    intro b s hs
    obtain ⟨heq,hle⟩ := h b s (Nat.lt_succ_of_le hs)
    exact ⟨heq,hle.trans hs,fun _ _ => trivial⟩
  have hends := evaluateDecl_inStep (c := scope) (hagree.names hnote) d (w := ()) ⟨[],rfl,fun _ _ => trivial⟩ s s ⟨rfl,hs⟩
  obtain ⟨heq,hk,-⟩ := run_eq_of_ends (w := ()) (Q := fun _ => True) (hends.mono trivial fun _ _ _ _ hv => ⟨hv,trivial⟩)
  exact ⟨heq,hk⟩

/-- An evaluation depends only on what constants give while fewer constants are pending than at its beginning. -/
theorem AgreeBelow.evaluateWith (h : AgreeBelow k constants constants') :
    AgreeBelow (k + 1) (evaluateWith constants) (evaluateWith constants') := by
  intro b s hs
  rcases run_evaluateWith_cases s b with ⟨scope,d,hb,hd,hrun⟩ | ⟨r,-,hrun⟩
  · have hlt := State.card_pending_begun hb hd
    have hbelow : AgreeBelow ((s.begun b).pending.card + 1) constants constants' :=
      fun b' s' hs' => h b' s' (by omega)
    obtain ⟨heq,hle⟩ := hbelow.evaluateDecl scope d le_rfl
    rw [hrun, hrun, run_evaluateFresh, run_evaluateFresh, ← heq]
    refine ⟨rfl,?_⟩
    generalize (Opal.evaluateDecl constants scope d).run (s.begun b) = out at hle
    obtain ⟨(e | _) | v,s1⟩ := out
    · exact ((s1.step (.reported e)).card_pending_decided b .error .failed nofun).trans (hle.trans hlt.le)
    · exact (s1.card_pending_decided b .error .failed nofun).trans (hle.trans hlt.le)
    · exact (s1.card_pending_decided b v.type (.done v) nofun).trans (hle.trans hlt.le)
  · rw [hrun, hrun]
    exact ⟨rfl,le_rfl⟩

end Agreement

/-! ## The recursion -/

/-- The bound on the depth of evaluations does not matter as long as it exceeds the number of pending constants. -/
theorem agreeBelow_constantWithin : ∀ {k n n' : Nat}, k ≤ n → k ≤ n' → AgreeBelow k (constantWithin n) (constantWithin n')
  | 0, _, _, _, _ => fun _ _ hs => absurd hs (Nat.not_lt_zero _)
  | _ + 1, _ + 1, _ + 1, hn, hn' =>
    (agreeBelow_constantWithin (Nat.le_of_succ_le_succ hn) (Nat.le_of_succ_le_succ hn')).evaluateWith

lemma run_constantWithin (h : s.pending.card < n) (b : BindingId) : (constantWithin n b).run s = (constantValue b).run s := by
  rw [run_constantValue]
  exact (agreeBelow_constantWithin h (Nat.succ_le_succ s.card_pending_le_size) b s (Nat.lt_succ_self _)).1

lemma agreeBelow_constantValue (k : Nat) : AgreeBelow k (constantWithin k) constantValue :=
  fun b s hs => ⟨run_constantWithin hs b,(agreeBelow_constantWithin le_rfl le_rfl b s hs).2⟩

/-- Constants are evaluated with the values of the constants they name. -/
theorem constantValue_eq (b : BindingId) : constantValue b = evaluateWith constantValue b := by
  funext s
  exact (run_constantWithin (Nat.lt_succ_self _) b).symm.trans
    ((agreeBelow_constantValue s.pending.card).evaluateWith b s (Nat.lt_succ_self _)).1

lemma agreeBelow_of_eq (h : ∀ b, constants b = evaluateWith constants b) : ∀ k, AgreeBelow k (constantWithin k) constants
  | 0 => fun _ _ hs => absurd hs (Nat.not_lt_zero _)
  | k + 1 => by
    intro b s hs
    rw [h b]
    exact (agreeBelow_of_eq h k).evaluateWith b s hs

lemma eq_constantValue (h : ∀ b, constants b = evaluateWith constants b) : constants = constantValue := by
  funext b s
  exact (agreeBelow_of_eq h (s.pending.card + 1) b s (Nat.lt_succ_self _)).1.symm.trans
    (run_constantWithin (Nat.lt_succ_self _) b)

/-- Evaluates a constant as long as fewer than `n` constants are pending, and does something else otherwise. -/
def evaluatedBelow (n : Nat) (constants other : Constants) : Constants := fun b => do
  if (← get).pending.card < n then constants b else other b

lemma run_evaluatedBelow (h : s.pending.card < n) (constants other : Constants)
    (b : BindingId) : (evaluatedBelow n constants other b).run s = (constants b).run s := by
  rw [evaluatedBelow, Check.run_bind, Check.run_get]
  dsimp only
  rw [if_pos h]

lemma run_evaluateWith_evaluatedBelow (s : State) (b : BindingId) (other : Constants) :
    (evaluateWith (evaluatedBelow s.pending.card constantValue other) b).run s = (constantValue b).run s := by
  have h : AgreeBelow s.pending.card (constantWithin s.pending.card)
      (evaluatedBelow s.pending.card constantValue other) := fun b' s' hs' => by
    rw [run_evaluatedBelow hs']
    exact agreeBelow_constantValue _ b' s' hs'
  exact (h.evaluateWith b s (Nat.lt_succ_self _)).1.symm.trans (run_constantWithin (Nat.lt_succ_self _) b)

/-! ## One evaluation for each constant -/

/-- The constant whose evaluation begins with the step. -/
def Event.evaluates? : Event → Option BindingId
  | .changed b (.const none .inProgress) => some b
  | _ => none

/-- The constants whose evaluation has begun, the latest first. -/
def State.evaluated (s : State) : List BindingId :=
  s.journal.filterMap Event.evaluates?

lemma Event.evaluates?_eq_some {e : Event} : e.evaluates? = some b ↔ e = .changed b (.const none .inProgress) := by
  unfold Event.evaluates?
  split
  · simp
  · next h => exact ⟨nofun,fun he => (h b he).elim⟩

lemma State.entry_of_mem_evaluated (h : b ∈ s.evaluated) : .const none .inProgress ∈ s.entries b := by
  obtain ⟨e,he,hb⟩ := mem_filterMap.1 h
  obtain rfl := Event.evaluates?_eq_some.1 hb
  exact mem_filterMap.2 ⟨_,he,if_pos rfl⟩

lemma Steps.mem_evaluated_iff (h : Steps State.Allows .initial s) :
    b ∈ s.evaluated ↔ .const none .inProgress ∈ s.entries b := by
  refine ⟨State.entry_of_mem_evaluated,?_⟩
  induction h with
  | refl => simp [State.entries, State.initial]
  | @step s1 e h he ih =>
    rw [s1.entries_step, mem_append, mem_toList]
    rintro (hentry | hentry)
    · cases e with
      | bound b' x =>
        obtain ⟨-,hinitial⟩ := he
        obtain ⟨-,hx⟩ := (ite_none_right_eq_some ..).1 hentry
        rw [Option.some.inj hx] at hinitial
        cases hinitial
      | changed b' r =>
        obtain ⟨rfl,hr⟩ := (ite_none_right_eq_some ..).1 hentry
        obtain rfl := Option.some.inj hr
        exact mem_cons_self
      | _ =>
        cases hentry
    · exact mem_filterMap.2 (by
        obtain ⟨e',he',hb⟩ := mem_filterMap.1 (ih hentry)
        exact ⟨e',mem_cons_of_mem e he',hb⟩)

lemma State.Tells.not_mem_evaluated (h : s.Tells b) (hr : s.referent? b = some (.const none .pending)) : b ∉ s.evaluated := by
  intro hmem
  rcases h with ⟨-,hnone⟩ | ⟨r,l,hentries,hr',hcourse⟩
  · cases hnone.symm.trans hr
  · obtain rfl := mem_unique hr' hr
    have hentry := entry_of_mem_evaluated hmem
    rw [hentries] at hentry
    cases hcourse with
    | start => simp at hentry
    | next h hnext => cases hnext

lemma Steps.nodup_evaluated (h : Steps State.Allows .initial s) : s.evaluated.Nodup := by
  induction h with
  | refl => exact nodup_nil
  | @step s1 e h he ih =>
    change ((e :: s1.journal).filterMap Event.evaluates?).Nodup
    rw [filterMap_cons]
    cases hb : e.evaluates? with
    | none => exact ih
    | some b =>
      obtain rfl := Event.evaluates?_eq_some.1 hb
      obtain ⟨r,hr,hnext⟩ := he
      cases hnext with
      | inProgress => exact ih.cons ((h.tells b).not_mem_evaluated hr)

lemma Referent.LifeCycle.inProgress_mem_iff {l : List Referent} (h : LifeCycle l) :
    .const none .inProgress ∈ l ↔ ∃ type stage, l.getLast? = some (.const type stage) := by
  cases h <;> simp

/-- Constants are evaluated by a recursion that ends. There is one way only to give all constants a value by
evaluating them with the values of the constants they name. What an evaluation does when no fewer constants are pending
than at its beginning is of no importance, so every evaluation inside of it has fewer constants pending; hence any bound
on the depth that exceeds their number is as good as none. A constant that is not pending is only looked up, and in
the whole run the evaluation of each constant begins exactly once. -/
theorem Module.evaluations_end {source : String} {m : Module} (h : Module.parse source = .ok m) :
    (∀ constants : Constants, (∀ b, constants b = evaluateWith constants b) ↔ constants = constantValue) ∧
    (∀ (s : State) b other,
      (evaluateWith (evaluatedBelow s.pending.card constantValue other) b).run s = (constantValue b).run s) ∧
    (∀ (s : State) b n, s.pending.card < n → (constantWithin n b).run s = (constantValue b).run s) ∧
    (∀ (s : State) b constants, s.isPending b = false → ((evaluateWith constants b).run s).2 = s) ∧
    m.final.evaluated.Nodup ∧
    ∀ b, b ∈ m.final.evaluated ↔ ∃ type stage, m.check.referent? b = some (.const type stage) := by
  obtain ⟨hadvances,-⟩ := m.run_advances h
  change Advances m.nodes [] .initial m.final at hadvances
  refine ⟨fun constants => ⟨eq_constantValue,fun heq => heq ▸ constantValue_eq⟩,run_evaluateWith_evaluatedBelow,
    fun s b n hn => run_constantWithin hn b,fun s b constants hb => ?_,hadvances.steps.nodup_evaluated,fun b => ?_⟩
  · rcases run_evaluateWith_cases s b with ⟨_,_,hpending,-⟩ | ⟨r,-,hrun⟩
    · cases hb.symm.trans hpending
    · rw [hrun]
  rw [hadvances.steps.mem_evaluated_iff, show m.check.referent? b = m.final.referent? b from rfl]
  rcases hadvances.steps.tells b with ⟨hentries,hnone⟩ | ⟨r,l,hentries,hr,hcourse⟩
  · simp [hentries, hnone]
  · have hcycle := hcourse.lifeCycle (hadvances.settled b r (referent?_initial b) hr)
    have hiff := hcycle.inProgress_mem_iff
    rwa [mem_reverse, getLast?_reverse, head?_cons, ← hr, ← hentries] at hiff

/-- Constants that need each other through an annotation, an initial value and the size of an array. -/
theorem Module.evaluations_end_nested : ∃ m,
    Module.parse "let x: [u8, a] = [1, 2]; const a: u32 = b + 1; const b = c; const c: u32 = 1; const d = d;" = .ok m ∧
      m.final.evaluated.length = 4 ∧ m.final.evaluated.Nodup := by
  obtain ⟨m,hm,htest⟩ := Module.exists_of_test
    "let x: [u8, a] = [1, 2]; const a: u32 = b + 1; const b = c; const c: u32 = 1; const d = d;"
    (fun m => m.final.evaluated.length == 4) (by decide +kernel)
  exact ⟨m,hm,beq_iff_eq.1 htest,(m.evaluations_end hm).2.2.2.2.1⟩

end Opal
