import Opal.Proofs.Resolution

/-!
# The life cycles of bindings

The journal tells everything that a name is ever bound to. No stage is left out and none comes twice, and in the end all
bindings have come to the end of their life cycle.
-/

namespace Opal

open List Option

variable {b : BindingId} {s : State} {l : List Referent} {v : Value}

def Event.binds? (b : BindingId) : Event → Option Referent
  | .bound b' x => if b' = b then some x.referent else none
  | .changed b' r => if b' = b then some r else none
  | _ => none

def State.entries (s : State) (b : BindingId) : List Referent :=
  s.journal.filterMap (Event.binds? b)

def State.history (s : State) (b : BindingId) : List Referent :=
  (s.entries b).reverse

namespace Referent

/-- The histories of bindings whose examination has ended. -/
inductive LifeCycle : List Referent → Prop where
  | initialized (mutable : Bool) {t : Ty} (ht : t.isValue = true) :
    LifeCycle [.var none mutable .declared, .var none mutable .initializing, .var (some t) mutable .initialized]
  | uninitialized (mutable : Bool) :
    LifeCycle [.var none mutable .declared, .var none mutable .initializing, .var (some .error) mutable .failed]
  | done (v : Value) :
    LifeCycle [.const none .pending, .const none .inProgress, .const (some v.type) (.done v)]
  | failed :
    LifeCycle [.const none .pending, .const none .inProgress, .const (some .error) .failed]
  | unknown : LifeCycle [.func .error []]
  | signature (params : List Formal) (ret : Ty) :
    LifeCycle [.func .error [], .func (.function (params.map (·.type)) ret) params]
  | param (mutable : Bool) {t : Ty} (ht : t.isValue = true) :
    LifeCycle [.var (some t) mutable .initialized]

/-- What a name is bound to, the latest first, if it goes from stage to stage. -/
inductive Course : List Referent → Prop where
  | start {r : Referent} (h : r.IsInitial) : Course [r]
  | next {r r' : Referent} {l : List Referent} (h : Course (r :: l)) (hnext : r.Next r') :
    Course (r' :: r :: l)

lemma Course.eq_declared {mutable : Bool}
    (h : Course (.var none mutable .initializing :: l)) : l = [.var none mutable .declared] := by
  cases h with
  | start h => cases h
  | next h hnext =>
    cases hnext with
    | initializing =>
      cases h with
      | start => rfl
      | next h hnext => cases hnext

lemma Course.eq_pending (h : Course (.const none .inProgress :: l)) : l = [.const none .pending] := by
  cases h with
  | start h => cases h
  | next h hnext =>
    cases hnext with
    | inProgress =>
      cases h with
      | start => rfl
      | next h hnext => cases hnext

/-- A course that has come to an end is a life cycle. -/
theorem Course.lifeCycle {failing : Prop} {r : Referent} (h : Course (r :: l))
    (hsettled : r.Settled failing) : LifeCycle (r :: l).reverse := by
  cases h with
  | start h =>
    cases h with
    | var mutable => rcases hsettled with h | h <;> cases h
    | const => exact absurd rfl hsettled.1
    | func => exact .unknown
    | param mutable ht => exact .param mutable ht
  | next h hnext =>
    cases hnext with
    | initializing mutable => rcases hsettled with h | h <;> cases h
    | inProgress => exact absurd rfl hsettled.2
    | initialized mutable ht =>
      obtain rfl := h.eq_declared
      exact .initialized mutable ht
    | uninitialized mutable =>
      obtain rfl := h.eq_declared
      exact .uninitialized mutable
    | done v =>
      obtain rfl := h.eq_pending
      exact .done v
    | failed =>
      obtain rfl := h.eq_pending
      exact .failed
    | signature params ret =>
      cases h with
      | start => exact .signature params ret
      | next h hnext => cases hnext

end Referent

/-! ## What the journal tells -/

/-- The journal tells the course of the binding up to now. -/
def State.Tells (s : State) (b : BindingId) : Prop :=
  s.entries b = [] ∧ s.referent? b = none ∨ ∃ r l, s.entries b = r :: l ∧ s.referent? b = some r ∧ Referent.Course (r :: l)

lemma State.Tells.getLast? (h : s.Tells b) : s.referent? b = (s.history b).getLast? := by
  rcases h with ⟨hentries,hr⟩ | ⟨r,l,hentries,hr,-⟩
  · rw [history, hentries, hr]
    rfl
  · rw [history, hentries, hr, getLast?_reverse]
    rfl

lemma State.entries_step (s : State) (e : Event) (b : BindingId) :
    (s.step e).entries b = (e.binds? b).toList ++ s.entries b := by
  change (e :: s.journal).filterMap _ = _
  rw [filterMap_cons]
  cases e.binds? b <;> rfl

/-- A lawful step is told by the journal. -/
theorem State.Tells.step {e : Event} (he : s.Allows e) (h : ∀ b, s.Tells b) (b : BindingId) : (s.step e).Tells b := by
  have hentries := s.entries_step e b
  cases e with
  | bound b' x =>
    obtain ⟨rfl,hinitial⟩ := he
    have hr := referent?_bound s x b
    by_cases hb : b = s.scopes.bindings.size
    · subst hb
      rw [if_pos rfl] at hr
      rcases h s.scopes.bindings.size with ⟨hnil,-⟩ | ⟨r,l,-,hold,-⟩
      · refine .inr ⟨x.referent,[],?_,hr,.start hinitial⟩
        rw [hentries, hnil, Event.binds?, if_pos rfl]
        rfl
      · cases (referent?_size s).symm.trans hold
    · rw [if_neg hb] at hr
      rw [Event.binds?, if_neg (Ne.symm hb)] at hentries
      unfold Tells
      rw [hentries, show (s.step _).referent? b = _ from hr]
      exact h b
  | changed b' r' =>
    obtain ⟨r,hr,hnext⟩ := he
    obtain ⟨x,hx,rfl⟩ := map_eq_some_iff.1 hr
    have hmarked := referent?_marked s b' (fun _ => r') b
    rw [s.marked_eq_step hx] at hmarked
    by_cases hb : b' = b
    · subst hb
      rcases h b' with ⟨-,hnone⟩ | ⟨r,l,hold,hsome,hcourse⟩
      · cases hr.symm.trans hnone
      · obtain rfl := mem_unique hr hsome
        refine .inr ⟨r',_,?_,?_,hcourse.next hnext⟩
        · rw [hentries, hold, Event.binds?, if_pos rfl]
          rfl
        · rw [hmarked, if_pos rfl, hr, map_some]
    · rw [if_neg hb] at hmarked
      rw [Event.binds?, if_neg hb] at hentries
      unfold Tells
      rw [hentries, hmarked]
      exact h b
  | _ => exact h b

section

variable (h : Steps State.Allows .initial s)
include h

lemma Steps.tells (b : BindingId) : s.Tells b := by
  induction h generalizing b with
  | refl => exact .inl ⟨rfl,referent?_initial b⟩
  | step e _ he ih => exact State.Tells.step he ih b

lemma Steps.entries_of_head? {x : Binding} (hhead : s.journal.head? = some (.bound b x)) : s.entries b = [x.referent] := by
  cases h with
  | refl => cases hhead
  | @step s0 e h he =>
    obtain rfl : e = .bound b x := Option.some.inj hhead
    obtain ⟨rfl,-⟩ := he
    rw [s0.entries_step, Event.binds?, if_pos rfl]
    rcases h.tells s0.scopes.bindings.size with ⟨hnil,-⟩ | ⟨r,l,-,hr,-⟩
    · rw [hnil]
      rfl
    · cases (referent?_size s0).symm.trans hr

/-- The name of a declaration is bound first to what the declaration says. -/
theorem Steps.head?_history {d : Decl} (hmem : .introduced d b ∈ s.journal) : (s.history b).head? = some d.referent := by
  induction h with
  | refl => cases hmem
  | @step s1 e h he ih =>
    unfold State.history at ih ⊢
    rw [s1.entries_step, reverse_append, head?_append]
    rcases State.introduced_mem_step hmem with rfl | hold
    · obtain ⟨-,scope,hhead⟩ := he
      rw [h.entries_of_head? hhead]
      rfl
    · rw [ih hold]
      rfl

end

/-- A constant that has a value keeps it. -/
theorem State.Allows.referent?_done {e : Event} (he : s.Allows e)
    {type : Option Ty} (hr : s.referent? b = some (.const type (.done v))) :
    (s.step e).referent? b = some (.const type (.done v)) := by
  cases e with
  | changed b' r' =>
    obtain ⟨r,hr',hnext⟩ := he
    have hne : b' ≠ b := by
      rintro rfl
      obtain rfl := mem_unique hr hr'
      cases hnext
    obtain ⟨x,hx,-⟩ := map_eq_some_iff.1 hr'
    have hmarked := referent?_marked s b' (fun _ => r') b
    rw [s.marked_eq_step hx, if_neg hne] at hmarked
    exact hmarked.trans hr
  | bound b' x =>
    obtain ⟨rfl,-⟩ := he
    exact referent?_bound_of_some hr
  | _ =>
    exact hr

lemma Steps.referent?_done {s' : State} (h : Steps State.Allows s s')
    {type : Option Ty} (hr : s.referent? b = some (.const type (.done v))) : s'.referent? b = some (.const type (.done v)) := by
  induction h with
  | refl => exact hr
  | step e _ he ih => exact he.referent?_done ih

lemma Steps.valueOf (h : Steps State.Allows .initial s) {id : NodeId} (hv : s.valueOf[id]? = some v) :
    ∃ b, s.introduces[id]? = some b ∧ s.referent? b = some (.const (some v.type) (.done v)) := by
  induction h with
  | refl => simp [State.initial] at hv
  | @step s1 e h he ih =>
    have hkept : s1.valueOf[id]? = some v → ∃ b, (s1.step e).introduces[id]? = some b ∧
        (s1.step e).referent? b = some (.const (some v.type) (.done v)) := by
      intro hv
      obtain ⟨b,hb,hr⟩ := ih hv
      exact ⟨b,(Steps.single he).introduces_kept hb,he.referent?_done hr⟩
    cases e with
    | valued id' v' =>
      rw [show (s1.step (.valued id' v')).valueOf = s1.valueOf.insert id' v' from rfl, Table.getElem?_insert] at hv
      split at hv
      · next hid =>
        obtain rfl := Option.some.inj hv
        subst hid
        exact he
      · exact hkept hv
    | _ => exact hkept hv

/-- Every binding goes through its life cycle once. In every state, the history so far ends with what the name is bound
to; a declaration is where the life cycle of its binding begins; and the constants that have a value are
those for which it is noted. -/
theorem Module.life_cycles {source : String} {m : Module} (h : Module.parse source = .ok m) :
    (∀ s ∈ m.states, ∀ b, s.referent? b = (s.history b).getLast? ∧ s.history b <+: m.final.history b) ∧
    (∀ b r, m.check.referent? b = some r → Referent.LifeCycle (m.final.history b)) ∧
    (∀ d, Node.decl d ∈ m.nodes → ∀ b, m.check.introduces[d.id]? = some b → (m.final.history b).head? = some d.referent) ∧
    ∀ (id : NodeId) v, m.check.valueOf[id]? = some v ↔ ∃ d b type, Node.decl (.const d) ∈ m.nodes ∧ d.id = id ∧
        m.check.introduces[id]? = some b ∧ m.check.referent? b = some (.const type (.done v)) := by
  have hnodup := m.nodup_of_parse h
  obtain ⟨horderly,-⟩ := m.run_orderly hnodup
  obtain ⟨hadvances,-⟩ := m.run_advances h
  change m.final.Orderly m.located at horderly
  change Advances m.nodes [] .initial m.final at hadvances
  have hinj {id id' : NodeId} {b : BindingId} (hid : m.final.introduces[id]? = some b)
      (hid' : m.final.introduces[id']? = some b) : id = id' := by
    obtain ⟨d,rfl,hmem⟩ := horderly.ledger.introduces id b hid
    obtain ⟨d',rfl,hmem'⟩ := horderly.ledger.introduces id' b hid'
    rw [horderly.ledger.unique d d' b hmem hmem']
  refine ⟨fun s hs b => ?_,fun b r hr => ?_,fun d hd b hb => ?_,fun id v => ⟨fun hv => ?_,?_⟩⟩
  · obtain ⟨journal,hjournal,rfl⟩ := mem_map.1 hs
    have hsuffix := (mem_tails _ _).1 hjournal
    have hsteps := (hadvances.steps.at_suffix hsuffix).1
    refine ⟨(hsteps.tells b).getLast?,?_⟩
    refine reverse_prefix.2 ?_
    rw [State.entries, State.journal_replay]
    exact hsuffix.filterMap _
  · rcases hadvances.steps.tells b with ⟨-,hnone⟩ | ⟨r',l,hentries,hr',hcourse⟩
    · cases hnone.symm.trans hr
    · rw [State.history, hentries]
      exact hcourse.lifeCycle (hadvances.settled b r' (referent?_initial b) hr')
  · obtain ⟨d',hid,hmem⟩ := horderly.ledger.introduces _ b hb
    obtain ⟨-,Γ,hd'⟩ := horderly.ledger.declared d' b hmem
    have hnode : Node.decl d' ∈ m.nodes := m.map_fst_located ▸ mem_map_of_mem hd'
    obtain ⟨⟩ := inj_on_of_nodup_map hnodup hnode hd hid
    exact hadvances.steps.head?_history hmem
  · obtain ⟨b,hb,hr⟩ := hadvances.steps.valueOf hv
    obtain ⟨d,hd,hmem,hid⟩ := hadvances.const_declared hr
    exact ⟨d,b,_,hmem,hinj hid hb,hb,hr⟩
  · rintro ⟨d,b,type,-,rfl,hb,hr⟩
    obtain ⟨d',hd',-,hid'⟩ := hadvances.const_declared hr
    have hsolved := (hadvances.sound.stages b d' type _ hd' hr).2
    rw [hinj hb hid']
    exact hsolved.recorded

/-- A variable that needs a constant which needs itself. -/
theorem Module.life_cycles_circular : ∃ m b, Module.parse "const a: u8 = b; const b = a; let x: u8 = b;" = .ok m ∧
      m.check.referent? b = some (.var (some .error) false .failed) ∧ Referent.LifeCycle (m.final.history b) := by
  obtain ⟨m,hm,htest⟩ := Module.exists_of_test "const a: u8 = b; const b = a; let x: u8 = b;"
    (fun m => (List.range m.check.scopes.bindings.size).any fun b =>
      m.check.referent? b == some (.var (some .error) false .failed)) (by decide +kernel)
  obtain ⟨b,-,hr⟩ := any_eq_true.1 htest
  have hr := beq_iff_eq.1 hr
  exact ⟨m,b,hm,hr,(m.life_cycles hm).2.1 b _ hr⟩

end Opal
