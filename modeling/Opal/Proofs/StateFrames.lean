import Opal.Proofs.Couplings

/-!
# The frame of a state

What an examination leaves as it is, however it ends: the current scope, the result types around, the numbers of types, the
errors so far, and the names of the scopes that are there.
-/

namespace Opal

open List

/-- The scopes and names of all bindings, in their order. -/
def State.names (s : State) : List (ScopeId × String) :=
  s.scopes.bindings.toList.map fun b => (b.scope, b.name)

/-- The second state has the frame of the first one: names are declared only in scopes that are new, and in the current one as
far as `opens` says. -/
structure State.Frames (opens : String → Prop) (s s' : State) : Prop where
  current : s'.scopes.current = s.scopes.current
  resultTypes : s'.resultTypes = s.resultTypes
  parents : s.scopes.parents.toList <+: s'.scopes.parents.toList
  types : s.types.types.toList <+: s'.types.types.toList
  errors : s.errors.toList <+: s'.errors.toList
  names : ∃ new, s'.names = s.names ++ new ∧ ∀ x ∈ new, s.scopes.parents.size ≤ x.1 ∨ x.1 = s.scopes.current ∧ opens x.2

/-- The steps that open and leave nothing, and declare no name. -/
def Event.isLocal : Event → Bool
  | .entered | .left | .called _ | .returned | .bound .. => false
  | _ => true

lemma Stop.isLocal_event (stop : Stop) : stop.event.isLocal = true := by
  cases stop <;> rfl

namespace State.Frames

variable {opens opens' : String → Prop} {s s1 s2 : State}

lemma refl {o : String → Prop} (s : State) : s.Frames o s :=
  ⟨rfl,rfl,prefix_rfl,prefix_rfl,prefix_rfl,[],(append_nil _).symm,fun _ h => absurd h not_mem_nil⟩

lemma size_le (h : s.Frames opens s1) : s.scopes.parents.size ≤ s1.scopes.parents.size := by
  simpa using h.parents.length_le

lemma trans (h : s.Frames opens s1) (h' : s1.Frames opens s2) : s.Frames opens s2 where
  current := h'.current.trans h.current
  resultTypes := h'.resultTypes.trans h.resultTypes
  parents := h.parents.trans h'.parents
  types := h.types.trans h'.types
  errors := h.errors.trans h'.errors
  names := by
    obtain ⟨new,hnew,hscopes⟩ := h.names
    obtain ⟨new',hnew',hscopes'⟩ := h'.names
    refine ⟨new ++ new',by rw [hnew', hnew, append_assoc],forall_mem_append.2 ⟨hscopes,fun x hx => ?_⟩⟩
    rw [← h.current]
    exact (hscopes' x hx).imp_left (Nat.le_trans h.size_le)

lemma weaken (h : s.Frames opens s1) (hopens : ∀ name, opens name → opens' name) : s.Frames opens' s1 := by
  obtain ⟨new,hnew,hscopes⟩ := h.names
  exact { h with names := ⟨new,hnew,fun x hx => (hscopes x hx).imp_right (.imp_right (hopens _))⟩ }

/-- What a name is bound to is not part of the frame. -/
theorem modified (s : State) (b : BindingId) (f : Referent → Referent) (journal : List Event) :
    s.Frames opens { s with scopes := s.scopes.modifyReferent b f, journal := journal } := by
  refine ⟨rfl,rfl,prefix_rfl,prefix_rfl,prefix_rfl,[],?_,fun _ h => absurd h not_mem_nil⟩
  refine ext_getElem? fun i => ?_
  simp only [State.names, ScopeTree.modifyReferent, append_nil, getElem?_map, Array.getElem?_toList, Array.getElem?_modify]
  split
  · exact Option.map_map _ _ _
  · rfl

lemma step (s : State) {e : Event} (h : e.isLocal = true) : s.Frames opens (s.step e) := by
  cases e with
  | reported e => exact { refl (o := opens) s with errors := Array.toList_push ▸ prefix_append _ _ }
  | built t =>
    refine { refl (o := opens) s with types := ?_ }
    change s.types.types.toList <+: (s.types.intern t).types.toList
    by_cases ht : t ∈ s.types.types
    · simp only [TypeRegistry.intern_of_mem ht, prefix_rfl]
    · rw [TypeRegistry.intern_of_not_mem ht, Array.toList_push]
      exact prefix_append _ _
  | changed b r => exact modified s b (fun _ => r) _
  | entered | left | called | returned | bound => cases h
  | _ => exact { refl (o := opens) s with }

lemma bound (s : State) {b : BindingId} {x : Binding} (hscope : x.scope = s.scopes.current) (hname : opens x.name) :
    s.Frames opens (s.step (.bound b x)) := by
  refine ⟨rfl,rfl,prefix_rfl,prefix_rfl,prefix_rfl,[(x.scope, x.name)],?_,?_⟩
  · simp [State.names, State.step, State.apply, ScopeTree.bind]
  · exact forall_mem_singleton.2 (.inr ⟨hscope,hname⟩)

/-- What is declared in a scope that was opened is nothing to the scopes that are left. -/
theorem left (h : (s.step .entered).Frames opens s1) : s.Frames opens' (s1.step .left) := by
  have hparents : s.scopes.parents.toList ++ [some s.scopes.current] <+: s1.scopes.parents.toList :=
    Array.toList_push ▸ h.parents
  have houter := (prefix_append _ _).trans hparents
  obtain ⟨rest,hrest⟩ := hparents
  have hcurrent : s1.scopes.current = s.scopes.parents.size := h.current
  obtain ⟨new,hnew,hscopes⟩ := h.names
  refine ⟨?_,h.resultTypes,houter,h.types,h.errors,new,hnew,fun x hx => .inl ?_⟩
  · change (s1.scopes.parent? s1.scopes.current).getD _ = _
    rw [ScopeTree.parent?, hcurrent, ← Array.getElem?_toList, ← hrest]
    simp
  · have hsize : (s.step .entered).scopes.parents.size = s.scopes.parents.size + 1 := Array.size_push _
    rcases hscopes x hx with hle | ⟨heq,_⟩
    · omega
    · exact Nat.le_of_eq heq.symm

lemma returned {ret : Ty} (h : (s.step (.called ret)).Frames opens s1) : s.Frames opens (s1.step .returned) :=
  { h with resultTypes := congrArg List.tail h.resultTypes }

end State.Frames

end Opal
