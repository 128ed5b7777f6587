import Opal.Proofs.CheckedModules
import Opal.Proofs.NodePositions

/-!
# The number of a node identifies it

The nodes of a parsed module, in the order in which they are complete, have the numbers from zero on, and a check writes to its
tables at these only. So what a table holds belongs to one node.
-/

namespace Opal

/-- Some table of the findings holds something at this number. -/
def Findings.Mentions (f : Findings) (id : NodeId) : Prop :=
  f.typeOf[id]? ≠ none ∨ f.refersTo[id]? ≠ none ∨ f.valueOf[id]? ≠ none ∨ f.introduces[id]? ≠ none

lemma not_mentions_initial (id : NodeId) : ¬ State.initial.Mentions id := by
  simp [Findings.Mentions, State.initial]

lemma not_settles_initial (s : State) (id : NodeId) : ¬ Settles .initial s id := by
  rintro ⟨d,⟨b,r,hd,-⟩,-⟩
  cases hd

/-- A check that starts with nothing known says something of the nodes it examines, and of no others. -/
theorem Evolves.mem_of_mentions {N : List Node} {own : List BindingId} {s : State} (h : Evolves N own .initial s)
    {id : NodeId} (hid : s.Mentions id) : id ∈ N.map Node.id := by
  by_contra hmem
  -- At any other number the tables are as empty as at the start.
  have hsettles := not_settles_initial s id
  rw [Findings.Mentions, h.typeOf id hmem hsettles, h.refersTo id hmem hsettles, h.valueOf id hmem hsettles,
    h.introduces id hmem hsettles] at hid
  exact not_mentions_initial id hid

/-- What the numbers of the nodes of a module are good for. -/
structure Module.Identified (m : Module) : Prop where
  numbered : m.nodes.map Node.id = List.range m.nodes.length
  distinct : m.nodes.Pairwise fun n n' => n.id ≠ n'.id
  /-- The parts of a node come before it, and nodes apart from each other come in source order. -/
  completes : m.nodes.Pairwise Node.Completes
  /-- No table holds anything that could belong to two nodes, or to none. -/
  owned : ∀ id, m.check.Mentions id → ∃! n, n ∈ m.nodes ∧ n.id = id

/-- The nodes of a parsed module are numbered from zero on as they are complete, and told apart by their numbers. -/
theorem Module.identified_of_parse {source : String} {m : Module} (h : Module.parse source = .ok m) : m.Identified where
  numbered := by
    have hids := (m.numbered_of_parse h).1
    rwa [List.length_map] at hids
  distinct := List.pairwise_map.1 (m.nodup_of_parse h)
  completes := (m.laid_of_parse h).pairwise.imp And.right
  owned id hid := by
    obtain ⟨n,hn,rfl⟩ := List.mem_map.1 ((m.run_advances h).1.mem_of_mentions hid)
    exact ⟨n,⟨hn,rfl⟩,fun n' hn' => List.inj_on_of_nodup_map (m.nodup_of_parse h) hn'.1 hn hn'.2⟩

/-- Sizes of arrays in written types are nodes too. -/
theorem Module.identified_sizes : ∃ m,
    Module.parse "def f(a: [u8, 2 + 1]) -> u8 \x7b let x: [u8, 3] = a; return x[0]; \x7d" = .ok m ∧
      m.nodes.length = 10 ∧ m.Identified := by
  obtain ⟨m,hm,hlength⟩ := Module.exists_of_test
    "def f(a: [u8, 2 + 1]) -> u8 \x7b let x: [u8, 3] = a; return x[0]; \x7d" (·.nodes.length == 10) (by decide +kernel)
  exact ⟨m,hm,beq_iff_eq.1 hlength,Module.identified_of_parse hm⟩

end Opal
