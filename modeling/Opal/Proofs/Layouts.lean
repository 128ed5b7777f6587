import Opal.Proofs.LikeRuns
import Opal.Proofs.ParsedReadings

/-!
# Layout

The parser only copies the places of tokens into the tree, so it reads the same tree from tokens at other places. And the check
treats alike two trees that differ in their places only.
-/

namespace Opal

open List Cursor

variable {source source' : String} {ts ts' : List Token}

/-! ## Forgetting places -/

/-- Everything stands at the same place. -/
def nowhere (_ : Span) : Span :=
  default

def Shift.nowhere : Shift :=
  ⟨fun _ => 0,fun _ => 0,monotone_const,monotone_const⟩

def Module.unplaced (m : Module) : Module :=
  ⟨m.decls.map (Decl.respan nowhere),default⟩

/-! ## Sources of the same tokens -/

lemma Cursor.tokens_append_of_tokenize (h : tokenize source = .ok ts) :
    ∃ last, (ofSource source).ending = .ok last ∧ (ofSource source).tokens ++ [last] = ts := by
  change Except.map _ (ofSource source).ending = _ at h
  cases hending : (ofSource source).ending with
  | error e => rw [hending] at h; cases h
  | ok last => rw [hending] at h; exact ⟨last,rfl,Except.ok.inj h⟩

lemma Token.map_respan_of_kinds (h : ts'.map Token.kind = ts.map Token.kind) :
    ts'.map (Token.respan Shift.nowhere.span) = ts.map (Token.respan Shift.nowhere.span) := by
  have hmap := congrArg (List.map (Token.mk · default)) h
  rwa [map_map, map_map] at hmap

lemma Cursor.nowhere_ofSource (h : tokenize source = .ok ts)
    (h' : tokenize source' = .ok ts') (hkinds : ts'.map Token.kind = ts.map Token.kind) :
    Shift.nowhere.cursor (ofSource source') = Shift.nowhere.cursor (ofSource source) := by
  obtain ⟨last,hlast,rfl⟩ := tokens_append_of_tokenize h
  obtain ⟨last',hlast',rfl⟩ := tokens_append_of_tokenize h'
  have hkinds := Token.map_respan_of_kinds hkinds
  rw [map_append, map_append] at hkinds
  obtain ⟨htokens,hend⟩ := append_inj' hkinds rfl
  obtain ⟨hfaults,rfl⟩ := ending_eq_ok_iff.1 hlast
  obtain ⟨hfaults',rfl⟩ := ending_eq_ok_iff.1 hlast'
  unfold Shift.cursor
  rw [hfaults, hfaults', htokens, head_eq_of_cons_eq hend]
  rfl

/-- What is read of a source without its places depends on its tokens without their places. -/
theorem Module.nowhere_parse (source : String) : Shift.nowhere.result Module.unplaced (Module.parse source) =
    Parse.outcome ((Rules.within (Shift.nowhere.cursor (.ofSource source)).tokens.length).moduleRule
      (Shift.nowhere.cursor (.ofSource source))) := by
  have hlength : (Shift.nowhere.cursor (.ofSource source)).tokens.length = (ofSource source).tokens.length :=
    length_map _
  have hends := Rules.ends_moduleRule .nowhere source
  rw [hlength, Module.parse, Parse.onSource, StateT.run]
  cases hrun : Rules.moduleRule _ (ofSource source) with
  | error e | ok r =>
    rw [hrun] at hends
    rw [hends.1]
    rfl

/-! ## Checks of the same tree -/

/-- Two runs on trees that differ in their places. -/
def WholeLikeness.placeless : WholeLikeness where
  bare := False
  span _ _ := True
  name _ _ := True
  span_of_name _ := trivial
  types := True
  typeOf T T' := ∀ n : NodeId, T'[n]? = T[n]?
  typeOf_congr hcongr h n := (hcongr n).symm.trans (h n)
  kept := id
  both i T T' t h n := by rw [Table.getElem?_insert, Table.getElem?_insert, h n]

lemma Module.states_unplaced (m : Module) : WholeLikeness.placeless.States (m.run .initial).2 (m.unplaced.run .initial).2 := by
  have hdecls : Forall₂ (Decl.Like WholeLikeness.placeless.toLikeness) m.decls m.unplaced.decls :=
    forall₂_map_right_iff.2 (forall₂_same.2 fun d _ => d.like_respan (.of_forall (fun _ => ⟨trivial,trivial⟩) _))
  exact ((Module.run_agree hdecls).ends (.initial _ fun _ => rfl)).2.1

/-- Two checks find the same, if at other places. -/
structure Findings.SameElsewhere (a a' : Findings) : Prop where
  causes : a'.errors.toList.map (·.cause) = a.errors.toList.map (·.cause)
  parents : a'.scopes.parents = a.scopes.parents
  bindings : a'.scopes.bindings.map (fun b => (b.name, b.scope, b.referent)) =
    a.scopes.bindings.map fun b => (b.name, b.scope, b.referent)
  introduces : a'.introduces = a.introduces
  types : a'.types = a.types
  typeOf : ∀ n : NodeId, a'.typeOf[n]? = a.typeOf[n]?
  refersTo : a'.refersTo = a.refersTo
  valueOf : a'.valueOf = a.valueOf

/-- Modules that differ in their places only are checked alike. -/
theorem Module.check_sameElsewhere {m m' : Module} (h : m'.unplaced = m.unplaced) : m.check.SameElsewhere m'.check := by
  have hs := m.states_unplaced
  have hs' := m'.states_unplaced
  rw [h] at hs'
  have hbindings {s s' : State} (h : WholeLikeness.placeless.States s s') :=
    h.map_bindings (fun b => (b.name, b.scope, b.referent)) fun x x' hx => by rw [hx.name, hx.scope, hx.referent]
  exact ⟨hs'.causes_eq.symm.trans hs.causes_eq,hs'.parents.symm.trans hs.parents,
    (hbindings hs').symm.trans (hbindings hs),hs'.introduces.symm.trans hs.introduces,
    (hs'.types trivial).symm.trans (hs.types trivial),fun n => (hs'.typeOf n).symm.trans (hs.typeOf n),
    hs'.refersTo.symm.trans hs.refersTo,hs'.valueOf.symm.trans hs.valueOf⟩

/-- Two sources of the same tokens are read alike, and checked alike: either both are refused with the same message, or
the trees are the same but for the places in them, with the same numbers of nodes, and the checks find the same. -/
theorem Module.layout_free (h : tokenize source = .ok ts)
    (h' : tokenize source' = .ok ts') (hkinds : ts'.map Token.kind = ts.map Token.kind) :
    (∃ e e', Module.parse source = .error e ∧ Module.parse source' = .error e' ∧ e'.message = e.message) ∨
      ∃ m m', Module.parse source = .ok m ∧ Module.parse source' = .ok m' ∧ m'.unplaced = m.unplaced ∧
        m.check.SameElsewhere m'.check := by
  have hparse : Shift.nowhere.result Module.unplaced (Module.parse source') =
      Shift.nowhere.result Module.unplaced (Module.parse source) := by
    rw [Module.nowhere_parse, Module.nowhere_parse, nowhere_ofSource h h' hkinds]
  cases hm : Module.parse source with
  | error e =>
    cases hm' : Module.parse source' with
    | ok m' => rw [hm, hm'] at hparse; cases hparse
    | error e' =>
      rw [hm, hm'] at hparse
      obtain ⟨hcause,-⟩ := SyntaxError.mk.inj (Except.error.inj (show Except.error _ = Except.error _ from hparse))
      exact .inl ⟨e,e',rfl,rfl,by rw [SyntaxError.message, SyntaxError.message, hcause]⟩
  | ok m =>
    cases hm' : Module.parse source' with
    | error e' => rw [hm, hm'] at hparse; cases hparse
    | ok m' =>
      rw [hm, hm'] at hparse
      exact .inr ⟨m,m',rfl,rfl,Except.ok.inj hparse,Module.check_sameElsewhere (Except.ok.inj hparse)⟩

/-- The same tokens with and without comments. -/
theorem Module.layout_free_comments : ∃ ts ts', tokenize "const N:u8=300;let x=N+y;" = .ok ts ∧
    tokenize "const N : u8 = 300; // wide\n let x /* sum */ = N + y;" = .ok ts' ∧ ts'.map Token.kind = ts.map Token.kind ∧
      ((∃ e e', Module.parse "const N:u8=300;let x=N+y;" = .error e ∧
          Module.parse "const N : u8 = 300; // wide\n let x /* sum */ = N + y;" = .error e' ∧ e'.message = e.message) ∨
        ∃ m m', Module.parse "const N:u8=300;let x=N+y;" = .ok m ∧
          Module.parse "const N : u8 = 300; // wide\n let x /* sum */ = N + y;" = .ok m' ∧
          m'.unplaced = m.unplaced ∧ m.check.SameElsewhere m'.check) := by
  have htest : ((tokenize "const N:u8=300;let x=N+y;").toOption.any fun ts =>
      (tokenize "const N : u8 = 300; // wide\n let x /* sum */ = N + y;").toOption.any fun ts' =>
        ts'.map Token.kind == ts.map Token.kind) = true := by decide +kernel
  obtain ⟨ts,h,htest⟩ := (Option.any_eq_true _ _).1 htest
  obtain ⟨ts',h',htest⟩ := (Option.any_eq_true _ _).1 htest
  have hok {source : String} {ts : List Token} (h : (tokenize source).toOption = some ts) : tokenize source = .ok ts := by
    cases hts : tokenize source with
    | error e => rw [hts] at h; cases h
    | ok us => rw [hts] at h; cases h; rfl
  have hkinds : ts'.map Token.kind = ts.map Token.kind := eq_of_beq htest
  exact ⟨ts,ts',hok h,hok h',hkinds,Module.layout_free (hok h) (hok h') hkinds⟩

end Opal
