import Opal.Proofs.FoundSignatures
import Opal.Proofs.HoistedModules

/-!
# The order of declarations

If declarations are put in another order that keeps the order of the variables, each has the same outcome, and the errors have
the same codes.
-/

namespace Opal

open List

lemma run_forM_eq_foldl {α : Type} (f : α → Run PUnit) : ∀ (l : List α) (s : State),
    ((l.forM f).run s).2 = l.foldl (fun s a => ((f a).run s).2) s
  | [], _ => rfl
  | a :: l, s => run_forM_eq_foldl f l ((f a).run s).2

namespace State

def signed (s : State) (L : List Decl) : State :=
  L.foldl (fun s d => ((reported (signature d)).run s).2) s

def examined (s : State) (L : List Decl) : State :=
  L.foldl (fun s d => ((reported d.check).run s).2) s

lemma examined_append (s : State) (L L' : List Decl) : s.examined (L ++ L') = (s.examined L).examined L' :=
  foldl_append

end State

lemma Module.run_eq (m : Module) : (m.run .initial).2 = ((hoisted m.decls).signed m.decls).examined m.checkOrder := by
  have hrun : (m.run .initial).2 = ((m.checkOrder.forM fun d => reported d.check).run
    ((m.decls.forM fun d => reported (signature d)).run (hoisted m.decls)).2).2 := rfl
  rw [hrun, run_forM_eq_foldl, run_forM_eq_foldl]
  rfl

def Decl.isVariable : Decl → Bool
  | .var _ => true
  | _ => false

/-- Declarations of the module, in the order in which they are examined: first some that are no functions, and
then others. -/
structure Hoisted.Agenda (H : Hoisted) (L F : List Decl) : Prop where
  nodup : (L ++ F).Nodup
  mem : ∀ d ∈ L ++ F, d ∈ H.decls
  nonfunctions : ∀ d ∈ L, d.isFunction = false

namespace Hoisted.Agenda

variable {H : Hoisted} {C L F : List Decl} {d : Decl}

lemma drop (h : H.Agenda (C ++ L) F) : H.Agenda L F := by
  have hlist : C ++ L ++ F = C ++ (L ++ F) := append_assoc ..
  refine ⟨?_,fun d hd => h.mem d ?_,fun d hd => h.nonfunctions d (mem_append_right C hd)⟩
  · have hnodup := h.nodup
    rw [hlist] at hnodup
    exact hnodup.of_append_right
  · rw [hlist]
    exact mem_append_right C hd

lemma tail (h : H.Agenda (d :: L) F) : H.Agenda L F :=
  drop (C := [d]) h

lemma apart (h : H.Agenda (d :: L) F) (e : Decl) (he : e ∈ L ++ F) : e ∈ H.decls ∧ e ≠ d := by
  refine ⟨h.tail.mem e he,?_⟩
  rintro rfl
  exact (nodup_cons.1 h.nodup).1 he

lemma constants (h : H.Agenda L F) (hC : ∀ d ∈ C, d ∈ L ∧ ¬ d.isVariable = true) (d : Decl) (hd : d ∈ C) :
    d ∈ H.decls ∧ ∃ c, d = .const c := by
  obtain ⟨hmem,hvar⟩ := hC d hd
  refine ⟨h.mem d (mem_append_left F hmem),?_⟩
  cases d with
  | var => exact absurd rfl hvar
  | const c => exact ⟨c,rfl⟩
  | func => cases h.nonfunctions _ hmem

end Hoisted.Agenda

/-- What a constant is bound to after it was evaluated. -/
def Referent.ofVerdict : Option Value → Referent
  | some v => .const (some v.type) (.done v)
  | none => .const (some .error) .failed

namespace Hoisted.Rests

variable {H : Hoisted} {V : View} {base base' : List String} {todo todo' F F' L L' : List Decl} {codes : Decl → List String}
  {s s' : State}

lemma of_todo (h : H.Rests V base todo s) (hsub : ∀ d ∈ todo', d ∈ todo)
    (hconst : ∀ c, Decl.const c ∈ todo → Decl.const c ∈ todo') : H.Rests V base todo' s :=
  { h with
    fresh := fun d hd => h.fresh d (hsub d hd)
    evaluated := fun c hc hne => h.evaluated c hc fun hmem => hne (hconst c hmem) }

lemma signatures_run {V0 : View} {r : Decl → Referent}
    (hone : ∀ d ∈ H.decls, ∀ V base s, H.Rests V base todo s → V d.name = V0 d.name →
      H.Rests (Function.update V d.name (r d)) (base ++ codes d) todo ((reported (signature d)).run s).2) :
    ∀ (L : List Decl) {V : View} {base : List String} {s : State}, H.Rests V base todo s →
      (∀ d ∈ L, d ∈ H.decls ∧ V d.name = V0 d.name) → (L.map Decl.name).Nodup →
        H.Rests (L.foldl (fun V d => Function.update V d.name (r d)) V) (base ++ L.flatMap codes) todo (s.signed L)
  | [], V, base, s, h, _, _ => by
    rw [flatMap_nil, append_nil]
    exact h
  | d :: L, V, base, s, h, hL, hnames => by
    obtain ⟨hd,hV⟩ := hL d (.head _)
    rw [map_cons, nodup_cons] at hnames
    rw [flatMap_cons, ← append_assoc]
    refine signatures_run hone L (hone d hd V base s h hV) (fun e he => ?_) hnames.2
    -- the view has changed at the name of `d` only
    have hne : e.name ≠ d.name := fun heq => hnames.1 (heq ▸ mem_map_of_mem he)
    have hsame : Function.update V d.name (r d) e.name = V e.name := Function.update_of_ne hne ..
    obtain ⟨he,hV⟩ := hL e (.tail _ he)
    exact ⟨he,hsame.trans hV⟩

lemma signatures_perm (h : H.Rests V base todo s) (h' : H.Rests V base todo s') (hL : L.Perm H.decls)
    (hperm : L'.Perm L) : ∃ V' base', H.Rests V' base' todo (s.signed L) ∧ H.Rests V' base' todo (s'.signed L') := by
  choose r codes hone using h.exists_signature
  have hnames : (L.map Decl.name).Nodup := (hL.map _).nodup_iff.2 H.names
  have hnames' : (L'.map Decl.name).Nodup := (hperm.map _).nodup_iff.2 hnames
  have hfold (V : View) : L'.foldl (fun V d => Function.update V d.name (r d)) V =
      L.foldl (fun V d => Function.update V d.name (r d)) V := by
    refine hperm.foldl_eq' (fun d hd e he V => ?_) V
    by_cases hname : d.name = e.name
    · rw [inj_on_of_nodup_map hnames' hd he hname]
    · exact Function.update_comm hname ..
  have hrun {L : List Decl} {s : State} (hmem : ∀ d ∈ L, d ∈ H.decls)
      (hnames : (L.map Decl.name).Nodup) (h : H.Rests V base todo s) :=
    signatures_run (fun d hd V' base' s' => hone d hd V' base' todo s') L h (fun d hd => ⟨hmem d hd,rfl⟩) hnames
  refine ⟨_,_,hrun (fun d hd => hL.mem_iff.1 hd) hnames h,?_⟩
  rw [← hfold]
  exact (hrun (fun d hd => hL.mem_iff.1 (hperm.mem_iff.1 hd)) hnames' h').of_perm ((hperm.flatMap_right codes).append_left base)

lemma constants_run : ∀ (L : List Decl) {s : State}, H.Rests V base (L ++ F) s →
    (∀ d ∈ L, d ∈ H.decls ∧ ∃ c, d = .const c) → H.Rests V base F (s.examined L)
  | [], _, h, _ => h
  | d :: L, s, h, hL => by
    obtain ⟨hd,c,rfl⟩ := hL d (.head _)
    exact constants_run L (h.constant hd) fun e he => hL e (.tail _ he)

/-- Two runs examine the same variables in the same order, and constants in between. -/
theorem nonfunctions_run : ∀ (L L' : List Decl) {V : View} {base base' : List String}
    {s s' : State}, H.Rests V base (L ++ F) s → H.Rests V base' (L' ++ F') s' →
      H.Agenda L F → H.Agenda L' F' → L'.filter Decl.isVariable = L.filter Decl.isVariable →
        ∃ V' codes, H.Rests V' (base ++ codes) F (s.examined L) ∧ H.Rests V' (base' ++ codes) F' (s'.examined L') := by
  intro L
  induction L with
  | nil =>
    intro L' V base base' s s' h h' _ hagenda' hvars
    refine ⟨V,[],?_,?_⟩
    · rw [append_nil]
      exact h
    · rw [append_nil]
      exact h'.constants_run L' (hagenda'.constants fun d hd => ⟨hd,filter_eq_nil_iff.1 hvars d hd⟩)
  | cons d L ih =>
    intro L' V base base' s s' h h' hagenda hagenda' hvars
    have hd : d ∈ H.decls := hagenda.mem d (.head _)
    cases d with
    | func => cases hagenda.nonfunctions _ (.head _)
    | const c => exact ih L' (h.constant hd) h' hagenda.tail hagenda' hvars
    | var v =>
      -- the other run examines some constants before it comes to this variable
      obtain ⟨C,L2,rfl,hC,-,hvars⟩ := filter_eq_cons_iff.1 hvars
      have hconstants := hagenda'.constants fun e he => ⟨mem_append_left _ he,hC e he⟩
      rw [append_assoc] at h'
      have h1 := h'.constants_run C hconstants
      obtain ⟨V1,codes,h2,h2'⟩ := h.varDecls h1 hd hagenda.apart hagenda'.drop.apart
      obtain ⟨V2,codes',h3,h3'⟩ := ih L2 h2 h2' hagenda.tail hagenda'.drop.tail hvars
      rw [append_assoc] at h3 h3'
      refine ⟨V2,codes ++ codes',h3,?_⟩
      rw [State.examined_append]
      exact h3'

/-- The errors in a function do not depend on when it is examined, once all variables and constants were. -/
theorem exists_codes (h : H.Rests V base F s) (hF : ∀ d ∈ F, ∃ f, d = .func f) (d : Decl) :
    ∃ codes, d ∈ F → d ∈ H.decls → ∀ base' todo s', H.Rests V base' (d :: todo) s' → (∀ e ∈ todo, e ∈ H.decls ∧ e ≠ d) →
        H.Rests V (base' ++ codes) todo ((reported d.check).run s').2 := by
  by_cases hmem : d ∈ F ∧ d ∈ H.decls
  · obtain ⟨hmem,hd⟩ := hmem
    obtain ⟨f,rfl⟩ := hF d hmem
    have hself : H.Rests V base [.func f] s := by
      refine h.of_todo (fun e he => mem_singleton.1 he ▸ hmem) fun c hc => ?_
      obtain ⟨f,hf⟩ := hF _ hc
      cases hf
    obtain ⟨codes,hleft,-⟩ := hself.funDecls hself hd (by simp) (by simp)
    refine ⟨codes,fun _ _ base' todo s' h' htodo => ?_⟩
    obtain ⟨codes',hleft',hright⟩ := hself.funDecls h' hd (by simp) htodo
    exact hright.of_perm ((hleft'.append_perm hleft).append_left base')
  · exact ⟨[],fun hF hd => absurd ⟨hF,hd⟩ hmem⟩

lemma functions_run (hone : ∀ d ∈ F, d ∈ H.decls → ∀ base todo s, H.Rests V base (d :: todo) s →
      (∀ e ∈ todo, e ∈ H.decls ∧ e ≠ d) → H.Rests V (base ++ codes d) todo ((reported d.check).run s).2) :
    ∀ (L : List Decl) {base : List String} {s : State}, H.Rests V base L s →
      (∀ d ∈ L, d ∈ F ∧ d ∈ H.decls) → L.Nodup → H.Rests V (base ++ L.flatMap codes) [] (s.examined L)
  | [], base, s, h, _, _ => by
    rw [flatMap_nil, append_nil]
    exact h
  | d :: L, base, s, h, hL, hnodup => by
    obtain ⟨hmem,hd⟩ := hL d (.head _)
    obtain ⟨hnew,hnodup⟩ := nodup_cons.1 hnodup
    have hrest (e) (he : e ∈ L) := hL e (.tail _ he)
    rw [flatMap_cons, ← append_assoc]
    refine functions_run hone L (hone d hmem hd base L s h fun e he => ⟨(hrest e he).2,?_⟩) hrest hnodup
    rintro rfl
    exact hnew he

lemma functions_perm (h : H.Rests V base F s) (h' : H.Rests V base F' s') (hperm : F'.Perm F)
    (hnodup : F.Nodup) (hF : ∀ d ∈ F, d ∈ H.decls ∧ ∃ f, d = .func f) :
    ∃ base', H.Rests V base' [] (s.examined F) ∧ H.Rests V base' [] (s'.examined F') := by
  choose codes hone using h.exists_codes fun d hd => (hF d hd).2
  refine ⟨_,functions_run hone F h (fun d hd => ⟨hd,(hF d hd).1⟩) hnodup,?_⟩
  have hmem (d) (hd : d ∈ F') : d ∈ F := hperm.mem_iff.1 hd
  exact (functions_run hone F' h' (fun d hd => ⟨hmem d hd,(hF d (hmem d hd)).1⟩)
    (hperm.nodup_iff.2 hnodup)).of_perm ((hperm.flatMap_right codes).append_left base)

/-- In the end, what a constant is bound to follows from its value. -/
theorem global?_of_const {c : ConstDecl} {b : BindingId} (h : H.Rests V base [] s)
    (hc : Decl.const c ∈ H.decls) (hb : s.scopes.find? 0 c.name = some b) :
    s.global? c.name = some (.ofVerdict (H.state.verdict c.name)) := by
  obtain ⟨d,hd,hname,r,hr,hword⟩ := h.exists_decl hb
  obtain rfl := H.decl_eq_of_name hd hc hname
  have hglobal := (State.global?_eq_some hb).trans hr
  cases r with
  | var | func => simp [Referent.word, Decl.referent, Referent.declaredConst] at hword
  | const type stage =>
    have hagrees := h.steady.tracks.stages _ _ _ hglobal
    cases stage with
    | pending =>
      obtain rfl : type = none := hagrees
      exact absurd hglobal (h.evaluated c hc (by simp))
    | inProgress =>
      obtain rfl : type = none := hagrees
      exact absurd hglobal (h.steady.quiet c.name)
    | done v =>
      obtain ⟨rfl,hv⟩ := hagrees
      rw [hglobal, hv]
      rfl
    | failed =>
      obtain ⟨rfl,hv⟩ := hagrees
      rw [hglobal, hv]
      rfl

lemma global?_eq (h : H.Rests V base [] s) (h' : H.Rests V base' [] s') (name : String) : s'.global? name = s.global? name := by
  have hname := h.steady.tracks.find? h'.steady.tracks name
  generalize hb : s.scopes.find? 0 name = o, hb' : s'.scopes.find? 0 name = o' at hname
  cases hname with
  | none =>
    rw [State.global?, State.global?, hb, hb']
    rfl
  | @some b b' =>
    obtain ⟨d,hd,rfl,-⟩ := h.exists_decl hb
    cases d with
    | const c => exact (h'.global?_of_const hd hb').trans (h.global?_of_const hd hb).symm
    | var | func =>
      rw [State.global?_eq_some hb, State.global?_eq_some hb', h.referent?_eq hd rfl hb, h'.referent?_eq hd rfl hb']

lemma codes_perm (h : H.Rests V base [] s) (h' : H.Rests V base [] s') : s'.codes.Perm s.codes := by
  refine h.steady.codes_perm h'.steady (funext fun name => ?_)
  rw [State.Failed, State.Failed, h.global?_eq h']

end Hoisted.Rests

/-! ## Modules -/

/-- The declarations of a module were put in another order, in which its variables follow one another as before. -/
structure Module.Reorders (m m' : Module) : Prop where
  perm : m'.decls.Perm m.decls
  order : m'.decls.filter Decl.isVariable = m.decls.filter Decl.isVariable

/-- What the declaration with number `id` ended as: the stage of a variable or constant with its type and value, or
the signature of a function. There is nothing if the declaration was refused. -/
def Findings.outcome? (a : Findings) (id : NodeId) : Option Referent :=
  (a.introduces[id]?).bind a.referent?

lemma Module.filter_isVariable (m : Module) :
    (m.decls.filter (!·.isFunction)).filter Decl.isVariable = m.decls.filter Decl.isVariable := by
  rw [filter_filter]
  refine filter_congr fun d _ => ?_
  cases d <;> rfl

namespace Module

variable {m m' : Module}

lemma agenda {H : Hoisted} (hperm : m.decls.Perm H.decls) :
    H.Agenda (m.decls.filter (!·.isFunction)) (m.decls.filter (·.isFunction)) where
  nodup := (m.checkOrder_perm.trans hperm).nodup_iff.2 H.names.of_map
  mem d hd := (m.checkOrder_perm.trans hperm).mem_iff.1 hd
  nonfunctions d hd := by simpa using (mem_filter.1 hd).2

/-- The checks of a module and of its reordering end at rest, with one view of the module and the same errors apart
from those that constants lead to. -/
theorem Reorders.rests (h : m.Reorders m') (hids : (m.nodes.map Node.id).Nodup)
    (hnames : (m.decls.map Decl.name).Nodup) : ∃ V base,
      (Hoisted.ofDecls m.decls hids hnames).Rests V base [] (m.run .initial).2 ∧
        (Hoisted.ofDecls m.decls hids hnames).Rests V base [] (m'.run .initial).2 := by
  have hbound := Hoisted.rests hids hnames (.refl _) m.checkOrder_perm
  have hbound' := Hoisted.rests hids hnames h.perm m.checkOrder_perm
  obtain ⟨V1,base1,hsigned,hsigned'⟩ := hbound.signatures_perm hbound' (.refl _) h.perm
  have horder (d : Decl) : d ∈ m'.checkOrder ↔ d ∈ m.checkOrder :=
    (m'.checkOrder_perm.trans (h.perm.trans m.checkOrder_perm.symm)).mem_iff
  have hsigned' := hsigned'.of_todo (fun d hd => (horder d).1 hd) fun c hc => (horder _).2 hc
  -- variables come in the same order in both runs, with constants in between
  have hagenda := agenda (H := Hoisted.ofDecls m.decls hids hnames) (.refl _)
  have hvars : (m'.decls.filter (!·.isFunction)).filter Decl.isVariable =
      (m.decls.filter (!·.isFunction)).filter Decl.isVariable := by
    rw [m'.filter_isVariable, m.filter_isVariable, h.order]
  obtain ⟨V2,codes,hexamined,hexamined'⟩ :=
    Hoisted.Rests.nonfunctions_run _ _ hsigned hsigned' hagenda (agenda h.perm) hvars
  -- with one view of the variables, functions may come in any order
  have hfunctions (d) (hd : d ∈ m.decls.filter (·.isFunction)) :
      d ∈ (Hoisted.ofDecls m.decls hids hnames).decls ∧ ∃ f, d = .func f := by
    refine ⟨hagenda.mem d (mem_append_right _ hd),?_⟩
    cases d with
    | var | const => simp [Decl.isFunction] at hd
    | func f => exact ⟨f,rfl⟩
  obtain ⟨base2,hend,hend'⟩ := hexamined.functions_perm hexamined' (h.perm.filter _) hagenda.nodup.of_append_right hfunctions
  refine ⟨V2,base2,?_,?_⟩
  · rw [m.run_eq, checkOrder, State.examined_append]
    exact hend
  · rw [m'.run_eq, checkOrder, State.examined_append]
    exact hend'

/-- **The order of declarations does not matter.** If the names of a module are different, its declarations may be
put in another order in which its variables follow one another as before: each declaration has the same outcome,
and the errors have the same codes. Nodes have different numbers, as in every module that was parsed. -/
theorem check_reordered (hids : (m.nodes.map Node.id).Nodup) (hnames : (m.decls.map Decl.name).Nodup) (h : m.Reorders m') :
    (∀ d ∈ m.decls, m'.check.outcome? d.id = m.check.outcome? d.id) ∧ m'.check.codes.Perm m.check.codes := by
  obtain ⟨V,base,hend,hend'⟩ := h.rests hids hnames
  refine ⟨fun d hd => ?_,hend.codes_perm hend'⟩
  have houtcome {s : State} (hs : (Hoisted.ofDecls m.decls hids hnames).Rests V base [] s) :
      s.outcome? d.id = s.global? d.name := by
    rw [Findings.outcome?, hs.accepted d hd]
    rfl
  exact (houtcome hend').trans ((hend.global?_eq hend' d.name).trans (houtcome hend).symm)

/-- The module with its constants and functions turned around, and its variables after them. -/
def turned (m : Module) : Module :=
  { m with decls := (m.decls.filter (!·.isVariable)).reverse ++ m.decls.filter Decl.isVariable }

lemma reorders_turned (m : Module) : m.Reorders m.turned where
  perm := by
    refine ((reverse_perm _).append_right _).trans (perm_append_comm.trans ?_)
    exact filter_append_perm Decl.isVariable m.decls
  order := by
    rw [turned, filter_append, filter_reverse, filter_filter, filter_filter]
    simp

/-- Two constants that need each other, of which one is blamed in one order and the other in another. -/
theorem check_reordered_circular : ∃ m, Module.parse
    "let x = C; const A: u8 = B; let y = x; def f(a: u8) -> u8 \x7b return y; \x7d const B: u8 = A; const C: u8 = 7;" = .ok m ∧
    m.Reorders m.turned ∧ m.check.errors.toList.map (·.cause) = [.circularConstantDefinition "A"] ∧
    m.turned.check.errors.toList.map (·.cause) = [.circularConstantDefinition "B"] ∧
    (∀ d ∈ m.decls, m.turned.check.outcome? d.id = m.check.outcome? d.id) ∧ m.turned.check.codes.Perm m.check.codes := by
  obtain ⟨m,hm,htest⟩ := Module.exists_of_test
    "let x = C; const A: u8 = B; let y = x; def f(a: u8) -> u8 \x7b return y; \x7d const B: u8 = A; const C: u8 = 7;"
    (fun m => decide (m.decls.map Decl.name).Nodup && (m.check.errors.toList.map (·.cause) == [.circularConstantDefinition "A"] &&
        m.turned.check.errors.toList.map (·.cause) == [.circularConstantDefinition "B"]))
    (by decide +kernel)
  simp only [Bool.and_eq_true, decide_eq_true_eq, beq_iff_eq] at htest
  obtain ⟨hnames,hblamed,hblamed'⟩ := htest
  exact ⟨m,hm,m.reorders_turned,hblamed,hblamed',check_reordered (m.nodup_of_parse hm) hnames m.reorders_turned⟩

end Module

end Opal
