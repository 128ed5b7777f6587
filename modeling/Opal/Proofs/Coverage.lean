import Opal.Proofs.TypingRules

/-!
# Which nodes are covered

Where nothing is wrong, every expression has a recorded type, but for those that a construct looks through: around a negated
literal, and around the name of a function that is called.
-/

namespace Opal

open List

mutual

/-- The expressions strictly inside the parentheses around an expression, the outermost first. -/
def Expr.insideParens : Expr → List Expr
  | ⟨_,_,form⟩ => form.insideParens

def ExprForm.insideParens : ExprForm → List Expr
  | .paren e => e :: e.insideParens
  | _ => []

end

lemma Expr.mem_form_nodes_of_mem_insideParens (e : Expr) {x : Expr} (h : x ∈ e.insideParens) :
    Node.expr x ∈ e.form.nodes := by
  obtain ⟨id,span,form⟩ := e
  cases form with
  | paren e =>
    rcases mem_cons.1 h with rfl | h
    · exact x.self_mem_nodes
    · rw [ExprForm.nodes, e.nodes_eq]
      exact mem_append_left _ (e.mem_form_nodes_of_mem_insideParens h)
  | _ => simp [insideParens, ExprForm.insideParens] at h

lemma Expr.mem_nodes_of_mem_insideParens (e : Expr) {x : Expr} (h : x ∈ e.insideParens) : Node.expr x ∈ e.nodes :=
  e.nodes_eq ▸ mem_append_left _ (e.mem_form_nodes_of_mem_insideParens h)

lemma Expr.withoutParens_mem_nodes (e : Expr) : Node.expr e.withoutParens ∈ e.nodes := by
  obtain ⟨id,span,form⟩ := e
  cases form with
  | paren e =>
    rw [withoutParens, ExprForm.withoutParensAt]
    exact mem_append_left _ e.withoutParens_mem_nodes
  | _ =>
    rw [withoutParens, ExprForm.withoutParensAt]
    · simp
    · intro _ h; cases h

lemma Expr.literal?_paren (id : NodeId) (span : Span) (e : Expr) : Expr.literal? ⟨id,span,.paren e⟩ = e.literal? := by
  rw [literal?, literal?, withoutParens, ExprForm.withoutParensAt]

lemma Expr.withoutParens_cases (e : Expr) : (∃ x, e.form = .paren x ∧ e.withoutParens = x.withoutParens ∧
      e.insideParens = x :: x.insideParens) ∨ e.withoutParens = e ∧ e.insideParens = [] := by
  obtain ⟨id,span,form⟩ := e
  cases form with
  | paren x => exact .inl ⟨x,rfl,by rw [withoutParens, ExprForm.withoutParensAt],
      by rw [insideParens, ExprForm.insideParens]⟩
  | _ =>
    refine .inr ⟨?_,by simp [insideParens, ExprForm.insideParens]⟩
    rw [withoutParens, ExprForm.withoutParensAt]
    intro _ h
    cases h

lemma Expr.withoutParens_of_mem_insideParens {x : Expr} : ∀ e : Expr, x ∈ e.insideParens → x.withoutParens = e.withoutParens
  | ⟨id,span,form⟩, hx => by
    rcases Expr.withoutParens_cases ⟨id,span,form⟩ with ⟨y,hform,hwithout,hinside⟩ | ⟨-,hinside⟩
    · obtain rfl : form = .paren y := hform
      rcases mem_cons.1 hx with rfl | hx
      · rfl
      · exact withoutParens_of_mem_insideParens y hx
    · rw [hinside] at hx
      cases hx

lemma Expr.nodes_of_leaf : ∀ e : Expr, e.withoutParens.form.nodes = [] → e.nodes = ((e :: e.insideParens).map Node.expr).reverse
  | ⟨id,span,form⟩, h => by
    rcases Expr.withoutParens_cases ⟨id,span,form⟩ with ⟨x,hform,hwithout,hinside⟩ | ⟨hself,hinside⟩
    · obtain rfl : form = .paren x := hform
      rw [hinside, Expr.nodes, ExprForm.nodes, x.nodes_of_leaf (hwithout ▸ h)]
      simp
    · rw [hself] at h
      rw [hinside, Expr.nodes, h]
      rfl

lemma Expr.mem_nodes_of_leaf {e : Expr} (h : e.withoutParens.form.nodes = []) {n : Node} (hn : n ∈ e.nodes) :
    ∃ x, n = .expr x ∧ x ∈ e :: e.insideParens ∧ x.withoutParens = e.withoutParens := by
  rw [e.nodes_of_leaf h, mem_reverse] at hn
  obtain ⟨x,hx,rfl⟩ := mem_map.1 hn
  refine ⟨x,rfl,hx,?_⟩
  rcases mem_cons.1 hx with rfl | hx
  · rfl
  · exact withoutParens_of_mem_insideParens e hx

lemma Expr.insideParens_eq : ∀ e : Expr, e.insideParens ≠ [] → e.insideParens = e.insideParens.dropLast ++ [e.withoutParens]
  | ⟨id,span,form⟩, h => by
    rcases Expr.withoutParens_cases ⟨id,span,form⟩ with ⟨x,hform,hwithout,hinside⟩ | ⟨-,hinside⟩
    · obtain rfl : form = .paren x := hform
      rw [hinside, hwithout]
      by_cases hx : x.insideParens = []
      · rcases x.withoutParens_cases with ⟨y,-,-,hy⟩ | ⟨hself,-⟩
        · rw [hx] at hy
          cases hy
        · rw [hx, hself]
          rfl
      · rw [dropLast_cons_of_ne_nil hx, cons_append, ← x.insideParens_eq hx]
    · exact absurd hinside h

/-- A form whose parts are examined before anything is noted: no name, and no negated literal. -/
def ExprForm.IsPlain (form : ExprForm) : Prop :=
  (∀ name, form ≠ .name name) ∧ ∀ x, form = .unary .neg x → x.literal? = none

lemma ExprForm.isPlain_cases (form : ExprForm) : form.IsPlain ∨ (∃ name, form = .name name) ∨
      ∃ x text, form = .unary .neg x ∧ x.literal? = some text := by
  by_cases hname : ∃ name, form = .name name
  · exact .inr (.inl hname)
  by_cases hneg : ∃ x text, form = .unary .neg x ∧ x.literal? = some text
  · exact .inr (.inr hneg)
  refine .inl ⟨fun name h => hname ⟨name,h⟩,fun x h => ?_⟩
  cases hlit : x.literal? with
  | none => rfl
  | some text => exact absurd ⟨x,text,h,hlit⟩ hneg

/-- Whether an expression is the name of a declared function, in parentheses or not. -/
def Findings.namesFunction (f : Findings) (e : Expr) : Bool :=
  match e.withoutParens.form with
  | .name _ => (f.referentAt e.withoutParens.id).any Referent.isFunc
  | _ => false

/-- The expressions inside `e` that `e` looks through. Of a negated literal in parentheses only the whole
operand is recorded, and of a called function in parentheses only the whole and the name. -/
def Expr.skips (f : Findings) (e : Expr) : List Expr :=
  match e.form with
  | .unary .neg x => if x.literal?.isSome then x.insideParens else []
  | .call callee _ => if f.namesFunction callee then callee.insideParens.dropLast else []
  | _ => []

namespace Findings

/-- Everything is recorded about the nodes of `N`. -/
structure Complete (f : Findings) (N : List Node) : Prop where
  /-- An expression without a recorded type is looked through. -/
  typed : ∀ e, Node.expr e ∈ N → f.typeAt e = none → ∃ p, Node.expr p ∈ N ∧ e ∈ p.skips f
  /-- An expression that is looked through has no recorded type. -/
  skipped : ∀ p, Node.expr p ∈ N → ∀ x ∈ p.skips f, f.typeAt x = none
  /-- A name refers to a binding. -/
  resolved : ∀ e name, Node.expr e ∈ N → e.form = .name name → (f.referentAt e.id).isSome
  /-- A declaration introduces a binding. -/
  introduced : ∀ d, Node.decl d ∈ N → (f.introduces[d.id]?).isSome

namespace Complete

variable {f : Findings} {N N1 N2 : List Node}

lemma nil : f.Complete [] := by
  constructor <;> simp

lemma append (h1 : f.Complete N1) (h2 : f.Complete N2) : f.Complete (N1 ++ N2) where
  typed e he ht := by
    rcases mem_append.1 he with he | he
    · obtain ⟨p,hp,hep⟩ := h1.typed e he ht
      exact ⟨p,mem_append_left _ hp,hep⟩
    · obtain ⟨p,hp,hep⟩ := h2.typed e he ht
      exact ⟨p,mem_append_right _ hp,hep⟩
  skipped p hp := (mem_append.1 hp).elim (h1.skipped p) (h2.skipped p)
  resolved e name he := (mem_append.1 he).elim (h1.resolved e name) (h2.resolved e name)
  introduced d hd := (mem_append.1 hd).elim (h1.introduced d) (h2.introduced d)

lemma perm (h : f.Complete N1) (hp : N1.Perm N2) : f.Complete N2 where
  typed e he ht := by
    obtain ⟨p,hp',hep⟩ := h.typed e (hp.mem_iff.2 he) ht
    exact ⟨p,hp.mem_iff.1 hp',hep⟩
  skipped p hp' := h.skipped p (hp.mem_iff.2 hp')
  resolved e name he := h.resolved e name (hp.mem_iff.2 he)
  introduced d hd := h.introduced d (hp.mem_iff.2 hd)

end Complete

/-- Everything is recorded about an expression but its own type. -/
structure Completable (f : Findings) (e : Expr) : Prop where
  typed : ∀ x, Node.expr x ∈ e.form.nodes → f.typeAt x = none → ∃ p, Node.expr p ∈ e.nodes ∧ x ∈ p.skips f
  skipped : ∀ p, Node.expr p ∈ e.nodes → ∀ x ∈ p.skips f, f.typeAt x = none
  resolved : ∀ x name, Node.expr x ∈ e.nodes → x.form = .name name → (f.referentAt x.id).isSome
  introduced : ∀ d, Node.decl d ∈ e.form.nodes → (f.introduces[d.id]?).isSome

lemma Completable.of_parts {f : Findings} {e : Expr} (h : f.Complete e.form.nodes)
    (hskips : e.skips f = []) (hname : ∀ name, e.form = .name name → (f.referentAt e.id).isSome) : f.Completable e where
  typed x hx ht := by
    obtain ⟨p,hp,hxp⟩ := h.typed x hx ht
    exact ⟨p,e.nodes_eq ▸ mem_append_left _ hp,hxp⟩
  skipped p hp x hx := by
    rw [e.nodes_eq] at hp
    rcases mem_append.1 hp with hp | hp
    · exact h.skipped p hp x hx
    · obtain rfl := Node.expr.inj (mem_singleton.1 hp)
      rw [hskips] at hx
      cases hx
  resolved x name hx hform := by
    rw [e.nodes_eq] at hx
    rcases mem_append.1 hx with hx | hx
    · exact h.resolved x name hx hform
    · obtain rfl := Node.expr.inj (mem_singleton.1 hx)
      exact hname name hform
  introduced := h.introduced

end Findings

end Opal
