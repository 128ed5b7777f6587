import Opal.Proofs.PlacedTrees

/-!
# Where constructs stand in the source

A construct covers a part of the token sequence, and its children cover parts of this part, in order. So of two nodes the
earlier one stands before the later one or inside of it, and a name starts after all earlier nodes.
-/

namespace Opal

open List

variable {m : Module} {source : String} {α : Type}

def Construct.readings : Construct → Language Token
  | name text span => tokenAt (.ofWord text) span
  | type t => t.readings
  | expr e => e.readings
  | argument a => a.readings
  | lambdaParam p => p.readings
  | param p => p.readings
  | block b => b.readings
  | stmt s => s.readings
  | decl d => d.readings

lemma Construct.covers_of_mem {x : Construct} {ts : List Token} (h : ts ∈ x.readings) : x.span.Covers ts := by
  rcases x with _ | ⟨_,_⟩ | ⟨_,_⟩ | ⟨_ | _,_⟩ | ⟨_,_⟩ | ⟨_,_⟩ | ⟨_,_⟩ | ⟨_,_⟩ | d
  case name text span =>
    obtain rfl : ts = [⟨.ofWord text,span⟩] := h
    exact Token.covers _
  case decl => exact d.covers_of_mem h
  all_goals exact h.2

/-! ## Constructs one after the other -/

/-- The constructs cover parts of the token sequence, one after the other. -/
inductive Lined : List Token → List Construct → Prop where
  | nil (ts : List Token) : Lined ts []
  | cons {x : Construct} {xs : List Construct} {ts after : List Token} (before : List Token) (h : ts ∈ x.readings)
    (hs : Lined after xs) : Lined (before ++ (ts ++ after)) (x :: xs)

namespace Lined

variable {ts us : List Token} {x : Construct} {xs ys : List Construct}

lemma prepend (ts : List Token) (h : Lined us xs) : Lined (ts ++ us) xs := by
  cases h with
  | nil => exact .nil _
  | cons before h hs => exact append_assoc .. ▸ .cons (ts ++ before) h hs

lemma append (h : Lined ts xs) (h' : Lined us ys) : Lined (ts ++ us) (xs ++ ys) := by
  induction h with
  | nil ts => exact h'.prepend ts
  | cons before h _ ih => simpa using Lined.cons before h ih

lemma one (h : ts ∈ x.readings) : Lined ts [x] := by
  simpa using Lined.cons [] h (.nil [])

lemma exists_part (h : Lined ts xs) (hx : x ∈ xs) : ∃ us ∈ x.readings, us <:+: ts := by
  induction h with
  | nil => cases hx
  | cons before h _ ih =>
    obtain rfl | hx := mem_cons.1 hx
    · exact ⟨_,h,before,_,append_assoc ..⟩
    · obtain ⟨us,hus,hpart⟩ := ih hx
      exact ⟨us,hus,hpart.trans ((suffix_append _ _).trans (suffix_append _ _)).isInfix⟩

lemma apart (h : Lined ts xs) (horder : InOrder ts) : xs.Pairwise fun x y => x.span.stop ≤ y.span.start := by
  induction h with
  | nil => exact .nil
  | @cons x xs ts after before h hs ih =>
    have horder := horder.sublist (sublist_append_right before _)
    refine .cons (fun y hy => ?_) (ih (horder.sublist (sublist_append_right ts after)))
    obtain ⟨_,u,-,hu,hspan⟩ := Construct.covers_of_mem h
    obtain ⟨us,hus,hpart⟩ := hs.exists_part hy
    obtain ⟨v,_,hv,-,hspan'⟩ := Construct.covers_of_mem hus
    rw [hspan, hspan']
    exact (pairwise_append.1 horder.apart).2.2 u (mem_of_getLast? hu) v (hpart.subset (mem_of_head? hv))

end Lined

/-- What is read from a sequence of the language covers it in this order. -/
def Lines (l : Language Token) (xs : List Construct) : Prop :=
  ∀ ts ∈ l, Lined ts xs

namespace Lines

variable {l l1 l2 : Language Token} {xs xs1 xs2 : List Construct} {span : Span}

lemma nil : Lines l [] :=
  fun ts _ => .nil ts

lemma one (x : Construct) : Lines x.readings [x] :=
  fun _ hts => .one hts

lemma mul (h1 : Lines l1 xs1) (h2 : Lines l2 xs2) : Lines (l1 * l2) (xs1 ++ xs2) := by
  intro ts hts
  obtain ⟨ts1,hts1,ts2,hts2,rfl⟩ := Language.mem_mul.1 hts
  exact (h1 ts1 hts1).append (h2 ts2 hts2)

lemma after (h : Lines l2 xs) : Lines (l1 * l2) xs :=
  nil.mul h

lemma before (h : Lines l1 xs) : Lines (l1 * l2) xs := by
  simpa using h.mul (nil (l := l2))

lemma covering (h : Lines l xs) : Lines (covering span l) xs :=
  fun ts hts => h ts hts.1

lemma listed (f : α → Construct) : ∀ as : List α, Lines (listed (as.map fun a => (f a).readings)) (as.map f)
  | [] => nil
  | [a] => (one (f a)).before
  | a :: b :: as => (one (f a)).mul (listed f (b :: as)).after

lemma inParens (f : α → Construct) (as : List α) : Lines (inParens (as.map fun a => (f a).readings)) (as.map f) :=
  (listed f as).before.after

lemma prod (f : α → Construct) : ∀ as : List α, Lines (as.map fun a => (f a).readings).prod (as.map f)
  | [] => nil
  | a :: as => by
    rw [map_cons, prod_cons]
    exact (one (f a)).mul (prod f as)

lemma optional (mark : Punct) : ∀ t : Option TypeExpr, Lines (readingsAfter mark t) (optionalConstruct t)
  | none => nil
  | some t => (one (.type t)).after

end Lines

/-! ## Trees -/

lemma TypeForm.lines (f : TypeForm) : Lines f.readings f.children := by
  cases f with
  | named => exact .nil
  | array element size => exact ((Lines.one (.type element)).mul (Lines.one (.expr size)).before.after).after
  | reference mutable target => exact (Lines.one (.type target)).after.after
  | function params ret =>
    rw [TypeForm.readings, typeReadings_eq_map]
    exact ((Lines.inParens .type params).mul (.optional .arrow ret)).after

lemma ExprForm.lines (f : ExprForm) : Lines f.readings f.children := by
  cases f with
  | unary op e | addressOf e => exact (Lines.one (.expr e)).after
  | deref e => exact (Lines.one (.expr e)).before
  | paren e => exact (Lines.one (.expr e)).before.after
  | binary op l r => exact (Lines.one (.expr l)).mul (Lines.one (.expr r)).after
  | index base i => exact (Lines.one (.expr base)).mul (Lines.one (.expr i)).before.after
  | call callee args =>
    rw [ExprForm.readings, argumentReadings_eq_map]
    exact (Lines.one (.expr callee)).mul (.inParens .argument args)
  | array es =>
    rw [ExprForm.readings, exprReadings_eq_map]
    exact (Lines.listed .expr es).before.after
  | lambda params ret body =>
    rw [ExprForm.readings, lambdaParamReadings_eq_map]
    have hbody : Lines body.readings [body.construct] := by
      cases body with
      | expr e => exact .one (.expr e)
      | block b => exact .one (.block b)
    exact (Lines.inParens .lambdaParam params).mul ((Lines.optional .arrow ret).mul hbody.after)
  | _ => exact .nil

lemma StmtForm.lines (f : StmtForm) : Lines f.readings f.children := by
  rcases f with d | ⟨target,value⟩ | e | (_ | e) | ⟨c,t,_ | e⟩ | ⟨c,b⟩ | b
  · exact .one (.decl d)
  · exact (Lines.one (.expr target)).mul (Lines.one (.expr value)).before.after
  · exact (Lines.one (.expr e)).before
  · exact .nil
  · exact (Lines.one (.expr e)).before.after
  · exact ((Lines.one (.expr c)).mul (Lines.one (.block t))).after
  · exact ((Lines.one (.expr c)).mul ((Lines.one (.block t)).mul (Lines.one (.stmt e)).after)).after
  · exact ((Lines.one (.expr c)).mul (Lines.one (.block b))).after
  · exact .one (.block b)

lemma Decl.lines (d : Decl) : Lines d.readings d.children := by
  have hname {text : String} {span : Span} : Lines (tokenAt (.ofWord text) span) [.name text span] :=
    .one (.name text span)
  rcases d with ⟨_,_,_,_,type,init,_⟩ | ⟨_,_,_,type,value,_⟩ | ⟨_,_,_,params,ret,body,_⟩
  · exact (hname.mul ((Lines.optional .colon type).mul (Lines.one (.expr init)).before.after)).after.after.covering
  · exact (hname.mul ((Lines.optional .colon type).mul (Lines.one (.expr value)).before.after)).after.covering
  · rw [Decl.readings, FunDecl.readings, paramReadings_eq_map]
    have h := (Lines.inParens .param params).mul ((Lines.optional .arrow ret).mul (.one (.block body)))
    exact (hname.mul h).after.covering

lemma Construct.lines (x : Construct) : Lines x.readings x.children := by
  rcases x with _ | ⟨_,f⟩ | ⟨_,_,f⟩ | ⟨_ | _,e,_⟩ | ⟨_,t,_⟩ | ⟨_,_,_,t,_⟩ | ⟨ss,_⟩ | ⟨_,f⟩ | d
  · exact .nil
  · exact f.lines.covering
  · exact f.lines.covering
  · exact (Lines.one (.expr e)).covering
  · exact (Lines.one (.expr e)).after.after.covering
  · exact (Lines.optional .colon t).after.covering
  · exact (Lines.one (.type t)).after.after.after.after.covering
  · rw [readings, Block.readings, stmtReadings_eq_prod]
    exact (Lines.prod .stmt ss).before.after.covering
  · exact f.lines.covering
  · exact d.lines

/-! ## Nodes -/

def Node.span : Node → Span
  | expr e => e.span
  | decl d => d.span

/-- The node ends before the other one starts, if that is a name. -/
def Node.Leads (n n' : Node) : Prop :=
  ∀ x name, n' = .expr x → x.form = .name name → n.span.stop ≤ x.span.start

/-- The node stands before the other one, or inside of it. -/
def Node.Completes (n n' : Node) : Prop :=
  n.span.stop ≤ n'.span.start ∨ n.span.Within n'.span

/-- Every node covers a part of the token sequence, and the nodes stand in the order of the list. -/
structure Laid (ts : List Token) (N : List Node) : Prop where
  within : ∀ n ∈ N, ∃ t ∈ ts, ∃ u ∈ ts, n.span = ⟨t.span.start,u.span.stop⟩
  pairwise : N.Pairwise fun n n' => n.Leads n' ∧ n.Completes n'

lemma Laid.append {ts us : List Token} {N M : List Node} (h : Laid ts N) (h' : Laid us M)
    (horder : InOrder (ts ++ us)) : Laid (ts ++ us) (N ++ M) where
  within n hn := by
    rcases mem_append.1 hn with hn | hn
    · obtain ⟨t,ht,u,hu,hspan⟩ := h.within n hn
      exact ⟨t,mem_append_left _ ht,u,mem_append_left _ hu,hspan⟩
    · obtain ⟨t,ht,u,hu,hspan⟩ := h'.within n hn
      exact ⟨t,mem_append_right _ ht,u,mem_append_right _ hu,hspan⟩
  pairwise := by
    refine pairwise_append.2 ⟨h.pairwise,h'.pairwise,fun n hn n' hn' => ?_⟩
    -- The nodes of the first part end before those of the second part start.
    obtain ⟨_,_,u,hu,hspan⟩ := h.within n hn
    obtain ⟨t,ht,_,_,hspan'⟩ := h'.within n' hn'
    have hle : n.span.stop ≤ n'.span.start := by
      rw [hspan, hspan']
      exact (pairwise_append.1 horder.apart).2.2 u hu t ht
    exact ⟨fun _ _ hx _ => by subst hx; exact hle,.inl hle⟩

lemma Lined.laid {ts : List Token} {xs : List Construct} (h : Lined ts xs) (horder : InOrder ts)
    (hxs : ∀ x ∈ xs, ∀ us ∈ x.readings, InOrder us → Laid us x.nodes) : Laid ts (xs.flatMap Construct.nodes) := by
  induction h with
  | nil => exact ⟨nofun,.nil⟩
  | @cons x xs ts after before h _ ih =>
    have horder' := horder.sublist (sublist_append_right before _)
    have hx := hxs x (.head _) ts h (horder'.sublist (sublist_append_left ts after))
    have hrest := ih (horder'.sublist (sublist_append_right ts after)) fun y hy => hxs y (mem_cons_of_mem x hy)
    exact Laid.append (N := []) ⟨nofun,.nil⟩ (hx.append hrest horder') horder

lemma Construct.laid (x : Construct) : ∀ ts ∈ x.readings, InOrder ts → Laid ts x.nodes := by
  induction x using Construct.induction with
  | h x ih =>
    intro ts hts horder
    have hchildren := (x.lines ts hts).laid horder ih
    rw [x.nodes_eq]
    cases hnode : x.node? with
    | none => simpa using hchildren
    | some n =>
      obtain ⟨t,u,ht,hu,hspan⟩ := covers_of_mem hts
      have hn : n.span = ⟨t.span.start,u.span.stop⟩ := by
        rw [← hspan]
        cases x <;> cases hnode <;> rfl
      refine ⟨fun m hm => ?_,pairwise_append.2 ⟨hchildren.pairwise,pairwise_singleton ..,?_⟩⟩
      · rcases mem_append.1 hm with hm | hm
        · exact hchildren.within m hm
        · obtain rfl := mem_singleton.1 hm
          exact ⟨t,mem_of_head? ht,u,mem_of_getLast? hu,hn⟩
      · intro m hm n' hn'
        obtain rfl := mem_singleton.1 hn'
        refine ⟨?_,.inr ?_⟩
        · rintro e name rfl hform
          cases x <;> cases hnode
          simp [children, hform, ExprForm.children] at hm
        · -- What is inside starts and ends at tokens between the first and the last one of the node.
          obtain ⟨t',ht',u',hu',hspan'⟩ := hchildren.within m hm
          obtain ⟨us,rfl⟩ := head?_eq_some_iff.1 ht
          rw [hn, hspan']
          exact ⟨horder.head_start_le ht',horder.stop_le_last hu' hu⟩

/-! ## Modules -/

section

variable (h : Module.parse source = .ok m)
include h

lemma Module.lined_of_parse : Lined (Cursor.ofSource source).tokens (m.decls.map .decl) := by
  have hts := (m.mem_readings_of_parse h).1
  rw [Module.readings, declReadings_eq_prod] at hts
  refine Lines.prod .decl m.decls _ ?_
  exact hts

lemma Module.laid_of_parse : Laid (Cursor.ofSource source).tokens m.nodes := by
  have hlaid := (m.lined_of_parse h).laid (Cursor.sane_ofSource source).order fun x _ => x.laid
  rwa [flatMap_map] at hlaid

/-- The nodes of a parsed module stand in the source as they do in the list. -/
theorem Module.leads_of_parse : m.nodes.Pairwise Node.Leads :=
  (m.laid_of_parse h).pairwise.imp And.left

end

end Opal
