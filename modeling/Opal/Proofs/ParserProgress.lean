import Opal.Proofs.ParsedReadings

/-!
# The parser makes progress

A rule that returns has taken tokens. So the recursion of the grammar has one solution, which needs no bound on its depth, and
none of its loops needs a bound on its rounds.
-/

namespace Opal

open List Parse

variable {α : Type} {n k : Nat} {c : Cursor} {p p' q : Parse α} {S : Spec α} {rules rules' : Rules}

lemma Shift.cursor_id (c : Cursor) : Shift.id.cursor c = c := by
  have htokens (ts : List Token) : ts.map (Token.respan Shift.id.span) = ts := map_id'' (fun _ => rfl) _
  unfold Shift.cursor
  simp only [htokens]
  exact congrArg (Cursor.mk _ · _ _ _) (map_id'' (fun _ => rfl) _)

lemma Item.respan_id (i : Item) : i.respan .id = i := by
  rw [Item.respan, Opal.respan_id.decl]

namespace Parse

/-- Whenever there is a result, at least one token was taken, and the end of the input was not. -/
def Advances (p : Parse α) : Prop :=
  ∀ c a c', c.Sane → p c = .ok (a, c') → ∃ ts, ts ≠ [] ∧ c.Takes ts c' ∧ ∀ t ∈ ts, t.kind ≠ .eof

lemma ReadsOn.run_eq (h : ReadsOn .id n c 1 [] c p p' S) (hc : c.Sane) (hn : c.tokens.length ≤ n)
    (hS : ∀ a, S.moved .id a = a) : p' c = p c := by
  have hends := h hn (.refl hc)
  rw [Shift.cursor_id] at hends
  cases hr : p c with
  | error f =>
    rw [hr] at hends
    rw [hends.1, Shift.failure, Shift.cursor_id]
    rfl
  | ok r =>
    rw [hr] at hends
    rw [hends.1, Shift.cursor_id, show S.moved Shift.id.span r.1 = r.1 from hS r.1]

namespace Reads

lemma congr (h : Reads .id n p p' S) (heq : ∀ c, c.Sane → c.tokens.length ≤ n → p' c = q c) : Reads .id n p q S := by
  intro c hn hc
  have hends := h c hn hc
  rw [Shift.cursor_id] at hends ⊢
  rwa [← heq c hc.here hn]

lemma advances (h : ∀ n, ∃ p, Reads .id (n + 1) p p' S) (hS : ∀ a, S.moved .id a = a)
    (hne : ∀ a, [] ∉ S.readings a) : p'.Advances := by
  intro c a c' hc hrun
  obtain ⟨p,hp⟩ := h c.tokens.length
  have hends := hp c (Nat.le_succ _) (.refl hc)
  rw [← (hp c).run_eq hc (Nat.le_succ _) hS, hrun] at hends
  obtain ⟨ts,hts,htakes⟩ := hends.2.1.taken
  refine ⟨ts,fun hnil => hne a (hnil ▸ hts),htakes,fun t ht heof => ?_⟩
  have hplain := hc.plain t (htakes.tokens ▸ mem_append_left _ ht)
  rw [heof] at hplain
  exact hplain

end Reads

/-- With at least as many rounds as tokens, a loop does the same. -/
theorem rounds_eq {loop : Nat → Parse α} (h : ∀ d, ReadsOn .id n c 1 [] c p (loop (d + c.tokens.length)) S)
    (hc : c.Sane) (hk : c.tokens.length ≤ k) (hn : c.tokens.length ≤ n)
    (hS : ∀ a, S.moved .id a = a) : loop k c = loop c.tokens.length c := by
  obtain ⟨d,rfl⟩ := Nat.exists_eq_add_of_le' hk
  have hzero := (h 0).run_eq hc hn hS
  rw [Nat.zero_add] at hzero
  rw [(h d).run_eq hc hn hS, hzero]

lemma extend_rounds_eq {Q : α → Cursor → Prop} {step step' : α → Parse (Option α)} (hp : Reads .id n p p' S)
    (hstep : ∀ {c0 c} a, S.holds a c →
      ReadsOn .id n c0 (S.readings a) (S.nodes a) c (step a) (step' (S.moved .id a)) (S.step Q a c))
    (hc : c.Sane) (hk : c.tokens.length ≤ k) (hn : c.tokens.length ≤ n)
    (hS : ∀ a, S.moved .id a = a) :
    (p' >>= fun a => extendWithin step' k a) c = (p' >>= fun a => extend step' a) c := by
  have hrounds : ReadsOn .id n c 1 [] c (p >>= fun a => extend step a) (p' >>= fun a => extendWithin step' k a)
      ⟨S.readings,S.nodes,S.moved,Q⟩ := by
    refine (hp c).bind fun {c1} a ha hb hc => ?_
    obtain ⟨d,rfl⟩ := Nat.exists_eq_add_of_le' (hc.length_le.trans hk)
    exact ReadsOn.extendWithin d (@hstep c) a le_rfl ha hb hc
  rw [hrounds.run_eq hc hn hS, (hp.extend hstep c).run_eq hc hn hS]

end Parse

/-! ### Recursion -/

namespace Rules

/-- The rules do the same from `c` on. -/
structure Same (rules rules' : Rules) (c : Cursor) : Prop where
  type : rules.type c = rules'.type c
  expr : ∀ least, rules.expr least c = rules'.expr least c
  unary : rules.unary c = rules'.unary c
  block : rules.block c = rules'.block c
  cond : rules.cond c = rules'.cond c
  stmt : rules.stmt c = rules'.stmt c

/-- The rules call each other as the grammar says, without a bound. -/
def Solves (rules : Rules) : Prop :=
  ∀ c, c.Sane → rules.step.Same rules c

lemma Same.trans {other : Rules} (h : rules.Same rules' c) (h' : rules'.Same other c) : rules.Same other c :=
  ⟨h.type.trans h'.type,fun least => (h.expr least).trans (h'.expr least),h.unary.trans h'.unary,h.block.trans h'.block,
    h.cond.trans h'.cond,h.stmt.trans h'.stmt⟩

lemma same_atEnd (rules : Rules) (hc : c.Sane) (hnil : c.tokens.length ≤ 0) : atEnd.Same rules.step c := by
  obtain ⟨tokens,faults,⟨kind,span⟩,prevStop,nextId⟩ := c
  obtain rfl := length_eq_zero_iff.1 (Nat.le_zero.1 hnil)
  cases faults with
  | cons => exact ⟨rfl,fun _ => rfl,rfl,rfl,rfl,rfl⟩
  | nil =>
    obtain rfl : kind = .eof := hc.ending _ rfl
    exact ⟨rfl,fun _ => rfl,rfl,rfl,rfl,rfl⟩

namespace Faithful

variable (h : Faithful .id n rules rules')
include h

lemma same (hc : c.Sane) (hn : c.tokens.length ≤ n) : rules'.Same rules c where
  type := (h.type c).run_eq hc hn respan_id.type
  expr least := (h.expr least c).run_eq hc hn respan_id.expr
  unary := (h.unary c).run_eq hc hn respan_id.expr
  block := (h.block c).run_eq hc hn respan_id.block
  cond := (h.cond c).run_eq hc hn respan_id.stmt
  stmt := (h.stmt c).run_eq hc hn respan_id.stmt

lemma congr {other : Rules} (hsame : ∀ c, c.Sane → c.tokens.length ≤ n → rules'.Same other c) : Faithful .id n rules other where
  type := h.type.congr fun c hc hn => (hsame c hc hn).type
  expr least := (h.expr least).congr fun c hc hn => (hsame c hc hn).expr least
  unary := h.unary.congr fun c hc hn => (hsame c hc hn).unary
  block := h.block.congr fun c hc hn => (hsame c hc hn).block
  cond := h.cond.congr fun c hc hn => (hsame c hc hn).cond
  stmt := h.stmt.congr fun c hc hn => (hsame c hc hn).stmt

end Faithful

lemma faithful_step (h : ∀ n, Faithful .id n (within n) rules) : ∀ n, Faithful .id n (within n) rules.step
  | 0 => faithful_atEnd.congr fun _ hc hn => same_atEnd rules hc hn
  | n + 1 => (h n).step

lemma Solves.faithful (h : rules.Solves) : ∀ n, Faithful .id n (within n) rules
  | 0 => faithful_atEnd.congr fun c hc hn => (same_atEnd rules hc hn).trans (h c hc)
  | n + 1 => (h.faithful n).step.congr fun c hc _ => h c hc

/-- A greater depth changes nothing. -/
theorem faithful_within_add (d : Nat) : ∀ n, Faithful .id n (within n) (within (d + n))
  | 0 => by
    cases d with
    | zero => exact faithful_atEnd
    | succ d => exact faithful_atEnd.congr fun _ hc hn => same_atEnd (within d) hc hn
  | n + 1 => (faithful_within_add d n).step

/-- The rules to the depth that the tokens ahead allow for. -/
def whole : Rules where
  type c := (within c.tokens.length).type c
  expr least c := (within c.tokens.length).expr least c
  unary c := (within c.tokens.length).unary c
  block c := (within c.tokens.length).block c
  cond c := (within c.tokens.length).cond c
  stmt c := (within c.tokens.length).stmt c

lemma Same.whole (h : rules.Same (within c.tokens.length) c) : rules.Same whole c :=
  ⟨h.type,h.expr,h.unary,h.block,h.cond,h.stmt⟩

lemma same_whole (hc : c.Sane) (hn : c.tokens.length ≤ n) : (within n).Same whole c := by
  obtain ⟨d,rfl⟩ := Nat.exists_eq_add_of_le' hn
  exact ((faithful_within_add d _).same hc le_rfl).whole

lemma solves_whole : whole.Solves :=
  fun _ hc => ((faithful_step (fun n => (faithful_within n).congr fun _ => same_whole) _).same hc le_rfl).whole

/-! ### Progress -/

/-- What a rule returns was read from at least one token. -/
structure Progress (rules : Rules) : Prop where
  item : rules.itemRule.Advances
  stmt : rules.stmt.Advances
  cond : rules.cond.Advances
  block : rules.block.Advances
  type : rules.type.Advances
  expr : ∀ least, (rules.expr least).Advances
  unary : rules.unary.Advances
  argument : rules.argumentRule.Advances
  param : rules.paramRule.Advances
  lambdaParam : rules.lambdaParam.Advances

/-- With `k` rounds from `c` on the loops do what they do without a bound. -/
structure Loops (rules : Rules) (k : Nat) (c : Cursor) : Prop where
  items : manyWithin [.eof] rules.itemRule k c = many [.eof] rules.itemRule c
  stmts : manyWithin [.punct .rbrace, .eof] rules.stmt k c = many [.punct .rbrace, .eof] rules.stmt c
  types : sepUntilWithin (.punct .rparen) rules.type k c = sepUntil (.punct .rparen) rules.type c
  params : sepUntilWithin (.punct .rparen) rules.paramRule k c = sepUntil (.punct .rparen) rules.paramRule c
  lambdaParams : sepUntilWithin (.punct .rparen) rules.lambdaParam k c = sepUntil (.punct .rparen) rules.lambdaParam c
  arguments : sepUntilWithin (.punct .rparen) rules.argumentRule k c = sepUntil (.punct .rparen) rules.argumentRule c
  elements : sepUntilWithin (.punct .rbracket) (rules.expr 0) k c = sepUntil (.punct .rbracket) (rules.expr 0) c
  postfixes : (rules.primaryRule >>= fun e => extendWithin rules.postfixStep k e) c = rules.postfixRule c
  operators : ∀ least, (rules.unaryRule >>= fun e => extendWithin (rules.binaryStep least) k e) c = rules.exprRule least c

section

variable (h : ∀ n, Faithful .id n (within n) rules)
include h

lemma progress : rules.Progress where
  item := Reads.advances (fun n => ⟨_,reads_itemRule (h n)⟩) Item.respan_id (by simp)
  stmt := Reads.advances (fun _ => ⟨_,(h _).stmt⟩) respan_id.stmt (by simp)
  cond := Reads.advances (fun _ => ⟨_,(h _).cond⟩) respan_id.stmt (by simp)
  block := Reads.advances (fun _ => ⟨_,(h _).block⟩) respan_id.block (by simp)
  type := Reads.advances (fun _ => ⟨_,(h _).type⟩) respan_id.type (by simp)
  expr least := Reads.advances (fun _ => ⟨_,(h _).expr least⟩) respan_id.expr (by simp)
  unary := Reads.advances (fun _ => ⟨_,(h _).unary⟩) respan_id.expr (by simp)
  argument := Reads.advances (fun _ => ⟨_,reads_argumentRule (h _)⟩) respan_id.argument (by simp)
  param := Reads.advances (fun n => ⟨_,reads_paramRule (h n)⟩) respan_id.param (by simp)
  lambdaParam := Reads.advances (fun n => ⟨_,reads_lambdaParam (h n)⟩) respan_id.lambdaParam (by simp)

lemma loops (hc : c.Sane) (hk : c.tokens.length ≤ k) : rules.Loops k c where
  items := rounds_eq (fun d => (reads_itemRule (h k)).manyWithin d (by simp) successive_items (by simp) c le_rfl) hc hk
    (by omega) fun is => map_id'' Item.respan_id is
  stmts := rounds_eq (fun d => (h k).stmt.manyWithin d (by simp) successive_stmts (by simp) c le_rfl) hc hk hk respan_id.stmts
  types := rounds_eq (fun d => (h k).type.sepUntilWithin d elementwise_types (by simp) c le_rfl) hc hk hk respan_id.types
  params := rounds_eq (fun d => (reads_paramRule (h k)).sepUntilWithin d elementwise_params (by simp) c le_rfl) hc hk
    (by omega) respan_id.params
  lambdaParams := rounds_eq (fun d => (reads_lambdaParam (h k)).sepUntilWithin d elementwise_lambdaParams (by simp) c le_rfl) hc
    hk (by omega) respan_id.lambdaParams
  arguments := rounds_eq (fun d => (reads_argumentRule (h k)).sepUntilWithin d elementwise_arguments (by simp) c le_rfl) hc hk
    (by omega) respan_id.arguments
  elements := rounds_eq (fun d => (reads_expr (h k) 0).sepUntilWithin d elementwise_exprs (by simp) c le_rfl) hc hk hk respan_id.exprs
  postfixes := extend_rounds_eq (reads_primaryRule (h k)) (fun e => readsOn_postfixStep (h k) e) hc hk (by omega) respan_id.expr
  operators least := extend_rounds_eq (reads_leftOperand (h k) least) (fun e => readsOn_binaryStep (h k) least e) hc hk
    (by omega) respan_id.expr

end

end Rules

/-- The grammar has one solution, which is what is done to parse a source text. Each of its rules takes a token or fails, and
its loops end whatever number of rounds they are given, if no less than there are tokens. -/
theorem Module.parse_progress : ∃ rules : Rules, rules.Solves ∧
    (∀ other : Rules, other.Solves → ∀ c, c.Sane → other.Same rules c) ∧ rules.Progress ∧
    (∀ k c, c.Sane → c.tokens.length ≤ k → rules.Loops k c) ∧
    ∀ source, Module.parse source = rules.moduleRule.onSource source := by
  have h := Rules.solves_whole.faithful
  refine ⟨.whole,Rules.solves_whole,fun other hother c hc => ((hother.faithful _).same hc le_rfl).whole,
    Rules.progress h,fun k c => Rules.loops h,fun source => ?_⟩
  have hrun := (Rules.reads_moduleRule (h _) (.ofSource source)).run_eq (Cursor.sane_ofSource source) (Nat.le_succ _)
    fun m => by simp [Module.respan, map_id'' respan_id.decl]
  rw [Module.parse, onSource, onSource, StateT.run, StateT.run, hrun]

end Opal
