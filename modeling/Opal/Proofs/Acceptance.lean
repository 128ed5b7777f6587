import Mathlib.Algebra.Order.BigOperators.Group.List
import Opal.Syntax.Cursor
import Opal.Syntax.Spelling

/-!
# Acceptance

When a parser succeeds, in terms of the kinds of the tokens ahead.
-/

namespace Opal

open List

variable {F : Kind → Prop} {closes : List Kind} {n : Nat}

/-- The tokens that are left have the kinds `ks`, and the end of the input stands after them. -/
structure Cursor.Holds (c : Cursor) (ks : List Kind) : Prop where
  kinds : c.tokens.map Token.kind = ks
  faultless : c.faults = []
  last : c.last.kind = .eof

/-- The kind of the token that comes first, be it the end of the input. -/
def kindAhead (ks : List Kind) : Kind :=
  ks.headD .eof

@[simp] lemma kindAhead_cons (k : Kind) (ks : List Kind) : kindAhead (k :: ks) = k := rfl

namespace Parse

/-- On tokens of the kinds `ks` the parser succeeds, and `Q` holds of what it gives and of the kinds that are left. -/
def Accepts {α : Type} (p : Parse α) (ks : List Kind) (Q : α → List Kind → Prop) : Prop :=
  ∀ c : Cursor, c.Holds ks → ∃ a c' ks', p c = .ok (a, c') ∧ c'.Holds ks' ∧ Q a ks'

variable {α β : Type} {p : Parse α} {ks rest : List Kind} {Q : α → List Kind → Prop} {kind : Kind}

lemma run_next {c : Cursor} {t : Token} {ts : List Token} (h : c.tokens = t :: ts) :
    next c = .ok (t, { c with tokens := ts }) := by
  rw [next, h]

lemma run_advance {c : Cursor} {t : Token} {ts : List Token} (h : c.tokens = t :: ts) :
    advance c = .ok (t, { c with tokens := ts, prevStop := t.span.stop }) := by
  simp only [advance, Bind.bind, StateT.bind, run_next h]
  rfl

namespace Accepts

variable {a : α} {f : α → Parse β} {R : β → List Kind → Prop} {bare : α → α}

lemma mono {R : α → List Kind → Prop} (h : Accepts p ks Q) (hQ : ∀ a ls, Q a ls → R a ls) : Accepts p ks R := by
  intro c hc
  obtain ⟨a,c',ls,hp,hc',ha⟩ := h c hc
  exact ⟨a,c',ls,hp,hc',hQ a ls ha⟩

lemma pure (h : Q a ks) : Accepts (Pure.pure a : Parse α) ks Q :=
  fun c hc => ⟨a,c,ks,rfl,hc,h⟩

lemma bind (h : Accepts p ks fun a ls => Accepts (f a) ls R) : Accepts (p >>= f) ks R := by
  intro c hc
  obtain ⟨a,c1,ls,hp,hc1,ha⟩ := h c hc
  obtain ⟨b,c2,ms,hf,hc2,hb⟩ := ha c1 hc1
  refine ⟨b,c2,ms,?_,hc2,hb⟩
  simp only [Bind.bind, StateT.bind, hp, Except.bind]
  exact hf

lemma read {P : α → Prop} (h : Accepts p ks fun a ls => P a ∧ ls = rest)
    (hf : ∀ a, P a → Accepts (f a) rest R) : Accepts (p >>= f) ks R := by
  refine .bind (h.mono ?_)
  rintro a ls ⟨ha,rfl⟩
  exact hf a ha

lemma known (h : Accepts p ks fun b ls => b = a ∧ ls = rest) (hf : Accepts (f a) rest R) : Accepts (p >>= f) ks R :=
  .read h fun _ hb => hb ▸ hf

/-! ### Elementary steps -/

lemma peekAt {Q : Token → List Kind → Prop} (h : ∀ t, t.kind = ks.getD n .eof → Q t ks) : Accepts (peekAt n) ks Q := by
  intro c hc
  have hkind : c.tokens[n]?.map Token.kind = ks[n]? := by rw [← hc.kinds, getElem?_map]
  unfold Parse.peekAt
  cases ht : c.tokens[n]? with
  | some t =>
    refine ⟨t,c,ks,rfl,hc,h t ?_⟩
    simp [List.getD, ← hkind, ht]
  | none =>
    refine ⟨c.last,c,ks,by rw [finish, hc.faultless],hc,h c.last ?_⟩
    simp [List.getD, ← hkind, ht, hc.last]

lemma peek {Q : Token → List Kind → Prop} (h : ∀ t, t.kind = kindAhead ks → Q t ks) : Accepts peek ks Q := by
  refine peekAt fun t ht => h t (ht.trans ?_)
  cases ks <;> rfl

lemma checkAt {Q : Bool → List Kind → Prop} (h : Q ((ks.getD n .eof).sameClass kind) ks) : Accepts (checkAt n kind) ks Q :=
  .bind (peekAt fun _ ht => .pure (ht ▸ h))

lemma check {Q : Bool → List Kind → Prop} (h : Q ((kindAhead ks).sameClass kind) ks) : Accepts (check kind) ks Q := by
  refine checkAt ?_
  cases ks <;> exact h

lemma advance {k : Kind} {Q : Token → List Kind → Prop} (h : ∀ t, t.kind = k → Q t ks) : Accepts advance (k :: ks) Q := by
  intro c hc
  obtain ⟨t,ts,hts,rfl,rfl⟩ := map_eq_cons_iff.1 hc.kinds
  exact ⟨t,_,_,run_advance hts,⟨rfl,hc.faultless,hc.last⟩,h t rfl⟩

lemma expect {Q : Token → List Kind → Prop} (h : ∀ t, t.kind = kind → Q t ks) : Accepts (expect kind) (kind :: ks) Q := by
  intro c hc
  obtain ⟨t,ts,hts,rfl,rfl⟩ := map_eq_cons_iff.1 hc.kinds
  refine ⟨t,{ c with tokens := ts, prevStop := t.span.stop },_,?_,⟨rfl,hc.faultless,hc.last⟩,h t rfl⟩
  simp only [Parse.expect, Bind.bind, StateT.bind, run_next hts, Except.bind, Kind.sameClass_self, if_pos]
  rfl

lemma remaining {Q : Nat → List Kind → Prop} (h : Q ks.length ks) : Accepts remaining ks Q := by
  intro c hc
  refine ⟨c.tokens.length,c,ks,rfl,hc,?_⟩
  rwa [← length_map Token.kind, hc.kinds]

lemma spanSince {start : Span} {Q : Span → List Kind → Prop} (h : ∀ span, Q span ks) : Accepts (spanSince start) ks Q :=
  fun c hc => ⟨_,c,ks,rfl,hc,h _⟩

lemma freshId {Q : NodeId → List Kind → Prop} (h : ∀ id, Q id ks) : Accepts freshId ks Q :=
  fun c hc => ⟨c.nextId,{ c with nextId := c.nextId + 1 },ks,rfl,⟨hc.kinds,hc.faultless,hc.last⟩,h _⟩

lemma node {form : ExprForm} {span : Span} {Q : Expr → List Kind → Prop} (h : ∀ id, Q ⟨id,span,form⟩ ks) :
    Accepts (node form span) ks Q :=
  .bind (freshId fun id => .pure (h id))

/-! ### Choices -/

variable {f : Bool → Parse α}

lemma seen (hk : kindAhead ks = kind) (h : Accepts (f true) ks Q) : Accepts (Parse.check kind >>= f) ks Q :=
  .bind (check (by rwa [hk, Kind.sameClass_self]))

lemma unseen (hk : (kindAhead ks).sameClass kind = false) (h : Accepts (f false) ks Q) :
    Accepts (Parse.check kind >>= f) ks Q :=
  .bind (check (by rwa [hk]))

lemma eat_true {Q : Bool → List Kind → Prop} (h : Q true ks) : Accepts (Parse.eat kind) (kind :: ks) Q :=
  .seen rfl (.bind (advance fun _ _ => .pure h))

lemma eat_false {Q : Bool → List Kind → Prop} (hk : (kindAhead ks).sameClass kind = false) (h : Q false ks) :
    Accepts (Parse.eat kind) ks Q :=
  .unseen hk (.pure h)

lemma taken (h : Accepts (f true) ks Q) : Accepts (Parse.eat kind >>= f) (kind :: ks) Q :=
  .bind (eat_true h)

lemma passed (hk : (kindAhead ks).sameClass kind = false) (h : Accepts (f false) ks Q) : Accepts (Parse.eat kind >>= f) ks Q :=
  .bind (eat_false hk h)

lemma optionally_some {R : Option α → List Kind → Prop} (h : Accepts p ks fun a ls => R (some a) ls) :
    Accepts (optionally kind p) (kind :: ks) R :=
  .taken (.bind (h.mono fun _ _ ha => .pure ha))

lemma optionally_none {R : Option α → List Kind → Prop} (hk : (kindAhead ks).sameClass kind = false)
    (h : R none ks) : Accepts (optionally kind p) ks R :=
  .passed hk (.pure h)

lemma identifier {name : String} {Q : String → List Kind → Prop} (h : Q name ks) :
    Accepts identifier (.text .identifier name :: ks) Q := by
  refine .bind (advance fun t ht => ?_)
  rw [ht]
  exact .pure h

/-! ### Repetition -/

variable {close : Kind} {spell : α → List Kind} {xs : List α}

lemma sepUntilWithin (hclose : close.sameClass (.punct .comma) = false)
    (hopen : ∀ x ∈ xs, ∀ ls, (kindAhead (spell x ++ ls)).sameClass close = false)
    (helement : ∀ x ∈ xs, ∀ k ls, k = .punct .comma ∨ k = close →
      Accepts p (spell x ++ k :: ls) fun a ms => bare a = bare x ∧ ms = k :: ls) (n : Nat) (hn : xs.length ≤ n) :
    Accepts (Parse.sepUntilWithin close p n) (separated (xs.map spell) ++ close :: rest) fun as ms =>
      as.map bare = xs.map bare ∧ ms = close :: rest := by
  induction n generalizing xs with
  | zero =>
    obtain rfl := length_eq_zero_iff.1 (Nat.le_zero.1 hn)
    exact .seen rfl (.pure ⟨rfl,rfl⟩)
  | succ n ih =>
    match xs with
    | [] => exact .seen rfl (.pure ⟨rfl,rfl⟩)
    | [x] =>
      refine .unseen (hopen x (by simp) _) (.bind ((helement x (by simp) close rest (.inr rfl)).mono ?_))
      rintro a ms ⟨ha,rfl⟩
      exact .passed hclose (.pure ⟨by simp [ha],rfl⟩)
    | x :: y :: xs =>
      have hcomma : separated ((x :: y :: xs).map spell) ++ close :: rest =
          spell x ++ .punct .comma :: (separated ((y :: xs).map spell) ++ close :: rest) := by
        simp [separated]
      rw [hcomma]
      refine .unseen (hopen x (by simp) _) (.bind ((helement x (by simp) _ _ (.inl rfl)).mono ?_))
      rintro a ms ⟨ha,rfl⟩
      refine .taken (.bind ((ih ?_ ?_ (by simpa using hn)).mono ?_))
      · exact fun z hz => hopen z (mem_cons_of_mem x hz)
      · exact fun z hz => helement z (mem_cons_of_mem x hz)
      · rintro as ms ⟨has,rfl⟩
        exact .pure ⟨by simp [ha, has],rfl⟩

lemma length_le_separated : ∀ kss : List (List Kind), kss.length ≤ (separated kss).length + 1
  | [] => Nat.zero_le _
  | [ks] => by simp
  | ks :: ls :: kss => by
    have := length_le_separated (ls :: kss)
    simp only [separated, length_append, length_cons, length_nil] at this ⊢
    omega

lemma length_le_of_mem_separated {ks : List Kind} : ∀ {kss : List (List Kind)}, ks ∈ kss → ks.length ≤ (separated kss).length
  | [ls], h => by
    obtain rfl := mem_singleton.1 h
    exact le_rfl
  | ls :: ms :: kss, h => by
    simp only [separated, length_append]
    obtain rfl | h := mem_cons.1 h
    · omega
    · have := length_le_of_mem_separated h
      omega

lemma sepUntil (bare : α → α) (hclose : close.sameClass (.punct .comma) = false)
    (hopen : ∀ x ∈ xs, ∀ ls, (kindAhead (spell x ++ ls)).sameClass close = false)
    (helement : ∀ x ∈ xs, (spell x).length ≤ (separated (xs.map spell)).length → ∀ k ls, k = .punct .comma ∨ k = close →
      Accepts p (spell x ++ k :: ls) fun a ms => bare a = bare x ∧ ms = k :: ls) :
    Accepts (Parse.sepUntil close p) (separated (xs.map spell) ++ close :: rest) fun as ms =>
      as.map bare = xs.map bare ∧ ms = close :: rest := by
  refine .bind (.remaining (sepUntilWithin hclose hopen (fun x hx => ?_) _ ?_))
  · exact helement x hx (length_le_of_mem_separated (mem_map_of_mem hx))
  have := length_le_separated (xs.map spell)
  simp only [length_append, length_cons, length_map] at this ⊢
  omega

variable {γ δ : Type} {f : α → δ} {g : γ → δ} {spell : γ → List Kind} {xs : List γ}

/-- What may follow an element is `F`: it may be followed by another element, and by what ends the list. -/
theorem manyWithin (hclose : closes.any (kindAhead rest).sameClass) (hrest : F (kindAhead rest))
    (hopen : ∀ x ∈ xs, ∀ ls, closes.any (kindAhead (spell x ++ ls)).sameClass = false ∧ F (kindAhead (spell x ++ ls)))
    (helement : ∀ x ∈ xs, ∀ ls, F (kindAhead ls) → Accepts p (spell x ++ ls) fun a ms => f a = g x ∧ ms = ls)
    (n : Nat) (hn : xs.length ≤ n) :
    Accepts (Parse.manyWithin closes p n) (xs.flatMap spell ++ rest) fun as ms => as.map f = xs.map g ∧ ms = rest := by
  induction n generalizing xs with
  | zero =>
    obtain rfl := length_eq_zero_iff.1 (Nat.le_zero.1 hn)
    exact .bind (.peek fun t _ => .pure ⟨rfl,rfl⟩)
  | succ n ih =>
    refine .bind (.peek fun t ht => ?_)
    rw [ht]
    cases xs with
    | nil =>
      rw [flatMap_nil, nil_append, if_pos hclose]
      exact .pure ⟨rfl,rfl⟩
    | cons x xs =>
      rw [flatMap_cons, append_assoc, (hopen x (by simp) _).1, if_neg Bool.false_ne_true]
      have hF : F (kindAhead (xs.flatMap spell ++ rest)) := by
        cases xs with
        | nil => exact hrest
        | cons y xs =>
          rw [flatMap_cons, append_assoc]
          exact (hopen y (by simp) _).2
      refine .bind ((helement x (by simp) _ hF).mono ?_)
      rintro a ms ⟨ha,rfl⟩
      refine .bind ((ih ?_ ?_ (by simpa using hn)).mono ?_)
      · exact fun z hz => hopen z (mem_cons_of_mem x hz)
      · exact fun z hz => helement z (mem_cons_of_mem x hz)
      · rintro as ms ⟨has,rfl⟩
        exact .pure ⟨by simp [ha, has],rfl⟩

lemma many (f : α → δ) (g : γ → δ) (hclose : closes.any (kindAhead rest).sameClass) (hrest : F (kindAhead rest))
    (hopen : ∀ x ∈ xs, ∀ ls, closes.any (kindAhead (spell x ++ ls)).sameClass = false ∧ F (kindAhead (spell x ++ ls)))
    (helement : ∀ x ∈ xs, ∀ ls, F (kindAhead ls) → Accepts p (spell x ++ ls) fun a ms => f a = g x ∧ ms = ls) :
    Accepts (Parse.many closes p) (xs.flatMap spell ++ rest) fun as ms => as.map f = xs.map g ∧ ms = rest := by
  refine .bind (.remaining (manyWithin hclose hrest hopen helement _ ?_))
  have hlength : ∀ x ∈ xs, 1 ≤ (spell x).length := by
    intro x hx
    cases hspell : spell x with
    | nil =>
      have := (hopen x hx rest).1
      rw [hspell, nil_append, hclose] at this
      cases this
    | cons k ks => simp
  have hsum := length_le_sum_of_one_le (xs.map fun x => (spell x).length) (by simpa using hlength)
  simp only [length_map, length_append, length_flatMap] at hsum ⊢
  omega

end Accepts

/-- From `a`, the steps on tokens of the kinds `ks` come to an end, and `Q` holds then. -/
def Repeats (step : α → Parse (Option α)) (a : α) (ks : List Kind) (Q : α → List Kind → Prop) : Prop :=
  ∀ n, ks.length ≤ n → Accepts (extendWithin step n a) ks Q

namespace Repeats

variable {step : α → Parse (Option α)} {a : α}

lemma stop (h : Accepts (step a) ks fun o ls => o = none ∧ Q a ls) : Repeats step a ks Q := by
  intro n _
  cases n with
  | zero =>
    refine .bind (h.mono ?_)
    rintro o ls ⟨rfl,ha⟩
    exact .pure ha
  | succ n =>
    refine .bind (h.mono ?_)
    rintro o ls ⟨rfl,ha⟩
    exact .pure ha

lemma go (h : Accepts (step a) ks fun o ls => ∃ b, o = some b ∧ ls.length < ks.length ∧ Repeats step b ls Q) :
    Repeats step a ks Q := by
  intro n hn
  cases n with
  | zero =>
    refine .bind (h.mono ?_)
    rintro o ls ⟨b,rfl,hlt,-⟩
    omega
  | succ n =>
    refine .bind (h.mono ?_)
    rintro o ls ⟨b,rfl,hlt,hb⟩
    exact hb n (by omega)

lemma extend (h : Repeats step a ks Q) : Accepts (extend step a) ks Q :=
  .bind (.remaining (h _ le_rfl))

end Repeats

end Parse

end Opal
