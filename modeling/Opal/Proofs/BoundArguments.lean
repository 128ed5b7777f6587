import Mathlib.Data.List.Nodup
import Mathlib.Data.List.Pairwise
import Mathlib.Data.List.Perm.Basic
import Opal.Check.Call

/-!
# Arguments and parameters

Each argument is bound to the first free parameter that can take it. So each parameter takes the first of the arguments that
those before it left over.
-/

namespace Opal

open List Formal

/-- The parameter can take the argument: an anonymous one any without a name, another one those of its name. -/
def Formal.takes (p : Formal) (a : ArgumentOperand) : Bool :=
  if p.anonymous then a.name.isNone else a.name == some p.name

def paramNames (params : List Formal) : List String :=
  (params.filter (!·.anonymous)).map (·.name)

def argumentNames (args : List ArgumentOperand) : List String :=
  args.filterMap (·.name)

/-- The arguments that are bound by position. -/
def positional (args : List ArgumentOperand) : List ArgumentOperand :=
  args.filter (·.name.isNone)

/-- Every parameter takes the first of the arguments that are left. -/
def assigned : List Formal → List ArgumentOperand → List (Option ArgumentOperand)
  | [], _ => []
  | p :: ps, args => args.find? p.takes :: assigned ps (args.eraseP p.takes)

/-! ## One argument more -/

section

variable {p : Formal} {a : ArgumentOperand} {args : List ArgumentOperand} {params : List Formal} {n : String} {α : Type}

lemma Formal.takes_of_anonymous (hp : p.anonymous = true) : p.takes a = a.name.isNone := by
  rw [takes, if_pos hp]

lemma Formal.takes_of_named (hp : p.anonymous = false) : p.takes a = (a.name == some p.name) := by
  rw [takes, hp]
  rfl

lemma Formal.takes_eq_of_name (ha : a.name = some n) (p : Formal) : p.takes a = (!p.anonymous && p.name == n) := by
  cases hp : p.anonymous with
  | true => rw [takes_of_anonymous hp, ha]; rfl
  | false =>
    rw [takes_of_named hp, ha, Bool.not_false, Bool.true_and, Option.some_beq_some]
    exact BEq.comm

lemma Formal.takes_eq_of_none (ha : a.name = none) (p : Formal) : p.takes a = p.anonymous := by
  cases hp : p.anonymous with
  | true => rw [takes_of_anonymous hp, ha]; rfl
  | false => rw [takes_of_named hp, ha]; rfl

lemma take_cases (q : α → Bool) (l : List α) : (l.find? q = none ∧ l.eraseP q = l) ∨
      ∃ a l1 l2, (∀ b ∈ l1, ¬ q b = true) ∧ q a = true ∧ l = l1 ++ a :: l2 ∧ l.find? q = some a ∧ l.eraseP q = l1 ++ l2 := by
  cases hfind : l.find? q with
  | none => exact .inl ⟨rfl,eraseP_of_forall_not (find?_eq_none.1 hfind)⟩
  | some x =>
    obtain ⟨a,l1,l2,hl1,ha,hl,herase⟩ := exists_of_eraseP (mem_of_find?_eq_some hfind) (find?_some hfind)
    refine .inr ⟨a,l1,l2,hl1,ha,hl,?_,herase⟩
    rw [← hfind, hl, find?_append, find?_eq_none.2 hl1, Option.none_or, find?_cons_of_pos ha]

lemma eraseP_append_of_not {q : α → Bool} {a : α} (ha : ¬ q a = true) (l : List α) :
    (l ++ [a]).eraseP q = l.eraseP q ++ [a] := by
  rw [eraseP_append]
  split
  · rfl
  · next hl =>
    have hnone : ∀ x ∈ l, ¬ q x = true := fun x hx hq => hl (any_eq_true.2 ⟨x,hx,hq⟩)
    rw [eraseP_of_forall_not hnone, eraseP_cons_of_neg ha, eraseP_nil]

/-- One argument more goes to the first parameter that can take it and has none. -/
theorem assigned_append (a : ArgumentOperand) : ∀ (params : List Formal) (args : List ArgumentOperand),
    assigned params (args ++ [a]) = match (params.zip (assigned params args)).findIdx? fun x => x.1.takes a && x.2.isNone with
      | some i => (assigned params args).set i (some a)
      | none => assigned params args
  | [], _ => rfl
  | p :: ps, args => by
    have hrest := assigned_append a ps (args.eraseP p.takes)
    rw [assigned, assigned, zip_cons_cons, findIdx?_cons, find?_append]
    by_cases ha : p.takes a = true
    · obtain ⟨hfind,herase⟩ | ⟨x,l1,l2,-,hx,hargs,hfind,-⟩ := take_cases p.takes args
      · have hleft : (args ++ [a]).eraseP p.takes = args := by
          rw [eraseP_append_right _ (find?_eq_none.1 hfind), eraseP_cons_of_pos ha, append_nil]
        rw [hleft, herase, hfind, ha, find?_cons_of_pos ha]
        rfl
      · have herase : (args ++ [a]).eraseP p.takes = args.eraseP p.takes ++ [a] := by
          rw [eraseP_append, if_pos (any_eq_true.2 ⟨x,by simp [hargs],hx⟩)]
        rw [herase, hrest, hfind, ha]
        simp only [Option.isNone_some, Bool.and_false, Bool.false_eq_true, if_false, Option.some_or]
        cases (ps.zip (assigned ps (args.eraseP p.takes))).findIdx? _ <;> rfl
    · rw [eraseP_append_of_not ha, hrest, find?_cons_of_neg ha, find?_nil, Option.or_none]
      simp only [Bool.not_eq_true] at ha
      rw [ha]
      simp only [Bool.false_and, Bool.false_eq_true, if_false]
      cases (ps.zip (assigned ps (args.eraseP p.takes))).findIdx? _ <;> rfl

lemma positional_eraseP_of_named (hp : p.anonymous = false) (args : List ArgumentOperand) :
    positional (args.eraseP p.takes) = positional args := by
  obtain ⟨-,herase⟩ | ⟨x,l1,l2,-,hx,hargs,-,herase⟩ := take_cases p.takes args
  · rw [herase]
  · have hname : x.name.isNone = false := by
      rw [takes_of_named hp] at hx
      rw [eq_of_beq hx]
      rfl
    rw [herase, hargs, positional, positional, filter_append, filter_append, filter_cons_of_neg (by simp [hname])]

lemma find?_of_anonymous (hp : p.anonymous = true) (args : List ArgumentOperand) :
    args.find? p.takes = (positional args).head? := by
  have htakes : p.takes = fun x => x.name.isNone := funext fun _ => takes_of_anonymous hp
  rw [htakes, positional, head?_filter]

lemma positional_eraseP_of_anonymous (hp : p.anonymous = true) (args : List ArgumentOperand) :
    positional (args.eraseP p.takes) = (positional args).tail := by
  induction args with
  | nil => rfl
  | cons a args ih =>
    have htakes : p.takes a = a.name.isNone := takes_of_anonymous hp
    cases hname : a.name.isNone with
    | true => simp [positional, htakes, hname]
    | false => simpa [positional, htakes, hname] using ih

lemma argumentNames_eraseP_of_named (hp : p.anonymous = false) (args : List ArgumentOperand) :
    argumentNames (args.eraseP p.takes) = (argumentNames args).erase p.name := by
  induction args with
  | nil => rfl
  | cons a args ih =>
    have htakes : p.takes a = (a.name == some p.name) := takes_of_named hp
    cases hname : a.name with
    | none => simpa [argumentNames, htakes, hname] using ih
    | some n =>
      by_cases hn : n = p.name
      · simp [argumentNames, htakes, hname, hn]
      · simpa [argumentNames, htakes, hname, hn, erase_cons] using ih

lemma argumentNames_eraseP_of_anonymous (hp : p.anonymous = true) (args : List ArgumentOperand) :
    argumentNames (args.eraseP p.takes) = argumentNames args := by
  obtain ⟨-,herase⟩ | ⟨x,l1,l2,-,hx,hargs,-,herase⟩ := take_cases p.takes args
  · rw [herase]
  · rw [takes_of_anonymous hp] at hx
    rw [herase, hargs, argumentNames, argumentNames, filterMap_append, filterMap_append,
      filterMap_cons_none (Option.isNone_iff_eq_none.1 hx)]

lemma free_cons (p : Formal) (ps : List Formal) : (ArgumentBinding.initial (p :: ps)).free =
    (if p.anonymous then [0] else []) ++ (ArgumentBinding.initial ps).free.map Nat.succ := by
  have hshift : (fun i => (p :: ps)[i]?.any (·.anonymous)) ∘ Nat.succ = fun i => ps[i]?.any (·.anonymous) :=
    funext fun i => by rw [Function.comp, getElem?_cons_succ]
  change (List.range (ps.length + 1)).filter _ = _ ++ ((List.range ps.length).filter _).map Nat.succ
  rw [range_succ_eq_map, filter_cons, filter_map, hshift]
  cases hp : p.anonymous <;> simp [hp]

lemma findIdx?_assigned_of_none (ha : a.name = none) : ∀ (params : List Formal) (args : List ArgumentOperand),
    ((params.zip (assigned params args)).findIdx? fun x => x.1.takes a && x.2.isNone) =
      (ArgumentBinding.initial params).free[(positional args).length]?
  | [], _ => rfl
  | p :: ps, args => by
    have hrest := findIdx?_assigned_of_none ha ps (args.eraseP p.takes)
    rw [assigned, zip_cons_cons, findIdx?_cons, hrest, free_cons, takes_eq_of_none ha]
    cases hp : p.anonymous with
    | true =>
      rw [find?_of_anonymous hp, positional_eraseP_of_anonymous hp]
      cases positional args <;> simp [getElem?_map]
    | false =>
      rw [positional_eraseP_of_named hp]
      simp [getElem?_map]

lemma assigned_of_findIdx? (ha : a.name = some n) : ∀ {params : List Formal} {args : List ArgumentOperand} {i : Nat},
    params.findIdx? (·.takes a) = some i → (assigned params args)[i]?.join = args.find? (·.name == some n)
  | p :: ps, args, i, hi => by
    rw [findIdx?_cons] at hi
    split at hi
    · next hp =>
      cases hi
      rw [takes_eq_of_name ha, Bool.and_eq_true, Bool.not_eq_true', beq_iff_eq] at hp
      have htakes : p.takes = fun x => x.name == some n := by
        funext x
        rw [takes_of_named hp.1, hp.2]
      rw [assigned, htakes]
      rfl
    · next hp =>
      obtain ⟨j,hj,rfl⟩ := Option.map_eq_some_iff.1 hi
      rw [assigned, getElem?_cons_succ, assigned_of_findIdx? ha hj]
      -- the first parameter takes no argument of this name
      obtain ⟨-,herase⟩ | ⟨x,l1,l2,-,hx,hargs,-,herase⟩ := take_cases p.takes args
      · rw [herase]
      · have hname : ¬ (x.name == some n) = true := by
          intro hname
          rw [takes_eq_of_name (eq_of_beq hname)] at hx
          rw [takes_eq_of_name ha] at hp
          exact hp hx
        rw [herase, hargs, find?_append, find?_append, find?_cons_of_neg (p := fun y : ArgumentOperand => y.name == some n) hname]
  | [], _, _, hi => by cases hi

end

/-! ## All arguments -/

section

variable {a : ArgumentOperand} {args before : List ArgumentOperand} {params : List Formal} {b : ArgumentBinding} {n : String}

/-- The arguments `args` are bound. -/
structure ArgumentBinding.Has (b : ArgumentBinding) (params : List Formal) (args : List ArgumentOperand) : Prop where
  bound : b.bound = assigned params args
  free : b.free = (initial params).free.drop (positional args).length
  surplus : b.surplus = (positional args).length - (initial params).free.length

lemma mem_paramNames : n ∈ paramNames params ↔ ∃ p ∈ params, p.anonymous = false ∧ p.name = n := by
  simp only [paramNames, mem_map, mem_filter, Bool.not_eq_true', and_assoc]

lemma mem_argumentNames : n ∈ argumentNames args ↔ ∃ a ∈ args, a.name = some n :=
  mem_filterMap

lemma positional_append_of_name (ha : a.name = some n) (args : List ArgumentOperand) :
    positional (args ++ [a]) = positional args := by
  simp [positional, ha]

lemma positional_append_of_none (ha : a.name = none) (args : List ArgumentOperand) :
    positional (args ++ [a]) = positional args ++ [a] := by
  simp [positional, ha]

lemma length_assigned : ∀ (params : List Formal) (args : List ArgumentOperand), (assigned params args).length = params.length
  | [], _ => rfl
  | _ :: ps, _ => congrArg (· + 1) (length_assigned ps _)

lemma ArgumentBinding.has_initial (params : List Formal) : (initial params).Has params [] where
  bound := by
    have hnil : ∀ ps : List Formal, assigned ps [] = ps.map fun _ => none := by
      intro ps
      induction ps with
      | nil => rfl
      | cons p ps ih => rw [assigned, eraseP_nil, ih]; rfl
    rw [hnil]
    rfl
  free := rfl
  surplus := (Nat.zero_sub _).symm

lemma ArgumentBinding.Has.step_named (h : b.Has params before) (ha : a.name = some n) (function : String) :
    (∃ b', step function params b a = .ok b' ∧ b'.Has params (before ++ [a]) ∧ n ∈ paramNames params ∧ n ∉ argumentNames before) ∨
    (∃ e, step function params b a = .error e) ∧ ¬ (n ∈ paramNames params ∧ n ∉ argumentNames before) := by
  have htakes : (fun p : Formal => !p.anonymous && p.name == n) = (·.takes a) :=
    funext fun p => (takes_eq_of_name ha p).symm
  rw [ArgumentBinding.step, ha]
  dsimp only
  rw [htakes]
  cases hi : params.findIdx? (·.takes a) with
  | none =>
    refine .inr ⟨⟨_,rfl⟩,fun ⟨hmem,_⟩ => ?_⟩
    obtain ⟨p,hp,hanonymous,hname⟩ := mem_paramNames.1 hmem
    have := findIdx?_eq_none_iff.1 hi p hp
    rw [takes_eq_of_name ha, hanonymous, hname] at this
    simp at this
  | some i =>
    obtain ⟨hlt,htaken,hfirst⟩ := findIdx?_eq_some_iff_getElem.1 hi
    have hmem : n ∈ paramNames params := by
      rw [takes_eq_of_name ha, Bool.and_eq_true, Bool.not_eq_true', beq_iff_eq] at htaken
      exact mem_paramNames.2 ⟨_,getElem_mem hlt,htaken⟩
    have hslot : (assigned params before)[i]?.join = before.find? (·.name == some n) := assigned_of_findIdx? ha hi
    simp only [h.bound, hslot]
    by_cases hbefore : n ∈ argumentNames before
    · obtain ⟨x,hx,hname⟩ := mem_argumentNames.1 hbefore
      have hsome : (before.find? (·.name == some n)).isSome = true := find?_isSome.2 ⟨x,hx,by simp [hname]⟩
      rw [if_pos hsome]
      exact .inr ⟨⟨_,rfl⟩,fun h => h.2 hbefore⟩
    · have hnone : before.find? (·.name == some n) = none :=
        find?_eq_none.2 fun x hx hname => hbefore (mem_argumentNames.2 ⟨x,hx,eq_of_beq hname⟩)
      rw [hnone]
      have hindex : ((params.zip (assigned params before)).findIdx? fun x => x.1.takes a && x.2.isNone) = some i := by
        have hlt' : i < (assigned params before).length := by rwa [length_assigned]
        have hfree : (assigned params before)[i].isNone = true := by
          rw [getElem?_eq_getElem hlt', hnone] at hslot
          simpa using hslot
        refine findIdx?_eq_some_iff_getElem.2 ⟨by rw [length_zip]; omega,?_,fun j hj => ?_⟩
        · rw [getElem_zip, htaken, hfree]
          rfl
        · rw [getElem_zip, Bool.eq_false_iff.2 (hfirst j hj)]
          simp
      refine .inl ⟨_,rfl,⟨?_,?_,?_⟩,hmem,hbefore⟩
      · rw [assigned_append, hindex]
      · rw [positional_append_of_name ha, h.free]
      · rw [positional_append_of_name ha, h.surplus]

lemma ArgumentBinding.Has.step_positional (h : b.Has params before) (ha : a.name = none) (function : String) :
    ∃ b', step function params b a = .ok b' ∧ b'.Has params (before ++ [a]) := by
  have hindex := findIdx?_assigned_of_none ha params before
  have hassigned := assigned_append a params before
  rw [hindex] at hassigned
  rw [ArgumentBinding.step, ha, h.free]
  by_cases hlt : (positional before).length < (initial params).free.length
  · rw [getElem?_eq_getElem hlt] at hassigned
    rw [drop_eq_getElem_cons hlt]
    refine ⟨_,rfl,?_,?_,?_⟩
    · rw [hassigned, h.bound]
    · rw [positional_append_of_none ha, length_append]
      rfl
    · rw [positional_append_of_none ha, length_append, length_singleton, h.surplus]
      omega
  · rw [getElem?_eq_none (Nat.le_of_not_lt hlt)] at hassigned
    rw [drop_eq_nil_of_le (Nat.le_of_not_lt hlt)]
    refine ⟨_,rfl,?_,?_,?_⟩
    · rw [hassigned, h.bound]
    · rw [positional_append_of_none ha, length_append, drop_eq_nil_of_le (by omega)]
    · change b.surplus + 1 = _
      rw [positional_append_of_none ha, length_append, length_singleton, h.surplus]
      omega

/-- The names of the arguments are names of parameters, and none comes twice. -/
def NamesFit (params : List Formal) (args : List ArgumentOperand) : Prop :=
  argumentNames args ⊆ paramNames params ∧ (argumentNames args).Nodup

lemma namesFit_append_of_name (ha : a.name = some n) : NamesFit params (before ++ [a]) ↔
    NamesFit params before ∧ n ∈ paramNames params ∧ n ∉ argumentNames before := by
  have hnames : argumentNames (before ++ [a]) = argumentNames before ++ [n] := by simp [argumentNames, ha]
  rw [NamesFit, NamesFit, hnames, append_subset, cons_subset, nodup_append_comm, singleton_append, nodup_cons]
  have := nil_subset (paramNames params)
  tauto

lemma namesFit_append_of_none (ha : a.name = none) : NamesFit params (before ++ [a]) ↔ NamesFit params before := by
  have hnames : argumentNames (before ++ [a]) = argumentNames before := by simp [argumentNames, ha]
  rw [NamesFit, NamesFit, hnames]

lemma NamesFit.of_append (h : NamesFit params (before ++ args)) : NamesFit params before := by
  rw [NamesFit, argumentNames, filterMap_append, append_subset, nodup_append] at h
  exact ⟨h.1.1,h.2.1⟩

lemma ArgumentBinding.Has.foldlM (function : String) :
    ∀ (args : List ArgumentOperand) {before : List ArgumentOperand} {b : ArgumentBinding}, b.Has params before → NamesFit params before →
      (∃ b', args.foldlM (step function params) b = .ok b' ∧ b'.Has params (before ++ args) ∧ NamesFit params (before ++ args)) ∨
      (∃ e, args.foldlM (step function params) b = .error e) ∧ ¬ NamesFit params (before ++ args)
  | [], before, b, h, hfit => by
    rw [append_nil]
    exact .inl ⟨b,rfl,h,hfit⟩
  | a :: args, before, b, h, hfit => by
    rw [foldlM_cons, append_cons]
    cases ha : a.name with
    | none =>
      obtain ⟨b',hstep,hb'⟩ := h.step_positional ha function
      rw [hstep]
      exact foldlM function args hb' ((namesFit_append_of_none ha).2 hfit)
    | some n =>
      obtain ⟨b',hstep,hb',hn⟩ | ⟨⟨e,hstep⟩,hn⟩ := h.step_named ha function
      · rw [hstep]
        exact foldlM function args hb' ((namesFit_append_of_name ha).2 ⟨hfit,hn⟩)
      · rw [hstep]
        exact .inr ⟨⟨e,rfl⟩,fun hall => hn ((namesFit_append_of_name ha).1 hall.of_append).2⟩

/-! ## The outcome -/

lemma find?_isNone_eq_none_iff {α β : Type} {l : List α} {slots : List (Option β)} (h : slots.length = l.length) :
    (l.zip slots).find? (fun x => x.2.isNone) = none ↔ ∃ bound : List β, slots = bound.map some := by
  rw [find?_eq_none]
  constructor
  · intro hall
    refine ⟨slots.filterMap id,?_⟩
    have hsome : ∀ x ∈ slots, x ≠ none := by
      rw [← map_snd_zip (Nat.le_of_eq h)]
      rintro x hx rfl
      obtain ⟨y,hy,hnone⟩ := mem_map.1 hx
      exact hall y hy (by rw [hnone]; rfl)
    clear hall h
    induction slots with
    | nil => rfl
    | cons x slots ih =>
      cases x with
      | none => exact absurd rfl (hsome none (.head _))
      | some b => exact congrArg (some b :: ·) (ih fun x hx => hsome x (.tail _ hx))
  · rintro ⟨bound,rfl⟩ x hx hnone
    obtain ⟨b,-,hb⟩ := mem_map.1 (of_mem_zip hx).2
    rw [← hb] at hnone
    cases hnone

lemma length_free (params : List Formal) : (ArgumentBinding.initial params).free.length = params.countP (·.anonymous) := by
  induction params with
  | nil => rfl
  | cons p ps ih =>
    rw [free_cons, length_append, length_map, ih, countP_cons]
    cases p.anonymous <;> simp [Nat.add_comm]

/-- Arguments can be bound if their names fit, there are not too many without a name, and no parameter is left. -/
theorem bindArguments_eq_ok_iff_assigned {function : String} {span : Span} {bound : List ArgumentOperand} :
    bindArguments function params args span = .ok bound ↔ NamesFit params args ∧
      (positional args).length ≤ params.countP (·.anonymous) ∧ assigned params args = bound.map some := by
  unfold bindArguments
  have hnil : NamesFit params [] := ⟨nil_subset _,nodup_nil⟩
  obtain ⟨b,hfold,hb,hfit⟩ | ⟨⟨e,hfold⟩,hfit⟩ :=
    (ArgumentBinding.has_initial params).foldlM function args hnil
  · rw [nil_append] at hb hfit
    have hfind : (params.zip b.bound).find? (fun x => x.2.isNone) = none ↔ _ :=
      find?_isNone_eq_none_iff (by rw [hb.bound, length_assigned])
    have hsurplus : b.surplus > 0 ↔ ¬ (positional args).length ≤ (ArgumentBinding.initial params).free.length := by
      rw [hb.surplus]
      omega
    rw [hfold, ← length_free, ← hb.bound]
    dsimp only [bind, Except.bind]
    cases hslots : (params.zip b.bound).find? fun x => x.2.isNone with
    | some x =>
      constructor
      · intro h
        cases h
      · rintro ⟨-,-,h⟩
        rw [hfind.2 ⟨bound,h⟩] at hslots
        cases hslots
    | none =>
      obtain ⟨bound',hbound'⟩ := hfind.1 hslots
      have hbound : b.bound.filterMap id = bound' := by
        rw [hbound', filterMap_map]
        exact filterMap_some
      dsimp only
      split
      · next h =>
        constructor
        · intro h'
          cases h'
        · exact fun h' => absurd h'.2.1 (hsurplus.1 h)
      · next h =>
        rw [hbound, hbound']
        constructor
        · intro h'
          obtain rfl := Except.ok.inj h'
          exact ⟨hfit,not_not.1 (mt hsurplus.2 h),rfl⟩
        · rintro ⟨-,-,h'⟩
          rw [map_injective_iff.2 (fun _ _ heq => Option.some.inj heq) h']
  · rw [hfold]
    constructor
    · intro h
      cases h
    · intro h
      exact absurd h.1 hfit

/-- Parameters with an argument each: there is one of every name, and enough without a name. -/
theorem exists_assigned_iff : ∀ {params : List Formal} {args : List ArgumentOperand}, (argumentNames args).Nodup →
    ((∃ bound : List ArgumentOperand, assigned params args = bound.map some) ↔
      (paramNames params).Nodup ∧ paramNames params ⊆ argumentNames args ∧ params.countP (·.anonymous) ≤ (positional args).length)
  | [], args, _ => by simp [assigned, paramNames]
  | p :: ps, args, hnodup => by
    have hnodup' : (argumentNames (args.eraseP p.takes)).Nodup := hnodup.sublist (eraseP_sublist.filterMap _)
    have hcons : (∃ bound : List ArgumentOperand, assigned (p :: ps) args = bound.map some) ↔
        (args.find? p.takes).isSome = true ∧ ∃ bound : List ArgumentOperand, assigned ps (args.eraseP p.takes) = bound.map some := by
      rw [assigned]
      constructor
      · rintro ⟨bound,hbound⟩
        cases bound with
        | nil => cases hbound
        | cons a bound =>
          obtain ⟨ha,hbound⟩ := cons.inj hbound
          exact ⟨by rw [ha]; rfl,bound,hbound⟩
      · rintro ⟨ha,bound,hbound⟩
        obtain ⟨a,ha⟩ := Option.isSome_iff_exists.1 ha
        exact ⟨a :: bound,by rw [ha, hbound]; rfl⟩
    rw [hcons, exists_assigned_iff hnodup', countP_cons]
    cases hp : p.anonymous with
    | true =>
      have hnames : paramNames (p :: ps) = paramNames ps := by simp [paramNames, hp]
      rw [hnames, argumentNames_eraseP_of_anonymous hp, positional_eraseP_of_anonymous hp, find?_of_anonymous hp]
      cases positional args with
      | nil | cons a l => simp
    | false =>
      have hnames : paramNames (p :: ps) = p.name :: paramNames ps := by simp [paramNames, hp]
      have htaken : (args.find? p.takes).isSome = true ↔ p.name ∈ argumentNames args := by
        rw [find?_isSome, mem_argumentNames]
        simp only [takes_of_named hp, beq_iff_eq]
      rw [hnames, positional_eraseP_of_named hp, argumentNames_eraseP_of_named hp, htaken, nodup_cons, cons_subset]
      -- no other parameter has the name of one that took the argument of this name
      have herase : paramNames ps ⊆ (argumentNames args).erase p.name ↔
          p.name ∉ paramNames ps ∧ paramNames ps ⊆ argumentNames args := by
        simp only [subset_def, hnodup.mem_erase_iff]
        constructor
        · exact fun h => ⟨fun hmem => (h hmem).1 rfl,fun hn => (h hn).2⟩
        · exact fun h _ hn => ⟨fun heq => h.1 (heq ▸ hn),h.2 hn⟩
      simp only [Bool.false_eq_true, if_false, Nat.add_zero]
      tauto

end

/-- Every argument is bound to one parameter, and every parameter has one: with a name that of the name, and the anonymous parameters
those without a name in their order. -/
structure Bound (params : List Formal) (args bound : List ArgumentOperand) : Prop where
  perm : bound.Perm args
  length : bound.length = params.length
  takes : ∀ x ∈ params.zip bound, x.1.takes x.2 = true
  inOrder : ((params.zip bound).filter (·.1.anonymous)).map (·.2) = positional args

section

variable {args bound bound' : List ArgumentOperand} {params : List Formal} {p : Formal}

lemma NamesFit.eraseP (h : NamesFit (p :: params) args) : NamesFit params (args.eraseP p.takes) := by
  refine ⟨?_,h.2.sublist (eraseP_sublist.filterMap _)⟩
  cases hp : p.anonymous with
  | true =>
    rw [argumentNames_eraseP_of_anonymous hp]
    simpa [paramNames, hp] using h.1
  | false =>
    intro n hn
    rw [argumentNames_eraseP_of_named hp, h.2.mem_erase_iff] at hn
    have hmem : n ∈ p.name :: paramNames params := by simpa [paramNames, hp] using h.1 hn.2
    exact (mem_cons.1 hmem).resolve_left hn.1

lemma positional_eraseP_le (h : (positional args).length ≤ (p :: params).countP (·.anonymous)) :
    (positional (args.eraseP p.takes)).length ≤ params.countP (·.anonymous) := by
  rw [countP_cons] at h
  cases hp : p.anonymous with
  | true =>
    rw [positional_eraseP_of_anonymous hp, length_tail]
    rw [hp, if_pos rfl] at h
    omega
  | false =>
    rw [positional_eraseP_of_named hp]
    simpa [hp] using h

lemma perm_of_assigned : ∀ {params : List Formal} {args bound : List ArgumentOperand}, NamesFit params args →
    (positional args).length ≤ params.countP (·.anonymous) → assigned params args = bound.map some → bound.Perm args
  | [], args, bound, hfit, hle, h => by
    obtain rfl : bound = [] := map_eq_nil_iff.1 h.symm
    cases args with
    | nil => exact .nil
    | cons a args =>
      cases ha : a.name with
      | none => simp [positional, ha] at hle
      | some n => cases hfit.1 (mem_argumentNames.2 ⟨a,(.head _),ha⟩)
  | p :: ps, args, a :: bound, hfit, hle, h => by
    obtain ⟨ha,hrest⟩ := cons.inj h
    have hperm : bound.Perm (args.eraseP p.takes) := perm_of_assigned hfit.eraseP (positional_eraseP_le hle) hrest
    obtain ⟨hnone,-⟩ | ⟨x,l1,l2,-,-,hargs,hx,herase⟩ := take_cases p.takes args
    · rw [hnone] at ha
      cases ha
    · obtain rfl : x = a := Option.mem_unique hx ha
      rw [herase] at hperm
      rw [hargs]
      exact (hperm.cons x).trans perm_middle.symm

lemma takes_of_assigned : ∀ {params : List Formal} {args bound : List ArgumentOperand},
    assigned params args = bound.map some → ∀ x ∈ params.zip bound, x.1.takes x.2 = true
  | p :: ps, args, a :: bound, h, x, hx => by
    obtain ⟨ha,h⟩ := cons.inj h
    obtain rfl | hx := mem_cons.1 hx
    · exact find?_some ha
    · exact takes_of_assigned h x hx

lemma inOrder_of_assigned : ∀ {params : List Formal} {args bound : List ArgumentOperand},
    assigned params args = bound.map some → (positional args).length ≤ params.countP (·.anonymous) →
      ((params.zip bound).filter (·.1.anonymous)).map (·.2) = positional args
  | [], args, _, _, hle => by
    rw [countP_nil, Nat.le_zero, length_eq_zero_iff] at hle
    rw [hle]
    rfl
  | p :: ps, args, [], h, _ => by cases h
  | p :: ps, args, a :: bound, h, hle => by
    obtain ⟨ha,h⟩ := cons.inj h
    have hrest := inOrder_of_assigned h (positional_eraseP_le hle)
    cases hp : p.anonymous with
    | true =>
      rw [find?_of_anonymous hp] at ha
      rw [zip_cons_cons, filter_cons_of_pos (by simpa using hp), map_cons, hrest,
        positional_eraseP_of_anonymous hp, cons_head?_tail ha]
    | false =>
      rw [zip_cons_cons, filter_cons_of_neg (by simp [hp]), hrest, positional_eraseP_of_named hp]

lemma argumentNames_of_takes : ∀ {params : List Formal} {bound : List ArgumentOperand}, bound.length = params.length →
    (∀ x ∈ params.zip bound, x.1.takes x.2 = true) → argumentNames bound = paramNames params
  | [], [], _, _ => rfl
  | p :: ps, a :: bound, hlength, htakes => by
    have hrest := argumentNames_of_takes (Nat.succ.inj hlength) fun x hx => htakes x (.tail _ hx)
    have ha : p.takes a = true := htakes (p, a) (.head _)
    cases hp : p.anonymous with
    | true =>
      rw [takes_of_anonymous hp, Option.isNone_iff_eq_none] at ha
      simpa [argumentNames, paramNames, hp, ha] using hrest
    | false =>
      rw [takes_of_named hp, beq_iff_eq] at ha
      simpa [argumentNames, paramNames, hp, ha] using hrest

lemma Bound.fits (h : Bound params args bound) : (argumentNames args).Perm (paramNames params) ∧
    (positional args).length = params.countP (·.anonymous) := by
  constructor
  · rw [← argumentNames_of_takes h.length h.takes]
    exact (h.perm.filterMap _).symm
  · have hparams : (params.zip bound).map Prod.fst = params := map_fst_zip (Nat.le_of_eq h.length.symm)
    rw [← h.inOrder, length_map, ← countP_eq_length_filter, ← hparams, countP_map]
    rw [hparams]
    rfl

lemma eq_of_name_eq (hnodup : (argumentNames args).Nodup) {a a' : ArgumentOperand} (ha : a ∈ args) (ha' : a' ∈ args) {n : String}
    (hn : a.name = some n) (hn' : a'.name = some n) : a = a' := by
  by_contra hne
  have hpairs := pairwise_filterMap.1 hnodup
  have hsymm : Std.Symm fun a a' : ArgumentOperand => ∀ n, a.name = some n → ∀ n', a'.name = some n' → n ≠ n' :=
    ⟨fun a a' h n hn n' hn' heq => h n' hn' n hn heq.symm⟩
  exact hpairs.forall ha ha' hne n hn n hn' rfl

lemma eq_of_takes (hnodup : (argumentNames args).Nodup) : ∀ {params : List Formal} {bound bound' : List ArgumentOperand},
    bound.length = params.length → bound'.length = params.length → bound ⊆ args → bound' ⊆ args →
    (∀ x ∈ params.zip bound, x.1.takes x.2 = true) → (∀ x ∈ params.zip bound', x.1.takes x.2 = true) →
    ((params.zip bound).filter (·.1.anonymous)).map (·.2) = ((params.zip bound').filter (·.1.anonymous)).map (·.2) →
      bound = bound'
  | [], [], [], _, _, _, _, _, _, _ => rfl
  | p :: ps, a :: bound, a' :: bound', hlength, hlength', hsubset, hsubset', htakes, htakes', horder => by
    obtain ⟨ha,hsubset⟩ := cons_subset.1 hsubset
    obtain ⟨ha',hsubset'⟩ := cons_subset.1 hsubset'
    rw [zip_cons_cons, zip_cons_cons, filter_cons, filter_cons] at horder
    have hrest := eq_of_takes hnodup (Nat.succ.inj hlength) (Nat.succ.inj hlength') hsubset hsubset'
      (fun x hx => htakes x (.tail _ hx)) fun x hx => htakes' x (.tail _ hx)
    cases hp : p.anonymous with
    | true =>
      simp only [hp, if_true, map_cons, List.cons.injEq] at horder
      rw [horder.1, hrest horder.2]
    | false =>
      simp only [hp, Bool.false_eq_true, if_false] at horder
      have hname : p.takes a = true := htakes (p, a) (.head _)
      have hname' : p.takes a' = true := htakes' (p, a') (.head _)
      rw [takes_of_named hp, beq_iff_eq] at hname hname'
      rw [eq_of_name_eq hnodup ha ha' hname hname', hrest horder]

/-- Arguments can be bound in one way only. -/
theorem Bound.unique (hnodup : (argumentNames args).Nodup) (h : Bound params args bound) (h' : Bound params args bound') :
    bound = bound' :=
  eq_of_takes hnodup h.length h'.length h.perm.subset h'.perm.subset h.takes h'.takes (h.inOrder.trans h'.inOrder.symm)

variable {function : String} {span : Span}

lemma bindArguments_perm (h : bindArguments function params args span = .ok bound) :
    bound.Perm args ∧ bound.length = params.length := by
  obtain ⟨hfit,hle,hassigned⟩ := bindArguments_eq_ok_iff_assigned.1 h
  refine ⟨perm_of_assigned hfit hle hassigned,?_⟩
  rw [← length_assigned params args, hassigned, length_map]

lemma Bound.of_bindArguments (h : bindArguments function params args span = .ok bound) :
    (paramNames params).Nodup ∧ Bound params args bound := by
  obtain ⟨⟨-,hnodup⟩,hle,hassigned⟩ := bindArguments_eq_ok_iff_assigned.1 h
  obtain ⟨hperm,hlength⟩ := bindArguments_perm h
  exact ⟨((exists_assigned_iff hnodup).1 ⟨bound,hassigned⟩).1,hperm,hlength,takes_of_assigned hassigned,
    inOrder_of_assigned hassigned hle⟩

lemma exists_bindArguments_iff (hparams : (paramNames params).Nodup) :
    (∃ bound, bindArguments function params args span = .ok bound) ↔
      (argumentNames args).Perm (paramNames params) ∧ (positional args).length = params.countP (·.anonymous) := by
  constructor
  · rintro ⟨bound,h⟩
    exact (Bound.of_bindArguments h).2.fits
  · rintro ⟨hnames,hlength⟩
    have hnodup : (argumentNames args).Nodup := hnames.nodup_iff.2 hparams
    obtain ⟨bound,hassigned⟩ := (exists_assigned_iff hnodup).2 ⟨hparams,hnames.symm.subset,Nat.le_of_eq hlength.symm⟩
    exact ⟨bound,bindArguments_eq_ok_iff_assigned.2 ⟨⟨hnames.subset,hnodup⟩,Nat.le_of_eq hlength,hassigned⟩⟩

lemma bindArguments_eq_ok_iff :
    bindArguments function params args span = .ok bound ↔ (paramNames params).Nodup ∧ Bound params args bound := by
  refine ⟨Bound.of_bindArguments,?_⟩
  rintro ⟨hparams,h⟩
  obtain ⟨bound',hbound'⟩ := (exists_bindArguments_iff hparams).2 h.fits
  rw [hbound', h.unique (h.fits.1.nodup_iff.2 hparams) (Bound.of_bindArguments hbound').2]

end

end Opal
