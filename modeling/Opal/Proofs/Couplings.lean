import Opal.Proofs.Examination

/-!
# Two runs side by side

A coupling says what corresponds to what in two runs: its worlds record what the runs have in common, and only grow. One rule
for each way to build a computation. A single run is coupled with itself.
-/

namespace Opal

open Check

/-- States of two runs that correspond to each other. -/
structure Coupling where
  /-- What the two runs have in common. -/
  World : Type
  le : World → World → Prop
  le_refl : ∀ w, le w w
  le_trans : ∀ {w1 w2 w3}, le w1 w2 → le w2 w3 → le w1 w3
  rel : World → State → State → Prop
  /-- What the two runs may stop with at the same time, and the states in which they do. -/
  stopped : World → Stop × State → Stop × State → Prop
  stopped_mono : ∀ {w w' x x'}, le w w' → stopped w' x x' → stopped w x x'
  /-- Whether nothing is said of the second run once the first one stops. -/
  lax : Prop

namespace Coupling

/-- Two runs that stop at the same time, with the same and in states that correspond. -/
def ofRel {W : Type} (le : W → W → Prop) (le_refl : ∀ w, le w w) (le_trans : ∀ {w1 w2 w3}, le w1 w2 → le w2 w3 → le w1 w3)
    (rel : W → State → State → Prop) : Coupling where
  World := W
  le := le
  le_refl := le_refl
  le_trans := le_trans
  rel := rel
  stopped w x x' := x.1 = x'.1 ∧ ∃ w', le w w' ∧ rel w' x.2 x'.2
  stopped_mono := fun hle ⟨he,w',hle',hrel⟩ => ⟨he,w',le_trans hle hle',hrel⟩
  lax := False

/-- Both runs may stop with anything, if it is the same. -/
class Uniform (K : Coupling) : Prop where
  stopped_refl : ∀ {w s s'} (e : Stop), K.rel w s s' → K.stopped w (e, s) (e, s')

instance {W : Type} {le : W → W → Prop} {le_refl : ∀ w, le w w}
    {le_trans : ∀ {w1 w2 w3}, le w1 w2 → le w2 w3 → le w1 w3} {rel : W → State → State → Prop} :
    (ofRel le le_refl @le_trans rel).Uniform :=
  ⟨fun {w _ _} _ hrel => ⟨rfl,w,le_refl w,hrel⟩⟩

variable {K : Coupling} {α β α' β' : Type} {w w1 : K.World}

/-- How two computations end that were in step. -/
inductive Ends (K : Coupling) (w : K.World) (P : K.World → α → α' → Prop) :
    Except Stop α × State → Except Stop α' × State → Prop where
  | result {w' : K.World} {a : α} {a' : α'} {s s' : State} (hle : K.le w w')
    (hrel : K.rel w' s s') (h : P w' a a') : Ends K w P (.ok a, s) (.ok a', s')
  | stopped {e e' : Stop} {s s' : State} (h : K.stopped w (e, s) (e', s')) :
    Ends K w P (.error e, s) (.error e', s')
  | alone {e : Stop} {s : State} {r' : Except Stop α' × State} (h : K.lax) :
    Ends K w P (.error e, s) r'

/-- Run from states that correspond in `w`, the two computations end in states that correspond, and their results
are as `P` says. -/
def InStep (K : Coupling) (w : K.World) (m : Check α) (m' : Check α') (P : K.World → α → α' → Prop) : Prop :=
  ∀ s s', K.rel w s s' → K.Ends w P (m.run s) (m'.run s')

/-- The same for computations that cannot stop. -/
def RunInStep (K : Coupling) (w : K.World) (x : Run α) (x' : Run α') (P : K.World → α → α' → Prop) : Prop :=
  ∀ s s', K.rel w s s' → ∃ w', K.le w w' ∧ K.rel w' (x.run s).2 (x'.run s').2 ∧ P w' (x.run s).1 (x'.run s').1

/-- The computation keeps in step with itself, and its results are equal and as `P` says. -/
def Same (K : Coupling) (w : K.World) (m : Check α) (P : K.World → α → Prop) : Prop :=
  K.InStep w m m fun w' a a' => a = a' ∧ P w' a

/-- The computations keep in step, whatever their results are. -/
abbrev Follows (K : Coupling) (w : K.World) (m : Check α) (m' : Check α') : Prop :=
  K.InStep w m m' fun _ _ _ => True

abbrev RunFollows (K : Coupling) (w : K.World) (x : Run α) (x' : Run α') : Prop :=
  K.RunInStep w x x' fun _ _ _ => True

/-- The steps keep the states of the two runs in correspondence. -/
def Permits (K : Coupling) (w : K.World) (e e' : Event) : Prop :=
  ∀ s s', K.rel w s s' → ∃ w', K.le w w' ∧ K.rel w' (s.step e) (s'.step e')

namespace Ends

variable {P Q : K.World → α → α' → Prop} {r : Except Stop α × State} {r' : Except Stop α' × State}

lemma mono (h : K.Ends w1 P r r') (hle : K.le w w1)
    (hPQ : ∀ w' a a', K.le w1 w' → P w' a a' → Q w' a a') : K.Ends w Q r r' := by
  cases h with
  | result hle' hrel h => exact .result (K.le_trans hle hle') hrel (hPQ _ _ _ hle' h)
  | stopped h => exact .stopped (K.stopped_mono hle h)
  | alone h => exact .alone h

lemma bind {m : Check α} {m' : Check α'} {f : α → Check β} {f' : α' → Check β'}
    {R : K.World → β → β' → Prop} {s s' : State} (hm : K.Ends w P (m.run s) (m'.run s'))
    (hf : ∀ w1 a a' s1 s1', K.le w w1 → K.rel w1 s1 s1' → P w1 a a' → K.Ends w1 R ((f a).run s1) ((f' a').run s1')) :
    K.Ends w R ((m >>= f).run s) ((m' >>= f').run s') := by
  rw [run_bind, run_bind]
  generalize m.run s = r at hm ⊢
  generalize m'.run s' = r' at hm ⊢
  cases hm with
  | result hle hrel h => exact (hf _ _ _ _ _ hle hrel h).mono hle fun _ _ _ _ hR => hR
  | stopped h => exact .stopped h
  | alone h => exact .alone h

end Ends

namespace InStep

variable {m : Check α} {m' : Check α'} {P Q : K.World → α → α' → Prop} {f : α → Check β} {f' : α' → Check β'}
    {handler : Stop → Check α} {handler' : Stop → Check α'}

lemma mono (h : K.InStep w m m' P) (hPQ : ∀ w' a a', K.le w w' → P w' a a' → Q w' a a') : K.InStep w m m' Q :=
  fun s s' hrel => (h s s' hrel).mono (K.le_refl w) hPQ

/-! ### Computations that change nothing -/

lemma pure {a : α} {a' : α'} (h : P w a a') : K.InStep w (Pure.pure a) (Pure.pure a') P :=
  fun _ _ hrel => .result (K.le_refl w) hrel h

section

variable [K.Uniform]

lemma throw (e : Stop) : K.InStep w (MonadExcept.throw e) (MonadExcept.throw e) P :=
  fun _ _ hrel => .stopped (Uniform.stopped_refl e hrel)

lemma fail (cause : SemanticCause) (span : Span) : K.InStep w (fail cause span) (fail cause span) P :=
  throw _

lemma mismatch (expected found : String) (span : Span) :
    K.InStep w (mismatch expected found span) (mismatch expected found span) P :=
  throw _

lemma blocked : K.InStep w blocked blocked P :=
  throw _

lemma ofExcept {P : K.World → α → α → Prop} {r : Except SemanticError α}
    (h : ∀ a, r = .ok a → P w a a) : K.InStep w (ofExcept r) (ofExcept r) P := by
  cases r with
  | ok a => exact .pure (h a rfl)
  | error e => exact .throw _

end

/-! ### One computation after another -/

lemma bind {Q : K.World → β → β' → Prop} (hm : K.InStep w m m' P)
    (hf : ∀ w1 a a', K.le w w1 → P w1 a a' → K.InStep w1 (f a) (f' a') Q) : K.InStep w (m >>= f) (m' >>= f') Q :=
  fun s s' hrel => (hm s s' hrel).bind fun w1 a a' s1 s1' hle hrel1 ha => hf w1 a a' hle ha s1 s1' hrel1

lemma thenPure {f : α → β} {f' : α' → β'} {Q : K.World → β → β' → Prop}
    (hm : K.InStep w m m' P) (hf : ∀ w1 a a', K.le w w1 → P w1 a a' → Q w1 (f a) (f' a')) :
    K.InStep w (m >>= fun a => Pure.pure (f a)) (m' >>= fun a => Pure.pure (f' a)) Q :=
  hm.bind fun w1 a a' hle ha => .pure (hf w1 a a' hle ha)

lemma read {Q : K.World → β → β' → Prop} (h : ∀ s s', K.rel w s s' → ∃ a a', m.run s = (.ok a, s) ∧ m'.run s' = (.ok a', s') ∧
      K.Ends w Q ((f a).run s) ((f' a').run s')) : K.InStep w (m >>= f) (m' >>= f') Q := by
  intro s s' hrel
  obtain ⟨a,a',hm,hm',hends⟩ := h s s' hrel
  rw [run_bind, run_bind, hm, hm']
  exact hends

lemma ite {c : Prop} [Decidable c] {n : Check α} {n' : Check α'} (h : c → K.InStep w m m' P) (h' : ¬ c → K.InStep w n n' P) :
    K.InStep w (if c then m else n) (if c then m' else n') P := by
  split
  · exact h ‹_›
  · exact h' ‹_›

lemma rethrow {f : Stop → Stop} (hm : K.InStep w m m' P)
    (hf : ∀ e e' s s', K.stopped w (e, s) (e', s') → K.stopped w (f e, s) (f e', s'))
    (hh : ∀ e, handler e = MonadExcept.throw (f e)) (hh' : ∀ e, handler' e = MonadExcept.throw (f e)) :
    K.InStep w (tryCatch m handler) (tryCatch m' handler') P := by
  intro s s' hrel
  have h := hm s s' hrel
  rw [run_tryCatch, run_tryCatch]
  generalize m.run s = r at h ⊢
  generalize m'.run s' = r' at h ⊢
  cases h with
  | result hle hrel1 h => exact .result hle hrel1 h
  | stopped h =>
    dsimp only
    rw [hh, hh']
    exact .stopped (hf _ _ _ _ h)
  | alone h =>
    dsimp only
    rw [hh]
    exact .alone h

/-- What the computations stop with is handled, in runs that stop at the same time. -/
theorem handled (hstrict : ¬ K.lax) (hm : K.InStep w m m' P)
    (hh : ∀ e e' s s', K.stopped w (e, s) (e', s') → K.Ends w P ((handler e).run s) ((handler' e').run s')) :
    K.InStep w (tryCatch m handler) (tryCatch m' handler') P := by
  intro s s' hrel
  have h := hm s s' hrel
  rw [run_tryCatch, run_tryCatch]
  generalize m.run s = r at h ⊢
  generalize m'.run s' = r' at h ⊢
  cases h with
  | result hle hrel1 h => exact .result hle hrel1 h
  | stopped h => exact hh _ _ _ _ h
  | alone h => exact absurd h hstrict

lemma mapM {f : β → Check α} {P : K.World → α → Prop} (hmono : ∀ w w' a, K.le w w' → P w a → P w' a) :
    ∀ (l : List β) {w : K.World}, (∀ b ∈ l, ∀ w1, K.le w w1 → K.Same w1 (f b) P) →
      K.Same w (l.mapM f) fun w' as => as.length = l.length ∧ ∀ a ∈ as, P w' a
  | [], _, _ => .pure ⟨rfl,rfl,nofun⟩
  | b :: l, w, hf => by
    rw [List.mapM_cons]
    refine (hf b (.head _) w (K.le_refl w)).bind ?_
    rintro w1 a _ hle ⟨rfl,ha⟩
    refine (mapM hmono l fun b' hb' w2 hle2 =>
      hf b' (.tail _ hb') w2 (K.le_trans hle hle2)).thenPure ?_
    rintro w2 as _ hle2 ⟨rfl,hlen,has⟩
    exact ⟨rfl,by simp [hlen],List.forall_mem_cons.2 ⟨hmono _ _ _ hle2 ha,has⟩⟩

/-! ### Steps -/

lemma lift {x : Run α} {x' : Run α'} (h : K.RunInStep w x x' P) : K.InStep w (liftM x) (liftM x') P := by
  intro s s' hrel
  obtain ⟨w',hle,hrel',hP⟩ := h s s' hrel
  exact .result hle hrel' hP

end InStep

namespace RunInStep

variable {x : Run α} {x' : Run α'} {P Q : K.World → α → α' → Prop}

lemma mono (h : K.RunInStep w x x' P) (hPQ : ∀ w' a a', K.le w w' → P w' a a' → Q w' a a') : K.RunInStep w x x' Q := by
  intro s s' hrel
  obtain ⟨w',hle,hrel',hP⟩ := h s s' hrel
  exact ⟨w',hle,hrel',hPQ _ _ _ hle hP⟩

lemma pure {a : α} {a' : α'} (h : P w a a') : K.RunInStep w (Pure.pure a) (Pure.pure a') P :=
  fun _ _ hrel => ⟨w,K.le_refl w,hrel,h⟩

lemma bind {f : α → Run β} {f' : α' → Run β'} {Q : K.World → β → β' → Prop} (hx : K.RunInStep w x x' P)
    (hf : ∀ w1 a a', K.le w w1 → P w1 a a' → K.RunInStep w1 (f a) (f' a') Q) : K.RunInStep w (x >>= f) (x' >>= f') Q := by
  intro s s' hrel
  obtain ⟨w1,hle1,hrel1,hP⟩ := hx s s' hrel
  obtain ⟨w2,hle2,hrel2,hQ⟩ := hf w1 _ _ hle1 hP _ _ hrel1
  exact ⟨w2,K.le_trans hle1 hle2,hrel2,hQ⟩

lemma perform {e e' : Event} (h : K.Permits w e e') : K.RunFollows w (Opal.perform e) (Opal.perform e') := by
  intro s s' hrel
  obtain ⟨w',hle,hrel'⟩ := h s s' hrel
  exact ⟨w',hle,hrel',trivial⟩

lemma reported {m m' : Check Unit} {P : K.World → Unit → Unit → Prop} (hstrict : ¬ K.lax)
    (hstops : ∀ {e e' s s'}, K.stopped w (e, s) (e', s') → e = e' ∧ ∃ w', K.le w w' ∧ K.rel w' s s')
    (hstop : ∀ w (stop : Stop), K.Permits w stop.event stop.event) (hm : K.InStep w m m' P) :
    K.RunFollows w (Opal.reported m) (Opal.reported m') := by
  intro s s' hrel
  have h := hm s s' hrel
  rw [run_reported, run_reported]
  generalize m.run s = r at h ⊢
  generalize m'.run s' = r' at h ⊢
  cases h with
  | result hle hrel1 h => exact ⟨_,hle,hrel1,trivial⟩
  | @stopped e e' s1 s1' h =>
    obtain ⟨rfl,w1,hle,hrel1⟩ := hstops h
    obtain ⟨w2,hle2,hrel2⟩ := hstop w1 e _ _ hrel1
    exact ⟨w2,K.le_trans hle hle2,hrel2,trivial⟩
  | alone h => exact absurd h hstrict

lemma forM {f f' : β → Run PUnit} {G : K.World → Prop} : ∀ (l : List β) {w : K.World}, G w →
      (∀ b ∈ l, ∀ w, G w → K.RunInStep w (f b) (f' b) fun w' _ _ => G w') →
        K.RunInStep w (l.forM f) (l.forM f') fun w' _ _ => G w'
  | [], _, hw, _ => .pure hw
  | b :: l, w, hw, hf => by
    refine (hf b (.head _) w hw).bind fun w1 _ _ _ hw1 => ?_
    exact forM l hw1 fun b' hb' => hf b' (.tail _ hb')

end RunInStep

lemma InStep.perform {e e' : Event} {f : Unit → Check β} {f' : Unit → Check β'}
    {Q : K.World → β → β' → Prop} (h : K.Permits w e e') (hf : ∀ w1, K.le w w1 → K.InStep w1 (f ()) (f' ()) Q) :
    K.InStep w (liftM (Opal.perform e) >>= f) (liftM (Opal.perform e') >>= f') Q :=
  InStep.bind (.lift (.perform h)) fun w1 _ _ hle _ => hf w1 hle

end Coupling

end Opal
