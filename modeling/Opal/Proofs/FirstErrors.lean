import Opal.Proofs.ParsedReadings
import Opal.Proofs.TokenReaders
import Opal.Session

/-!
# The error that ends a run

A reader fails at a token it has looked at, or at the lexical error that ends the sequence. So a dump of the tokens decides
which error is found, and never whether one is.
-/

namespace Opal

open Cursor

variable {tokens : List Token} {file : SourceFile} {source : String} {e fault : SyntaxError}

/-! ### The first lexical error -/

/-- Where the tokens end with an error, it is lexical and starts after them. -/
theorem Cursor.of_ending_error (h : (ofSource source).ending = .error e) :
    e.isLexical = true ∧ ∀ t ∈ (ofSource source).tokens, t.span.stop ≤ e.span.start := by
  obtain ⟨ts,faults,hfaults⟩ := ending_eq_error_iff.1 h
  obtain ⟨-,hnil⟩ | ⟨e',rest,ts',faults',hscan,hcons⟩ := splitAtErrors_cases (scan source)
  · cases hfaults.symm.trans hnil
  cases hfaults.symm.trans hcons
  have htiles := tiles_scan source
  rw [hscan] at htiles
  constructor
  · obtain ⟨_,_,_,-,-,hquotes,-⟩ := htiles.exists_of_mem (s := .error e) (by simp)
    exact hquotes.1
  · intro t ht
    exact (List.pairwise_append.1 htiles.pairwise).2.2 (.ok t) (List.mem_map_of_mem ht) (.error e) (.head _)

lemma tokenize_eq (source : String) :
    tokenize source = (ofSource source).ending.map fun last => (ofSource source).tokens ++ [last] := rfl

/-- Where there is no lexical error, parsing fails at a token. -/
theorem Module.error_of_tokenize (h : tokenize source = .ok tokens) (hparse : Module.parse source = .error e) :
    e.isLexical = false ∧ ∃ t ∈ tokens, e.span = t.span := by
  rw [tokenize_eq] at h
  cases hending : (ofSource source).ending with
  | error fault => rw [hending] at h; cases h
  | ok last =>
    rw [hending] at h
    cases h
    obtain hfault | ⟨hsyntactic,t,ht,hspan⟩ := Module.blames_of_parse hparse
    · rw [hending] at hfault
      cases hfault
    · refine ⟨SyntaxError.isLexical_eq_false hsyntactic,t,List.mem_append.2 (ht.imp_right fun hlast => ?_),hspan⟩
      rw [hending] at hlast
      cases hlast
      exact List.mem_singleton_self _

/-- Where there is a lexical error, parsing fails with the first one or before it. -/
theorem Module.exists_error_of_tokenize (h : tokenize source = .error fault) :
    ∃ e, Module.parse source = .error e ∧ (e = fault ∨ e.isLexical = false ∧ e.span.stop ≤ fault.span.start) := by
  have hending : (ofSource source).ending = .error fault := eq_error_of_map h
  cases hparse : Module.parse source with
  | ok m =>
    -- A text that is parsed is read to its end.
    obtain ⟨-,t,ht⟩ := Module.mem_readings_of_parse hparse
    rw [hending] at ht
    cases ht
  | error e =>
    refine ⟨e,rfl,?_⟩
    obtain hfault | ⟨hsyntactic,t,ht,hspan⟩ := Module.blames_of_parse hparse
    · rw [hending] at hfault
      cases hfault
      exact .inl rfl
    · rw [Cursor.Shows, hending] at ht
      obtain ht | hlast := ht
      · exact .inr ⟨SyntaxError.isLexical_eq_false hsyntactic,hspan ▸ (of_ending_error hending).2 t ht⟩
      · cases hlast

/-! ### Runs with other options -/

namespace Session

/-- What a run finds out about a file if the tokens are not dumped. -/
def outcome (file : SourceFile) : Except SyntaxError Checked :=
  (Module.parse file.source).map fun m => ⟨m,m.check⟩

/-- A dump of the tokens stops a run at a lexical error, and changes nothing else in its result. -/
theorem check_fst (options : Options) (file : SourceFile) : (check options file).1 =
      if options.dumpTokens then tokenize file.source >>= fun _ => outcome file else outcome file := by
  have hrest (log : String) : (parseAndCheck options file log).1 = outcome file := by
    unfold parseAndCheck outcome
    cases Module.parse file.source <;> rfl
  unfold check
  split
  · cases tokenize file.source with
    | error e => rfl
    | ok tokens => exact hrest _
  · exact hrest _

/-- A run that dumps the tokens ends with the first lexical error, and one that does not with an error of the syntax
before it. -/
structure DumpDecides (source : String) (options options' : Options) (e e' : SyntaxError) : Prop where
  dumps : options.dumpTokens = true
  spares : options'.dumpTokens = false
  first : tokenize source = .error e
  syntactic : e'.isLexical = false
  before : e'.span.stop ≤ e.span.start

lemma check_of_tokenize (h : tokenize file.source = .ok tokens)
    (options : Options) : (check options file).1 = outcome file := by
  rw [check_fst, h]
  exact ite_self _

lemma check_of_fault (h : tokenize file.source = .error fault)
    (hparse : Module.parse file.source = .error e) (options : Options) :
    (check options file).1 = .error (if options.dumpTokens then fault else e) := by
  rw [check_fst, h, outcome, hparse]
  split <;> rfl

/-- The parser reads from its cursor what the scanner hands out, call by call and also after errors. Where tokens end with a
lexical error, parsing fails with it or before it; where they do not, it fails at a token. So two runs on a file find the same,
or both fail, with the same error unless one of them alone dumps the tokens. -/
theorem first_error (file : SourceFile) :
    (∀ calls, run calls (.ofSource file.source) = (Lookahead.run calls (.ofSource file.source)).1) ∧
    ((∃ tokens, tokenize file.source = .ok tokens ∧
        ∀ e, Module.parse file.source = .error e → e.isLexical = false ∧ ∃ t ∈ tokens, e.span = t.span) ∨
      ∃ fault e, tokenize file.source = .error fault ∧ fault.isLexical = true ∧ Module.parse file.source = .error e ∧
        (e = fault ∨ e.isLexical = false ∧ e.span.stop ≤ fault.span.start)) ∧
    ∀ options options', (∃ checked, (check options file).1 = .ok checked ∧ (check options' file).1 = .ok checked) ∨
      ∃ e e', (check options file).1 = .error e ∧ (check options' file).1 = .error e' ∧
        (e = e' ∨ DumpDecides file.source options options' e e' ∨ DumpDecides file.source options' options e' e) := by
  refine ⟨run_eq (stream_ofSource file.source),?_⟩
  cases htokens : tokenize file.source with
  | ok tokens =>
    refine ⟨.inl ⟨tokens,rfl,fun e he => Module.error_of_tokenize htokens he⟩,fun options options' => ?_⟩
    rw [check_of_tokenize htokens, check_of_tokenize htokens]
    cases outcome file with
    | ok checked => exact .inl ⟨checked,rfl,rfl⟩
    | error e => exact .inr ⟨e,e,rfl,rfl,.inl rfl⟩
  | error fault =>
    obtain ⟨e,hparse,he⟩ := Module.exists_error_of_tokenize htokens
    have hlexical := (of_ending_error (eq_error_of_map htokens)).1
    refine ⟨.inr ⟨fault,e,rfl,hlexical,hparse,he⟩,fun options options' => .inr ?_⟩
    refine ⟨_,_,check_of_fault htokens hparse options,check_of_fault htokens hparse options',?_⟩
    obtain rfl | ⟨hsyntactic,hbefore⟩ := he
    · exact .inl (by rw [ite_self, ite_self])
    cases hdump : options.dumpTokens with
    | true =>
      cases hdump' : options'.dumpTokens with
      | true => exact .inl rfl
      | false => exact .inr (.inl ⟨hdump,hdump',htokens,hsyntactic,hbefore⟩)
    | false =>
      cases hdump' : options'.dumpTokens with
      | true => exact .inr (.inr ⟨hdump',hdump,htokens,hsyntactic,hbefore⟩)
      | false => exact .inl rfl

end Session

end Opal
