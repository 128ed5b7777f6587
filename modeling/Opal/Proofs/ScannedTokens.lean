import Opal.Proofs.TiledSources

/-!
# The tokens of a source text

The tokens of a text stand one after the other, each covers at least one byte, and its text tells its class. The end of the
input comes after all of them.
-/

namespace Opal

/-- The tokens stand one after the other, and each covers at least one byte. -/
structure InOrder (ts : List Token) : Prop where
  nonempty : ∀ t ∈ ts, t.span.start < t.span.stop
  apart : ts.Pairwise fun t u => t.span.stop ≤ u.span.start

lemma InOrder.sublist {ts us : List Token} (h : InOrder us) (hsub : ts.Sublist us) : InOrder ts :=
  ⟨fun t ht => h.nonempty t (hsub.subset ht),h.apart.sublist hsub⟩

lemma splitAtErrors_cases (ss : List Scanned) : (ss = (splitAtErrors ss).1.map .ok ∧ (splitAtErrors ss).2 = []) ∨
      ∃ e rest ts faults, ss = (splitAtErrors ss).1.map .ok ++ .error e :: rest ∧ (splitAtErrors ss).2 = (e, ts) :: faults := by
  induction ss with
  | nil => exact .inl ⟨rfl,rfl⟩
  | cons s ss ih =>
    cases s with
    | error e => exact .inr ⟨e,ss,_,_,rfl,rfl⟩
    | ok t =>
      obtain ⟨hss,hnil⟩ | ⟨e,rest,ts,faults,hss,he⟩ := ih
      · exact .inl ⟨congrArg (.ok t :: ·) hss,hnil⟩
      · exact .inr ⟨e,rest,ts,faults,congrArg (.ok t :: ·) hss,he⟩

namespace Cursor

variable {c : Cursor} {source : String} {t : Token} {e : SyntaxError}

lemma ending_eq_ok_iff : c.ending = .ok t ↔ c.faults = [] ∧ c.last = t := by
  unfold ending
  cases c.faults <;> simp [endingAt]

lemma ending_eq_error_iff : c.ending = .error e ↔ ∃ ts faults, c.faults = (e, ts) :: faults := by
  unfold ending
  cases c.faults <;> simp [endingAt, Prod.ext_iff]

/-- What holds of a reader of a source text all the time. -/
structure Sane (c : Cursor) : Prop where
  order : InOrder c.tokens
  plain : ∀ t ∈ c.tokens, t.kind.IsPlain
  ending : ∀ t, c.ending = .ok t → t.kind = .eof

lemma tokens_sublist_scan (source : String) : ((ofSource source).tokens.map .ok).Sublist (scan source) := by
  obtain ⟨hscan,-⟩ | ⟨e,rest,_,_,hscan,-⟩ := splitAtErrors_cases (scan source)
  · exact hscan ▸ List.Sublist.refl _
  · rw [hscan]
    exact List.sublist_append_left _ _

lemma eq_of_ending_ok (h : (ofSource source).ending = .ok t) : t = endOfInput source :=
  (ending_eq_ok_iff.1 h).2.symm

lemma sane_ofSource (source : String) : (ofSource source).Sane where
  order := by
    have hsub := tokens_sublist_scan source
    have htiles := tiles_scan source
    refine ⟨fun t ht => ?_,List.pairwise_map.1 (htiles.pairwise.sublist hsub)⟩
    exact htiles.start_lt_stop (hsub.subset (List.mem_map_of_mem ht))
  plain t ht := by
    have hmem := (tokens_sublist_scan source).subset (List.mem_map_of_mem ht)
    obtain ⟨p,hp,start,hs⟩ := Piece.exists_of_mem_scanFrom hmem
    exact (Piece.isRead_of_mem_tile hp).plain start t hs
  ending t ht := by
    rw [eq_of_ending_ok ht]
    rfl

lemma tokenize_ofSource (h : (ofSource source).ending = .ok t) :
    tokenize source = .ok ((ofSource source).tokens ++ [endOfInput source]) := by
  rw [eq_of_ending_ok h] at h
  exact congrArg (Except.map _) h

end Cursor

end Opal
