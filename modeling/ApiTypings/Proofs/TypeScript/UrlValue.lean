import Mathlib
import ApiTypings.Proofs.TypeScript.Misreadings

/-! # Values of addresses

The template literal for a path has the value that is meant for the path, whatever the values of
the parameters are, exactly if the pieces of the path are faithful.

Only one direction is a matter of reading the pieces one after the other. For the other one all
parameters get values of one length, greater than that of any substitution. Then no template has a
longer value than its path, and a shorter one if a backslash or the start of a substitution stands
in the path: an escape sequence loses its backslash, and a substitution that is not one of the path
takes up a token, whose value is lost.
-/

namespace ApiTypings

namespace TypeScript

open Text (Piece pieces)

variable {env : Units → Units} {c : Char} {w w' t name : List Char}
  {ps qs : List (Piece (List Char))}

/-! ## Substitutions that are read as text -/

/-- A template does not end in a text, and reading the text gives no more than it has. -/
def ReadsThrough (env : Units → Units) (w t : List Char) : Prop :=
  ∀ v, readTemplate env (w ++ t) = some (v, []) →
    ∃ v', readTemplate env t = some (v', []) ∧ v.length ≤ (units w).length + v'.length

theorem ReadsThrough.append (h : ReadsThrough env w (w' ++ t)) (h' : ReadsThrough env w' t) :
    ReadsThrough env (w ++ w') t := by
  intro v hv
  obtain ⟨u, hu, hl⟩ := h v (by rwa [← List.append_assoc])
  obtain ⟨u', hu', hl'⟩ := h' u hu
  refine ⟨u', hu', ?_⟩
  rw [units_append, List.length_append]
  omega

theorem readsThrough_of_readAfter {u : Units}
    (h : readTemplate env (w ++ t) = readAfter u (readTemplate env t))
    (hu : u.length ≤ (units w).length) : ReadsThrough env w t := by
  intro v hv
  obtain ⟨v', hv', rfl⟩ := exists_of_readAfter (h.symm.trans hv)
  refine ⟨v', hv', ?_⟩
  rw [List.length_append]
  omega

theorem readsThrough_char (hq : c ≠ '\x60') (hb : c ≠ '\\')
    (hs : ¬ (c = '$' ∧ t.head? = some '\x7b')) : ReadsThrough env [c] t := by
  by_cases hr : c = '\r'
  · subst hr
    refine readsThrough_of_readAfter (readTemplate_return t) ?_
    split_ifs <;> decide
  · exact readsThrough_of_readAfter (readTemplate_plain hq hb hr hs) (by simp)

/-- A backtick in the text would end the template. -/
theorem readsThrough_escapeChar (hs : ¬ (c = '$' ∧ t.head? = some '\x7b')) (ht : t ≠ []) :
    ReadsThrough env (escapeChar c) t := by
  by_cases hc : c = '\\' ∨ c = '"'
  · rw [escapeChar, if_pos hc]
    refine readsThrough_of_readAfter (u := charUnits c) ?_ (by simp)
    refine readTemplate_escape (w := [c]) ?_
    rcases hc with rfl | rfl <;> rfl
  · rw [escapeChar, if_neg hc]
    push Not at hc
    by_cases hq : c = '\x60'
    · subst hq
      intro v hv
      rw [List.singleton_append, readTemplate_closing] at hv
      cases hv
      exact absurd rfl ht
    · exact readsThrough_char hq hc.1 hs

theorem head?_escapeChars_ne (hn : NoBraces name) (hb : t.head? ≠ some '\x7b') :
    (escapeChars name ++ t).head? ≠ some '\x7b' := by
  cases name with
  | nil => exact hb
  | cons c name =>
    have hc := (hn c List.mem_cons_self).1
    simp only [escapeChars, List.flatMap_cons, escapeChar]
    split_ifs <;> simp [hc]

theorem readsThrough_escapeChars (hn : NoBraces name) (ht : t ≠ [])
    (hb : t.head? ≠ some '\x7b') : ReadsThrough env (escapeChars name) t := by
  induction name with
  | nil =>
    intro v hv
    exact ⟨v, hv, by simp⟩
  | cons c name ih =>
    have hn' : NoBraces name := (List.forall_mem_cons.mp hn).2
    have hs : ¬ (c = '$' ∧ (escapeChars name ++ t).head? = some '\x7b') := fun h =>
      head?_escapeChars_ne hn' hb h.2
    exact (readsThrough_escapeChar hs (by simp [ht])).append (ih hn')

theorem escapeChars_eq_self (h : ∀ c ∈ w, c ≠ '\\' ∧ c ≠ '"') : escapeChars w = w := by
  induction w with
  | nil => rfl
  | cons c w ih =>
    obtain ⟨hc, hw⟩ := List.forall_mem_cons.mp h
    rw [escapeChars, List.flatMap_cons, ← escapeChars, ih hw, escapeChar, if_neg (by tauto)]
    rfl

/-- Without the dollar sign a substitution is text. -/
theorem readsThrough_access (hn : NoBraces name) (t : List Char) :
    ReadsThrough env ('\x7b' :: access name) t := by
  have hopen : ∀ t, ReadsThrough env ['\x7b'] t := fun t =>
    readsThrough_char (by decide) (by decide) (by simp)
  have hclose : ReadsThrough env ['\x7d'] t := readsThrough_char (by decide) (by decide) (by simp)
  unfold access
  split_ifs with hi
  · have he : escapeChars ("params.".toList ++ name) = "params.".toList ++ name := by
      apply escapeChars_eq_self
      intro c hc
      rcases List.mem_append.mp hc with hc | hc
      · simp at hc
        rcases hc with rfl | rfl | rfl | rfl | rfl | rfl | rfl <;> decide
      · have := forall_isNamePart hi c hc
        constructor <;> rintro rfl <;> simp [isNamePart, Char.isAlphanum, Char.isAlpha] at this
    have hm : NoBraces ("params.".toList ++ name) := by
      intro c hc
      rcases List.mem_append.mp hc with hc | hc
      · simp at hc
        rcases hc with rfl | rfl | rfl | rfl | rfl | rfl | rfl <;> decide
      · exact hn c hc
    have hbody : ReadsThrough env (escapeChars ("params.".toList ++ name)) ('\x7d' :: t) :=
      readsThrough_escapeChars hm (by simp) (by simp)
    rw [he] at hbody
    simpa using (hopen _).append (hbody.append hclose)
  · have hstart : ReadsThrough env (escapeChars "params[".toList)
        ('"' :: (escapeChars name ++ "\"]\x7d".toList ++ t)) :=
      readsThrough_escapeChars (by simp [NoBraces]) (by simp) (by simp)
    have hquote : ∀ t, ReadsThrough env ['"'] t := fun t =>
      readsThrough_char (by decide) (by decide) (by simp)
    have hbracket : ReadsThrough env [']'] ('\x7d' :: t) :=
      readsThrough_char (by decide) (by decide) (by simp)
    have hname : ReadsThrough env (escapeChars name) ('"' :: ']' :: '\x7d' :: t) :=
      readsThrough_escapeChars hn (by simp) (by simp)
    have hend := (hquote _).append (hbracket.append hclose)
    have h := (hopen _).append (hstart.append ((hquote _).append (hname.append hend)))
    simpa [escapeChars, escapeChar] using h

/-! ## Lengths of values -/

theorem documentedValue_append :
    documentedValue env (ps ++ qs) = documentedValue env ps ++ documentedValue env qs :=
  List.flatMap_append

theorem documentedValue_map_plain (w : List Char) :
    documentedValue env (w.map .plain) = units w := by
  rw [documentedValue, List.flatMap_map]
  rfl

/-- There is nothing in the pieces that would be read as the start of something else. -/
def Inert (ps : List (Piece (List Char))) : Prop :=
  .plain '\\' ∉ ps ∧ ¬ [.plain '$', .plain '\x7b'] <:+: ps

/-- A template has no longer value than the one meant, and one of its length only without the
start of something else. -/
def Bounded (env : Units → Units) (ps : List (Piece (List Char))) : Prop :=
  ∀ v, readTemplate env (remainder ps) = some (v, []) →
    v.length < (documentedValue env ps).length ∨
      v.length = (documentedValue env ps).length ∧ Inert ps

theorem Bounded.le {v : Units} (h : Bounded env ps)
    (hv : readTemplate env (remainder ps) = some (v, [])) :
    v.length ≤ (documentedValue env ps).length :=
  (h v hv).elim le_of_lt fun h => h.1.le

theorem Bounded.cons {p : Piece (List Char)} {u : Units} (h : Bounded env ps)
    (hr : readTemplate env (remainder (p :: ps)) = readAfter u (readTemplate env (remainder ps)))
    (hu : u.length ≤ (documentedValue env [p]).length) (hi : Inert ps → Inert (p :: ps)) :
    Bounded env (p :: ps) := by
  intro v hv
  obtain ⟨v', hv', rfl⟩ := exists_of_readAfter (hr.symm.trans hv)
  rw [← List.singleton_append, documentedValue_append, List.length_append, List.length_append]
  obtain hl | ⟨hl, hp⟩ := h v' hv'
  · exact .inl (by omega)
  · rcases hu.lt_or_eq with hu | hu
    · exact .inl (by omega)
    · exact .inr ⟨by omega, hi hp⟩

theorem inert_plain_iff :
    Inert (.plain c :: ps) ↔
      (c ≠ '\\' ∧ ¬ (c = '$' ∧ (remainder ps).head? = some '\x7b')) ∧ Inert ps := by
  unfold Inert
  rw [not_substitution_iff, List.mem_cons, Piece.plain.injEq, not_or, eq_comm (a := '\\')]
  tauto

theorem Inert.found (h : Inert ps) : Inert (.found name :: ps) := by
  refine ⟨by simpa using h.1, ?_⟩
  rw [List.infix_cons_iff, not_or]
  exact ⟨by simp, h.2⟩

section

variable {n : ℕ}

theorem length_lt_of_escape (hn : ∀ u, (env u).length = n)
    (hb : ∀ name, .found name ∈ ps → NoBraces name)
    (hm : ∀ name, .found name ∈ ps → (units (access (escapeBackticks name))).length + 2 ≤ n)
    (ih : ∀ us vs, ps = us ++ vs → Bounded env vs) {v : Units}
    (hv : readTemplate env ('\\' :: remainder ps) = some (v, [])) :
    v.length < (documentedValue env ps).length + 1 := by
  cases he : escape (remainder ps) with
  | none =>
    rw [readTemplate, readTo_none (by decide) (by simp [templateElement, he])] at hv
    cases hv
  | some e =>
    obtain ⟨w, t, hs, hl, hu, hw⟩ := escape_cases (u := e.1) (n := e.2) he
    rw [hs] at hv he
    obtain ⟨v', hv', rfl⟩ := exists_of_readAfter
      ((readTemplate_escape (v := e.1) (by rw [he, hl])).symm.trans hv)
    rw [List.length_append]
    rcases remainder_eq_escape hw hs with ⟨qs, rfl, rfl⟩ | ⟨qs, rfl, rfl⟩ |
      ⟨name, qs, rfl, rfl, rfl⟩ | ⟨rfl, rfl⟩
    · have := (ih _ _ rfl).le hv'
      rw [documentedValue_append, documentedValue_map_plain, List.length_append]
      omega
    · rw [readTemplate_closing] at hv'
      simp [remainder_ne_nil] at hv'
    · -- the dollar sign of a substitution is escaped, and what is left of it is text
      obtain ⟨u, hu', hl'⟩ := readsThrough_access
        (hb name (by simp)).escapeBackticks (remainder qs) v' hv'
      have := (ih [_] qs rfl).le hu'
      have := hm name (by simp)
      have hd : (units ['$']).length = 1 := by decide
      have hd' : (charUnits '\x7b').length = 1 := by decide
      rw [documentedValue_found, List.length_append, hn]
      rw [units_cons, List.length_append] at hl'
      omega
    · simp [readTemplate, readTo] at hv'

theorem length_lt_of_substitution {s : List Char} (hn : ∀ u, (env u).length = n)
    (hd : Divides s (.plain '\x7b' :: ps))
    (ih : ∀ us vs, ps = us ++ vs → Bounded env vs) {v : Units}
    (hv : readTemplate env ('$' :: '\x7b' :: remainder ps) = some (v, [])) :
    v.length < (documentedValue env ps).length + 2 := by
  cases hk : readParameter (remainder ps) with
  | none =>
    rw [readTemplate_eq_none hk] at hv
    cases hv
  | some e =>
    obtain ⟨name, us, vs, hname, rfl, hr⟩ := exists_end_of_substitution (k := e.1) (r := e.2) hd hk
    have hs : remainder (us ++ vs) = templateText us ++ remainder vs := by
      simp [remainder, templateText]
    rw [hs] at hv hk
    have hread : readTemplate env ('$' :: '\x7b' :: (templateText us ++ remainder vs)) =
        readAfter (env e.1) (readTemplate env (remainder vs)) :=
      readTemplate_substitution (by rw [hk, ← hr])
    obtain ⟨v', hv', rfl⟩ := exists_of_readAfter (hread.symm.trans hv)
    have := (ih us vs rfl).le hv'
    obtain ⟨us, us', rfl⟩ := List.append_of_mem hname
    simp only [documentedValue_append, documentedValue_found, List.length_append, hn]
    omega

theorem bounded {s : List Char} (hn : ∀ u, (env u).length = n) (hd : Divides s ps)
    (hm : ∀ name, .found name ∈ ps → (units (access (escapeBackticks name))).length + 2 ≤ n) :
    Bounded env ps := by
  induction hp : ps.length using Nat.strong_induction_on generalizing ps s with
  | _ m ih =>
    cases ps with
    | nil =>
      rintro v hv
      rw [show remainder [] = ['\x60'] from rfl, readTemplate_closing] at hv
      cases hv
      exact .inr ⟨rfl, by simp [Inert]⟩
    | cons p ps =>
      -- the value of every rest of the path is bounded
      have hrest : ∀ us vs, ps = us ++ vs → Bounded env vs := by
        rintro us vs rfl
        obtain ⟨t, ht⟩ := hd.tail
        obtain ⟨t', ht'⟩ := ht.of_append
        refine ih vs.length (by simp at hp; omega) ht' (fun name hf => hm name ?_) rfl
        exact List.mem_cons_of_mem p (List.mem_append_right us hf)
      have htail : Bounded env ps := hrest [] ps rfl
      cases p with
      | plain c =>
        by_cases hq : c = '\x60'
        · subst hq
          exact htail.cons (u := charUnits '\x60') (readTemplate_backtick _) (by simp)
            fun h => inert_plain_iff.mpr ⟨by simp, h⟩
        by_cases hb : c = '\\'
        · subst hb
          intro v hv
          refine .inl (lt_of_lt_of_eq (length_lt_of_escape hn ?_ ?_ hrest hv) ?_)
          · exact fun name hf => hd.noBraces (List.mem_cons_of_mem _ hf)
          · exact fun name hf => hm name (List.mem_cons_of_mem _ hf)
          · rw [documentedValue_plain, List.length_append, add_comm]
            rfl
        by_cases hs : c = '$' ∧ (remainder ps).head? = some '\x7b'
        · obtain ⟨rfl, hh⟩ := hs
          obtain ⟨qs, rfl⟩ : ∃ qs, ps = .plain '\x7b' :: qs := by
            rw [head?_remainder_iff, List.head?_eq_some_iff] at hh
            exact hh
          obtain ⟨t, ht⟩ := hd.tail
          intro v hv
          refine .inl (lt_of_lt_of_eq (length_lt_of_substitution hn ht ?_ hv) ?_)
          · rintro us vs rfl
            exact hrest (.plain '\x7b' :: us) vs rfl
          · rw [documentedValue_plain, documentedValue_plain, List.length_append,
              List.length_append, show (charUnits '$').length = 1 from rfl,
              show (charUnits '\x7b').length = 1 from rfl]
            omega
        have hi : Inert ps → Inert (.plain c :: ps) := fun h => inert_plain_iff.mpr ⟨⟨hb, hs⟩, h⟩
        by_cases hr : c = '\r'
        · subst hr
          refine htail.cons (readTemplate_return _) ?_ hi
          have hl : (charUnits '\r').length = 1 := rfl
          split_ifs <;> simp [hl]
        · refine htail.cons (u := charUnits c) ?_ (by simp) hi
          rw [remainder_plain hq, readTemplate_plain hq hb hr hs]
      | found name =>
        intro v hv
        have hr : readTemplate env (remainder (.found name :: ps)) = _ :=
          readTemplate_remainder_found name
        split_ifs at hr
        · exact htail.cons hr (by simp [hn]) Inert.found v hv
        · rw [hr] at hv
          cases hv

end

/-! ## The condition -/

theorem exists_length_le (ps : List (Piece (List Char))) : ∃ n, ∀ name, .found name ∈ ps →
    (units (access (escapeBackticks name))).length + 2 ≤ n := by
  refine ⟨(units (templateText ps)).length, fun name hf => ?_⟩
  obtain ⟨qs, rs, rfl⟩ := List.append_of_mem hf
  have hd : (charUnits '$').length = 1 := by decide
  have hb : (charUnits '\x7b').length = 1 := by decide
  simp only [templateText, List.flatMap_append, List.flatMap_cons, pieceText, substitution_eq,
    List.cons_append, units_append, units_cons, List.length_append]
  omega

theorem inert_of_value {s : List Char} (hd : Divides s ps)
    (h : ∀ env, readTemplate env (remainder ps) = some (documentedValue env ps, [])) :
    Inert ps := by
  obtain ⟨n, hm⟩ := exists_length_le ps
  have hb : Bounded (fun _ => List.replicate n 0) ps := bounded (by simp) hd hm
  exact ((hb _ (h _)).resolve_left (lt_irrefl _)).2

theorem length_escapeBackticks (s : List Char) :
    (escapeBackticks s).length = s.length + s.count '\x60' := by
  induction s with
  | nil => rfl
  | cons c s ih =>
    rw [← List.singleton_append, escapeBackticks_append, List.length_append, ih,
      List.length_append, List.count_append]
    by_cases hc : c = '\x60'
    · subst hc
      simp [escapeBackticks]
      omega
    · simp [escapeBackticks, hc]
      omega

theorem escapeBackticks_eq_self_iff : escapeBackticks name = name ↔ '\x60' ∉ name := by
  refine ⟨fun he => ?_, escapeBackticks_eq_self⟩
  have hl := length_escapeBackticks name
  rw [he] at hl
  rw [← List.count_eq_zero]
  omega

/-- The names of the path are those of the parameters that the template reads: otherwise the values
could be told apart. -/
theorem escapeBackticks_eq_of_value {f g : (Units → Units) → Units}
    (h : ∀ env : Units → Units,
      env (units (escapeBackticks name)) ++ f env = env (units name) ++ g env) :
    escapeBackticks name = name := by
  by_contra hne
  have := h fun u => if u = units name then [0] else [1]
  have hu : units (escapeBackticks name) ≠ units name := fun hu => hne (units_injective hu)
  simp [hu] at this

theorem Faithful.plain (h : Faithful ps) (hi : Inert (.plain c :: ps)) (hr : c ≠ '\r') :
    Faithful (.plain c :: ps) where
  no_backslash := hi.1
  no_substitution := hi.2
  no_return hm := (List.mem_cons.mp hm).elim (fun he => hr (Piece.plain.inj he).symm) h.no_return
  names name hm := h.names name (List.mem_of_ne_of_mem (by simp) hm)

theorem Faithful.found (h : Faithful ps) (hq : '\x60' ∉ name) (hl : OnOneLine name) :
    Faithful (.found name :: ps) where
  no_backslash := (Inert.found ⟨h.no_backslash, h.no_substitution⟩).1
  no_substitution := (Inert.found ⟨h.no_backslash, h.no_substitution⟩).2
  no_return hm := h.no_return (List.mem_of_ne_of_mem (by simp) hm)
  names name' hm := by
    rcases List.mem_cons.mp hm with he | hm
    · cases he
      exact ⟨hq, hl⟩
    · exact h.names name' hm

/-- A carriage return is read as a line feed, which is missing then if it comes before one. -/
theorem not_value_return :
    readTemplate env (remainder (.plain '\r' :: ps)) ≠
      some (documentedValue env (.plain '\r' :: ps), []) := by
  have hu : charUnits '\r' = [13] := rfl
  have hu' : charUnits '\n' = [10] := rfl
  rw [remainder_plain (by decide), readTemplate_return, documentedValue_plain, hu]
  intro h
  obtain ⟨v, hv, he⟩ := exists_of_readAfter h
  split_ifs at he with hn
  · obtain ⟨t, ht⟩ : ∃ t, remainder ps = '\n' :: t := by
      rw [List.head?_eq_some_iff] at hn
      exact hn
    have hp : readTemplate env ('\n' :: t) = readAfter (charUnits '\n') (readTemplate env t) :=
      readTemplate_plain (by decide) (by decide) (by decide) (by simp)
    rw [ht] at hv
    obtain ⟨v', -, rfl⟩ := exists_of_readAfter (hp.symm.trans hv)
    rw [hu'] at he
    simp at he
  · simp at he

theorem faithful_of_inert (hi : Inert ps)
    (h : ∀ env, readTemplate env (remainder ps) = some (documentedValue env ps, [])) :
    Faithful ps := by
  induction ps with
  | nil => exact ⟨by simp, by simp, by simp, by simp⟩
  | cons p ps ih =>
    cases p with
    | plain c =>
      obtain ⟨⟨hb, hs⟩, hps⟩ := inert_plain_iff.mp hi
      have hr : c ≠ '\r' := by
        rintro rfl
        exact not_value_return (h fun _ => [])
      refine (ih hps fun env => ?_).plain hi hr
      have hc : readTemplate env (remainder (.plain c :: ps)) =
          readAfter (charUnits c) (readTemplate env (remainder ps)) := by
        by_cases hq : c = '\x60'
        · subst hq
          exact readTemplate_backtick _
        · rw [remainder_plain hq, readTemplate_plain hq hb hr hs]
      obtain ⟨v, hv, he⟩ := exists_of_readAfter (hc.symm.trans (h env))
      rw [documentedValue_plain] at he
      rw [hv, List.append_cancel_left he]
    | found name =>
      have hl : OnOneLine (escapeBackticks name) := by
        by_contra hl
        have := h fun _ => []
        rw [readTemplate_remainder_found, if_neg hl] at this
        cases this
      have hv : ∀ env, ∃ v, readTemplate env (remainder ps) = some (v, []) ∧
          env (units name) ++ documentedValue env ps = env (units (escapeBackticks name)) ++ v := by
        intro env
        have := h env
        rw [readTemplate_remainder_found, if_pos hl] at this
        exact exists_of_readAfter this
      choose v hv he using hv
      have hname := escapeBackticks_eq_of_value fun env => (he env).symm
      have hps : Inert ps :=
        ⟨fun hm => hi.1 (List.mem_cons_of_mem _ hm),
          fun hs => hi.2 (hs.trans (List.suffix_cons _ ps).isInfix)⟩
      refine (ih hps fun env => ?_).found (escapeBackticks_eq_self_iff.mp hname) (hname ▸ hl)
      rw [hv env]
      have := he env
      rw [hname] at this
      rw [List.append_cancel_left this]

theorem templateValue?_eq_some_iff {v : Units} :
    templateValue? env ('\x60' :: (templateText ps ++ ['\x60'])) = some v ↔
      readTemplate env (remainder ps) = some (v, []) := by
  rw [templateValue?, Option.bind_eq_some_iff, remainder]
  constructor
  · rintro ⟨⟨v', t⟩, h, hv⟩
    dsimp only at hv
    split_ifs at hv with ht
    cases hv
    rw [h, ht]
  · intro h
    exact ⟨(v, []), h, rfl⟩

end TypeScript

open TypeScript

/-- A path divides in one way into tokens and other characters. The template literal for it has the
value that is meant, for all values of the parameters, exactly if no backslash, no carriage return
and no start of a substitution stands in the path outside of tokens, and no backtick and no line
break within them. -/
theorem value_of_urlTemplate_iff (path : String) :
    ∃ ps, (∀ qs, Divides path.toList qs ↔ qs = ps) ∧
      ((∀ env, templateValue? env ('\x60' :: ((urlTemplate path).toList ++ ['\x60'])) =
          some (documentedValue env ps)) ↔ Faithful ps) := by
  refine ⟨Text.pieces pathParameter path.toList, fun qs => divides_iff, ?_⟩
  rw [toList_urlTemplate]
  simp only [templateValue?_eq_some_iff]
  constructor
  · exact fun h => faithful_of_inert (inert_of_value (divides_pieces _) h) h
  · exact fun h env => readTemplate_of_faithful h

/-- A backslash in a path is read as the start of a line feed in its template. -/
theorem exists_path_without_value :
    ∃ ps, Divides "/files\\name".toList ps ∧
      ∀ env, templateValue? env ('\x60' :: ((urlTemplate "/files\\name").toList ++ ['\x60'])) ≠
        some (documentedValue env ps) := by
  refine ⟨"/files\\name".toList.map .plain, divides_iff.mpr (by decide +kernel), fun env h => ?_⟩
  have ht : (urlTemplate "/files\\name").toList =
      templateText ("/files\\name".toList.map .plain) := by decide +kernel
  have hv : readTemplate env (remainder ("/files\\name".toList.map .plain)) =
      some (units "/files\name".toList, []) := rfl
  rw [ht, templateValue?_eq_some_iff, hv, documentedValue_map_plain] at h
  exact absurd h (by decide +kernel)

end ApiTypings
