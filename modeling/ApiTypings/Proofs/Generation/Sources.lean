import Mathlib
import ApiTypings.Proofs.Generation.Conversion

/-! # Runs on the same documents

Where the documents of a run come from does not matter. If all of them can be had, the run fails
only for want of a response or because of a template.
-/

namespace ApiTypings

theorem Run.result_bind_eq_error_iff {α β : Type} {x : Run α} {f : α → Run β} {e : Failure} :
    (x >>= f).result = .error e ↔
      x.result = .error e ∨ ∃ a, x.result = .ok a ∧ (f a).result = .error e := by
  rw [Run.result_bind]
  cases x.result <;> simp [Except.bind]

/-- Sources from which the same documents can be had, as far as a tree lists them. -/
structure Source.SharesDocuments (source source' : Source) : Prop where
  schemas : ∃ schemas, source.schemas.result = .ok schemas ∧ source'.schemas.result = .ok schemas
  endpoints : ∃ modules, source.tree.result = .ok modules ∧ source'.tree.result = .ok modules ∧
    ∀ id ∈ (endpointIds modules).value, ∃ e,
      (source.endpoint id).result = .ok e ∧ (source'.endpoint id).result = .ok e

/-- The failures for which the documents are not to blame unless they lack a response. -/
def Failure.IsInternal (e : Failure) : Prop :=
  (∃ m, e = .missingResponse m) ∨ ∃ x, e = .template x

variable {rules : ConversionRules} {r : Registry} {source source' : Source} {ids : List String}
  {n : Names} {e : Failure}

theorem convertEndpoints_congr (h : ∀ id ∈ ids, ∃ e,
    (source.endpoint id).result = .ok e ∧ (source'.endpoint id).result = .ok e) :
    (convertEndpoints rules r source ids n).result =
      (convertEndpoints rules r source' ids n).result := by
  induction ids generalizing n with
  | nil => rfl
  | cons id ids ih =>
    obtain ⟨x, hx, hx'⟩ := h id List.mem_cons_self
    have ih := fun n => ih (n := n) fun id hi => h id (List.mem_cons_of_mem _ hi)
    simp only [convertEndpoints, Run.result_bind, hx, hx', ih]

theorem convertEndpoint_isInternal {id : String} {x : Endpoint}
    (h : (convertEndpoint rules r id x n).result = .error e) : e.IsInternal := by
  cases hs : x.success? rules.successResponse with
  | some success => simp [convertEndpoint_of_success r id n hs] at h
  | none =>
    rw [convertEndpoint_of_missing r id n hs] at h
    split_ifs at h
    exact .inl ⟨_, (Except.error.inj h).symm⟩

theorem convertEndpoints_isInternal
    (hs : ∀ id ∈ ids, ∃ x, (source.endpoint id).result = .ok x)
    (h : (convertEndpoints rules r source ids n).result = .error e) : e.IsInternal := by
  induction ids generalizing n with
  | nil => simp [convertEndpoints] at h
  | cons id ids ih =>
    obtain ⟨x, hx⟩ := hs id List.mem_cons_self
    have ih := fun n => ih (n := n) fun id hi => hs id (List.mem_cons_of_mem _ hi)
    simp only [convertEndpoints, Run.result_bind_eq_error_iff, hx] at h
    rcases h with h | ⟨_, -, h | ⟨⟨_, n₁⟩, -, h | ⟨_, -, h⟩⟩⟩
    · cases h
    · exact convertEndpoint_isInternal h
    · exact ih n₁ h
    · cases h

namespace Source.SharesDocuments

variable {c : Config} {t : Renderer}

theorem convert_eq (h : source.SharesDocuments source') :
    (convert rules source).result = (convert rules source').result := by
  obtain ⟨⟨schemas, hs, hs'⟩, modules, hm, hm', he⟩ := h
  simp only [convert, Run.result_bind, hs, hs', hm, hm', Except.bind, Run.result_ofWarned,
    convertEndpoints_congr he]

theorem generate_eq (h : source.SharesDocuments source') :
    (generate c t source).result = (generate c t source').result := by
  simp only [generate, Run.result_bind, h.convert_eq]

theorem isInternal_of_convert (h : source.SharesDocuments source')
    (he : (convert rules source).result = .error e) : e.IsInternal := by
  obtain ⟨⟨schemas, hs, -⟩, modules, hm, -, hd⟩ := h
  simp only [convert, Run.result_bind_eq_error_iff, Run.result_ofWarned, hs, hm,
    Except.ok.injEq, exists_eq_left', reduceCtorEq, false_or] at he
  rcases he with he | ⟨_, -, he⟩
  · exact convertEndpoints_isInternal (fun id hi => (hd id hi).imp fun _ h => h.1) he
  · cases he

theorem isInternal_of_generate (h : source.SharesDocuments source')
    (he : (generate c t source).result = .error e) : e.IsInternal := by
  simp only [generate, Run.result_bind_eq_error_iff, Run.result_ofExcept] at he
  rcases he with he | ⟨d, -, he | ⟨_, -, he⟩⟩
  · exact h.isInternal_of_convert he
  · cases hr : d.render t c.requestImport with
    | ok x => simp [hr, Except.mapError] at he
    | error x => exact .inr ⟨x, by simpa [hr, Except.mapError, eq_comm] using he⟩
  · cases he

end Source.SharesDocuments

end ApiTypings
