import Mathlib
import ApiTypings.Proofs.Text.Digits
import ApiTypings.Proofs.Text.Pieces
import ApiTypings.Url.Host

/-! # Addresses of eight groups

The text of eight groups leaves out a run of zeros. The double colon that stands for it is the only
one, so that the groups before and after it are found again.
-/

namespace ApiTypings.Url

variable {c : Char} {s : List Char} {gs : List ℕ}

/-! ## Groups between colons -/

def AreGroups (gs : List ℕ) : Prop := ∀ g ∈ gs, g < 65536

theorem areGroups_append {hs : List ℕ} : AreGroups (gs ++ hs) ↔ AreGroups gs ∧ AreGroups hs :=
  List.forall_mem_append

theorem group?_toDigits {g : ℕ} (h : g < 65536) : group? (Nat.toDigits 16 g) = some g := by
  have hl : (Nat.toDigits 16 g).length ≤ 4 := by
    rw [Nat.length_toDigits_le_iff (by decide) (by decide)]
    exact h
  rw [group?, if_neg, Text.digitsIn_toDigits (by decide) (by decide)]
  simpa [Nat.toDigits_ne_nil] using hl

theorem lt_of_group? {g : ℕ} (h : group? s = some g) : g < 65536 := by
  unfold group? at h
  split_ifs at h with hs
  simp only [Bool.or_eq_true, decide_eq_true_eq, not_or, Nat.not_lt] at hs
  calc g < 16 ^ s.length := Text.lt_of_digitsIn h
    _ ≤ 16 ^ 4 := Nat.pow_le_pow_right (by decide) hs.2

theorem le_of_ipv4Part {b : ℕ} (h : ipv4Part s = some b) : b ≤ 255 := by
  unfold ipv4Part at h
  split_ifs at h
  simpa using (Option.filter_eq_some_iff.mp h).2

theorem le_of_mapM_ipv4Part {ss : List (List Char)} {bytes : List ℕ}
    (h : ss.mapM ipv4Part = some bytes) : ∀ b ∈ bytes, b ≤ 255 := by
  induction ss generalizing bytes with
  | nil =>
    cases h
    simp
  | cons s ss ih =>
    rw [List.mapM_cons] at h
    obtain ⟨b, hb, h⟩ := Option.bind_eq_some_iff.mp h
    obtain ⟨bs, hs, h⟩ := Option.bind_eq_some_iff.mp h
    cases h
    exact List.forall_mem_cons.mpr ⟨le_of_ipv4Part hb, ih hs⟩

theorem areGroups_of_groups? {ss : List (List Char)} (h : groups? ss = some gs) :
    AreGroups gs := by
  induction ss using groups?.induct generalizing gs with
  | case1 =>
    cases h
    simp [AreGroups]
  | case2 last hd =>
    rw [groups?, if_pos hd] at h
    obtain ⟨parts, hm, h⟩ := Option.bind_eq_some_iff.mp h
    have hp : ∀ b ∈ parts, b ≤ 255 := le_of_mapM_ipv4Part hm
    split at h
    · cases h
      simp only [List.forall_mem_cons] at hp
      simp only [AreGroups, List.forall_mem_cons]
      refine ⟨by omega, by omega, by simp⟩
    · cases h
  | case3 last hd =>
    rw [groups?, if_neg hd] at h
    obtain ⟨g, hg, rfl⟩ := Option.map_eq_some_iff.mp h
    exact List.forall_mem_singleton.mpr (lt_of_group? hg)
  | case4 part rest hr ih =>
    rw [groups?] at h
    · obtain ⟨g, hg, h⟩ := Option.bind_eq_some_iff.mp h
      obtain ⟨gs, hr, h⟩ := Option.bind_eq_some_iff.mp h
      cases h
      exact List.forall_mem_cons.mpr ⟨lt_of_group? hg, ih hr⟩
    · exact hr

theorem areGroups_of_groupsOf (h : groupsOf s = some gs) : AreGroups gs := by
  unfold groupsOf at h
  split_ifs at h
  · cases h
    simp [AreGroups]
  · exact areGroups_of_groups? h

theorem mem_groupTexts (h : c ∈ groupTexts gs) : c = ':' ∨ ∃ d < 16, c = Nat.digitChar d := by
  rcases Text.mem_of_mem_intercalate h with h | ⟨t, ht, h⟩
  · exact .inl (List.mem_singleton.mp h)
  · obtain ⟨g, -, rfl⟩ := List.mem_map.mp ht
    exact .inr (Text.mem_toDigits (by decide) h)

theorem groupTexts_cons_cons (g g' : ℕ) (gs : List ℕ) :
    groupTexts (g :: g' :: gs) = Nat.toDigits 16 g ++ ':' :: groupTexts (g' :: gs) := by
  simp [groupTexts, List.intercalate_cons_cons]

theorem exists_groupTexts_cons (g : ℕ) (gs : List ℕ) :
    ∃ c s, groupTexts (g :: gs) = c :: s ∧ c ≠ ':' := by
  obtain ⟨c, s, hs⟩ := List.exists_cons_of_ne_nil (Nat.toDigits_ne_nil (b := 16) (n := g))
  have hc : c ≠ ':' := by
    rintro rfl
    have hm : ':' ∉ Nat.toDigits 16 g :=
      Text.not_mem_toDigits (by decide) (by decide) (by decide)
    exact hm (hs ▸ List.mem_cons_self)
  cases gs with
  | nil => exact ⟨c, s, by simp [groupTexts, hs], hc⟩
  | cons g' gs => exact ⟨c, _, by rw [groupTexts_cons_cons, hs, List.cons_append], hc⟩

theorem groups?_map_toDigits (h : AreGroups gs) :
    groups? (gs.map (Nat.toDigits 16)) = some gs := by
  induction gs with
  | nil => rfl
  | cons g gs ih =>
    obtain ⟨hg, h⟩ := List.forall_mem_cons.mp h
    cases gs with
    | nil =>
      have hd : '.' ∉ Nat.toDigits 16 g :=
        Text.not_mem_toDigits (by decide) (by decide) (by decide)
      rw [List.map_singleton, groups?, if_neg (by simpa using hd), group?_toDigits hg]
      rfl
    | cons g' gs =>
      have ih := ih h
      rw [List.map_cons] at ih ⊢
      rw [List.map_cons, groups?, group?_toDigits hg, ih]
      · rfl
      · simp

theorem groupsOf_groupTexts (h : AreGroups gs) : groupsOf (groupTexts gs) = some gs := by
  by_cases hg : gs = []
  · subst hg
    rfl
  have hs : (groupTexts gs).splitOn ':' = gs.map (Nat.toDigits 16) := by
    refine List.splitOn_intercalate ':' (fun l hl => ?_) (by simpa using hg)
    obtain ⟨g, -, rfl⟩ := List.mem_map.mp hl
    exact Text.not_mem_toDigits (by decide) (by decide) (by decide)
  rw [groupsOf, if_neg, hs, groups?_map_toDigits h]
  intro he
  rw [List.isEmpty_iff.mp he] at hs
  obtain ⟨g, gs, rfl⟩ := List.exists_cons_of_ne_nil hg
  have hd := (List.cons.inj hs).1
  exact Nat.toDigits_ne_nil hd.symm

/-! ## The double colon -/

theorem splitDoubleColon_append (h : ':' ∉ s) (t : List Char) :
    splitDoubleColon (s ++ t) = (splitDoubleColon t).map fun (a, b) => (s ++ a, b) := by
  induction s with
  | nil => simp
  | cons c s ih =>
    rw [List.mem_cons, not_or] at h
    rw [List.cons_append, splitDoubleColon, ih h.2, Option.map_map]
    · rfl
    · exact fun _ hc => absurd hc.symm h.1

theorem splitDoubleColon_groupTexts (gs : List ℕ) (t : List Char) :
    splitDoubleColon (groupTexts gs ++ t) =
      (splitDoubleColon t).map fun (a, b) => (groupTexts gs ++ a, b) := by
  have hn : ∀ g, ':' ∉ Nat.toDigits 16 g := fun _ =>
    Text.not_mem_toDigits (by decide) (by decide) (by decide)
  induction gs with
  | nil => simp [groupTexts]
  | cons g gs ih =>
    cases gs with
    | nil => simpa [groupTexts] using splitDoubleColon_append (hn g) t
    | cons g' gs =>
      rw [groupTexts_cons_cons, List.append_assoc, splitDoubleColon_append (hn g),
        List.cons_append, splitDoubleColon, ih, Option.map_map, Option.map_map]
      · simp [Function.comp_def]
      · obtain ⟨c, s, hs, hc⟩ := exists_groupTexts_cons g' gs
        simp [hs, hc]

/-! ## Zeros -/

theorem eq_append_zeros (gs : List ℕ) (i : ℕ) :
    gs = gs.take i ++ (List.replicate (zerosAt gs i) 0 ++ gs.drop (i + zerosAt gs i)) := by
  have ht : (gs.drop i).takeWhile (· == 0) = List.replicate (zerosAt gs i) 0 :=
    List.eq_replicate_of_mem fun b hb => by simpa using List.mem_takeWhile_imp hb
  have hd : gs.drop (i + zerosAt gs i) = (gs.drop i).dropWhile (· == 0) := by
    have h := congrArg (List.drop (zerosAt gs i))
      (List.takeWhile_append_dropWhile (p := (· == 0)) (l := gs.drop i))
    rwa [zerosAt, List.drop_left, List.drop_drop, eq_comm] at h
  rw [hd, ← ht, List.takeWhile_append_dropWhile, List.take_append_drop]

/-- What stands for a run of zeros stands for all of them, and for no single one. -/
theorem compressAt_eq_some {i n : ℕ} (h : compressAt gs = some (i, n)) :
    n = zerosAt gs i ∧ 2 ≤ n := by
  have hr : ∀ x ∈ compressAt gs, x.2 = zerosAt gs x.1 ∧ 2 ≤ x.2 := by
    refine List.foldlRecOn (motive := fun best : Option (ℕ × ℕ) =>
      ∀ x ∈ best, x.2 = zerosAt gs x.1 ∧ 2 ≤ x.2) _ _ (by simp) fun best hb i _ x hx => ?_
    have hi : ¬ zerosAt gs i < 2 → x = (i, zerosAt gs i) → x.2 = zerosAt gs x.1 ∧ 2 ≤ x.2 := by
      rintro hn rfl
      exact ⟨rfl, Nat.not_lt.mp hn⟩
    dsimp only at hx
    split_ifs at hx with hn
    · exact hb x hx
    · split at hx
      · split_ifs at hx
        · exact hi hn (Option.mem_some.mp hx).symm
        · exact hb x hx
      · exact hi hn (Option.mem_some.mp hx).symm
  exact hr _ h

/-! ## Addresses -/

def IsGroups (gs : List ℕ) : Prop := gs.length = 8 ∧ AreGroups gs

theorem isGroups_of_ipv6? (h : ipv6? s = some gs) : IsGroups gs := by
  unfold ipv6? at h
  split at h
  · next left right hs =>
    dsimp only at h
    split_ifs at h
    · cases h
    obtain ⟨l, hl, h⟩ := Option.bind_eq_some_iff.mp h
    obtain ⟨r, hr, h⟩ := Option.bind_eq_some_iff.mp h
    split_ifs at h with hm
    cases h
    refine ⟨?_, areGroups_append.mpr ⟨areGroups_append.mpr ⟨areGroups_of_groupsOf hl, ?_⟩,
      areGroups_of_groupsOf hr⟩⟩
    · simp only [List.length_append, List.length_replicate]
      omega
    · intro g hg
      rw [(List.mem_replicate.mp hg).2]
      decide
  · obtain ⟨gs', hg, h⟩ := Option.bind_eq_some_iff.mp h
    split_ifs at h with hl
    cases h
    exact ⟨hl, areGroups_of_groupsOf hg⟩

theorem dot_not_mem_groupTexts (gs : List ℕ) : '.' ∉ groupTexts gs := fun hm => by
  have hd : ∀ d < 16, '.' ≠ Nat.digitChar d := by decide
  rcases mem_groupTexts hm with h | ⟨d, hlt, he⟩
  · cases h
  · exact hd d hlt he

theorem ipv6?_groupTexts (h : IsGroups gs) : ipv6? (groupTexts gs) = some gs := by
  have hs : splitDoubleColon (groupTexts gs) = none := by
    simpa [splitDoubleColon] using splitDoubleColon_groupTexts gs []
  simp [ipv6?, hs, groupsOf_groupTexts h.2, h.1]

theorem ipv6?_doubleColon {ls rs : List ℕ} (hl : AreGroups ls) (hr : AreGroups rs)
    (hm : 8 - (ls.length + rs.length) ≠ 0) :
    ipv6? (groupTexts ls ++ ':' :: ':' :: groupTexts rs) =
      some (ls ++ List.replicate (8 - (ls.length + rs.length)) 0 ++ rs) := by
  have hs : splitDoubleColon (groupTexts ls ++ ':' :: ':' :: groupTexts rs) =
      some (groupTexts ls, groupTexts rs) := by
    simp [splitDoubleColon_groupTexts, splitDoubleColon]
  simp [ipv6?, hs, dot_not_mem_groupTexts, groupsOf_groupTexts hl, groupsOf_groupTexts hr, hm]

theorem exists_ipv6Text (h : IsGroups gs) :
    ∃ t, ipv6Text gs = '[' :: (t ++ [']']) ∧ ipv6? t = some gs ∧
      ∀ c ∈ t, c = ':' ∨ ∃ d < 16, c = Nat.digitChar d := by
  cases hc : compressAt gs with
  | none =>
    exact ⟨groupTexts gs, by simp [ipv6Text, hc], ipv6?_groupTexts h, fun _ => mem_groupTexts⟩
  | some x =>
    obtain ⟨i, n⟩ := x
    obtain ⟨rfl, hn⟩ := compressAt_eq_some hc
    have he := eq_append_zeros gs i
    have hl := congrArg List.length he
    simp only [List.length_append, List.length_replicate, h.1] at hl
    have hm : 8 - ((gs.take i).length + (gs.drop (i + zerosAt gs i)).length) = zerosAt gs i := by
      omega
    have ha := h.2
    rw [he, areGroups_append, areGroups_append] at ha
    refine ⟨groupTexts (gs.take i) ++ ':' :: ':' :: groupTexts (gs.drop (i + zerosAt gs i)),
      by simp [ipv6Text, hc], ?_, ?_⟩
    · rw [ipv6?_doubleColon ha.1 ha.2.2 (by omega), hm, List.append_assoc, ← he]
    · refine List.forall_mem_append.mpr ⟨fun _ => mem_groupTexts, ?_⟩
      exact List.forall_mem_cons.mpr ⟨.inl rfl, List.forall_mem_cons.mpr
        ⟨.inl rfl, fun _ => mem_groupTexts⟩⟩

end ApiTypings.Url
