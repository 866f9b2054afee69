import Mathlib
import ApiTypings.Proofs.Yaml.Block
import ApiTypings.Proofs.Yaml.Quoted

/-! # Reading entries

Every way to write a text is undone by reading it, up to the start of the next line. So a document
of entries is read as the values of its entries, one after the other.
-/

namespace ApiTypings.Yaml

variable {c : Char} {s t w rest : List Char} {v : Value}

/-! ## Written values -/

/-- A text behind a key that is read as a value, whatever the next line is. -/
structure Written (w : List Char) (v : Value) : Prop where
  starts : ∃ c t, w = c :: t ∧ isSpaceOrBreak c = false ∧ c ≠ '#'
  printable : ∀ c ∈ w, isPrintable c = true
  read : ∀ rest, StartsLine rest → readNode 0 (ended w ++ rest) = some (v, rest)

theorem not_indicator (h : startIndicators.contains c = false) :
    c ∉ ['#', '\'', '"', '|', '>', '\x7b', '['] := by
  have hs : ∀ c ∈ ['#', '\'', '"', '|', '>', '\x7b', '['], c ∈ startIndicators := by
    simp [startIndicators]
  rw [List.contains_eq_mem, decide_eq_false_iff_not] at h
  exact fun hc => h (hs c hc)

theorem readNode_plain {u : List Char} (h : c ∉ ['#', '\'', '"', '|', '>', '\x7b', '['])
    (hs : startsPlain (c :: t) = true) (hr : readPlain false 0 (c :: t) = (s, '\n' :: u)) :
    readNode 0 (c :: t) = some (.plain (String.ofList s), u) := by
  simp only [List.mem_cons, List.mem_nil_iff, or_false, not_or] at h
  simp [readNode, readScalar, h, hs, hr, endLine_break]

theorem written_plain (h : canBePlain s = true) : Written s (.plain (String.ofList s)) := by
  have hgoes := goesOn_of_canBePlain h
  have hread := fun rest (hr : StartsLine rest) => readPlain_of_canBePlain h hr
  simp only [canBePlain, Bool.and_eq_true, Bool.not_eq_true', bne_iff_ne, ne_eq] at h
  cases s with
  | nil => simp [startsSpecially] at h
  | cons c t =>
    obtain ⟨hp, hb⟩ := hgoes.printable c List.mem_cons_self
    have hspecial := h.1.1.1.1.1
    simp only [startsSpecially, Bool.or_eq_false_iff] at hspecial
    have hblank : isBlank c = false := by
      rw [← Bool.not_eq_true, isBlank_of_isPrintable hp]
      simpa using h.1.2
    have hspace := isSpaceOrBreak_eq_false_iff.mpr ⟨hblank, hb⟩
    have hc := not_indicator hspecial.1
    refine ⟨⟨c, t, rfl, hspace, fun he => hc (by simp [he])⟩, fun d hd => (hgoes.printable d hd).1,
      fun rest hr => ?_⟩
    have he : ended (c :: t) ++ rest = c :: (t ++ '\n' :: rest) := by
      obtain ⟨u, d, hu⟩ := (List.eq_nil_or_concat' (c :: t)).resolve_left (by simp)
      have hd := (hgoes.printable d (hu ▸ by simp)).2
      rw [hu, ended_concat, hd, ← List.cons_append, hu]
      simp
    rw [he]
    refine readNode_plain hc ?_ (hread rest hr)
    simp only [startsPlain, startsSpecially, endsWord_append_break, hspace, hspecial]
    rfl

theorem written_single (h : canBeSingle s = true) (hn : '\n' ∉ s) :
    Written (writeSingle s) (.quoted (String.ofList s)) where
  starts := ⟨'\'', singleBody false s ++ ['\''], rfl, by decide, by decide⟩
  printable := isPrintable_writeSingle (by
    simp only [canBeSingle, keepsLines, Bool.and_eq_true, List.all_eq_true] at h
    exact h.1.1)
  read rest _ := by
    have he : ended (writeSingle s) ++ rest =
        '\'' :: (singleBody false s ++ '\'' :: '\n' :: rest) := by
      rw [writeSingle, ended_concat]
      simp [isBreak]
    rw [he, readNode, readScalar, readSingle_of_canBeSingle h hn (by simp)]
    · rfl
    all_goals simp

theorem written_double (s : List Char) : Written (writeDouble s) (.quoted (String.ofList s)) where
  starts := ⟨'"', s.flatMap doubleChar ++ ['"'], rfl, by decide, by decide⟩
  printable := isPrintable_writeDouble s
  read rest _ := by
    have he : ended (writeDouble s) ++ rest =
        '"' :: (s.flatMap doubleChar ++ '"' :: '\n' :: rest) := by
      rw [writeDouble, ended_concat]
      simp [isBreak]
    have hr : readDouble .empty (s.flatMap doubleChar ++ '"' :: '\n' :: rest) =
        some (s, '\n' :: rest) := readDouble_flatMap [] s _
    rw [he, readNode, readScalar, hr]
    · rfl
    all_goals simp

theorem written_literal (h : canBeLiteral s = true) (hn : '\n' ∈ s) :
    Written (writeLiteral s) (.quoted (String.ofList s)) := by
  have hp : ∀ c ∈ s, isPrintable c = true := by
    simp only [canBeLiteral, keepsLines, Bool.and_eq_true, List.all_eq_true] at h
    exact h.1.1
  exact ⟨⟨'|', _, rfl, by decide, by decide⟩, isPrintable_writeLiteral hp,
    fun rest hr => readNode_writeLiteral (List.ne_nil_of_mem hn) hp hr⟩

/-! ## Written texts -/

def scalarValue (s : String) : Value :=
  if styleOf s.toList = .plain then .plain s else .quoted s

theorem styleOf_cases (s : List Char) :
    (styleOf s = .plain ∧ isAmbiguous s = false ∧ canBePlain s = true) ∨
    (styleOf s = .single ∧ canBeSingle s = true ∧ '\n' ∉ s) ∨
    styleOf s = .double ∨
    (styleOf s = .literal ∧ canBeLiteral s = true ∧ '\n' ∈ s) := by
  unfold styleOf
  split_ifs with hn hl hp hs <;> simp_all

theorem written_writeScalar (s : String) : Written (writeScalar s.toList) (scalarValue s) := by
  have hs : String.ofList s.toList = s := String.ofList_toList
  unfold writeScalar scalarValue
  rcases styleOf_cases s.toList with ⟨h, -, hp⟩ | ⟨h, hq, hn⟩ | h | ⟨h, hl, hn⟩ <;> rw [h]
  · simpa [hs] using written_plain hp
  · simpa [hs] using written_single hq hn
  · simpa [hs] using written_double s.toList
  · simpa [hs] using written_literal hl hn

/-- Only a text that looks like nothing else is written plain. -/
theorem isNull_of_styleOf {s : String} (h : styleOf s.toList = .plain) : isNull s = false := by
  have ha : isReserved s.toList = false := by
    rcases styleOf_cases s.toList with ⟨-, ha, -⟩ | ⟨h', -⟩ | h' | ⟨h', -⟩
    · simp only [isAmbiguous, Bool.or_eq_false_iff] at ha
      exact ha.1.1
    all_goals
      rw [h] at h'
      cases h'
  rw [← Bool.not_eq_true]
  intro hn
  have hs : s ∈ ["", "null", "Null", "NULL", "~"] := by
    simpa [isNull, or_assoc] using hn
  have hr : ∀ s ∈ ["", "null", "Null", "NULL", "~"], isReserved s.toList = true := by decide +kernel
  rw [hr s hs] at ha
  cases ha

/-! ## Keys -/

/-- The keys that are written as they are: words of letters and underscores. -/
def IsKey (key : String) : Prop :=
  key.toList ≠ [] ∧ ∀ c ∈ key.toList, (c.isAlpha || c == '_') = true

instance (key : String) : Decidable (IsKey key) := inferInstanceAs (Decidable (_ ∧ _))

theorem ne_of_isKey {d : Char} (hc : (c.isAlpha || c == '_') = true)
    (hd : (d.isAlpha || d == '_') = false) : c ≠ d := by
  rintro rfl
  rw [hc] at hd
  cases hd

theorem isSpaceOrBreak_of_isKey (hc : (c.isAlpha || c == '_') = true) :
    isSpaceOrBreak c = false := by
  have h := fun d hd => ne_of_isKey (d := d) hc hd
  simp [isSpaceOrBreak, isBlank, isBreak, h ' ' (by decide), h '\t' (by decide), h '\n' (by decide),
    h '\u2028' (by decide), h '\u2029' (by decide)]

theorem isPrintable_of_isKey (hc : (c.isAlpha || c == '_') = true) : isPrintable c = true := by
  have h : 0x20 ≤ c.toNat ∧ c.toNat ≤ 0x7E := by
    simp only [Bool.or_eq_true, Char.isAlpha, Char.isUpper, Char.isLower, beq_iff_eq] at hc
    rcases hc with hc | rfl
    · simp [UInt32.le_iff_toNat_le] at hc
      have : c.toNat = c.val.toNat := rfl
      omega
    · decide
  simp [isPrintable, h]

theorem plainWords_key (hs : ∀ c ∈ s, (c.isAlpha || c == '_') = true) (t : List Char) :
    plainWords false [] (s ++ ':' :: ' ' :: t) = (s, ':' :: ' ' :: t) := by
  induction s with
  | nil => rfl
  | cons c s ih =>
    obtain ⟨hc, hs⟩ := List.forall_mem_cons.mp hs
    have hspace := isSpaceOrBreak_eq_false_iff.mp (isSpaceOrBreak_of_isKey hc)
    have hcolon : c ≠ ':' := ne_of_isKey hc (by decide)
    simp [plainWords, hspace, hcolon, ih hs]

theorem startsPlain_of_isKey (hc : (c.isAlpha || c == '_') = true) (t : List Char) :
    startsPlain (c :: t) = true := by
  have h := fun d hd => ne_of_isKey (d := d) hc hd
  have hs : c ∉ startIndicators := fun hm => by
    have : ∀ d ∈ startIndicators, (d.isAlpha || d == '_') = false := by
      simp [startIndicators, Char.isAlpha]
    rw [this c hm] at hc
    cases hc
  simp [startsPlain, startsSpecially, isSpaceOrBreak_of_isKey hc, hs, h '?' (by decide),
    h ':' (by decide), h '-' (by decide)]

theorem readKey_key {key : String} (hk : IsKey key) (t : List Char) :
    readKey (key.toList ++ ':' :: ' ' :: t) = some (key, ' ' :: t) := by
  obtain ⟨c, s, hs⟩ := List.exists_cons_of_ne_nil hk.1
  have hc := hk.2 c (hs ▸ List.mem_cons_self)
  have hq : c ≠ '\'' ∧ c ≠ '"' := ⟨ne_of_isKey hc (by decide), ne_of_isKey hc (by decide)⟩
  have hwords := plainWords_key hk.2 t
  have hline : ((key.toList ++ ':' :: ' ' :: t).take
      ((key.toList ++ ':' :: ' ' :: t).length - (':' :: ' ' :: t).length)).any isBreak = false := by
    rw [List.length_append, Nat.add_sub_cancel, List.take_left, List.any_eq_false]
    intro d hd
    simp [(isSpaceOrBreak_eq_false_iff.mp (isSpaceOrBreak_of_isKey (hk.2 d hd))).2]
  have hcolon : (':' :: ' ' :: t).dropWhile isBlank = ':' :: ' ' :: t := rfl
  have hkey : String.ofList (c :: s) = key := by rw [← hs, String.ofList_toList]
  rw [hs, List.cons_append] at hwords hline ⊢
  unfold readKey
  split
  · rename_i h
    exact absurd (List.cons_eq_cons.mp h).1 hq.1
  · rename_i h
    exact absurd (List.cons_eq_cons.mp h).1 hq.2
  · have hend : endsWord (' ' :: t) = true := rfl
    simp only [startsPlain_of_isKey hc, if_true, hwords, Option.bind_eq_bind, Option.bind_some,
      hline, hcolon, hend, hkey, Bool.false_eq_true, if_false]

/-! ## Entries -/

theorem readValue_written (h : Written w v) (hr : StartsLine rest) :
    readValue 0 (' ' :: (ended w ++ rest)) = some (v, rest) := by
  obtain ⟨c, t, rfl, hc, hhash⟩ := h.starts
  have hread := h.read rest hr
  obtain ⟨u, hu⟩ : ∃ u, ended (c :: t) = c :: u := by
    unfold ended
    split_ifs
    · exact ⟨t, rfl⟩
    · exact ⟨t ++ ['\n'], rfl⟩
  have hs := isSpaceOrBreak_eq_false_iff.mp hc
  have hb : isBlank ' ' = true := rfl
  rw [hu, List.cons_append] at hread ⊢
  simp [readValue, hs, hb, hhash, hread]

/-- A key with a text behind it that is read as a value. -/
def IsEntry (e : String × List Char) (e' : String × Value) : Prop :=
  IsKey e.1 ∧ e'.1 = e.1 ∧ Written e.2 e'.2

def writeEntries (es : List (String × List Char)) : List Char :=
  es.flatMap fun (key, value) => writeEntry key value

variable {key : String} {es : List (String × List Char)} {es' : Entries}

theorem writeEntry_eq (hw : w ≠ []) : writeEntry key w = key.toList ++ ':' :: ' ' :: ended w := by
  have h : writeEntry key w = ended (key.toList ++ [':', ' '] ++ w) := by
    simp [writeEntry, ended]
  rw [h, ended_append _ hw]
  simp

theorem Written.ne_nil (h : Written w v) : w ≠ [] := by
  obtain ⟨c, t, rfl, -⟩ := h.starts
  simp

theorem writeEntries_cons {e : String × List Char} (h : Written e.2 v) :
    writeEntries (e :: es) = e.1.toList ++ ':' :: ' ' :: (ended e.2 ++ writeEntries es) := by
  simp [writeEntries, writeEntry_eq h.ne_nil]

theorem head?_writeEntries (h : List.Forall₂ IsEntry es es') :
    ∀ c ∈ (writeEntries es).head?, (c.isAlpha || c == '_') = true := by
  cases h with
  | nil => simp [writeEntries]
  | @cons e e' es es' he _ =>
    obtain ⟨c, s, hs⟩ := List.exists_cons_of_ne_nil he.1.1
    have hc := he.1.2 c (hs ▸ List.mem_cons_self)
    simpa [writeEntries_cons he.2.2, hs] using hc

theorem startsLine_writeEntries (h : List.Forall₂ IsEntry es es') : StartsLine (writeEntries es) :=
  fun c hc => isSpaceOrBreak_of_isKey (head?_writeEntries h c hc)

theorem nextContent_of_head (h : ∀ c ∈ s.head?, (c.isAlpha || c == '_') = true) :
    nextContent 0 false s = (0, s) := by
  cases s with
  | nil => rfl
  | cons c s =>
    have hc := h c rfl
    have hs := isSpaceOrBreak_eq_false_iff.mp (isSpaceOrBreak_of_isKey hc)
    have hne := fun d hd => ne_of_isKey (d := d) hc hd
    simp [nextContent, hs, hne ' ' (by decide), hne '#' (by decide)]

theorem isMarker_of_head (h : ∀ c ∈ s.head?, (c.isAlpha || c == '_') = true) :
    isMarker s = false := by
  cases s with
  | nil => rfl
  | cons c s =>
    have hc := h c rfl
    exact isMarker_eq_false ⟨ne_of_isKey hc (by decide), ne_of_isKey hc (by decide)⟩ s

theorem readEntries_writeEntries (h : List.Forall₂ IsEntry es es') {fuel : ℕ}
    (hf : es.length < fuel) : readEntries 0 fuel (writeEntries es) = some (es', []) := by
  induction h generalizing fuel with
  | nil =>
    cases fuel with
    | zero => cases hf
    | succ fuel => rfl
  | @cons e e' es es' he hes ih =>
    cases fuel with
    | zero => cases hf
    | succ fuel =>
      have hhead := head?_writeEntries (List.Forall₂.cons he hes)
      have hrest : readEntries 0 fuel (writeEntries es) = some (es', []) :=
        ih (by simpa using hf)
      obtain ⟨key, w⟩ := e
      obtain ⟨key', v⟩ := e'
      obtain ⟨hk, hkey, hw⟩ := he
      obtain rfl : key' = key := hkey
      have hmark := isMarker_of_head hhead
      rw [readEntries, nextContent_of_head hhead]
      rw [writeEntries_cons hw] at hmark ⊢
      simp [hmark, readKey_key hk, readValue_written hw (startsLine_writeEntries hes), hrest]

/-! ## Documents -/

theorem isPrintable_writeEntries (h : List.Forall₂ IsEntry es es') :
    ∀ c ∈ writeEntries es, isPrintable c = true := by
  have hmarks : ∀ c ∈ [':', ' '], isPrintable c = true := by simp [isPrintable]
  induction h with
  | nil => simp [writeEntries]
  | @cons e e' es es' he hes ih =>
    obtain ⟨hk, -, hw⟩ := he
    intro c hc
    rw [writeEntries_cons hw] at hc
    simp only [List.mem_append, List.mem_cons] at hc
    rcases hc with hc | rfl | rfl | hc | hc
    · exact isPrintable_of_isKey (hk.2 c hc)
    · exact hmarks _ (by simp)
    · exact hmarks _ (by simp)
    · exact isPrintable_ended hw.printable c hc
    · exact ih c hc

theorem unifyBreaks_of_isPrintable (h : ∀ c ∈ s, isPrintable c = true) : unifyBreaks s = s := by
  have hr : isPrintable '\r' = false ∧ isPrintable '\u0085' = false := by decide +kernel
  induction s with
  | nil => rfl
  | cons c s ih =>
    obtain ⟨hc, hs⟩ := List.forall_mem_cons.mp h
    have hne : c ≠ '\r' ∧ c ≠ '\u0085' := by
      constructor <;> rintro rfl <;> simp [hr] at hc
    rw [unifyBreaks, ih hs]
    · simp [hne]
    · simp [hne]

theorem isReadable_of_isPrintable (h : isPrintable c = true) : isReadable c = true := by
  simp only [isPrintable, isReadable, Bool.or_eq_true, Bool.and_eq_true, beq_iff_eq,
    decide_eq_true_eq, bne_iff_ne] at h ⊢
  tauto

theorem length_le_writeEntries (h : List.Forall₂ IsEntry es es') :
    es.length ≤ (writeEntries es).length := by
  induction h with
  | nil => simp
  | cons he _ ih =>
    rw [writeEntries_cons he.2.2]
    simp only [List.length_append, List.length_cons]
    omega

theorem parse_writeEntries (h : List.Forall₂ IsEntry es es') :
    parse (String.ofList (writeEntries es)) = some es' := by
  have hhead := head?_writeEntries h
  have hp := isPrintable_writeEntries h
  have hunify := unifyBreaks_of_isPrintable hp
  have hreadable : (writeEntries es).all isReadable = true :=
    List.all_eq_true.mpr fun c hc => isReadable_of_isPrintable (hp c hc)
  have hread : readEntries 0 ((writeEntries es).length + 1) (writeEntries es) = some (es', []) :=
    readEntries_writeEntries h (Nat.lt_succ_of_le (length_le_writeEntries h))
  have hcontent : readContent (writeEntries es) = some (es', []) := by
    unfold readContent
    rw [nextContent_of_head hhead]
    dsimp only
    split
    · rename_i rest he
      exact absurd (hhead '\x7b' (by simp [he])) (by decide)
    · exact hread
  have hend : endsDocument [] = true := rfl
  unfold parse
  rw [String.toList_ofList, hunify]
  split
  · rename_i rest he
    exact absurd (hhead '\uFEFF' (by simp [he])) (by decide)
  · simp [hreadable, nextContent_of_head hhead, isMarker_of_head hhead, hcontent, hend]

end ApiTypings.Yaml
