import Mathlib
import ApiTypings.Proofs.Url.Hosts

/-! # Authorities

The name, the password, the host and the port of an address that has been read are found again in
their text. The name and the password have no colon and no at sign in them; they are left out
together.
-/

namespace ApiTypings.Url

variable {c mark : Char} {s t scheme : List Char} {a : Authority}

/-! ## Names and passwords -/

theorem cutLast_append (h : mark ∉ t) (s : List Char) :
    cutLast mark (s ++ mark :: t) = some (s, t) := by
  have ht : ∀ c ∈ t.reverse, (c != mark) = true := fun c hc => by
    simpa using ne_of_mem_of_not_mem (List.mem_reverse.mp hc) h
  rw [cutLast, List.reverse_append, List.reverse_cons, List.append_assoc,
    List.dropWhile_append_of_pos ht, List.takeWhile_append_of_pos ht]
  simp

theorem cutLast_eq_none (h : mark ∉ s) : cutLast mark s = none := by
  have hs : s.reverse.dropWhile (· != mark) = [] := List.dropWhile_eq_nil_iff.mpr fun c hc => by
    simpa using ne_of_mem_of_not_mem (List.mem_reverse.mp hc) h
  rw [cutLast, hs]

/-- What stands before the last at sign, and what stands after it. -/
def userinfo (s : List Char) : List Char := ((cutLast '@' s).map Prod.fst).getD []

def hostPort (s : List Char) : List Char := ((cutLast '@' s).map Prod.snd).getD s

theorem readAuthority_def (scheme s : List Char) : readAuthority scheme s =
    if ((cutPort (hostPort s)).1.isEmpty && (isSpecial scheme || (cutPort (hostPort s)).2.isSome ||
      (cutLast '@' s).isSome)) = true then .error .emptyHost
    else (hostText (isSpecial scheme) (cutPort (hostPort s)).1).bind fun host =>
      (readPort scheme (cutPort (hostPort s)).2).bind fun port =>
        .ok ⟨encode inUserinfo ((userinfo s).takeWhile (· != ':')),
          encode inUserinfo (((userinfo s).dropWhile (· != ':')).drop 1), host, port⟩ := by
  unfold readAuthority userinfo hostPort
  cases cutLast '@' s <;> rfl

theorem readAuthority_eq_ok_iff : readAuthority scheme s = .ok a ↔
    ((cutPort (hostPort s)).1 = [] →
      isSpecial scheme = false ∧ (cutPort (hostPort s)).2 = none ∧ cutLast '@' s = none) ∧
    hostText (isSpecial scheme) (cutPort (hostPort s)).1 = .ok a.host ∧
    readPort scheme (cutPort (hostPort s)).2 = .ok a.port ∧
    a.username = encode inUserinfo ((userinfo s).takeWhile (· != ':')) ∧
    a.password = encode inUserinfo (((userinfo s).dropWhile (· != ':')).drop 1) := by
  obtain ⟨username, password, host, port⟩ := a
  have hs : ((cutPort (hostPort s)).1.isEmpty && (isSpecial scheme ||
      (cutPort (hostPort s)).2.isSome || (cutLast '@' s).isSome)) = false ↔
      ((cutPort (hostPort s)).1 = [] →
        isSpecial scheme = false ∧ (cutPort (hostPort s)).2 = none ∧ cutLast '@' s = none) := by
    simp only [Bool.and_eq_false_iff, Bool.or_eq_false_iff, List.isEmpty_eq_false_iff,
      Option.isSome_eq_false_iff, Option.isNone_iff_eq_none, and_assoc]
    tauto
  rw [readAuthority_def, ← hs]
  split_ifs with he
  · simp [he]
  · rw [and_iff_right (by simpa using he)]
    cases hostText (isSpecial scheme) (cutPort (hostPort s)).1 with
    | error => simp [Except.bind]
    | ok host' =>
      cases readPort scheme (cutPort (hostPort s)).2 with
      | error => simp [Except.bind]
      | ok port' =>
        simp only [Except.bind, Except.ok.injEq, Authority.mk.injEq]
        constructor
        · rintro ⟨rfl, rfl, rfl, rfl⟩
          exact ⟨rfl, rfl, rfl, rfl⟩
        · rintro ⟨rfl, rfl, rfl, rfl⟩
          exact ⟨rfl, rfl, rfl, rfl⟩

theorem credentialsText_cases (h : ∀ c ∈ a.username, inUserinfo c = false) :
    (a.username = [] ∧ a.password = [] ∧ credentialsText a = []) ∨
      ∃ user, credentialsText a = user ++ ['@'] ∧ user.takeWhile (· != ':') = a.username ∧
        (user.dropWhile (· != ':')).drop 1 = a.password := by
  have hu : ∀ c ∈ a.username, (c != ':') = true := fun c hc => by
    refine bne_iff_ne.mpr ?_
    rintro rfl
    exact absurd (h _ hc) (by decide)
  by_cases he : a.username = [] ∧ a.password = []
  · exact .inl ⟨he.1, he.2, by simp [credentialsText, he]⟩
  refine .inr ⟨a.username ++ if a.password.isEmpty then [] else ':' :: a.password, ?_, ?_, ?_⟩
  · rw [credentialsText, if_neg (by simpa using he)]
  · rw [List.takeWhile_append_of_pos hu]
    split_ifs <;> simp
  · rw [List.dropWhile_append_of_pos hu]
    split_ifs with hw
    · simp_all
    · simp

/-! ## Ports -/

def portText : Option ℕ → List Char
  | some p => ':' :: Nat.toDigits 10 p
  | none => []

theorem authorityText_eq (a : Authority) :
    authorityText a = '/' :: '/' :: (credentialsText a ++ (a.host ++ portText a.port)) := by
  rw [authorityText]
  cases a.port <;> simp [portText]

theorem isPort_of_readPort {port : Option (List Char)} {p : ℕ}
    (h : readPort scheme port = .ok (some p)) :
    p ≤ 65535 ∧ defaultPort? scheme ≠ some (some p) := by
  unfold readPort at h
  split at h
  · cases h
  · dsimp only at h
    split_ifs at h with h₁ h₂ h₃ h₄
    · cases h
    · cases h
    · cases h
      exact ⟨Nat.not_lt.mp h₃, by simpa using h₄⟩

theorem readPort_toDigits {p : ℕ} (hp : p ≤ 65535) (hd : defaultPort? scheme ≠ some (some p)) :
    readPort scheme (some (Nat.toDigits 10 p)) = .ok (some p) := by
  have ha : (Nat.toDigits 10 p).all Char.isDigit = true := by
    have : ∀ d < 10, (Nat.digitChar d).isDigit = true := by decide
    refine List.all_eq_true.mpr fun c hc => ?_
    obtain ⟨d, hd, rfl⟩ := Text.mem_toDigits (by decide) hc
    exact this d hd
  have hv : (Nat.toDigits 10 p).foldl (fun n c => n * 10 + (c.toNat - '0'.toNat)) 0 = p := by
    have h := Nat.ofDigitChars_toDigits (b := 10) (n := p) (by decide) (by decide)
    simpa only [Nat.ofDigitChars, Nat.mul_comm] using h
  have he : (Nat.toDigits 10 p).isEmpty = false := by simp [Nat.toDigits_ne_nil]
  simp only [readPort, he, ha, hv]
  simp [hp, hd]

/-! ## Authorities -/

/-- What stands before a path in an address that has been read, unless it is one of a file. -/
structure IsAuthority (scheme : List Char) (a : Authority) : Prop where
  username : ∀ c ∈ a.username, inUserinfo c = false
  password : ∀ c ∈ a.password, inUserinfo c = false
  host : IsHost (isSpecial scheme) a.host
  port : ∀ p ∈ a.port, p ≤ 65535 ∧ defaultPort? scheme ≠ some (some p)
  empty : a.host = [] → isSpecial scheme = false ∧ a.username = [] ∧ a.password = [] ∧ a.port = none

theorem isAuthority_of_readAuthority (h : readAuthority scheme s = .ok a) :
    IsAuthority scheme a := by
  obtain ⟨he, hh, hp, hu, hw⟩ := readAuthority_eq_ok_iff.mp h
  refine ⟨?_, ?_, isHost_of_hostText hh, ?_, fun hn => ?_⟩
  · rw [hu]
    exact fun c => not_of_mem_encode keepsBytes_inUserinfo
  · rw [hw]
    exact fun c => not_of_mem_encode keepsBytes_inUserinfo
  · rintro p hm
    exact isPort_of_readPort (hp.trans (congrArg Except.ok hm))
  · obtain ⟨hs, hport, hc⟩ := he (by
      by_contra hne
      exact ne_nil_of_hostText hh hne hn)
    simp only [userinfo, hc] at hu hw
    rw [hport] at hp
    exact ⟨hs, hu, hw, (Except.ok.inj hp).symm⟩

namespace IsAuthority

variable (h : IsAuthority scheme a)

include h

theorem at_not_mem : '@' ∉ a.host ++ portText a.port := by
  rw [List.mem_append, not_or]
  refine ⟨fun hm => absurd (h.host.chars _ hm) (by decide), ?_⟩
  cases a.port with
  | none => simp [portText]
  | some p =>
    have hn : '@' ∉ Nat.toDigits 10 p :=
      Text.not_mem_toDigits (by decide) (by decide) (by decide)
    simp [portText, hn]

theorem not_isCut (hc : c ∈ credentialsText a ++ (a.host ++ portText a.port)) :
    isCut c = false ∧ isSlash true c = false := by
  have hu : ∀ {c}, inUserinfo c = false → isCut c = false ∧ isSlash true c = false := by
    intro c hc
    have hn : ∀ d, inUserinfo d = true → c ≠ d := by
      rintro d hd rfl
      simp [hc] at hd
    refine ⟨not_isCut_of_not_inPath ?_, by simp [isSlash, hn '/' (by decide), hn '\\' (by decide)]⟩
    by_contra hp
    simp [inUserinfo, hp] at hc
  have hm : ∀ {c}, c ∈ credentialsText a → c ∈ a.username ∨ c ∈ a.password ∨ c = ':' ∨ c = '@' := by
    intro c hc
    unfold credentialsText at hc
    split_ifs at hc
    · cases hc
    · simp only [List.append_nil, List.mem_append, List.mem_singleton] at hc
      exact hc.imp_right fun h => .inr (.inr h)
    · simp only [List.mem_append, List.mem_cons, List.not_mem_nil, or_false] at hc
      obtain (h | h | h) | h := hc
      · exact .inl h
      · exact .inr (.inr (.inl h))
      · exact .inr (.inl h)
      · exact .inr (.inr (.inr h))
  rcases List.mem_append.mp hc with hc | hc
  · obtain hc | hc | rfl | rfl := hm hc
    · exact hu (h.username c hc)
    · exact hu (h.password c hc)
    · decide
    · decide
  · rcases List.mem_append.mp hc with hc | hc
    · exact not_isCut_of_staysInHost (h.host.chars c hc)
    · cases hp : a.port with
      | none => simp [hp, portText] at hc
      | some p =>
        rw [hp, portText] at hc
        obtain rfl | hc := List.mem_cons.mp hc
        · decide
        · have hd : ∀ d < 10, isCut (Nat.digitChar d) = false ∧
            isSlash true (Nat.digitChar d) = false := by decide
          obtain ⟨d, hlt, rfl⟩ := Text.mem_toDigits (by decide) hc
          exact hd d hlt

theorem readAuthority_eq :
    readAuthority scheme (credentialsText a ++ (a.host ++ portText a.port)) = .ok a := by
  have hc : cutPort (a.host ++ portText a.port) = (a.host, a.port.map (Nat.toDigits 10)) := by
    rw [h.host.port]
    cases a.port <;> simp [portText, cutPort, cutPort.go]
  have hr : readPort scheme (a.port.map (Nat.toDigits 10)) = .ok a.port := by
    have hp := h.port
    cases hport : a.port with
    | none => rfl
    | some p => exact readPort_toDigits (hp p hport).1 (hp p hport).2
  rw [readAuthority_eq_ok_iff]
  obtain ⟨hu, hw, he⟩ | ⟨user, he, hu, hw⟩ := credentialsText_cases h.username
  · have hl := cutLast_eq_none h.at_not_mem
    simp only [he, List.nil_append, hostPort, userinfo, hl]
    rw [hu, hw, Option.map_none, Option.getD_none, Option.map_none, Option.getD_none, hc]
    exact ⟨fun hn => by simp [h.empty hn], h.host.read, hr, rfl, rfl⟩
  · have hl := cutLast_append h.at_not_mem user
    simp only [he, List.append_assoc, List.singleton_append, hostPort, userinfo, hl,
      Option.map_some, Option.getD_some, hc, hu, hw]
    refine ⟨fun hn => ?_, h.host.read, hr, (encode_eq_self h.username).symm,
      (encode_eq_self h.password).symm⟩
    obtain ⟨-, hu, hw, -⟩ := h.empty hn
    simp [credentialsText, hu, hw] at he

end IsAuthority

end ApiTypings.Url
