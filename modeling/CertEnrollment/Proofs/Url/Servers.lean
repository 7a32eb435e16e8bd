import CertEnrollment.Proofs.Url.Appended
import Mathlib.Data.List.TakeWhile

/-!
# Hosts and ports in URLs

Under a scheme that is not special, a host is kept as it is written: the written form of any host
is read again as one host, with nothing around it, and the port after it is read as the number that
it spells. Other texts in the place of a host may be cut up.
-/
namespace CertEnrollment.Url
open Text

/-! ## Numbers -/

/-- A number is read from its digits. -/
theorem numberIn?_toDigits (n : Nat) : numberIn? 10 (Nat.toDigits 10 n) = some n := by
  induction n using Nat.strongRecOn with
  | _ n ih =>
    have digit : ∀ d < 10, digitIn? 10 (Nat.digitChar d) = some d := by decide
    rw [Nat.toDigits_eq_if (by decide)]
    split
    · next small => simp [numberIn?, digit n small]
    · next large =>
      have front := ih (n / 10) (by omega)
      rw [numberIn?] at front ⊢
      rw [List.foldlM_append, front]
      simp [digit (n % 10) (Nat.mod_lt n (by decide))]
      omega

theorem isAlphanum_of_mem_toDigits {c : Char} {n : Nat} (h : c ∈ Nat.toDigits 16 n) :
    c.isAlphanum = true := by
  induction n using Nat.strongRecOn with
  | _ n ih =>
    have digit : ∀ d < 16, (Nat.digitChar d).isAlphanum = true := by decide
    rw [Nat.toDigits_eq_if (by decide)] at h
    split at h
    · next small => exact List.mem_singleton.mp h ▸ digit n small
    · rcases List.mem_append.mp h with h | h
      · exact ih (n / 16) (by omega) h
      · exact List.mem_singleton.mp h ▸ digit (n % 16) (Nat.mod_lt n (by decide))

/-! ## Written forms of hosts -/

/-- Characters that end a host, or that are dropped from a URL. -/
def marks : List Char := ['\t', '\n', '\r', '/', '?', '#', '@']

/-- The text is read as one host when a port comes after it. -/
structure ReadsWhole (cs : List Char) : Prop where
  free : ∀ c ∈ cs, c ∉ marks
  cut : ∀ port, cutPort false (cs ++ ':' :: port) = (cs, some port)

theorem cutPort_outside {cs : List Char} (h : ∀ c ∈ cs, c ≠ ':' ∧ c ≠ '[') (port : List Char) :
    cutPort false (cs ++ ':' :: port) = (cs, some port) := by
  induction cs with
  | nil => simp [cutPort]
  | cons c cs ih =>
    obtain ⟨⟨noColon, noBracket⟩, later⟩ := List.forall_mem_cons.mp h
    simp [cutPort, noColon, noBracket, ih later]

/-- There are no ports within brackets. -/
theorem cutPort_inside {cs : List Char} (h : ']' ∉ cs) (rest : List Char) :
    cutPort true (cs ++ ']' :: rest) = (cs ++ ']' :: (cutPort false rest).1, (cutPort false rest).2) := by
  induction cs with
  | nil => simp [cutPort]
  | cons c cs ih =>
    obtain ⟨here, later⟩ : ']' ≠ c ∧ ']' ∉ cs := by simpa using h
    simp [cutPort, Ne.symm here, ih later]

theorem readsWhole_of_outside {cs : List Char} (h : ∀ c ∈ cs, isForbiddenInHost c = false) :
    ReadsWhole cs where
  free c hc mark := by
    have forbidden : marks.all isForbiddenInHost = true := by decide
    cases (h c hc).symm.trans (List.all_eq_true.mp forbidden c mark)
  cut := cutPort_outside fun c hc => by
    constructor <;> (rintro rfl; cases h _ hc)

theorem readsWhole_of_brackets {cs : List Char} (h : ∀ c ∈ cs, c.isAlphanum = true ∨ c = ':') :
    ReadsWhole ('[' :: (cs ++ [']'])) where
  free c hc mark := by
    have other : (marks.all fun m => !m.isAlphanum && m != ':' && m != '[' && m != ']') = true := by
      decide
    obtain ⟨⟨⟨noNumber, noColon⟩, noOpening⟩, noClosing⟩ :
        ((c.isAlphanum = false ∧ c ≠ ':') ∧ c ≠ '[') ∧ c ≠ ']' := by
      simpa using List.all_eq_true.mp other c mark
    rcases List.mem_cons.mp hc with opening | hc
    · exact noOpening opening
    · rcases List.mem_append.mp hc with hc | hc
      · rcases h c hc with number | colon
        · cases noNumber.symm.trans number
        · exact noColon colon
      · exact noClosing (List.mem_singleton.mp hc)
  cut port := by
    have closing : ']' ∉ cs := fun hc => by
      rcases h _ hc with number | colon
      · cases number
      · cases colon
    have inside := cutPort_inside closing (':' :: port)
    simp [cutPort] at inside
    simp [cutPort, inside]

theorem mem_writeIpv6 {c : Char} {pieces : List Nat} (h : c ∈ writeIpv6 pieces) :
    c.isAlphanum = true ∨ c = ':' := by
  have spelled : ∀ ns : List Nat, c ∈ writePieces ns → c.isAlphanum = true ∨ c = ':' := by
    intro ns h
    rw [writePieces] at h
    induction ns with
    | nil => simp at h
    | cons n ns ih =>
      by_cases last : ns = []
      · subst last
        exact .inl (isAlphanum_of_mem_toDigits (by simpa using h))
      · rw [List.map_cons, intercalate_cons_of_ne_nil (by simpa using last)] at h
        rcases List.mem_append.mp h with h | h
        · exact .inl (isAlphanum_of_mem_toDigits h)
        · rcases List.mem_cons.mp h with rfl | h
          · exact .inr rfl
          · exact ih h
  rw [writeIpv6] at h
  dsimp only at h
  split at h
  · exact spelled _ h
  · simp only [List.mem_append, List.mem_cons] at h
    rcases h with h | rfl | rfl | h
    · exact spelled _ h
    · exact .inr rfl
    · exact .inr rfl
    · exact spelled _ h

/-- Encoding a character that a host may hold makes no character that it may not hold. -/
theorem not_forbidden_of_mem_encodeChar {c d : Char} (h : isForbiddenInHost c = false)
    (hd : d ∈ encodeChar isControl c) : isForbiddenInHost d = false := by
  rw [encodeChar] at hd
  split at hd
  · rwa [List.mem_singleton.mp hd]
  · obtain ⟨b, -, hb⟩ := List.mem_flatMap.mp hd
    have apart : (['\x00', '\t', '\n', '\r', ' ', '#', '/', ':', '<', '>', '?', '@', '[', '\\',
        ']', '^', '|'].all fun e => !isFormChar e && e != '%') = true := by decide
    rw [isForbiddenInHost, List.contains_eq_mem, decide_eq_false_iff_not]
    intro forbidden
    obtain ⟨noForm, noPercent⟩ : isFormChar d = false ∧ d ≠ '%' := by
      simpa using List.all_eq_true.mp apart d forbidden
    rcases mem_encodeByte hb with plain | percent
    · cases noForm.symm.trans plain
    · exact noPercent percent

theorem readsWhole_of_bracketed? {cs host : List Char} (read : bracketed? cs = some host) :
    ReadsWhole host := by
  rw [bracketed?] at read
  split at read
  · cases read
  · obtain ⟨pieces, -, written⟩ := Option.bind_eq_some_iff.mp read
    obtain rfl := Option.some.inj written
    exact readsWhole_of_brackets fun c => mem_writeIpv6

/-- The written form of a host is read as one host. -/
theorem readsWhole_of_opaqueHost? {cs host : List Char} (read : opaqueHost? cs = some host) :
    ReadsWhole host := by
  unfold opaqueHost? at read
  split at read
  · exact readsWhole_of_bracketed? read
  · split at read
    · cases read
    · next allowed =>
      obtain rfl := Option.some.inj read
      refine readsWhole_of_outside fun d hd => ?_
      obtain ⟨c, hc, hd⟩ := List.mem_flatMap.mp hd
      refine not_forbidden_of_mem_encodeChar ?_ hd
      simpa using fun forbidden => allowed (List.any_eq_true.mpr ⟨c, hc, forbidden⟩)

/-! ## Authorities -/

variable {scheme : String} {cs : List Char} {a : Authority} {extra : List Char}

/-- What an authority under a scheme that is not special is made of. -/
theorem authority?_eq (general : isSpecial scheme = false) (cs : List Char) :
    authority? scheme cs =
      let userinfo := (cutUserinfo cs).1
      let names := cutAt ':' (userinfo.getD [])
      let place := cutPort false (cutUserinfo cs).2
      let numbers := (place.2.getD []).span (· ≠ '\\')
      (opaqueHost? place.1).bind fun host =>
        if host.isEmpty ∧ (place.2.isSome ∨ userinfo.isSome) then none
        else (port? scheme numbers.1).map fun port =>
          (⟨String.ofList (percentEncode inUserinfoSet names.1),
            String.ofList (percentEncode inUserinfoSet (names.2.getD [])),
            String.ofList host, port⟩, numbers.2) := by
  simp only [authority?, general, Bool.false_eq_true, if_false]
  refine congrArg (Option.bind _) (funext fun host => ?_)
  split
  · rfl
  · cases port? scheme _ <;> rfl

theorem span_of_all {α : Type} {p : α → Bool} {xs : List α} (h : ∀ x ∈ xs, p x = true) :
    xs.span p = (xs, []) := by
  rw [List.span_eq_takeWhile_dropWhile, List.takeWhile_eq_self_iff.mpr h,
    List.dropWhile_eq_nil_iff.mpr h]

theorem cutUserinfo_of_not_mem (h : '@' ∉ cs) : cutUserinfo cs = (none, cs) := by
  rw [cutUserinfo, if_neg (by simpa using h)]

/-- The host of an authority is the written form of a host, and without an `@` there is no user
information. -/
theorem authority?_eq_some (general : isSpecial scheme = false)
    (read : authority? scheme cs = some (a, extra)) :
    (∃ text host, opaqueHost? text = some host ∧ a.host = String.ofList host) ∧
      ('@' ∉ cs → a.username = "" ∧ a.password = "") := by
  rw [authority?_eq general] at read
  obtain ⟨host, found, read⟩ := Option.bind_eq_some_iff.mp read
  split at read
  · cases read
  · obtain ⟨port, -, same⟩ := Option.map_eq_some_iff.mp read
    obtain ⟨rfl, -⟩ := Prod.mk.inj same
    refine ⟨⟨_, host, found, rfl⟩, fun absent => ?_⟩
    rw [cutUserinfo_of_not_mem absent]
    exact ⟨rfl, rfl⟩

theorem port?_toDigits (general : isSpecial scheme = false) (n : Nat) :
    port? scheme (Nat.toDigits 10 n) = if 65535 < n then none else some (some n) := by
  have digits : (Nat.toDigits 10 n).all Char.isDigit = true :=
    List.all_eq_true.mpr (digits_toDigits n)
  have noDefault : defaultPort? scheme = none := by
    rw [isSpecial, Bool.or_eq_false_iff, Option.isSome_eq_false_iff, Option.isNone_iff_eq_none]
      at general
    exact general.1
  have some_there : (Nat.toDigits 10 n).isEmpty = false := by
    simp [Nat.toDigits_ne_nil]
  by_cases large : 65535 < n
  · simp [port?, digits, numberIn?_toDigits, large, failure]
  · simp [port?, digits, numberIn?_toDigits, large, noDefault, some_there]

/-- Where the host is read whole, so is the port. -/
theorem authority?_of_readsWhole (general : isSpecial scheme = false) (whole : ReadsWhole cs)
    (n : Nat) :
    authority? scheme (cs ++ ':' :: Nat.toDigits 10 n) = (opaqueHost? cs).bind fun host =>
      if host = [] ∨ 65535 < n then none
      else some (⟨"", "", String.ofList host, some n⟩, []) := by
  have digits := digits_toDigits n
  have noAt : '@' ∉ cs ++ ':' :: Nat.toDigits 10 n := by
    have outside : '@' ∉ cs := fun hc => whole.free _ hc (by decide)
    simp [outside, digits.not_mem]
  have span : (Nat.toDigits 10 n).span (· ≠ '\\') = (Nat.toDigits 10 n, []) := by
    refine span_of_all fun c hc => decide_eq_true ?_
    rintro rfl
    exact digits.not_mem (by decide) hc
  rw [authority?_eq general, cutUserinfo_of_not_mem noAt]
  simp only [whole.cut, Option.getD_some, span, port?_toDigits general]
  refine congrArg (Option.bind _) (funext fun host => ?_)
  by_cases empty : host = []
  · simp [empty]
  · by_cases large : 65535 < n
    · simp [empty, large]
    · simp [empty, large, cutAt, percentEncode]

end CertEnrollment.Url
