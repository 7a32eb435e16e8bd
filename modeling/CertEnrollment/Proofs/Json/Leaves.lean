import CertEnrollment.Json.Reader
import CertEnrollment.Json.Writer

/-!
# Strings and integers in JSON text

What is written for a string or an integer is read as that string or integer, whatever
follows it in the text, as long as no further digit or the like does. For doubles this is
left open: their digits are read with less precision than they are written with.
-/
namespace CertEnrollment.Json
open Data Decimal

/-! ## Strings -/

/-- How a character is spelled inside a string. -/
def placeOf (c : Char) : Place :=
  if c.toNat < 0x20 ∧ c ∉ ['\x08', '\x0c', '\n', '\r', '\t'] then .unit c.toNat else .char c

theorem unit?_control {n : Nat} (h : n < 0x20) (rest : List Char) :
    unit? ('0' :: '0' :: hexDigit (n / 16) :: hexDigit (n % 16) :: rest) = some (n, rest) := by
  have digit : ∀ d < 16, Text.digitIn? 16 (hexDigit d) = some d := by decide
  have zero : Text.digitIn? 16 '0' = some 0 := by decide
  simp only [unit?, zero, digit _ (by omega : n / 16 < 16), digit _ (by omega : n % 16 < 16)]
  simp
  omega

theorem places?_escape {letter c : Char} (h : escaped? letter = some c) (fuel : Nat)
    (rest : List Char) :
    places? (fuel + 1) ('\\' :: letter :: rest) =
      (places? fuel rest).map fun (places, rest) => (.char c :: places, rest) := by
  have other : letter ≠ 'u' := by
    rintro rfl
    cases h
  rw [places?.eq_def]
  simp only
  cases places? fuel rest <;> simp [h]

theorem places?_plain {c : Char} (quote : c ≠ '"') (backslash : c ≠ '\\')
    (control : ¬ c.toNat < 0x20) (fuel : Nat) (rest : List Char) :
    places? (fuel + 1) (c :: rest) =
      (places? fuel rest).map fun (places, rest) => (.char c :: places, rest) := by
  rw [places?.eq_def]
  simp only
  split
  · next absurd => cases absurd
  · next same => exact absurd (List.cons.inj same).1 quote
  · next same => exact absurd (List.cons.inj same).1 backslash
  · next same => exact absurd (List.cons.inj same).1 backslash
  · next same =>
    obtain ⟨rfl, rfl⟩ := List.cons.inj same
    rw [if_neg (by simp [control, backslash])]
    cases places? fuel rest <;> rfl

/-- One character is read back as it was written. -/
theorem places?_writeChar (c : Char) (fuel : Nat) (rest : List Char) :
    places? (fuel + 1) (writeChar c ++ rest) =
      (places? fuel rest).map fun (places, rest) => (placeOf c :: places, rest) := by
  unfold writeChar
  split
  all_goals try exact places?_escape rfl fuel rest
  next quote backslash backspace formFeed newline carriage tab =>
    by_cases control : c.toNat < 0x20
    · have unit : placeOf c = .unit c.toNat := by simp_all [placeOf]
      rw [if_pos control, unit]
      simp only [List.cons_append, List.nil_append, places?, unit?_control control]
      cases read : places? fuel rest <;> simp [read]
    · have char : placeOf c = .char c := by simp [placeOf, control]
      rw [if_neg control, char, List.singleton_append, places?_plain quote backslash control]

theorem places?_writeString (cs : List Char) {fuel : Nat} (enough : cs.length < fuel)
    (rest : List Char) :
    places? fuel (cs.flatMap writeChar ++ '"' :: rest) = some (cs.map placeOf, rest) := by
  induction cs generalizing fuel with
  | nil =>
    cases fuel with
    | zero => simp at enough
    | succ fuel => rfl
  | cons c cs ih =>
    cases fuel with
    | zero => simp at enough
    | succ fuel =>
      rw [List.flatMap_cons, List.append_assoc, places?_writeChar,
        ih (Nat.lt_of_succ_lt_succ enough)]
      rfl

theorem textOf?_unit {n : Nat} (h : n < 0xD800) (places : List Place) :
    textOf? (.unit n :: places) = (textOf? places).map (Char.ofNat n :: ·) := by
  have notHigh : ¬ (0xD800 ≤ n ∧ n < 0xDC00) := by omega
  have notLow : ¬ (0xDC00 ≤ n ∧ n < 0xE000) := by omega
  have notHalf : ¬ (0xD800 ≤ n ∧ n < 0xE000) := by omega
  cases places with
  | nil => simp [textOf?, notHalf]
  | cons place places =>
    cases place with
    | char c => simp [textOf?, notHalf]
    | unit m => rw [textOf?, if_neg notHigh, if_neg notLow]

theorem textOf?_placeOf (cs : List Char) : textOf? (cs.map placeOf) = some cs := by
  induction cs with
  | nil => rfl
  | cons c cs ih =>
    rw [List.map_cons, placeOf]
    split
    · next control => rw [textOf?_unit (by omega), ih]; simp
    · rw [textOf?, ih]; rfl

theorem length_le_flatMap_writeChar (cs : List Char) :
    cs.length ≤ (cs.flatMap writeChar).length := by
  induction cs with
  | nil => simp
  | cons c cs ih =>
    have one : 1 ≤ (writeChar c).length := by
      unfold writeChar
      split
      all_goals try simp
      split <;> simp
    simp only [List.flatMap_cons, List.length_append, List.length_cons]
    omega

/-- A string is read back as it was written. -/
theorem string?_write (s : String) (rest : List Char) :
    string? (s.toList.flatMap writeChar ++ '"' :: rest) = some (some s, rest) := by
  have long := length_le_flatMap_writeChar s.toList
  have enough : s.toList.length < (s.toList.flatMap writeChar ++ '"' :: rest).length + 1 := by
    rw [List.length_append]
    omega
  rw [string?, places?_writeString s.toList enough]
  simp [textOf?_placeOf]

/-! ## Integers -/

/-- No digit follows, and nothing else that continues a numeral. -/
def Ends (rest : List Char) : Prop :=
  ∀ c ∈ rest.head?, c = ',' ∨ c = ']' ∨ c = '\x7d'

theorem Ends.not_digit {rest : List Char} (h : Ends rest) :
    rest.takeWhile Char.isDigit = [] ∧ rest.dropWhile Char.isDigit = rest := by
  cases rest with
  | nil => exact ⟨rfl, rfl⟩
  | cons c rest =>
    obtain rfl | rfl | rfl := h c rfl <;> exact ⟨rfl, rfl⟩

theorem digits?_extend {cs ds left rest : List Char} (h : digits? cs = some (ds, left))
    (ends : Ends rest) : digits? (cs ++ rest) = some (ds, left ++ rest) := by
  obtain ⟨taken, kept⟩ := ends.not_digit
  have same : (cs ++ rest).takeWhile Char.isDigit = cs.takeWhile Char.isDigit ∧
      (cs ++ rest).dropWhile Char.isDigit = cs.dropWhile Char.isDigit ++ rest := by
    clear h
    induction cs with
    | nil => exact ⟨taken, kept⟩
    | cons c cs ih => by_cases digit : c.isDigit = true <;> simp [digit, ih]
  unfold digits? at h ⊢
  rw [same.1, same.2]
  simp only at h ⊢
  split at h
  · cases h
  · next some_there =>
    cases h
    rw [if_neg some_there]

theorem whole?_extend {cs ds left rest : List Char} (h : whole? cs = some (ds, left))
    (ends : Ends rest) : whole? (cs ++ rest) = some (ds, left ++ rest) := by
  unfold whole? at h
  split at h
  · next c more =>
    split at h
    · cases h
    · next notDigit =>
      cases h
      simp [whole?, notDigit]
  · next single =>
    rw [← digits?_extend h ends]
    unfold whole?
    split
    · next c more same =>
      cases cs with
      | nil => cases h
      | cons d cs =>
        cases cs with
        | nil =>
          obtain ⟨rfl, rfl⟩ := List.cons.inj same
          obtain rfl | rfl | rfl := ends c rfl <;> rfl
        | cons e cs =>
          obtain ⟨rfl, -⟩ := List.cons.inj same
          exact absurd rfl (single e cs)
    · rfl

theorem fraction?_extend {cs left rest : List Char} {fraction : Option (List Char)}
    (h : fraction? cs = some (fraction, left)) (ends : Ends rest) :
    fraction? (cs ++ rest) = some (fraction, left ++ rest) := by
  cases cs with
  | nil =>
    cases h
    cases rest with
    | nil => rfl
    | cons c rest => obtain rfl | rfl | rfl := ends c rfl <;> rfl
  | cons c cs =>
    unfold fraction? at h ⊢
    split at h
    · next same =>
      obtain ⟨rfl, rfl⟩ := List.cons.inj same
      obtain ⟨⟨ds, more⟩, read, found⟩ := Option.map_eq_some_iff.mp h
      cases found
      simp [digits?_extend read ends]
    · next other =>
      cases h
      split
      · next same => exact absurd (by rw [(List.cons.inj same).1]) (other cs)
      · rfl

theorem exponent?_extend {cs left rest : List Char} {exponent : Option (Bool × List Char)}
    (h : exponent? cs = some (exponent, left)) (ends : Ends rest) :
    exponent? (cs ++ rest) = some (exponent, left ++ rest) := by
  cases cs with
  | nil =>
    cases h
    cases rest with
    | nil => rfl
    | cons c rest => obtain rfl | rfl | rfl := ends c rfl <;> rfl
  | cons c cs =>
    unfold exponent? at h ⊢
    simp only [List.cons_append] at h ⊢
    split at h
    · next mark =>
      rw [if_pos mark]
      split at h
      · obtain ⟨⟨ds, more⟩, read, found⟩ := Option.map_eq_some_iff.mp h
        cases found
        simp [digits?_extend read ends]
      · obtain ⟨⟨ds, more⟩, read, found⟩ := Option.map_eq_some_iff.mp h
        cases found
        simp [digits?_extend read ends]
      · next plus minus =>
        obtain ⟨⟨ds, more⟩, read, found⟩ := Option.map_eq_some_iff.mp h
        cases found
        cases cs with
        | nil => cases read
        | cons d cs =>
          have more := digits?_extend read ends
          split
          · next same => exact absurd (by rw [(List.cons.inj same).1]) (plus cs)
          · next same => exact absurd (by rw [(List.cons.inj same).1]) (minus cs)
          · rw [more]
            rfl
    · next mark =>
      cases h
      rw [if_neg mark]
      rfl

theorem unsigned?_extend {negative : Bool} {cs rest : List Char} {x : Numeral}
    (h : unsigned? negative cs = some (x, [])) (ends : Ends rest) :
    unsigned? negative (cs ++ rest) = some (x, rest) := by
  obtain ⟨⟨whole, cs₁⟩, first, h⟩ := Option.bind_eq_some_iff.mp h
  obtain ⟨⟨fraction, cs₂⟩, second, h⟩ := Option.bind_eq_some_iff.mp h
  obtain ⟨⟨exponent, cs₃⟩, third, h⟩ := Option.bind_eq_some_iff.mp h
  cases h
  simp [unsigned?, whole?_extend first ends, fraction?_extend second ends,
    exponent?_extend third ends]

/-- A numeral is read in the same way when something else follows it. -/
theorem numeral?_extend {cs rest : List Char} {x : Numeral} (h : numeral? cs = some (x, []))
    (ends : Ends rest) : numeral? (cs ++ rest) = some (x, rest) := by
  unfold numeral? at h
  split at h
  · exact unsigned?_extend h ends
  · next positive =>
    rw [← unsigned?_extend h ends]
    unfold numeral?
    split
    · next same =>
      cases cs with
      | nil => cases h
      | cons c cs => exact absurd (by rw [(List.cons.inj same).1]) (positive cs)
    · rfl

theorem head?_toDigits {n : Nat} (h : 0 < n) : (Nat.toDigits 10 n).head? ≠ some '0' := by
  induction n using Nat.strongRecOn with
  | _ n ih =>
    by_cases small : n < 10
    · have digit : ∀ d < 10, 0 < d → (some d.digitChar : Option Char) ≠ some '0' := by decide
      rw [Nat.toDigits_of_lt_base small]
      exact digit n small h
    · rw [Nat.toDigits_of_base_le (by decide) (by omega), List.head?_append]
      have shorter := ih (n / 10) (by omega) (by omega)
      cases first : (Nat.toDigits 10 (n / 10)).head? with
      | none => exact absurd (List.head?_eq_none_iff.mp first) Nat.toDigits_ne_nil
      | some c => simpa [first] using shorter

theorem toDigits_plain (n : Nat) :
    Nat.toDigits 10 n = ['0'] ∨ (Nat.toDigits 10 n).head? ≠ some '0' := by
  rcases Nat.eq_zero_or_pos n with rfl | positive
  · exact .inl (Nat.toDigits_zero 10)
  · exact .inr (head?_toDigits positive)

/-- Digits are taken in as long as their number stays in range. -/
theorem takeDigits_eq {ds : List Char} {n : Nat}
    (fits : ds.foldl (fun n c => n * 10 + digitValue c) n < Nat.pow 2 64) :
    takeDigits n ds = (ds.foldl (fun n c => n * 10 + digitValue c) n, []) := by
  induction ds generalizing n with
  | nil => rfl
  | cons c ds ih =>
    have grows : ∀ (ds : List Char) (n : Nat),
        n ≤ ds.foldl (fun n c => n * 10 + digitValue c) n := by
      intro ds
      induction ds with
      | nil => exact fun n => Nat.le_refl n
      | cons c ds ih => exact fun n => Nat.le_trans (by omega) (ih (n * 10 + digitValue c))
    rw [List.foldl_cons] at fits ⊢
    rw [takeDigits, if_pos (Nat.lt_of_le_of_lt (grows ds _) fits), ih fits]

theorem foldl_toDigits (n : Nat) :
    (Nat.toDigits 10 n).foldl (fun n c => n * 10 + digitValue c) 0 = n := by
  have read := Nat.ofDigitChars_toDigits (b := 10) (n := n) (by decide) (by decide)
  rw [Nat.ofDigitChars_eq_foldl] at read
  simpa only [digitValue, Nat.mul_comm] using read

theorem takeDigits_toDigits {n : Nat} (h : n < Nat.pow 2 64) :
    takeDigits 0 (Nat.toDigits 10 n) = (n, []) := by
  rw [takeDigits_eq (by rwa [foldl_toDigits]), foldl_toDigits]


/-- The numerals of integers have no fraction and no exponent. -/
theorem unsigned?_toDigits (negative : Bool) (n : Nat) :
    unsigned? negative (Nat.toDigits 10 n) =
      some (⟨negative, Nat.toDigits 10 n, none, none⟩, []) := by
  have whole : whole? (Nat.toDigits 10 n) = some (Nat.toDigits 10 n, []) := by
    have digits : ∀ c ∈ Nat.toDigits 10 n, c.isDigit = true :=
      fun c => Nat.isDigit_of_mem_toDigits (by decide) (by decide)
    have all : digits? (Nat.toDigits 10 n) = some (Nat.toDigits 10 n, []) := by
      have taken := @List.takeWhile_append_of_pos _ _ _ [] digits
      have left := @List.dropWhile_append_of_pos _ _ _ [] digits
      simp only [List.append_nil, List.takeWhile_nil, List.dropWhile_nil] at taken left
      simp [digits?, taken, left]
    unfold whole?
    split
    · next c rest same =>
      rcases toDigits_plain n with single | plain
      · rw [single] at same
        cases same
      · rw [same] at plain
        exact absurd rfl plain
    · exact all
  simp [unsigned?, whole, fraction?, exponent?]

theorem numeral?_toDigits (n : Nat) :
    numeral? (Nat.toDigits 10 n) = some (⟨false, Nat.toDigits 10 n, none, none⟩, []) := by
  rw [← unsigned?_toDigits false n]
  unfold numeral?
  split
  · next rest same =>
    have digit := Nat.isDigit_of_mem_toDigits (b := 10) (n := n) (c := '-') (by decide) (by decide)
      (same ▸ List.mem_cons_self)
    exact absurd digit (by decide)
  · rfl

/-- A number is read back as it was written, when nothing follows it. -/
def Exact (n : Number) : Prop :=
  ∃ x, numeral? (writeNumber n) = some (x, []) ∧ x.number? = some n

/-- An integer that fits is read back as it was written. -/
theorem exact_int {n : Int} (low : leastInt ≤ n) (high : n < Int.ofNat (Nat.pow 2 64)) :
    Exact (.int n) := by
  by_cases negative : n < 0
  · have size : n.natAbs ≤ Nat.pow 2 63 := by simp [leastInt] at low; simp; omega
    have fits : n.natAbs < Nat.pow 2 64 := by simp at size ⊢; omega
    refine ⟨⟨true, Nat.toDigits 10 n.natAbs, none, none⟩, ?_, ?_⟩
    · rw [writeNumber, writeInt, if_pos negative]
      exact unsigned?_toDigits true n.natAbs
    · have back : -(n.natAbs : Int) = n := by omega
      have some_there : ¬ (n.natAbs = 0 ∨ Nat.pow 2 63 < n.natAbs) := by omega
      simp only [Numeral.number?, takeDigits_toDigits fits, if_neg some_there]
      change some (Number.int (-n.natAbs)) = _
      rw [back]
  · have fits : n.natAbs < Nat.pow 2 64 := by simp at high ⊢; omega
    refine ⟨⟨false, Nat.toDigits 10 n.natAbs, none, none⟩, ?_, ?_⟩
    · rw [writeNumber, writeInt, if_neg negative]
      exact numeral?_toDigits n.natAbs
    · have back : (n.natAbs : Int) = n := by omega
      simp only [Numeral.number?, takeDigits_toDigits fits]
      change some (Number.int n.natAbs) = _
      rw [back]

end CertEnrollment.Json
