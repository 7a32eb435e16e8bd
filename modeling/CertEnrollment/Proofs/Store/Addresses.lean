import CertEnrollment.Proofs.Url.Escapes
import CertEnrollment.Proofs.Url.Servers
import CertEnrollment.Store.Options

/-!
# Addresses of servers

The host of a server is put into the text of its URL. What is the written form of a host is found
again there, with the port after it; any other text is changed or cut up. The password is put into
the URL afterwards, where whoever connects decodes it. Percent signs in it are not encoded, so a
password with an escape in it is taken for another one.
-/
namespace CertEnrollment.Store
open Text Url

/-! ## Texts of addresses -/

/-- What is read as the address of the options. -/
def Options.text (o : Options) : String := "redis://" ++ o.host ++ ":" ++ toString o.port ++ "/"

/-- A text without tabs and line breaks, which do not count in URLs. -/
def visible (cs : List Char) : List Char := cs.filter fun c => !(c == '\t' || c == '\n' || c == '\r')

/-- The URL of a server, from the text between the slashes. -/
def readServer (place : List Char) : Option Url :=
  let parts := (place ++ ['/']).span (!endsAuthority false ·)
  (authority? "redis" parts.1).map fun found =>
    let (path, query, fragment) := cutTail parts.2
    { scheme := "redis", username := found.1.username, password := found.1.password
      host := some found.1.host, port := found.1.port
      path := pathAfter false (found.2 ++ path)
      query := query.map fun q => String.ofList (percentEncode (inQuerySet false) q)
      fragment := fragment.map fun f => String.ofList (percentEncode inFragmentSet f) }

theorem clean_text (o : Options) : clean o.text =
    "redis://".toList ++ (visible (o.host.toList ++ ':' :: Nat.toDigits 10 o.port) ++ ['/']) := by
  have spelled : o.text.toList =
      "redis://".toList ++ (o.host.toList ++ ':' :: Nat.toDigits 10 o.port ++ ['/']) := by
    simp [Options.text]
  have front : o.text.toList.dropWhile (·.toNat ≤ 0x20) = o.text.toList := by
    refine dropWhile_eq_self fun c hc => ?_
    rw [spelled] at hc
    obtain rfl := Option.some.inj hc
    decide
  have back : dropEndWhile (·.toNat ≤ 0x20) o.text.toList = o.text.toList := by
    refine dropEndWhile_eq_self fun c hc => ?_
    rw [spelled, ← List.append_assoc, List.getLast?_concat] at hc
    obtain rfl := Option.some.inj hc
    decide
  rw [clean, front, back, spelled, visible]
  simp

theorem parse?_text (o : Options) :
    parse? o.text = readServer (visible (o.host.toList ++ ':' :: Nat.toDigits 10 o.port)) := by
  rw [parse?, clean_text]
  generalize visible (o.host.toList ++ ':' :: Nat.toDigits 10 o.port) = place
  have named : scheme? ("redis://".toList ++ (place ++ ['/'])) =
      some ("redis", '/' :: '/' :: (place ++ ['/'])) := rfl
  have general : isSpecial "redis" = false := by decide
  have notFile : "redis" ≠ "file" := by decide
  have slashes : authorityText? "redis" ('/' :: '/' :: (place ++ ['/'])) = some (place ++ ['/']) := by
    rw [authorityText?, if_neg notFile, general]
    rfl
  simp only [named, Option.bind_eq_bind, Option.bind_some, general, slashes, if_neg notFile]
  rw [readServer]
  cases authority? "redis" ((place ++ ['/']).span (!endsAuthority false ·)).1 <;> rfl

/-- Where the host is read whole, the address is one of the server at the port. -/
theorem parse?_text_of_readsWhole {o : Options} (whole : ReadsWhole o.host.toList) :
    parse? o.text = (opaqueHost? o.host.toList).bind fun host =>
      if host = [] ∨ 65535 < o.port then none
      else some
        { scheme := "redis", username := "", password := "", host := some (String.ofList host)
          port := some o.port, path := .segments [""], query := none, fragment := none } := by
  have digits := digits_toDigits o.port
  have noMark : ∀ c ∈ o.host.toList ++ ':' :: Nat.toDigits 10 o.port, c ∉ marks := by
    have noDigits : (marks.all fun m => !m.isDigit) = true := by decide
    intro c hc
    rcases List.mem_append.mp hc with hc | hc
    · exact whole.free c hc
    · rcases List.mem_cons.mp hc with rfl | hc
      · decide
      · intro mark
        have noDigit : c.isDigit = false := by simpa using List.all_eq_true.mp noDigits c mark
        exact digits.not_mem noDigit hc
  have kept : visible (o.host.toList ++ ':' :: Nat.toDigits 10 o.port) =
      o.host.toList ++ ':' :: Nat.toDigits 10 o.port := by
    refine List.filter_eq_self.mpr fun c hc => ?_
    have other := noMark c hc
    simp only [marks, List.mem_cons, not_or] at other
    simp [other]
  have front : (o.host.toList ++ ':' :: Nat.toDigits 10 o.port).span (!endsAuthority false ·) =
      (o.host.toList ++ ':' :: Nat.toDigits 10 o.port, []) := by
    refine span_of_all fun c hc => ?_
    have other := noMark c hc
    simp only [marks, List.mem_cons, not_or] at other
    simp [endsAuthority, other]
  rw [parse?_text, kept, readServer, span_append_cons (by decide), front,
    authority?_of_readsWhole (by decide) whole, Option.map_bind]
  refine congrArg (Option.bind _) (funext fun host => ?_)
  rw [Function.comp]
  by_cases refused : host = [] ∨ 65535 < o.port
  · rw [if_pos refused, if_pos refused]
    rfl
  · rw [if_neg refused, if_neg refused]
    rfl

/-! ## What an address says -/

/-- The host is the written form of a host, which is there. -/
def KeepsHost (host : String) : Prop := host ≠ "" ∧ opaqueHost? host.toList = some host.toList

instance (host : String) : Decidable (KeepsHost host) :=
  inferInstanceAs (Decidable (host ≠ "" ∧ opaqueHost? host.toList = some host.toList))

/-- A host of ASCII characters that may stand in hosts is its own written form. -/
theorem keepsHost_of_plain {host : String} (some_there : host ≠ "")
    (plain : (host.toList.all fun c =>
      c.toNat < 0x80 && !isControl c && !isForbiddenInHost c) = true) : KeepsHost host := by
  have free : ∀ c ∈ host.toList,
      (c.toNat < 0x80 ∧ isControl c = false) ∧ isForbiddenInHost c = false := by
    simpa using plain
  have itself : percentEncode isControl host.toList = host.toList :=
    percentEncode_eq_self fun c hc => (free c hc).1
  refine ⟨some_there, ?_⟩
  unfold opaqueHost?
  split
  · next rest spelled =>
    have bracket := (free '[' (by simp [spelled])).2
    cases bracket
  · rw [itself, if_neg]
    rw [List.any_eq_true]
    rintro ⟨c, hc, forbidden⟩
    cases (free c hc).2.symm.trans forbidden

/-- The password that is put into an address; an empty one is none. -/
def Options.secret? (o : Options) : Option String := o.password.filter (· ≠ "")

/-- What an address is made of. -/
theorem Options.of_url {o : Options} {u : Url} (made : o.url = .ok u) :
    ∃ v, parse? o.text = some v ∧
      u = { v with password := match o.secret? with
        | none => v.password
        | some p => String.ofList (percentEncode inUserinfoSet p.toList) } := by
  rw [Options.url] at made
  split at made
  · cases made
  · next v read =>
    refine ⟨v, read, ?_⟩
    split at made
    · next absent =>
      rw [Options.secret?, absent]
      exact (Except.ok.inj made).symm
    · next p secret =>
      rw [Options.secret?, secret]
      split at made
      · next w set =>
        obtain rfl := Except.ok.inj made
        rw [setPassword?] at set
        split at set
        · cases set
        · exact (Option.some.inj set).symm
      · cases made

/-- An address can be made of everything that is read as one. -/
theorem Options.exists_url {o : Options} {v : Url} (read : parse? o.text = some v)
    (placed : ¬(v.host.all (·.isEmpty) = true ∨ v.scheme = "file")) :
    ∃ u, o.url = .ok u := by
  have text : parse? ("redis://" ++ o.host ++ ":" ++ toString o.port ++ "/") = some v := read
  rw [Options.url, text]
  cases secret : o.password.filter (· ≠ "") with
  | none => exact ⟨v, rfl⟩
  | some p =>
    simp only [setPassword?, if_neg placed]
    exact ⟨_, rfl⟩

variable {o : Options} {u v : Url} {p : String}

/-- The address of a host that is kept, before a password is put into it. -/
theorem parse?_text_of_keepsHost (keeps : KeepsHost o.host) :
    parse? o.text = if 65535 < o.port then none else some
      { scheme := "redis", username := "", password := "", host := some o.host
        port := some o.port, path := .segments [""], query := none, fragment := none } := by
  obtain ⟨some_there, itself⟩ := keeps
  have filled : o.host.toList ≠ [] := fun empty => some_there (String.toList_eq_nil_iff.mp empty)
  rw [parse?_text_of_readsWhole (readsWhole_of_opaqueHost? itself), itself, Option.bind_some,
    String.ofList_toList]
  simp [filled]

/-- The authority that an address is read from. -/
theorem authority_of_text (read : parse? o.text = some v) : ∃ cs a extra,
    authority? "redis" cs = some (a, extra) ∧
      (∀ c ∈ cs, c ∈ o.host.toList ∨ c ∈ ':' :: Nat.toDigits 10 o.port) ∧
      v.host = some a.host ∧ v.password = a.password := by
  rw [parse?_text] at read
  obtain ⟨⟨a, extra⟩, found, rfl⟩ := Option.map_eq_some_iff.mp read
  refine ⟨_, a, extra, found, fun c hc => ?_, rfl, rfl⟩
  rw [List.span_eq_takeWhile_dropWhile] at hc
  have inside : (!endsAuthority false c) = true := List.all_eq_true.mp List.all_takeWhile c hc
  rcases List.mem_append.mp ((List.takeWhile_prefix _).subset hc) with hc | hc
  · exact List.mem_append.mp (List.mem_filter.mp hc).1
  · rw [List.mem_singleton.mp hc] at inside
    cases inside

/-- The written form of a host comes from no other text than itself. -/
theorem keepsHost_of_read (read : parse? o.text = some v) (same : v.host = some o.host) :
    KeepsHost o.host ∧ v.port = some o.port := by
  obtain ⟨cs, a, extra, found, -, host, -⟩ := authority_of_text read
  obtain ⟨⟨text, written, form, spelled⟩, -⟩ := authority?_eq_some (by decide) found
  have whole : ReadsWhole o.host.toList := by
    have chars : o.host.toList = written := by
      rw [← Option.some.inj (host.symm.trans same), spelled, String.toList_ofList]
    exact chars ▸ readsWhole_of_opaqueHost? form
  rw [parse?_text_of_readsWhole whole] at read
  obtain ⟨again, itself, read⟩ := Option.bind_eq_some_iff.mp read
  split at read
  · cases read
  · next accepted =>
    obtain rfl := Option.some.inj read
    have chars : again = o.host.toList := by
      rw [← Option.some.inj same, String.toList_ofList]
    subst chars
    refine ⟨⟨fun empty => accepted (.inl ?_), itself⟩, rfl⟩
    rw [empty]
    rfl

/-- A part of the user information that was encoded, where it has no escapes of its own. -/
theorem decodePart_userinfo (what : String) (some_there : p ≠ "")
    (plain : hasEscape p.toList = false) :
    decodePart what (String.ofList (percentEncode inUserinfoSet p.toList)) = .ok (some p) := by
  have decoded : percentDecode (String.ofList (percentEncode inUserinfoSet p.toList)) =
      Utf8.encode p := by
    rw [percentDecode_userinfo, percentDecode_eq_encode_iff]
    exact plain
  have filled : (String.ofList (percentEncode inUserinfoSet p.toList)).isEmpty = false := by
    rw [String.isEmpty_eq_false_iff]
    intro empty
    rw [empty] at decoded
    have same := Utf8.decode?_encode p
    rw [← decoded] at same
    exact some_there (Option.some.inj same).symm
  rw [decodePart, filled, decoded, Utf8.decode?_encode]
  rfl

/-- Who connects, from the address of a host that is kept. -/
theorem ofUrl_of_place {host : String} (some_there : host ≠ "") (port : Nat) (password : String) :
    Target.ofUrl
      { scheme := "redis", username := "", password, host := some host, port := some port
        path := .segments [""], query := none, fragment := none } =
      (decodePart "Password" password).map fun password => ⟨host, port, 0, none, password⟩ := by
  have present : (some host).filter (· ≠ "") = some host := by simp [some_there]
  have path : dropEndWhile (· == '/') ((Path.segments [""]).write.dropWhile (· == '/')) = [] := by
    decide
  have noName : decodePart "Username" "" = .ok none := rfl
  rw [Target.ofUrl]
  simp only [present, path, noName]
  cases decodePart "Password" password <;> rfl

theorem Options.password_of_url (made : o.url = .ok u) (set : o.password = some p)
    (some_there : p ≠ "") :
    u.password = String.ofList (percentEncode inUserinfoSet p.toList) := by
  obtain ⟨v, -, rfl⟩ := Options.of_url made
  have secret : o.secret? = some p := by simp [Options.secret?, set, some_there]
  simp only [secret]

theorem Options.password_of_url_absent (made : o.url = .ok u)
    (none_there : o.password = none ∨ o.password = some "") (noAt : '@' ∉ o.host.toList) :
    u.password = "" := by
  obtain ⟨v, read, rfl⟩ := Options.of_url made
  have secret : o.secret? = none := by rcases none_there with h | h <;> simp [Options.secret?, h]
  obtain ⟨cs, a, extra, found, inside, -, same⟩ := authority_of_text read
  have digits := digits_toDigits o.port
  have outside : '@' ∉ cs := by
    intro hc
    rcases inside _ hc with hc | hc
    · exact noAt hc
    · exact digits.not_mem (c := '@') (by decide) (by simpa using hc)
  simp only [secret]
  exact same.trans ((authority?_eq_some (by decide) found).2 outside).2

theorem Options.exists_url_of_keepsHost (keeps : KeepsHost o.host) (small : o.port ≤ 65535) :
    ∃ u, o.url = .ok u :=
  Options.exists_url ((parse?_text_of_keepsHost keeps).trans (if_neg (Nat.not_lt.mpr small)))
    (by simpa using keeps.1)

theorem Options.target_of_keepsHost (keeps : KeepsHost o.host) (small : o.port ≤ 65535)
    (plain : ∀ p, o.password = some p → hasEscape p.toList = false) :
    o.target = .ok ⟨o.host, o.port, 0, none, o.secret?⟩ := by
  obtain ⟨u, made⟩ := Options.exists_url_of_keepsHost keeps small
  obtain ⟨v, read, rfl⟩ := Options.of_url made
  rw [parse?_text_of_keepsHost keeps, if_neg (Nat.not_lt.mpr small)] at read
  obtain rfl := Option.some.inj read
  rw [Options.target, made]
  change Target.ofUrl _ = .ok ⟨o.host, o.port, 0, none, o.secret?⟩
  rw [ofUrl_of_place keeps.1]
  cases secret : o.secret? with
  | none => rfl
  | some p =>
    obtain ⟨set, some_there⟩ := Option.filter_eq_some_iff.mp secret
    simp only [decodePart_userinfo "Password" (by simpa using some_there) (plain p set)]
    rfl

/-- What the options of a connection come to. -/
structure Addressed (o : Options) : Prop where
  /-- With a host that is kept, there is an address. -/
  made : KeepsHost o.host → o.port ≤ 65535 → ∃ u, o.url = .ok u
  /-- The address has the host and the port of the options just when the host is kept. -/
  place : ∀ u, o.url = .ok u → (u.host = some o.host ∧ u.port = some o.port ↔ KeepsHost o.host)
  /-- A password is decoded with the escapes that it has itself, -/
  secret : ∀ u p, o.url = .ok u → o.password = some p → p ≠ "" →
    percentDecode u.password = percentDecode p
  /-- and so to itself just when it has none. -/
  kept : ∀ u p, o.url = .ok u → o.password = some p → p ≠ "" →
    (percentDecode u.password = Utf8.encode p ↔ hasEscape p.toList = false)
  /-- Without a password there is none in the address, unless the host brings one. -/
  absent : ∀ u, o.url = .ok u → o.password = none ∨ o.password = some "" →
    '@' ∉ o.host.toList → u.password = ""
  /-- Who connects to the address of a host that is kept, with a password that has no escapes, goes
  where the options say. -/
  target : KeepsHost o.host → o.port ≤ 65535 →
    (∀ p, o.password = some p → hasEscape p.toList = false) →
    o.target = .ok ⟨o.host, o.port, 0, none, o.password.filter (· ≠ "")⟩

/-- For all options, the host says what becomes of host and port, and the escapes in the password
what becomes of the password. -/
theorem addressed (o : Options) : Addressed o where
  made keeps small := Options.exists_url_of_keepsHost keeps small
  place u made := by
    obtain ⟨v, read, rfl⟩ := Options.of_url made
    refine ⟨fun same => (keepsHost_of_read read same.1).1, fun keeps => ?_⟩
    rw [parse?_text_of_keepsHost keeps] at read
    split at read
    · cases read
    · obtain rfl := Option.some.inj read
      exact ⟨rfl, rfl⟩
  secret u p made set some_there := by
    rw [Options.password_of_url made set some_there, percentDecode_userinfo]
  kept u p made set some_there := by
    rw [Options.password_of_url made set some_there, percentDecode_userinfo,
      percentDecode_eq_encode_iff]
  absent u made none_there noAt := Options.password_of_url_absent made none_there noAt
  target keeps small plain := Options.target_of_keepsHost keeps small plain

/-- The password `%41` is taken for `A`, and the host `a/b` for `a` at no port. -/
theorem other_password_and_host :
    (∃ u, Options.url ⟨"localhost", 6379, some "%41"⟩ = .ok u ∧
      percentDecode u.password = Utf8.encode "A" ∧
      percentDecode u.password ≠ Utf8.encode "%41") ∧
    Options.target ⟨"localhost", 6379, some "%41"⟩ = .ok ⟨"localhost", 6379, 0, none, some "A"⟩ ∧
    ∃ u, Options.url ⟨"a/b", 6379, none⟩ = .ok u ∧ u.host = some "a" ∧ u.port = none := by
  refine ⟨⟨{ scheme := "redis", username := "", password := "%41", host := some "localhost"
             port := some 6379, path := .segments [""], query := none, fragment := none }, ?_⟩, ?_,
    ⟨{ scheme := "redis", username := "", password := "", host := some "a", port := none
       path := .segments ["b:6379", ""], query := none, fragment := none }, ?_⟩⟩
  · decide +kernel
  · decide +kernel
  · decide +kernel

/-- Signs that end the user information or a host are encoded in a password. -/
example : (Options.url ⟨"10.0.0.5", 6380, some "p@ss"⟩).toOption.map Url.write =
    some "redis://:p%40ss@10.0.0.5:6380/" := by
  decide +kernel

/-- Names are kept, and addresses of version 6 in their shortest form. -/
example : KeepsHost "Redis-1.internal" ∧ KeepsHost "[::1]" ∧ ¬ KeepsHost "[0:0:0:0:0:0:0:1]" :=
  ⟨keepsHost_of_plain (by decide) (by decide), by decide +kernel⟩

end CertEnrollment.Store
